import LogQuery.Catalog

/-!
# Parameters that fit their layout

A definition declares what each position of a parameter list holds. A list fits when it is as
long as the one a new operation starts with, or at least as long where the last parameter
repeats, and when every parameter is of the declared kind. The bounds of ranges are the one
exception: they are declared as numbers and may stay texts, so that a query keeps them as they
were typed. Only the kinds of the parameters decide, so the lists that readers build out of
unknown texts and numbers are checked by computation.
-/

namespace LogQuery

/-- The kind of position that a parameter belongs in. -/
def Param.kind : Param → ParamKind
  | text _ => .string
  | number _ => .number
  | flag _ => .boolean

/-- What a layout declares for a position. A parameter that repeats stands for all positions
behind the last one. -/
def ParamSpec.at? (layout : List ParamSpec) (i : Nat) : Option ParamSpec :=
  layout[i]?.or (layout.find? fun spec => spec.repeats)

/-- The positions of the bounds of a range of numbers. -/
def OperationId.isBound (id : OperationId) (i : Nat) : Bool :=
  (id == .range || id == .lenRange) && (i == 1 || i == 2)

namespace Definition

/-- Some parameter repeats to the end of the list. -/
def isOpen (d : Definition) : Bool := d.params.any fun spec => spec.repeats

/-- The parameter is of the kind declared for the position, or it is a bound kept as text. -/
def admits (d : Definition) (i : Nat) (p : Param) : Bool :=
  (ParamSpec.at? d.params i).any fun spec =>
    p.kind == spec.kind || d.id.isBound i && p.kind == .string

/-- The parameters are as many as the definition asks for, each of its declared kind. -/
structure Fits (d : Definition) (ps : List Param) : Prop where
  count : if d.isOpen then d.defaults.length ≤ ps.length else ps.length = d.defaults.length
  kinds : ∀ i p, ps[i]? = some p → d.admits i p = true

/-- Every parameter is admitted at its position, the first of them standing at `i`. -/
def admitsFrom (d : Definition) (i : Nat) : List Param → Bool
  | [] => true
  | p :: ps => d.admits i p && d.admitsFrom (i + 1) ps

/-- Checks that the parameters fit. -/
def accepts (d : Definition) (ps : List Param) : Bool :=
  (if d.isOpen then decide (d.defaults.length ≤ ps.length)
    else ps.length == d.defaults.length) && d.admitsFrom 0 ps

theorem admitsFrom_eq_true_iff {d : Definition} {i : Nat} {ps : List Param} :
    d.admitsFrom i ps = true ↔ ∀ j p, ps[j]? = some p → d.admits (i + j) p = true := by
  induction ps generalizing i with
  | nil => simp [admitsFrom]
  | cons p ps ih =>
      rw [admitsFrom, Bool.and_eq_true, ih]
      constructor
      · rintro ⟨first, rest⟩ j q hq
        cases j with
        | zero =>
            rw [List.getElem?_cons_zero, Option.some.injEq] at hq
            exact hq ▸ first
        | succ j =>
            have later := rest j q (by simpa using hq)
            rwa [Nat.add_assoc, Nat.add_comm 1] at later
      · intro all
        refine ⟨all 0 p rfl, fun j q hq => ?_⟩
        have later := all (j + 1) q (by simpa using hq)
        rwa [Nat.add_assoc, Nat.add_comm 1]

theorem accepts_eq_true_iff {d : Definition} {ps : List Param} :
    d.accepts ps = true ↔ d.Fits ps := by
  have count : (if d.isOpen then decide (d.defaults.length ≤ ps.length)
      else ps.length == d.defaults.length) = true ↔
      if d.isOpen then d.defaults.length ≤ ps.length else ps.length = d.defaults.length := by
    split <;> simp
  rw [accepts, Bool.and_eq_true, count, admitsFrom_eq_true_iff]
  simp only [Nat.zero_add]
  exact ⟨fun h => ⟨h.1, h.2⟩, fun h => ⟨h.count, h.kinds⟩⟩

instance (d : Definition) (ps : List Param) : Decidable (d.Fits ps) :=
  decidable_of_iff _ accepts_eq_true_iff

theorem Fits.of_accepts {d : Definition} {ps : List Param} (h : d.accepts ps = true) : d.Fits ps :=
  accepts_eq_true_iff.mp h

/-- Texts fit a layout of texts to the end of the list, if there are enough of them. -/
theorem Fits.of_texts {d : Definition} {ps : List Param} (repeats : d.isOpen = true)
    (layout : ∀ i, (ParamSpec.at? d.params i).map ParamSpec.kind = some .string)
    (enough : d.defaults.length ≤ ps.length) (texts : ∀ p ∈ ps, p.kind = .string) :
    d.Fits ps where
  count := by rwa [if_pos repeats]
  kinds i p hp := by
    obtain ⟨spec, declared, kind⟩ := Option.map_eq_some_iff.mp (layout i)
    have text := texts p (List.mem_of_getElem? hp)
    simp [admits, declared, kind, text]

/-- What a new operation starts with fits its definition. -/
theorem fits_defaults (s : Scope) (id : OperationId) :
    (define s id).Fits (define s id).defaults := by
  apply Fits.of_accepts
  cases id <;> rfl

end Definition

/-- The parameters of the operation fit its definition. -/
def Operation.WellTyped (s : Scope) (op : Operation) : Prop := (define s op.id).Fits op.params

instance (s : Scope) (op : Operation) : Decidable (op.WellTyped s) :=
  inferInstanceAs (Decidable ((define s op.id).Fits op.params))

end LogQuery
