import LogQuery.Text.Basic

/-!
# Pieces between separators

Cutting a text at all characters of some kind gives its pieces, the empty ones left out. A
separator more or less between two texts, or at an end, changes no piece, so the pieces of a text
can be found part by part.
-/

namespace LogQuery.Text

variable {p : Char → Bool} {c : Char} {g w : Text}

/-- What stands between the separators of a text and its ends. -/
def pieces (isSeparator : Char → Bool) (t : Text) : List Text :=
  (t.splitOnP isSeparator).filter fun w => !w.isEmpty

@[simp] theorem pieces_nil (p : Char → Bool) : pieces p [] = [] := rfl

theorem pieces_append_cons (t : Text) (h : p c = true) (u : Text) :
    pieces p (t ++ c :: u) = pieces p t ++ pieces p u := by
  rw [pieces, List.splitOnP_append_cons t u h, List.filter_append]
  rfl

theorem pieces_cons (h : p c = true) (u : Text) : pieces p (c :: u) = pieces p u :=
  pieces_append_cons [] h u

theorem pieces_concat (t : Text) (h : p c = true) : pieces p (t ++ [c]) = pieces p t := by
  rw [pieces_append_cons t h, pieces_nil, List.append_nil]

/-- A text without separators is a piece. -/
theorem pieces_of_unbroken (h : ∀ c ∈ w, p c = false) (nonempty : w ≠ []) : pieces p w = [w] := by
  rw [pieces, List.splitOnP_eq_singleton h]
  simp [nonempty]

theorem pieces_leading (separators : ∀ c ∈ g, p c = true) (u : Text) :
    pieces p (g ++ u) = pieces p u := by
  induction g with
  | nil => rfl
  | cons c g ih =>
      rw [List.cons_append, pieces_cons (separators c List.mem_cons_self)]
      exact ih fun d hd => separators d (List.mem_cons_of_mem c hd)

/-- Separators between two texts part their pieces. -/
theorem pieces_gap (t : Text) (separators : ∀ c ∈ g, p c = true) (behind : g ≠ []) (u : Text) :
    pieces p (t ++ (g ++ u)) = pieces p t ++ pieces p u := by
  cases g with
  | nil => contradiction
  | cons c g =>
      rw [List.cons_append, pieces_append_cons t (separators c List.mem_cons_self)]
      rw [pieces_leading fun d hd => separators d (List.mem_cons_of_mem c hd)]

theorem pieces_trailing (t : Text) (separators : ∀ c ∈ g, p c = true) :
    pieces p (t ++ g) = pieces p t := by
  cases g with
  | nil => rw [List.append_nil]
  | cons c g =>
      have gap := pieces_gap t separators (List.cons_ne_nil c g) []
      rwa [List.append_nil, pieces_nil, List.append_nil] at gap

end LogQuery.Text
