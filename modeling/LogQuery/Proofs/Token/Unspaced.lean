import LogQuery.Proofs.Token.Rebuild

/-!
# Tokens without white space

Of all white space only the space and the two line breaks end a word. A tab, say, is held back
with the characters around it. It is trimmed off a word, so where a word ends next to it a space
would do the same. But inside of a word, before a colon and before a bracket it becomes a part of
the token, where a space would end one. So as long as no white space ends up in a word, a field or
a callee, a space does what any white space does.
-/

namespace LogQuery

open Text (isBlank)

namespace Text

variable {g : Text}

theorem trim_blank_append (hg : ∀ c ∈ g, isBlank c = true) (t : Text) :
    trim (g ++ t) = trim t := by
  rw [trim, trim, trimStart, List.dropWhile_append_of_pos hg, trimStart]

theorem trim_append_blank (hg : ∀ c ∈ g, isBlank c = true) (t : Text) :
    trim (t ++ g) = trim t := by
  induction g using List.reverseRecOn with
  | nil => rw [List.append_nil]
  | append_singleton g c ih =>
      rw [← List.append_assoc, trim_concat_blank _ (hg c (by simp))]
      exact ih fun d hd => hg d (by simp [hd])

end Text

/-- What stands of a token outside of quotes and brackets. -/
def Token.bareText : Token → Text
  | word v | field v => v
  | bracket callee _ _ => callee
  | quote _ | comment _ => []

namespace Lexer

variable {g k n : List Char} {t : Text} {c : Char} {ls ks : List Lexeme}

namespace Lexeme

def bareText : Lexeme → Text
  | word v | field v => v
  | bracket callee _ _ => callee
  | quote _ | comment _ => []

@[simp] theorem bareText_toToken (read : Text → List Token) (l : Lexeme) :
    (l.toToken read).bareText = l.bareText := by
  cases l <;> rfl

/-- No white space in words, fields and callees. -/
def Unspaced (ls : List Lexeme) : Prop := ∀ l ∈ ls, ∀ c ∈ l.bareText, isBlank c = false

theorem unspaced_append : Unspaced (ls ++ ks) ↔ Unspaced ls ∧ Unspaced ks :=
  List.forall_mem_append

theorem unspaced_singleton {l : Lexeme} :
    Unspaced [l] ↔ ∀ c ∈ l.bareText, isBlank c = false := by
  simp [Unspaced]

end Lexeme

open Lexeme (Unspaced unspaced_append unspaced_singleton)

/-! ### One character -/

/-- What a character outside of quotes and brackets does, whatever is held back. -/
inductive Effect (c : Char) : Prop
  | cut (ls : List Lexeme) (next : Scan)
      (step : ∀ held, Scan.step ⟨.plain, held⟩ c = (Scan.word ⟨.plain, held⟩ ++ ls, next))
      (spaced : Unspaced ls) (fresh : next = .start ∨ ∃ m, next.mode = .quoted m)
  /-- It makes what is held back a field or a callee. -/
  | taken (h : c = ':' ∨ isOpener c = true)
  | minus (eq : c = '-')
  | hold (step : ∀ held, Scan.step ⟨.plain, held⟩ c = ([], ⟨.plain, c :: held⟩))
      (plain : isOpener c = false)

theorem step_separator (h : isBreak c = true) (held : List Char) :
    Scan.step ⟨.plain, held⟩ c =
      (Scan.word ⟨.plain, held⟩ ++ (if isBlank c then [] else [.word [c]]), Scan.start) := by
  rw [Scan.isBlank_of_isBreak h]
  simp only [isBreak, Bool.or_eq_true, beq_iff_eq] at h
  rcases h with (((((rfl | rfl) | rfl) | rfl) | rfl) | rfl) | rfl <;>
    simp [Scan.step, Scan.stepPlain, QuoteMark.ofChar?, isOpener, isBreak, Char.isWhitespace]

theorem effect (hash : c ≠ '#') (slash : c ≠ '\\') : Effect c := by
  cases mark : QuoteMark.ofChar? c with
  | some m =>
      refine .cut [] ⟨.quoted m, [c]⟩ (fun held => ?_) (by simp [Unspaced]) (.inr ⟨m, rfl⟩)
      simp [Scan.step, Scan.stepPlain, mark]
  | none =>
      by_cases colon : c = ':'
      · exact .taken (.inl colon)
      cases opener : isOpener c with
      | true => exact .taken (.inr opener)
      | false =>
          cases separator : isBreak c with
          | true =>
              refine .cut _ _ (step_separator separator) ?_ (.inl rfl)
              split
              · simp [Unspaced]
              · next visible => simpa [Unspaced, Lexeme.bareText] using visible
          | false =>
              rcases Scan.isPlain_or_of_not_break mark hash slash colon opener separator with
                plain | minus
              · exact .hold (Scan.step_plain plain) opener
              · exact .minus minus

namespace Scan

theorem step_minus_blank {held : List Char} (h : Text.allBlank held.reverse = true) :
    step ⟨.plain, held⟩ '-' = ([.word ['-']], start) := by
  simp [step, stepPlain, QuoteMark.ofChar?, isOpener, buffer, h]

/-! ### White space that stays in a token -/

theorem mem_takeWhile_append {p : Char → Bool} {a : Text} (h : c ∈ a.takeWhile p) (b : Text) :
    c ∈ (a ++ b).takeWhile p := by
  rw [List.takeWhile_append]
  split
  · exact List.mem_append_left _ ((List.takeWhile_sublist p).subset h)
  · exact h

/-- What is held back before a colon is a field, and before an opening character a callee. -/
theorem isBlank_of_unspaced_taken (clean : ∀ d ∈ n, isOpener d = false)
    (hc : c = ':' ∨ isOpener c = true) (h : Unspaced (run ⟨.plain, n⟩ (c :: t))) :
    ∀ d ∈ n, isBlank d = false := by
  intro d hd
  rcases hc with rfl | opener
  · rw [run, step_colon] at h
    exact h _ List.mem_cons_self d (List.mem_reverse.mpr hd)
  rw [run, step_opener opener] at h
  have callee (u : Text) (closed : Bool) :
      d ∈ (bracket ⟨.plain, u.reverse ++ c :: n⟩ closed).bareText := by
    have kept : d ∈ (n.reverse ++ (c :: u)).takeWhile (!isOpener ·) := by
      refine mem_takeWhile_append ?_ _
      rw [List.takeWhile_eq_self_iff.mpr (by simpa using clean)]
      exact List.mem_reverse.mpr hd
    simpa [bracket, buffer, Lexeme.bareText] using kept
  rcases feed_bracket_cases 0 .outside (c :: n) t with ⟨a, e, b, rfl, -, -, fed⟩ | ⟨depth, w, fed⟩
  · have split : a ++ e :: b = a ++ [e] ++ b := by simp
    rw [split, run_append, fed] at h
    exact h _ (by simp) d (callee (a ++ [e]) true)
  · rw [run_eq_feed, fed] at h
    exact h (bracket ⟨.plain, t.reverse ++ c :: n⟩ false) List.mem_cons_self d (callee t false)

theorem word_eq_of_trim {held held' : List Char}
    (h : Text.trim held.reverse = Text.trim held'.reverse) :
    word ⟨.plain, held⟩ = word ⟨.plain, held'⟩ := by
  rw [word, word, buffer, buffer, h]

/-- White space is held back between two characters that can be seen. -/
def HoldsInner (n : List Char) : Prop := ∃ c ∈ Text.trim n.reverse, isBlank c = true

theorem HoldsInner.cons (h : HoldsInner n) (c : Char) : HoldsInner (c :: n) := by
  obtain ⟨d, hd, blank⟩ := h
  refine ⟨d, ?_, blank⟩
  rw [List.reverse_cons]
  cases seen : isBlank c with
  | true =>
      rw [Text.trim_concat_blank _ seen]
      exact hd
  | false =>
      obtain ⟨after, ending, -⟩ := Text.exists_trimEnd (Text.trimStart n.reverse)
      rw [Text.trim_concat _ seen, ending]
      exact List.mem_append_left _ (List.mem_append_left _ hd)

theorem HoldsInner.not_unspaced_word (h : HoldsInner n) : ¬ Unspaced (word ⟨.plain, n⟩) := by
  obtain ⟨c, hc, blank⟩ := h
  intro spaced
  have nonempty : (Text.trim n.reverse).isEmpty = false := by
    rw [List.isEmpty_eq_false_iff]
    exact List.ne_nil_of_mem hc
  rw [word, buffer, nonempty] at spaced
  exact absurd (spaced _ (List.mem_singleton.mpr rfl) c hc) (by simp [blank])

theorem HoldsInner.allBlank (h : HoldsInner n) : Text.allBlank n.reverse = false := by
  obtain ⟨c, hc, -⟩ := h
  rw [Bool.eq_false_iff]
  intro blank
  rw [Text.trim_of_allBlank blank] at hc
  contradiction

/-- It ends up in a token. -/
theorem HoldsInner.not_unspaced_run (h : HoldsInner n) (clean : ∀ c ∈ n, isOpener c = false)
    (raw : IsRaw t) : ¬ Unspaced (run ⟨.plain, n⟩ t) := by
  induction t generalizing n with
  | nil => exact h.not_unspaced_word
  | cons c t ih =>
      obtain ⟨hash, slash⟩ := raw c (by simp)
      have rest : IsRaw t := fun d hd => raw d (by simp [hd])
      intro spaced
      cases effect hash slash with
      | cut ls next step _ _ =>
          rw [run, step, unspaced_append, unspaced_append] at spaced
          exact h.not_unspaced_word spaced.1.1
      | taken taken =>
          obtain ⟨d, hd, blank⟩ := h
          have held : d ∈ n := List.mem_reverse.mp (Text.mem_of_mem_trim hd)
          rw [isBlank_of_unspaced_taken clean taken spaced d held] at blank
          contradiction
      | minus eq =>
          subst eq
          rw [run, step_minus h.allBlank] at spaced
          exact ih (h.cons '-') (by simpa [isOpener] using clean) rest spaced
      | hold step plain =>
          rw [run, step] at spaced
          exact ih (h.cons c) (by simpa [plain] using clean) rest spaced

/-! ### White space next to a token -/

/-- Where a text leaves no white space in a token, it does not matter which white space is held
back first. -/
theorem run_leading (hne : g ≠ []) (hg : ∀ c ∈ g, isBlank c = true)
    (hk : ∀ c ∈ k, isBlank c = true) (clean : ∀ c ∈ n ++ g, isOpener c = false) (raw : IsRaw t)
    (h : Unspaced (run ⟨.plain, n ++ g⟩ t)) :
    run ⟨.plain, n ++ k⟩ t = run ⟨.plain, n ++ g⟩ t := by
  have trims {b : List Char} (hb : ∀ c ∈ b, isBlank c = true) (n : List Char) :
      Text.trim (n ++ b).reverse = Text.trim n.reverse := by
    rw [List.reverse_append]
    exact Text.trim_blank_append (fun c hc => hb c (List.mem_reverse.mp hc)) _
  have word (n : List Char) : word ⟨.plain, n ++ k⟩ = word ⟨.plain, n ++ g⟩ :=
    word_eq_of_trim ((trims hk n).trans (trims hg n).symm)
  induction t generalizing n with
  | nil => exact word n
  | cons c t ih =>
      obtain ⟨hash, slash⟩ := raw c (by simp)
      have rest : IsRaw t := fun d hd => raw d (by simp [hd])
      cases effect hash slash with
      | cut ls next step _ _ => rw [run, run, step, step, word]
      | taken taken =>
          obtain ⟨d, hd⟩ := List.exists_mem_of_ne_nil g hne
          have seen := isBlank_of_unspaced_taken clean taken h d (by simp [hd])
          rw [hg d hd] at seen
          contradiction
      | minus eq =>
          subst eq
          cases seen : Text.allBlank n.reverse with
          | true =>
              have blank {b : List Char} (hb : ∀ c ∈ b, isBlank c = true) :
                  Text.allBlank (n ++ b).reverse = true := by
                rw [← seen]
                simpa [Text.allBlank] using fun _ => hb
              rw [run, run, step_minus_blank (blank hg), step_minus_blank (blank hk)]
          | false =>
              have held (b : List Char) : Text.allBlank (n ++ b).reverse = false := by
                simp_all [Text.allBlank]
              rw [run, step_minus (held g)] at h
              rw [run, run, step_minus (held g), step_minus (held k)]
              exact ih (n := '-' :: n) (by simpa [isOpener] using clean) rest h
      | hold step plain =>
          rw [run, step] at h
          rw [run, run, step, step]
          exact ih (n := c :: n) (by simpa [plain] using clean) rest h

theorem word_blank (hg : ∀ c ∈ g, isBlank c = true) : word ⟨.plain, g⟩ = [] := by
  have blank : Text.allBlank g.reverse = true := by simpa [Text.allBlank] using hg
  simp [word, buffer, Text.trim_of_allBlank blank]

theorem word_trailing (hg : ∀ c ∈ g, isBlank c = true) (n : List Char) :
    word ⟨.plain, g ++ n⟩ = word ⟨.plain, n⟩ := by
  refine word_eq_of_trim ?_
  rw [List.reverse_append]
  exact Text.trim_append_blank (fun c hc => hg c (List.mem_reverse.mp hc)) _

theorem holdsInner_of_visible (seen : Text.allBlank n.reverse = false) (hne : g ≠ [])
    (hg : ∀ c ∈ g, isBlank c = true) (visible : isBlank c = false) :
    HoldsInner (c :: (g ++ n)) := by
  obtain ⟨d, hd⟩ := List.exists_mem_of_ne_nil g hne
  have start : Text.trimStart n.reverse ≠ [] := fun empty => by
    simp [Text.allBlank_iff.mpr empty] at seen
  refine ⟨d, ?_, hg d hd⟩
  rw [List.reverse_cons, Text.trim_concat _ visible, List.reverse_append,
    Text.trimStart_append_of_ne_nil start]
  simp [hd]

/-- Behind a word, where a text leaves no white space in a token, white space ends the word. -/
theorem run_trailing (seen : Text.allBlank n.reverse = false) (hne : g ≠ [])
    (hg : ∀ c ∈ g, isBlank c = true) (hk : ∀ c ∈ k, isBlank c = true)
    (clean : ∀ c ∈ g ++ n, isOpener c = false) (raw : IsRaw t)
    (h : Unspaced (run ⟨.plain, g ++ n⟩ t)) :
    run ⟨.plain, g ++ n⟩ t = word ⟨.plain, n⟩ ++ run ⟨.plain, k⟩ t := by
  induction t generalizing g k with
  | nil =>
      change word ⟨.plain, g ++ n⟩ = word ⟨.plain, n⟩ ++ word ⟨.plain, k⟩
      rw [word_trailing hg, word_blank hk, List.append_nil]
  | cons c t ih =>
      obtain ⟨hash, slash⟩ := raw c (by simp)
      have rest : IsRaw t := fun d hd => raw d (by simp [hd])
      cases effect hash slash with
      | cut ls next step _ _ =>
          rw [run, run, step, step, word_trailing hg, word_blank hk, List.nil_append,
            List.append_assoc]
      | taken taken =>
          obtain ⟨d, hd⟩ := List.exists_mem_of_ne_nil g hne
          have visible := isBlank_of_unspaced_taken clean taken h d (by simp [hd])
          rw [hg d hd] at visible
          contradiction
      | minus eq =>
          subst eq
          have inner := holdsInner_of_visible seen hne hg (c := '-') (by decide)
          have notBlank : Text.allBlank (g ++ n).reverse = false := by simp_all [Text.allBlank]
          rw [run, step_minus notBlank] at h
          exact absurd h (inner.not_unspaced_run (by simpa [isOpener] using clean) rest)
      | hold step plain =>
          rw [run, step] at h
          cases blank : isBlank c with
          | true =>
              rw [run, run, step, step]
              exact ih (g := c :: g) (k := c :: k) (by simp) (by simpa [blank] using hg)
                (by simpa [blank] using hk) (by simpa [plain] using clean) rest h
          | false =>
              have inner := holdsInner_of_visible seen hne hg blank
              exact absurd h (inner.not_unspaced_run (by simpa [plain] using clean) rest)

/-- Where a text leaves no white space in a token, a space does what any white space does. -/
theorem run_space (hc : isBlank c = true) (clean : ∀ d ∈ n, isOpener d = false) (raw : IsRaw t)
    (h : Unspaced (run ⟨.plain, n⟩ (c :: t))) :
    run ⟨.plain, n⟩ (' ' :: t) = run ⟨.plain, n⟩ (c :: t) := by
  have space (k : List Char) : step ⟨.plain, k⟩ ' ' = (word ⟨.plain, k⟩, start) := step_space rfl
  cases separator : isBreak c with
  | true => rw [run, run, space, step_separator separator, if_pos hc, List.append_nil]
  | false =>
      have opener := isOpener_of_isBlank hc
      have plain : isPlain c = true :=
        (isPlain_or_of_not_break (QuoteMark.ofChar?_of_isBlank hc)
          (Text.ne_of_isBlank hc (by decide)) (Text.ne_of_isBlank hc (by decide))
          (Text.ne_of_isBlank hc (by decide)) opener separator).resolve_right
          (Text.ne_of_isBlank hc (by decide))
      rw [run, step_plain plain] at h
      rw [run, run, space, step_plain plain]
      change word ⟨.plain, n⟩ ++ run ⟨.plain, []⟩ t = run ⟨.plain, c :: n⟩ t
      cases seen : Text.allBlank n.reverse with
      | true =>
          have held : ∀ d ∈ n, isBlank d = true := by simpa [Text.allBlank] using seen
          rw [word_blank held]
          exact run_leading (n := []) (g := c :: n) (k := []) (by simp) (by simpa [hc] using held)
            (by simp) (by simpa [opener] using clean) raw h
      | false =>
          exact (run_trailing (g := [c]) (k := []) seen (by simp) (by simpa using hc) (by simp)
            (by simpa [opener] using clean) raw h).symm

end Scan

end Lexer

end LogQuery
