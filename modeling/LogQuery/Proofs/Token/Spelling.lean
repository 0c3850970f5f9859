import LogQuery.Proofs.Text.Name
import LogQuery.Token.Lexer

/-!
# Pieces of text that read as given tokens

A scan carries what it holds back from one piece of text to the next. Two notions make
pieces independent of each other. A piece that lexes takes a scan that holds nothing back to
one that holds nothing back, so such pieces may simply be put together. A text that spells
tokens does so once a space follows it: its last word may still be open at its end, and the
end of the query, a space, or a comma closes it in the same way.

Both notions are relative to the number of levels at which bracket interiors are read.
-/

namespace LogQuery.Lexer

/-- A character that a scan outside quotes, brackets and comments only holds back. -/
def isPlain (c : Char) : Bool :=
  !(['\'', '"', '`', '\\', '#', ':', '(', '[', '{', '-', ',', '|', '=', ' ', '\n', '\r',
    '!'].contains c)

/-- A character that neither opens nor closes a bracket or a quote. -/
def isInert (c : Char) : Bool := !(['\'', '"', '`', '(', ')', '[', ']', '{', '}'].contains c)

/-- No brackets and no quotes. -/
def AllInert (t : Text) : Prop := ∀ c ∈ t, isInert c = true

instance (t : Text) : Decidable (AllInert t) :=
  decidable_of_iff (t.all isInert = true) List.all_eq_true

theorem isPlain_of_isNameChar {c : Char} (h : Text.isNameChar c = true) : isPlain c = true := by
  have : c ∉ ['\'', '"', '`', '\\', '#', ':', '(', '[', '{', '-', ',', '|', '=', ' ', '\n', '\r',
      '!'] := Text.not_mem_of_isNameChar h (by decide)
  simpa [isPlain] using this

theorem isInert_of_isNameChar {c : Char} (h : Text.isNameChar c = true) : isInert c = true := by
  have : c ∉ ['\'', '"', '`', '(', ')', '[', ']', '{', '}'] :=
    Text.not_mem_of_isNameChar h (by decide)
  simpa [isInert] using this

namespace Scan

/-- The lexemes that a text completes, and the scan after it. -/
def feed (s : Scan) : Text → List Lexeme × Scan
  | [] => ([], s)
  | c :: cs => ((s.step c).1 ++ ((s.step c).2.feed cs).1, ((s.step c).2.feed cs).2)

@[simp] theorem feed_nil (s : Scan) : s.feed [] = ([], s) := rfl

theorem feed_cons (s : Scan) (c : Char) (t : Text) :
    s.feed (c :: t) = ((s.step c).1 ++ ((s.step c).2.feed t).1, ((s.step c).2.feed t).2) := rfl

theorem feed_append (s : Scan) (t u : Text) :
    s.feed (t ++ u) = ((s.feed t).1 ++ ((s.feed t).2.feed u).1, ((s.feed t).2.feed u).2) := by
  induction t generalizing s with
  | nil => rfl
  | cons c cs ih => rw [List.cons_append, feed_cons, ih, feed_cons, List.append_assoc]

theorem run_eq_feed (s : Scan) (t : Text) : s.run t = (s.feed t).1 ++ (s.feed t).2.finish := by
  induction t generalizing s with
  | nil => rfl
  | cons c cs ih => rw [run, ih, feed_cons, List.append_assoc]

theorem run_append (s : Scan) (t u : Text) :
    s.run (t ++ u) = (s.feed t).1 ++ (s.feed t).2.run u := by
  rw [run_eq_feed, feed_append, run_eq_feed, List.append_assoc]

/-! ### Words -/

theorem step_plain {c : Char} (h : isPlain c = true) (held : List Char) :
    step ⟨.plain, held⟩ c = ([], ⟨.plain, c :: held⟩) := by
  simp only [isPlain, List.contains_eq_mem, List.mem_cons, List.not_mem_nil, or_false, not_or,
    Bool.not_eq_true', decide_eq_false_iff_not] at h
  obtain ⟨single, double, tick, slash, hash, colon, round, square, curly, minus, comma, bar,
    equal, space, newline, ret, bang⟩ := h
  simp [step, stepPlain, hold, QuoteMark.ofChar?, isOpener, isBreak, single, double, tick, slash,
    hash, colon, round, square, curly, minus, comma, bar, equal, space, newline, ret, bang]

theorem feed_plain {w : Text} (h : ∀ c ∈ w, isPlain c = true) (held : List Char) :
    feed ⟨.plain, held⟩ w = ([], ⟨.plain, w.reverse ++ held⟩) := by
  induction w generalizing held with
  | nil => rfl
  | cons c cs ih =>
      rw [feed_cons, step_plain (h c (by simp)), ih fun d hd => h d (by simp [hd])]
      simp

theorem not_isOpener_of_isPlain {c : Char} (h : isPlain c = true) : isOpener c = false := by
  simp only [isPlain, List.contains_eq_mem, List.mem_cons, List.not_mem_nil, or_false, not_or,
    Bool.not_eq_true', decide_eq_false_iff_not] at h
  simp [isOpener, h]

theorem word_tight {w : Text} (h : w.Tight) : word ⟨.plain, w.reverse⟩ = [.word w] := by
  simp [word, buffer, h.trim_eq, h.nonempty]

/-- A space takes only a scan in plain mode back to the start. -/
theorem mode_of_step_space {s : Scan} (h : (s.step ' ').2 = start) : s.mode = .plain := by
  obtain ⟨mode, held⟩ := s
  cases mode with
  | plain => rfl
  | escaped => simp [step, hold, start] at h
  | quoted m => cases m <;> simp [step, stepQuoted, hold, start, QuoteMark.char] at h
  | quotedEscaped m => simp [step, hold, start] at h
  | comment => simp [step, hold, start] at h
  | bracket depth within =>
      simp [step, stepBracket, hold, start, isOpener, isCloser] at h

theorem step_space {s : Scan} (h : s.mode = .plain) : s.step ' ' = (s.word, start) := by
  obtain ⟨mode, held⟩ := s
  subst h
  simp [step, stepPlain, QuoteMark.ofChar?, isOpener, isBreak]

/-- A separator that is no white space ends the word before it and is one itself. -/
theorem step_break {s : Scan} (h : s.mode = .plain) {c : Char} (hc : c ∈ [',', '|', '=', '!']) :
    s.step c = (s.word ++ [.word [c]], start) := by
  obtain ⟨mode, held⟩ := s
  subst h
  simp only [List.mem_cons, List.not_mem_nil, or_false] at hc
  rcases hc with rfl | rfl | rfl | rfl <;>
    simp [step, stepPlain, QuoteMark.ofChar?, isOpener, isBreak, Char.isWhitespace]

theorem step_colon (held : List Char) :
    step ⟨.plain, held⟩ ':' = ([.field held.reverse], start) := by
  simp [step, stepPlain, QuoteMark.ofChar?, buffer]

/-! ### Brackets -/

theorem step_opener {o : Char} (h : isOpener o = true) (held : List Char) :
    step ⟨.plain, held⟩ o = ([], ⟨.bracket 0 .outside, o :: held⟩) := by
  simp only [isOpener, Bool.or_eq_true, beq_iff_eq] at h
  rcases h with (rfl | rfl) | rfl <;> simp [step, stepPlain, hold, QuoteMark.ofChar?, isOpener]

theorem step_closer {d : Char} (h : isCloser d = true) (held : List Char) :
    step ⟨.bracket 0 .outside, held⟩ d = ([bracket ⟨.plain, d :: held⟩ true], start) := by
  simp [step, stepBracket, hold, h]

/-- A scan inside a bracket passes over the text and stays there, outside of quotes. -/
def Captured (t : Text) : Prop :=
  ∀ held, feed ⟨.bracket 0 .outside, held⟩ t = ([], ⟨.bracket 0 .outside, t.reverse ++ held⟩)

/-- A scan inside brackets of any depth passes over the text and stays there. -/
def Passed (t : Text) : Prop :=
  ∀ depth held, feed ⟨.bracket depth .outside, held⟩ t =
    ([], ⟨.bracket depth .outside, t.reverse ++ held⟩)

theorem Passed.captured {t : Text} (h : Passed t) : Captured t := h 0

theorem passed_inert {t : Text} (h : AllInert t) : Passed t := by
  intro depth held
  induction t generalizing held with
  | nil => rfl
  | cons c cs ih =>
      have inert := h c (by simp)
      simp only [isInert, List.contains_eq_mem, List.mem_cons, List.not_mem_nil, or_false, not_or,
        Bool.not_eq_true', decide_eq_false_iff_not] at inert
      have held' : step ⟨.bracket depth .outside, held⟩ c =
          ([], ⟨.bracket depth .outside, c :: held⟩) := by
        simp [step, stepBracket, hold, isOpener, isCloser, Within.step, QuoteMark.ofChar?, inert]
      rw [feed_cons, held', ih fun e he => h e (by simp [he])]
      simp

/-- The callee of a bracket is what was held back before the first opening character. -/
theorem bracket_eq {mode : Mode} {held : List Char} {o : Char} {w t : Text}
    (split : held.reverse = w ++ o :: t) (hw : ∀ c ∈ w, isOpener c = false)
    (ho : isOpener o = true) (closed : Bool) :
    bracket ⟨mode, held⟩ closed = .bracket w (o :: t) closed := by
  have callee : ∀ c ∈ w, (!isOpener c) = true := fun c hc => by
    rw [hw c hc]
    rfl
  rw [bracket, buffer, split, List.takeWhile_append_of_pos callee,
    List.dropWhile_append_of_pos callee]
  simp [ho]

/-- What was held back before an opening character is the callee of the bracket. -/
theorem bracket_behind {o : Char} {w : Text} (ho : isOpener o = true)
    (hp : ∀ c ∈ w, isPlain c = true) (t : Text) (closed : Bool) :
    bracket ⟨.plain, (w ++ o :: t).reverse⟩ closed = .bracket w (o :: t) closed :=
  bracket_eq (List.reverse_reverse _) (fun c hc => not_isOpener_of_isPlain (hp c hc)) ho closed

end Scan

/-! ### Pieces that leave nothing held back -/

/-- The text takes a scan from its start to its start and completes these tokens. -/
structure Lexes (levels : Nat) (t : Text) (ts : List Token) : Prop where
  tokens : (Scan.start.feed t).1.map (Lexeme.toToken (tokensWithin levels)) = ts
  closed : (Scan.start.feed t).2 = .start

namespace Lexes

variable {levels : Nat} {t u w : Text} {ts us : List Token}

/-- The lexemes of a piece give its tokens. -/
theorem of_feed {ls : List Lexeme} (h : Scan.start.feed t = (ls, .start)) :
    Lexes levels t (ls.map (Lexeme.toToken (tokensWithin levels))) :=
  ⟨by rw [h], by rw [h]⟩

theorem nil : Lexes levels [] [] := ⟨rfl, rfl⟩

theorem append (ht : Lexes levels t ts) (hu : Lexes levels u us) :
    Lexes levels (t ++ u) (ts ++ us) where
  tokens := by
    rw [Scan.feed_append, ht.closed, List.map_append, ht.tokens, hu.tokens]
  closed := by
    rw [Scan.feed_append, ht.closed]
    exact hu.closed

/-- Space between tokens. -/
theorem space : Lexes levels [' '] [] := by
  have h : Scan.start.feed [' '] = ([], .start) := by
    rw [Scan.feed_cons, Scan.step_space rfl]
    rfl
  exact .of_feed h

/-- A separator that stands for itself. -/
theorem separator {c : Char} (hc : c ∈ [',', '|', '=', '!']) :
    Lexes levels [c] [.word [c]] := by
  have h : Scan.start.feed [c] = ([.word [c]], .start) := by
    rw [Scan.feed_cons, Scan.start, Scan.step_break rfl hc]
    rfl
  exact .of_feed h

/-- A word and the space behind it. -/
theorem word_space (hw : w.Tight) (hp : ∀ c ∈ w, isPlain c = true) :
    Lexes levels (w ++ [' ']) [.word w] := by
  have h : Scan.start.feed (w ++ [' ']) = ([.word w], .start) := by
    rw [Scan.feed_append, Scan.start, Scan.feed_plain hp, Scan.feed_cons, List.append_nil,
      Scan.step_space rfl, Scan.word_tight hw]
    rfl
  exact .of_feed h

/-- A field with its colon. -/
theorem field (hp : ∀ c ∈ w, isPlain c = true) : Lexes levels (w ++ [':']) [.field w] := by
  have h : Scan.start.feed (w ++ [':']) = ([.field w], .start) := by
    rw [Scan.feed_append, Scan.start, Scan.feed_plain hp, Scan.feed_cons, Scan.step_colon]
    simp [Scan.start]
  exact .of_feed h

/-- A bracketed text that is captured to its closer, behind its callee. -/
theorem capture {o d : Char} (ho : isOpener o = true) (hd : isCloser d = true)
    (hp : ∀ c ∈ w, isPlain c = true) (ht : Scan.Captured t) :
    Lexes levels (w ++ o :: (t ++ [d]))
      [.bracket w (o :: (t ++ [d])) (tokensWithin levels t)] := by
  have h : Scan.start.feed (w ++ o :: (t ++ [d])) =
      ([.bracket w (o :: (t ++ [d])) true], .start) := by
    rw [Scan.feed_append, Scan.start, Scan.feed_plain hp, Scan.feed_cons,
      Scan.step_opener ho, Scan.feed_append, ht, Scan.feed_cons, Scan.step_closer hd]
    simpa [Scan.start] using Scan.bracket_behind ho hp (t ++ [d]) true
  have read : Lexes levels (w ++ o :: (t ++ [d])) _ := .of_feed h
  simpa [Lexeme.toToken, Lexeme.interior] using read

/-- Such a piece on its own is read to its end. -/
theorem map_run (h : Lexes levels t ts) :
    (Scan.start.run t).map (Lexeme.toToken (tokensWithin levels)) = ts := by
  have nothing : Scan.start.finish = [] := rfl
  rw [Scan.run_eq_feed, h.closed, nothing, List.append_nil, h.tokens]

/-- A bracketed text without further brackets and quotes, behind its callee. -/
theorem call {o d : Char} (ho : isOpener o = true) (hd : isCloser d = true)
    (hp : ∀ c ∈ w, isPlain c = true) (ht : AllInert t) :
    Lexes levels (w ++ o :: (t ++ [d]))
      [.bracket w (o :: (t ++ [d])) (tokensWithin levels t)] :=
  .capture ho hd hp (Scan.passed_inert ht).captured

end Lexes

/-! ### Texts closed by a space -/

/-- A tight text that reads as these tokens when a space follows it. -/
structure Spells (levels : Nat) (t : Text) (ts : List Token) : Prop where
  tight : t.Tight
  lexes : Lexes levels (t ++ [' ']) ts

namespace Spells

variable {levels : Nat} {t u w : Text} {ts us : List Token}

theorem mode (h : Spells levels t ts) : (Scan.start.feed t).2.mode = .plain := by
  have closed := h.lexes.closed
  rw [Scan.feed_append, Scan.feed_cons] at closed
  exact Scan.mode_of_step_space closed

/-- The tokens of a spelled text are those completed inside it and its last word. -/
theorem tokens_eq (h : Spells levels t ts) :
    ((Scan.start.feed t).1 ++ (Scan.start.feed t).2.word).map
      (Lexeme.toToken (tokensWithin levels)) = ts := by
  have tokens := h.lexes.tokens
  rw [Scan.feed_append, Scan.feed_cons, Scan.step_space h.mode] at tokens
  simpa using tokens

/-- The end of a text closes its last word as a space does. -/
theorem tokensWithin_eq (h : Spells levels t ts) : tokensWithin (levels + 1) t = ts := by
  have finish : (Scan.start.feed t).2.finish = (Scan.start.feed t).2.word := by
    rw [Scan.finish, h.mode]
  rw [tokensWithin, lexemes, h.tight.trim_eq, Scan.run_eq_feed, finish]
  exact h.tokens_eq

/-- A separator closes the last word as a space does. -/
theorem append_separator (h : Spells levels t ts) {c : Char} (hc : c ∈ [',', '|', '=', '!']) :
    Lexes levels (t ++ [c]) (ts ++ [.word [c]]) := by
  have feed : Scan.start.feed (t ++ [c]) =
      ((Scan.start.feed t).1 ++ (Scan.start.feed t).2.word ++ [.word [c]], .start) := by
    rw [Scan.feed_append, Scan.feed_cons, Scan.step_break h.mode hc]
    simp
  have read : Lexes levels (t ++ [c]) _ := .of_feed feed
  rwa [List.map_append, h.tokens_eq] at read

theorem of_lexes (ht : t.Tight) (h : Lexes levels t ts) : Spells levels t ts where
  tight := ht
  lexes := by simpa using h.append Lexes.space

theorem word (hw : w.Tight) (hp : ∀ c ∈ w, isPlain c = true) : Spells levels w [.word w] :=
  ⟨hw, .word_space hw hp⟩

theorem name (h : w.IsName) : Spells levels w [.word w] :=
  .word h.tight fun c hc => isPlain_of_isNameChar (h.chars c hc)

/-- A star on its own. -/
theorem star : Spells levels ['*'] [.word ['*']] :=
  .word (.singleton (by decide)) (by simp [isPlain])

/-- Two texts with a space between. -/
theorem space (ht : Spells levels t ts) (hu : Spells levels u us) :
    Spells levels (t ++ ' ' :: u) (ts ++ us) where
  tight := by simpa using ht.tight.around [' '] hu.tight
  lexes := by simpa using ht.lexes.append hu.lexes

/-- A piece that is complete may stand directly before a text. -/
theorem append_left (ht : Lexes levels t ts) (hb : ∀ c ∈ t.head?, Text.isBlank c = false)
    (hu : Spells levels u us) : Spells levels (t ++ u) (ts ++ us) where
  tight := hu.tight.append_left hb
  lexes := by simpa using ht.append hu.lexes

/-- Two texts with a separator between, with a space before and after it. -/
theorem spaced (ht : Spells levels t ts) {c : Char} (hc : c ∈ [',', '|', '=', '!'])
    (hu : Spells levels u us) :
    Spells levels (t ++ ' ' :: c :: ' ' :: u) (ts ++ .word [c] :: us) where
  tight := by simpa using ht.tight.around [' ', c, ' '] hu.tight
  lexes := by
    simpa using ((ht.lexes.append (.separator hc)).append Lexes.space).append hu.lexes

/-- Two texts with a separator and a space between. -/
theorem separated (ht : Spells levels t ts) {c : Char} (hc : c ∈ [',', '|', '=', '!'])
    (hu : Spells levels u us) :
    Spells levels (t ++ c :: ' ' :: u) (ts ++ .word [c] :: us) where
  tight := by simpa using ht.tight.around [c, ' '] hu.tight
  lexes := by
    simpa using ((ht.append_separator hc).append Lexes.space).append hu.lexes

end Spells

end LogQuery.Lexer
