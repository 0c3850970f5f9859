import LogQuery.Proofs.Token.Mode
import LogQuery.Proofs.Token.Step

/-!
# Reading keeps every character

The characters that the tokens of a text stand for are those of the text, in their order. Two
kinds of characters are left out: white space, which trimming takes from words and comments,
and the number signs that open comments. One character may be added, the mark that closes a
quote at the end of the text. What one character adds to the tokens and to the characters held
back is the same at every step of a scan, whatever the scan does with it.
-/

namespace LogQuery

namespace Token

/-- The characters of a query that a token stands for, a comment's text among them. -/
def spelling : Token → Text
  | quote v | word v | comment v => v
  | field v => v ++ [':']
  | bracket callee raw _ => callee ++ raw

/-- The spellings of tokens one after the other. -/
def spellings (ts : List Token) : Text := ts.flatMap spelling

end Token

namespace Lexer

namespace Lexeme

/-- The characters of a query that a lexeme stands for. -/
def spelling : Lexeme → Text
  | quote v | word v | comment v => v
  | field v => v ++ [':']
  | bracket callee raw _ => callee ++ raw

/-- The spellings of lexemes one after the other. -/
def spellings (ls : List Lexeme) : Text := ls.flatMap spelling

@[simp] theorem spellings_nil : spellings [] = [] := rfl

@[simp] theorem spellings_singleton (l : Lexeme) : spellings [l] = l.spelling := by
  simp [spellings]

@[simp] theorem spellings_append (ls ks : List Lexeme) :
    spellings (ls ++ ks) = spellings ls ++ spellings ks := List.flatMap_append

@[simp] theorem spelling_toToken (read : Text → List Token) (l : Lexeme) :
    (l.toToken read).spelling = l.spelling := by
  cases l <;> rfl

end Lexeme

/-! ### What a text leaves in its tokens -/

namespace Mode

/-- What a character leaves in the tokens: itself, unless it is white space or opens a
comment. -/
def remnant : Mode → Char → Text
  | .plain, c => if c = '#' then [] else Text.visible [c]
  | _, c => Text.visible [c]

/-- What a text leaves in the tokens. -/
def remains (m : Mode) : Text → Text
  | [] => []
  | c :: cs => m.remnant c ++ (m.step c).remains cs

@[simp] theorem remains_nil (m : Mode) : m.remains [] = [] := rfl

theorem remains_cons (m : Mode) (c : Char) (t : Text) :
    m.remains (c :: t) = m.remnant c ++ (m.step c).remains t := rfl

theorem remains_append (m : Mode) (t u : Text) :
    m.remains (t ++ u) = m.remains t ++ (m.after t).remains u := by
  induction t generalizing m with
  | nil => rfl
  | cons c cs ih =>
      rw [List.cons_append, remains_cons, ih, remains_cons, List.append_assoc, after_cons]

theorem remnant_of_ne {c : Char} (h : c ≠ '#') (m : Mode) : m.remnant c = Text.visible [c] := by
  cases m with
  | plain => exact if_neg h
  | _ => rfl

theorem remnant_blank {c : Char} (h : Text.isBlank c = true) (m : Mode) : m.remnant c = [] := by
  rw [remnant_of_ne (Text.ne_of_isBlank h (by decide))]
  exact Text.visible_eq_nil (by simpa using h)

theorem remains_blank {t : Text} (h : ∀ c ∈ t, Text.isBlank c = true) (m : Mode) :
    m.remains t = [] := by
  induction t generalizing m with
  | nil => rfl
  | cons c cs ih =>
      rw [remains_cons, remnant_blank (h c (by simp)), ih fun d hd => h d (by simp [hd])]
      rfl

theorem remains_plain_trim (t : Text) : plain.remains t.trim = plain.remains t := by
  obtain ⟨before, after, split, blank, blank'⟩ := Text.exists_trim t
  conv_rhs => rw [split]
  rw [remains_append, remains_append, remains_blank blank, remains_blank blank',
    after_plain_blank blank, List.nil_append, List.append_nil]

end Mode

/-! ### Steps and runs -/

namespace Scan

/-- A lexeme that is left out when it is blank spells what can be seen of it. -/
theorem visible_unless_blank {lexeme : Text → Lexeme} (h : ∀ v, (lexeme v).spelling = v)
    (t : Text) :
    (Lexeme.spellings (if t.trim.isEmpty then [] else [lexeme t.trim])).visible = t.visible := by
  rw [← Text.visible_trim t]
  split
  · next blank => rw [List.isEmpty_iff.mp blank]; rfl
  · rw [Lexeme.spellings_singleton, h]

theorem visible_word (s : Scan) : (Lexeme.spellings s.word).visible = s.buffer.visible :=
  visible_unless_blank (fun _ => rfl) s.buffer

theorem visible_comment (s : Scan) : (Lexeme.spellings s.comment).visible = s.buffer.visible :=
  visible_unless_blank (fun _ => rfl) s.buffer

theorem spelling_bracket (s : Scan) (closed : Bool) : (s.bracket closed).spelling = s.buffer :=
  List.takeWhile_append_dropWhile

theorem buffer_hold (s : Scan) (c : Char) (mode : Mode) :
    (s.hold c mode).buffer = s.buffer ++ [c] :=
  List.reverse_cons

theorem visible_hold (s : Scan) (c : Char) (mode : Mode) :
    (s.hold c mode).buffer.visible = s.buffer.visible ++ Text.visible [c] := by
  rw [buffer_hold, Text.visible_append]

/-- A step with this result has completed and holds back what was held back before it, and
what its character leaves. -/
def Accounts (s : Scan) (left : Text) (result : List Lexeme × Scan) : Prop :=
  (Lexeme.spellings result.1).visible ++ result.2.buffer.visible = s.buffer.visible ++ left

theorem Accounts.hold (s : Scan) (c : Char) (mode : Mode) :
    s.Accounts (Text.visible [c]) ([], s.hold c mode) :=
  s.visible_hold c mode

/-- A step that completes what it held back together with its character. -/
theorem Accounts.complete {s : Scan} {c : Char} {l : Lexeme}
    (h : l.spelling.visible = s.buffer.visible ++ Text.visible [c]) :
    s.Accounts (Text.visible [c]) ([l], start) := by
  rw [Accounts, Lexeme.spellings_singleton, h]
  exact List.append_nil _

theorem isBlank_of_isBreak {c : Char} (h : isBreak c = true) :
    Text.isBlank c = c.isWhitespace := by
  simp only [isBreak, Bool.or_eq_true, beq_iff_eq] at h
  rcases h with (((((rfl | rfl) | rfl) | rfl) | rfl) | rfl) | rfl <;> rfl

theorem Takes.accounts {s : Scan} {c : Char} {result : List Lexeme × Scan}
    (h : s.Takes c result) : s.Accounts (s.mode.remnant c) result := by
  have left (text : s.mode = .plain → c ≠ '#') : s.mode.remnant c = Text.visible [c] := by
    cases mode : s.mode with
    | plain => exact if_neg (text mode)
    | _ => rfl
  cases h with
  | hold mode text =>
      rw [left text]
      exact .hold s c mode
  | mark m plain mark =>
      subst mark
      rw [left fun _ => by cases m <;> decide, Accounts, visible_word]
      rfl
  | hash plain hash =>
      subst hash
      rw [plain, Accounts, visible_word]
      rfl
  | colon plain colon =>
      subst colon
      rw [left fun _ => by decide]
      exact .complete (Text.visible_append _ _)
  | minus plain minus blank =>
      subst minus
      rw [left fun _ => by decide]
      apply Accounts.complete
      rw [Text.visible_eq_nil (List.all_eq_true.mp blank), List.nil_append, Lexeme.spelling]
  | space plain ends space =>
      have blank : Text.isBlank c = true := by rw [isBlank_of_isBreak ends, space]
      have nothing : Text.visible [c] = [] := Text.visible_eq_nil (by simpa using blank)
      rw [left fun _ => Text.ne_of_isBlank blank (by decide), Accounts, nothing, List.append_nil,
        visible_word]
      exact List.append_nil _
  | separator plain ends visible =>
      have text : c ≠ '#' := by
        rintro rfl
        contradiction
      rw [left fun _ => text, Accounts, Lexeme.spellings_append, Text.visible_append, visible_word,
        Lexeme.spellings_singleton, Lexeme.spelling]
      exact List.append_nil _
  | quote m quoted mark =>
      rw [left fun plain => by simp [quoted] at plain]
      exact .complete (s.visible_hold c .plain)
  | newline inside newline =>
      subst newline
      rw [left fun _ => by decide, Accounts, visible_comment]
      rfl
  | bracket inside closer =>
      rw [left fun plain => by simp [inside] at plain]
      apply Accounts.complete
      rw [spelling_bracket, visible_hold]

theorem accounts_step (s : Scan) (c : Char) : s.Accounts (s.mode.remnant c) (s.step c) :=
  (s.takes_step c).accounts

/-- The end of the text closes a quote as its mark does. -/
theorem finish_open {s : Scan} {m : QuoteMark} (quote : s.mode.openMark? = some m) :
    s.finish = [.quote (s.buffer ++ [m.char])] := by
  have closed := s.buffer_hold m.char .plain
  obtain ⟨mode, held⟩ := s
  rcases Mode.openMark?_eq_some_iff.mp quote with rfl | rfl
  · exact congrArg (fun v => [Lexeme.quote v]) closed
  · exact congrArg (fun v => [Lexeme.quote v]) closed

theorem visible_finish (s : Scan) :
    (Lexeme.spellings s.finish).visible =
      s.buffer.visible ++ s.mode.openMark?.toList.map QuoteMark.char := by
  cases quote : s.mode.openMark? with
  | some m =>
      rw [finish_open quote, Lexeme.spellings_singleton, Lexeme.spelling, Text.visible_append,
        Text.visible_singleton m.isBlank_char]
      rfl
  | none =>
      refine Eq.trans ?_ (List.append_nil _).symm
      obtain ⟨mode, held⟩ := s
      cases mode with
      | plain => exact visible_word _
      | escaped => exact visible_word _
      | quoted m => contradiction
      | quotedEscaped m => contradiction
      | comment => exact visible_comment _
      | bracket depth within => rw [finish, Lexeme.spellings_singleton, spelling_bracket]

theorem visible_run (s : Scan) (t : Text) :
    (Lexeme.spellings (s.run t)).visible =
      s.buffer.visible ++ s.mode.remains t ++
        (s.mode.after t).openMark?.toList.map QuoteMark.char := by
  induction t generalizing s with
  | nil => rw [run, visible_finish, Mode.remains_nil, List.append_nil, Mode.after_nil]
  | cons c cs ih =>
      have accounts := accounts_step s c
      rw [Accounts] at accounts
      rw [run, Lexeme.spellings_append, Text.visible_append, ih, ← List.append_assoc,
        ← List.append_assoc, accounts, mode_step, Mode.remains_cons, Mode.after_cons]
      simp only [List.append_assoc]

end Scan

/-- The lexemes of a text spell what the text leaves, and the mark of a quote that is open at
its end. -/
theorem visible_spellings_lexemes (t : Text) :
    (Lexeme.spellings (lexemes t)).visible =
      Mode.plain.remains t ++ (openQuote? t).toList.map QuoteMark.char := by
  rw [lexemes, Scan.visible_run, ← Mode.remains_plain_trim, ← openQuote?_trim]
  rfl

theorem spellings_tokensWithin (levels : Nat) (t : Text) :
    Token.spellings (tokensWithin (levels + 1) t) = Lexeme.spellings (lexemes t) := by
  simp [Token.spellings, Lexeme.spellings, tokensWithin, List.flatMap_map]

end Lexer

/-! ### Nothing lost, nothing added -/

namespace Text

/-- The text without its white space and its number signs. -/
def content (t : Text) : Text := t.filter fun c => c != '#' && !isBlank c

theorem content_eq (t : Text) : t.content = t.visible.filter (· != '#') :=
  List.filter_filter.symm

@[simp] theorem content_append (t u : Text) : content (t ++ u) = content t ++ content u :=
  List.filter_append t u

end Text

namespace Lexer

theorem filter_remnant (m : Mode) (c : Char) :
    (m.remnant c).filter (· != '#') = Text.content [c] := by
  rw [Text.content_eq]
  by_cases hash : c = '#'
  · subst hash
    cases m <;> rfl
  · rw [Mode.remnant_of_ne hash]

theorem filter_remains (m : Mode) (t : Text) : (m.remains t).filter (· != '#') = t.content := by
  induction t generalizing m with
  | nil => rfl
  | cons c cs ih =>
      rw [Mode.remains_cons, List.filter_append, ih, filter_remnant, ← Text.content_append]
      rfl

end Lexer

/-- White space and number signs apart, the tokens of a text spell the text, and after it the
mark of a quote that is open at its end. -/
theorem content_spellings_tokenize (t : Text) :
    (Token.spellings (tokenize t)).content =
      t.content ++ (Lexer.openQuote? t).toList.map QuoteMark.char := by
  have marks (o : Option QuoteMark) :
      (o.toList.map QuoteMark.char).filter (· != '#') = o.toList.map QuoteMark.char := by
    rw [List.filter_eq_self]
    intro c hc
    obtain ⟨m, -, rfl⟩ := List.mem_map.mp hc
    cases m <;> rfl
  rw [Text.content_eq, tokenize, Lexer.maxNesting, Lexer.spellings_tokensWithin,
    Lexer.visible_spellings_lexemes, List.filter_append, Lexer.filter_remains, marks]

end LogQuery
