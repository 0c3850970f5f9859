/-!
# Quote marks

The three characters that delimit quoted text.
-/

namespace LogQuery

inductive QuoteMark
  | backtick
  | double
  | single
  deriving DecidableEq, Repr

namespace QuoteMark

def char : QuoteMark → Char
  | backtick => '`'
  | double => '"'
  | single => '\''

/-- The mark that a character stands for. -/
def ofChar? (c : Char) : Option QuoteMark :=
  if c = '`' then some backtick
  else if c = '"' then some double
  else if c = '\'' then some single
  else none

@[simp] theorem ofChar?_char (m : QuoteMark) : ofChar? m.char = some m := by
  cases m <;> rfl

theorem ofChar?_eq_some_iff {c : Char} {m : QuoteMark} : ofChar? c = some m ↔ c = m.char := by
  constructor
  · intro h
    unfold ofChar? at h
    split at h
    · cases h; assumption
    · split at h
      · cases h; assumption
      · split at h
        · cases h; assumption
        · cases h
  · rintro rfl
    exact ofChar?_char m

end QuoteMark

end LogQuery
