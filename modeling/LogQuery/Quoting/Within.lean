import LogQuery.Quoting.Mark

/-!
# Following quotes through a text

Where a scan stands with respect to quote marks. A backslash between marks escapes the
character after it; whether that holds between backticks as well differs from one
syntax to the other.
-/

namespace LogQuery

/-- Outside of quotes, between two marks, or there after a backslash. -/
inductive Within
  | outside
  | inside (mark : QuoteMark)
  | escaped (mark : QuoteMark)
  deriving DecidableEq, Repr

namespace Within

/-- The place after one more character. -/
def step (backtickEscapes : Bool) : Within → Char → Within
  | outside, c =>
    match QuoteMark.ofChar? c with
    | some m => inside m
    | none => outside
  | inside m, c =>
    if c == '\\' && (backtickEscapes || m != .backtick) then escaped m
    else if c == m.char then outside
    else inside m
  | escaped m, _ => inside m

end Within

end LogQuery
