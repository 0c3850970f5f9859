import LogQuery.Token.Lexer

/-!
# Cutting and joining token lists

Stages are cut at pipes and segments at connectives; a token list is written back as
text with one space between tokens.
-/

namespace LogQuery

/-- The tokens as text, one space between them. Comments are left out. -/
def Token.sourceText (ts : List Token) : Text := (Text.join " " (ts.filterMap source?)).trim

/-- The tokens as text without a space before commas. -/
def Token.compactText (ts : List Token) : Text :=
  ts.foldl (fun out t =>
    let piece := sourceText [t]
    if piece.isEmpty then out
    else if out.isEmpty || piece == [','] then out ++ piece
    else out ++ ' ' :: piece) []

namespace Segment

/-- Cuts before every token that satisfies `cut` and drops it; nothing follows a cut at
the end. -/
def splitAt (cut : Token → Bool) : List Token → List (List Token)
  | [] => []
  | t :: ts =>
    if cut t then [] :: splitAt cut ts
    else match splitAt cut ts with
      | [] => [[t]]
      | segment :: segments => (t :: segment) :: segments

/-- Cuts at the tokens, brackets apart, whose text is `separator`. -/
def splitAtText (separator : Text) : List Token → List (List Token) :=
  splitAt fun t => t.hasText separator

/-- The stages between pipes. -/
def stages : List Token → List (List Token) := splitAtText "|"

/-- Runs between connectives, each connective a run of its own. -/
def runs : List Token → List (List Token)
  | [] => []
  | t :: ts =>
    if t.isConnective then [] :: [t] :: runs ts
    else match runs ts with
      | [] => [[t]]
      | run :: rest => (t :: run) :: rest

end Segment

end LogQuery
