import LogQuery.Token.Basic

/-!
# The older form of a value list

Before `in(a, b)` a list of accepted values was written `="a" or ="b"`.
-/

namespace LogQuery.Filter.Legacy

/-- Pairs of an equality sign and a token that is no bracket, with `or` between pairs.
A single token may be left over at the end. -/
def isChain : List Token → Bool
  | sign :: value :: rest =>
    sign.isWord "=" && !value.isBracket &&
      match rest with
      | [] => true
      | joint :: rest => joint.isKeyword "or" && isChain rest
  | _ => true

/-- The older form of a value list, one pair at least. -/
def isMultiExact (ts : List Token) : Bool := ts.length ≥ 2 && isChain ts

/-- The values of the pairs up to the first token that does not fit the form. -/
def values : List Token → List Text
  | sign :: value :: rest =>
    if sign.isWord "=" && !value.isBracket then
      let found := if value.isValue then [value.value] else []
      match rest with
      | [] => found
      | joint :: rest => if joint.isKeyword "or" then found ++ values rest else found
    else []
  | _ => []

end LogQuery.Filter.Legacy
