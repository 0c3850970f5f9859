import LogQuery.Tree.Reader

/-!
# Writing filter trees

Values are written with their operators in between, and groups in round brackets. A
missing or blank operator is written as the default one.
-/

namespace LogQuery

/-- An operator with a space on either side. -/
def FilterTree.operatorText (operator : Option Text) : Text :=
  let o := (operator.getD []).trim
  ' ' :: ((if o.isEmpty then FilterTree.defaultOperator else o) ++ [' '])

mutual

def FilterNode.text : FilterNode → Text
  | .leaf t => t
  | .group values operators => '(' :: (FilterNode.joinText values operators ++ [')'])

/-- The values with the operators between them. -/
def FilterNode.joinText : List FilterNode → List Text → Text
  | [], _ => []
  | [v], _ => v.text
  | v :: w :: values, operators =>
    v.text ++ FilterTree.operatorText operators.head? ++
      FilterNode.joinText (w :: values) operators.tail

end

/-- The text of a tree. -/
def FilterTree.text (t : FilterTree) : Text := FilterNode.joinText t.values t.operators

end LogQuery
