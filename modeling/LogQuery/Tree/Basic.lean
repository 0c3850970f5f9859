import LogQuery.Text.Basic

/-!
# Filter trees

The filters of a query before its first pipe, as a tree of texts and groups. Operator
`i` stands between values `i` and `i + 1`, so that a consistent tree has one operator
fewer than values in every group.
-/

namespace LogQuery

/-- A filter as it is written, or a group of filters with the operators between them. -/
inductive FilterNode
  | leaf (text : Text)
  | group (values : List FilterNode) (operators : List Text)
  deriving Repr

/-- The values at the root and the operators between them. -/
structure FilterTree where
  values : List FilterNode := []
  operators : List Text := []
  deriving Repr

namespace FilterNode

mutual

/-- Equal in every text. -/
def same : FilterNode → FilterNode → Bool
  | leaf a, leaf b => a == b
  | group vs os, group ws ps => sameList vs ws && os == ps
  | _, _ => false

def sameList : List FilterNode → List FilterNode → Bool
  | [], [] => true
  | v :: vs, w :: ws => same v w && sameList vs ws
  | _, _ => false

end

mutual

/-- The operators fit the values in every group of the node. -/
def isConsistent : FilterNode → Bool
  | leaf _ => true
  | group values operators => operators.length == values.length - 1 && allConsistent values

def allConsistent : List FilterNode → Bool
  | [] => true
  | v :: vs => isConsistent v && allConsistent vs

end

end FilterNode

namespace FilterTree

/-- The tree as a group in a larger one. -/
def toNode (t : FilterTree) : FilterNode := .group t.values t.operators

def isEmpty (t : FilterTree) : Bool := t.values.isEmpty

/-- One operator fewer than values in every group, or none where there are no values. -/
def isConsistent (t : FilterTree) : Bool := t.toNode.isConsistent

/-- Equal in every text. -/
def same (a b : FilterTree) : Bool := a.toNode.same b.toNode

end FilterTree

end LogQuery
