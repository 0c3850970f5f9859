import LogQuery.Tree.Reader

/-!
# Editing filter trees

A node is addressed by the indices that lead to it from the root. Every edit gives a new
tree, and a path that leads nowhere leaves the tree as it is, with one exception: a
longer path through a text turns that text into an empty group.
-/

namespace LogQuery.FilterTree

/-- The group that a node is; a text counts as a group without values. -/
def ofNode : FilterNode → FilterTree
  | .leaf _ => {}
  | .group values operators => { values, operators }

/-- Puts a value behind the others. -/
def push (t : FilterTree) (value : FilterNode) (operator : Text) : FilterTree where
  values := t.values ++ [value]
  operators := if t.values.isEmpty then t.operators else t.operators ++ [operator]

/-- Replaces the value at a path by a text. The index right behind the last value adds
one. -/
def setValue (text : Text) : List Nat → FilterTree → FilterTree
  | [], t => t
  | [i], t =>
    if i < t.values.length then { t with values := t.values.set i (.leaf text) }
    else if i = t.values.length then t.push (.leaf text) defaultOperator
    else t
  | i :: path, t =>
    match t.values[i]? with
    | none => t
    | some node => { t with values := t.values.set i (setValue text path (ofNode node)).toNode }

/-- Changes the group at a path. -/
def modifyGroup (f : FilterTree → FilterTree) : List Nat → FilterTree → FilterTree
  | [], t => f t
  | i :: path, t =>
    match t.values[i]? with
    | some (.group values operators) =>
      { t with values := t.values.set i (modifyGroup f path { values, operators }).toNode }
    | _ => t

/-- Changes the group that holds the entry at a path, given the index of that entry. -/
def modifyParent (f : Nat → FilterTree → FilterTree) (path : List Nat) (t : FilterTree) :
    FilterTree :=
  match path.getLast? with
  | none => t
  | some i => modifyGroup (f i) path.dropLast t

/-- Replaces an operator; the last index of the path is the operator's. -/
def setOperator (operator : Text) : List Nat → FilterTree → FilterTree :=
  modifyParent fun i g => { g with operators := g.operators.set i operator }

/-- Removes a value with the operator before it, or the one after it for the first value. -/
def erase (i : Nat) (g : FilterTree) : FilterTree :=
  if i < g.values.length then
    { values := g.values.eraseIdx i, operators := g.operators.eraseIdx (i - 1) }
  else g

/-- Removes the value at a path. -/
def delete : List Nat → FilterTree → FilterTree := modifyParent erase

/-- Adds a value to the group at a path. -/
def add (value : FilterNode) (operator : Text) : List Nat → FilterTree → FilterTree :=
  modifyGroup fun g => g.push value operator

end LogQuery.FilterTree
