import LogQuery.Query.Basic
import LogQuery.Tree.Reader

/-!
# Queries with a filter tree

The text before the first pipe is read as a filter tree, and the pipes are kept as texts.
-/

namespace LogQuery

/-- The filter tree of a query and the texts of its pipes. -/
def Query.readTree (expr : Text) : ReadResult :=
  match (stageTexts expr).map Text.trim with
  | [] => { query := { expr } }
  | filters :: pipes =>
    let result := FilterTree.read filters
    { query := { filters := result.tree, pipes, expr },
      errors := result.errors.map TreeError.message }

end LogQuery
