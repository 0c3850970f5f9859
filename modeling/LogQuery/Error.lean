import LogQuery.Text.Basic

/-!
# Errors

Reading a query never fails. What can fail is a look-up by name and a request to the
source of suggestions.
-/

namespace LogQuery

inductive Error
  | unknownOperation (name : Text)
  | unknownCategory (name : Text)
  | sourceFailed (reason : Text)
  deriving DecidableEq, Repr

def Error.message : Error → Text
  | unknownOperation name => "unknown operation id: `" ++ name ++ "`"
  | unknownCategory name => "unknown operation category: `" ++ name ++ "`"
  | sourceFailed reason => "suggestion source failed: " ++ reason

end LogQuery
