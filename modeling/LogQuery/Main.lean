import LogQuery.CommandLine

/-!
# The command line program

Takes the command line and, when the input is not among its words, the standard input;
prints the result of the command, or its error on the error stream.
-/

namespace LogQuery

/-- The input given on the command line, else what is piped in. -/
def inputOf (o : CommandOptions) : IO (Except CommandError Text) := do
  match o.input with
  | some input => return .ok input
  | none =>
    let stdin ← IO.getStdin
    if ← stdin.isTty then return .error .noInput
    return .ok (Text.trimEnd (← stdin.readToEnd).toList)

/-- Prints an error and fails. -/
def failWith (message : Text) : IO UInt32 := do
  IO.eprintln (String.ofList message)
  return 1

/-- Runs a command and prints what it gives. -/
def runCommand (c : CommandName) (o : CommandOptions) : IO UInt32 := do
  let input ← if c.readsInput then inputOf o else pure (.ok [])
  match input.bind (c.run o) with
  | .ok output =>
    IO.println (String.ofList output)
    return 0
  | .error e => failWith e.message

/-- The commands and their options. -/
def usage : Text :=
  Text.join "\n"
    ["usage: parse [QUERY] [--default-field FIELD] [--labels] [--escape-mode MODE] [--pretty]",
     "       fmt [QUERY] [--default-field FIELD] [--labels] [--escape-mode MODE]",
     "       tree [QUERY] [--pretty]",
     "       tokens [QUERY] [--pretty]",
     "       render [--input JSON] [--default-field FIELD]",
     "       catalog [--category NAME] [--default-field FIELD] [--pretty]"]

/-- Runs a whole command line. -/
def runLine : List Text → IO UInt32
  | [] => failWith usage
  | name :: rest =>
    match CommandName.ofText? name, CommandOptions.read {} rest with
    | some c, .ok o => runCommand c o
    | some _, .error message => failWith ("error: " ++ message)
    | none, _ => failWith usage

end LogQuery

def main (args : List String) : IO UInt32 := LogQuery.runLine (args.map String.toList)
