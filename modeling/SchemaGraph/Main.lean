import SchemaGraph.Command.Run

/-! # The command line

Reads the environment and the files that the arguments name, and prints what the run of
the command gives.
-/

open SchemaGraph

/-- The text of a file that can be read. -/
def fileText? (path : String) : IO (Option String) := do
  try return some (← IO.FS.readFile path)
  catch _ => return none

def main (words : List String) : IO UInt32 := do
  let environment ← IO.getEnv Command.schemaVariable
  let files ← (Command.paths environment words).mapM fun path => do
    return (path, ← fileText? path)
  let ending := Command.run (fun path => (files.lookup path).join) environment words
  IO.print ending.output
  IO.eprint ending.complaints
  return ending.code
