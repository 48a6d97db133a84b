import TreeCursor.Command.Arguments
import TreeCursor.Command.Run

/-!
# The command line

The outer layer: it fetches what a run may read, carries the run out and writes what it leaves.
-/

namespace TreeCursor.CommandLine

/-- The cause of a failed operation on a file. -/
def fileError (error : IO.Error) : FileError :=
  match error with
  | .noFileOrDirectory .. => .missing
  | _ => .other (toString error)

def tryRead (path : String) : IO (Except FileError ByteArray) := do
  try
    return .ok (← IO.FS.readBinFile path)
  catch e =>
    return .error (fileError e)

def directoryOf (path : String) : String :=
  String.ofList ((path.toList.reverse.dropWhile (· != '/')).drop 1).reverse

/-- The log file opened for more lines, with the directories that it needs. -/
def tryOpenLog (path : String) : IO (Option FileError) := do
  try
    if directoryOf path ≠ "" then
      IO.FS.createDirAll (directoryOf path)
    let _ ← IO.FS.Handle.mk path .append
    return none
  catch e =>
    return some (fileError e)

def inputOf : Command → String
  | .show input _ => input
  | .get input _ => input
  | .find input _ _ _ => input
  | .replace input _ _ => input
  | .remove input _ => input
  | .walk input _ => input

/-- What a run can read, fetched before it starts. -/
def fetchWorld (invocation : Invocation) : IO World := do
  let configVariable ← IO.getEnv "TREEZIP_CONFIG"
  let logVariable ← IO.getEnv "RUST_LOG"
  let input := inputOf invocation.command
  let stream ← if input = "-" then (← IO.getStdin).readBinToEnd else pure .empty
  let names := [invocation.config, configVariable, some input].filterMap id
  let contents ← names.mapM fun name => do return (name, ← tryRead name)
  let world : World :=
    { input := stream
      file := fun path => (contents.lookup path).getD (.error .missing)
      configVariable
      logVariable
      logFault := fun _ => none }
  match invocation.start world with
  | .ok ({ log := { file := some path, .. }, .. }, _) =>
      let fault ← tryOpenLog path
      return { world with logFault := fun _ => fault }
  | _ => return world

def writeLog (observation : Observation) : IO Unit := do
  match observation.log with
  | none => return
  | some log =>
      for line in observation.logLines do
        IO.eprintln line
      match log.file with
      | none => return
      | some path =>
          let handle ← IO.FS.Handle.mk path .append
          for line in observation.logLines do
            handle.putStrLn line

end TreeCursor.CommandLine

open TreeCursor CommandLine in
def main (arguments : List String) : IO UInt32 := do
  match Invocation.ofArguments arguments with
  | .error e =>
      IO.eprintln ("error: " ++ e.message)
      return 2
  | .ok invocation =>
      let observation := invocation.run (← fetchWorld invocation)
      writeLog observation
      IO.print observation.output
      match observation.failure with
      | none => pure ()
      | some failure => IO.eprintln failure.report
      return UInt32.ofNat observation.exitCode
