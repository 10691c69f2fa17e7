import StateTrace.Command

/-!
# The program

The outer layer of the command: it reads the files that the command line names,
runs the command, and passes on its outputs and its exit code.
-/

namespace StateTrace

/-- The error of the library for an error of the system. -/
def streamErrorOf : IO.Error → StreamError
  | .noFileOrDirectory .. => .notFound
  | .permissionDenied .. => .permissionDenied
  | .inappropriateType none .. => .isDirectory
  | .inappropriateType (some _) .. => .notDirectory
  | error => ⟨.other, toString error⟩

/-- The content of a file. -/
def contentOf (path : String) : BaseIO FileContent := do
  match ← EIO.toBaseIO (IO.FS.readBinFile path) with
  | .ok bytes => return .ok bytes.toList
  | .error error => return .error (streamErrorOf error)

/-- Run the command on the files of the system.  What is wrong with a text that is no names
document is not said. -/
def runOnFiles (line : List String) : IO Command.Result := do
  let paths := match Command.Arguments.ofList? line with
    | none => []
    | some arguments => arguments.names.toList ++ [arguments.trace]
  let contents ← paths.mapM fun path => return (path, ← contentOf path)
  let files := fun path => (contents.lookup path).getD (.error .notFound)
  return Command.run (fun _ => "not a names document") files line

end StateTrace

/-- The program. -/
def main (line : List String) : IO UInt32 := do
  let result ← StateTrace.runOnFiles line
  let output ← IO.getStdout
  output.write ⟨result.output.toArray⟩
  output.flush
  if result.failure = some .usage then IO.eprintln "usage: montrace [--names FILE] TRACE"
  IO.eprint (result.errorLine?.getD "")
  return result.exitCode.toUInt32
