import StateTrace.AutomataReport
import StateTrace.Names.File

/-!
# The command

The command rebuilds the automata of a trace and prints them as dot text.  Its
arguments are the path of the trace and, as the option `--names`, the path of a
names file.

`Command.run` is the whole command, from its arguments and the content of the
files to an exit code, the output and the line that says what failed.  The names
are read first, then the trace is opened, and then its events are taken in.  The
first of the three that fails is the error of the command.  Once the trace is open,
the automata seen up to its end or to its first error are printed either way.
-/

namespace StateTrace.Command

/-! ## Arguments -/

/-- The arguments of the command. -/
structure Arguments where
  trace : String
  names : Option String
deriving DecidableEq, Repr, Inhabited

/-- The start of an option that carries its value with it. -/
def namesStart : String := "--names="

/-- The argument is an option.  A lone dash is a path. -/
def isOption (argument : String) : Bool :=
  argument.startsWith "-" && argument != "-"

/-- Set what was not set before.  A path is not empty. -/
def setOnce (path : Option String) (value : String) : Option (Option String) :=
  if path.isSome || value.isEmpty then none else some (some value)

/-- Read the paths after `--`, where nothing is an option. -/
def readPaths (trace names : Option String) : List String → Option Arguments
  | [] => trace.map (⟨·, names⟩)
  | argument :: rest => do
      let trace ← setOnce trace argument
      readPaths trace names rest

/-- Read arguments after those that gave `trace` and `names`. -/
def readArguments (trace names : Option String) : List String → Option Arguments
  | [] => trace.map (⟨·, names⟩)
  | "--" :: rest => readPaths trace names rest
  | "--names" :: value :: rest => do
      if isOption value then none
      let names ← setOnce names value
      readArguments trace names rest
  | argument :: rest => do
      if argument.startsWith namesStart then
        let names ← setOnce names (argument.drop namesStart.length).toString
        readArguments trace names rest
      else if isOption argument then none
      else
        let trace ← setOnce trace argument
        readArguments trace names rest

/-- The arguments that a command line writes, or `none` if it is not used as it
should be. -/
def Arguments.ofList? (line : List String) : Option Arguments :=
  readArguments none none line

/-! ## Running -/

/-- Why the command failed. -/
inductive Failure where
  /-- The arguments are not what they should be. -/
  | usage
  /-- There are no names. -/
  | names (error : NamesError)
  /-- The trace could not be opened. -/
  | opening (path : String) (error : ReadError)
  /-- The report is not complete. -/
  | report (error : ReportError)
deriving DecidableEq, Repr, Inhabited

namespace Failure

/-- What the command says of a failure.  How it is used is for the reader of the
arguments to say. -/
def message? : Failure → Option String
  | usage => none
  | names error => some error.message
  | opening path error => some (s!"opening {path}: " ++ error.message)
  | report error => some error.message

def exitCode : Failure → UInt8
  | usage => 2
  | _ => 1

end Failure

/-- What the command leaves behind. -/
structure Result where
  output : List UInt8
  /-- Why the command failed, if it did. -/
  failure : Option Failure
deriving DecidableEq, Repr, Inhabited

namespace Result

def exitCode (result : Result) : UInt8 :=
  match result.failure with
  | none => 0
  | some failure => failure.exitCode

/-- The line that says why the command failed. -/
def errorLine? (result : Result) : Option String := do
  let failure ← result.failure
  let message ← failure.message?
  return "montrace: " ++ message ++ "\n"

end Result

/-- Open the trace in a file. -/
def openTrace (content : FileContent) : Except ReadError Playback := do
  let bytes ← content.mapError ReadError.stream
  Playback.start (.ofBytes bytes)

/-- The registry of the names file, or the empty one without a file. -/
def loadNames (explain : String → String) (files : String → FileContent) :
    Option String → Except NamesError NameRegistry
  | none => return .empty
  | some path => NameRegistry.load explain path (files path)

/-- Print the automata of a trace. -/
def printAutomata (names : NameRegistry) (playback : Playback) : Result :=
  let reported := playback.report (Automata.report names) .empty .unlimited
  let failure := match reported.result with
    | .ok _ => none
    | .error error => some (.report error)
  ⟨reported.sink.bytes, failure⟩

/-- Run the command with its arguments read. -/
def runWith (explain : String → String) (files : String → FileContent) (arguments : Arguments) :
    Result :=
  match loadNames explain files arguments.names with
  | .error error => ⟨[], some (.names error)⟩
  | .ok names =>
      match openTrace (files arguments.trace) with
      | .error error => ⟨[], some (.opening arguments.trace error)⟩
      | .ok playback => printAutomata names playback

/-- Run the command on a command line.  `files` gives the content of a path, and `explain` the
reason why a text is no names document. -/
def run (explain : String → String) (files : String → FileContent) (line : List String) : Result :=
  match Arguments.ofList? line with
  | none => ⟨[], some .usage⟩
  | some arguments => runWith explain files arguments

example : Arguments.ofList? ["t", "--names", "n"] = some ⟨"t", some "n"⟩ ∧
    Arguments.ofList? ["--names=n", "--", "-t"] = some ⟨"-t", some "n"⟩ ∧
    Arguments.ofList? ["--names", "n"] = none ∧ Arguments.ofList? ["t", "t"] = none := by
  decide +kernel

end StateTrace.Command
