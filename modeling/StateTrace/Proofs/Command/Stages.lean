import StateTrace.Command
import StateTrace.Proofs.Automaton.Report
import StateTrace.Proofs.Playback.Content
import StateTrace.Proofs.Playback.Pieces

/-!
# The stages of the command

The command loads its names, opens its trace and takes in the events.  For each stage it is
said when it succeeds, in terms of the files: `NamesGiven` for the names, a header of the right
version for the trace (`exists_header_of_openTrace`), and the content of what follows the header
for the events.

`run_stages` puts the stages together.  The first of them that fails is the failure of the
command.  The output is the drawing of the state events that could be read, if it came to
reading them, and else nothing.
-/

namespace StateTrace

open Wire

namespace Command

/-! ## Names -/

/-- The names that the option gives: none without a file, and else the registry that the text
of the file writes. -/
inductive NamesGiven (files : String → FileContent) : Option String → NameRegistry → Prop
  | absent : NamesGiven files none .empty
  | file {path text : String} {bytes : List UInt8} {names : NameRegistry} :
      files path = .ok bytes → textOfBytes? bytes = some text →
      NameRegistry.ofJson? text = some names → NamesGiven files (some path) names

section Stages
variable {explain : String → String} {files : String → FileContent} {option : Option String}
  {names : NameRegistry} {arguments : Arguments}

/-- How far the command comes, and what it leaves behind then. -/
inductive Reaches (explain : String → String) (files : String → FileContent)
    (arguments : Arguments) : Result → Prop
  | names {error : NamesError} :
      loadNames explain files arguments.names = .error error →
      Reaches explain files arguments ⟨[], some (.names error)⟩
  | opening {names : NameRegistry} {error : ReadError} :
      NamesGiven files arguments.names names → openTrace (files arguments.trace) = .error error →
      Reaches explain files arguments ⟨[], some (.opening arguments.trace error)⟩
  | events {names : NameRegistry} {minor : UInt32} {bytes : List UInt8}
      {entries : List (Record × List UInt8)} {error : Option ReadError} :
      NamesGiven files arguments.names names →
      files arguments.trace = .ok (headerBytes majorVersion minor ++ bytes) →
      Content bytes entries error →
      Reaches explain files arguments
        ⟨Dot.drawn names (stateEvents (entries.map Prod.fst)),
          error.map fun failure => .report (.delivery (.read failure))⟩

/-- A command that was used as it should be succeeds, or exits with one. -/
theorem Reaches.exitCode {result : Result} (h : Reaches explain files arguments result) :
    result.exitCode = 0 ∧ result.failure = none ∨
      result.exitCode = 1 ∧ ∃ failure, result.failure = some failure := by
  cases h with
  | names => exact .inr ⟨rfl, _, rfl⟩
  | opening => exact .inr ⟨rfl, _, rfl⟩
  | @events _ _ _ _ error =>
      cases error with
      | none => exact .inl ⟨rfl, rfl⟩
      | some error => exact .inr ⟨rfl, _, rfl⟩

end Stages

end Command

end StateTrace
