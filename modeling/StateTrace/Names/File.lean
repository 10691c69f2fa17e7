import StateTrace.Byte.StreamError
import StateTrace.Names.Document

/-!
# Names files

A names file is a file whose bytes are the UTF-8 text of a names document.
`NameRegistry.load` makes the registry of one.  It gets the path for its messages
and the content, which is the bytes or the error of reading them.  What a parser says
of a text that is no names document is a matter of the parser, so it is a parameter.
-/

namespace StateTrace

/-- The content of a file: its bytes, or the error of reading it. -/
abbrev FileContent := Except StreamError (List UInt8)

/-- Why there is no registry. -/
inductive NamesError where
  /-- The file could not be read as text. -/
  | reading (path : String) (error : StreamError)
  /-- The text is no names document, for the reason that the parser gives. -/
  | parsing (path reason : String)
deriving DecidableEq, Repr, Inhabited

def NamesError.message : NamesError → String
  | reading path error => s!"reading {path}: " ++ error.text
  | parsing path reason => s!"parsing {path}: " ++ reason

/-- The text that bytes encode, if they encode one. -/
def textOfBytes? (bytes : List UInt8) : Option String :=
  String.fromUTF8? ⟨bytes.toArray⟩

/-- The registry of a file.  `explain` is the reason why a text is no names document. -/
def NameRegistry.load (explain : String → String) (path : String) (content : FileContent) :
    Except NamesError NameRegistry := do
  let bytes ← content.mapError (NamesError.reading path)
  match textOfBytes? bytes with
  | none => throw (.reading path .notText)
  | some text =>
      match ofJson? text with
      | none => throw (.parsing path (explain text))
      | some names => return names

end StateTrace
