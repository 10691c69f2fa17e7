/-!
# Stream errors

What a byte source or a byte sink reports when it cannot do what it was asked:
a kind, which programs act on, and a text, which people read.  Two kinds mean
something to this library.  An `interrupted` read is tried again, and an
`unexpectedEnd` counts as the end of the stream.
-/

namespace StateTrace

/-- What went wrong in a stream, as far as programs tell it apart. -/
inductive StreamError.Kind where
  /-- The operation was cut short by a signal and can be tried again. -/
  | interrupted
  /-- The stream ended before the bytes that were asked for. -/
  | unexpectedEnd
  | notFound
  | permissionDenied
  | isDirectory
  /-- A part of the name should be a directory and is none. -/
  | notDirectory
  /-- The bytes are not what they have to be. -/
  | invalidData
  /-- What was asked for can never be done. -/
  | invalidInput
  /-- A sink took no byte of a write that was not empty. -/
  | writeZero
  | other
deriving DecidableEq, Repr, Inhabited

/-- An error of a byte source or a byte sink. -/
structure StreamError where
  kind : StreamError.Kind
  text : String
deriving DecidableEq, Repr, Inhabited

namespace StreamError

def notFound : StreamError := ⟨.notFound, "No such file or directory (os error 2)"⟩

/-- The error for reading a directory as a file. -/
def isDirectory : StreamError := ⟨.isDirectory, "Is a directory (os error 21)"⟩

def permissionDenied : StreamError := ⟨.permissionDenied, "Permission denied (os error 13)"⟩

/-- The error for a name below a file that is no directory. -/
def notDirectory : StreamError := ⟨.notDirectory, "Not a directory (os error 20)"⟩

/-- The error for bytes that should be text and are not. -/
def notText : StreamError := ⟨.invalidData, "stream did not contain valid UTF-8"⟩

/-- The error for a sink that takes nothing any more. -/
def writeZero : StreamError := ⟨.writeZero, "failed to write whole buffer"⟩

end StreamError

end StateTrace
