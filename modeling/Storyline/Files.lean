/-!
# Files

What the library asks of a file system, and what can go wrong. A path is a text whose names are
joined by slashes.

* `Files`: the monads in which files can be reached.
-/

namespace Storyline

/-- Why a file could not be used. -/
inductive FileFault where
  | notFound
  | notDirectory
  | isDirectory
  | alreadyExists
  | nameTooLong
  /-- A path with a zero character. -/
  | zeroInName
  /-- The bytes of a file are no text. -/
  | invalidText
  /-- Anything else, in the words of the system. -/
  | other (words : String)
  deriving DecidableEq, Repr

def FileFault.message : FileFault → String
  | .notFound => "No such file or directory (os error 2)"
  | .notDirectory => "Not a directory (os error 20)"
  | .isDirectory => "Is a directory (os error 21)"
  | .alreadyExists => "File exists (os error 17)"
  | .nameTooLong => "File name too long (os error 36)"
  | .zeroInName => "file name contained an unexpected NUL byte"
  | .invalidText => "stream did not contain valid UTF-8"
  | .other words => words

/-- A monad in which files can be reached. -/
class Files (m : Type → Type) where
  /-- Whether there is anything at a path. -/
  holds : String → m Bool
  read : String → m (Except FileFault String)
  /-- The names in a folder, in any order. -/
  list : String → m (Except FileFault (List String))
  /-- Makes a folder and those above it, as far as they are missing. -/
  makeFolder : String → m (Except FileFault Unit)
  /-- Gives a file a text, and makes the file if it is missing. -/
  write : String → String → m (Except FileFault Unit)

/-- The text that bytes encode. -/
def textOfBytes (bytes : ByteArray) : Except FileFault String :=
  match String.fromUTF8? bytes with
  | some text => .ok text
  | none => .error .invalidText

end Storyline
