import Storyline.Program

/-!
# The command line

Plays a game at a terminal: the files are those of the system, answers are read when they are
wanted, and what is printed is shown at once.
-/

namespace Storyline

/-- The fault that the system reports. -/
def faultOfError : IO.Error → FileFault
  | .noFileOrDirectory .. => .notFound
  | .alreadyExists .. => .alreadyExists
  | .inappropriateType _ 20 _ => .notDirectory
  | .inappropriateType _ 21 _ => .isDirectory
  | e => .other (toString e)

/-- The result of an action, or its fault. -/
def attempt {α : Type} (action : IO α) : IO (Except FileFault α) :=
  return (← action.toBaseIO).mapError faultOfError

instance : Files IO where
  holds path := do return (← attempt (IO.FS.realPath path)).isOk
  read path := do return (← attempt (IO.FS.readBinFile path)).bind textOfBytes
  list path := attempt do
    let entries ← (← IO.FS.realPath path).readDir
    return entries.toList.map (·.fileName)
  makeFolder path := attempt (IO.FS.createDirAll path)
  write path text := attempt (IO.FS.writeFile path text)

def printLines (stream : IO.FS.Stream) (lines : List String) : IO Unit := do
  lines.forM stream.putStrLn
  stream.flush

/-- Ends a run whose first lines have been printed. -/
def leave (printed : Nat) (o : Program.Outcome) : IO UInt32 := do
  printLines (← IO.getStdout) (o.printed.drop printed)
  printLines (← IO.getStderr) o.errors
  return UInt32.ofNat o.code

/-- The bytes up to the next line feed. -/
partial def lineBytes (stream : IO.FS.Stream) (read : ByteArray) : IO ByteArray := do
  let next ← stream.read 1
  if next.isEmpty then return read
  else if next.toList = [10] then return read ++ next
  else lineBytes stream (read ++ next)

/-- The next line of input, if there is one. -/
def nextLine : IO (List (Option String)) := do
  match textOfBytes (← lineBytes (← IO.getStdin) .empty) with
  | .ok line => return Program.inputLines line.toList
  | .error _ => return [none]

/-- Plays a game of which so many lines have been printed. -/
partial def play (printed : Nat) (g : Game) : IO UInt32 := do
  let lines := Program.printedLines g
  printLines (← IO.getStdout) (lines.drop printed)
  let g ← if g.wantsInput then pure { g with input := ← nextLine } else pure g
  match g.step with
  | .ok move => play lines.length move.game
  | .error why => leave lines.length (Program.exitOf why g)

/-- The folder of the user's configuration. -/
def userFolder : IO String := do
  match ← IO.getEnv "XDG_CONFIG_HOME", ← IO.getEnv "HOME" with
  | some folder, home =>
    if folder.startsWith "/" then return folder
    else return (home.map (Path.join · ".config")).getD "."
  | none, some home => return Path.join home ".config"
  | none, none => return "."

/-- A generator that nobody can foresee. -/
def entropyGenerator : IO Generator := do
  let bytes ← IO.getRandomBytes 8
  return .ofSeed (bytes.foldl (fun n b => n * 256 + b.toUInt64) 0)

end Storyline

open Storyline in
def main (words : List String) : IO UInt32 := do
  match ← Program.prepare words (← userFolder) (← entropyGenerator) [] with
  | .over outcome => leave 0 outcome
  | .game start => play 0 start.game
