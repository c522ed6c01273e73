import Storyline.Files
import Storyline.Files.Path

/-!
# Disks in memory

A tree of folders and files, with a folder where relative paths begin. It serves wherever a run is
to depend on nothing but its arguments.

* `Disk.follow`: where a path leads.
* `Files (StateM Disk)`: reading and writing a disk.
-/

namespace Storyline

/-- A file with its bytes, or a folder with its entries in the order in which they are listed. -/
inductive Tree where
  | file (bytes : ByteArray)
  | folder (entries : List (String × Tree))
  deriving Inhabited

namespace Tree

/-- What lies at the end of some names. -/
def at? : Tree → List String → Option Tree
  | t, [] => some t
  | .folder entries, name :: names => (entries.lookup name).bind (·.at? names)
  | .file _, _ :: _ => none

/-- Puts something in the place of the entry of its name, or behind all others. -/
def setEntry (name : String) (t : Tree) : List (String × Tree) → List (String × Tree)
  | [] => [(name, t)]
  | (n, u) :: rest => if n = name then (n, t) :: rest else (n, u) :: setEntry name t rest

/-- Puts something at the end of some names; the folders on the way are made if they are missing. -/
def put : Tree → List String → Tree → Tree
  | _, [], new => new
  | .file bytes, _ :: _, _ => .file bytes
  | .folder entries, name :: names, new =>
    let old := (entries.lookup name).getD (.folder [])
    .folder (setEntry name (old.put names new) entries)

end Tree

/-- A tree and the names of the folder where relative paths begin. -/
structure Disk where
  root : Tree
  here : List String
  deriving Inhabited

namespace Disk

/-! ## Paths -/

/-- The names between the slashes of a path. -/
def names (path : String) : List String :=
  ((Path.pieces path.toList).filter (!·.isEmpty)).map String.ofList

/-- Whether a path ends in a slash. It can then lead to a folder only. -/
def endsInSlash (path : String) : Bool :=
  path.toList.getLast? = some '/'

/-- The steps of a path: its names, and a dot for a slash at the end. -/
def steps (path : String) : List String :=
  if endsInSlash path then names path ++ ["."] else names path

/-- The names at which a path begins. -/
def origin (d : Disk) (path : String) : List String :=
  match path.toList with
  | '/' :: _ => []
  | _ => d.here

/-- Follows steps from a folder. What they lead to must be there. -/
def follow (root : Tree) : List String → List String → Except FileFault (List String)
  | reached, [] => .ok reached
  | reached, step :: rest =>
    match root.at? reached with
    | some (.folder entries) =>
      if step = "." then follow root reached rest
      else if step = ".." then follow root reached.dropLast rest
      else if 255 < step.utf8ByteSize then .error .nameTooLong
      else if (entries.lookup step).isSome then follow root (reached ++ [step]) rest
      else .error .notFound
    | _ => .error .notDirectory

/-- The fault of a text that cannot be a path. A path has at most 4095 bytes, wherever it leads. -/
def pathFault? (path : String) : Option FileFault :=
  if '\x00' ∈ path.toList then some .zeroInName
  else if path.isEmpty then some .notFound
  else if 4095 < path.utf8ByteSize then some .nameTooLong
  else none

/-- What lies at a path. -/
def lookAt (d : Disk) (path : String) : Except FileFault Tree := do
  if let some fault := pathFault? path then .error fault
  else
    let names ← follow d.root (d.origin path) (steps path)
    match d.root.at? names with
    | some t => .ok t
    | none => .error .notFound

/-! ## Operations -/

/-- The text of the file at a path. -/
def read (d : Disk) (path : String) : Except FileFault String := do
  match ← d.lookAt path with
  | .file bytes => textOfBytes bytes
  | .folder _ => .error .isDirectory

/-- The names in the folder at a path. -/
def list (d : Disk) (path : String) : Except FileFault (List String) := do
  match ← d.lookAt path with
  | .file _ => .error .notDirectory
  | .folder entries => .ok (entries.map Prod.fst)

/-- Follows steps from a folder and makes those that are missing. -/
def makeSteps : Tree → List String → List String → Except FileFault Tree
  | root, _, [] => .ok root
  | root, reached, step :: rest =>
    if step = "." then makeSteps root reached rest
    else if step = ".." then makeSteps root reached.dropLast rest
    else if 255 < step.utf8ByteSize then .error .nameTooLong
    else
      let next := reached ++ [step]
      match root.at? next with
      | some (.folder _) => makeSteps root next rest
      | some (.file _) => .error (if rest.isEmpty then .alreadyExists else .notDirectory)
      | none => makeSteps (root.put next (.folder [])) next rest

/-- The disk with the folder of a path. The empty path needs none. -/
def makeFolder (d : Disk) (path : String) : Except FileFault Disk := do
  if path.isEmpty then .ok d
  else if let some fault := pathFault? path then .error fault
  else
    let root ← makeSteps d.root (d.origin path) (steps path)
    .ok { d with root := root }

/-- The disk with a text in the file at a path. The folder in which the path ends must be there. -/
def write (d : Disk) (path text : String) : Except FileFault Disk := do
  if let some fault := pathFault? path then .error fault
  else
    let names := names path
    let above ← follow d.root (d.origin path) names.dropLast
    match d.root.at? above, names.getLast? with
    | some (.folder entries), some name =>
      if name ∈ [".", ".."] || endsInSlash path then .error .isDirectory
      else if 255 < name.utf8ByteSize then .error .nameTooLong
      else
        match entries.lookup name with
        | some (.folder _) => .error .isDirectory
        | _ => .ok { d with root := d.root.put (above ++ [name]) (.file text.toUTF8) }
    | some (.folder _), none => .error .isDirectory
    | _, _ => .error .notDirectory

/-- Changes the disk as far as the change succeeds. -/
def change (f : Disk → Except FileFault Disk) : StateM Disk (Except FileFault Unit) := fun d =>
  match f d with
  | .ok d => (.ok (), d)
  | .error fault => (.error fault, d)

end Disk

instance : Files (StateM Disk) where
  holds path d := ((d.lookAt path).isOk, d)
  read path d := (d.read path, d)
  list path d := (d.list path, d)
  makeFolder path := Disk.change (·.makeFolder path)
  write path text := Disk.change (·.write path text)

end Storyline
