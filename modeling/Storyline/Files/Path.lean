/-!
# Paths

How paths are put together and taken apart. Empty names and single dots do not count, except for a
dot in front.
-/

namespace Storyline.Path

/-- The texts between the slashes of a path. -/
def pieces : List Char → List (List Char)
  | [] => [[]]
  | c :: cs =>
    if c = '/' then [] :: pieces cs
    else
      match pieces cs with
      | p :: ps => (c :: p) :: ps
      | [] => [[c]]

/-- Whether a text between slashes does not count. -/
def isIdle (piece : List Char) : Bool :=
  piece.isEmpty || piece == ['.']

/-- The pieces without the idle ones at the end. -/
def trimEnd (ps : List (List Char)) : List (List Char) :=
  (ps.reverse.dropWhile isIdle).reverse

/-- The path of a name in a folder. -/
def join (folder name : String) : String :=
  match folder.toList.getLast? with
  | none => name
  | some '/' => folder ++ name
  | some _ => folder ++ "/" ++ name

/-- The path of the folder in which a path ends, if the path has a name at all. -/
def parent? (path : String) : Option String :=
  match pieces path.toList with
  | [] => none
  | first :: rest =>
    match trimEnd rest with
    | [] => if first.isEmpty then none else some ""
    | names =>
      let above := trimEnd names.dropLast
      if above.isEmpty && first.isEmpty then some "/"
      else some (String.ofList (['/'].intercalate (first :: above)))

/-- Whether a file name has the given extension and something in front of it. -/
def hasExtension (extension name : String) : Bool :=
  let ending := '.' :: extension.toList
  ending.isSuffixOf name.toList && ending.length < name.length

end Storyline.Path
