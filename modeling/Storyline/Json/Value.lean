/-!
# JSON values and their text

The values that the library writes, and the two layouts of their text: compact, and indented by two
spaces a level. Members keep the order in which they are given.
-/

namespace Storyline.Json

/-- A JSON value. Every number that is written is an integer. -/
inductive Value where
  | null
  | bool (b : Bool)
  | number (n : Int)
  | string (s : String)
  | array (elements : List Value)
  | object (members : List (String × Value))
  deriving Inhabited

/-! ## Atoms -/

/-- How a character is written inside a string: quotes, backslashes and controls are escaped. -/
def escape (c : Char) : List Char :=
  if c = '"' then ['\\', '"']
  else if c = '\\' then ['\\', '\\']
  else if c = '\x08' then ['\\', 'b']
  else if c = '\t' then ['\\', 't']
  else if c = '\n' then ['\\', 'n']
  else if c = '\x0c' then ['\\', 'f']
  else if c = '\r' then ['\\', 'r']
  else if c.toNat < 0x20 then
    ['\\', 'u', '0', '0', Nat.digitChar (c.toNat / 16), Nat.digitChar (c.toNat % 16)]
  else [c]

/-- A string between quotes. -/
def writeString (s : String) : List Char :=
  '"' :: s.toList.flatMap escape ++ ['"']

def writeInt : Int → List Char
  | .ofNat n => Nat.toDigits 10 n
  | .negSucc n => '-' :: Nat.toDigits 10 (n + 1)

def writeBool : Bool → List Char
  | true => ['t', 'r', 'u', 'e']
  | false => ['f', 'a', 'l', 's', 'e']

/-! ## Compact layout -/

mutual

def Value.write : Value → List Char
  | .null => ['n', 'u', 'l', 'l']
  | .bool b => writeBool b
  | .number n => writeInt n
  | .string s => writeString s
  | .array elements => '[' :: writeElements elements
  | .object members => '\x7b' :: writeMembers members

/-- The elements of an array, with its closing bracket. -/
def writeElements : List Value → List Char
  | [] => [']']
  | v :: vs => v.write ++ writeMoreElements vs

def writeMoreElements : List Value → List Char
  | [] => [']']
  | v :: vs => ',' :: v.write ++ writeMoreElements vs

/-- The members of an object, with its closing brace. -/
def writeMembers : List (String × Value) → List Char
  | [] => ['\x7d']
  | (k, v) :: ms => writeString k ++ ':' :: v.write ++ writeMoreMembers ms

def writeMoreMembers : List (String × Value) → List Char
  | [] => ['\x7d']
  | (k, v) :: ms => ',' :: writeString k ++ ':' :: v.write ++ writeMoreMembers ms

end

/-- The compact text of a value. -/
def Value.text (v : Value) : String :=
  String.ofList v.write

/-! ## Indented layout -/

/-- A new line at the given level. -/
def newLine (level : Nat) : List Char :=
  '\n' :: List.replicate (2 * level) ' '

mutual

/-- The text of a value, each element and member on a line of its own. -/
def Value.writeIndented (level : Nat) : Value → List Char
  | .array [] => ['[', ']']
  | .array (v :: vs) =>
    '[' :: newLine (level + 1) ++ v.writeIndented (level + 1) ++ indentElements level vs
  | .object [] => ['\x7b', '\x7d']
  | .object ((k, v) :: ms) =>
    '\x7b' :: newLine (level + 1) ++ writeString k ++ ':' :: ' ' :: v.writeIndented (level + 1)
      ++ indentMembers level ms
  | .null => Value.null.write
  | .bool b => writeBool b
  | .number n => writeInt n
  | .string s => writeString s

/-- The elements after the first, with the closing bracket on the line of its level. -/
def indentElements (level : Nat) : List Value → List Char
  | [] => newLine level ++ [']']
  | v :: vs =>
    ',' :: newLine (level + 1) ++ v.writeIndented (level + 1) ++ indentElements level vs

/-- The members after the first, with the closing brace on the line of its level. -/
def indentMembers (level : Nat) : List (String × Value) → List Char
  | [] => newLine level ++ ['\x7d']
  | (k, v) :: ms =>
    ',' :: newLine (level + 1) ++ writeString k ++ ':' :: ' ' :: v.writeIndented (level + 1)
      ++ indentMembers level ms

end

/-- The indented text of a value. -/
def Value.indented (v : Value) : String :=
  String.ofList (v.writeIndented 0)

end Storyline.Json
