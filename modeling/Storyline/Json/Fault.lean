import Storyline.Json.Draft
import Storyline.Text.Quoted

/-!
# Why a text is refused

A text is malformed, or it is a JSON text that does not say what is wanted. The second kind has a
message; the digits of a floating number are not part of it.
-/

namespace Storyline.Json

/-- What stands where something else is wanted. -/
inductive Found where
  | null
  | bool (b : Bool)
  | integer (n : Int)
  | floating
  | string (s : String)
  | sequence
  | map
  deriving DecidableEq, Repr

/-- What a reader wants at some place. -/
inductive Wanted where
  | text
  | boolean
  | sequence
  | unit
  | path
  /-- An integer of the named range. -/
  | integer (range : String)
  | record (name : String)
  /-- A record given as a list of its fields. -/
  | fields (name : String) (count : Nat)
  /-- The fields of one case of an enumeration, given as a list. -/
  | caseFields (enumeration case : String) (count : Nat)
  | tagged (name : String)
  | paired (name : String)
  | caseName
  | caseIndex (count : Nat)
  | textOrMap
  | singleMember
  /-- A list of exactly so many elements. -/
  | elements (count : Nat)
  deriving DecidableEq, Repr

/-- A JSON text that does not say what is wanted. -/
inductive DataFault where
  | invalidType (found : Found) (wanted : Wanted)
  | invalidValue (found : Found) (wanted : Wanted)
  | invalidLength (length : Nat) (wanted : Wanted)
  | unknownCase (name : String) (known : List String)
  | missingField (name : String)
  | duplicateField (name : String)
  deriving DecidableEq, Repr

/-- Why a text is refused. -/
inductive Fault where
  | malformed
  | data (fault : DataFault)
  deriving DecidableEq, Repr

/-! ## Messages -/

/-- A count with its noun. -/
def counted (n : Nat) : String :=
  if n = 1 then "1 element" else s!"{n} elements"

/-- How a message names what was found. -/
def Found.text : Found → String
  | .null => "null"
  | .bool b => s!"boolean `{b}`"
  | .integer n => s!"integer `{n}`"
  | .floating => "floating point `#`"
  | .string s => "string " ++ Text.quoted s
  | .sequence => "sequence"
  | .map => "map"

/-- How a message names what is wanted. -/
def Wanted.message : Wanted → String
  | .text => "a string"
  | .boolean => "a boolean"
  | .sequence => "a sequence"
  | .unit => "unit"
  | .path => "path string"
  | .integer range => range
  | .record name => s!"struct {name}"
  | .fields name n => s!"struct {name} with {counted n}"
  | .caseFields enumeration case n => s!"struct variant {enumeration}::{case} with {counted n}"
  | .tagged name => s!"internally tagged enum {name}"
  | .paired name => s!"adjacently tagged enum {name}"
  | .caseName => "variant identifier"
  | .caseIndex n => s!"variant index 0 <= i < {n}"
  | .textOrMap => "string or map"
  | .singleMember => "map with a single key"
  | .elements n => s!"{counted n} in sequence"

/-- The known cases as a message lists them. -/
def listCases : List String → String
  | [] => "there are no variants"
  | [a] => s!"expected `{a}`"
  | [a, b] => s!"expected `{a}` or `{b}`"
  | names => "expected one of " ++ ", ".intercalate (names.map fun a => s!"`{a}`")

def DataFault.message : DataFault → String
  | .invalidType found wanted => s!"invalid type: {found.text}, expected {wanted.message}"
  | .invalidValue found wanted => s!"invalid value: {found.text}, expected {wanted.message}"
  | .invalidLength n wanted => s!"invalid length {n}, expected {wanted.message}"
  | .unknownCase name known => s!"unknown variant `{name}`, {listCases known}"
  | .missingField name => s!"missing field `{name}`"
  | .duplicateField name => s!"duplicate field `{name}`"

/-- The message of a fault; a malformed text has no message of its own. -/
def Fault.message : Fault → String
  | .malformed => "malformed text"
  | .data fault => fault.message

end Storyline.Json
