import Storyline.Json.Fault

/-!
# Decoders

A decoder turns a draft into a value of the library, or says why it refuses. Decoders take the
parts of a draft in the order of the text, so the first problem of the text is the one reported.

Parts of a draft are read straight from the text, or from a copy that was stored because what
they mean was not yet known. The two differ in three places: a stored copy is checked in full when
it is stored, a case of an enumeration may then have more forms, and surplus elements of a list are
counted.
-/

namespace Storyline.Json

/-- How a draft is read: straight from the text, inside so many arrays and objects, or from a stored
copy. -/
inductive Mode where
  | direct (depth : Nat)
  | stored
  deriving DecidableEq, Repr

/-- The mode inside an array or object. -/
def Mode.inside : Mode → Mode
  | .direct depth => .direct (depth + 1)
  | .stored => .stored

/-- How deep arrays and objects may be nested in a part that is stored. -/
def Mode.room : Mode → Nat
  | .direct depth => 127 - depth
  | .stored => 127

abbrev Decoder (α : Type) := Mode → Draft → Except Fault α

namespace Draft

/-- The fault of a draft that is of a wrong type. A part that is not well formed is reported as
such, as far as it has to be read to be named. -/
def wrongType (d : Draft) (wanted : Wanted) : Fault :=
  match d with
  | .null => .data (.invalidType .null wanted)
  | .bool b => .data (.invalidType (.bool b) wanted)
  | .number (.whole n) => .data (.invalidType (.integer n) wanted)
  | .number .floating => .data (.invalidType .floating wanted)
  | .number .tooLarge => .malformed
  | .string (some s) => .data (.invalidType (.string s) wanted)
  | .string none => .malformed
  | .array _ _ => .data (.invalidType .sequence wanted)
  | .object _ _ => .data (.invalidType .map wanted)
  | .broken => .malformed

end Draft

namespace Decoder

/-! ## Atoms -/

/-- A string. -/
def text : Decoder String
  | _, .string (some s) => .ok s
  | _, d => .error (d.wrongType .text)

/-- A string that names a file or directory. -/
def path : Decoder String
  | _, .string (some s) => .ok s
  | _, d => .error (d.wrongType .path)

/-- `true` or `false`. -/
def boolean : Decoder Bool
  | _, .bool b => .ok b
  | _, d => .error (d.wrongType .boolean)

/-- An integer between two bounds. -/
def integer (range : String) (least greatest : Int) : Decoder Int
  | _, .number (.whole n) =>
    if least ≤ n ∧ n ≤ greatest then .ok n
    else .error (.data (.invalidValue (.integer n) (.integer range)))
  | _, d => .error (d.wrongType (.integer range))

/-- An unsigned integer of 32 bits. -/
def word32 : Decoder UInt32 := fun mode d =>
  (integer "u32" 0 0xFFFFFFFF mode d).map fun n => UInt32.ofNat n.toNat

/-- An unsigned integer of 64 bits. -/
def word64 : Decoder UInt64 := fun mode d =>
  (integer "u64" 0 0xFFFFFFFFFFFFFFFF mode d).map fun n => UInt64.ofNat n.toNat

/-- A count of at most 64 bits. -/
def count : Decoder Nat := fun mode d =>
  (integer "usize" 0 0xFFFFFFFFFFFFFFFF mode d).map Int.toNat

/-- A signed integer of 64 bits. -/
def signed64 : Decoder Int64 := fun mode d =>
  (integer "i64" (-0x8000000000000000) 0x7FFFFFFFFFFFFFFF mode d).map Int64.ofInt

/-- `null`, or what the given decoder reads. -/
def nullable {α : Type} (decode : Decoder α) : Decoder (Option α)
  | _, .null => .ok none
  | mode, d => (decode mode d).map some

/-! ## Lists -/

/-- An array whose elements the given decoder reads. -/
def list {α : Type} (decode : Decoder α) : Decoder (List α)
  | mode, .array elements closed => do
    let values ← elements.mapM (decode mode.inside)
    if closed then .ok values else .error .malformed
  | _, d => .error (d.wrongType .sequence)

/-! ## Names of cases -/

/-- The case of the given name. -/
def caseNamed {α : Type} (cases : List (String × α)) (name : String) : Except Fault α :=
  match cases.lookup name with
  | some a => .ok a
  | none => .error (.data (.unknownCase name (cases.map Prod.fst)))

/-- The case that a tag names. In a stored copy the position of a case names it as well. -/
def tag {α : Type} (cases : List (String × α)) : Decoder α
  | _, .string (some name) => caseNamed cases name
  | .stored, .number (.whole n) =>
    if n < 0 then .error (.data (.invalidType (.integer n) .caseName))
    else
      match cases[n.toNat]? with
      | some (_, a) => .ok a
      | none => .error (.data (.invalidValue (.integer n) (.caseIndex cases.length)))
  | _, d => .error (d.wrongType .caseName)

/-- An enumeration without data, read from the text: the name of a case, or an object with that name
and `null`. -/
def caseOf {α : Type} (cases : List (String × α)) : Draft → Except Fault α
  | .string (some name) => caseNamed cases name
  | .object ((some name, d) :: rest) closed => do
    let a ← caseNamed cases name
    match d with
    | .null => if rest.isEmpty && closed then .ok a else .error .malformed
    | d => .error (d.wrongType .unit)
  | _ => .error .malformed

/-- An enumeration without data, read from a stored copy. -/
def storedCaseOf {α : Type} (cases : List (String × α)) : Draft → Except Fault α
  | .string (some name) => caseNamed cases name
  | .object [(some name, d)] _ => do
    let a ← caseNamed cases name
    match d with
    | .null => .ok a
    | .object [] _ => .ok a
    | d => .error (d.wrongType .unit)
  | .object _ _ => .error (.data (.invalidValue .map .singleMember))
  | d => .error (d.wrongType .textOrMap)

/-- An enumeration without data. -/
def enumeration {α : Type} (cases : List (String × α)) : Decoder α
  | .direct _, d => caseOf cases d
  | .stored, d => storedCaseOf cases d

end Decoder

/-! ## Whole texts -/

def decodeText {α : Type} (decode : Decoder α) (text : String) : Except Fault α := do
  let (draft, more) := Draft.parse text.toList
  let a ← decode (.direct 0) draft
  if more then .error .malformed else .ok a

end Storyline.Json
