import Storyline.Json.Decoder

/-!
# Records

A shape names the fields of a record in their order, with what a missing field means. A record is an
object with these members in any order, other members being passed over, or an array of the
fields' values in the order of the shape.

* `Shape.record`: the decoder of a record.
-/

namespace Storyline.Json

/-- The parts of a record as they were found. -/
structure Parts where
  mode : Mode
  /-- The draft of a field, if there is one. -/
  find? : String → Option Draft
  /-- Whether the record is given as an array. -/
  listed : Bool
  /-- The fault of a missing field. -/
  missing : String → Fault

/-- How a record is read from its fields. -/
structure Shape (α : Type) where
  names : List String
  /-- Whether a field can be read. -/
  check : String → Decoder Unit
  build : Parts → Except Fault α

namespace Shape

/-- A field that takes `whenAbsent` if an object lacks it, and `whenShort` if an array ends before
it. -/
def field {α : Type} (name : String) (decode : Decoder α) (whenAbsent whenShort : Option α) :
    Shape α where
  names := [name]
  check _ mode d := (decode mode d).map fun _ => ()
  build parts :=
    match parts.find? name with
    | some d => decode parts.mode d
    | none =>
      match if parts.listed then whenShort else whenAbsent with
      | some a => .ok a
      | none => .error (parts.missing name)

/-- A field that must be there. -/
def required {α : Type} (name : String) (decode : Decoder α) : Shape α :=
  field name decode none none

/-- A field with a default value. -/
def defaulted {α : Type} (name : String) (decode : Decoder α) (value : α) : Shape α :=
  field name decode (some value) (some value)

/-- A field that may be `null` or, in an object, absent. -/
def optional {α : Type} (name : String) (decode : Decoder α) : Shape (Option α) :=
  field name (Decoder.nullable decode) (some none) none

instance : Applicative Shape where
  pure a := { names := [], check := fun _ _ _ => .ok (), build := fun _ => .ok a }
  seq f x :=
    { names := f.names ++ (x ()).names
      check := fun name => if name ∈ f.names then f.check name else (x ()).check name
      build := fun parts => do
        let g ← f.build parts
        let a ← (x ()).build parts
        .ok (g a) }
  map g x := { names := x.names, check := x.check, build := fun parts => (x.build parts).map g }

/-! ## Objects -/

/-- Goes through the members of an object in the order of the text: a known name may stand once, and
its value must be readable. -/
def checkMembers (known : List String) (check : String → Draft → Except Fault Unit) :
    List String → List (Option String × Draft) → Bool → Except Fault Unit
  | _, [], closed => if closed then .ok () else .error .malformed
  | _, (none, _) :: _, _ => .error .malformed
  | seen, (some name, d) :: rest, closed =>
    if name ∈ known then
      if name ∈ seen then .error (.data (.duplicateField name))
      else do
        check name d
        checkMembers known check (name :: seen) rest closed
    else if d.wellFormed then checkMembers known check seen rest closed
    else .error .malformed

/-- The draft of the member of the given name. -/
def member? (members : List (Option String × Draft)) (name : String) : Option Draft :=
  members.lookup (some name)

/-- A record given as an object. -/
def ofMembers {α : Type} (shape : Shape α) (mode : Mode) (members : List (Option String × Draft))
    (closed : Bool) : Except Fault α := do
  checkMembers shape.names (fun name d => shape.check name mode.inside d) [] members closed
  shape.build
    { mode := mode.inside
      find? := member? members
      listed := false
      missing := fun name => .data (.missingField name) }

/-! ## Arrays -/

/-- A record given as an array of its fields. -/
def ofElements {α : Type} (shape : Shape α) (wanted : Nat → Wanted) (mode : Mode)
    (elements : List Draft) (closed : Bool) : Except Fault α := do
  let found := shape.names.zip elements
  found.forM fun (name, d) => shape.check name mode.inside d
  if elements.length < shape.names.length ∧ !closed then .error .malformed
  else do
    let a ← shape.build
      { mode := mode.inside
        find? := fun name => found.lookup name
        listed := true
        missing := fun name =>
          .data (.invalidLength (shape.names.idxOf name) (wanted shape.names.length)) }
    if elements.length ≤ shape.names.length ∧ closed then .ok a
    else
      match mode with
      | .direct _ => .error .malformed
      | .stored => .error (.data (.invalidLength elements.length (.elements shape.names.length)))

/-- A record of the given name. -/
def record {α : Type} (name : String) (shape : Shape α) : Decoder α
  | mode, .object members closed => shape.ofMembers mode members closed
  | mode, .array elements closed => shape.ofElements (.fields name) mode elements closed
  | _, d => .error (d.wrongType (.record name))

end Shape

end Storyline.Json
