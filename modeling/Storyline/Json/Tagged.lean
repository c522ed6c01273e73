import Storyline.Json.Shape

/-!
# Enumerations with data

An enumeration whose cases have data of their own names the case in a tag. What the data mean is
known only after the tag, which may stand anywhere among the members, so they are stored first and
decoded afterwards.

* `Tagged.decode`: the tag and the data are members of one object.
* `Paired.decode`: one member holds the tag and another one the data.
-/

namespace Storyline.Json

/-! ## One member apart from the others -/

/-- Goes through the members of an object in the order of the text: the named one may stand once and
must be readable, the others must be storable. -/
def checkApart (name : String) (check : Draft → Except Fault Unit) (room : Nat) :
    Bool → List (Option String × Draft) → Bool → Except Fault Unit
  | _, [], closed => if closed then .ok () else .error .malformed
  | _, (none, _) :: _, _ => .error .malformed
  | seen, (some key, d) :: rest, closed =>
    if key = name then
      if seen then .error (.data (.duplicateField name))
      else do
        check d
        checkApart name check room true rest closed
    else if d.storable room then checkApart name check room seen rest closed
    else .error .malformed

/-- The members of another name. -/
def membersBut (name : String) (members : List (Option String × Draft)) :
    List (Option String × Draft) :=
  members.filter fun m => m.1 != some name

/-! ## Tags beside the data -/

/-- The data of a case: none, the fields of a record, or a value of another type. -/
inductive Body (α : Type) where
  | unit (a : α)
  | record (shape : Shape α)
  | inner (decode : Decoder α)

/-- A case of an enumeration: its tag, its name in messages, and its data. -/
structure Case (α : Type) where
  tag : String
  label : String
  body : Body α

/-- An enumeration whose tag is a member of the given name. -/
structure Tagged (α : Type) where
  name : String
  member : String
  cases : List (Case α)

namespace Tagged

variable {α : Type}

/-- The case that a tag names. -/
def caseOf (t : Tagged α) : Decoder (Case α) :=
  Decoder.tag (t.cases.map fun c => (c.tag, c))

/-- The data of a case, given as the members beside the tag. -/
def bodyOfMembers (c : Case α) (members : List (Option String × Draft)) : Except Fault α :=
  match c.body with
  | .unit a => .ok a
  | .record shape => shape.ofMembers .stored members true
  | .inner decode => decode .stored (.object members true)

/-- The data of a case, given as the elements after the tag. -/
def bodyOfElements (t : Tagged α) (c : Case α) (elements : List Draft) : Except Fault α :=
  match c.body with
  | .unit a =>
    if elements.isEmpty then .ok a
    else .error (.data (.invalidLength elements.length (.elements 0)))
  | .record shape => shape.ofElements (.caseFields t.name c.label) .stored elements true
  | .inner decode => decode .stored (.array elements true)

/-- The enumeration from an object that holds tag and data, or from an array that begins with the
tag. -/
def decode (t : Tagged α) : Decoder α
  | mode, .object members closed => do
    let check d := (t.caseOf mode.inside d).map fun _ => ()
    checkApart t.member check mode.inside.room false members closed
    match Shape.member? members t.member with
    | none => .error (.data (.missingField t.member))
    | some d => do
      let c ← t.caseOf mode.inside d
      bodyOfMembers c (membersBut t.member members)
  | _, .array [] closed =>
    if closed then .error (.data (.missingField t.member)) else .error .malformed
  | mode, .array (d :: elements) closed => do
    let c ← t.caseOf mode.inside d
    if elements.all (Draft.storable mode.inside.room) && closed then t.bodyOfElements c elements
    else .error .malformed
  | _, d => .error (d.wrongType (.tagged t.name))

end Tagged

/-! ## Tags and data in two members -/

/-- An enumeration whose tag and data are members of the given names. The data are of one type in
all cases. -/
structure Paired (α β : Type) where
  name : String
  tag : String
  content : String
  cases : List (String × (β → α))
  data : Decoder β

namespace Paired

variable {α β : Type}

/-- The members up to the first of the two names, and those after it. Other members are passed
over. -/
def next? (p : Paired α β) (closed : Bool) :
    List (Option String × Draft) →
      Except Fault (Option (Bool × Draft × List (Option String × Draft)))
  | [] => if closed then .ok none else .error .malformed
  | (none, _) :: _ => .error .malformed
  | (some key, d) :: rest =>
    if key = p.tag then .ok (some (true, d, rest))
    else if key = p.content then .ok (some (false, d, rest))
    else if d.wellFormed then p.next? closed rest
    else .error .malformed

/-- No further tag and no further data may follow. -/
def checkRest (p : Paired α β) (closed : Bool) (rest : List (Option String × Draft)) :
    Except Fault Unit := do
  match ← p.next? closed rest with
  | none => .ok ()
  | some (isTag, _, _) =>
    .error (.data (.duplicateField (if isTag then p.tag else p.content)))

/-- The enumeration from an object with both members. Data in front of the tag are stored. -/
def ofMembers (p : Paired α β) (mode : Mode) (members : List (Option String × Draft))
    (closed : Bool) : Except Fault α := do
  match ← p.next? closed members with
  | none => .error (.data (.missingField p.tag))
  | some (true, tag, rest) => do
    let make ← Decoder.enumeration p.cases mode tag
    match ← p.next? closed rest with
    | none => .error (.data (.missingField p.content))
    | some (true, _, _) => .error (.data (.duplicateField p.tag))
    | some (false, d, rest) => do
      let b ← p.data mode d
      p.checkRest closed rest
      .ok (make b)
  | some (false, d, rest) =>
    if d.storable mode.room then do
      match ← p.next? closed rest with
      | none => .error (.data (.missingField p.tag))
      | some (false, _, _) => .error (.data (.duplicateField p.content))
      | some (true, tag, rest) => do
        let make ← Decoder.enumeration p.cases mode tag
        let b ← p.data .stored d
        p.checkRest closed rest
        .ok (make b)
    else .error .malformed

/-- The enumeration from an array of the tag, which has to be a plain name here, and the data. -/
def ofElements (p : Paired α β) (mode : Mode) (closed : Bool) : List Draft → Except Fault α
  | [] =>
    if closed then .error (.data (.invalidLength 0 (.paired p.name))) else .error .malformed
  | tag :: rest => do
    let make ← Decoder.tag p.cases mode tag
    match rest with
    | [] =>
      if closed then .error (.data (.invalidLength 1 (.paired p.name))) else .error .malformed
    | d :: rest => do
      let b ← p.data mode d
      if rest.isEmpty && closed then .ok (make b) else .error .malformed

/-- The enumeration from an object or an array. -/
def decode (p : Paired α β) : Decoder α
  | mode, .object members closed => p.ofMembers mode.inside members closed
  | mode, .array elements closed => p.ofElements mode.inside closed elements
  | _, d => .error (d.wrongType (.paired p.name))

end Paired

end Storyline.Json
