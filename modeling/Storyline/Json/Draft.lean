import Storyline.Json.Token
import Storyline.Json.Value

/-!
# Drafts

A draft is what a JSON text says as far as it can be read. Where the text is ill-formed, the draft
breaks off: the arrays and objects around that place stay open. A reader that walks a draft in the
order of the text therefore meets the first problem first, whether the text or its meaning is wrong.

* `Draft.parse`: the draft of a text, and whether anything follows it.
* `Draft.ofValue`: the draft of a value, complete and without any problem.
-/

namespace Storyline.Json

/-- A JSON text as far as it can be read. An array or object that is not closed breaks off behind
its last part. A string without a text holds half a surrogate pair. -/
inductive Draft where
  | null
  | bool (b : Bool)
  | number (n : Number)
  | string (s : Option String)
  | array (elements : List Draft) (closed : Bool)
  | object (members : List (Option String × Draft)) (closed : Bool)
  | broken
  deriving Inhabited

namespace Draft

/-! ## The reader's state -/

/-- An array or an object that is being read, its parts so far in reverse order. An object waits for
the value of the given key. -/
inductive Frame where
  | array (read : List Draft)
  | object (read : List (Option String × Draft)) (key : Option String)

/-- What may come next. -/
inductive Expected where
  | value
  | valueOrClose
  | keyOrClose
  | key
  | colon
  | separator

/-- A reader inside some frames, a value with nothing after it, a value with something after it, or
a draft that has broken off. -/
inductive State where
  | reading (expected : Expected) (frames : List Frame)
  | complete (v : Draft)
  | followed (v : Draft)
  | stopped (v : Draft)

/-- A value put into its frame. -/
def Frame.add : Frame → Draft → Frame
  | .array read, v => .array (v :: read)
  | .object read key, v => .object ((key, v) :: read) key

/-- Everything breaks off; `last` is what has been read inside the innermost frame. -/
def breakOff : Option Draft → List Frame → Draft
  | last, [] => last.getD .broken
  | last, .array read :: frames =>
    breakOff (some (.array (read.reverse ++ last.toList) false)) frames
  | last, .object read key :: frames =>
    breakOff (some (.object (read.reverse ++ (last.map (key, ·)).toList) false)) frames

/-! ## Steps -/

/-- The value that a token is by itself. -/
def atom? : Token → Option Draft
  | .null => some .null
  | .bool b => some (.bool b)
  | .number n => some (.number n)
  | .string s => some (.string s)
  | _ => none

/-- The state after a value. -/
def finish : List Frame → Draft → State
  | [], v => .complete v
  | frame :: frames, v => .reading .separator (frame.add v :: frames)

/-- The state after the first token of a value. -/
def begin (frames : List Frame) (t : Token) : State :=
  match atom? t, t with
  | some v, _ => finish frames v
  | none, .openArray => .reading .valueOrClose (.array [] :: frames)
  | none, .openObject => .reading .keyOrClose (.object [] none :: frames)
  | none, _ => .stopped (breakOff (some .broken) frames)

/-- The state after one more token. -/
def step : State → Token → State
  | .reading .value frames, t => begin frames t
  | .reading .valueOrClose (.array read :: frames), .closeArray =>
    finish frames (.array read.reverse true)
  | .reading .valueOrClose frames, t => begin frames t
  | .reading .keyOrClose (.object read _ :: frames), .closeObject =>
    finish frames (.object read.reverse true)
  | .reading .keyOrClose (.object read _ :: frames), .string s =>
    .reading .colon (.object read s :: frames)
  | .reading .key (.object read _ :: frames), .string s =>
    .reading .colon (.object read s :: frames)
  | .reading .colon frames, .colon => .reading .value frames
  | .reading .colon frames, _ => .stopped (breakOff (some .broken) frames)
  | .reading .separator (.array read :: frames), .closeArray =>
    finish frames (.array read.reverse true)
  | .reading .separator (.array read :: frames), .comma =>
    .reading .value (.array read :: frames)
  | .reading .separator (.object read _ :: frames), .closeObject =>
    finish frames (.object read.reverse true)
  | .reading .separator (.object read key :: frames), .comma =>
    .reading .key (.object read key :: frames)
  | .reading _ frames, _ => .stopped (breakOff none frames)
  | .complete v, _ => .followed v
  | .followed v, _ => .followed v
  | .stopped v, _ => .stopped v

/-- The draft at the end of the text, and whether anything follows it. -/
def State.result : State → Draft × Bool
  | .reading .value frames => (breakOff (some .broken) frames, false)
  | .reading .valueOrClose frames => (breakOff none frames, false)
  | .reading .colon frames => (breakOff (some .broken) frames, false)
  | .reading _ frames => (breakOff none frames, false)
  | .complete v => (v, false)
  | .followed v => (v, true)
  | .stopped v => (v, false)

/-- The draft of a text, and whether anything follows it. -/
def parse (text : List Char) : Draft × Bool :=
  ((Token.scan text).foldl step (.reading .value [])).result

/-! ## Values -/

mutual

/-- The draft of a value. -/
def ofValue : Value → Draft
  | .null => .null
  | .bool b => .bool b
  | .number n => .number (.whole n)
  | .string s => .string (some s)
  | .array elements => .array (ofElements elements) true
  | .object members => .object (ofMembers members) true

/-- The drafts of the elements of an array. -/
def ofElements : List Value → List Draft
  | [] => []
  | v :: vs => ofValue v :: ofElements vs

/-- The drafts of the members of an object. -/
def ofMembers : List (String × Value) → List (Option String × Draft)
  | [] => []
  | (k, v) :: ms => (some k, ofValue v) :: ofMembers ms

end

/-! ## Soundness of parts that are not decoded -/

mutual

/-- Whether the text of the draft is well formed. -/
def wellFormed : Draft → Bool
  | .array elements closed => wellFormedElements elements && closed
  | .object members closed => wellFormedMembers members && closed
  | .broken => false
  | _ => true

/-- Whether the text of every element is well formed. -/
def wellFormedElements : List Draft → Bool
  | [] => true
  | d :: ds => d.wellFormed && wellFormedElements ds

/-- Whether the text of every member is well formed. -/
def wellFormedMembers : List (Option String × Draft) → Bool
  | [] => true
  | (_, d) :: ms => d.wellFormed && wellFormedMembers ms

end

mutual

/-- Whether the draft is well formed, every string has its text, every number fits a double, and no
array or object is nested deeper than `room`. -/
def storable (room : Nat) : Draft → Bool
  | .array elements closed => 0 < room && storableElements (room - 1) elements && closed
  | .object members closed => 0 < room && storableMembers (room - 1) members && closed
  | .string s => s.isSome
  | .number n => n != .tooLarge
  | .broken => false
  | _ => true

/-- Whether every element is storable. -/
def storableElements (room : Nat) : List Draft → Bool
  | [] => true
  | d :: ds => d.storable room && storableElements room ds

/-- Whether every member is storable. -/
def storableMembers (room : Nat) : List (Option String × Draft) → Bool
  | [] => true
  | (k, d) :: ms => k.isSome && d.storable room && storableMembers room ms

end

end Draft

end Storyline.Json
