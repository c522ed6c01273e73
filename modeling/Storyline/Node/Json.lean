import Storyline.Node
import Storyline.Json.Tagged

/-!
# Nodes as JSON

How nodes and their contents are written and read. A node is one object of its name, its kind and
the contents of that kind.
-/

namespace Storyline

open Json

/-- A text that may be missing, as a value. -/
def optionalText : Option String → Value
  | none => .null
  | some s => .string s

def texts (ss : List String) : Value :=
  .array (ss.map .string)

/-! ## Names of cases -/

def Period.names : List (String × Period) :=
  [("day", .day), ("week", .week), ("month", .month)]

def Resource.names : List (String × Resource) :=
  [("happiness", .happiness), ("money", .money), ("salary", .salary), ("pet", .pet)]

def EditMode.names : List (String × EditMode) :=
  [("add", .add), ("set", .set)]

def TradeAction.names : List (String × TradeAction) :=
  [("buy", .buy), ("sell", .sell), ("give", .give)]

def Period.name : Period → String
  | .day => "day"
  | .week => "week"
  | .month => "month"

def Resource.name : Resource → String
  | .happiness => "happiness"
  | .money => "money"
  | .salary => "salary"
  | .pet => "pet"

def EditMode.name : EditMode → String
  | .add => "add"
  | .set => "set"

def TradeAction.name : TradeAction → String
  | .buy => "buy"
  | .sell => "sell"
  | .give => "give"

/-! ## Contents -/

def Edit.encode (e : Edit) : Value :=
  .object [("resource", .string e.resource.name), ("mode", .string e.mode.name),
    ("value", .number e.value.toInt)]

/-- The fields of an edit; the mode may be missing. -/
def Edit.shape : Shape Edit :=
  Edit.mk <$> .required "resource" (.enumeration Resource.names)
    <*> .defaulted "mode" (.enumeration EditMode.names) .add
    <*> .required "value" .signed64

def Edit.decode : Decoder Edit := Edit.shape.record "ResourceEdit"

def WeightedOutcome.encode (o : WeightedOutcome) : Value :=
  .object [("label", .string o.label), ("weight", .number o.weight.toNat)]

/-- The fields of a weighted outcome; the label may be missing. -/
def WeightedOutcome.shape : Shape WeightedOutcome :=
  WeightedOutcome.mk <$> .defaulted "label" .text "" <*> .required "weight" .word32

def WeightedOutcome.decode : Decoder WeightedOutcome :=
  WeightedOutcome.shape.record "WeightedOutcome"

def Delay.encode (d : Delay) : Value :=
  .object [("duration", .string d.unit.name), ("amount", .number d.amount.toNat)]

def Delay.shape : Shape Delay :=
  Delay.mk <$> .required "duration" (.enumeration Period.names) <*> .required "amount" .word32

def Delay.decode : Decoder Delay := Delay.shape.record "LateInfo"

def Item.encode (i : Item) : Value :=
  .object [("name", .string i.name), ("price", .number i.price.toInt)]

/-- The fields of an item; one without a price is free. -/
def Item.shape : Shape Item :=
  Item.mk <$> .required "name" .text <*> .defaulted "price" .signed64 0

def Item.decode : Decoder Item := Item.shape.record "Item"

def Cart.encode (c : Cart) : Value :=
  .object [("action", .string c.action.name), ("item", c.item.encode)]

def Cart.shape : Shape Cart :=
  Cart.mk <$> .required "action" (.enumeration TradeAction.names) <*> .required "item" Item.decode

def Cart.decode : Decoder Cart := Cart.shape.record "ShopCart"

/-! ## Kinds -/

namespace Kind

/-- The members of a kind, its tag first. -/
def members : Kind → List (String × Value)
  | .start category => [("kind", .string "start"), ("event_type", .string category)]
  | .message image text choices speaker =>
    [("kind", .string "message"), ("image", optionalText image), ("text", .string text),
      ("choices", texts choices), ("speaker", optionalText speaker)]
  | .prompt text choices =>
    [("kind", .string "prompt"), ("text", .string text), ("choices", texts choices)]
  | .timeSkip unit amount =>
    [("kind", .string "time_skip"), ("unit", .string unit.name), ("amount", .number amount.toNat)]
  | .result edits => [("kind", .string "result"), ("actions", .array (edits.map Edit.encode))]
  | .random outcomes => [("kind", .string "random"), ("outcomes", texts outcomes)]
  | .weightedRandom outcomes =>
    [("kind", .string "multi_random"), ("outcomes", .array (outcomes.map WeightedOutcome.encode))]
  | .late delays =>
    [("kind", .string "late_result"), ("infos", .array (delays.map Delay.encode))]
  | .shop carts => [("kind", .string "shop"), ("carts", .array (carts.map Cart.encode))]
  | .final => [("kind", .string "end")]

def encode (kind : Kind) : Value :=
  .object kind.members

/-- The kinds by their tags. Lists may be missing, and so may the category, an image, a speaker and
the text of a prompt. -/
def cases : List (Case Kind) :=
  [⟨"start", "Start", .record (Kind.start <$> .defaulted "event_type" .text defaultCategory)⟩,
    ⟨"message", "Message", .record
      (Kind.message <$> .defaulted "image" (.nullable .text) none <*> .required "text" .text
        <*> .defaulted "choices" (.list .text) []
        <*> .defaulted "speaker" (.nullable .text) none)⟩,
    ⟨"prompt", "Prompt", .record
      (Kind.prompt <$> .defaulted "text" .text "" <*> .defaulted "choices" (.list .text) [])⟩,
    ⟨"time_skip", "TimeSkip", .record
      (Kind.timeSkip <$> .required "unit" (.enumeration Period.names)
        <*> .required "amount" .word32)⟩,
    ⟨"result", "Result", .record (Kind.result <$> .defaulted "actions" (.list Edit.decode) [])⟩,
    ⟨"random", "Random", .record (Kind.random <$> .defaulted "outcomes" (.list .text) [])⟩,
    ⟨"multi_random", "MultiRandom", .record
      (Kind.weightedRandom <$> .defaulted "outcomes" (.list WeightedOutcome.decode) [])⟩,
    ⟨"late_result", "LateResult", .record
      (Kind.late <$> .defaulted "infos" (.list Delay.decode) [])⟩,
    ⟨"shop", "Shop", .record (Kind.shop <$> .defaulted "carts" (.list Cart.decode) [])⟩,
    ⟨"end", "End", .unit .final⟩]

def tagged : Tagged Kind := ⟨"NodeKind", "kind", cases⟩

def decode : Decoder Kind := tagged.decode

end Kind

/-! ## Nodes -/

namespace Node

def encode (node : Node) : Value :=
  .object (("id", .string node.id) :: node.kind.members)

/-- Reads a node. Its name is read first; the kind is decoded from a copy of the other members. -/
def decode : Decoder Node
  | mode, .object members closed => do
    let check d := (Decoder.text mode.inside d).map fun _ => ()
    checkApart "id" check mode.inside.room false members closed
    match Shape.member? members "id" with
    | none => .error (.data (.missingField "id"))
    | some d => do
      let id ← Decoder.text mode.inside d
      let kind ← Kind.decode .stored (.object (membersBut "id" members) true)
      .ok ⟨id, kind⟩
  | _, d => .error (d.wrongType (.record "Node"))

end Node

end Storyline
