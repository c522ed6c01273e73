import Storyline.Node.Json

/-!
# Graph documents

What an author writes down: the name of a scenario, its nodes, and the links between their outlets.
-/

namespace Storyline

open Json

/-- A link from an outlet of one node to another node. -/
structure Link where
  source : NodeId
  outlet : String
  target : NodeId
  deriving DecidableEq, Repr

/-- A scenario as it is written down. -/
structure Document where
  name : String
  nodes : List Node
  links : List Link
  deriving DecidableEq, Repr

def Link.encode (l : Link) : Value :=
  .object [("from", .string l.source), ("port", .string l.outlet), ("to", .string l.target)]

def Link.shape : Shape Link :=
  Link.mk <$> .required "from" .text <*> .required "port" .text <*> .required "to" .text

def Link.decode : Decoder Link := Link.shape.record "Connection"

def Document.encode (d : Document) : Value :=
  .object [("name", .string d.name), ("nodes", .array (d.nodes.map Node.encode)),
    ("connections", .array (d.links.map Link.encode))]

/-- The fields of a document; the links may be missing. -/
def Document.shape : Shape Document :=
  Document.mk <$> .required "name" .text <*> .required "nodes" (.list Node.decode)
    <*> .defaulted "connections" (.list Link.decode) []

def Document.decode : Decoder Document := Document.shape.record "GraphAsset"

def Document.text (d : Document) : String :=
  d.encode.text

end Storyline
