import Storyline.Graph.Basic
import Storyline.Proofs.Node.Json

/-!
# Documents from their JSON texts

A document is read back from its text, with all its nodes and links, whether it is a graph or not.
So nothing is lost between what an author writes down and the graph that is built of it, or the
fault that is reported.

* `Document.roundtrip`: documents, their graphs, nodes and kinds.
-/

namespace Storyline

open Json

theorem Link.recovers (room : Nat) (l : Link) : decode.Recovers (room + 1) l.encode l := by
  have fields : shape.Recovers room _ l :=
    (((Shape.Recovers.field (Decoder.recovers_text room l.source)).map mk).seq
      (.field (Decoder.recovers_text room l.outlet))).seq
      (.field (Decoder.recovers_text room l.target))
  exact fields.record (by decide) _

namespace Document

theorem recovers (d : Document) : decode.Recovers 6 d.encode d := by
  have fields : shape.Recovers 5 _ d :=
    (((Shape.Recovers.field (Decoder.recovers_text 5 d.name)).map mk).seq
      (.field (Decoder.recovers_list fun n _ => n.recovers))).seq
      (.field (Decoder.recovers_list fun l _ => l.recovers 3))
  exact fields.record (by decide) _

/-- The text of a document is decoded as the document, and read as its graph or its fault. A single
node and a single kind are decoded from their own texts. -/
theorem roundtrip (d : Document) (n : Node) (k : Kind) :
    (decode.ReadsBack d.encode d ∧
      Graph.read d.text = d.build ∧ Graph.read d.encode.indented = d.build) ∧
    Node.decode.ReadsBack n.encode n ∧
    Kind.decode.ReadsBack k.encode k := by
  have document := d.recovers.readsBack (by decide)
  refine ⟨⟨document, ?_, ?_⟩, n.recovers.readsBack (by decide), k.recovers.readsBack (by decide)⟩
  · rw [Graph.read, text, document.compact]
  · rw [Graph.read, document.indented]

end Document

end Storyline
