import Mathlib.Data.List.Forall2
import Storyline.Proofs.Graph.Document
import Storyline.Proofs.Json.Spelled
import Storyline.Proofs.Node.Unordered

/-!
# Documents in any order

A document may be written down in many ways: its members, those of its nodes and those of its links
stand in any order, and members of other names stand among them. All of these are read as the same
document, and so as the same graph.

* `Node.Relaid`, `Link.Relaid`, `Document.Relaid`: two ways to write the same.
* `Document.decode_relaid`: they are read as the same document.
* `Document.any_order`: nodes, documents and their texts.
-/

namespace Storyline

open Json

/-- Whether a node may be written in the second way if it is written in the first one. What stands
among its members has to be storable where it stands. -/
inductive Node.Relaid (mode : Mode) : Draft → Draft → Prop where
  | same (d : Draft) : Relaid mode d d
  | object {ms ms' : List (Option String × Draft)} {closed : Bool} {node : Node}
      (read : decode mode (.object ms closed) = .ok node)
      (again : Rearranged node.names (Draft.storable mode.inside.room) ms ms') :
      Relaid mode (.object ms closed) (.object ms' closed)

/-- Whether a link may be written in the second way if it is written in the first one. -/
inductive Link.Relaid : Draft → Draft → Prop where
  | same (d : Draft) : Relaid d d
  | object {ms ms' : List (Option String × Draft)} {closed : Bool}
      (again : Rearranged shape.names Draft.wellFormed ms ms') :
      Relaid (.object ms closed) (.object ms' closed)

namespace Document

/-- Whether a member of a document may have the second value if it has the first one. -/
inductive Alike (mode : Mode) (name : String) : Draft → Draft → Prop where
  | same (d : Draft) : Alike mode name d d
  | nodes {ds ds' : List Draft} {closed : Bool} (here : name = "nodes")
      (elements : List.Forall₂ (Node.Relaid mode.inside) ds ds') :
      Alike mode name (.array ds closed) (.array ds' closed)
  | links {ds ds' : List Draft} {closed : Bool} (here : name = "connections")
      (elements : List.Forall₂ Link.Relaid ds ds') :
      Alike mode name (.array ds closed) (.array ds' closed)

/-- Whether a document may be written in the second way if it is written in the first one: its nodes
and links one by one, then its own members. -/
inductive Relaid (mode : Mode) : Draft → Draft → Prop where
  | object {ms kept ms' : List (Option String × Draft)} {closed : Bool}
      (fields : Replaced (Alike mode.inside) ms kept)
      (again : Rearranged shape.names Draft.wellFormed kept ms') :
      Relaid mode (.object ms closed) (.object ms' closed)

end Document

/-! ## Reading -/

theorem Node.Relaid.agrees {mode : Mode} {d d' : Draft} (h : Relaid mode d d') :
    decode.Agrees mode d d' := by
  intro node read
  cases h with
  | same => exact read
  | object first again =>
    obtain rfl := Except.ok.inj (first.symm.trans read)
    exact decode_rearranged read again

theorem Link.Relaid.agrees {mode : Mode} {d d' : Draft} (h : Relaid d d') :
    decode.Agrees mode d d' := by
  intro link read
  cases h with
  | same => exact read
  | object again =>
    have respects : shape.Respects mode.inside fun _ => Eq :=
      ((Shape.Respects.same.map mk).seq .same).seq .same
    exact respects.rearranged again read

namespace Document

theorem shape_respects (mode : Mode) : shape.Respects mode (Alike mode) := by
  refine ((Shape.Respects.field ?name).map mk).seq (.field ?nodes) |>.seq (.field ?links)
  case name =>
    intro d d' alike
    cases alike with
    | same => exact fun _ read => read
    | nodes here => exact absurd here (by decide)
    | links here => exact absurd here (by decide)
  case nodes =>
    intro d d' alike
    cases alike with
    | same => exact fun _ read => read
    | nodes _ elements => exact Decoder.list_agrees (elements.imp fun _ _ => Node.Relaid.agrees)
    | links here => exact absurd here (by decide)
  case links =>
    intro d d' alike
    cases alike with
    | same => exact fun _ read => read
    | nodes here => exact absurd here (by decide)
    | links _ elements => exact Decoder.list_agrees (elements.imp fun _ _ => Link.Relaid.agrees)

theorem shape_unordered (mode : Mode) : shape.Respects mode fun _ => Eq :=
  ((Shape.Respects.same.map mk).seq .same).seq .same

theorem decode_relaid {mode : Mode} {d d' : Draft} (h : Relaid mode d d') :
    decode.Agrees mode d d' := by
  intro document read
  cases h with
  | object fields again =>
    -- Only fields of the document are replaced, so what is passed over stays as it is.
    have passed : ∀ name ∉ shape.names, ∀ d d', Alike mode.inside name d d' →
        d.wellFormed → d'.wellFormed := by
      intro name other d d' alike complete
      cases alike with
      | same => exact complete
      | nodes here => exact absurd (here ▸ by decide) other
      | links here => exact absurd (here ▸ by decide) other
    have kept := (shape_respects mode.inside).replaced passed fields read
    exact (shape_unordered mode.inside).rearranged again kept

/-- The members of a node may stand in any order, with members among them that can be stored and
that neither the node nor its kind has: the same node is read, wherever it stands. So may the
members of a document, of its nodes and of its links: the same document and the same graph are read
from the text. What is passed over outside of a node has to be well formed, as everything is that
can be stored. The members of an object are those that the parts of its text spell, in their
order. -/
theorem any_order :
    (∀ (mode : Mode) (ms ms' : List (Option String × Draft)) (closed : Bool) (node : Node),
      Node.decode mode (.object ms closed) = .ok node →
      Rearranged node.names (Draft.storable mode.inside.room) ms ms' →
      Node.decode mode (.object ms' closed) = .ok node) ∧
    (∀ (text text' : String) (draft draft' : Draft) (document : Document),
      Draft.parse text.toList = (draft, false) → Draft.parse text'.toList = (draft', false) →
      Relaid (.direct 0) draft draft' → decodeText decode text = .ok document →
      decodeText decode text' = .ok document ∧ Graph.read text' = document.build) ∧
    (∀ (texts : List (List Char)) (ms : List (Option String × Draft)),
      List.Forall₂ Spells texts ms →
      Draft.parse (objectText texts) = (.object ms true, false)) := by
  refine ⟨fun _ _ _ _ _ => Node.decode_rearranged, ?_, fun _ _ => Draft.parse_objectText⟩
  intro text text' draft draft' document parsed parsed' again read
  have first : decode (.direct 0) draft = .ok document := by
    rw [decodeText, parsed] at read
    obtain ⟨_, first, result⟩ := bind_eq_ok.1 read
    obtain rfl := Except.ok.inj result
    exact first
  have same : decodeText decode text' = .ok document := by
    rw [decodeText, parsed']
    exact bind_eq_ok.2 ⟨document, decode_relaid again document first, rfl⟩
  refine ⟨same, ?_⟩
  rw [Graph.read, same]

theorem rearranged_behind {taken : List String} {fit : Draft → Bool} {name : String} {d : Draft}
    (free : name ∉ taken) (fits : fit d) (ms : List (Option String × Draft)) :
    Rearranged taken fit ms ((some name, d) :: ms.reverse) :=
  ⟨[(some name, d)], List.reverse_concat ▸ List.reverse_perm _,
    List.forall_mem_singleton.2 ⟨name, free, rfl, fits⟩⟩

/-- A letter that ends at once. Its objects stand in reverse order, a remark in front of each. -/
theorem any_order_letter :
    Node.decode (.direct 0) (.object [(some "remark", .null), (some "kind", .string (some "end")),
      (some "id", .string (some "e"))] true) = .ok ⟨"e", .final⟩ ∧
    decodeText decode (Value.text (.object [("remark", .null), ("connections", .array []),
      ("nodes", .array [.object [("remark", .null), ("kind", .string "end"),
        ("id", .string "e")]]),
      ("name", .string "letter")])) = .ok ⟨"letter", [⟨"e", .final⟩], []⟩ ∧
    Draft.parse (objectText [writeString "id" ++ ':' :: writeString "e"]) =
      (.object [(some "id", .string (some "e"))] true, false) := by
  let node : Node := ⟨"e", .final⟩
  let letter : Document := ⟨"letter", [node], []⟩
  let nodeAgain : Value := .object [("remark", .null), ("kind", .string "end"), ("id", .string "e")]
  let again : Value := .object [("remark", .null), ("connections", .array []),
    ("nodes", .array [nodeAgain]), ("name", .string "letter")]
  have decoded (depth : Nat) (shallow : depth ≤ 2) :
      Node.decode (.direct depth) (.ofValue node.encode) = .ok node :=
    node.recovers.ok (.direct depth) (by simp only [Mode.room]; omega)
  refine ⟨any_order.1 _ _ _ _ node (decoded 0 (by decide))
    (rearranged_behind (by decide) rfl _), ?_, any_order.2.2 _ _ (.cons (.member ?_ ?_ rfl) .nil)⟩
  · have fields : Replaced (Alike (.direct 1))
        (Draft.ofMembers [("name", .string "letter"), ("nodes", .array [node.encode]),
          ("connections", .array [])])
        (Draft.ofMembers [("name", .string "letter"), ("nodes", .array [nodeAgain]),
          ("connections", .array [])]) := by
      have nodes : Alike (.direct 1) "nodes" (.array [.ofValue node.encode] true)
          (.array [.ofValue nodeAgain] true) :=
        .nodes rfl (.cons (.object (decoded 2 (by decide)) (rearranged_behind (by decide) rfl _))
          .nil)
      refine .cons ⟨rfl, fun _ _ => .same _⟩ (.cons ⟨rfl, ?_⟩
        (.cons ⟨rfl, fun _ _ => .same _⟩ .nil))
      rintro name here
      obtain rfl := Option.some.inj here
      exact nodes
    have relaid : Relaid (.direct 0) (.ofValue letter.encode) (.ofValue again) :=
      .object fields (rearranged_behind (by decide) rfl _)
    have nodeWithin : nodeAgain.Within 1 :=
      .object (by simp [Value.Within.null, Value.Within.string])
    have within : again.Within 3 := by
      refine .object ?_
      simp only [List.forall_mem_cons]
      exact ⟨.null, .array (List.forall_mem_nil _), .array (List.forall_mem_singleton.2 nodeWithin),
        .string _, List.forall_mem_nil _⟩
    have parsed : Draft.parse letter.text.toList = (.ofValue letter.encode, false) := by
      rw [text, Value.text, String.toList_ofList, Draft.parse_write letter.recovers.within]
    have parsedAgain : Draft.parse again.text.toList = (.ofValue again, false) := by
      rw [Value.text, String.toList_ofList, Draft.parse_write within]
    have read := letter.recovers.readsBack (by decide)
    exact (any_order.2.1 letter.text again.text _ _ letter parsed parsedAgain relaid read.compact).1
  · have key := (Yields.nil.string "id") [] stops_nil
    simpa [Token.scan_eq []] using key
  · have within : Value.Within 0 (.string "e") := .string "e"
    exact Draft.parse_write within

end Document

end Storyline
