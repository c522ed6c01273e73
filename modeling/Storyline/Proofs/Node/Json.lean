import Storyline.Node.Json
import Storyline.Proofs.Json.Decoding

/-!
# Nodes from their JSON texts

Every node is decoded from its own text, and so is every kind. The contents of nodes come first,
each from the fields of its shape; a kind is recovered through its tag, whichever of the ten it is.

* `Kind.recovers`: a kind from the members beside its tag.
* `Node.recovers`: a node from its name and the members of its kind.
-/

namespace Storyline

open Json

/-! ## Names of cases -/

theorem Period.recovers (room : Nat) (p : Period) :
    Decoder.Recovers (.enumeration names) room (.string p.name) p :=
  Decoder.recovers_enumeration (by cases p <;> rfl) room

theorem Resource.recovers (room : Nat) (r : Resource) :
    Decoder.Recovers (.enumeration names) room (.string r.name) r :=
  Decoder.recovers_enumeration (by cases r <;> rfl) room

theorem EditMode.recovers (room : Nat) (m : EditMode) :
    Decoder.Recovers (.enumeration names) room (.string m.name) m :=
  Decoder.recovers_enumeration (by cases m <;> rfl) room

theorem TradeAction.recovers (room : Nat) (a : TradeAction) :
    Decoder.Recovers (.enumeration names) room (.string a.name) a :=
  Decoder.recovers_enumeration (by cases a <;> rfl) room

/-! ## Contents -/

theorem recovers_optionalText (room : Nat) (s : Option String) :
    Decoder.Recovers (.nullable .text) room (optionalText s) s := by
  cases s with
  | none => exact Decoder.recovers_null .text room
  | some s => exact (Decoder.recovers_text room s).present nofun

theorem recovers_texts (room : Nat) (ss : List String) :
    Decoder.Recovers (.list .text) (room + 1) (texts ss) ss :=
  Decoder.recovers_list fun s _ => Decoder.recovers_text room s

theorem Edit.recovers (room : Nat) (e : Edit) : decode.Recovers (room + 1) e.encode e := by
  have fields : shape.Recovers room _ e :=
    (((Shape.Recovers.field (Resource.recovers room e.resource)).map mk).seq
      (.field (EditMode.recovers room e.mode))).seq
      (.field (Decoder.recovers_signed64 room e.value))
  exact fields.record (by decide) _

theorem WeightedOutcome.recovers (room : Nat) (o : WeightedOutcome) :
    decode.Recovers (room + 1) o.encode o := by
  have fields : shape.Recovers room _ o :=
    ((Shape.Recovers.field (Decoder.recovers_text room o.label)).map mk).seq
      (.field (Decoder.recovers_word32 room o.weight))
  exact fields.record (by decide) _

theorem Delay.recovers (room : Nat) (d : Delay) : decode.Recovers (room + 1) d.encode d := by
  have fields : shape.Recovers room _ d :=
    ((Shape.Recovers.field (Period.recovers room d.unit)).map mk).seq
      (.field (Decoder.recovers_word32 room d.amount))
  exact fields.record (by decide) _

theorem Item.recovers (room : Nat) (i : Item) : decode.Recovers (room + 1) i.encode i := by
  have fields : shape.Recovers room _ i :=
    ((Shape.Recovers.field (Decoder.recovers_text room i.name)).map mk).seq
      (.field (Decoder.recovers_signed64 room i.price))
  exact fields.record (by decide) _

theorem Cart.recovers (room : Nat) (c : Cart) : decode.Recovers (room + 2) c.encode c := by
  have fields : shape.Recovers (room + 1) _ c :=
    ((Shape.Recovers.field (TradeAction.recovers (room + 1) c.action)).map mk).seq
      (.field (Item.recovers room c.item))
  exact fields.record (by decide) _

/-! ## Kinds -/

namespace Kind

theorem recovers (kind : Kind) : decode.Recovers 4 kind.encode kind := by
  cases kind with
  | start category =>
    exact tagged.recovers_record rfl (by decide)
      ((Shape.Recovers.field (Decoder.recovers_text 3 category)).map start)
  | message image text choices speaker =>
    exact tagged.recovers_record rfl (by decide)
      (((((Shape.Recovers.field (recovers_optionalText 3 image)).map message).seq
        (.field (Decoder.recovers_text 3 text))).seq
        (.field (recovers_texts 2 choices))).seq
        (.field (recovers_optionalText 3 speaker)))
  | prompt text choices =>
    exact tagged.recovers_record rfl (by decide)
      (((Shape.Recovers.field (Decoder.recovers_text 3 text)).map prompt).seq
        (.field (recovers_texts 2 choices)))
  | timeSkip unit amount =>
    exact tagged.recovers_record rfl (by decide)
      (((Shape.Recovers.field (Period.recovers 3 unit)).map timeSkip).seq
        (.field (Decoder.recovers_word32 3 amount)))
  | result edits =>
    exact tagged.recovers_record rfl (by decide)
      ((Shape.Recovers.field (Decoder.recovers_list fun e _ => Edit.recovers 1 e)).map result)
  | random outcomes =>
    exact tagged.recovers_record rfl (by decide)
      ((Shape.Recovers.field (recovers_texts 2 outcomes)).map random)
  | weightedRandom outcomes =>
    exact tagged.recovers_record rfl (by decide)
      ((Shape.Recovers.field
        (Decoder.recovers_list fun o _ => WeightedOutcome.recovers 1 o)).map weightedRandom)
  | late delays =>
    exact tagged.recovers_record rfl (by decide)
      ((Shape.Recovers.field (Decoder.recovers_list fun d _ => Delay.recovers 1 d)).map late)
  | shop carts =>
    exact tagged.recovers_record rfl (by decide)
      ((Shape.Recovers.field (Decoder.recovers_list fun c _ => Cart.recovers 0 c)).map shop)
  | final => exact tagged.recovers rfl (List.forall_mem_nil _) (.unit final)

theorem members_apart (kind : Kind) : ∀ m ∈ kind.members, m.1 ≠ "id" := by
  cases kind <;> simp [members]

end Kind

/-! ## Nodes -/

theorem Node.recovers (node : Node) : decode.Recovers 4 node.encode node := by
  have kind := node.kind.recovers
  -- The name stands among the members of the kind, so the node is nested no deeper than it.
  have members : ∀ m ∈ node.kind.members, m.2.Within 3 := by
    cases kind.within with
    | object members => exact members
  refine ⟨.object (List.forall_mem_cons.2 ⟨.string _, members⟩), fun mode enough => ?_⟩
  have checked : checkApart "id" (fun d => (Decoder.text mode.inside d).map fun _ => ())
      mode.inside.room false (Draft.ofMembers (("id", .string node.id) :: node.kind.members)) true =
        .ok () :=
    checkApart_ok rfl node.kind.members_apart members (Mode.room_inside enough)
  have decoded : Kind.decode .stored (.object (Draft.ofMembers node.kind.members) true) =
      .ok node.kind := kind.ok .stored (by decide)
  rw [encode, Draft.ofValue, decode, checked]
  simp only [member?_first, membersBut_ofMembers node.kind.members_apart, decoded]
  rfl

end Storyline
