import Storyline.Node.Json
import Storyline.Proofs.Json.Unordered

/-!
# Nodes in any order

A node is read from an object whatever the order of its members. Its name and its tag may stand
anywhere, and members that neither the node nor its kind has are passed over.

* `Node.names`: the names of the members of a node.
* `Kind.cases_named`: a kind is read from its own fields, whichever of the ten it is.
* `Node.decode_rearranged`: the node that is read from rearranged members.
-/

namespace Storyline

open Json

namespace Kind

/-- The names of the members of a kind, its tag first. -/
def names (kind : Kind) : List String :=
  kind.members.map Prod.fst

/-- Whether the data of a case are looked up by name, these names being the ones of the kind that is
read. -/
inductive Named : Body Kind → Prop where
  | unit (kind : Kind) : Named (.unit kind)
  | record {shape : Shape Kind} (respects : shape.Respects .stored fun _ => Eq)
      (makes : shape.Makes fun kind => kind.names = tagged.member :: shape.names) :
      Named (.record shape)

theorem cases_named : ∀ c ∈ cases, Named c.body := by
  simp only [cases, List.forall_mem_cons]
  refine ⟨?start, ?message, ?prompt, ?timeSkip, ?result, ?random, ?weightedRandom, ?late, ?shop,
    ?final, List.forall_mem_nil _⟩
  case message =>
    exact .record (((Shape.Respects.same.map message).seq .same).seq .same |>.seq .same)
      (.seq (.seq (.seq (.map fun _ _ _ _ => rfl))))
  case prompt =>
    exact .record ((Shape.Respects.same.map prompt).seq .same) (.seq (.map fun _ _ => rfl))
  case timeSkip =>
    exact .record ((Shape.Respects.same.map timeSkip).seq .same) (.seq (.map fun _ _ => rfl))
  case final => exact .unit final
  all_goals exact .record (Shape.Respects.same.map _) (.map fun _ => rfl)

theorem unordered {c : Case Kind} (mem : c ∈ cases) {ms : List (Option String × Draft)}
    {kind : Kind} (read : Tagged.bodyOfMembers c ms = .ok kind) : c.body.Unordered kind.names := by
  have named := cases_named c mem
  -- The body is the index of `named`, so it has to be a variable of its own.
  obtain ⟨tag, label, body⟩ := c
  cases named with
  | unit kind' => exact .unit kind'
  | record respects makes =>
    obtain ⟨-, -, built⟩ := Shape.ofMembers_eq_ok_iff.1 read
    exact .record respects (makes _ _ built ▸ List.subset_cons_self _ _)

end Kind

namespace Node

/-- The names of the members of a node. -/
def names (node : Node) : List String :=
  "id" :: node.kind.names

theorem decode_rearranged {mode : Mode} {ms ms' : List (Option String × Draft)} {closed : Bool}
    {node : Node} (read : decode mode (.object ms closed) = .ok node)
    (again : Rearranged node.names (Draft.storable mode.inside.room) ms ms') :
    decode mode (.object ms' closed) = .ok node := by
  obtain ⟨⟨⟩, checked, rest⟩ := bind_eq_ok.1 read
  have apart : ["id"] ⊆ node.names := List.cons_subset.2 ⟨List.mem_cons_self, List.nil_subset _⟩
  obtain ⟨checked', same⟩ := checkApart_rearranged (again.mono apart fun _ fits => fits) checked
  refine bind_eq_ok.2 ⟨(), checked', ?_⟩
  simp only [same]
  cases found : Shape.member? ms "id" with
  | none => simp [found] at rest
  | some d =>
    simp only [found] at rest
    obtain ⟨id, named, rest⟩ := bind_eq_ok.1 rest
    obtain ⟨kind, readKind, result⟩ := bind_eq_ok.1 rest
    obtain rfl : Node.mk id kind = node := Except.ok.inj result
    -- The other members are stored, and a stored copy leaves no less room than the text.
    have others : Rearranged kind.names (Draft.storable (Mode.room .stored)) (membersBut "id" ms)
        (membersBut "id" ms') :=
      (again.membersBut "id").mono (List.subset_cons_self _ _)
        (Draft.storable_mono mode.inside.room_le)
    have tagged : Kind.tagged.member ∈ kind.names := by
      cases kind <;> exact List.mem_cons_self
    refine bind_eq_ok.2 ⟨id, named, bind_eq_ok.2 ⟨kind, ?_, result⟩⟩
    exact Tagged.decode_rearranged readKind tagged others fun c mem _ body =>
      Kind.unordered mem body

end Node

end Storyline
