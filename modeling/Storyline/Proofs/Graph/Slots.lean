import Storyline.Proofs.Graph.Build
import Storyline.Proofs.Outlet

/-!
# Links and slots

Every link of a graph belongs to a slot of its source. A walk finds it there, unless its outlet is
oddly spelled: then it looks the slot up under another name.

* `Graph.outlets_spelled`: names of outlets, and links by the slots to which they belong.
* `Graph.detour_unfound`: a link that no walk follows.
-/

namespace Storyline.Graph

theorem exists_slot {g : Graph} {l : Link} (mem : l ∈ g.links) :
    ∃ n, g.node? l.source = some n ∧ ∃ slot ∈ n.kind.slots, slot.Spelled l.outlet := by
  obtain ⟨n, node_mem, known, declared⟩ := g.valid.source l mem
  exact ⟨n, node?_eq_some_iff.2 ⟨node_mem, known⟩, Kind.hasOutlet_iff.1 declared⟩

/-- The names that a kind accepts are the spellings of its slots, and those of them that are not odd
are looked up. So a link is found at its slot exactly if its outlet is not oddly spelled, and is
then the only such link there. -/
theorem outlets_spelled (g : Graph) :
    (∀ (kind : Kind) (name : String),
      (kind.hasOutlet name ↔ ∃ slot ∈ kind.slots, slot.Spelled name) ∧
        (name ∈ kind.outlets ↔ kind.hasOutlet name ∧ ¬ OddlySpelled name)) ∧
      ∀ l ∈ g.links, ∃ n, g.node? l.source = some n ∧ ∃ slot ∈ n.kind.slots,
        slot.Spelled l.outlet ∧ (∀ other ∈ n.kind.slots, other.Spelled l.outlet → other = slot) ∧
          (g.link? l.source slot.name = some l ↔ ¬ OddlySpelled l.outlet) ∧
            ∀ k ∈ g.links, k.source = l.source → slot.Spelled k.outlet →
              ¬ OddlySpelled k.outlet → ¬ OddlySpelled l.outlet → k = l := by
  refine ⟨fun kind name => ⟨Kind.hasOutlet_iff, Kind.mem_outlets_iff⟩, fun l mem => ?_⟩
  obtain ⟨n, found, slot, slot_mem, spelled⟩ := exists_slot mem
  have looked : l.outlet = slot.name ↔ ¬ OddlySpelled l.outlet := spelled.eq_name_iff slot_mem
  refine ⟨n, found, slot, slot_mem, spelled, fun other other_mem spelled' => ?_, ?_, ?_⟩
  · exact spelled'.unique spelled other_mem slot_mem
  · rw [link?_eq_some_iff, ← looked]
    exact ⟨fun h => h.2.2, fun h => ⟨mem, rfl, h⟩⟩
  · intro k k_mem source spelled' even even'
    have outlet : k.outlet = slot.name := (spelled'.eq_name_iff slot_mem).2 even
    have first := link?_eq_some_iff.2 ⟨k_mem, source, outlet⟩
    have second := link?_eq_some_iff.2 ⟨mem, rfl, looked.2 even'⟩
    exact Option.some.inj (first.symm.trans second)

/-- A question with one answer, for which two links are accepted. -/
def detour : Graph where
  name := "detour"
  nodes := [⟨"start", .start "daily"⟩, ⟨"ask", .message none "Leave?" ["Go"] none⟩,
    ⟨"town", .final⟩, ⟨"woods", .final⟩]
  links := [⟨"start", "start", "ask"⟩, ⟨"ask", "choices 0", "town"⟩, ⟨"ask", "choices +0", "woods"⟩]
  valid := Document.fault?_eq_none (by decide)

/-- A name is accepted that is not looked up, so two links share a slot, and one is never found. -/
theorem detour_unfound :
    let kind := Kind.message none "Leave?" ["Go"] none
    kind.hasOutlet "choices +0" = true ∧ "choices +0" ∉ kind.outlets ∧
      detour.links[1]? = some ⟨"ask", "choices 0", "town"⟩ ∧
      detour.links[2]? = some ⟨"ask", "choices +0", "woods"⟩ ∧
      detour.next? "ask" (choiceOutlet 0) = some ⟨"town", .final⟩ := by
  decide

end Storyline.Graph
