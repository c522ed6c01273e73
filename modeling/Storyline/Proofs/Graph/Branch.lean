import Storyline.Graph.Branch
import Storyline.Proofs.Random.Draw

/-!
# Branches that are taken

* `Graph.mem_candidates`: the candidates are the targets of the linked outcomes.
* `Graph.pickUniform_mem`, `Graph.pickWeighted_mem`: a branch at random picks one of its candidates
  if it has any.
-/

namespace Storyline

/-- How many outcomes a branch at random has. -/
def Kind.outcomes? : Kind → Option Nat
  | .random outcomes => some outcomes.length
  | .weightedRandom outcomes => some outcomes.length
  | _ => none

theorem Kind.length_weights {kind : Kind} {n : Nat} (h : kind.outcomes? = some n) :
    kind.weights.length = n := by
  cases kind <;> simp_all [outcomes?, weights]

namespace Graph

/-! ## Candidates -/

theorem mem_candidates {g : Graph} {node : Node} {n : Nat} (found : g.node? node.id = some node)
    (branch : node.kind.outcomes? = some n) {target : Node} :
    target ∈ (g.candidates node.id).map Prod.fst ↔
      ∃ i, i < n ∧ g.next? node.id (outcomeOutlet i) = some target := by
  have length := node.kind.length_weights branch
  simp only [candidates, found]
  constructor
  · intro mem
    obtain ⟨⟨t, w⟩, entry, rfl⟩ := List.mem_map.1 mem
    obtain ⟨⟨weight, i⟩, position, link⟩ := List.mem_filterMap.1 entry
    obtain ⟨u, linked, same⟩ := Option.map_eq_some_iff.1 link
    have := List.mem_zipIdx' position
    refine ⟨i, by omega, ?_⟩
    rw [linked, ← (Prod.mk.inj same).1]
  · rintro ⟨i, bound, linked⟩
    have inside : i < node.kind.weights.length := by omega
    have position : (node.kind.weights[i], i) ∈ node.kind.weights.zipIdx :=
      List.mk_mem_zipIdx_iff_getElem?.2 (List.getElem?_eq_getElem inside)
    exact List.mem_map.2 ⟨(target, node.kind.weights[i]),
      List.mem_filterMap.2 ⟨_, position, by simp [linked]⟩, rfl⟩

theorem candidates_eq_nil {g : Graph} {node : Node} {n : Nat}
    (found : g.node? node.id = some node) (branch : node.kind.outcomes? = some n)
    (empty : g.candidates node.id = []) :
    ∀ i, i < n → g.next? node.id (outcomeOutlet i) = none := by
  intro i bound
  cases linked : g.next? node.id (outcomeOutlet i) with
  | none => rfl
  | some target =>
    have := (mem_candidates found branch).2 ⟨i, bound, linked⟩
    simp [empty] at this

/-! ## Picks -/

theorem pickAmong_mem {α : Type} {as : List α} (nonempty : as ≠ []) (gen : Generator) :
    ∃ a ∈ as, (pickAmong as gen).1 = some a := by
  have positive : 0 < as.length := List.length_pos_iff.2 nonempty
  have bound : (gen.draw (.uniform as.length)).1 < as.length := by
    simpa using gen.draw_lt (l := .uniform as.length) (by simpa using positive)
  refine ⟨_, List.getElem_mem bound, ?_⟩
  simp [pickAmong, nonempty]

theorem atShare_mem {α : Type} {as : List (α × Nat)} {n : Nat} (h : n < totalWeight as) :
    ∃ a ∈ as.map Prod.fst, atShare as n = some a := by
  induction as generalizing n with
  | nil => simp [totalWeight] at h
  | cons entry rest ih =>
    obtain ⟨a, weight⟩ := entry
    by_cases first : n < weight
    · exact ⟨a, by simp, by simp [atShare, first]⟩
    · have below : n - weight < totalWeight rest := by
        simp only [totalWeight] at h
        omega
      obtain ⟨b, mem, share⟩ := ih below
      exact ⟨b, List.mem_cons_of_mem _ mem, by simpa [atShare, first] using share⟩

theorem pickUniform_of_nil {g : Graph} {id : NodeId} (empty : g.candidates id = [])
    (gen : Generator) : g.pickUniform id gen = (none, gen) := by
  simp [pickUniform, pickAmong, empty]

theorem pickUniform_mem {g : Graph} {id : NodeId} (nonempty : g.candidates id ≠ [])
    (gen : Generator) :
    ∃ target ∈ (g.candidates id).map Prod.fst, (g.pickUniform id gen).1 = some target :=
  pickAmong_mem (by simpa using nonempty) gen

theorem pickWeighted_of_nil {g : Graph} {id : NodeId} (empty : g.candidates id = [])
    (gen : Generator) : g.pickWeighted id gen = (none, gen, []) := by
  simp [pickWeighted, empty]

theorem pickWeighted_mem {g : Graph} {id : NodeId} (nonempty : g.candidates id ≠ [])
    (gen : Generator) :
    ∃ target ∈ (g.candidates id).map Prod.fst, (g.pickWeighted id gen).1 = some target := by
  by_cases total : totalWeight (g.candidates id) = 0
  · obtain ⟨target, mem, pick⟩ :=
      @pickAmong_mem _ ((g.candidates id).map Prod.fst) (by simpa using nonempty) gen
    exact ⟨target, mem, by simpa [pickWeighted, nonempty, total] using pick⟩
  · have bound : (gen.draw (.shares (totalWeight (g.candidates id)))).1 <
        totalWeight (g.candidates id) := gen.draw_lt (Nat.pos_of_ne_zero total)
    obtain ⟨target, mem, share⟩ := atShare_mem bound
    exact ⟨target, mem, by simpa [pickWeighted, nonempty, total] using share⟩

end Graph

end Storyline
