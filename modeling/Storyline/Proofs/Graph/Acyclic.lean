import Mathlib.Algebra.Order.BigOperators.Group.List
import Mathlib.Algebra.Order.Group.Nat
import Mathlib.Algebra.Ring.Nat
import Mathlib.Data.Finset.Card
import Mathlib.Logic.Relation
import Storyline.Proofs.Graph.Build
import Storyline.Proofs.Outlet

/-!
# Acyclic graphs

A path along the links of an acyclic graph comes to an end, even if at every node all links are
followed at once.

* `Graph.acyclic_iff`: a graph is acyclic exactly if its nodes can be numbered against the links.
* `Graph.weight`: how much can be met from a node on, counted anew on each path.
* `Graph.sum_price_le`: a node weighs more than all to which its outlets lead.
-/

namespace Storyline

theorem Kind.slots_nodup (kind : Kind) : kind.slots.Nodup := by
  have listed (list : String) (n : Nat) : ((List.range n).map (Slot.listed list)).Nodup :=
    List.nodup_range.map fun _ _ same => (Slot.listed.inj same).2
  cases kind <;> simp [slots, listed]

theorem Kind.outlets_nodup (kind : Kind) : kind.outlets.Nodup := by
  rw [outlets_eq]
  refine kind.slots_nodup.map_on ?_
  intro slot mem slot' mem' same
  have spelled := slot'.spelled_name
  rw [← same] at spelled
  exact slot.spelled_name.unique spelled mem mem'

namespace Graph

variable {g : Graph}

def Linked (g : Graph) (a b : NodeId) : Prop :=
  ∃ l ∈ g.links, l.source = a ∧ l.target = b

/-- No path along the links comes back to its beginning. -/
def Acyclic (g : Graph) : Prop :=
  ∀ id, ¬ Relation.TransGen g.Linked id id

/-! ## Ranks -/

/-- A numbering of the nodes that falls along every link. -/
def Ranks (g : Graph) (rank : NodeId → Nat) : Prop :=
  ∀ l ∈ g.links, rank l.target < rank l.source

instance (g : Graph) (rank : NodeId → Nat) : Decidable (g.Ranks rank) :=
  inferInstanceAs (Decidable (∀ l ∈ g.links, rank l.target < rank l.source))

open Classical in
/-- The nodes to which a path leads from the given one. -/
noncomputable def ahead (g : Graph) (id : NodeId) : Finset NodeId :=
  (g.links.map Link.target).toFinset.filter (Relation.TransGen g.Linked id)

theorem mem_ahead {id id' : NodeId} : id' ∈ g.ahead id ↔ Relation.TransGen g.Linked id id' := by
  classical
  rw [ahead, Finset.mem_filter, List.mem_toFinset, List.mem_map]
  constructor
  · exact And.right
  · intro path
    obtain ⟨middle, -, l, mem, -, target⟩ := Relation.TransGen.tail'_iff.1 path
    exact ⟨⟨l, mem, target⟩, path⟩

theorem card_ahead_le (g : Graph) (id : NodeId) : (g.ahead id).card ≤ g.links.length := by
  classical
  have fewer := (Finset.card_filter_le (g.links.map Link.target).toFinset
    (Relation.TransGen g.Linked id)).trans (List.toFinset_card_le _)
  rwa [List.length_map] at fewer

theorem Acyclic.ranks (acyclic : g.Acyclic) : g.Ranks fun id => (g.ahead id).card := by
  intro l mem
  have link : g.Linked l.source l.target := ⟨l, mem, rfl, rfl⟩
  apply Finset.card_lt_card
  rw [Finset.ssubset_iff_of_subset]
  · exact ⟨l.target, mem_ahead.2 (.single link), fun back => acyclic _ (mem_ahead.1 back)⟩
  · intro id later
    exact mem_ahead.2 ((mem_ahead.1 later).head link)

theorem Ranks.acyclic {rank : NodeId → Nat} (ranks : g.Ranks rank) : g.Acyclic := by
  have falls {a b : NodeId} (path : Relation.TransGen g.Linked a b) : rank b < rank a := by
    induction path with
    | single link =>
      obtain ⟨l, mem, rfl, rfl⟩ := link
      exact ranks l mem
    | tail _ link ih =>
      obtain ⟨l, mem, rfl, rfl⟩ := link
      exact (ranks l mem).trans ih
  exact fun id path => Nat.lt_irrefl _ (falls path)

theorem acyclic_iff : g.Acyclic ↔ ∃ rank, g.Ranks rank :=
  ⟨fun acyclic => ⟨_, acyclic.ranks⟩, fun ⟨_, ranks⟩ => ranks.acyclic⟩

/-! ## Weights -/

def linksFrom (g : Graph) (id : NodeId) : List Link :=
  g.links.filter (·.source == id)

theorem mem_linksFrom {id : NodeId} {l : Link} :
    l ∈ g.linksFrom id ↔ l ∈ g.links ∧ l.source = id := by
  simp [linksFrom]

/-- What can be met from a node on within so many links: three for the node itself, and one for each
link beside what can be met behind it. -/
def weightWithin (g : Graph) : Nat → NodeId → Nat
  | 0, _ => 3
  | n + 1, id => 3 + ((g.linksFrom id).map fun l => g.weightWithin n l.target + 1).sum

def weight (g : Graph) (id : NodeId) : Nat :=
  g.weightWithin g.links.length id

theorem weightWithin_succ {rank : NodeId → Nat} (ranks : g.Ranks rank) {n : Nat} {id : NodeId}
    (bound : rank id ≤ n) : g.weightWithin (n + 1) id = g.weightWithin n id := by
  have falls {l : Link} (mem : l ∈ g.linksFrom id) : rank l.target < rank id := by
    obtain ⟨own, rfl⟩ := mem_linksFrom.1 mem
    exact ranks l own
  induction n generalizing id with
  | zero =>
    have last : g.linksFrom id = [] := by
      apply List.eq_nil_iff_forall_not_mem.2
      intro l mem
      have := falls mem
      omega
    show 3 + ((g.linksFrom id).map fun l => g.weightWithin 0 l.target + 1).sum = 3
    rw [last]
    rfl
  | succ n ih =>
    have same : ∀ l ∈ g.linksFrom id,
        g.weightWithin (n + 1) l.target + 1 = g.weightWithin n l.target + 1 := by
      intro l mem
      have lower := falls mem
      rw [ih (by omega)]
      intro l' mem'
      obtain ⟨mem', source⟩ := mem_linksFrom.1 mem'
      rw [← source]
      exact ranks l' mem'
    rw [weightWithin, List.map_congr_left same, weightWithin]

theorem Acyclic.weight_eq (acyclic : g.Acyclic) (id : NodeId) :
    g.weight id = 3 + ((g.linksFrom id).map fun l => g.weight l.target + 1).sum :=
  (weightWithin_succ acyclic.ranks (g.card_ahead_le id)).symm

/-! ## Prices -/

/-- What it takes to follow an outlet: a step, and what can be met behind it. -/
def price (g : Graph) (id : NodeId) (outlet : String) : Nat :=
  (g.next? id outlet).elim 0 fun target => g.weight target.id + 1

theorem price_le (g : Graph) (id : NodeId) (outlet : String) :
    g.price id outlet ≤ (g.link? id outlet).elim 0 fun l => g.weight l.target + 1 := by
  unfold price
  rw [next?_eq_link?]
  cases g.link? id outlet with
  | none => exact Nat.le_refl 0
  | some l =>
    cases found : g.node? l.target with
    | none => simp [found]
    | some target =>
      simp [found, g.node?_id found]

theorem sum_price_le_links (g : Graph) (id : NodeId) (outlets : List String) :
    (outlets.map (g.price id)).sum ≤
      ((outlets.filterMap (g.link? id)).map fun l => g.weight l.target + 1).sum := by
  induction outlets with
  | nil => exact Nat.le_refl 0
  | cons outlet outlets ih =>
    have first := g.price_le id outlet
    rw [List.map_cons, List.sum_cons]
    cases found : g.link? id outlet with
    | none =>
      rw [found, Option.elim_none] at first
      rw [List.filterMap_cons_none found]
      omega
    | some l =>
      rw [found, Option.elim_some] at first
      rw [List.filterMap_cons_some found, List.map_cons, List.sum_cons]
      omega

/-- Different outlets are followed along different links, so a node weighs more than all to which
they lead. -/
theorem Acyclic.sum_price_le (acyclic : g.Acyclic) (id : NodeId) {outlets : List String}
    (distinct : outlets.Nodup) : (outlets.map (g.price id)).sum + 3 ≤ g.weight id := by
  have apart : (outlets.filterMap (g.link? id)).Nodup := by
    refine distinct.filterMap ?_
    intro outlet outlet' l found found'
    obtain ⟨-, -, rfl⟩ := link?_eq_some_iff.1 found
    exact (link?_eq_some_iff.1 found').2.2
  have own : outlets.filterMap (g.link? id) ⊆ g.linksFrom id := by
    intro l mem
    obtain ⟨outlet, -, found⟩ := List.mem_filterMap.1 mem
    obtain ⟨mem, source, -⟩ := link?_eq_some_iff.1 found
    exact mem_linksFrom.2 ⟨mem, source⟩
  obtain ⟨links, perm, sublist⟩ := List.subperm_of_subset apart own
  have all : ((outlets.filterMap (g.link? id)).map fun l => g.weight l.target + 1).sum ≤
      ((g.linksFrom id).map fun l => g.weight l.target + 1).sum := by
    rw [← (perm.map _).sum_nat]
    exact (sublist.map _).sum_le_sum fun _ _ => Nat.zero_le _
  have followed := g.sum_price_le_links id outlets
  rw [acyclic.weight_eq]
  omega

theorem Acyclic.price_le_weight (acyclic : g.Acyclic) (id : NodeId) (outlet : String) :
    g.price id outlet + 3 ≤ g.weight id := by
  have one := acyclic.sum_price_le id (List.nodup_singleton outlet)
  simpa using one

end Graph

end Storyline
