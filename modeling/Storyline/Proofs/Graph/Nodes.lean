import Mathlib.Data.List.Nodup
import Storyline.Graph.Basic

/-!
# Nodes of a graph

* `Graph.node?_eq_some_iff`: the node of a name is the one that bears it.
* `Graph.exists_start`, `Graph.start?_eq_some`: a graph has one start node.
-/

namespace Storyline

namespace Document

variable {d : Document}

theorem node?_eq_none_iff {id : NodeId} : d.node? id = none ↔ ∀ n ∈ d.nodes, n.id ≠ id := by
  simp [node?]

theorem node?_of_distinct (distinct : (d.nodes.map Node.id).Nodup) {n : Node} {id : NodeId}
    (mem : n ∈ d.nodes) (known : n.id = id) : d.node? id = some n := by
  subst known
  cases found : d.node? n.id with
  | none => exact absurd rfl (node?_eq_none_iff.1 found n mem)
  | some other =>
    obtain ⟨other_mem, same⟩ := node?_eq_some found
    rw [List.inj_on_of_nodup_map distinct other_mem mem same]

end Document

namespace Graph

theorem node?_id {g : Graph} {id : NodeId} {node : Node} (h : g.node? id = some node) :
    node.id = id :=
  (Document.node?_eq_some h).2

theorem node?_of_mem {g : Graph} {node : Node} (mem : node ∈ g.nodes) :
    g.node? node.id = some node :=
  Document.node?_of_distinct g.valid.distinct mem rfl

theorem node?_eq_some_iff {g : Graph} {id : NodeId} {node : Node} :
    g.node? id = some node ↔ node ∈ g.nodes ∧ node.id = id := by
  constructor
  · exact Document.node?_eq_some
  · rintro ⟨mem, rfl⟩
    exact node?_of_mem mem

theorem node?_of_next? {g : Graph} {id : NodeId} {outlet : String} {target : Node}
    (h : g.next? id outlet = some target) : g.node? target.id = some target := by
  obtain ⟨l, -, found⟩ := Option.bind_eq_some_iff.1 h
  rwa [node?_id found]

/-! ## The start node -/

theorem start?_eq_head? (g : Graph) : g.start? = (g.nodes.filter (·.kind.isStart)).head? := by
  rw [List.head?_filter]
  rfl

theorem exists_start (g : Graph) :
    ∃ id category, g.start? = some ⟨id, .start category⟩ := by
  obtain ⟨⟨id, kind⟩, only⟩ := List.length_eq_one_iff.1 g.valid.oneStart
  have first : g.start? = some ⟨id, kind⟩ := by
    rw [start?_eq_head?, only]
    rfl
  have start : kind.isStart := by simpa using List.find?_some first
  cases kind with
  | start category => exact ⟨id, category, first⟩
  | _ => cases start

theorem node?_of_start? {g : Graph} {node : Node} (h : g.start? = some node) :
    g.node? node.id = some node :=
  node?_of_mem (List.mem_of_find?_eq_some h)

theorem start?_eq_some {g : Graph} {id : NodeId} {node : Node} {category : Category}
    (found : g.node? id = some node) (kind : node.kind = .start category) :
    g.start? = some node := by
  obtain ⟨first, only⟩ := List.length_eq_one_iff.1 g.valid.oneStart
  have mem : node ∈ g.nodes.filter (·.kind.isStart) :=
    List.mem_filter.2 ⟨(Document.node?_eq_some found).1, by simp [kind, Kind.isStart]⟩
  rw [start?_eq_head?, only, List.head?_cons]
  rw [only, List.mem_singleton] at mem
  rw [mem]

end Graph

end Storyline
