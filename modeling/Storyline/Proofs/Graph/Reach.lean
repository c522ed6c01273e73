import Storyline.Graph.Reach
import Storyline.Proofs.Graph.Acyclic
import Storyline.Proofs.Interpreter.Plans

/-!
# Reach

A node is within reach if a path of links leads to it from the start node. The search for an end
node finds exactly the nodes within reach, whatever cycles the links form, and no walk leaves them.

* `Graph.mem_visit_iff`: the search finds the nodes that can be met along unvisited ones.
* `Graph.mem_warnings_iff`: the warning is given if no end node is within reach, and only then.
* `Graph.Walk.inReach`: a walk that begins within reach stays there.
-/

namespace Storyline

/-- The node at which a place of a walk is, or which comes next. -/
def Place.node? : Place → Option NodeId
  | .before _ next => next
  | .awaiting _ suspension => some suspension.node
  | .over _ => none

namespace Graph

variable {g : Graph}

/-- A path of links, of any outlets, leads to the node from the start node. -/
def InReach (g : Graph) (id : NodeId) : Prop :=
  ∃ first, g.start? = some first ∧ Relation.ReflTransGen g.Linked first.id id

theorem inReach_start {first : Node} (h : g.start? = some first) : g.InReach first.id :=
  ⟨first, h, .refl⟩

theorem InReach.linked {id id' : NodeId} (h : g.InReach id) (link : g.Linked id id') :
    g.InReach id' := by
  obtain ⟨first, start, path⟩ := h
  exact ⟨first, start, path.tail link⟩

/-- Names that no link leaves hold everything within reach, if the start node is among them. -/
theorem InReach.mem_of_closed {id : NodeId} (h : g.InReach id) {ids : List NodeId}
    (begins : ∀ first, g.start? = some first → first.id ∈ ids)
    (closed : ∀ l ∈ g.links, l.source ∈ ids → l.target ∈ ids) : id ∈ ids := by
  obtain ⟨first, start, path⟩ := h
  induction path with
  | refl => exact begins first start
  | tail _ link ih =>
    obtain ⟨l, mem, rfl, rfl⟩ := link
    exact closed l mem ih

theorem linked_of_next? {id : NodeId} {outlet : String} {target : Node}
    (h : g.next? id outlet = some target) : g.Linked id target.id := by
  obtain ⟨l, leaves, found⟩ := Option.bind_eq_some_iff.1 h
  have source : l.source = id ∧ l.outlet = outlet := by simpa using List.find?_some leaves
  exact ⟨l, List.mem_of_find?_eq_some leaves, source.1, (g.node?_id found).symm⟩

theorem mem_successors {id id' : NodeId} : id' ∈ g.successors id ↔ g.Linked id id' := by
  simp [successors, Linked, and_assoc]

/-! ## The search -/

/-- What can be met from the nodes in a queue, along unvisited nodes only. -/
inductive Meets (g : Graph) (unvisited : List Node) (queue : List NodeId) : Node → Prop where
  | queued {n : Node} (mem : n ∈ unvisited) (among : n.id ∈ queue) : Meets g unvisited queue n
  | linked {m n : Node} (met : Meets g unvisited queue m) (mem : n ∈ unvisited)
      (link : g.Linked m.id n.id) : Meets g unvisited queue n

theorem meets_nil {unvisited : List Node} {n : Node} : ¬ g.Meets unvisited [] n := by
  intro met
  induction met with
  | queued mem among => exact absurd among List.not_mem_nil
  | linked met mem link ih => exact ih

/-- A name that no unvisited node bears can be dropped from the queue. -/
theorem meets_cons_of_visited {unvisited : List Node} {id : NodeId} {queue : List NodeId}
    (visited : ∀ n ∈ unvisited, n.id ≠ id) {n : Node} :
    g.Meets unvisited (id :: queue) n ↔ g.Meets unvisited queue n := by
  constructor
  · intro met
    induction met with
    | queued mem among => exact .queued mem (List.mem_of_ne_of_mem (visited _ mem) among)
    | linked met mem link ih => exact .linked ih mem link
  · intro met
    induction met with
    | queued mem among => exact .queued mem (List.mem_cons_of_mem _ among)
    | linked met mem link ih => exact .linked ih mem link

/-- Visiting a node turns it into what it is linked to. -/
theorem meets_cons_of_unvisited {unvisited : List Node} {id : NodeId} {queue : List NodeId}
    {node : Node} (distinct : (unvisited.map Node.id).Nodup) (own : node ∈ unvisited)
    (named : node.id = id) {n : Node} :
    g.Meets unvisited (id :: queue) n ↔
      n = node ∨ g.Meets (unvisited.erase node) (queue ++ g.successors id) n := by
  subst named
  have unique {m : Node} (mem : m ∈ unvisited) (named : m.id = node.id) : m = node :=
    List.inj_on_of_nodup_map distinct mem own named
  constructor
  · intro met
    induction met with
    | @queued n mem among =>
      by_cases same : n = node
      · exact .inl same
      · have later := List.mem_of_ne_of_mem (fun named => same (unique mem named)) among
        exact .inr (.queued ((List.mem_erase_of_ne same).2 mem) (List.mem_append_left _ later))
    | @linked m n met mem link ih =>
      by_cases same : n = node
      · exact .inl same
      · have kept := (List.mem_erase_of_ne same).2 mem
        rcases ih with rfl | met
        · exact .inr (.queued kept (List.mem_append_right _ (mem_successors.2 link)))
        · exact .inr (.linked met kept link)
  · have first : g.Meets unvisited (node.id :: queue) node := .queued own List.mem_cons_self
    rintro (rfl | met)
    · exact first
    · induction met with
      | queued mem among =>
        have mem := List.mem_of_mem_erase mem
        rcases List.mem_append.1 among with among | among
        · exact .queued mem (List.mem_cons_of_mem _ among)
        · exact .linked first mem (mem_successors.1 among)
      | linked met mem link ih => exact .linked ih (List.mem_of_mem_erase mem) link

/-- The search finds what can be met, and nothing else. -/
theorem mem_visit_iff {unvisited : List Node} {queue : List NodeId}
    (distinct : (unvisited.map Node.id).Nodup) {n : Node} :
    n ∈ g.visit unvisited queue ↔ g.Meets unvisited queue n := by
  fun_induction visit g unvisited queue with
  | case1 unvisited => simp [meets_nil]
  | case2 unvisited id queue missing ih =>
    have visited : ∀ n ∈ unvisited, n.id ≠ id := by simpa using missing
    rw [ih distinct, meets_cons_of_visited visited]
  | case3 unvisited id queue node found shorter ih =>
    have own := List.mem_of_find?_eq_some found
    have named : node.id = id := by simpa using List.find?_some found
    have rest : ((unvisited.erase node).map Node.id).Nodup :=
      distinct.sublist (List.erase_sublist.map _)
    rw [List.mem_cons, ih rest, meets_cons_of_unvisited distinct own named]

/-! ## Ends within reach -/

theorem Linked.node {id id' : NodeId} (h : g.Linked id id') : ∃ n ∈ g.nodes, n.id = id := by
  obtain ⟨l, mem, rfl, rfl⟩ := h
  obtain ⟨n, own, named, -⟩ := g.valid.source l mem
  exact ⟨n, own, named⟩

theorem meets_nodes_iff {first n : Node} :
    g.Meets g.nodes [first.id] n ↔
      n ∈ g.nodes ∧ Relation.ReflTransGen g.Linked first.id n.id := by
  constructor
  · intro met
    induction met with
    | queued mem among =>
      rw [List.mem_singleton.1 among]
      exact ⟨mem, .refl⟩
    | linked met mem link ih => exact ⟨mem, ih.2.tail link⟩
  · rintro ⟨own, path⟩
    generalize named : n.id = id at path
    induction path generalizing n with
    | refl => exact .queued own (List.mem_singleton.2 named)
    | @tail middle id path link ih =>
      obtain ⟨m, between, called⟩ := link.node
      refine .linked (ih between called) own ?_
      rwa [called, named]

theorem reachesFinal_iff :
    g.reachesFinal = true ↔ ∃ n ∈ g.nodes, n.kind = .final ∧ g.InReach n.id := by
  have final {kind : Kind} : kind.isFinal = true ↔ kind = .final := by
    cases kind <;> simp [Kind.isFinal]
  obtain ⟨id, category, first⟩ := g.exists_start
  rw [reachesFinal, first, List.any_eq_true]
  constructor
  · rintro ⟨n, visited, isFinal⟩
    obtain ⟨own, path⟩ := meets_nodes_iff.1 ((mem_visit_iff g.valid.distinct).1 visited)
    exact ⟨n, own, final.1 isFinal, _, first, path⟩
  · rintro ⟨n, own, isFinal, first', start, path⟩
    obtain rfl := Option.some.inj (first.symm.trans start)
    exact ⟨n, (mem_visit_iff g.valid.distinct).2 (meets_nodes_iff.2 ⟨own, path⟩), final.2 isFinal⟩

/-- The warning is given for the graphs in which no end node is within reach. -/
theorem mem_warnings_iff :
    .endUnreachable g.name ∈ g.warnings ↔ ∀ n ∈ g.nodes, n.kind = .final → ¬ g.InReach n.id := by
  have reaches := @reachesFinal_iff g
  unfold warnings
  by_cases h : g.reachesFinal = true
  · obtain ⟨n, own, final, reached⟩ := reaches.1 h
    simp only [if_pos h, List.not_mem_nil, false_iff]
    exact fun none => none n own final reached
  · simp only [if_neg h, List.mem_singleton, true_iff]
    intro n own final reached
    exact h (reaches.2 ⟨n, own, final, reached⟩)

/-! ## Walks -/

/-- Whether a place is within reach. -/
def Near (g : Graph) (p : Place) : Prop :=
  ∀ id, p.node? = some id → g.InReach id

theorem near_before {id : NodeId} (h : g.InReach id) (category : Category) :
    g.Near (.before category (some id)) := by
  intro id' same
  obtain rfl := Option.some.inj same
  exact h

theorem near_next {id : NodeId} (h : g.InReach id) (category : Category) (outlet : String) :
    g.Near (.before category ((g.next? id outlet).map Node.id)) := by
  intro id' next
  obtain ⟨target, linked, rfl⟩ := Option.map_eq_some_iff.1 next
  exact h.linked (linked_of_next? linked)

theorem Leads.near {p q : Place} {leg : Leg} (h : g.Leads p leg q) (near : g.Near p) :
    g.Near q := by
  cases h with
  | exit => exact near_next (near _ rfl) _ _
  | outcome found kind bound linked =>
    intro id same
    obtain rfl := Option.some.inj same
    exact (near _ rfl).linked (linked_of_next? linked)
  | noOutcome => exact fun _ none => nomatch none
  | message => exact near
  | timeSkip => exact near
  | final => exact fun _ none => nomatch none
  | choice => exact near_next (near _ rfl) _ _
  | acknowledge => exact near_next (near _ rfl) _ _
  | arrival => exact near_next (near _ rfl) _ _

theorem Leads.visited {p q : Place} {v : Visit} (h : g.Leads p (.visit v) q) :
    p.node? = some v.node.id ∧ v.node ∈ g.nodes := by
  cases h <;> exact ⟨rfl, List.mem_of_find?_eq_some ‹_›⟩

/-- A walk that begins within reach stays there. -/
theorem Walk.inReach {p q : Place} {legs : List Leg} (h : g.Walk p legs q) (near : g.Near p) :
    g.Near q ∧ ∀ v, .visit v ∈ legs → v.node ∈ g.nodes ∧ g.InReach v.node.id := by
  induction h with
  | nil => exact ⟨near, by simp⟩
  | cons leads _ ih =>
    obtain ⟨last, visits⟩ := ih (leads.near near)
    refine ⟨last, ?_⟩
    intro v mem
    rcases List.mem_cons.1 mem with rfl | mem
    · exact ⟨leads.visited.2, near _ leads.visited.1⟩
    · exact visits v mem

/-! ## Late nodes -/

/-- Late nodes plan for nodes to which they are linked. -/
theorem linked_of_mem_planned {v : Visit} {due : Date} {c : Continuation}
    (mem : (due, c) ∈ g.planned v) : g.Linked v.node.id c.node := by
  obtain ⟨ds, delay, i, target, -, -, linked, -, rfl⟩ := exists_delay mem
  exact linked_of_next? linked

end Graph

end Storyline
