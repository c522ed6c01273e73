import Storyline.Graph.Document
import Storyline.Graph.Fault
import Storyline.Outlet

/-!
# Graphs

A graph is a valid document: its nodes have different names, one of them is a start node, and every
link leaves an outlet that its source has, alone, and leads to a node.

* `Document.fault?_eq_none`: the first fault is `none` only for valid documents.
* `Document.build`: the graph of a document, or its first fault.
-/

namespace Storyline

namespace Document

/-- What makes a document a graph. -/
structure Valid (d : Document) : Prop where
  distinct : (d.nodes.map Node.id).Nodup
  oneStart : (d.nodes.filter (·.kind.isStart)).length = 1
  source : ∀ l ∈ d.links, ∃ n ∈ d.nodes, n.id = l.source ∧ n.kind.hasOutlet l.outlet
  target : ∀ l ∈ d.links, ∃ n ∈ d.nodes, n.id = l.target
  alone : (d.links.map fun l => (l.source, l.outlet)).Nodup

/-! ## The first fault -/

/-- The first name that has occurred before, some being seen already. -/
def firstRepeated (seen : List NodeId) : List NodeId → Option NodeId
  | [] => none
  | id :: ids => if id ∈ seen then some id else firstRepeated (id :: seen) ids

def node? (d : Document) (id : NodeId) : Option Node :=
  d.nodes.find? (·.id == id)

/-- The first fault of a link, some outlets being taken already. -/
def linkFault? (d : Document) (taken : List (NodeId × String)) : List Link → Option GraphFault
  | [] => none
  | l :: ls =>
    match d.node? l.source with
    | none => some (.unknownNode d.name l.source)
    | some n =>
      if (d.node? l.target).isNone then some (.unknownNode d.name l.target)
      else if !n.kind.hasOutlet l.outlet then some (.invalidOutlet l.source l.outlet)
      else if (l.source, l.outlet) ∈ taken then some (.outletTaken l.source l.outlet)
      else d.linkFault? ((l.source, l.outlet) :: taken) ls

/-- The first fault of a document: a repeated name, a wrong number of start nodes, or a bad link. -/
def fault? (d : Document) : Option GraphFault :=
  match firstRepeated [] (d.nodes.map Node.id) with
  | some id => some (.duplicateNode d.name id)
  | none =>
    match (d.nodes.filter (·.kind.isStart)).length with
    | 0 => some (.noStart d.name)
    | 1 => d.linkFault? [] d.links
    | count => some (.manyStarts d.name count)

theorem firstRepeated_eq_none_iff {seen ids : List NodeId} :
    firstRepeated seen ids = none ↔ ids.Nodup ∧ ∀ id ∈ ids, id ∉ seen := by
  induction ids generalizing seen with
  | nil => simp [firstRepeated]
  | cons id ids ih =>
    by_cases h : id ∈ seen
    · simp [firstRepeated, h]
    · simp only [firstRepeated, h, if_false, ih, List.nodup_cons, List.mem_cons]
      grind

theorem node?_eq_some {d : Document} {id : NodeId} {n : Node} (h : d.node? id = some n) :
    n ∈ d.nodes ∧ n.id = id :=
  ⟨List.mem_of_find?_eq_some h, by simpa using List.find?_some h⟩

theorem linkFault?_eq_none {d : Document} {taken : List (NodeId × String)} {links : List Link}
    (h : d.linkFault? taken links = none) :
    (∀ l ∈ links, ∃ n ∈ d.nodes, n.id = l.source ∧ n.kind.hasOutlet l.outlet) ∧
      (∀ l ∈ links, ∃ n ∈ d.nodes, n.id = l.target) ∧
      (links.map fun l => (l.source, l.outlet)).Nodup ∧
      ∀ l ∈ links, (l.source, l.outlet) ∉ taken := by
  induction links generalizing taken with
  | nil => simp
  | cons l ls ih =>
    unfold linkFault? at h
    split at h
    · simp at h
    · next n hn =>
      split at h
      · simp at h
      · next ht =>
        split at h
        · simp at h
        · next hp =>
          split at h
          · simp at h
          · next hf =>
            obtain ⟨h₁, h₂, h₃, h₄⟩ := ih h
            obtain ⟨m, hm⟩ := Option.ne_none_iff_exists'.1 (by simpa using ht)
            have hs := node?_eq_some hn
            have hm := node?_eq_some hm
            refine ⟨?_, ?_, ?_, ?_⟩
            · intro k hk
              rcases List.mem_cons.1 hk with rfl | hk
              · exact ⟨n, hs.1, hs.2, by simpa using hp⟩
              · exact h₁ k hk
            · intro k hk
              rcases List.mem_cons.1 hk with rfl | hk
              · exact ⟨m, hm.1, hm.2⟩
              · exact h₂ k hk
            · rw [List.map_cons, List.nodup_cons]
              refine ⟨fun hmem => ?_, h₃⟩
              obtain ⟨k, hk, he⟩ := List.mem_map.1 hmem
              exact h₄ k hk (by rw [he]; simp)
            · intro k hk
              rcases List.mem_cons.1 hk with rfl | hk
              · exact hf
              · exact fun hmem => h₄ k hk (List.mem_cons_of_mem _ hmem)

theorem fault?_eq_none {d : Document} (h : d.fault? = none) : d.Valid := by
  unfold fault? at h
  split at h
  · simp at h
  · next hr =>
    split at h
    · simp at h
    · next hs =>
      obtain ⟨h₁, h₂, h₃, -⟩ := linkFault?_eq_none h
      exact ⟨(firstRepeated_eq_none_iff.1 hr).1, hs, h₁, h₂, h₃⟩
    · simp at h

end Document

/-! ## Graphs -/

/-- A valid document. -/
structure Graph extends Document where
  valid : toDocument.Valid

namespace Graph

def start? (g : Graph) : Option Node :=
  g.nodes.find? (·.kind.isStart)

/-- The node to which an outlet of a node is linked. -/
def next? (g : Graph) (id : NodeId) (outlet : String) : Option Node :=
  (g.links.find? fun l => l.source == id && l.outlet == outlet).bind fun l => g.node? l.target

/-- The node that follows through the usual outlet. -/
def nextByOutput? (g : Graph) (id : NodeId) : Option Node :=
  g.next? id usualOutlet

end Graph

/-- The graph of a document, or the document's first fault. -/
def Document.build (d : Document) : Except GraphFault Graph :=
  match h : d.fault? with
  | some fault => .error fault
  | none => .ok { d with valid := Document.fault?_eq_none h }

/-- The graph that a text describes. -/
def Graph.read (text : String) : Except GraphFault Graph :=
  match Json.decodeText Document.decode text with
  | .ok d => d.build
  | .error fault => .error (.unreadable fault)

end Storyline
