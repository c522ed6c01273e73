import Storyline.Proofs.Graph.Nodes

/-!
# Building graphs

A document is a graph exactly if it is valid, and otherwise it is refused for its first fault: a
repeated name, then a wrong number of start nodes, then the first link that does not fit.

* `Document.FirstFault`: what the first fault of a document is, said of its lists alone.
* `Document.fault?_eq_some_iff`: this is the fault that is found.
* `Graph.next?_eq_some_iff`: a walk goes on exactly along the links of the document.
* `Document.build_exact`: which documents are built, into what, and why the others are not.
-/

namespace Storyline

namespace Document

variable {d : Document}

/-! ## Links -/

/-- A link that can be added where some outlets are taken. -/
structure Fits (d : Document) (taken : List (NodeId × String)) (l : Link) : Prop where
  source : ∃ n ∈ d.nodes, n.id = l.source ∧ n.kind.hasOutlet l.outlet
  target : ∃ n ∈ d.nodes, n.id = l.target
  free : (l.source, l.outlet) ∉ taken

/-- Links that can be added one after the other. -/
structure LinksFit (d : Document) (taken : List (NodeId × String)) (links : List Link) : Prop where
  source : ∀ l ∈ links, ∃ n ∈ d.nodes, n.id = l.source ∧ n.kind.hasOutlet l.outlet
  target : ∀ l ∈ links, ∃ n ∈ d.nodes, n.id = l.target
  alone : (links.map fun l => (l.source, l.outlet)).Nodup
  free : ∀ l ∈ links, (l.source, l.outlet) ∉ taken

/-- The fault of a link where some outlets are taken: of its source, its target and its outlet, the
first that is wrong. -/
inductive LinkFault (d : Document) (taken : List (NodeId × String)) (l : Link) : GraphFault → Prop
  | source (unknown : ∀ n ∈ d.nodes, n.id ≠ l.source) :
      LinkFault d taken l (.unknownNode d.name l.source)
  | target {n : Node} (mem : n ∈ d.nodes) (known : n.id = l.source)
      (unknown : ∀ n ∈ d.nodes, n.id ≠ l.target) :
      LinkFault d taken l (.unknownNode d.name l.target)
  | outlet {n m : Node} (mem : n ∈ d.nodes) (known : n.id = l.source) (mem' : m ∈ d.nodes)
      (known' : m.id = l.target) (undeclared : n.kind.hasOutlet l.outlet = false) :
      LinkFault d taken l (.invalidOutlet l.source l.outlet)
  | taken {n m : Node} (mem : n ∈ d.nodes) (known : n.id = l.source) (mem' : m ∈ d.nodes)
      (known' : m.id = l.target) (declared : n.kind.hasOutlet l.outlet)
      (again : (l.source, l.outlet) ∈ taken) :
      LinkFault d taken l (.outletTaken l.source l.outlet)

theorem linksFit_cons {taken : List (NodeId × String)} {l : Link} {ls : List Link} :
    d.LinksFit taken (l :: ls) ↔
      d.Fits taken l ∧ d.LinksFit ((l.source, l.outlet) :: taken) ls := by
  constructor
  · rintro ⟨source, target, alone, free⟩
    rw [List.map_cons, List.nodup_cons] at alone
    rw [List.forall_mem_cons] at source target free
    refine ⟨⟨source.1, target.1, free.1⟩, source.2, target.2, alone.2, fun k mem => ?_⟩
    rw [List.mem_cons, not_or]
    exact ⟨fun same => alone.1 (List.mem_map.2 ⟨k, mem, same⟩), free.2 k mem⟩
  · rintro ⟨first, source, target, alone, free⟩
    have others : ∀ k ∈ ls, (k.source, k.outlet) ≠ (l.source, l.outlet) ∧
        (k.source, k.outlet) ∉ taken := fun k mem => by simpa using free k mem
    refine ⟨List.forall_mem_cons.2 ⟨first.source, source⟩,
      List.forall_mem_cons.2 ⟨first.target, target⟩, ?_,
      List.forall_mem_cons.2 ⟨first.free, fun k mem => (others k mem).2⟩⟩
    rw [List.map_cons, List.nodup_cons]
    refine ⟨fun mem => ?_, alone⟩
    obtain ⟨k, mem, same⟩ := List.mem_map.1 mem
    exact (others k mem).1 same

theorem fits_or_linkFault (d : Document) (taken : List (NodeId × String)) (l : Link) :
    d.Fits taken l ∨ ∃ fault, d.LinkFault taken l fault := by
  cases source : d.node? l.source with
  | none => exact .inr ⟨_, .source (node?_eq_none_iff.1 source)⟩
  | some n =>
    obtain ⟨mem, known⟩ := node?_eq_some source
    cases target : d.node? l.target with
    | none => exact .inr ⟨_, .target mem known (node?_eq_none_iff.1 target)⟩
    | some m =>
      obtain ⟨mem', known'⟩ := node?_eq_some target
      cases declared : n.kind.hasOutlet l.outlet with
      | false => exact .inr ⟨_, .outlet mem known mem' known' declared⟩
      | true =>
        by_cases free : (l.source, l.outlet) ∈ taken
        · exact .inr ⟨_, .taken mem known mem' known' declared free⟩
        · exact .inl ⟨⟨n, mem, known, declared⟩, ⟨m, mem', known'⟩, free⟩

theorem linkFault?_of_fits (distinct : (d.nodes.map Node.id).Nodup)
    {taken : List (NodeId × String)} {l : Link} (fits : d.Fits taken l) (ls : List Link) :
    d.linkFault? taken (l :: ls) = d.linkFault? ((l.source, l.outlet) :: taken) ls := by
  obtain ⟨⟨n, mem, known, declared⟩, ⟨m, mem', known'⟩, free⟩ := fits
  have source := node?_of_distinct distinct mem known
  have target := node?_of_distinct distinct mem' known'
  simp [linkFault?, source, target, declared, free]

theorem linkFault?_of_linkFault (distinct : (d.nodes.map Node.id).Nodup)
    {taken : List (NodeId × String)} {l : Link} {fault : GraphFault}
    (wrong : d.LinkFault taken l fault) (ls : List Link) :
    d.linkFault? taken (l :: ls) = some fault := by
  cases wrong with
  | source unknown => simp [linkFault?, node?_eq_none_iff.2 unknown]
  | target mem known unknown =>
    have source := node?_of_distinct distinct mem known
    simp [linkFault?, source, node?_eq_none_iff.2 unknown]
  | outlet mem known mem' known' undeclared =>
    have source := node?_of_distinct distinct mem known
    have target := node?_of_distinct distinct mem' known'
    simp [linkFault?, source, target, undeclared]
  | taken mem known mem' known' declared again =>
    have source := node?_of_distinct distinct mem known
    have target := node?_of_distinct distinct mem' known'
    simp [linkFault?, source, target, declared, again]

theorem linkFault?_of_linksFit (distinct : (d.nodes.map Node.id).Nodup)
    {taken : List (NodeId × String)} {links : List Link} (fit : d.LinksFit taken links) :
    d.linkFault? taken links = none := by
  induction links generalizing taken with
  | nil => rfl
  | cons l ls ih =>
    obtain ⟨first, rest⟩ := linksFit_cons.1 fit
    rw [linkFault?_of_fits distinct first, ih rest]

theorem linkFault?_eq_some_iff (distinct : (d.nodes.map Node.id).Nodup)
    {taken : List (NodeId × String)} {links : List Link} {fault : GraphFault} :
    d.linkFault? taken links = some fault ↔
      ∃ before l after, links = before ++ l :: after ∧ d.LinksFit taken before ∧
        d.LinkFault ((before.map fun k => (k.source, k.outlet)).reverse ++ taken) l fault := by
  constructor
  · intro found
    induction links generalizing taken with
    | nil => contradiction
    | cons l ls ih =>
      rcases fits_or_linkFault d taken l with fits | ⟨fault', wrong⟩
      · rw [linkFault?_of_fits distinct fits] at found
        obtain ⟨before, k, after, rfl, fit, wrong⟩ := ih found
        exact ⟨l :: before, k, after, rfl, linksFit_cons.2 ⟨fits, fit⟩, by simpa using wrong⟩
      · rw [linkFault?_of_linkFault distinct wrong] at found
        obtain rfl := Option.some.inj found
        exact ⟨[], l, ls, rfl, ⟨by simp, by simp, .nil, by simp⟩, wrong⟩
  · rintro ⟨before, l, after, rfl, fit, wrong⟩
    induction before generalizing taken with
    | nil => exact linkFault?_of_linkFault distinct wrong after
    | cons k before ih =>
      obtain ⟨first, rest⟩ := linksFit_cons.1 fit
      rw [List.cons_append, linkFault?_of_fits distinct first]
      exact ih rest (by simpa using wrong)

/-! ## Documents -/

theorem firstRepeated_eq_some_iff {seen ids : List NodeId} {id : NodeId} :
    firstRepeated seen ids = some id ↔
      ∃ before after, ids = before ++ id :: after ∧ before.Nodup ∧
        (∀ other ∈ before, other ∉ seen) ∧ (id ∈ seen ∨ id ∈ before) := by
  constructor
  · intro found
    induction ids generalizing seen with
    | nil => contradiction
    | cons other ids ih =>
      by_cases again : other ∈ seen
      · rw [firstRepeated, if_pos again] at found
        obtain rfl := Option.some.inj found
        exact ⟨[], ids, rfl, .nil, by simp, .inl again⟩
      · rw [firstRepeated, if_neg again] at found
        obtain ⟨before, after, rfl, distinct, new, mem⟩ := ih found
        refine ⟨other :: before, after, rfl, ?_, ?_, ?_⟩
        · exact List.nodup_cons.2 ⟨fun mem => new other mem List.mem_cons_self, distinct⟩
        · exact List.forall_mem_cons.2
            ⟨again, fun k mem seen => new k mem (List.mem_cons_of_mem _ seen)⟩
        · rw [List.mem_cons] at mem ⊢
          tauto
  · rintro ⟨before, after, rfl, distinct, new, mem⟩
    induction before generalizing seen with
    | nil =>
      rw [List.nil_append, firstRepeated, if_pos (by simpa using mem)]
    | cons other before ih =>
      obtain ⟨first, distinct⟩ := List.nodup_cons.1 distinct
      obtain ⟨again, new⟩ := List.forall_mem_cons.1 new
      rw [List.cons_append, firstRepeated, if_neg again]
      refine ih distinct (fun k mem => ?_) ?_
      · rw [List.mem_cons, not_or]
        exact ⟨fun same => first (same ▸ mem), new k mem⟩
      · rw [List.mem_cons] at mem ⊢
        tauto

/-- The first fault of a document: the first name that occurs again, a wrong number of start nodes,
or the fault of the first link that does not fit behind those before it. -/
inductive FirstFault (d : Document) : GraphFault → Prop
  | duplicate {before after : List NodeId} {id : NodeId}
      (split : d.nodes.map Node.id = before ++ id :: after) (distinct : before.Nodup)
      (again : id ∈ before) : FirstFault d (.duplicateNode d.name id)
  | noStart (distinct : (d.nodes.map Node.id).Nodup) (none : ∀ n ∈ d.nodes, ¬ n.kind.isStart) :
      FirstFault d (.noStart d.name)
  | manyStarts (distinct : (d.nodes.map Node.id).Nodup)
      (many : 1 < (d.nodes.filter (·.kind.isStart)).length) :
      FirstFault d (.manyStarts d.name (d.nodes.filter (·.kind.isStart)).length)
  | link {before after : List Link} {l : Link} {fault : GraphFault}
      (split : d.links = before ++ l :: after) (valid : ({ d with links := before }).Valid)
      (wrong : d.LinkFault (before.map fun k => (k.source, k.outlet)) l fault) :
      FirstFault d fault

theorem valid_iff_linksFit (links : List Link) :
    ({ d with links := links }).Valid ↔
      (d.nodes.map Node.id).Nodup ∧ (d.nodes.filter (·.kind.isStart)).length = 1 ∧
        d.LinksFit [] links := by
  constructor
  · rintro ⟨distinct, oneStart, source, target, alone⟩
    exact ⟨distinct, oneStart, source, target, alone, by simp⟩
  · rintro ⟨distinct, oneStart, source, target, alone, -⟩
    exact ⟨distinct, oneStart, source, target, alone⟩

theorem linkFault_congr {taken taken' : List (NodeId × String)} {l : Link} {fault : GraphFault}
    (same : ∀ outlet, outlet ∈ taken ↔ outlet ∈ taken') (h : d.LinkFault taken l fault) :
    d.LinkFault taken' l fault := by
  cases h with
  | source unknown => exact .source unknown
  | target mem known unknown => exact .target mem known unknown
  | outlet mem known mem' known' undeclared => exact .outlet mem known mem' known' undeclared
  | taken mem known mem' known' declared again =>
    exact .taken mem known mem' known' declared ((same _).1 again)

theorem fault?_of_distinct (distinct : (d.nodes.map Node.id).Nodup) :
    d.fault? =
      match (d.nodes.filter (·.kind.isStart)).length with
      | 0 => some (.noStart d.name)
      | 1 => d.linkFault? [] d.links
      | count => some (.manyStarts d.name count) := by
  have unrepeated := firstRepeated_eq_none_iff.2 ⟨distinct, fun _ _ => List.not_mem_nil⟩
  unfold fault?
  split
  · rename_i repeated
    rw [unrepeated] at repeated
    contradiction
  · rfl

theorem fault?_of_oneStart (distinct : (d.nodes.map Node.id).Nodup)
    (oneStart : (d.nodes.filter (·.kind.isStart)).length = 1) :
    d.fault? = d.linkFault? [] d.links := by
  rw [fault?_of_distinct distinct, oneStart]
  rfl

theorem fault?_eq_none_iff : d.fault? = none ↔ d.Valid := by
  refine ⟨fault?_eq_none, fun valid => ?_⟩
  obtain ⟨distinct, oneStart, fit⟩ := (valid_iff_linksFit d.links).1 valid
  rw [fault?_of_oneStart distinct oneStart, linkFault?_of_linksFit distinct fit]

theorem FirstFault.found {fault : GraphFault} (h : d.FirstFault fault) : d.fault? = some fault := by
  cases h with
  | duplicate split distinct again =>
    rw [fault?, firstRepeated_eq_some_iff.2 ⟨_, _, split, distinct, by simp, .inr again⟩]
  | noStart distinct none =>
    rw [fault?_of_distinct distinct, List.filter_eq_nil_iff.2 none]
    rfl
  | manyStarts distinct many =>
    rw [fault?_of_distinct distinct]
    split
    · omega
    · omega
    · rfl
  | link split valid wrong =>
    obtain ⟨distinct, oneStart, fit⟩ := (valid_iff_linksFit _).1 valid
    rw [fault?_of_oneStart distinct oneStart]
    refine (linkFault?_eq_some_iff distinct).2 ⟨_, _, _, split, fit, ?_⟩
    exact linkFault_congr (by simp) wrong

theorem fault?_eq_some_iff {fault : GraphFault} : d.fault? = some fault ↔ d.FirstFault fault := by
  refine ⟨fun found => ?_, FirstFault.found⟩
  cases repeated : firstRepeated [] (d.nodes.map Node.id) with
  | some id =>
    obtain ⟨before, after, split, distinct, -, again⟩ := firstRepeated_eq_some_iff.1 repeated
    rw [fault?, repeated] at found
    obtain rfl := Option.some.inj found
    exact .duplicate split distinct (by simpa using again)
  | none =>
    obtain ⟨distinct, -⟩ := firstRepeated_eq_none_iff.1 repeated
    rw [fault?_of_distinct distinct] at found
    split at found
    · rename_i none
      obtain rfl := Option.some.inj found
      exact .noStart distinct (List.filter_eq_nil_iff.1 (List.length_eq_zero_iff.1 none))
    · rename_i oneStart
      obtain ⟨before, l, after, split, fit, wrong⟩ := (linkFault?_eq_some_iff distinct).1 found
      refine .link split ((valid_iff_linksFit before).2 ⟨distinct, oneStart, fit⟩) ?_
      exact linkFault_congr (by simp) wrong
    · rename_i notZero notOne
      obtain rfl := Option.some.inj found
      exact .manyStarts distinct (Nat.one_lt_iff_ne_zero_and_ne_one.2 ⟨notZero, notOne⟩)

end Document

/-! ## Graphs -/

namespace Graph

variable {g : Graph}

/-- The link that leaves an outlet of a node. -/
def link? (g : Graph) (id : NodeId) (outlet : String) : Option Link :=
  g.links.find? fun l => l.source == id && l.outlet == outlet

theorem next?_eq_link? (g : Graph) (id : NodeId) (outlet : String) :
    g.next? id outlet = (g.link? id outlet).bind fun l => g.node? l.target := rfl

theorem link?_eq_some_iff {id : NodeId} {outlet : String} {l : Link} :
    g.link? id outlet = some l ↔ l ∈ g.links ∧ l.source = id ∧ l.outlet = outlet := by
  constructor
  · intro found
    exact ⟨List.mem_of_find?_eq_some found, by simpa using List.find?_some found⟩
  · rintro ⟨mem, rfl, rfl⟩
    cases found : g.link? l.source l.outlet with
    | none =>
      have := List.find?_eq_none.1 found l mem
      simp at this
    | some k =>
      have same : k.source = l.source ∧ k.outlet = l.outlet := by
        simpa using List.find?_some found
      have alone := List.inj_on_of_nodup_map g.valid.alone (List.mem_of_find?_eq_some found) mem
      rw [alone (by rw [same.1, same.2])]

theorem next?_eq_some_iff {id : NodeId} {outlet : String} {node : Node} :
    g.next? id outlet = some node ↔
      ∃ l ∈ g.links, l.source = id ∧ l.outlet = outlet ∧ node ∈ g.nodes ∧ node.id = l.target := by
  simp only [next?_eq_link?, Option.bind_eq_some_iff, link?_eq_some_iff, node?_eq_some_iff,
    and_assoc]

theorem start?_unique (g : Graph) :
    ∃ node, g.start? = some node ∧ node ∈ g.nodes ∧ node.kind.isStart ∧
      ∀ other ∈ g.nodes, other.kind.isStart → other = node := by
  obtain ⟨node, only⟩ := List.length_eq_one_iff.1 g.valid.oneStart
  have member (other : Node) : other ∈ g.nodes.filter (·.kind.isStart) ↔ other = node := by
    rw [only, List.mem_singleton]
  obtain ⟨mem, start⟩ := List.mem_filter.1 ((member node).2 rfl)
  have first : g.start? = some node := by
    rw [start?_eq_head?, only]
    rfl
  refine ⟨node, first, mem, start, fun other mem start => ?_⟩
  exact (member other).1 (List.mem_filter.2 ⟨mem, start⟩)

end Graph

namespace Document

theorem build_eq_error_iff {d : Document} {fault : GraphFault} :
    d.build = .error fault ↔ d.fault? = some fault := by
  unfold build
  split <;> simp_all

theorem build_eq_ok_iff {d : Document} {g : Graph} : d.build = .ok g ↔ g.toDocument = d := by
  obtain ⟨document, valid⟩ := g
  unfold build
  split
  · rename_i fault found
    refine iff_of_false nofun ?_
    rintro rfl
    rw [fault?_eq_none_iff.2 valid] at found
    contradiction
  · rw [Except.ok.injEq, Graph.mk.injEq]
    exact eq_comm

/-- Exactly the valid documents are built, each into the graph in which its own nodes and links are
found; any other is refused for its first fault. -/
theorem build_exact (d : Document) :
    ((∃ g, d.build = .ok g) ↔ d.Valid) ∧
      (∀ fault, d.build = .error fault ↔ d.FirstFault fault) ∧
        ∀ g, d.build = .ok g →
          g.toDocument = d ∧
            (∀ id node, g.node? id = some node ↔ node ∈ d.nodes ∧ node.id = id) ∧
            (∃ node, g.start? = some node ∧ node ∈ d.nodes ∧ node.kind.isStart ∧
              ∀ other ∈ d.nodes, other.kind.isStart → other = node) ∧
            ∀ id outlet node, g.next? id outlet = some node ↔
              ∃ l ∈ d.links, l.source = id ∧ l.outlet = outlet ∧ node ∈ d.nodes ∧
                node.id = l.target := by
  refine ⟨⟨?_, fun valid => ⟨⟨d, valid⟩, build_eq_ok_iff.2 rfl⟩⟩, fun fault => ?_, ?_⟩
  · rintro ⟨g, built⟩
    rw [← build_eq_ok_iff.1 built]
    exact g.valid
  · rw [build_eq_error_iff, fault?_eq_some_iff]
  · intro g built
    obtain rfl := build_eq_ok_iff.1 built
    exact ⟨rfl, fun _ _ => Graph.node?_eq_some_iff, g.start?_unique,
      fun _ _ _ => Graph.next?_eq_some_iff⟩

end Document

end Storyline
