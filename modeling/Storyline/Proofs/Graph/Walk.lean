import Storyline.Interpreter.Effects
import Storyline.Proofs.Graph.Branch
import Storyline.Proofs.Graph.Nodes

/-!
# Walks

A scenario is a walk of its graph. The walk visits a node, then goes on through the outlet that the
kind of the node prescribes, or waits for an answer first. `Graph.Leads` says what may follow what,
without an interpreter.

* `Graph.Walk`: a list of legs that follow one another.
* `Graph.Leads.holds`: a walk never leaves its graph.
* `Graph.Walk.native`: nor the category of its graph.
-/

namespace Storyline

/-- What a walk finds and does at a node. -/
structure Visit where
  node : Node
  category : Category
  today : Date

/-- The calls to the host that belong to a visit. -/
def Visit.calls (v : Visit) : List Call :=
  match v.node.kind with
  | .message image text choices speaker => [.display ⟨v.category, image, text, choices, speaker⟩]
  | .timeSkip unit amount => [.advance (Graph.skipDays unit amount v.today)]
  | .result edits => [.edit edits]
  | .shop carts => carts.map fun cart => .trade cart.action cart.item
  | _ => []

/-- Whether a call is the effect of a node. -/
def Call.isEffect : Call → Bool
  | .display _ | .advance _ | .edit _ | .trade .. => true
  | _ => false

theorem Visit.isEffect_calls (v : Visit) : ∀ c ∈ v.calls, c.isEffect := by
  intro c mem
  unfold calls at mem
  split at mem
  · obtain rfl := List.mem_singleton.1 mem
    rfl
  · obtain rfl := List.mem_singleton.1 mem
    rfl
  · obtain rfl := List.mem_singleton.1 mem
    rfl
  · obtain ⟨cart, -, rfl⟩ := List.mem_map.1 mem
    rfl
  · contradiction

theorem Visit.timeSkip_of_advance (v : Visit) {days : Int} (mem : .advance days ∈ v.calls) :
    ∃ unit amount, v.node.kind = .timeSkip unit amount := by
  unfold calls at mem
  split at mem
  · simp at mem
  · rename_i unit amount kind
    exact ⟨unit, amount, kind⟩
  · simp at mem
  · simp at mem
  · contradiction

/-- A part of a walk: a visit, or the answer that a visit has waited for. -/
inductive Leg where
  | visit (visit : Visit)
  | answer (choice : Nat)
  | arrival

def Leg.calls : Leg → List Call
  | .visit v => v.calls
  | .answer _ => [.hide]
  | .arrival => []

def Leg.visit? : Leg → Option Visit
  | .visit v => some v
  | _ => none

/-- The effects of a walk are those of its visits, in order. -/
theorem effects_legs (legs : List Leg) :
    (legs.flatMap Leg.calls).filter Call.isEffect =
      (legs.filterMap Leg.visit?).flatMap Visit.calls := by
  induction legs with
  | nil => rfl
  | cons leg legs ih =>
    rw [List.flatMap_cons, List.filter_append, ih]
    cases leg with
    | visit v =>
      rw [Leg.calls, List.filter_eq_self.2 v.isEffect_calls]
      rfl
    | _ => rfl

/-- Where a walk stands, and the category under which it goes on. -/
inductive Place where
  /-- Before a node; without one the walk has run out. -/
  | before (category : Category) (next : Option NodeId)
  | awaiting (category : Category) (suspension : Suspension)
  /-- After an end node. -/
  | over (category : Category)

namespace Kind

/-- The outlet through which a kind goes on by itself. -/
def exit? : Kind → Option String
  | .start _ => some startOutlet
  | .prompt .. | .result _ | .late _ | .shop _ => some usualOutlet
  | _ => none

def recategorize (old : Category) : Kind → Category
  | .start own => own
  | _ => old

end Kind

namespace Place

def category : Place → Category
  | .before category _ => category
  | .awaiting category _ => category
  | .over category => category

/-- Whether nothing can follow. -/
def HasEnded : Place → Prop
  | .before _ next => next = none
  | .awaiting .. => False
  | .over _ => True

end Place

namespace Graph

/-! ## Legs -/

/-- Which leg leads from which place to which. -/
inductive Leads (g : Graph) : Place → Leg → Place → Prop where
  | exit {v : Visit} {outlet : String} (found : g.node? v.node.id = some v.node)
      (kind : v.node.kind.exit? = some outlet) :
      Leads g (.before v.category (some v.node.id)) (.visit v)
        (.before (v.node.kind.recategorize v.category) ((g.next? v.node.id outlet).map Node.id))
  | outcome {v : Visit} {n i : Nat} {target : Node} (found : g.node? v.node.id = some v.node)
      (kind : v.node.kind.outcomes? = some n) (bound : i < n)
      (linked : g.next? v.node.id (outcomeOutlet i) = some target) :
      Leads g (.before v.category (some v.node.id)) (.visit v)
        (.before v.category (some target.id))
  | noOutcome {v : Visit} {n : Nat} (found : g.node? v.node.id = some v.node)
      (kind : v.node.kind.outcomes? = some n)
      (unlinked : ∀ i, i < n → g.next? v.node.id (outcomeOutlet i) = none) :
      Leads g (.before v.category (some v.node.id)) (.visit v) (.before v.category none)
  | message {v : Visit} {image : Option String} {text : String} {choices : List String}
      {speaker : Option String} (found : g.node? v.node.id = some v.node)
      (kind : v.node.kind = .message image text choices speaker) :
      Leads g (.before v.category (some v.node.id)) (.visit v)
        (.awaiting v.category (.choice v.node.id choices.length))
  | timeSkip {v : Visit} {unit : Period} {amount : UInt32}
      (found : g.node? v.node.id = some v.node) (kind : v.node.kind = .timeSkip unit amount) :
      Leads g (.before v.category (some v.node.id)) (.visit v)
        (.awaiting v.category (.timeAdvance v.node.id))
  | final {v : Visit} (found : g.node? v.node.id = some v.node) (kind : v.node.kind = .final) :
      Leads g (.before v.category (some v.node.id)) (.visit v) (.over v.category)
  | choice {category : Category} {id : NodeId} {choices choice : Nat} (bound : choice < choices) :
      Leads g (.awaiting category (.choice id choices)) (.answer choice)
        (.before category ((g.next? id (choiceOutlet choice)).map Node.id))
  | acknowledge {category : Category} {id : NodeId} {choice : Nat} :
      Leads g (.awaiting category (.choice id 0)) (.answer choice)
        (.before category ((g.next? id usualOutlet).map Node.id))
  | arrival {category : Category} {id : NodeId} :
      Leads g (.awaiting category (.timeAdvance id)) .arrival
        (.before category ((g.next? id usualOutlet).map Node.id))

/-- A walk: legs of which each begins where the one before has led. -/
inductive Walk (g : Graph) : Place → List Leg → Place → Prop where
  | nil {p : Place} : Walk g p [] p
  | cons {p q r : Place} {leg : Leg} {legs : List Leg} (first : g.Leads p leg q)
      (rest : Walk g q legs r) : Walk g p (leg :: legs) r

theorem Leads.walk {g : Graph} {p q : Place} {leg : Leg} (h : g.Leads p leg q) :
    g.Walk p [leg] q :=
  .cons h .nil

theorem Walk.append {g : Graph} {p q r : Place} {first second : List Leg} (h₁ : g.Walk p first q)
    (h₂ : g.Walk q second r) : g.Walk p (first ++ second) r := by
  induction h₁ with
  | nil => exact h₂
  | cons leads _ ih => exact .cons leads (ih h₂)

theorem Leads.awaiting {g : Graph} {category category' : Category} {id : NodeId} {leg : Leg}
    {suspension : Suspension}
    (h : g.Leads (.before category (some id)) leg (.awaiting category' suspension)) :
    suspension.node = id := by
  cases h <;> rfl

/-! ## Places of a graph -/

/-- Whether a suspension is that of a node of the graph. -/
def Awaits (g : Graph) : Suspension → Prop
  | .choice id choices => ∃ image text options speaker,
      g.node? id = some ⟨id, .message image text options speaker⟩ ∧ options.length = choices
  | .timeAdvance id => ∃ unit amount, g.node? id = some ⟨id, .timeSkip unit amount⟩

/-- Whether a place is one of the graph. -/
def Holds (g : Graph) : Place → Prop
  | .before _ next => ∀ id, next = some id → ∃ node, g.node? id = some node
  | .awaiting _ suspension => g.Awaits suspension
  | .over _ => True

theorem holds_next (g : Graph) (category : Category) (id : NodeId) (outlet : String) :
    g.Holds (.before category ((g.next? id outlet).map Node.id)) := by
  intro id' h
  obtain ⟨target, linked, rfl⟩ := Option.map_eq_some_iff.1 h
  exact ⟨target, node?_of_next? linked⟩

theorem Leads.holds {g : Graph} {p q : Place} {leg : Leg} (h : g.Leads p leg q) : g.Holds q := by
  cases h with
  | exit => exact g.holds_next _ _ _
  | outcome found kind bound linked =>
    intro id h
    obtain rfl := Option.some.inj h
    exact ⟨_, node?_of_next? linked⟩
  | noOutcome => exact fun _ h => nomatch h
  | @message v image text choices speaker found kind =>
    exact ⟨image, text, choices, speaker, by rw [found, ← kind], rfl⟩
  | @timeSkip v unit amount found kind => exact ⟨unit, amount, by rw [found, ← kind]⟩
  | final => trivial
  | choice => exact g.holds_next _ _ _
  | acknowledge => exact g.holds_next _ _ _
  | arrival => exact g.holds_next _ _ _

/-! ## Categories -/

/-- Whether a category is that of the graph's start node. -/
def Native (g : Graph) (category : Category) : Prop :=
  ∃ id, g.start? = some ⟨id, .start category⟩

theorem Native.unique {g : Graph} {c c' : Category} (h : g.Native c) (h' : g.Native c') :
    c = c' := by
  obtain ⟨id, first⟩ := h
  obtain ⟨id', first'⟩ := h'
  rw [first] at first'
  exact Kind.start.inj (Node.mk.inj (Option.some.inj first')).2

theorem Leads.native {g : Graph} {p q : Place} {leg : Leg} (h : g.Leads p leg q)
    (native : g.Native p.category) : g.Native q.category := by
  cases h with
  | @exit v outlet found kind =>
    obtain ⟨⟨id, declared⟩, category, today⟩ := v
    cases declared with
    | start own => exact ⟨id, start?_eq_some found rfl⟩
    | _ => exact native
  | _ => exact native

/-- A walk that begins under the category of its graph stays under it. -/
theorem Walk.native {g : Graph} {p q : Place} {legs : List Leg} (h : g.Walk p legs q)
    (native : g.Native p.category) :
    g.Native q.category ∧ ∀ v, .visit v ∈ legs → g.Native v.category := by
  induction h with
  | nil => exact ⟨native, by simp⟩
  | cons leads _ ih =>
    obtain ⟨last, visits⟩ := ih (leads.native native)
    refine ⟨last, ?_⟩
    intro v mem
    rcases List.mem_cons.1 mem with rfl | mem
    · cases leads <;> exact native
    · exact visits v mem

end Graph

end Storyline
