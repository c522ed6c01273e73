import Storyline.Proofs.Graph.Walk

/-!
# Effects of visits

* `Graph.effects_heard`: the calls that a node makes are those of a visit.
* `Graph.effects_leads`: a node leads where its graph says.
-/

namespace Storyline

/-! ## Events -/

def Event.call? : Event → Option Call
  | .call c => some c
  | _ => none

def Event.sent? : Event → Option Notification
  | .sent n => some n
  | _ => none

/-- Whether an event can be seen from outside, by a subscriber or by the host. -/
def Event.isHeard : Event → Bool
  | .notice _ => false
  | _ => true

def heard (events : List Event) : List Event :=
  events.filter Event.isHeard

@[simp] theorem heard_nil : heard [] = [] := rfl

@[simp] theorem heard_append (es fs : List Event) : heard (es ++ fs) = heard es ++ heard fs :=
  List.filter_append ..

@[simp] theorem heard_notice (n : Notice) (es : List Event) : heard (.notice n :: es) = heard es :=
  rfl

@[simp] theorem heard_call (c : Call) (es : List Event) :
    heard (.call c :: es) = .call c :: heard es :=
  rfl

@[simp] theorem heard_sent (n : Notification) (es : List Event) :
    heard (.sent n :: es) = .sent n :: heard es :=
  rfl

theorem heard_notices (ns : List Notice) : heard (ns.map .notice) = [] := by
  induction ns with
  | nil => rfl
  | cons n ns ih => exact ih

theorem heard_calls (cs : List Call) : heard (cs.map .call) = cs.map .call := by
  induction cs with
  | nil => rfl
  | cons c cs ih => exact congrArg (Event.call c :: ·) ih

theorem call_calls (cs : List Call) : (cs.map Event.call).filterMap Event.call? = cs := by
  induction cs with
  | nil => rfl
  | cons c cs ih => exact congrArg (c :: ·) ih

theorem sent_heard (es : List Event) :
    (heard es).filterMap Event.sent? = es.filterMap Event.sent? := by
  induction es with
  | nil => rfl
  | cons e es ih =>
    cases e with
    | sent n => exact congrArg (n :: ·) ih
    | _ => exact ih

theorem calls_heard (es : List Event) :
    (heard es).filterMap Event.call? = es.filterMap Event.call? := by
  induction es with
  | nil => rfl
  | cons e es ih =>
    cases e with
    | call c => exact congrArg (c :: ·) ih
    | _ => exact ih

theorem Event.call?_eq_some {e : Event} {c : Call} : e.call? = some c ↔ e = .call c := by
  cases e <;> simp [call?]

theorem mem_calls {c : Call} {es : List Event} :
    c ∈ es.filterMap Event.call? ↔ .call c ∈ es := by
  simp [List.mem_filterMap, Event.call?_eq_some]

def Step.place (category : Category) : Step → Place
  | .advance next => .before category next
  | .suspend suspension => .awaiting category suspension
  | .finish => .over category

namespace Graph

/-! ## What happens -/

theorem heard_noticesOf (outcomes : List (Except Notice (Date × Continuation))) :
    heard (noticesOf outcomes) = [] := by
  induction outcomes with
  | nil => rfl
  | cons o os ih => cases o <;> exact ih

theorem heard_skipEvents (id : NodeId) (unit : Period) (amount : UInt32) (today : Date) :
    heard (skipEvents id unit amount today) = [.call (.advance (skipDays unit amount today))] := by
  unfold skipEvents
  cases unit.after? amount today <;> rfl

theorem effects_heard (g : Graph) (v : Visit) (gen : Generator) :
    heard (g.effects v.node v.category v.today gen).events = v.calls.map .call := by
  unfold effects Visit.calls
  cases v.node.kind with
  | timeSkip unit amount => exact heard_skipEvents ..
  | weightedRandom outcomes => exact heard_notices _
  | late delays => exact heard_noticesOf _
  | shop carts =>
    have calls := heard_calls (carts.map fun cart => .trade cart.action cart.item)
    rwa [List.map_map] at calls ⊢
  | _ => rfl

theorem sent_notMem_effects (g : Graph) (v : Visit) (gen : Generator) (n : Notification) :
    .sent n ∉ (g.effects v.node v.category v.today gen).events := by
  intro mem
  have mem : .sent n ∈ heard (g.effects v.node v.category v.today gen).events :=
    List.mem_filter.2 ⟨mem, rfl⟩
  simp [effects_heard] at mem

theorem effects_category (g : Graph) (v : Visit) (gen : Generator) :
    (g.effects v.node v.category v.today gen).category =
      v.node.kind.recategorize v.category := by
  unfold effects
  cases v.node.kind <;> rfl

theorem effects_scheduled {g : Graph} {v : Visit} {gen : Generator} {entry : Date × Continuation}
    (mem : entry ∈ (g.effects v.node v.category v.today gen).scheduled) :
    entry.2.graph = g ∧ entry.2.category = v.category ∧
      ∃ node, g.node? entry.2.node = some node := by
  unfold effects at mem
  cases kind : v.node.kind with
  | late ds =>
    simp only [kind, scheduledOf, delays, List.mem_filterMap, List.mem_map] at mem
    obtain ⟨_, ⟨⟨delay, i⟩, -, rfl⟩, outcome⟩ := mem
    unfold delayed at outcome
    cases linked : g.next? v.node.id (delayOutlet i) with
    | none => simp [linked] at outcome
    | some target =>
      cases due : delay.unit.after? delay.amount v.today with
      | none => simp [linked, due] at outcome
      | some date =>
        simp only [linked, due, Option.some.injEq] at outcome
        subst outcome
        exact ⟨rfl, rfl, target, node?_of_next? linked⟩
  | _ => simp [kind] at mem

/-! ## Where it leads -/

theorem pick_leads {g : Graph} {v : Visit} {n : Nat} (found : g.node? v.node.id = some v.node)
    (branch : v.node.kind.outcomes? = some n) {pick : Option Node}
    (none_of_nil : g.candidates v.node.id = [] → pick = none)
    (mem_of_ne_nil : g.candidates v.node.id ≠ [] →
      ∃ target ∈ (g.candidates v.node.id).map Prod.fst, pick = some target) :
    g.Leads (.before v.category (some v.node.id)) (.visit v)
      (.before v.category (pick.map Node.id)) := by
  by_cases empty : g.candidates v.node.id = []
  · rw [none_of_nil empty]
    exact .noOutcome found branch (candidates_eq_nil found branch empty)
  · obtain ⟨target, mem, rfl⟩ := mem_of_ne_nil empty
    obtain ⟨i, bound, linked⟩ := (mem_candidates found branch).1 mem
    exact .outcome found branch bound linked

theorem effects_leads {g : Graph} {v : Visit} (found : g.node? v.node.id = some v.node)
    (gen : Generator) :
    g.Leads (.before v.category (some v.node.id)) (.visit v)
      ((g.effects v.node v.category v.today gen).step.place
        (v.node.kind.recategorize v.category)) := by
  obtain ⟨⟨id, kind⟩, category, today⟩ := v
  cases kind with
  | start own => exact .exit found rfl
  | message image text choices speaker => exact .message found rfl
  | prompt text choices => exact .exit found rfl
  | timeSkip unit amount => exact .timeSkip found rfl
  | result edits => exact .exit found rfl
  | random outcomes =>
    exact pick_leads found rfl (fun empty => congrArg Prod.fst (pickUniform_of_nil empty gen))
      (fun nonempty => pickUniform_mem nonempty gen)
  | weightedRandom outcomes =>
    exact pick_leads found rfl (fun empty => congrArg Prod.fst (pickWeighted_of_nil empty gen))
      (fun nonempty => pickWeighted_mem nonempty gen)
  | late delays => exact .exit found rfl
  | shop carts => exact .exit found rfl
  | final => exact .final found rfl

end Graph

end Storyline
