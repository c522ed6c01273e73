import Storyline.Proofs.Interpreter.Request

/-!
# Time skips and their ends

A session that makes a time skip waits for its end and does nothing else meanwhile. So a request
that is not itself such an end makes just the time skips for whose end the session then waits, and
makes none while one is waited for.

* `Graph.Walk.balance`: the time skips along a walk.
* `Stage.serve_balance`: the time skips of a request.
-/

namespace Storyline

def Call.isAdvance : Call → Bool
  | .advance _ => true
  | _ => false

/-- How many time skips are made. -/
def advances (events : List Event) : Nat :=
  (events.filterMap Event.call?).countP Call.isAdvance

@[simp] theorem advances_nil : advances [] = 0 := rfl

@[simp] theorem advances_append (es fs : List Event) :
    advances (es ++ fs) = advances es + advances fs := by
  simp [advances]

theorem advances_heard (es : List Event) : advances (heard es) = advances es := by
  rw [advances, advances, calls_heard]

theorem advances_calls (cs : List Call) : advances (cs.map .call) = cs.countP Call.isAdvance := by
  rw [advances, call_calls]

/-- How many ends of time skips are waited for. -/
def Suspension.awaited : Suspension → Nat
  | .timeAdvance _ => 1
  | .choice .. => 0

def Phase.awaited : Phase → Nat
  | .paused suspension => suspension.awaited
  | _ => 0

def Place.awaited : Place → Nat
  | .awaiting _ suspension => suspension.awaited
  | _ => 0

theorem Phase.awaited_le (phase : Phase) : phase.awaited ≤ 1 := by
  rcases phase with _ | _ | _ | _ <;> simp [awaited, Suspension.awaited]

theorem Phase.awaited_eq_one {phase : Phase} :
    phase.awaited = 1 ↔ ∃ id, phase = .paused (.timeAdvance id) := by
  rcases phase with _ | _ | _ | _ <;> simp [awaited, Suspension.awaited]

theorem Place.HasEnded.awaited {p : Place} (h : p.HasEnded) : p.awaited = 0 := by
  cases p with
  | awaiting => exact h.elim
  | _ => rfl

namespace Interpreter

theorem Idle.awaited {i : Interpreter} (h : i.Idle) : i.phase.awaited = 0 := by
  rw [h.1]
  rfl

theorem Plays.awaited {i : Interpreter} {g : Graph} {p : Place} (h : i.Plays g p) :
    i.phase.awaited = p.awaited := by
  cases h with
  | running phase =>
    rw [phase]
    rfl
  | paused phase =>
    rw [phase]
    rfl

end Interpreter

/-! ## Walks -/

theorem Visit.countP_isAdvance {v : Visit}
    (other : ∀ unit amount, v.node.kind ≠ .timeSkip unit amount) :
    v.calls.countP Call.isAdvance = 0 := by
  apply List.countP_eq_zero.2
  intro c mem
  cases c with
  | advance days =>
    obtain ⟨unit, amount, kind⟩ := v.timeSkip_of_advance mem
    exact absurd kind (other unit amount)
  | _ => simp [Call.isAdvance]

namespace Graph

variable {g : Graph} {p q : Place}

theorem Leads.balance {leg : Leg} (h : g.Leads p leg q) (early : leg ≠ .arrival) :
    q.awaited = p.awaited + leg.calls.countP Call.isAdvance := by
  cases h with
  | exit found kind =>
    rw [Leg.calls, Visit.countP_isAdvance]
    · rfl
    · intro unit amount same
      simp [same, Kind.exit?] at kind
  | outcome found kind =>
    rw [Leg.calls, Visit.countP_isAdvance]
    · rfl
    · intro unit amount same
      simp [same, Kind.outcomes?] at kind
  | noOutcome found kind =>
    rw [Leg.calls, Visit.countP_isAdvance]
    · rfl
    · intro unit amount same
      simp [same, Kind.outcomes?] at kind
  | message found kind => simp [Leg.calls, Visit.calls, kind, Call.isAdvance, Place.awaited,
      Suspension.awaited]
  | timeSkip found kind => simp [Leg.calls, Visit.calls, kind, Call.isAdvance, Place.awaited,
      Suspension.awaited]
  | final found kind => simp [Leg.calls, Visit.calls, kind, Place.awaited]
  | choice => rfl
  | acknowledge => rfl
  | arrival => exact absurd rfl early

theorem Walk.balance {legs : List Leg} (h : g.Walk p legs q) (early : .arrival ∉ legs) :
    q.awaited = p.awaited + (legs.flatMap Leg.calls).countP Call.isAdvance := by
  induction h with
  | nil => rfl
  | cons leads rest ih =>
    obtain ⟨now, later⟩ := not_or.1 (List.mem_cons.not.1 early)
    rw [ih later, leads.balance (Ne.symm now), List.flatMap_cons, List.countP_append,
      Nat.add_assoc]

end Graph

/-! ## Requests -/

theorem advances_sessionOpening (category : Category) : advances (sessionOpening category) = 0 :=
  rfl

theorem advances_sessionEnding (sandbox last : Bool) (category : Category) :
    advances (sessionEnding sandbox last category) = 0 := by
  cases sandbox <;> cases last <;> rfl

namespace Stage

variable {H : Type}

theorem Proceeds.balance {s : Stage H} {g : Graph} {p : Place} {legs : List Leg} {t : Turn H}
    (h : s.Proceeds g p legs t) (early : .arrival ∉ legs) :
    t.stage.interpreter.phase.awaited = p.awaited + advances t.events := by
  cases h with
  | ongoing walk plays settings flag agenda events =>
    rw [plays.awaited, walk.balance early, ← advances_heard, events, advances_calls]
  | ended walk last idle settings flag agenda events =>
    have balance := walk.balance early
    rw [last.awaited] at balance
    rw [idle.awaited, ← advances_heard, events, advances_append, advances_calls,
      advances_sessionEnding]
    exact balance

variable [Host H]

theorem arrival_notMem_walkLegs (n : Nat) (s : Stage H) : .arrival ∉ s.walkLegs n := by
  induction n generalizing s with
  | zero => exact List.not_mem_nil
  | succ n ih =>
    intro mem
    rcases List.mem_append.1 mem with now | later
    · obtain ⟨v, -, same⟩ := Option.map_eq_some_iff.1 (Option.mem_toList.1 now)
      contradiction
    · exact ih _ later

theorem arrival_notMem_legs (s : Stage H) {r : Request H} (early : r ≠ .skipEnded) :
    .arrival ∉ s.legs r := by
  have walks (t : Option (Stage H)) :
      .arrival ∉ t.elim [] fun t => t.walkLegs t.interpreter.settings.maxSteps := by
    cases t with
    | none => exact List.not_mem_nil
    | some t => exact t.arrival_notMem_walkLegs _
  cases r with
  | skipEnded => exact absurd rfl early
  | start g => exact walks _
  | startAt c => exact walks _
  | tick elapsed => exact walks _
  | choose choice =>
    simp only [legs]
    split
    · simp
    · exact List.not_mem_nil
  | _ => exact List.not_mem_nil

/-- A request makes the time skips for whose end the session waits from then on. -/
theorem serve_balance {s : Stage H} (coherent : s.interpreter.Coherent) {r : Request H}
    (early : r ≠ .skipEnded) (lasting : r ≠ .finish) :
    (s.serve r).stage.interpreter.phase.awaited =
      s.interpreter.phase.awaited + advances (s.serve r).events := by
  have still := s.arrival_notMem_legs early
  cases serves coherent r with
  | rests idle _ after _ _ _ _ silent =>
    rw [after.awaited, idle.awaited, ← advances_heard, silent]
    rfl
  | begins idle opens proceeds stage events =>
    rw [idle.awaited, stage, proceeds.balance still, ← advances_heard (s.serve r).events, events,
      advances_append, advances_heard, advances_sessionOpening, Nat.zero_add]
    rfl
  | stands plays after _ _ _ _ silent =>
    rw [after.awaited, plays.awaited, ← advances_heard, silent]
    rfl
  | proceeds plays inert proceeds => rw [plays.awaited, proceeds.balance still]
  | finishes _ request => exact absurd request lasting

end Stage

end Storyline
