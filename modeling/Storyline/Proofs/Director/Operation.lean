import Storyline.CommandLoop
import Storyline.Proofs.Director.Basic

/-!
# Operations of a director

An operation of a director is a few acts one after the other: notices, calls to the host, requests to
the interpreter, and looks for a late event that is due.

* `Director.acts`: the acts of an operation.
* `Director.operateAll_eq`: operations are their acts, one after the other.
-/

namespace Storyline

variable {H : Type}

inductive Act (H : Type) where
  | tell (notice : Notice)
  | call (call : Call)
  | serve (request : Stage.Request H)
  /-- A look for a late event that is due. -/
  | startDue

/-- Whether a director itself makes the call. -/
def Call.isDirect : Call → Bool
  | .startClock | .deductDaily | .creditMonthly => true
  | _ => false

namespace Act

/-- The act does not reach into the agenda from outside. -/
def Own : Act H → Prop
  | .serve r => ∀ a, r.rearrange a = a
  | _ => True

/-- The act does not change the host from outside, either. -/
def Plain : Act H → Prop
  | .serve r => (∀ a, r.rearrange a = a) ∧ ∀ f, r ≠ .change f
  | .call c => c.isDirect
  | _ => True

theorem Plain.own {a : Act H} (h : a.Plain) : a.Own := by
  cases a with
  | serve r => exact h.1
  | _ => trivial

end Act

/-- What a director can be asked for, or what happens beside it. -/
inductive Operation (H : Type) where
  | command (command : Command)
  /-- The session is ended from outside. -/
  | finish
  | change (f : H → H)

variable [Host H]

namespace Stage

def act (s : Stage H) : Act H → Turn H
  | .tell n => s.tell n
  | .call c => s.call c
  | .serve r => s.serve r
  | .startDue => Director.startDue s

def actAll : Stage H → List (Act H) → Turn H
  | s, [] => .still s
  | s, a :: acts => (s.act a).andThen fun s => s.actAll acts

theorem actAll_append (s : Stage H) (acts acts' : List (Act H)) :
    s.actAll (acts ++ acts') = (s.actAll acts).andThen fun s => s.actAll acts' := by
  induction acts generalizing s with
  | nil => simp [actAll]
  | cons a acts ih =>
    simp only [List.cons_append, actAll, Turn.andThen_assoc]
    exact Turn.andThen_congr (ih _)

theorem act_coherent {s : Stage H} (coherent : s.interpreter.Coherent) (a : Act H) :
    (s.act a).stage.interpreter.Coherent := by
  cases a with
  | tell n => exact coherent
  | call c => exact coherent
  | serve r => exact (serves coherent r).coherent
  | startDue =>
    rcases Director.startDue_cases s with still | ⟨inactive, due, c, rest, -, starts⟩
    · rw [act, still]
      exact coherent
    · have idle := coherent.idle_of_inactive inactive
      rw [act, starts]
      exact (serves (s := s.modify fun i => { i with agenda := rest }) (.inl idle) _).coherent

end Stage

namespace Director

def operate (d : Director) (s : Stage H) : Operation H → Turn H
  | .command c => d.handle s c
  | .finish => s.finish
  | .change f => .still { s with host := f s.host }

def operateAll (d : Director) : Stage H → List (Operation H) → Turn H
  | s, [] => .still s
  | s, op :: ops => (d.operate s op).andThen fun s => d.operateAll s ops

omit [Host H] in
def starting (d : Director) (name : String) : Act H :=
  (d.library.find? name).elim (.tell (.scenarioMissing name)) fun g => .serve (.start g)

omit [Host H] in
def launching (d : Director) : Act H :=
  if d.config.sandbox then d.library.normal.head?.elim (.tell .nothingToPlay) d.starting
  else .call .startClock

omit [Host H] in
def commandActs (d : Director) : Command → List (Act H)
  | .tick elapsed => [.serve (.tick elapsed), .startDue]
  | .choose choice => [.serve (.choose choice)]
  | .skipEnded => [.serve .skipEnded]
  | .dayPassed _ => [.call .deductDaily, .startDue]
  | .monthPassed _ => [.call .creditMonthly, d.starting d.config.salaryScenario]
  | .yearPassed date => [.tell (.yearPassed date), .serve .requestEnd]
  | .launch => [d.launching]
  | .start name => [d.starting name]
  | .shutdown => [.tell .shuttingDown]

omit [Host H] in
def acts (d : Director) : Operation H → List (Act H)
  | .command c => d.commandActs c
  | .finish => [.serve .finish]
  | .change f => [.serve (.change f)]

theorem act_starting (d : Director) (name : String) (s : Stage H) :
    s.act (d.starting name) = (d.start name s).2 := by
  unfold starting start
  cases d.library.find? name <;> rfl

theorem act_launching (d : Director) (s : Stage H) : s.act d.launching = d.launch s := by
  unfold launching launch
  split
  · cases d.library.normal with
    | nil => rfl
    | cons name names => exact d.act_starting name s
  · rfl

theorem handle_eq (d : Director) (s : Stage H) (c : Command) :
    d.handle s c = s.actAll (d.commandActs c) := by
  cases c with
  | tick elapsed => simp [handle, tick, commandActs, Stage.actAll, Stage.act, Stage.serve]
  | choose choice => simp [handle, commandActs, Stage.actAll, Stage.act, Stage.serve]
  | skipEnded => simp [handle, commandActs, Stage.actAll, Stage.act, Stage.serve]
  | dayPassed date => simp [handle, dayPassed, commandActs, Stage.actAll, Stage.act]
  | monthPassed date =>
    simp [handle, monthPassed, commandActs, Stage.actAll, act_starting]
    rfl
  | yearPassed date => rfl
  | launch => simp [handle, commandActs, Stage.actAll, act_launching]
  | start name => simp [handle, commandActs, Stage.actAll, act_starting]
  | shutdown => simp [handle, commandActs, Stage.actAll, Stage.act]

theorem operate_eq (d : Director) (s : Stage H) (op : Operation H) :
    d.operate s op = s.actAll (d.acts op) := by
  cases op with
  | command c => exact d.handle_eq s c
  | finish => simp [operate, acts, Stage.actAll, Stage.act, Stage.serve]
  | change f => simp [operate, acts, Stage.actAll, Stage.act, Stage.serve]

theorem operateAll_eq (d : Director) (s : Stage H) (ops : List (Operation H)) :
    d.operateAll s ops = s.actAll (ops.flatMap d.acts) := by
  induction ops generalizing s with
  | nil => rfl
  | cons op ops ih =>
    rw [List.flatMap_cons, Stage.actAll_append, ← operate_eq]
    exact Turn.andThen_congr (ih _)

omit [Host H] in
theorem starting_plain (d : Director) (name : String) : (d.starting name : Act H).Plain := by
  unfold starting
  cases d.library.find? name with
  | none => trivial
  | some g => exact ⟨fun _ => rfl, by simp⟩

omit [Host H] in
theorem launching_plain (d : Director) : (d.launching : Act H).Plain := by
  unfold launching
  split
  · cases d.library.normal with
    | nil => trivial
    | cons name names => exact d.starting_plain name
  · rfl

omit [Host H] in
theorem commandActs_plain (d : Director) (c : Command) :
    ∀ a ∈ (d.commandActs c : List (Act H)), a.Plain := by
  have one {a : Act H} (plain : a.Plain) : ∀ b ∈ [a], b.Plain := List.forall_mem_singleton.2 plain
  have two {a b : Act H} (plain : a.Plain) (plain' : b.Plain) : ∀ c ∈ [a, b], c.Plain :=
    List.forall_mem_cons.2 ⟨plain, one plain'⟩
  cases c with
  | tick elapsed => exact two ⟨fun _ => rfl, by simp⟩ trivial
  | choose choice => exact one ⟨fun _ => rfl, by simp⟩
  | skipEnded => exact one ⟨fun _ => rfl, by simp⟩
  | dayPassed date => exact two rfl trivial
  | monthPassed date => exact two rfl (d.starting_plain _)
  | yearPassed date => exact two trivial ⟨fun _ => rfl, by simp⟩
  | launch => exact one d.launching_plain
  | start name => exact one (d.starting_plain name)
  | shutdown => exact one trivial

omit [Host H] in
theorem acts_own (d : Director) (op : Operation H) : ∀ a ∈ d.acts op, a.Own := by
  cases op with
  | command c => exact fun a mem => (d.commandActs_plain c a mem).own
  | finish => exact List.forall_mem_singleton.2 fun _ => rfl
  | change f => exact List.forall_mem_singleton.2 fun _ => rfl

end Director

end Storyline
