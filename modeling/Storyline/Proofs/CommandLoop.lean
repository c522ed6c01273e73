import Mathlib.Data.List.TakeWhile
import Storyline.CommandLoop

/-!
# Commands in turn

However the commands of several clients come in, the loop does what its director would do if it were
asked for one operation after the other.

* `Director.PerformsAll`: operations one after the other, with the status after each.
* `CommandLoop.run_performs`: the loop performs the commands before the first that shuts it down.
* `Traffic.Steps`: clients, the queue of their commands, and the loop.
* `Traffic.sequential`: whatever they do, the loop has performed some merge of the commands in turn.
-/

namespace Storyline

variable {H : Type} [Host H]

/-! ## Operations in turn -/

namespace Director

/-- The operation for which a command stands. None stands for shutting down. -/
inductive Performs (d : Director) (s : Stage H) : Command → Turn H → Prop where
  | tick (elapsed : Nat) : Performs d s (.tick elapsed) (Director.tick elapsed s)
  | choose (choice : Nat) : Performs d s (.choose choice) (s.choose choice)
  | skipEnded : Performs d s .skipEnded s.skipEnded
  | dayPassed (date : Date) : Performs d s (.dayPassed date) (Director.dayPassed s)
  | monthPassed (date : Date) : Performs d s (.monthPassed date) (d.monthPassed s)
  | yearPassed (date : Date) : Performs d s (.yearPassed date) (Director.yearPassed date s)
  | launch : Performs d s .launch (d.launch s)
  | start (name : String) : Performs d s (.start name) (d.start name s).2

/-- Operations one after the other: what happens, the status right after each, and the stage that is
reached. -/
inductive PerformsAll (d : Director) :
    Stage H → List Command → List Event → List Status → Stage H → Prop where
  | nil {s : Stage H} : PerformsAll d s [] [] [] s
  | cons {s u : Stage H} {c : Command} {t : Turn H} {cs : List Command} {es : List Event}
      {statuses : List Status} (now : d.Performs s c t)
      (later : PerformsAll d t.stage cs es statuses u) :
      PerformsAll d s (c :: cs) (t.events ++ es) (t.stage.interpreter.status :: statuses) u

variable {d : Director} {s u u' : Stage H} {c : Command} {cs : List Command} {es es' : List Event}
  {statuses statuses' : List Status}

theorem performs_handle (other : c ≠ .shutdown) : d.Performs s c (d.handle s c) := by
  cases c with
  | shutdown => exact absurd rfl other
  | _ => constructor

theorem Performs.eq_handle {t : Turn H} (h : d.Performs s c t) : t = d.handle s c := by
  cases h <;> rfl

theorem PerformsAll.unique (h : d.PerformsAll s cs es statuses u)
    (h' : d.PerformsAll s cs es' statuses' u') : es' = es ∧ statuses' = statuses ∧ u' = u := by
  induction h generalizing es' statuses' u' with
  | nil =>
    cases h'
    exact ⟨rfl, rfl, rfl⟩
  | cons now later ih =>
    cases h' with
    | cons now' later' =>
      obtain rfl := now.eq_handle
      obtain rfl := now'.eq_handle
      obtain ⟨rfl, rfl, rfl⟩ := ih later'
      exact ⟨rfl, rfl, rfl⟩

end Director

/-! ## The loop -/

namespace CommandLoop

def command? : Signal → Option Command
  | .command c => some c
  | .deaf => none

/-- The commands among what arrives. -/
def commands (signals : List Signal) : List Command :=
  signals.filterMap command?

/-- The commands before the first that shuts the loop down. -/
def untilShutdown (cs : List Command) : List Command :=
  cs.takeWhile (· ≠ .shutdown)

/-- How many commands come before those who listen have gone. -/
def attended (signals : List Signal) : Nat :=
  (commands (signals.takeWhile (· ≠ .deaf))).length

@[simp] theorem commands_append (first second : List Signal) :
    commands (first ++ second) = commands first ++ commands second :=
  List.filterMap_append

theorem commands_map (cs : List Command) : commands (cs.map .command) = cs := by
  induction cs with
  | nil => rfl
  | cons c cs ih => exact congrArg (c :: ·) ih

variable {d : Director} {s : Stage H}

theorem run_deaf (listening : Bool) (signals : List Signal) :
    run d listening s (.deaf :: signals) = run d false s signals := rfl

theorem run_shutdown (listening : Bool) (signals : List Signal) :
    run d listening s (.command .shutdown :: signals) = ⟨s, [.notice .shuttingDown], []⟩ := rfl

theorem run_command {c : Command} (other : c ≠ .shutdown) (listening : Bool)
    (signals : List Signal) :
    let t := d.handle s c
    let r := run d listening t.stage signals
    run d listening s (.command c :: signals) =
      ⟨r.stage, t.events ++ r.events,
        if listening then t.stage.interpreter.status :: r.statuses else r.statuses⟩ := by
  cases c with
  | shutdown => exact absurd rfl other
  | _ => rfl

/-- The loop performs, in turn, the commands before the first that shuts it down. Whether anyone
listens matters to the statuses alone. -/
theorem run_performs (d : Director) (listening : Bool) (s : Stage H) (signals : List Signal) :
    ∃ es statuses u, d.PerformsAll s (untilShutdown (commands signals)) es statuses u ∧
      run d listening s signals =
        ⟨u, es ++ (if .shutdown ∈ commands signals then [.notice .shuttingDown] else []),
          if listening then statuses.take (attended signals) else []⟩ := by
  induction signals generalizing listening s with
  | nil => exact ⟨[], [], s, .nil, by cases listening <;> rfl⟩
  | cons signal signals ih =>
    cases signal with
    | deaf =>
      obtain ⟨es, statuses, u, performs, loop⟩ := ih false s
      exact ⟨es, statuses, u, performs, by rw [run_deaf, loop]; cases listening <;> rfl⟩
    | command c =>
      by_cases last : c = .shutdown
      · subst last
        exact ⟨[], [], s, .nil, by rw [run_shutdown]; cases listening <;> rfl⟩
      · obtain ⟨es, statuses, u, performs, loop⟩ := ih listening (d.handle s c).stage
        have split : untilShutdown (commands (.command c :: signals)) =
            c :: untilShutdown (commands signals) :=
          List.takeWhile_cons_of_pos (by simpa using last)
        have closing : .shutdown ∈ commands (.command c :: signals) ↔
            .shutdown ∈ commands signals := by
          show .shutdown ∈ c :: commands signals ↔ _
          simp [Ne.symm last]
        refine ⟨(d.handle s c).events ++ es, (d.handle s c).stage.interpreter.status :: statuses, u,
          ?_, ?_⟩
        · rw [split]
          exact .cons (Director.performs_handle last) performs
        · rw [run_command last, loop, List.append_assoc]
          simp only [closing]
          cases listening <;> rfl

/-- What comes after the first command that shuts the loop down is not handled. -/
theorem run_ended (listening : Bool) {signals : List Signal} (ended : .shutdown ∈ commands signals)
    (more : List Signal) : run d listening s (signals ++ more) = run d listening s signals := by
  induction signals generalizing listening s with
  | nil => contradiction
  | cons signal signals ih =>
    cases signal with
    | deaf => exact ih false ended
    | command c =>
      by_cases last : c = .shutdown
      · subst last
        rfl
      · have later : .shutdown ∈ commands signals := by
          have mem : .shutdown ∈ c :: commands signals := ended
          exact (List.mem_cons.1 mem).resolve_left (Ne.symm last)
        rw [List.cons_append, run_command last, run_command last, ih listening later]

/-- What arrives later is handled on the stage that has been reached. -/
theorem run_append (listening : Bool) {signals : List Signal}
    (unshut : .shutdown ∉ commands signals) (more : List Signal) :
    let r := run d listening s signals
    let r' := run d (listening && !signals.contains .deaf) r.stage more
    run d listening s (signals ++ more) =
      ⟨r'.stage, r.events ++ r'.events, r.statuses ++ r'.statuses⟩ := by
  induction signals generalizing listening s with
  | nil => simp [run]
  | cons signal signals ih =>
    cases signal with
    | deaf =>
      have rest := ih (s := s) false unshut
      simpa [run_deaf] using rest
    | command c =>
      obtain ⟨other, later⟩ :=
        not_or.1 (List.mem_cons.not.1 (show .shutdown ∉ c :: commands signals from unshut))
      have rest := ih (s := (d.handle s c).stage) listening later
      simp only [List.cons_append, run_command (Ne.symm other), rest]
      cases listening <;> simp

end CommandLoop

/-! ## Clients -/

open CommandLoop

/-- The commands of all clients in one order that keeps the order of each client. -/
inductive Merges : List (List Command) → List Command → Prop where
  | done {clients : List (List Command)} (gone : ∀ cs ∈ clients, cs = []) : Merges clients []
  | next {before after : List (List Command)} {c : Command} {cs merged : List Command}
      (later : Merges (before ++ cs :: after) merged) :
      Merges (before ++ (c :: cs) :: after) (c :: merged)

/-- Clients, the queue of their commands, and the loop that takes them from it. -/
structure Traffic (H : Type) where
  /-- What each client has still to send. -/
  clients : List (List Command)
  queue : List Command
  /-- Whether the loop still takes commands. -/
  running : Bool
  /-- Whether someone still listens to the statuses. -/
  listening : Bool
  stage : Stage H
  events : List Event
  statuses : List Status

namespace Traffic

def start (clients : List (List Command)) (s : Stage H) : Traffic H :=
  ⟨clients, [], true, true, s, [], []⟩

/-- The loop handles a command, which has been taken from the queue. -/
def handle (d : Director) (t : Traffic H) (c : Command) : Traffic H :=
  let r := CommandLoop.run d t.listening t.stage [.command c]
  { t with
    running := c ≠ .shutdown
    stage := r.stage
    events := t.events ++ r.events
    statuses := t.statuses ++ r.statuses }

/-- What can happen next. A command that is sent after the end of the loop is lost. The loop ends
when it is shut down, or when all clients have gone and nothing waits in the queue. -/
inductive Steps (d : Director) (t : Traffic H) : Traffic H → Prop where
  | sends {before after : List (List Command)} {c : Command} {cs : List Command}
      (client : t.clients = before ++ (c :: cs) :: after) :
      Steps d t { t with
        clients := before ++ cs :: after
        queue := if t.running then t.queue ++ [c] else t.queue }
  | takes {c : Command} {cs : List Command} (running : t.running = true)
      (front : t.queue = c :: cs) :
      Steps d t (handle d { t with queue := cs } c)
  | leaves : Steps d t { t with listening := false }
  | runsDry (running : t.running = true) (empty : t.queue = [])
      (gone : ∀ cs ∈ t.clients, cs = []) :
      Steps d t { t with running := false }

inductive Runs (d : Director) (t₀ : Traffic H) : Traffic H → Prop where
  | nil : Runs d t₀ t₀
  | snoc {t t' : Traffic H} (before : Runs d t₀ t) (step : Steps d t t') : Runs d t₀ t'

end Traffic

theorem exists_merges (clients : List (List Command)) : ∃ merged, Merges clients merged := by
  induction left : clients.flatten.length generalizing clients with
  | zero =>
    refine ⟨[], .done fun cs mem => ?_⟩
    have empty := List.length_eq_zero_iff.1 left
    exact List.flatten_eq_nil_iff.1 empty cs mem
  | succ n ih =>
    have nonempty : ¬ ∀ cs ∈ clients, cs = [] := by
      intro gone
      rw [List.flatten_eq_nil_iff.2 gone] at left
      contradiction
    obtain ⟨cs, nonempty⟩ := not_forall.1 nonempty
    obtain ⟨mem, nonempty⟩ := Classical.not_imp.1 nonempty
    obtain ⟨c, cs, rfl⟩ := List.exists_cons_of_ne_nil nonempty
    obtain ⟨before, after, rfl⟩ := List.append_of_mem mem
    obtain ⟨merged, merges⟩ := ih (before ++ cs :: after) (by simp at left ⊢; omega)
    exact ⟨c :: merged, .next merges⟩

namespace Traffic

variable {d : Director} {s : Stage H} {clients : List (List Command)} {t t' : Traffic H}

/-- What has arrived at the loop, and all commands that have been sent, in their order. -/
structure Follows (d : Director) (s : Stage H) (clients : List (List Command)) (t : Traffic H)
    (signals : List Signal) (sent : List Command) : Prop where
  merges : ∀ later, Merges t.clients later → Merges clients (sent ++ later)
  loop : CommandLoop.run d true s signals = ⟨t.stage, t.events, t.statuses⟩
  going : t.running = true → .shutdown ∉ commands signals ∧ commands signals ++ t.queue = sent ∧
    t.listening = !signals.contains .deaf
  ended : t.running = false → commands signals = sent ∧ (∀ cs ∈ t.clients, cs = []) ∨
    .shutdown ∈ commands signals ∧ ∃ unhandled, commands signals ++ unhandled = sent

theorem follows_start (d : Director) (s : Stage H) (clients : List (List Command)) :
    Follows d s clients (start clients s) [] [] where
  merges later merges := merges
  loop := rfl
  going _ := ⟨List.not_mem_nil, rfl, rfl⟩
  ended stopped := by contradiction

theorem Follows.step {signals : List Signal} {sent : List Command}
    (h : Follows d s clients t signals sent) (step : Steps d t t') :
    ∃ signals sent, Follows d s clients t' signals sent := by
  cases step with
  | @sends before after c cs client =>
    have merges : ∀ later, Merges (before ++ cs :: after) later →
        Merges clients (sent ++ [c] ++ later) := by
      intro later rest
      rw [List.append_assoc]
      apply h.merges
      rw [client]
      exact .next rest
    refine ⟨signals, sent ++ [c], merges, h.loop, ?_, ?_⟩
    · intro running
      obtain ⟨unshut, queued, listening⟩ := h.going running
      refine ⟨unshut, ?_, listening⟩
      simp only [show t.running = true from running, if_true]
      rw [← List.append_assoc, queued]
    · intro stopped
      rcases h.ended stopped with ⟨-, gone⟩ | ⟨shut, unhandled, split⟩
      · -- a client that has gone sends nothing
        have mem : c :: cs ∈ t.clients := by simp [client]
        exact absurd (gone _ mem) (by simp)
      · exact .inr ⟨shut, unhandled ++ [c], by rw [← List.append_assoc, split]⟩
  | @takes c cs running front =>
    obtain ⟨unshut, queued, listening⟩ := h.going running
    have split : commands (signals ++ [.command c]) ++ cs = sent := by
      rw [← queued, front, commands_append, List.append_assoc]
      rfl
    have mem : .shutdown ∈ commands (signals ++ [.command c]) ↔ c = .shutdown := by
      have last : commands [.command c] = [c] := rfl
      rw [commands_append, List.mem_append, last, List.mem_singleton]
      simp [unshut, eq_comm]
    refine ⟨signals ++ [.command c], sent, h.merges, ?_, ?_, ?_⟩
    · rw [run_append true unshut, h.loop, Bool.true_and, ← listening]
      rfl
    · intro going
      have other : c ≠ .shutdown := by simpa [handle] using going
      refine ⟨mem.not.2 other, split, ?_⟩
      simpa [handle] using listening
    · intro stopped
      have last : c = .shutdown := by simpa [handle] using stopped
      exact .inr ⟨mem.2 last, cs, split⟩
  | leaves =>
    by_cases running : t.running = true
    · obtain ⟨unshut, queued, listening⟩ := h.going running
      have same : commands (signals ++ [.deaf]) = commands signals := by
        rw [commands_append]
        exact List.append_nil _
      refine ⟨signals ++ [.deaf], sent, h.merges, ?_, ?_, ?_⟩
      · rw [run_append true unshut, h.loop]
        simp [run]
      · intro _
        rw [same]
        exact ⟨unshut, queued, by simp⟩
      · intro stopped
        rw [running] at stopped
        contradiction
    · exact ⟨signals, sent, h.merges, h.loop, fun going => absurd going running, h.ended⟩
  | runsDry running empty gone =>
    obtain ⟨-, queued, -⟩ := h.going running
    refine ⟨signals, sent, h.merges, h.loop, by simp, fun _ => .inl ⟨?_, gone⟩⟩
    rw [← queued, empty, List.append_nil]

theorem Runs.follows (run : Runs d (start clients s) t) :
    ∃ signals sent, Follows d s clients t signals sent := by
  induction run with
  | nil => exact ⟨[], [], follows_start d s clients⟩
  | snoc before step ih =>
    obtain ⟨signals, sent, follows⟩ := ih
    exact follows.step step

/-- A loop that has ended has handled what arrived in some order of all commands. -/
theorem Follows.merged {signals : List Signal} {sent : List Command}
    (h : Follows d s clients t signals sent) (stopped : t.running = false) :
    ∃ signals, Merges clients (commands signals) ∧
      CommandLoop.run d true s signals = ⟨t.stage, t.events, t.statuses⟩ := by
  rcases h.ended stopped with ⟨all, gone⟩ | ⟨shut, unhandled, split⟩
  · refine ⟨signals, ?_, h.loop⟩
    have merges := h.merges [] (.done gone)
    rwa [List.append_nil, ← all] at merges
  · obtain ⟨later, rest⟩ := exists_merges t.clients
    refine ⟨signals ++ (unhandled ++ later).map .command, ?_, ?_⟩
    · rw [commands_append, commands_map, ← List.append_assoc, split]
      exact h.merges later rest
    · rw [run_ended true shut, h.loop]

/-! ## All orders are possible -/

theorem Runs.trans {t₀ : Traffic H} (run : Runs d t₀ t) (run' : Runs d t t') : Runs d t₀ t' := by
  induction run' with
  | nil => exact run
  | snoc _ step ih => exact ih.snoc step

theorem exists_sent {merged : List Command} (merges : Merges clients merged)
    (here : t.clients = clients) (running : t.running = true) :
    ∃ t', Runs d t t' ∧ (∀ cs ∈ t'.clients, cs = []) ∧
      t' = { t with clients := t'.clients, queue := t.queue ++ merged } := by
  induction merges generalizing t with
  | done gone => exact ⟨t, .nil, by rwa [here], by simp⟩
  | @next before after c cs merged later ih =>
    obtain ⟨t', run, gone, reached⟩ :=
      ih (t := { t with clients := before ++ cs :: after, queue := t.queue ++ [c] }) rfl running
    have sent : Steps d t
        { t with clients := before ++ cs :: after, queue := t.queue ++ [c] } := by
      have step : Steps d t _ := .sends here
      have queued : (if t.running then t.queue ++ [c] else t.queue) = t.queue ++ [c] :=
        if_pos running
      rwa [queued] at step
    exact ⟨t', (Runs.nil.snoc sent).trans run, gone, by rw [reached]; simp⟩

theorem exists_handled {signals : List Signal} (running : t.running = true)
    (gone : ∀ cs ∈ t.clients, cs = []) (queued : t.queue = commands signals) :
    ∃ t', Runs d t t' ∧ t'.running = false ∧
      let r := CommandLoop.run d t.listening t.stage signals
      t'.stage = r.stage ∧ t'.events = t.events ++ r.events ∧
        t'.statuses = t.statuses ++ r.statuses := by
  induction signals generalizing t with
  | nil => exact ⟨_, Runs.nil.snoc (.runsDry running queued gone), rfl, by simp [run]⟩
  | cons signal signals ih =>
    cases signal with
    | deaf =>
      obtain ⟨t', later, ended, reached⟩ :=
        ih (t := { t with listening := false }) running gone queued
      exact ⟨t', (Runs.nil.snoc .leaves).trans later, ended, reached⟩
    | command c =>
      have step : Steps d t _ := .takes running queued
      by_cases last : c = .shutdown
      · subst last
        exact ⟨_, Runs.nil.snoc step, rfl, rfl, rfl, rfl⟩
      · obtain ⟨t', later, ended, stage, events, statuses⟩ :=
          ih (t := handle d { t with queue := commands signals } c) (by simpa [handle] using last)
            gone rfl
        refine ⟨t', (Runs.nil.snoc step).trans later, ended, ?_⟩
        simp only [handle, run_command last, run, List.append_nil] at stage events statuses ⊢
        refine ⟨stage, by rw [events, List.append_assoc], ?_⟩
        rw [statuses]
        cases t.listening <;> simp

end Traffic

/-! ## The loop and its clients -/

theorem Director.PerformsAll.length {d : Director} {s u : Stage H} {cs : List Command}
    {es : List Event} {statuses : List Status} (h : d.PerformsAll s cs es statuses u) :
    statuses.length = cs.length := by
  induction h with
  | nil => rfl
  | cons _ _ ih => exact congrArg (· + 1) ih

theorem CommandLoop.length_untilShutdown_le {signals : List Signal} (heard : .deaf ∉ signals) :
    (untilShutdown (commands signals)).length ≤ attended signals := by
  have all : signals.takeWhile (· ≠ .deaf) = signals := by
    apply List.takeWhile_eq_self_iff.2
    intro signal mem
    simpa using ne_of_mem_of_not_mem mem heard
  rw [attended, all]
  exact (List.takeWhile_prefix _).length_le

/-- Whatever clients and loop do until the loop ends, it has handled some merge of all commands, and
every merge can occur, with every moment at which those who listen leave. Of a merge the loop
performs the operations before the first command that shuts it down, one after the other on the
stage on which it began; there is one status for each of them, right after it, up to the moment at
which nobody listens any more. Nothing else depends on those who listen, and nothing comes of what
is left. -/
theorem Traffic.sequential (d : Director) (s : Stage H) (clients : List (List Command)) :
    (∀ t, Runs d (start clients s) t → t.running = false →
      ∃ signals, Merges clients (commands signals) ∧
        CommandLoop.run d true s signals = ⟨t.stage, t.events, t.statuses⟩) ∧
    (∀ signals, Merges clients (commands signals) →
      ∃ t, Runs d (start clients s) t ∧ t.running = false ∧
        CommandLoop.run d true s signals = ⟨t.stage, t.events, t.statuses⟩) ∧
    ∀ signals, ∃ es statuses u,
      (∀ es' statuses' u', d.PerformsAll s (untilShutdown (commands signals)) es' statuses' u' ↔
        es' = es ∧ statuses' = statuses ∧ u' = u) ∧
      CommandLoop.run d true s signals =
        ⟨u, es ++ (if .shutdown ∈ commands signals then [.notice .shuttingDown] else []),
          statuses.take (attended signals)⟩ ∧
      (.deaf ∉ signals → (CommandLoop.run d true s signals).statuses = statuses) ∧
      ∀ signals', commands signals' = commands signals →
        (CommandLoop.run d true s signals').stage = (CommandLoop.run d true s signals).stage ∧
        (CommandLoop.run d true s signals').events = (CommandLoop.run d true s signals).events := by
  refine ⟨?_, ?_, ?_⟩
  · intro t runs stopped
    obtain ⟨signals, sent, follows⟩ := runs.follows
    exact follows.merged stopped
  · intro signals merges
    obtain ⟨t, sends, gone, sent⟩ := exists_sent (d := d) (t := start clients s) merges rfl rfl
    have queued : t.queue = commands signals := by rw [sent]; rfl
    obtain ⟨t', handles, ended, stage, events, statuses⟩ :=
      exists_handled (d := d) (by rw [sent]; rfl) gone queued
    refine ⟨t', sends.trans handles, ended, ?_⟩
    rw [stage, events, statuses, sent]
    rfl
  · intro signals
    obtain ⟨es, statuses, u, performs, loop⟩ := run_performs d true s signals
    refine ⟨es, statuses, u, ?_, loop, ?_, ?_⟩
    · refine fun es' statuses' u' => ⟨performs.unique, ?_⟩
      rintro ⟨rfl, rfl, rfl⟩
      exact performs
    · intro heard
      have enough : statuses.length ≤ attended signals := by
        rw [performs.length]
        exact length_untilShutdown_le heard
      rw [loop]
      exact List.take_of_length_le enough
    · intro signals' same
      obtain ⟨es', statuses', u', performs', loop'⟩ := run_performs d true s signals'
      rw [same] at performs' loop'
      obtain ⟨rfl, rfl, rfl⟩ := performs.unique performs'
      rw [loop, loop']
      exact ⟨rfl, rfl⟩

/-- Two clients, of which the first shuts the loop down after the command of the second, while
nobody listens any more. -/
theorem Traffic.sequential_day :
    let d := (Director.new .default []).1
    let today : Date := ⟨738886, by decide, by decide⟩
    let s : Stage Recorder := ⟨d.interpreter (.ofSeed 7), ⟨today, #[], false⟩⟩
    ∃ t, Runs d (start [[.launch, .shutdown], [.dayPassed today]] s) t ∧ t.running = false ∧
      t.stage.host.calls = #[.startClock, .deductDaily] ∧ t.statuses.length = 1 := by
  intro d today s
  let signals : List Signal :=
    [.command .launch, .deaf, .command (.dayPassed today), .command .shutdown]
  have merges : Merges [[.launch, .shutdown], [.dayPassed today]] (commands signals) :=
    @Merges.next [] _ _ _ _ <| @Merges.next [[.shutdown]] _ _ _ _ <| @Merges.next [] _ _ _ _ <|
      .done (by simp)
  obtain ⟨t, runs, ended, loop⟩ := (sequential d s _).2.1 signals merges
  refine ⟨t, runs, ended, ?_, ?_⟩
  · exact congrArg (·.stage.host.calls) loop.symm
  · exact congrArg (·.statuses.length) loop.symm

end Storyline
