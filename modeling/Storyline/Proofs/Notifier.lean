import Storyline.Notifier

/-!
# What the subscribers of a notifier see

* `Notifier.Tidy`: those who are sent to are known, and nobody whose receiver is in use is missing.
* `Notifier.emit_receivers`: a notification arrives at every receiver in use, once.
* `Notifier.Account`: what a receiver gave out and what waits there, against what was emitted.
* `Notifier.Alike.after`: a dropped receiver makes no difference to the others.
* `Notifier.fanout`: all this for a notifier from its beginning on, however subscriptions,
  emissions, receipts and drops are mixed.
-/

namespace Storyline

namespace Receiver

/-- A receiver after a notification was sent to it. -/
def hear (what : Notification) (r : Receiver) : Receiver :=
  if r.dropped then r else r.put what

@[simp] theorem hear_dropped (what : Notification) (r : Receiver) :
    (r.hear what).dropped = r.dropped := by
  unfold hear
  split <;> rfl

theorem hear_of_dropped {r : Receiver} (h : r.dropped = true) (what : Notification) :
    r.hear what = r :=
  if_pos h

theorem hear_inbox {r : Receiver} (h : r.dropped = false) (what : Notification) :
    (r.hear what).inbox = r.inbox ++ [what] := by
  simp [hear, put, h]

end Receiver

namespace Notifier

/-- What can happen to a notifier and its receivers. -/
inductive Action where
  | subscribe
  | emit (what : Notification)
  | receive (who : Nat)
  | receiveAll (who : Nat)
  | drop (who : Nat)
  deriving DecidableEq, Repr

def step (n : Notifier) : Action → Notifier
  | .subscribe => n.subscribe
  | .emit what => n.emit what
  | .receive who => (n.receive who).2
  | .receiveAll who => (n.receiveAll who).2
  | .drop who => n.drop who

def after (n : Notifier) (actions : List Action) : Notifier :=
  actions.foldl step n

/-- What one receiver gives out in an action. -/
def got (n : Notifier) (who : Nat) : Action → List Notification
  | .receive who' => if who' = who then (n.receive who').1.toList else []
  | .receiveAll who' => if who' = who then (n.receiveAll who').1 else []
  | _ => []

/-- What one receiver gives out in some actions. -/
def received (who : Nat) : Notifier → List Action → List Notification
  | _, [] => []
  | n, action :: actions => n.got who action ++ received who (n.step action) actions

def emitted (actions : List Action) : List Notification :=
  actions.filterMap fun
    | .emit what => some what
    | _ => none

/-- How many receivers are in use. -/
def alive (n : Notifier) : Nat :=
  n.receivers.countP fun r => !r.dropped

variable {n n' : Notifier} {who other : Nat} {what : Notification} {action : Action}
  {actions before rest : List Action}

theorem after_append (n : Notifier) (before rest : List Action) :
    n.after (before ++ rest) = (n.after before).after rest :=
  List.foldl_append

theorem received_append (who : Nat) (before rest : List Action) (n : Notifier) :
    received who n (before ++ rest) =
      received who n before ++ received who (n.after before) rest := by
  induction before generalizing n with
  | nil => rfl
  | cons action before ih =>
    have tail := ih (n.step action)
    simp only [List.cons_append, received, tail, List.append_assoc]
    rfl

theorem emitted_append (before rest : List Action) :
    emitted (before ++ rest) = emitted before ++ emitted rest :=
  List.filterMap_append

/-! ### Sending -/

theorem send?_of_some {receivers : List Receiver} {r : Receiver} (h : receivers[who]? = some r) :
    send? what who receivers =
      if r.dropped then none else some (receivers.set who (r.put what)) := by
  simp only [send?, h]

theorem send?_of_none {receivers : List Receiver} (h : receivers[who]? = none) :
    send? what who receivers = none := by
  simp only [send?, h]

/-- Whether a send to some receiver succeeds. -/
def reaches (receivers : List Receiver) (who : Nat) : Bool :=
  receivers[who]?.any fun r => !r.dropped

theorem send?_eq (what : Notification) (who : Nat) (receivers : List Receiver) :
    send? what who receivers =
      if reaches receivers who then some (receivers.modify who (.hear what)) else none := by
  unfold reaches
  cases h : receivers[who]? with
  | none => simp [send?_of_none h]
  | some r =>
    rw [send?_of_some h]
    cases dropped : r.dropped with
    | true => simp [dropped]
    | false =>
      have heard : receivers.modify who (.hear what) = receivers.set who (r.put what) := by
        apply List.ext_getElem?
        intro i
        rw [List.getElem?_modify, List.getElem?_set]
        by_cases same : who = i
        · subst same
          obtain ⟨bound, -⟩ := List.getElem?_eq_some_iff.1 h
          rw [h, if_pos rfl, if_pos bound]
          simp [Receiver.hear, dropped]
        · simp [same]
      simp [dropped, heard]

/-- Nobody is sent to twice, so that the notification arrives once wherever it arrives. -/
theorem deliver_eq (what : Notification) {whos : List Nat} (distinct : whos.Nodup)
    (receivers : List Receiver) :
    (deliver what whos receivers).1 = whos.filter (reaches receivers) ∧
      ∀ i, (deliver what whos receivers).2[i]? =
        if i ∈ whos then receivers[i]?.map (.hear what) else receivers[i]? := by
  induction whos generalizing receivers with
  | nil => exact ⟨rfl, fun i => rfl⟩
  | cons who whos ih =>
    obtain ⟨fresh, distinct⟩ := List.nodup_cons.1 distinct
    simp only [deliver, send?_eq, List.filter_cons]
    cases reached : reaches receivers who with
    | true =>
      obtain ⟨kept, heard⟩ := ih distinct (receivers.modify who (.hear what))
      have unmoved : ∀ i ∈ whos,
          reaches (receivers.modify who (.hear what)) i = reaches receivers i := by
        intro i member
        have ne : who ≠ i := fun same => fresh (same ▸ member)
        simp [reaches, ne]
      refine ⟨?_, fun i => ?_⟩
      · simp only [if_true, kept, List.filter_congr unmoved]
      · simp only [if_true, heard i, List.getElem?_modify, List.mem_cons]
        by_cases same : who = i
        · subst same
          simp [fresh]
        · simp [same, Ne.symm same]
    | false =>
      obtain ⟨kept, heard⟩ := ih distinct receivers
      refine ⟨by simpa using kept, fun i => ?_⟩
      simp only [Bool.false_eq_true, if_false, heard i, List.mem_cons]
      by_cases same : i = who
      · subst same
        cases h : receivers[i]? with
        | none => simp
        | some r =>
          have dropped : r.dropped = true := by simpa [reaches, h] using reached
          simp [fresh, Receiver.hear_of_dropped dropped]
      · simp [same]

/-! ### The list of subscribers -/

structure Tidy (n : Notifier) : Prop where
  distinct : n.subscribers.Nodup
  known : ∀ who ∈ n.subscribers, who < n.receivers.length
  listed : ∀ (who : Nat) (r : Receiver), n.receivers[who]? = some r → r.dropped = false →
    who ∈ n.subscribers
  emptied : ∀ r ∈ n.receivers, r.dropped = true → r.inbox = []

theorem tidy_empty : empty.Tidy where
  distinct := .nil
  known who h := nomatch h
  listed who r h := by simp [empty] at h
  emptied r h := nomatch h

theorem emit_receivers (h : n.Tidy) (what : Notification) :
    (n.emit what).receivers = n.receivers.map (.hear what) := by
  apply List.ext_getElem?
  intro i
  have heard : (n.emit what).receivers[i]? = _ := (deliver_eq what h.distinct n.receivers).2 i
  rw [heard, List.getElem?_map]
  cases at_i : n.receivers[i]? with
  | none => simp
  | some r =>
    cases dropped : r.dropped with
    | true => simp [Receiver.hear_of_dropped dropped]
    | false => simp [h.listed i r at_i dropped]

theorem emit_subscribers (h : n.Tidy) (what : Notification) :
    (n.emit what).subscribers = n.subscribers.filter (reaches n.receivers) :=
  (deliver_eq what h.distinct n.receivers).1

theorem emit_alive (h : n.Tidy) (what : Notification) : (n.emit what).alive = n.alive := by
  unfold alive
  rw [emit_receivers h, List.countP_map]
  apply List.countP_congr
  intro r _
  simp

/-- One receiver after an action of whoever it is. -/
def turn (who : Nat) : Action → Receiver → Receiver
  | .subscribe, r => r
  | .emit what, r => r.hear what
  | .receive who', r => if who' = who then { r with inbox := r.inbox.tail } else r
  | .receiveAll who', r => if who' = who then { r with inbox := [] } else r
  | .drop who', r => if who' = who then r.drop else r

/-- What one receiver gives out in an action of whoever it is. -/
def handed (who : Nat) : Action → Receiver → List Notification
  | .receive who', r => if who' = who then r.inbox.head?.toList else []
  | .receiveAll who', r => if who' = who then r.inbox else []
  | _, _ => []

theorem receive_receivers {r : Receiver} (at_who : n.receivers[who]? = some r) (who' : Nat) :
    (n.receive who').2.receivers[who]? = some (turn who (.receive who') r) := by
  simp only [receive, turn]
  by_cases same : who' = who
  · subst same
    obtain ⟨bound, -⟩ := List.getElem?_eq_some_iff.1 at_who
    obtain ⟨inbox, dropped⟩ := r
    rw [at_who, if_pos rfl]
    cases inbox with
    | nil => exact at_who
    | cons what rest => exact List.getElem?_set_self bound
  · rw [if_neg same]
    split
    · exact (List.getElem?_set_ne same).trans at_who
    · exact at_who

theorem receiveAll_receivers {r : Receiver} (at_who : n.receivers[who]? = some r) (who' : Nat) :
    (n.receiveAll who').2.receivers[who]? = some (turn who (.receiveAll who') r) := by
  simp only [receiveAll, turn]
  by_cases same : who' = who
  · subst same
    obtain ⟨bound, -⟩ := List.getElem?_eq_some_iff.1 at_who
    rw [at_who, if_pos rfl]
    exact List.getElem?_set_self bound
  · rw [if_neg same]
    split
    · exact (List.getElem?_set_ne same).trans at_who
    · exact at_who

theorem step_receivers (h : n.Tidy) {r : Receiver} (at_who : n.receivers[who]? = some r)
    (action : Action) : (n.step action).receivers[who]? = some (turn who action r) := by
  obtain ⟨bound, -⟩ := List.getElem?_eq_some_iff.1 at_who
  cases action with
  | subscribe => simpa [step, subscribe, turn, List.getElem?_append_left bound] using at_who
  | emit what => simp [step, turn, emit_receivers h, at_who]
  | receive who' => exact receive_receivers at_who who'
  | receiveAll who' => exact receiveAll_receivers at_who who'
  | drop who' => by_cases same : who' = who <;> simp [step, drop, turn, at_who, same]

theorem got_eq {r : Receiver} (at_who : n.receivers[who]? = some r) (action : Action) :
    n.got who action = handed who action r := by
  cases action with
  | subscribe | emit what | drop who' => rfl
  | receive who' =>
    simp only [got, handed]
    by_cases same : who' = who
    · subst same
      obtain ⟨inbox, dropped⟩ := r
      simp only [receive, at_who]
      cases inbox <;> rfl
    · rw [if_neg same, if_neg same]
  | receiveAll who' =>
    simp only [got, handed]
    by_cases same : who' = who
    · subst same
      simp only [receiveAll, at_who]
    · rw [if_neg same, if_neg same]

theorem step_length (h : n.Tidy) (action : Action) :
    (n.step action).receivers.length =
      n.receivers.length + if action = .subscribe then 1 else 0 := by
  cases action with
  | subscribe => simp [step, subscribe]
  | emit what => simp [step, emit_receivers h]
  | receive who => simp only [step, receive]; split <;> simp
  | receiveAll who => simp only [step, receiveAll]; split <;> simp
  | drop who => simp [step, drop]

theorem step_subscribers (h : n.Tidy) (action : Action) :
    (n.step action).subscribers =
      match action with
      | .subscribe => n.subscribers ++ [n.receivers.length]
      | .emit _ => n.subscribers.filter (reaches n.receivers)
      | _ => n.subscribers := by
  cases action with
  | subscribe | drop who => rfl
  | emit what => exact emit_subscribers h what
  | receive who => simp only [step, receive]; split <;> rfl
  | receiveAll who => simp only [step, receiveAll]; split <;> rfl

theorem step_of_unknown (h : n.Tidy) (beyond : n.receivers.length ≤ who) (action : Action) :
    (n.step action).receivers[who]? =
      if action = .subscribe ∧ who = n.receivers.length then some .fresh else none := by
  by_cases subscribes : action = .subscribe
  · subst subscribes
    obtain rfl | further := Nat.eq_or_lt_of_le beyond
    · simp [step, subscribe]
    · have short : (n.step .subscribe).receivers.length ≤ who := by
        rw [step_length h]
        exact further
      rw [List.getElem?_eq_none_iff.2 short, if_neg (fun last => Nat.ne_of_gt further last.2)]
  · have short : (n.step action).receivers.length ≤ who := by
      rw [step_length h, if_neg subscribes]
      exact beyond
    rw [List.getElem?_eq_none_iff.2 short, if_neg (fun last => subscribes last.1)]

/-- Where the receivers after an action come from. -/
theorem step_cases (h : n.Tidy) {r' : Receiver}
    (at_who : (n.step action).receivers[who]? = some r') :
    (∃ r, n.receivers[who]? = some r ∧ r' = turn who action r) ∨
      (action = .subscribe ∧ who = n.receivers.length ∧ r' = .fresh) := by
  cases known : n.receivers[who]? with
  | some r =>
    rw [step_receivers h known] at at_who
    exact .inl ⟨r, rfl, (Option.some.inj at_who).symm⟩
  | none =>
    rw [step_of_unknown h (List.getElem?_eq_none_iff.1 known)] at at_who
    split at at_who
    · rename_i last
      exact .inr ⟨last.1, last.2, (Option.some.inj at_who).symm⟩
    · exact absurd at_who nofun

theorem turn_dropped (who : Nat) (action : Action) (r : Receiver) :
    (turn who action r).dropped = true ↔ r.dropped = true ∨ action = .drop who := by
  cases action with
  | subscribe => simp [turn]
  | emit what => simp [turn]
  | receive who' => simp only [turn]; split <;> simp
  | receiveAll who' => simp only [turn]; split <;> simp
  | drop who' => by_cases same : who' = who <;> simp [turn, Receiver.drop, same]

theorem turn_emptied {r : Receiver} (emptied : r.dropped = true → r.inbox = [])
    (gone : (turn who action r).dropped = true) : (turn who action r).inbox = [] := by
  cases action with
  | subscribe => exact emptied gone
  | emit what =>
    rw [turn, Receiver.hear_dropped] at gone
    rw [turn, Receiver.hear_of_dropped gone]
    exact emptied gone
  | receive who' =>
    simp only [turn] at gone ⊢
    split at gone <;> simp_all
  | receiveAll who' =>
    simp only [turn] at gone ⊢
    split at gone <;> simp_all
  | drop who' =>
    simp only [turn] at gone ⊢
    split at gone <;> simp_all [Receiver.drop]

theorem Tidy.step (h : n.Tidy) (action : Action) : (n.step action).Tidy where
  distinct := by
    rw [step_subscribers h]
    cases action with
    | subscribe =>
      have fresh : n.receivers.length ∉ n.subscribers := fun member =>
        Nat.lt_irrefl _ (h.known _ member)
      refine List.nodup_append.2 ⟨h.distinct, List.nodup_cons.2 ⟨List.not_mem_nil, .nil⟩, ?_⟩
      intro who member other last same
      rw [List.mem_singleton.1 last] at same
      exact fresh (same ▸ member)
    | emit what => exact h.distinct.filter _
    | receive who | receiveAll who | drop who => exact h.distinct
  known who member := by
    rw [step_length h]
    rw [step_subscribers h] at member
    cases action with
    | subscribe =>
      rcases List.mem_append.1 member with old | new
      · exact Nat.lt_succ_of_lt (h.known who old)
      · rw [List.mem_singleton.1 new]
        exact Nat.lt_succ_self _
    | emit what => exact h.known who (List.mem_filter.1 member).1
    | receive who' | receiveAll who' | drop who' => exact h.known who member
  listed who r' at_who used := by
    rw [step_subscribers h]
    rcases step_cases h at_who with ⟨r, known, rfl⟩ | ⟨rfl, rfl, rfl⟩
    · have still : r.dropped = false := by
        refine Bool.eq_false_iff.2 fun gone => ?_
        rw [(turn_dropped who action r).2 (.inl gone)] at used
        exact absurd used (by decide)
      have member := h.listed who r known still
      cases action with
      | subscribe => exact List.mem_append_left _ member
      | emit what =>
        refine List.mem_filter.2 ⟨member, ?_⟩
        simp [reaches, known, still]
      | receive who' | receiveAll who' | drop who' => exact member
    · exact List.mem_append_right _ (List.mem_singleton_self _)
  emptied r' member gone := by
    obtain ⟨who, at_who⟩ := List.mem_iff_getElem?.1 member
    rcases step_cases h at_who with ⟨r, known, rfl⟩ | ⟨-, -, rfl⟩
    · exact turn_emptied (h.emptied r (List.mem_of_getElem? known)) gone
    · rfl

theorem Tidy.after (h : n.Tidy) (actions : List Action) : (n.after actions).Tidy := by
  induction actions generalizing n with
  | nil => exact h
  | cons action actions ih => exact ih (h.step action)

theorem after_length (h : n.Tidy) (actions : List Action) :
    (n.after actions).receivers.length = n.receivers.length + actions.count .subscribe := by
  induction actions generalizing n with
  | nil => rfl
  | cons action actions ih =>
    have later := ih (h.step action)
    rw [step_length h] at later
    rw [List.count_cons]
    simp only [beq_iff_eq]
    exact later.trans (by omega)

/-! ### The account of a receiver -/

/-- A receiver before and after some actions, and what it gave out meanwhile. -/
structure Account (who : Nat) (r : Receiver) (actions : List Action)
    (seen : List Notification) (r' : Receiver) : Prop where
  gone : r'.dropped = true ↔ r.dropped = true ∨ .drop who ∈ actions
  silent : r.dropped = true → seen = []
  part : seen <+: r.inbox ++ emitted actions
  whole : r'.dropped = false → seen ++ r'.inbox = r.inbox ++ emitted actions

namespace Account

variable {r r' r'' : Receiver} {seen seen' : List Notification}

theorem refl (who : Nat) (r : Receiver) : Account who r [] [] r where
  gone := by simp
  silent _ := rfl
  part := List.nil_prefix
  whole _ := by simp [emitted]

theorem trans (h : Account who r before seen r') (h' : Account who r' rest seen' r'') :
    Account who r (before ++ rest) (seen ++ seen') r'' where
  gone := by rw [h'.gone, h.gone, List.mem_append, or_assoc]
  silent gone := by
    rw [h.silent gone, h'.silent (h.gone.2 (.inl gone)), List.append_nil]
  part := by
    rw [emitted_append, ← List.append_assoc]
    cases used : r'.dropped with
    | true =>
      rw [h'.silent used, List.append_nil]
      exact h.part.trans (List.prefix_append _ _)
    | false =>
      rw [← h.whole used, List.append_assoc]
      exact (List.prefix_append_right_inj seen).2 h'.part
  whole used := by
    have used' : r'.dropped = false :=
      Bool.eq_false_iff.2 fun gone => Bool.eq_false_iff.1 used (h'.gone.2 (.inl gone))
    rw [emitted_append, List.append_assoc, h'.whole used, ← List.append_assoc, h.whole used',
      List.append_assoc]

end Account

/-- Whatever is taken is taken from the front of what waits. -/
theorem Account.of_split {r r' : Receiver} {seen : List Notification}
    (gone : r'.dropped = true ↔ r.dropped = true ∨ .drop who ∈ actions)
    (emptied : r.dropped = true → r.inbox = []) (quiet : emitted actions = [])
    (split : seen ++ r'.inbox = r.inbox) : Account who r actions seen r' where
  gone := gone
  silent dropped := (List.append_eq_nil_iff.1 (split.trans (emptied dropped))).1
  part := by
    rw [quiet, List.append_nil, ← split]
    exact List.prefix_append seen r'.inbox
  whole _ := by rw [quiet, List.append_nil, split]

theorem account_turn {r : Receiver} (emptied : r.dropped = true → r.inbox = [])
    (action : Action) : Account who r [action] (handed who action r) (turn who action r) := by
  have gone : (turn who action r).dropped = true ↔ r.dropped = true ∨ .drop who ∈ [action] := by
    rw [turn_dropped, List.mem_singleton, eq_comm (a := action)]
  cases action with
  | subscribe => exact .of_split gone emptied rfl rfl
  | emit what =>
    refine ⟨gone, fun _ => rfl, List.nil_prefix, fun used => ?_⟩
    rw [turn, Receiver.hear_dropped] at used
    rw [turn, Receiver.hear_inbox used]
    rfl
  | receive who' =>
    refine .of_split gone emptied rfl ?_
    simp only [handed, turn]
    split
    · cases r.inbox <;> rfl
    · rfl
  | receiveAll who' =>
    refine .of_split gone emptied rfl ?_
    simp only [handed, turn]
    split
    · exact List.append_nil _
    · rfl
  | drop who' =>
    refine ⟨gone, fun _ => rfl, List.nil_prefix, fun used => ?_⟩
    have other : who' ≠ who := fun same => by
      rw [gone.2 (.inr (same ▸ List.mem_singleton_self _))] at used
      exact absurd used (by decide)
    simp only [turn, if_neg other]
    exact (List.append_nil r.inbox).symm

theorem account_after (h : n.Tidy) {r : Receiver} (at_who : n.receivers[who]? = some r)
    (actions : List Action) :
    ∃ r', (n.after actions).receivers[who]? = some r' ∧
      Account who r actions (received who n actions) r' := by
  induction actions generalizing n r with
  | nil => exact ⟨r, at_who, .refl who r⟩
  | cons action actions ih =>
    obtain ⟨r', at_end, later⟩ := ih (h.step action) (step_receivers h at_who action)
    refine ⟨r', at_end, ?_⟩
    have first : Account who r [action] (handed who action r) (turn who action r) :=
      account_turn (h.emptied r (List.mem_of_getElem? at_who)) action
    rw [received, got_eq at_who]
    exact first.trans later

theorem got_of_unknown (beyond : n.receivers.length ≤ who) (action : Action) :
    n.got who action = [] := by
  have unknown := List.getElem?_eq_none_iff.2 beyond
  cases action with
  | subscribe | emit what | drop who' => rfl
  | receive who' =>
    simp only [got]
    split
    · rename_i same
      rw [same, receive, unknown]
      rfl
    · rfl
  | receiveAll who' =>
    simp only [got]
    split
    · rename_i same
      rw [same, receiveAll, unknown]
    · rfl

theorem received_of_unknown (h : n.Tidy) (beyond : (n.after actions).receivers.length ≤ who) :
    received who n actions = [] := by
  induction actions generalizing n with
  | nil => rfl
  | cons action actions ih =>
    have unknown : n.receivers.length ≤ who := by
      rw [after_length h] at beyond
      exact Nat.le_of_add_right_le beyond
    rw [received, got_of_unknown unknown, ih (h.step action) beyond]
    rfl

/-- The subscription that a number of others come before. -/
theorem exists_subscription (bound : who < actions.count .subscribe) :
    ∃ before rest, actions = before ++ .subscribe :: rest ∧ who = before.count .subscribe := by
  induction actions generalizing who with
  | nil => exact absurd bound (Nat.not_lt_zero _)
  | cons action actions ih =>
    by_cases subscribes : action = .subscribe
    · subst subscribes
      cases who with
      | zero => exact ⟨[], actions, rfl, rfl⟩
      | succ who =>
        rw [List.count_cons_self] at bound
        obtain ⟨before, rest, rfl, rfl⟩ := ih (Nat.lt_of_succ_lt_succ bound)
        exact ⟨.subscribe :: before, rest, rfl, List.count_cons_self.symm⟩
    · rw [List.count_cons_of_ne subscribes] at bound
      obtain ⟨before, rest, rfl, rfl⟩ := ih bound
      exact ⟨action :: before, rest, rfl, (List.count_cons_of_ne subscribes).symm⟩

/-- What is emitted before a subscription does not count for it. -/
theorem account_subscribed (before rest : List Action) :
    ∃ r', (empty.after (before ++ .subscribe :: rest)).receivers[before.count .subscribe]? = some r' ∧
      Account (before.count .subscribe) .fresh rest
        (received (before.count .subscribe) empty (before ++ .subscribe :: rest)) r' := by
  have tidy : (empty.after before).Tidy := tidy_empty.after before
  have number : (empty.after before).receivers.length = before.count .subscribe :=
    (after_length tidy_empty before).trans (Nat.zero_add _)
  have fresh : ((empty.after before).step .subscribe).receivers[before.count .subscribe]? =
      some .fresh := by
    rw [← number]
    exact List.getElem?_concat_length
  obtain ⟨r', at_end, account⟩ := account_after (tidy.step .subscribe) fresh rest
  rw [after_append, received_append, received_of_unknown tidy_empty (Nat.le_of_eq number)]
  exact ⟨r', at_end, account⟩

/-! ### What the others see -/

/-- Two notifiers are alike but for one receiver. -/
structure Alike (other : Nat) (n n' : Notifier) : Prop where
  length : n.receivers.length = n'.receivers.length
  same : ∀ who, who ≠ other → n.receivers[who]? = n'.receivers[who]?

theorem alike_drop (n : Notifier) (other : Nat) : Alike other (n.drop other) n where
  length := List.length_modify _ _ _
  same who ne := by simp [drop, Ne.symm ne]

theorem Alike.step (h : Alike other n n') (tidy : n.Tidy) (tidy' : n'.Tidy) (action : Action) :
    Alike other (n.step action) (n'.step action) where
  length := by rw [step_length tidy, step_length tidy', h.length]
  same who ne := by
    cases known : n.receivers[who]? with
    | some r =>
      have known' := (h.same who ne).symm.trans known
      rw [step_receivers tidy known, step_receivers tidy' known']
    | none =>
      have beyond := List.getElem?_eq_none_iff.1 known
      rw [step_of_unknown tidy beyond, step_of_unknown tidy' (h.length ▸ beyond), h.length]

theorem Alike.after (h : Alike other n n') (tidy : n.Tidy) (tidy' : n'.Tidy)
    (ne : who ≠ other) (actions : List Action) :
    received who n actions = received who n' actions ∧
      (n.after actions).receivers[who]? = (n'.after actions).receivers[who]? := by
  induction actions generalizing n n' with
  | nil => exact ⟨rfl, h.same who ne⟩
  | cons action actions ih =>
    obtain ⟨seen, waits⟩ := ih (h.step tidy tidy' action) (tidy.step action) (tidy'.step action)
    have given : n.got who action = n'.got who action := by
      cases known : n.receivers[who]? with
      | some r => rw [got_eq known, got_eq ((h.same who ne).symm.trans known)]
      | none =>
        have beyond := List.getElem?_eq_none_iff.1 known
        rw [got_of_unknown beyond, got_of_unknown (h.length ▸ beyond)]
    exact ⟨by rw [received, received, given, seen], waits⟩

/-! ### Counting subscribers -/

theorem countP_reaches (receivers : List Receiver) :
    (List.range receivers.length).countP (reaches receivers) =
      receivers.countP fun r => !r.dropped := by
  induction receivers with
  | nil => rfl
  | cons r receivers ih =>
    have others : reaches (r :: receivers) ∘ Nat.succ = reaches receivers := rfl
    rw [List.length_cons, List.range_succ_eq_map, List.countP_cons, List.countP_map, others, ih,
      List.countP_cons]
    rfl

/-- An emission leaves exactly the numbers of the receivers in use, each of them once. -/
theorem emit_subscriberCount (h : n.Tidy) (what : Notification) :
    (n.emit what).subscriberCount = n.alive := by
  have reached : ∀ who, who ∈ n.subscribers ∧ reaches n.receivers who = true ↔
      who ∈ List.range n.receivers.length ∧ reaches n.receivers who = true := by
    intro who
    refine and_congr_left fun reached => ?_
    obtain ⟨r, at_who, used⟩ := (Option.any_eq_true _ _).1 reached
    have member := h.listed who r at_who (by simpa using used)
    exact ⟨fun _ => List.mem_range.2 (h.known who member), fun _ => member⟩
  have same : (n.subscribers.filter (reaches n.receivers)).Perm
      ((List.range n.receivers.length).filter (reaches n.receivers)) := by
    refine (List.perm_ext_iff_of_nodup (h.distinct.filter _) (List.nodup_range.filter _)).2 ?_
    intro who
    rw [List.mem_filter, List.mem_filter]
    exact reached who
  unfold subscriberCount alive
  rw [emit_subscribers h, same.length_eq, ← List.countP_eq_length_filter, countP_reaches]

theorem after_subscriberCount (h : n.Tidy) (silent : ∀ what, .emit what ∉ actions) :
    (n.after actions).subscriberCount = n.subscriberCount + actions.count .subscribe := by
  induction actions generalizing n with
  | nil => rfl
  | cons action actions ih =>
    have later : (n.after (action :: actions)).subscriberCount = _ :=
      ih (h.step action) fun what member => silent what (List.mem_cons_of_mem _ member)
    have first : (n.step action).subscriberCount =
        n.subscriberCount + if action = .subscribe then 1 else 0 := by
      unfold subscriberCount
      rw [step_subscribers h]
      cases action with
      | subscribe => exact List.length_append
      | emit what => exact absurd (List.mem_cons_self) (silent what)
      | receive who | receiveAll who | drop who => rfl
    rw [later, first, List.count_cons, Nat.add_assoc, Nat.add_comm (actions.count .subscribe)]
    simp only [beq_iff_eq]

/-- However subscriptions, emissions, receipts and drops are mixed, every receiver sees what is
emitted after its subscription, all of it while it is in use, whatever happens to the others. -/
theorem fanout (actions : List Action) :
    (∀ who, who < actions.count .subscribe →
      ∃ before rest r, actions = before ++ .subscribe :: rest ∧ who = before.count .subscribe ∧
        (empty.after actions).receivers[who]? = some r ∧
        (r.dropped = true ↔ .drop who ∈ rest) ∧
        received who empty actions <+: emitted rest ∧
        (r.dropped = false → received who empty actions ++ r.inbox = emitted rest)) ∧
    (∀ before other rest, actions = before ++ .drop other :: rest → ∀ who, who ≠ other →
      received who empty actions = received who empty (before ++ rest) ∧
        (empty.after actions).receivers[who]? = (empty.after (before ++ rest)).receivers[who]?) ∧
    (∀ before what rest, actions = before ++ .emit what :: rest → (∀ what', .emit what' ∉ rest) →
      (empty.after (before ++ [.emit what])).subscriberCount =
          (empty.after (before ++ [.emit what])).alive ∧
        (empty.after actions).subscriberCount =
          (empty.after (before ++ [.emit what])).subscriberCount + rest.count .subscribe) ∧
    ((∀ what, .emit what ∉ actions) →
      (empty.after actions).subscriberCount = actions.count .subscribe) := by
  refine ⟨?_, ?_, ?_, ?_⟩
  · intro who bound
    obtain ⟨before, rest, rfl, rfl⟩ := exists_subscription bound
    obtain ⟨r, at_end, account⟩ := account_subscribed before rest
    refine ⟨before, rest, r, rfl, rfl, at_end, ?_, account.part, account.whole⟩
    exact account.gone.trans (or_iff_right nofun)
  · rintro before other rest rfl who ne
    have tidy : (empty.after before).Tidy := tidy_empty.after before
    obtain ⟨seen, waits⟩ :=
      (alike_drop (empty.after before) other).after (tidy.step (.drop other)) tidy ne rest
    simp only [after_append, received_append]
    exact ⟨congrArg _ seen, waits⟩
  · rintro before what rest rfl silent
    have tidy : (empty.after before).Tidy := tidy_empty.after before
    have last : empty.after (before ++ [.emit what]) = (empty.after before).emit what :=
      after_append _ _ _
    have later : empty.after (before ++ .emit what :: rest) =
        ((empty.after before).emit what).after rest :=
      after_append _ _ _
    rw [last, later, emit_alive tidy]
    exact ⟨emit_subscriberCount tidy what, after_subscriberCount (tidy.step (.emit what)) silent⟩
  · intro silent
    exact (after_subscriberCount tidy_empty silent).trans (Nat.zero_add _)

end Notifier

end Storyline
