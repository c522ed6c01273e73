import Storyline.Proofs.Agenda.Order

/-!
# Agendas as priority queues

Whatever is scheduled and taken, an agenda holds the continuations that wait, sorted by date, and
those of one date in the order in which they were scheduled.

* `Agenda.eq_of_onDate`: entries sorted by date are determined by what they have on each date.
* `Agenda.toList_schedule`, `Agenda.takeDue?_firstDue?`: single uses on the sorted list.
* `Agenda.stable_queue`: the sorted list after any uses, and what they answered.
-/

namespace Storyline

namespace Agenda

/-- What is asked of an agenda. -/
inductive Use where
  | schedule (due : Date) (c : Continuation)
  | take (today : Date)

/-- What an agenda answers, and the agenda afterwards. -/
def use (a : Agenda) : Use → Option (Date × Continuation) × Agenda
  | .schedule due c => (none, a.schedule due c)
  | .take today =>
    match a.takeDue? today with
    | some (entry, rest) => (some entry, rest)
    | none => (none, a)

def useAll (a : Agenda) : List Use → List (Option (Date × Continuation)) × Agenda
  | [] => ([], a)
  | u :: us => ((a.use u).1 :: ((a.use u).2.useAll us).1, ((a.use u).2.useAll us).2)

/-! ## Queues as lists -/

/-- Entries by date, those of one date in the order in which they are given. -/
def byDate (entries : List (Date × Continuation)) : List (Date × Continuation) :=
  entries.mergeSort fun entry entry' => entry.1 ≤ entry'.1

/-- The first of some entries that is due, and the others. -/
def firstDue? (today : Date) :
    List (Date × Continuation) → Option ((Date × Continuation) × List (Date × Continuation))
  | [] => none
  | entry :: entries => if entry.1 ≤ today then some (entry, entries) else none

/-- What is answered if the given entries wait, in the order of scheduling, and what waits then. -/
def useList (pending : List (Date × Continuation)) :
    Use → Option (Date × Continuation) × List (Date × Continuation)
  | .schedule due c => (none, pending ++ [(due, c)])
  | .take today =>
    match firstDue? today (byDate pending) with
    | some (entry, _) => (some entry, pending.eraseP fun other => other.1 = entry.1)
    | none => (none, pending)

def useListAll (pending : List (Date × Continuation)) :
    List Use → List (Option (Date × Continuation)) × List (Date × Continuation)
  | [] => ([], pending)
  | u :: us =>
    ((useList pending u).1 :: (useListAll (useList pending u).2 us).1,
      (useListAll (useList pending u).2 us).2)

/-! ## Sorted entries -/

theorem mem_onDate {date : Date} {entry : Date × Continuation}
    {entries : List (Date × Continuation)} :
    entry ∈ onDate date entries ↔ entry ∈ entries ∧ entry.1 = date := by
  simp [onDate]

theorem onDate_cons_self (entry : Date × Continuation) (entries : List (Date × Continuation)) :
    onDate entry.1 (entry :: entries) = entry :: onDate entry.1 entries := by
  simp [onDate]

theorem onDate_cons_of_ne {date : Date} {entry : Date × Continuation} (other : entry.1 ≠ date)
    (entries : List (Date × Continuation)) :
    onDate date (entry :: entries) = onDate date entries := by
  simp [onDate, other]

theorem onDate_idem (date : Date) (entries : List (Date × Continuation)) :
    onDate date (onDate date entries) = onDate date entries :=
  List.filter_eq_self.2 fun _ mem => by simpa using (mem_onDate.1 mem).2

theorem mem_of_onDate {entry : Date × Continuation} {rest entries : List (Date × Continuation)}
    (same : onDate entry.1 (entry :: rest) = onDate entry.1 entries) : entry ∈ entries := by
  rw [onDate_cons_self] at same
  exact (mem_onDate.1 (same ▸ List.mem_cons_self)).1

theorem first_le {first entry : Date × Continuation} {rest : List (Date × Continuation)}
    (sorted : (first :: rest).Pairwise fun entry entry' => entry.1 ≤ entry'.1)
    (mem : entry ∈ first :: rest) : first.1 ≤ entry.1 := by
  rcases List.mem_cons.1 mem with rfl | mem
  · exact Int.le_refl _
  · exact (List.pairwise_cons.1 sorted).1 entry mem

theorem sorted_of_level {date : Date} {entries : List (Date × Continuation)}
    (level : ∀ entry ∈ entries, entry.1 = date) :
    entries.Pairwise fun entry entry' => entry.1 ≤ entry'.1 := by
  refine List.Pairwise.imp_of_mem ?_ (List.pairwise_of_forall fun _ _ => trivial)
  intro entry entry' mem mem' _
  rw [level entry mem, level entry' mem']
  exact Int.le_refl _

theorem eq_of_onDate {first second : List (Date × Continuation)}
    (sorted : first.Pairwise fun entry entry' => entry.1 ≤ entry'.1)
    (sorted' : second.Pairwise fun entry entry' => entry.1 ≤ entry'.1)
    (same : ∀ date, onDate date first = onDate date second) : first = second := by
  induction first generalizing second with
  | nil =>
    cases second with
    | nil => rfl
    | cons entry' rest' => exact absurd (mem_of_onDate (same entry'.1).symm) List.not_mem_nil
  | cons entry rest ih =>
    cases second with
    | nil => exact absurd (mem_of_onDate (same entry.1)) List.not_mem_nil
    | cons entry' rest' =>
      -- Each head is on the other side as well, where the other head is not later.
      have le' : entry'.1 ≤ entry.1 := first_le sorted' (mem_of_onDate (same entry.1))
      have le : entry.1 ≤ entry'.1 := first_le sorted (mem_of_onDate (same entry'.1).symm)
      have date : entry'.1 = entry.1 := Date.le_antisymm le' le
      have heads := same entry.1
      rw [onDate_cons_self, ← date, onDate_cons_self] at heads
      obtain ⟨rfl, tails⟩ := List.cons.inj heads
      refine congrArg (entry :: ·) (ih sorted.of_cons sorted'.of_cons fun d => ?_)
      by_cases on : entry.1 = d
      · subst on
        exact tails
      · have := same d
        rwa [onDate_cons_of_ne on, onDate_cons_of_ne on] at this

theorem byDate_perm (entries : List (Date × Continuation)) : (byDate entries).Perm entries :=
  List.mergeSort_perm ..

theorem before_trans (a b c : Date × Continuation) (h : decide (a.1 ≤ b.1) = true)
    (h' : decide (b.1 ≤ c.1) = true) : decide (a.1 ≤ c.1) = true :=
  decide_eq_true (Int.le_trans (of_decide_eq_true h) (of_decide_eq_true h'))

theorem before_total (a b : Date × Continuation) :
    (decide (a.1 ≤ b.1) || decide (b.1 ≤ a.1)) = true := by
  rw [Bool.or_eq_true, decide_eq_true_eq, decide_eq_true_eq]
  exact Int.le_total a.1.day b.1.day

theorem byDate_sorted (entries : List (Date × Continuation)) :
    (byDate entries).Pairwise fun entry entry' => entry.1 ≤ entry'.1 :=
  (List.pairwise_mergeSort before_trans before_total entries).imp of_decide_eq_true

theorem onDate_byDate (date : Date) (entries : List (Date × Continuation)) :
    onDate date (byDate entries) = onDate date entries := by
  have level : (onDate date entries).Pairwise fun entry entry' =>
      decide (entry.1 ≤ entry'.1) = true :=
    (sorted_of_level fun _ mem => (mem_onDate.1 mem).2).imp decide_eq_true
  have kept : (onDate date entries).Sublist (byDate entries) :=
    List.sublist_mergeSort before_trans before_total level List.filter_sublist
  have within : (onDate date entries).Sublist (onDate date (byDate entries)) := by
    have := kept.filter fun entry => entry.1 = date
    rwa [← onDate, ← onDate, onDate_idem] at this
  exact (within.eq_of_length ((byDate_perm entries).filter _).length_eq.symm).symm

theorem onDate_filter (p : Date → Bool) (date : Date) (entries : List (Date × Continuation)) :
    onDate date (entries.filter fun entry => p entry.1) =
      if p date then onDate date entries else [] := by
  rw [onDate, List.filter_filter]
  split
  · rename_i kept
    refine List.filter_congr fun entry _ => ?_
    by_cases on : entry.1 = date <;> simp [on, kept]
  · rename_i dropped
    refine List.filter_eq_nil_iff.2 fun entry _ => ?_
    by_cases on : entry.1 = date <;> simp [on, dropped]

/-- Some entries of one day among others: behind those that are not later, before those that are. -/
def splice (today : Date) (entries middle : List (Date × Continuation)) :
    List (Date × Continuation) :=
  (entries.filter fun entry => entry.1 ≤ today) ++
    (middle ++ entries.filter fun entry => today < entry.1)

section Splice

variable {today : Date} {entries middle : List (Date × Continuation)}

theorem splice_sorted (sorted : entries.Pairwise fun entry entry' => entry.1 ≤ entry'.1)
    (level : ∀ entry ∈ middle, entry.1 = today) :
    (splice today entries middle).Pairwise fun entry entry' => entry.1 ≤ entry'.1 := by
  have early : ∀ entry ∈ entries.filter fun entry => entry.1 ≤ today, entry.1 ≤ today :=
    fun entry mem => by simpa using (List.mem_filter.1 mem).2
  have late : ∀ entry ∈ entries.filter fun entry => today < entry.1, today ≤ entry.1 := by
    intro entry mem
    have later : today < entry.1 := by simpa using (List.mem_filter.1 mem).2
    exact Int.le_of_lt later
  refine List.pairwise_append.2 ⟨sorted.filter _,
    List.pairwise_append.2 ⟨sorted_of_level level, sorted.filter _, ?_⟩, ?_⟩
  · intro entry mem entry' mem'
    rw [level entry mem]
    exact late entry' mem'
  · intro entry mem entry' mem'
    refine Int.le_trans (early entry mem) ?_
    rcases List.mem_append.1 mem' with mem' | mem'
    · exact (level entry' mem').symm ▸ Int.le_refl _
    · exact late entry' mem'

theorem onDate_splice (level : ∀ entry ∈ middle, entry.1 = today) (date : Date) :
    onDate date (splice today entries middle) = onDate date entries ++ onDate date middle := by
  rw [splice, onDate_append, onDate_append, onDate_filter (fun d => d ≤ today),
    onDate_filter (fun d => today < d)]
  by_cases on : date ≤ today
  · simp [on, Date.not_lt.2 on]
  · have none : onDate date middle = [] :=
      onDate_eq_nil fun entry mem same => on (same ▸ level entry mem ▸ Int.le_refl _)
    simp [on, Date.not_le.1 on, none]

end Splice

/-! ## Single uses -/

theorem countOn_eq {a : Agenda} (h : a.Ordered) (date : Date) :
    a.countOn date = (onDate date a.toList).length := by
  obtain ⟨buckets⟩ := a
  induction buckets with
  | nil => rfl
  | cons bucket rest ih =>
    obtain ⟨d, cs⟩ := bucket
    have first := (List.pairwise_cons.1 h.ascending).1
    rw [toList_cons, onDate_append, List.length_append]
    by_cases on : d = date
    · subst on
      have all : onDate d (cs.map (d, ·)) = cs.map (d, ·) :=
        List.filter_eq_self.2 (by simp)
      rw [onDate_eq_nil (ne_of_mem_toList first), all]
      simp [countOn]
    · have none : onDate date (cs.map (d, ·)) = [] :=
        onDate_eq_nil (by simpa using fun _ _ => on)
      have other : (date == d) = false := by simpa using fun same => on same.symm
      rw [none, ← ih h.tail]
      simp [countOn, List.lookup_cons, other]

theorem length_eq (a : Agenda) : a.length = a.toList.length := by
  obtain ⟨buckets⟩ := a
  induction buckets with
  | nil => rfl
  | cons bucket rest ih =>
    rw [toList_cons, List.length_append, List.length_map, ← ih]
    rfl

theorem isEmpty_iff {a : Agenda} (h : a.Ordered) : a.isEmpty ↔ a.length = 0 := by
  obtain ⟨buckets⟩ := a
  cases buckets with
  | nil => exact iff_of_true rfl rfl
  | cons bucket rest =>
    have filled : bucket.2 ≠ [] := h.filled bucket List.mem_cons_self
    have positive : 0 < bucket.2.length := List.length_pos_iff.2 filled
    refine iff_of_false Bool.false_ne_true fun zero => ?_
    rw [length, List.foldr_cons] at zero
    omega

theorem toList_schedule {a : Agenda} (h : a.Ordered) (due : Date) (c : Continuation) :
    (a.schedule due c).toList = splice due a.toList [(due, c)] := by
  have level : ∀ entry ∈ [(due, c)], entry.1 = due := by simp
  refine eq_of_onDate (h.schedule due c).sorted (splice_sorted h.sorted level) fun date => ?_
  rw [onDate_schedule h, onDate_splice level]

theorem takeDue?_firstDue? {a : Agenda} (h : a.Ordered) (today : Date) :
    (a.takeDue? today).map (Prod.map id toList) = firstDue? today a.toList := by
  cases taken : a.takeDue? today with
  | none =>
    have later := (takeDue?_eq_none_iff h).1 taken
    cases waiting : a.toList with
    | nil => rfl
    | cons entry entries =>
      have first := later entry (waiting ▸ List.mem_cons_self)
      rw [firstDue?, if_neg (Date.not_le.2 first)]
      rfl
  | some result =>
    obtain ⟨⟨due, c⟩, rest⟩ := result
    rw [takeDue?_toList taken, firstDue?, if_pos (le_of_takeDue? taken)]
    rfl

theorem splice_nil {a : Agenda} (h : a.Ordered) (today : Date) :
    splice today a.toList [] = a.toList := by
  have level : ∀ entry ∈ ([] : List (Date × Continuation)), entry.1 = today := by simp
  refine eq_of_onDate (splice_sorted h.sorted level) h.sorted fun date => ?_
  rw [onDate_splice level, onDate_nil, List.append_nil]

/-- Taking again and again gives what is due, in order, and leaves the rest. -/
theorem useAll_take {a : Agenda} (h : a.Ordered) (today : Date) (n : Nat) :
    (a.useAll (List.replicate n (.take today))).1 =
        ((a.toList.filter fun entry => entry.1 ≤ today).take n).map some ++
          List.replicate (n - (a.toList.filter fun entry => entry.1 ≤ today).length) none ∧
      (a.useAll (List.replicate n (.take today))).2.toList =
        (a.toList.filter fun entry => entry.1 ≤ today).drop n ++
          a.toList.filter fun entry => today < entry.1 := by
  induction n generalizing a with
  | zero => exact ⟨by simp [useAll], (splice_nil h today).symm⟩
  | succ n ih =>
    cases taken : a.takeDue? today with
    | none =>
      have later := (takeDue?_eq_none_iff h).1 taken
      have none : (a.toList.filter fun entry => entry.1 ≤ today) = [] :=
        List.filter_eq_nil_iff.2 fun entry mem => by simpa using Date.not_le.2 (later entry mem)
      have same : a.use (.take today) = (Option.none, a) := by simp [use, taken]
      have ih := ih h
      rw [none] at ih ⊢
      rw [List.replicate_succ, useAll, same]
      exact ⟨by simp [ih.1, List.replicate_succ], by simp [ih.2]⟩
    | some result =>
      obtain ⟨⟨due, c⟩, rest⟩ := result
      have notLater := le_of_takeDue? taken
      have same : a.use (.take today) = (some (due, c), rest) := by simp [use, taken]
      have ih := ih (h.takeDue? taken)
      rw [List.replicate_succ, useAll, same, takeDue?_toList taken,
        List.filter_cons_of_pos (by simpa using notLater),
        List.filter_cons_of_neg (by simpa using Date.not_lt.2 notLater)]
      exact ⟨by simp [ih.1], by simp [ih.2]⟩

/-! ## All uses -/

theorem onDate_eraseP {pending rest : List (Date × Continuation)} {entry : Date × Continuation}
    (first : onDate entry.1 pending = entry :: rest) (date : Date) :
    onDate date (pending.eraseP fun other => other.1 = entry.1) =
      if date = entry.1 then rest else onDate date pending := by
  induction pending with
  | nil => contradiction
  | cons other others ih =>
    by_cases on : other.1 = entry.1
    · rw [List.eraseP_cons_of_pos (by simpa using on)]
      rw [← on, onDate_cons_self, on] at first
      obtain ⟨rfl, rfl⟩ := List.cons.inj first
      split
      · rename_i same
        rw [same]
      · rename_i different
        rw [onDate_cons_of_ne (Ne.symm different)]
    · rw [onDate_cons_of_ne on] at first
      rw [List.eraseP_cons_of_neg (by simpa using on)]
      by_cases same : other.1 = date
      · subst same
        rw [onDate_cons_self, ih first, if_neg on, if_neg on, onDate_cons_self]
      · rw [onDate_cons_of_ne same, onDate_cons_of_ne same, ih first]

/-- An agenda holds what waits, given in the order of scheduling. -/
structure Keeps (a : Agenda) (pending : List (Date × Continuation)) : Prop where
  ordered : a.Ordered
  same : ∀ date, onDate date a.toList = onDate date pending

theorem keeps_empty : empty.Keeps [] := ⟨ordered_empty, fun _ => rfl⟩

namespace Keeps

variable {a : Agenda} {pending : List (Date × Continuation)}

theorem toList_eq (h : a.Keeps pending) : a.toList = byDate pending := by
  refine eq_of_onDate h.ordered.sorted (byDate_sorted pending) fun date => ?_
  rw [h.same, onDate_byDate]

theorem use (h : a.Keeps pending) (u : Use) :
    (a.use u).1 = (useList pending u).1 ∧ (a.use u).2.Keeps (useList pending u).2 := by
  cases u with
  | schedule due c =>
    refine ⟨rfl, h.ordered.schedule due c, fun date => ?_⟩
    show onDate date (a.schedule due c).toList = onDate date (pending ++ [(due, c)])
    rw [onDate_schedule h.ordered, h.same, onDate_append]
  | take today =>
    have first := takeDue?_firstDue? h.ordered today
    rw [h.toList_eq] at first
    cases taken : a.takeDue? today with
    | none =>
      rw [taken, Option.map_none] at first
      rw [Agenda.use, taken, useList, ← first]
      exact ⟨rfl, h⟩
    | some result =>
      obtain ⟨entry, rest⟩ := result
      rw [taken, Option.map_some] at first
      rw [Agenda.use, taken, useList, ← first]
      refine ⟨rfl, h.ordered.takeDue? taken, fun date => ?_⟩
      have waiting := takeDue?_toList taken
      have front : onDate entry.1 pending = entry :: onDate entry.1 rest.toList := by
        rw [← h.same, waiting, onDate_cons_self]
      show onDate date rest.toList = onDate date (pending.eraseP fun other => other.1 = entry.1)
      rw [onDate_eraseP front]
      split
      · rename_i same
        rw [same]
      · rename_i different
        rw [← h.same, waiting, onDate_cons_of_ne (Ne.symm different)]

theorem useAll (h : a.Keeps pending) (uses : List Use) :
    (a.useAll uses).1 = (useListAll pending uses).1 ∧
      (a.useAll uses).2.Keeps (useListAll pending uses).2 := by
  induction uses generalizing a pending with
  | nil => exact ⟨rfl, h⟩
  | cons u us ih =>
    obtain ⟨answer, keeps⟩ := h.use u
    obtain ⟨answers, keeps⟩ := ih keeps
    refine ⟨?_, keeps⟩
    rw [Agenda.useAll, useListAll, answer, answers]

end Keeps

/-- After any uses an agenda has answered as the list of what waits does, sorted by date and stably
so; and so it will. -/
theorem stable_queue (uses : List Use) :
    (empty.useAll uses).1 = (useListAll [] uses).1 ∧
      let a := (empty.useAll uses).2
      let pending := (useListAll [] uses).2
      a.toList = byDate pending ∧ a.Ordered ∧
        (∀ due c, (a.schedule due c).toList =
          (a.toList.filter fun entry => entry.1 ≤ due) ++
            (due, c) :: a.toList.filter fun entry => due < entry.1) ∧
        (∀ today, (a.takeDue? today).map (Prod.map id toList) = firstDue? today a.toList) ∧
        (∀ date, a.countOn date = (onDate date pending).length) ∧
        a.length = pending.length ∧ (a.isEmpty ↔ a.length = 0) ∧
        ∀ today n,
          let due := a.toList.filter fun entry => entry.1 ≤ today
          let taken := a.useAll (List.replicate n (.take today))
          taken.1 = (due.take n).map some ++ List.replicate (n - due.length) none ∧
            taken.2.toList = due.drop n ++ a.toList.filter fun entry => today < entry.1 := by
  obtain ⟨answers, keeps⟩ := keeps_empty.useAll uses
  have ordered := keeps.ordered
  refine ⟨answers, keeps.toList_eq, ordered, toList_schedule ordered, takeDue?_firstDue? ordered,
    fun date => ?_, ?_, isEmpty_iff ordered, useAll_take ordered⟩
  · rw [countOn_eq ordered, keeps.same]
  · rw [length_eq, keeps.toList_eq]
    exact (byDate_perm _).length_eq

end Agenda

end Storyline
