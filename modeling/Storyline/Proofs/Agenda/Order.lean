import Storyline.Proofs.Agenda

/-!
# The order of an agenda

An agenda keeps its continuations by date, and those of one date in the order in which they came.

* `Agenda.Ordered`: the dates of an agenda ascend, and for each of them something waits.
* `Agenda.onDate_schedule`: what is scheduled comes behind all that waits for its date.
* `Agenda.takeDue?_eq_none_iff`: nothing is due exactly if all dates are later.
-/

namespace Storyline

namespace Date

theorem lt_trans {a b c : Date} (h : a < b) (h' : b < c) : a < c :=
  Int.lt_trans h h'

theorem lt_of_not_lt_of_ne {a b : Date} (h : ¬ a < b) (other : a ≠ b) : b < a := by
  obtain ⟨a, _, _⟩ := a
  obtain ⟨b, _, _⟩ := b
  have h : ¬ a < b := h
  have other : a ≠ b := fun same => other (by subst same; rfl)
  show b < a
  omega

theorem not_le {a b : Date} : ¬ a ≤ b ↔ b < a :=
  Int.not_le

theorem not_lt {a b : Date} : ¬ a < b ↔ b ≤ a :=
  Int.not_lt

theorem le_antisymm {a b : Date} (h : a ≤ b) (h' : b ≤ a) : a = b := by
  obtain ⟨a, _, _⟩ := a
  obtain ⟨b, _, _⟩ := b
  obtain rfl : a = b := Int.le_antisymm h h'
  rfl

end Date

namespace Agenda

def onDate (date : Date) (entries : List (Date × Continuation)) : List (Date × Continuation) :=
  entries.filter fun entry => entry.1 = date

@[simp] theorem onDate_nil (date : Date) : onDate date [] = [] := rfl

@[simp] theorem onDate_append (date : Date) (first second : List (Date × Continuation)) :
    onDate date (first ++ second) = onDate date first ++ onDate date second :=
  List.filter_append ..

theorem onDate_eq_nil {date : Date} {entries : List (Date × Continuation)}
    (other : ∀ entry ∈ entries, entry.1 ≠ date) : onDate date entries = [] := by
  apply List.filter_eq_nil_iff.2
  intro entry mem
  simpa using other entry mem

structure Ordered (a : Agenda) : Prop where
  ascending : a.buckets.Pairwise fun b b' => b.1 < b'.1
  filled : ∀ b ∈ a.buckets, b.2 ≠ []

theorem ordered_empty : empty.Ordered := ⟨.nil, by simp [empty]⟩

theorem mem_toList {a : Agenda} {date : Date} {c : Continuation} :
    (date, c) ∈ a.toList ↔ ∃ cs, (date, cs) ∈ a.buckets ∧ c ∈ cs := by
  simp only [toList, List.mem_flatMap, List.mem_map, Prod.mk.injEq]
  constructor
  · rintro ⟨⟨d, cs⟩, bucket, c', mem, rfl, rfl⟩
    exact ⟨cs, bucket, mem⟩
  · rintro ⟨cs, bucket, mem⟩
    exact ⟨(date, cs), bucket, c, mem, rfl, rfl⟩

theorem toList_cons (date : Date) (cs : List Continuation) (rest : List (Date × List Continuation)) :
    toList ⟨(date, cs) :: rest⟩ = cs.map (date, ·) ++ toList ⟨rest⟩ := rfl

/-! ## Scheduling -/

theorem date_of_mem_insert {date : Date} {c : Continuation}
    {buckets : List (Date × List Continuation)} {b : Date × List Continuation}
    (mem : b ∈ insert date c buckets) : b.1 = date ∨ ∃ b' ∈ buckets, b'.1 = b.1 := by
  induction buckets with
  | nil =>
    obtain rfl := List.mem_singleton.1 mem
    exact .inl rfl
  | cons bucket rest ih =>
    unfold insert at mem
    split at mem
    · rcases List.mem_cons.1 mem with rfl | old
      · exact .inl rfl
      · exact .inr ⟨b, old, rfl⟩
    · split at mem
      · rcases List.mem_cons.1 mem with rfl | old
        · exact .inr ⟨_, List.mem_cons_self, rfl⟩
        · exact .inr ⟨b, List.mem_cons_of_mem _ old, rfl⟩
      · rcases List.mem_cons.1 mem with rfl | new
        · exact .inr ⟨_, List.mem_cons_self, rfl⟩
        · rcases ih new with same | ⟨b', old, same⟩
          · exact .inl same
          · exact .inr ⟨b', List.mem_cons_of_mem _ old, same⟩

theorem Ordered.schedule {a : Agenda} (h : a.Ordered) (date : Date) (c : Continuation) :
    (a.schedule date c).Ordered := by
  obtain ⟨buckets⟩ := a
  obtain ⟨ascending, filled⟩ := h
  show Ordered ⟨insert date c buckets⟩
  induction buckets with
  | nil => exact ⟨List.pairwise_singleton _ _, by simp [insert]⟩
  | cons bucket rest ih =>
    obtain ⟨d, cs⟩ := bucket
    obtain ⟨first, ascending⟩ := List.pairwise_cons.1 ascending
    obtain ⟨nonempty, filled⟩ := List.forall_mem_cons.1 filled
    -- The date goes before all others, is the first of them, or finds its place further back.
    unfold insert
    split
    · rename_i before
      refine ⟨.cons ?_ (.cons first ascending), ?_⟩
      · rintro b (_ | ⟨_, mem⟩)
        · exact before
        · exact Date.lt_trans before (first b mem)
      · simpa using ⟨nonempty, fun d cs mem => filled (d, cs) mem⟩
    · rename_i notBefore
      split
      · exact ⟨.cons first ascending, by simpa using fun d cs mem => filled (d, cs) mem⟩
      · rename_i other
        obtain ⟨ascending', filled'⟩ := ih ascending filled
        refine ⟨.cons ?_ ascending', ?_⟩
        · intro b mem
          rcases date_of_mem_insert mem with same | ⟨b', old, same⟩
          · rw [same]
            exact Date.lt_of_not_lt_of_ne notBefore other
          · rw [← same]
            exact first b' old
        · exact List.forall_mem_cons.2 ⟨nonempty, filled'⟩

theorem ne_of_mem_toList {date : Date} {rest : List (Date × List Continuation)}
    (later : ∀ b ∈ rest, date < b.1) : ∀ entry ∈ toList ⟨rest⟩, entry.1 ≠ date := by
  rintro ⟨d, c⟩ mem rfl
  obtain ⟨cs, bucket, -⟩ := mem_toList.1 mem
  exact Int.lt_irrefl _ (later _ bucket)

/-- What is scheduled comes behind all that waits for its date, and leaves other dates alone. -/
theorem onDate_schedule {a : Agenda} (h : a.Ordered) (due : Date) (c : Continuation)
    (date : Date) :
    onDate date (a.schedule due c).toList = onDate date a.toList ++ onDate date [(due, c)] := by
  obtain ⟨buckets⟩ := a
  have ascending : buckets.Pairwise _ := h.ascending
  show onDate date (toList ⟨insert due c buckets⟩) = _
  clear h
  induction buckets with
  | nil => rfl
  | cons bucket rest ih =>
    obtain ⟨d, cs⟩ := bucket
    obtain ⟨first, ascending⟩ := List.pairwise_cons.1 ascending
    -- In the first two cases nothing behind the bucket waits for the same date.
    unfold insert
    split
    · rename_i before
      have later : ∀ b ∈ (d, cs) :: rest, due < b.1 :=
        List.forall_mem_cons.2 ⟨before, fun b mem => Date.lt_trans before (first b mem)⟩
      have others := ne_of_mem_toList later
      have front : toList ⟨(due, [c]) :: (d, cs) :: rest⟩ =
          [(due, c)] ++ toList ⟨(d, cs) :: rest⟩ := rfl
      rw [front, onDate_append]
      by_cases same : due = date
      · subst same
        rw [onDate_eq_nil others, List.append_nil, List.nil_append]
      · have none : onDate date [(due, c)] = [] := onDate_eq_nil (by simpa using same)
        rw [none, List.append_nil, List.nil_append]
    · split
      · rename_i same
        subst same
        have others := ne_of_mem_toList first
        simp only [toList_cons, List.map_append, List.map_cons, List.map_nil, onDate_append,
          List.append_assoc]
        by_cases same : due = date
        · subst same
          rw [onDate_eq_nil others, List.append_nil, List.nil_append]
        · have none : onDate date [(due, c)] = [] := onDate_eq_nil (by simpa using same)
          rw [none, List.append_nil, List.nil_append]
      · rw [toList_cons, toList_cons, onDate_append, onDate_append, ih ascending,
          List.append_assoc]

/-! ## Many at once -/

def scheduleAll (a : Agenda) (entries : List (Date × Continuation)) : Agenda :=
  entries.foldl (fun agenda (due, c) => agenda.schedule due c) a

@[simp] theorem scheduleAll_nil (a : Agenda) : a.scheduleAll [] = a := rfl

theorem scheduleAll_cons (a : Agenda) (due : Date) (c : Continuation)
    (entries : List (Date × Continuation)) :
    a.scheduleAll ((due, c) :: entries) = (a.schedule due c).scheduleAll entries := rfl

theorem scheduleAll_append (a : Agenda) (first second : List (Date × Continuation)) :
    a.scheduleAll (first ++ second) = (a.scheduleAll first).scheduleAll second :=
  List.foldl_append

theorem Ordered.scheduleAll {a : Agenda} (h : a.Ordered) (entries : List (Date × Continuation)) :
    (a.scheduleAll entries).Ordered := by
  induction entries generalizing a with
  | nil => exact h
  | cons entry entries ih => exact ih (h.schedule entry.1 entry.2)

theorem scheduleAll_perm (a : Agenda) (entries : List (Date × Continuation)) :
    (a.scheduleAll entries).toList.Perm (a.toList ++ entries) := by
  induction entries generalizing a with
  | nil => simp
  | cons entry entries ih =>
    have first := a.schedule_perm entry.1 entry.2
    exact (ih _).trans ((first.append_right entries).trans List.perm_middle.symm)

theorem onDate_scheduleAll {a : Agenda} (h : a.Ordered) (entries : List (Date × Continuation))
    (date : Date) :
    onDate date (a.scheduleAll entries).toList = onDate date a.toList ++ onDate date entries := by
  induction entries generalizing a with
  | nil => simp
  | cons entry entries ih =>
    have split : onDate date (entry :: entries) = onDate date [entry] ++ onDate date entries :=
      onDate_append date [entry] entries
    rw [scheduleAll_cons, ih (h.schedule entry.1 entry.2), onDate_schedule h, split,
      List.append_assoc]

/-! ## What is due -/

theorem Ordered.sorted {a : Agenda} (h : a.Ordered) :
    a.toList.Pairwise fun entry entry' => entry.1 ≤ entry'.1 := by
  obtain ⟨buckets⟩ := a
  have ascending : buckets.Pairwise _ := h.ascending
  clear h
  induction buckets with
  | nil => exact .nil
  | cons bucket rest ih =>
    obtain ⟨d, cs⟩ := bucket
    obtain ⟨first, ascending⟩ := List.pairwise_cons.1 ascending
    rw [toList_cons, List.pairwise_append]
    refine ⟨?_, ih ascending, ?_⟩
    · rw [List.pairwise_map]
      exact List.pairwise_of_forall (fun _ _ => Int.le_refl _)
    · rintro entry mem ⟨d', c'⟩ mem'
      obtain ⟨c, -, rfl⟩ := List.mem_map.1 mem
      obtain ⟨cs', bucket, -⟩ := mem_toList.1 mem'
      exact Int.le_of_lt (first _ bucket)

theorem Ordered.tail {b : Date × List Continuation} {rest : List (Date × List Continuation)}
    (h : Ordered ⟨b :: rest⟩) : Ordered ⟨rest⟩ :=
  ⟨(List.pairwise_cons.1 h.ascending).2, (List.forall_mem_cons.1 h.filled).2⟩

theorem Ordered.takeDue? {a rest : Agenda} {today : Date} {entry : Date × Continuation}
    (h : a.Ordered) (taken : a.takeDue? today = some (entry, rest)) : rest.Ordered := by
  obtain ⟨buckets⟩ := a
  unfold Agenda.takeDue? at taken
  split at taken
  · rename_i date c cs others front
    obtain rfl : buckets = (date, c :: cs) :: others := front
    split at taken
    · contradiction
    · obtain ⟨-, rfl⟩ := Prod.mk.inj (Option.some.inj taken)
      cases cs with
      | nil => exact h.tail
      | cons c' cs =>
        obtain ⟨first, ascending⟩ := List.pairwise_cons.1 h.ascending
        exact ⟨.cons first ascending, List.forall_mem_cons.2 ⟨by simp, h.tail.filled⟩⟩
  · contradiction

theorem le_of_takeDue? {a rest : Agenda} {today due : Date} {c : Continuation}
    (taken : a.takeDue? today = some ((due, c), rest)) : due ≤ today := by
  unfold Agenda.takeDue? at taken
  split at taken
  · split at taken
    · contradiction
    · rename_i notLater
      obtain ⟨same, -⟩ := Prod.mk.inj (Option.some.inj taken)
      obtain ⟨rfl, -⟩ := Prod.mk.inj same
      exact Int.not_lt.1 notLater
  · contradiction

/-- Nothing is due exactly if all dates are later. -/
theorem takeDue?_eq_none_iff {a : Agenda} (h : a.Ordered) {today : Date} :
    a.takeDue? today = none ↔ ∀ entry ∈ a.toList, today < entry.1 := by
  constructor
  · intro none entry mem
    obtain ⟨buckets⟩ := a
    obtain ⟨ascending, filled⟩ := h
    cases buckets with
    | nil => exact absurd mem List.not_mem_nil
    | cons bucket rest =>
      obtain ⟨d, cs⟩ := bucket
      cases cs with
      | nil => exact absurd rfl (filled _ List.mem_cons_self)
      | cons c cs =>
        have later : today < d := by
          simpa [Agenda.takeDue?] using none
        obtain ⟨first, -⟩ := List.pairwise_cons.1 ascending
        obtain ⟨d', c'⟩ := entry
        obtain ⟨cs', bucket, -⟩ := mem_toList.1 mem
        rcases List.mem_cons.1 bucket with same | bucket
        · obtain ⟨rfl, -⟩ := Prod.mk.inj same
          exact later
        · exact Date.lt_trans later (first _ bucket)
  · intro later
    cases taken : a.takeDue? today with
    | none => rfl
    | some result =>
      obtain ⟨⟨due, c⟩, rest⟩ := result
      have mem : (due, c) ∈ a.toList := by
        rw [takeDue?_toList taken]
        exact List.mem_cons_self
      exact absurd (later _ mem) (Int.not_lt.2 (le_of_takeDue? taken))

end Agenda

end Storyline
