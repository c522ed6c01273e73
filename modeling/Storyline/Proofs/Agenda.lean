import Storyline.Agenda

/-!
# Agendas as lists

What waits after a continuation was scheduled, and after one was taken.

* `Agenda.schedule_perm`: exactly the new continuation is added.
* `Agenda.takeDue?_toList`: exactly the one in front is taken.
-/

namespace Storyline.Agenda

@[simp] theorem toList_empty : empty.toList = [] := rfl

theorem insert_perm (date : Date) (c : Continuation) (buckets : List (Date × List Continuation)) :
    (toList ⟨insert date c buckets⟩).Perm ((date, c) :: toList ⟨buckets⟩) := by
  induction buckets with
  | nil => exact .refl _
  | cons bucket rest ih =>
    obtain ⟨d, cs⟩ := bucket
    unfold insert
    split
    · exact .refl _
    · split
      · rename_i same
        subst same
        simp [toList]
      · simp only [toList, List.flatMap_cons] at ih ⊢
        exact (ih.append_left _).trans List.perm_middle

/-- Exactly the new continuation is added. -/
theorem schedule_perm (a : Agenda) (date : Date) (c : Continuation) :
    (a.schedule date c).toList.Perm ((date, c) :: a.toList) :=
  insert_perm date c a.buckets

theorem mem_schedule {a : Agenda} {date : Date} {c : Continuation} {entry : Date × Continuation} :
    entry ∈ (a.schedule date c).toList ↔ entry = (date, c) ∨ entry ∈ a.toList := by
  rw [(a.schedule_perm date c).mem_iff, List.mem_cons]

theorem mem_scheduleAll {a : Agenda} {entries : List (Date × Continuation)}
    {entry : Date × Continuation} :
    entry ∈ (entries.foldl (fun agenda (due, c) => agenda.schedule due c) a).toList ↔
      entry ∈ entries ∨ entry ∈ a.toList := by
  induction entries generalizing a with
  | nil => simp
  | cons e es ih =>
    rw [List.foldl_cons, ih, mem_schedule, List.mem_cons]
    grind

/-- Exactly the one in front is taken. -/
theorem takeDue?_toList {a rest : Agenda} {today : Date} {entry : Date × Continuation}
    (h : a.takeDue? today = some (entry, rest)) : a.toList = entry :: rest.toList := by
  obtain ⟨buckets⟩ := a
  unfold takeDue? at h
  split at h
  · rename_i date c cs others front
    split at h
    · contradiction
    · obtain ⟨rfl, rfl⟩ := Prod.mk.inj (Option.some.inj h)
      obtain rfl : buckets = (date, c :: cs) :: others := front
      cases cs <;> simp [toList]
  · contradiction

end Storyline.Agenda
