import Storyline.Proofs.Agenda.Order

/-!
# The accounts of an agenda

* `Agenda.Accounts`: all that was planned waits or has been taken, in its turn.
* `Agenda.Accounts.take`, `Agenda.Accounts.scheduleAll`: this stays so.
-/

namespace Storyline.Agenda

/-- What was planned, in the order of planning, and what was taken of it, in the order of taking,
against what waits. Of one date the first planned is the first taken. -/
structure Accounts (planned taken : List (Date × Continuation)) (a : Agenda) : Prop where
  complete : planned.Perm (a.toList ++ taken)
  sorted : a.toList.Pairwise fun entry entry' => entry.1 ≤ entry'.1
  inOrder : ∀ date, onDate date planned = onDate date taken ++ onDate date a.toList

theorem accounts_empty : Accounts [] [] empty := ⟨.refl _, .nil, fun _ => rfl⟩

namespace Accounts

variable {planned taken : List (Date × Continuation)} {a : Agenda}

theorem take (h : a.Accounts planned taken) {front : List (Date × Continuation)} {rest : Agenda}
    (split : a.toList = front ++ rest.toList) : rest.Accounts planned (taken ++ front) where
  complete := by
    have complete := h.complete
    rw [split] at complete
    have swapped : (front ++ rest.toList ++ taken).Perm (rest.toList ++ (front ++ taken)) := by
      rw [← List.append_assoc]
      exact List.perm_append_comm.append_right taken
    exact complete.trans (swapped.trans (List.perm_append_comm.append_left rest.toList))
  sorted := by
    have sorted := h.sorted
    rw [split] at sorted
    exact (List.pairwise_append.1 sorted).2.1
  inOrder date := by
    rw [h.inOrder, split, onDate_append, onDate_append, List.append_assoc]

theorem scheduleAll (h : a.Accounts planned taken) (ordered : a.Ordered)
    (entries : List (Date × Continuation)) :
    (a.scheduleAll entries).Accounts (planned ++ entries) taken where
  complete := by
    have before : (planned ++ entries).Perm (a.toList ++ taken ++ entries) :=
      h.complete.append_right entries
    have after : (a.toList ++ entries ++ taken).Perm ((a.scheduleAll entries).toList ++ taken) :=
      (a.scheduleAll_perm entries).symm.append_right taken
    refine before.trans (.trans ?_ after)
    rw [List.append_assoc, List.append_assoc]
    exact List.perm_append_comm.append_left a.toList
  sorted := (ordered.scheduleAll entries).sorted
  inOrder date := by
    rw [onDate_append, h.inOrder, onDate_scheduleAll ordered, List.append_assoc]

end Accounts

end Storyline.Agenda
