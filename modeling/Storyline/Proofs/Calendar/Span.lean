import Storyline.Calendar.Date

/-!
# Days in a row

* `Date.span`: the days after one date up to another.
* `Date.mem_span`, `Date.span_succ`, `Date.span_prefix`: which days these are, and their order.
-/

namespace Storyline.Date

/-- The days after one date up to another, in order. -/
def span (first last : Date) : List Date :=
  (List.range (last.day - first.day).toNat).filterMap fun n : Nat => first.addDays? (n + 1)

theorem map_day_filterMap (first last : Date) {n : Nat} (bound : first.day + n ≤ last.day) :
    ((List.range n).filterMap fun n : Nat => first.addDays? (n + 1)).map Date.day =
      (List.range n).map fun n : Nat => first.day + 1 + n := by
  induction n with
  | zero => rfl
  | succ n ih =>
    have lower := first.first_le
    have upper := last.le_last
    have next : first.addDays? (n + 1) =
        some ⟨first.day + (n + 1), by omega, by omega⟩ :=
      addDays?_eq_some_iff.2 rfl
    rw [List.range_succ, List.filterMap_append, List.map_append, List.map_append,
      ih (by omega)]
    simp only [List.filterMap_cons, next, List.filterMap_nil, List.map_cons, List.map_nil]
    congr 2
    omega

/-- The days of a span are numbered without a gap. -/
theorem map_day_span {first last : Date} (h : first ≤ last) :
    (first.span last).map Date.day =
      (List.range (last.day - first.day).toNat).map fun n : Nat => first.day + 1 + n := by
  have h : first.day ≤ last.day := h
  exact map_day_filterMap first last (by omega)

theorem length_span {first last : Date} (h : first ≤ last) :
    (first.span last).length = (last.day - first.day).toNat := by
  have same := congrArg List.length (map_day_span h)
  simpa using same

theorem span_self (date : Date) : date.span date = [] := by
  simp [span]

theorem span_succ {first last next : Date} (h : first ≤ last) (day : next.day = last.day + 1) :
    first.span next = first.span last ++ [next] := by
  have h : first.day ≤ last.day := h
  have count : (next.day - first.day).toNat = (last.day - first.day).toNat + 1 := by omega
  have found : first.addDays? ((last.day - first.day).toNat + 1) = some next :=
    addDays?_eq_some_iff.2 (by omega)
  rw [span, count, List.range_succ, List.filterMap_append]
  simp only [List.filterMap_cons, found, List.filterMap_nil]
  rfl

theorem span_prefix (first : Date) {middle last : Date} (h : middle ≤ last) :
    first.span middle <+: first.span last := by
  have h : middle.day ≤ last.day := h
  obtain ⟨n, count⟩ := Nat.le.dest (show (middle.day - first.day).toNat ≤
    (last.day - first.day).toNat by omega)
  rw [span, span, ← count, List.range_add, List.filterMap_append]
  exact List.prefix_append _ _

theorem mem_span {first last date : Date} (h : first ≤ last) :
    date ∈ first.span last ↔ first < date ∧ date ≤ last := by
  have h : first.day ≤ last.day := h
  show _ ↔ first.day < date.day ∧ date.day ≤ last.day
  rw [span, List.mem_filterMap]
  constructor
  · rintro ⟨n, among, found⟩
    rw [List.mem_range] at among
    rw [addDays?_eq_some_iff] at found
    omega
  · rintro ⟨after, upto⟩
    refine ⟨(date.day - first.day - 1).toNat, ?_, ?_⟩
    · rw [List.mem_range]
      omega
    · rw [addDays?_eq_some_iff]
      omega

end Storyline.Date
