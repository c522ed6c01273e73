import Mathlib.Data.List.ReduceOption
import Storyline.Proofs.Json.Decoding

/-!
# Members in another order

An object is taken under a condition on its members that does not speak of their order, and members
that it is not asked for are passed over wherever they stand.

* `Rearranged`: members in any order, with further ones among them.
* `Replaced`: members in their order, with other values.
* `Sound`: the members that are taken, `checkMembers_eq_ok_iff` and `checkApart_eq_ok_iff`.
* `Sound.rearranged`, `Sound.member?_rearranged`: rearranged members are taken as well, and the same
  values are found among them.
-/

namespace Storyline.Json

theorem bind_eq_ok {ε α β : Type} {x : Except ε α} {f : α → Except ε β} {b : β} :
    x >>= f = .ok b ↔ ∃ a, x = .ok a ∧ f a = .ok b := by
  cases x with
  | error e => simp [bind, Except.bind]
  | ok a => simp [bind, Except.bind]

/-! ## Parts that are passed over -/

namespace Draft

mutual

theorem storable_mono {room wider : Nat} (enough : room ≤ wider) :
    ∀ d : Draft, d.storable room → d.storable wider
  | .null, _ => rfl
  | .bool _, _ => rfl
  | .number _, h => h
  | .string _, h => h
  | .array ds closed, h => by
    simp only [storable, Bool.and_eq_true, decide_eq_true_eq] at h ⊢
    obtain ⟨⟨inside, elements⟩, complete⟩ := h
    exact ⟨⟨by omega, storableElements_mono (by omega) ds elements⟩, complete⟩
  | .object ms closed, h => by
    simp only [storable, Bool.and_eq_true, decide_eq_true_eq] at h ⊢
    obtain ⟨⟨inside, members⟩, complete⟩ := h
    exact ⟨⟨by omega, storableMembers_mono (by omega) ms members⟩, complete⟩

theorem storableElements_mono {room wider : Nat} (enough : room ≤ wider) :
    ∀ ds : List Draft, storableElements room ds → storableElements wider ds
  | [], _ => rfl
  | d :: ds, h => by
    simp only [storableElements, Bool.and_eq_true] at h ⊢
    exact ⟨storable_mono enough d h.1, storableElements_mono enough ds h.2⟩

theorem storableMembers_mono {room wider : Nat} (enough : room ≤ wider) :
    ∀ ms : List (Option String × Draft), storableMembers room ms → storableMembers wider ms
  | [], _ => rfl
  | (_, d) :: ms, h => by
    simp only [storableMembers, Bool.and_eq_true] at h ⊢
    exact ⟨⟨h.1.1, storable_mono enough d h.1.2⟩, storableMembers_mono enough ms h.2⟩

end

mutual

theorem wellFormed_of_storable {room : Nat} : ∀ d : Draft, d.storable room → d.wellFormed
  | .null, _ => rfl
  | .bool _, _ => rfl
  | .number _, _ => rfl
  | .string _, _ => rfl
  | .array ds closed, h => by
    simp only [storable, wellFormed, Bool.and_eq_true] at h ⊢
    exact ⟨wellFormedElements_of_storable ds h.1.2, h.2⟩
  | .object ms closed, h => by
    simp only [storable, wellFormed, Bool.and_eq_true] at h ⊢
    exact ⟨wellFormedMembers_of_storable ms h.1.2, h.2⟩

theorem wellFormedElements_of_storable {room : Nat} :
    ∀ ds : List Draft, storableElements room ds → wellFormedElements ds
  | [], _ => rfl
  | d :: ds, h => by
    simp only [storableElements, wellFormedElements, Bool.and_eq_true] at h ⊢
    exact ⟨wellFormed_of_storable d h.1, wellFormedElements_of_storable ds h.2⟩

theorem wellFormedMembers_of_storable {room : Nat} :
    ∀ ms : List (Option String × Draft), storableMembers room ms → wellFormedMembers ms
  | [], _ => rfl
  | (_, d) :: ms, h => by
    simp only [storableMembers, wellFormedMembers, Bool.and_eq_true] at h ⊢
    exact ⟨wellFormed_of_storable d h.1.2, wellFormedMembers_of_storable ms h.2⟩

end

end Draft

/-! ## Members in another order -/

/-- Whether some members are the given ones in any order, with further ones anywhere among them
whose names are not taken and whose values fit. -/
def Rearranged (taken : List String) (fit : Draft → Bool) (ms ms' : List (Option String × Draft)) :
    Prop :=
  ∃ further : List (Option String × Draft), ms'.Perm (ms ++ further) ∧
    ∀ m ∈ further, ∃ name ∉ taken, m.1 = some name ∧ fit m.2

/-- The known names among those of some members. -/
def knownNames (known : List String) (ms : List (Option String × Draft)) : List String :=
  (ms.map Prod.fst).reduceOption.filter (· ∈ known)

theorem knownNames_append (known : List String) (ms ms' : List (Option String × Draft)) :
    knownNames known (ms ++ ms') = knownNames known ms ++ knownNames known ms' := by
  simp only [knownNames, List.map_append, List.reduceOption_append, List.filter_append]

theorem mem_knownNames {known : List String} {ms : List (Option String × Draft)} {name : String} :
    name ∈ knownNames known ms ↔ name ∈ known ∧ ∃ d, (some name, d) ∈ ms := by
  simp [knownNames, List.reduceOption_mem_iff, and_comm]

theorem notMem_knownNames_singleton {name : String} {ms : List (Option String × Draft)} :
    name ∉ knownNames [name] ms ↔ knownNames [name] ms = [] := by
  refine ⟨fun unnamed => List.eq_nil_iff_forall_not_mem.2 fun key mem => ?_, fun nothing => ?_⟩
  · obtain rfl : key = name := by simpa using List.of_mem_filter mem
    exact unnamed mem
  · rw [nothing]
    exact List.not_mem_nil

namespace Rearranged

variable {taken known : List String} {fit wider : Draft → Bool}
  {ms ms' : List (Option String × Draft)}

theorem mono (h : Rearranged taken fit ms ms') (fewer : known ⊆ taken)
    (fits : ∀ d, fit d → wider d) : Rearranged known wider ms ms' := by
  obtain ⟨further, order, others⟩ := h
  refine ⟨further, order, fun m mem => ?_⟩
  obtain ⟨name, other, named, fitting⟩ := others m mem
  exact ⟨name, fun isKnown => other (fewer isKnown), named, fits m.2 fitting⟩

theorem membersBut (h : Rearranged taken fit ms ms') (name : String) :
    Rearranged taken fit (Json.membersBut name ms) (Json.membersBut name ms') := by
  obtain ⟨further, order, others⟩ := h
  refine ⟨Json.membersBut name further, ?_, fun m mem => others m (List.mem_of_mem_filter mem)⟩
  have filtered := order.filter fun m => m.1 != some name
  rwa [List.filter_append] at filtered

theorem mem_iff (h : Rearranged known fit ms ms') {name : String} (isKnown : name ∈ known)
    {d : Draft} : (some name, d) ∈ ms' ↔ (some name, d) ∈ ms := by
  obtain ⟨further, order, others⟩ := h
  rw [order.mem_iff, List.mem_append, or_iff_left]
  intro mem
  obtain ⟨other, unknown, named, -⟩ := others _ mem
  exact unknown (Option.some.inj named ▸ isKnown)

theorem knownNames_perm (h : Rearranged known fit ms ms') :
    (knownNames known ms').Perm (knownNames known ms) := by
  obtain ⟨further, order, others⟩ := h
  have nothing : knownNames known further = [] := by
    refine List.eq_nil_iff_forall_not_mem.2 fun name mem => ?_
    obtain ⟨isKnown, d, mem⟩ := mem_knownNames.1 mem
    obtain ⟨other, unknown, named, -⟩ := others _ mem
    exact unknown (Option.some.inj named ▸ isKnown)
  have names : (knownNames known ms').Perm (knownNames known (ms ++ further)) :=
    ((order.map Prod.fst).filterMap id).filter _
  rwa [knownNames_append, nothing, List.append_nil] at names

end Rearranged

/-- Whether some members are the given ones in their order, each with a value alike. -/
def Replaced (alike : String → Draft → Draft → Prop) (ms ms' : List (Option String × Draft)) :
    Prop :=
  List.Forall₂ (fun m m' => m'.1 = m.1 ∧ ∀ name ∈ m.1, alike name m.2 m'.2) ms ms'

namespace Replaced

variable {alike : String → Draft → Draft → Prop} {ms ms' : List (Option String × Draft)}

theorem knownNames_eq (h : Replaced alike ms ms') (known : List String) :
    knownNames known ms' = knownNames known ms := by
  have names : ms'.map Prod.fst = ms.map Prod.fst := by
    induction h with
    | nil => rfl
    | cons first _ ih => rw [List.map_cons, List.map_cons, first.1, ih]
  rw [knownNames, names]
  rfl

theorem exists_of_mem (h : Replaced alike ms ms') {m' : Option String × Draft} (mem : m' ∈ ms') :
    ∃ m ∈ ms, m'.1 = m.1 ∧ ∀ name ∈ m.1, alike name m.2 m'.2 := by
  induction h with
  | nil => contradiction
  | @cons m _ _ _ first _ ih =>
    rcases List.mem_cons.1 mem with rfl | mem
    · exact ⟨m, List.mem_cons_self, first⟩
    · obtain ⟨m, old, same⟩ := ih mem
      exact ⟨m, List.mem_cons_of_mem _ old, same⟩

theorem member? (h : Replaced alike ms ms') (name : String) :
    Option.Rel (alike name) (Shape.member? ms name) (Shape.member? ms' name) := by
  induction h with
  | nil => exact .none
  | @cons m m' ms ms' first _ ih =>
    obtain ⟨key, d⟩ := m
    obtain ⟨key', d'⟩ := m'
    obtain ⟨rfl : key' = key, same⟩ := first
    by_cases here : some name = key'
    · subst here
      simpa [Shape.member?] using Option.Rel.some (same name rfl)
    · have other : (some name == key') = false := beq_false_of_ne here
      simpa only [Shape.member?, List.lookup_cons, other] using ih

end Replaced

/-! ## Members that are taken -/

/-- Whether an object may have these members: each has a name, those of known names are readable and
stand once, and the others are fit to be passed over. -/
structure Sound (known : List String) (check : String → Draft → Except Fault Unit)
    (fit : Draft → Bool) (ms : List (Option String × Draft)) : Prop where
  each : ∀ m ∈ ms, ∃ name, m.1 = some name ∧
    if name ∈ known then check name m.2 = .ok () else fit m.2
  once : (knownNames known ms).Nodup

section Sound

variable {known : List String} {check : String → Draft → Except Fault Unit} {fit : Draft → Bool}
  {name : String} {d : Draft} {ms : List (Option String × Draft)}

theorem knownNames_cons_known (isKnown : name ∈ known) :
    knownNames known ((some name, d) :: ms) = name :: knownNames known ms := by
  simp [knownNames, isKnown]

theorem knownNames_cons_unknown (unknown : name ∉ known) :
    knownNames known ((some name, d) :: ms) = knownNames known ms := by
  simp [knownNames, unknown]

theorem sound_nil : Sound known check fit [] :=
  ⟨List.forall_mem_nil _, List.nodup_nil⟩

theorem not_sound_unnamed : ¬ Sound known check fit ((none, d) :: ms) := by
  intro h
  obtain ⟨name, named, -⟩ := h.each _ List.mem_cons_self
  contradiction

theorem sound_cons_known (isKnown : name ∈ known) :
    Sound known check fit ((some name, d) :: ms) ↔
      check name d = .ok () ∧ Sound known check fit ms ∧ name ∉ knownNames known ms := by
  constructor
  · rintro ⟨each, once⟩
    obtain ⟨first, others⟩ := List.forall_mem_cons.1 each
    rw [knownNames_cons_known isKnown, List.nodup_cons] at once
    exact ⟨by simpa [isKnown] using first, ⟨others, once.2⟩, once.1⟩
  · rintro ⟨readable, ⟨others, once⟩, new⟩
    refine ⟨List.forall_mem_cons.2 ⟨⟨name, rfl, by rwa [if_pos isKnown]⟩, others⟩, ?_⟩
    rw [knownNames_cons_known isKnown]
    exact List.nodup_cons.2 ⟨new, once⟩

theorem sound_cons_unknown (unknown : name ∉ known) :
    Sound known check fit ((some name, d) :: ms) ↔ fit d ∧ Sound known check fit ms := by
  constructor
  · rintro ⟨each, once⟩
    obtain ⟨first, others⟩ := List.forall_mem_cons.1 each
    rw [knownNames_cons_unknown unknown] at once
    exact ⟨by simpa [unknown] using first, others, once⟩
  · rintro ⟨fits, others, once⟩
    refine ⟨List.forall_mem_cons.2 ⟨⟨name, rfl, by rwa [if_neg unknown]⟩, others⟩, ?_⟩
    rwa [knownNames_cons_unknown unknown]

/-- Exactly sound members of a complete object are taken, if none of their names has been seen. -/
theorem checkMembers_eq_ok_iff {seen : List String} {closed : Bool} :
    Shape.checkMembers known check seen ms closed = .ok () ↔
      closed = true ∧ Sound known check Draft.wellFormed ms ∧
        ∀ name ∈ knownNames known ms, name ∉ seen := by
  induction ms generalizing seen with
  | nil => cases closed <;> simp [Shape.checkMembers, sound_nil, knownNames]
  | cons m ms ih =>
    obtain ⟨_ | name, d⟩ := m
    · simp [Shape.checkMembers, not_sound_unnamed]
    · by_cases isKnown : name ∈ known
      · rw [sound_cons_known isKnown, knownNames_cons_known isKnown, Shape.checkMembers,
          if_pos isKnown]
        by_cases isSeen : name ∈ seen
        · simp [isSeen]
        · simp only [if_neg isSeen, bind_eq_ok, ih]
          simp only [List.mem_cons]
          grind
      · rw [sound_cons_unknown isKnown, knownNames_cons_unknown isKnown, Shape.checkMembers,
          if_neg isKnown]
        by_cases fits : d.wellFormed <;> simp [fits, ih]

/-- The same where one member is asked for and the others are stored. -/
theorem checkApart_eq_ok_iff {check : Draft → Except Fault Unit} {room : Nat} {seen closed : Bool} :
    checkApart name check room seen ms closed = .ok () ↔
      closed = true ∧ Sound [name] (fun _ => check) (Draft.storable room) ms ∧
        (seen = true → knownNames [name] ms = []) := by
  induction ms generalizing seen with
  | nil => cases closed <;> simp [checkApart, sound_nil, knownNames]
  | cons m ms ih =>
    obtain ⟨_ | key, d⟩ := m
    · simp [checkApart, not_sound_unnamed]
    · by_cases isKnown : key ∈ [name]
      · obtain rfl := List.mem_singleton.1 isKnown
        rw [sound_cons_known isKnown, knownNames_cons_known isKnown, checkApart, if_pos rfl]
        cases seen with
        | true => simp
        | false =>
          simp only [Bool.false_eq_true, if_false, bind_eq_ok, ih, notMem_knownNames_singleton]
          simp only [true_implies, false_implies, and_true]
          tauto
      · rw [sound_cons_unknown isKnown, knownNames_cons_unknown isKnown, checkApart,
          if_neg (by simpa using isKnown)]
        by_cases fits : d.storable room <;> simp [fits, ih]

end Sound

namespace Sound

variable {known : List String} {check : String → Draft → Except Fault Unit} {fit : Draft → Bool}
  {ms ms' : List (Option String × Draft)}

theorem tail {m : Option String × Draft} (h : Sound known check fit (m :: ms)) :
    Sound known check fit ms := by
  obtain ⟨name, named, -⟩ := h.each m List.mem_cons_self
  obtain ⟨_, d⟩ := m
  obtain rfl : _ = some name := named
  by_cases isKnown : name ∈ known
  · exact ((sound_cons_known isKnown).1 h).2.1
  · exact ((sound_cons_unknown isKnown).1 h).2

/-- A known name is looked up as what the one member of this name holds. -/
theorem member?_eq_some_iff (h : Sound known check fit ms) {name : String} (isKnown : name ∈ known)
    {d : Draft} : Shape.member? ms name = some d ↔ (some name, d) ∈ ms := by
  induction ms with
  | nil => simp [Shape.member?]
  | cons m ms ih =>
    obtain ⟨_ | key, d'⟩ := m
    · exact absurd h not_sound_unnamed
    by_cases same : key = name
    · -- The name does not stand again further back.
      subst same
      obtain ⟨-, -, new⟩ := (sound_cons_known isKnown).1 h
      have absent : (some key, d) ∉ ms := fun mem =>
        new (mem_knownNames.2 ⟨isKnown, d, mem⟩)
      simp [Shape.member?, absent, eq_comm]
    · have other : (some name == some key) = false := by simpa using Ne.symm same
      have further : Shape.member? ((some key, d') :: ms) name = Shape.member? ms name := by
        simp only [Shape.member?, List.lookup_cons, other]
      simp [further, ih h.tail, Ne.symm same]

theorem rearranged (h : Sound known check fit ms) (again : Rearranged known fit ms ms') :
    Sound known check fit ms' where
  each m mem := by
    obtain ⟨further, order, others⟩ := again
    rcases List.mem_append.1 (order.subset mem) with old | new
    · exact h.each m old
    · obtain ⟨name, unknown, named, fits⟩ := others m new
      exact ⟨name, named, by rwa [if_neg unknown]⟩
  once := again.knownNames_perm.nodup_iff.2 h.once

theorem replaced {alike : String → Draft → Draft → Prop} (h : Sound known check fit ms)
    (again : Replaced alike ms ms')
    (readable : ∀ name ∈ known, ∀ d d', alike name d d' → check name d = .ok () →
      check name d' = .ok ())
    (passed : ∀ name ∉ known, ∀ d d', alike name d d' → fit d → fit d') :
    Sound known check fit ms' := by
  refine ⟨fun m' mem => ?_, by rw [again.knownNames_eq]; exact h.once⟩
  obtain ⟨m, mem, same, values⟩ := again.exists_of_mem mem
  obtain ⟨name, named, taken⟩ := h.each m mem
  refine ⟨name, same.trans named, ?_⟩
  by_cases isKnown : name ∈ known
  · rw [if_pos isKnown] at taken ⊢
    exact readable name isKnown m.2 m'.2 (values name named) taken
  · rw [if_neg isKnown] at taken ⊢
    exact passed name isKnown m.2 m'.2 (values name named) taken

theorem member?_rearranged (h : Sound known check fit ms) (again : Rearranged known fit ms ms')
    {name : String} (isKnown : name ∈ known) :
    Shape.member? ms' name = Shape.member? ms name := by
  ext d
  rw [(h.rearranged again).member?_eq_some_iff isKnown, again.mem_iff isKnown,
    h.member?_eq_some_iff isKnown]

end Sound

end Storyline.Json
