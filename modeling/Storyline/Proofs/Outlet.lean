import Storyline.Outlet
import Storyline.Proofs.Text.Numeral

/-!
# Spellings of outlets

A kind has slots, each with the name under which a walk looks it up. A link may spell the position
in a list in other ways as well, with a plus sign or with zeros in front.

* `Kind.hasOutlet_iff`: the names that a kind accepts are the spellings of its slots.
* `Slot.Spelled.unique`: a name spells one slot of a kind at most.
* `Kind.mem_outlets_iff`: the names that a walk looks up are those of them that are not odd.
-/

namespace Storyline

/-- A place from which a node can be left. -/
inductive Slot where
  | start
  | usual
  | listed (list : String) (i : Nat)
  deriving DecidableEq

namespace Slot

/-- The name under which a slot is looked up. -/
def name : Slot → String
  | .start => startOutlet
  | .usual => usualOutlet
  | .listed list i => listOutlet list i

/-- Whether a name is understood as that of a slot: a position may have zeros in front, and a plus
sign before them. -/
def Spelled : Slot → String → Prop
  | .listed list i, name => ∃ zeros,
      name.toList = list.toList ++ ' ' :: Text.padded zeros i ∨
        name.toList = list.toList ++ ' ' :: '+' :: Text.padded zeros i
  | slot, name => name = slot.name

end Slot

/-- Whether what follows the first blank of a name is embellished. -/
def OddlySpelled (name : String) : Prop :=
  ∃ before after, name.toList = before ++ ' ' :: after ∧ ' ' ∉ before ∧ Text.Embellished after

namespace Kind

/-- The slots of a kind. -/
def slots : Kind → List Slot
  | .start _ => [.start]
  | .message _ _ choices _ => .usual :: (List.range choices.length).map (.listed "choices")
  | .prompt _ choices => .usual :: (List.range choices.length).map (.listed "choices")
  | .random outcomes => (List.range outcomes.length).map (.listed "outcomes")
  | .weightedRandom outcomes => (List.range outcomes.length).map (.listed "outcomes")
  | .late delays => .usual :: (List.range delays.length).map (.listed "infos")
  | .timeSkip .. => [.usual]
  | .result _ => [.usual]
  | .shop _ => [.usual]
  | .final => []

theorem outlets_eq (kind : Kind) : kind.outlets = kind.slots.map Slot.name := by
  cases kind <;> simp [outlets, slots, Function.comp_def, Slot.name, choiceOutlet, outcomeOutlet,
    delayOutlet]

end Kind

/-! ## Names of positions -/

theorem blank_split {before before' after after' : List Char} (unblank : ' ' ∉ before)
    (unblank' : ' ' ∉ before') (same : before ++ ' ' :: after = before' ++ ' ' :: after') :
    before = before' ∧ after = after' := by
  induction before generalizing before' with
  | nil =>
    cases before' with
    | nil => exact ⟨rfl, (List.cons.inj same).2⟩
    | cons c before' => exact absurd ((List.cons.inj same).1 ▸ List.mem_cons_self) unblank'
  | cons c before ih =>
    cases before' with
    | nil => exact absurd ((List.cons.inj same).1 ▸ List.mem_cons_self) unblank
    | cons c' before' =>
      obtain ⟨rfl, tails⟩ := List.cons.inj same
      rw [List.mem_cons, not_or] at unblank unblank'
      obtain ⟨rfl, rest⟩ := ih unblank.2 unblank'.2 tails
      exact ⟨rfl, rest⟩

theorem afterPrefix?_eq_some_iff {p cs rest : List Char} :
    afterPrefix? p cs = some rest ↔ cs = p ++ rest := by
  induction p generalizing cs with
  | nil => simp [afterPrefix?]
  | cons c p ih =>
    cases cs with
    | nil => simp [afterPrefix?]
    | cons c' cs =>
      by_cases same : c = c'
      · simp [afterPrefix?, same, ih]
      · simp [afterPrefix?, same, Ne.symm same]

namespace Slot

theorem spelled_listed_iff {list name : String} {i : Nat} :
    (Slot.listed list i).Spelled name ↔
      ∃ rest, name.toList = list.toList ++ ' ' :: rest ∧ Text.natural? rest = some i := by
  constructor
  · rintro ⟨zeros, plain | plus⟩
    · exact ⟨_, plain, Text.natural?_eq_some_iff.2 ⟨zeros, .inl rfl⟩⟩
    · exact ⟨_, plus, Text.natural?_eq_some_iff.2 ⟨zeros, .inr rfl⟩⟩
  · rintro ⟨rest, split, read⟩
    obtain ⟨zeros, rfl | rfl⟩ := Text.natural?_eq_some_iff.1 read
    · exact ⟨zeros, .inl split⟩
    · exact ⟨zeros, .inr split⟩

theorem name_listed (list : String) (i : Nat) :
    (Slot.listed list i).name.toList = list.toList ++ ' ' :: Nat.toDigits 10 i := by
  simp [name, listOutlet]

theorem spelled_name (slot : Slot) : slot.Spelled slot.name := by
  cases slot with
  | start => rfl
  | usual => rfl
  | listed list i => exact ⟨0, .inl (name_listed list i)⟩

end Slot

theorem isListOutlet_iff {list name : String} {n : Nat} :
    isListOutlet list n name ↔ ∃ i < n, (Slot.listed list i).Spelled name := by
  have split {rest : List Char} : afterPrefix? (list ++ " ").toList name.toList = some rest ↔
      name.toList = list.toList ++ ' ' :: rest := by
    simp [afterPrefix?_eq_some_iff]
  simp only [Slot.spelled_listed_iff, ← split]
  unfold isListOutlet
  cases afterPrefix? (list ++ " ").toList name.toList with
  | none => simp
  | some rest => cases read : Text.natural? rest <;> simp [read]

namespace Kind

theorem hasOutlet_iff {kind : Kind} {name : String} :
    kind.hasOutlet name ↔ ∃ slot ∈ kind.slots, slot.Spelled name := by
  cases kind <;> simp [hasOutlet, slots, isListOutlet_iff, Slot.Spelled, Slot.name]

theorem blank_notMem_list {kind : Kind} {list : String} {i : Nat}
    (mem : .listed list i ∈ kind.slots) : ' ' ∉ list.toList := by
  cases kind <;> simp [slots] at mem
  all_goals
    obtain ⟨-, rfl⟩ := mem
    decide

end Kind

namespace Slot.Spelled

variable {kind : Kind} {slot slot' : Slot} {name : String}

theorem blank_mem {list : String} {i : Nat} (h : (Slot.listed list i).Spelled name) :
    ' ' ∈ name.toList := by
  obtain ⟨rest, split, -⟩ := spelled_listed_iff.1 h
  rw [split]
  simp

theorem unlisted_blank (h : slot.Spelled name) (blank : ' ' ∈ name.toList) :
    ∃ list i, slot = .listed list i := by
  cases slot with
  | start =>
    obtain rfl : name = startOutlet := h
    exact absurd blank (by decide)
  | usual =>
    obtain rfl : name = usualOutlet := h
    exact absurd blank (by decide)
  | listed list i => exact ⟨list, i, rfl⟩

theorem unique (h : slot.Spelled name) (h' : slot'.Spelled name) (mem : slot ∈ kind.slots)
    (mem' : slot' ∈ kind.slots) : slot = slot' := by
  by_cases blank : ' ' ∈ name.toList
  · obtain ⟨list, i, rfl⟩ := h.unlisted_blank blank
    obtain ⟨list', i', rfl⟩ := h'.unlisted_blank blank
    obtain ⟨rest, split, read⟩ := spelled_listed_iff.1 h
    obtain ⟨rest', split', read'⟩ := spelled_listed_iff.1 h'
    obtain ⟨list_eq, rfl⟩ := blank_split (Kind.blank_notMem_list mem) (Kind.blank_notMem_list mem')
      (split.symm.trans split')
    rw [String.toList_inj.1 list_eq, Option.some.inj (read.symm.trans read')]
  · cases slot with
    | listed => exact absurd h.blank_mem blank
    | start =>
      cases slot' with
      | listed => exact absurd h'.blank_mem blank
      | start => rfl
      | usual => exact absurd (h.symm.trans h') (by decide)
    | usual =>
      cases slot' with
      | listed => exact absurd h'.blank_mem blank
      | start => exact absurd (h.symm.trans h') (by decide)
      | usual => rfl

/-- A spelling is the name that is looked up exactly if it is not odd. -/
theorem eq_name_iff (h : slot.Spelled name) (mem : slot ∈ kind.slots) :
    name = slot.name ↔ ¬ OddlySpelled name := by
  by_cases blank : ' ' ∈ name.toList
  · obtain ⟨list, i, rfl⟩ := h.unlisted_blank blank
    obtain ⟨rest, split, read⟩ := spelled_listed_iff.1 h
    have odd : OddlySpelled name ↔ Text.Embellished rest := by
      constructor
      · rintro ⟨before, after, split', unblank, embellished⟩
        obtain ⟨-, rfl⟩ := blank_split unblank (Kind.blank_notMem_list mem)
          (split'.symm.trans split)
        exact embellished
      · exact fun embellished => ⟨_, rest, split, Kind.blank_notMem_list mem, embellished⟩
    rw [odd, ← Text.eq_toDigits_iff read, ← String.toList_inj, split, name_listed]
    simp
  · have even : ¬ OddlySpelled name := by
      rintro ⟨before, after, split, -, -⟩
      exact blank (by rw [split]; simp)
    refine iff_of_true ?_ even
    cases slot with
    | listed => exact absurd h.blank_mem blank
    | start => exact h
    | usual => exact h

end Slot.Spelled

theorem Kind.mem_outlets_iff {kind : Kind} {name : String} :
    name ∈ kind.outlets ↔ kind.hasOutlet name ∧ ¬ OddlySpelled name := by
  rw [outlets_eq, List.mem_map, hasOutlet_iff]
  constructor
  · rintro ⟨slot, mem, rfl⟩
    exact ⟨⟨slot, mem, slot.spelled_name⟩, (slot.spelled_name.eq_name_iff mem).1 rfl⟩
  · rintro ⟨⟨slot, mem, spelled⟩, even⟩
    exact ⟨slot, mem, ((spelled.eq_name_iff mem).2 even).symm⟩

end Storyline
