import Storyline.Proofs.Interpreter.Progress

/-!
# Histories

What is heard of an interpreter comes in blocks, one for each session. Nothing is heard between two
blocks, and only the last one may still be open.

* `Middle`: what a block has between its opening and its ending.
* `History`: complete blocks and at most one open block.
* `History.sent_marks`: started and finished take turns.
-/

namespace Storyline

/-! ## Records -/

inductive Mark where
  /-- The end of the game was requested. -/
  | asked
  /-- A choice was accepted. -/
  | accepted
  | did (event : Event)
  deriving DecidableEq

def Mark.event? : Mark → Option Event
  | .did event => some event
  | _ => none

def Leg.marks : Leg → List Mark
  | .visit v => v.calls.map fun c => .did (.call c)
  | .answer _ => [.accepted, .did (.call .hide)]
  | .arrival => []

/-- What a block has between its opening and its ending. -/
inductive Middle : List Mark → Prop where
  | nil : Middle []
  | asked {ms : List Mark} (rest : Middle ms) : Middle (.asked :: ms)
  | effect {c : Call} {ms : List Mark} (effect : c.isEffect) (rest : Middle ms) :
      Middle (.did (.call c) :: ms)
  | answer {ms : List Mark} (rest : Middle ms) : Middle (.accepted :: .did (.call .hide) :: ms)

theorem Middle.append {ms ns : List Mark} (h₁ : Middle ms) (h₂ : Middle ns) :
    Middle (ms ++ ns) := by
  induction h₁ with
  | nil => exact h₂
  | asked _ ih => exact .asked ih
  | effect effect _ ih => exact .effect effect ih
  | answer _ ih => exact .answer ih

theorem Middle.sent_eq_nil {ms : List Mark} (h : Middle ms) :
    (ms.filterMap Mark.event?).filterMap Event.sent? = [] := by
  induction h with
  | nil => rfl
  | asked _ ih => exact ih
  | effect effect _ ih => exact ih
  | answer _ ih => exact ih

theorem middle_effects {cs : List Call} (effects : ∀ c ∈ cs, c.isEffect) :
    Middle (cs.map fun c => .did (.call c)) := by
  induction cs with
  | nil => exact .nil
  | cons c cs ih =>
    rw [List.forall_mem_cons] at effects
    exact .effect effects.1 (ih effects.2)

theorem middle_marks (legs : List Leg) : Middle (legs.flatMap Leg.marks) := by
  induction legs with
  | nil => exact .nil
  | cons leg legs ih =>
    rw [List.flatMap_cons]
    refine .append ?_ ih
    cases leg with
    | visit v => exact middle_effects v.isEffect_calls
    | answer choice => exact .answer .nil
    | arrival => exact .nil

theorem asked_notMem_marks (legs : List Leg) : .asked ∉ legs.flatMap Leg.marks := by
  intro mem
  obtain ⟨leg, -, mem⟩ := List.mem_flatMap.1 mem
  cases leg <;> simp [Leg.marks] at mem

/-! ## Histories -/

/-- A complete block, with the requests for the end of the game that came before it. -/
structure Block where
  requests : Nat
  opened : Category
  middle : List Mark
  closed : Category

/-- Complete blocks, then perhaps an open one. -/
structure History where
  blocks : List Block
  /-- The requests for the end of the game since the last complete block. -/
  requests : Nat
  current : Option (Category × List Mark)

/-- Whether the end of the game was requested before a block or in it. -/
def Block.asked (b : Block) : Bool :=
  0 < b.requests || .asked ∈ b.middle

def Block.marks (sandbox : Bool) (b : Block) : List Mark :=
  List.replicate b.requests .asked ++ (sessionOpening b.opened).map .did ++ b.middle
    ++ (sessionEnding sandbox b.asked b.closed).map .did

namespace History

/-- Whether the end of the game was requested since the last complete block. -/
def asked (h : History) : Bool :=
  0 < h.requests || h.current.any (.asked ∈ ·.2)

def marks (sandbox : Bool) (h : History) : List Mark :=
  h.blocks.flatMap (Block.marks sandbox) ++ List.replicate h.requests .asked
    ++ h.current.elim [] fun (category, middle) => (sessionOpening category).map .did ++ middle

def notifications (h : History) : List Notification :=
  h.blocks.flatMap (fun b => [.started b.opened, .finished b.closed])
    ++ h.current.toList.map fun (category, _) => .started category

structure Fits (h : History) (i : Interpreter) : Prop where
  middles : ∀ b ∈ h.blocks, Middle b.middle
  middle : ∀ category ms, h.current = some (category, ms) → Middle ms
  active : i.category?.isSome = h.current.isSome
  flag : i.endRequested = h.asked

/-- Blocks end under the category under which they began. -/
structure Tidy (h : History) (i : Interpreter) : Prop where
  blocks : ∀ b ∈ h.blocks, b.closed = b.opened
  current : ∀ category ms, h.current = some (category, ms) → i.category? = some category

/-! ## Growing -/

def ask (h : History) : History :=
  match h.current with
  | none => { h with requests := h.requests + 1 }
  | some (category, ms) => { h with current := some (category, ms ++ [.asked]) }

def begin (h : History) (opened : Category) : History :=
  { h with current := some (opened, []) }

def extend (h : History) (ns : List Mark) : History :=
  { h with current := h.current.map fun (category, ms) => (category, ms ++ ns) }

def close (h : History) (closed : Category) : History :=
  match h.current with
  | none => h
  | some (opened, middle) => ⟨h.blocks ++ [⟨h.requests, opened, middle, closed⟩], 0, none⟩

theorem marks_ask (h : History) (sandbox : Bool) :
    h.ask.marks sandbox = h.marks sandbox ++ [.asked] := by
  unfold ask
  cases current : h.current with
  | none => simp [marks, current, List.replicate_succ']
  | some block => simp [marks, current]

theorem asked_ask (h : History) : h.ask.asked = true := by
  unfold ask
  cases current : h.current with
  | none => simp [asked]
  | some block => simp [asked]

theorem marks_begin {h : History} (closed : h.current = none) (sandbox : Bool)
    (opened : Category) :
    (h.begin opened).marks sandbox = h.marks sandbox ++ (sessionOpening opened).map .did := by
  simp [begin, marks, closed]

theorem marks_extend {h : History} (playing : h.current.isSome) (sandbox : Bool)
    (ns : List Mark) : (h.extend ns).marks sandbox = h.marks sandbox ++ ns := by
  obtain ⟨block, current⟩ := Option.isSome_iff_exists.1 playing
  simp [extend, marks, current]

theorem asked_extend (h : History) {ns : List Mark} (quiet : .asked ∉ ns) :
    (h.extend ns).asked = h.asked := by
  cases current : h.current <;> simp [extend, asked, current, quiet]

theorem marks_close {h : History} (playing : h.current.isSome) (sandbox : Bool)
    (closed : Category) :
    (h.close closed).marks sandbox =
      h.marks sandbox ++ (sessionEnding sandbox h.asked closed).map .did := by
  obtain ⟨⟨opened, middle⟩, current⟩ := Option.isSome_iff_exists.1 playing
  have asked : Block.asked ⟨h.requests, opened, middle, closed⟩ = h.asked := by
    simp [Block.asked, History.asked, current]
  simp [close, marks, current, Block.marks, asked]

namespace Fits

variable {h : History} {i j : Interpreter}

theorem ask (fits : h.Fits i) (category : j.category? = i.category?)
    (flag : j.endRequested = true) : h.ask.Fits j := by
  have asked := flag.trans h.asked_ask.symm
  have active := fits.active
  rw [← category] at active
  obtain ⟨blocks, requests, current⟩ := h
  cases current with
  | none => exact ⟨fits.middles, fits.middle, active, asked⟩
  | some block =>
    refine ⟨fits.middles, ?_, active, asked⟩
    intro _ _ same
    obtain ⟨rfl, rfl⟩ := Prod.mk.inj (Option.some.inj same)
    exact (fits.middle _ _ rfl).append (.asked .nil)

theorem congr (fits : h.Fits i) (category : j.category? = i.category?)
    (flag : j.endRequested = i.endRequested) : h.Fits j where
  middles := fits.middles
  middle := fits.middle
  active := by rw [category, fits.active]
  flag := flag.trans fits.flag

theorem begin (fits : h.Fits i) (idle : i.category? = none) {opened : Category}
    (playing : j.category? = some opened) (flag : j.endRequested = i.endRequested) :
    (h.begin opened).Fits j := by
  have closed : h.current = none := by simpa [idle] using fits.active
  refine ⟨fits.middles, ?_, by simp [playing, History.begin], ?_⟩
  · intro _ _ same
    obtain ⟨rfl, rfl⟩ := Prod.mk.inj (Option.some.inj same)
    exact .nil
  · rw [flag, fits.flag]
    simp only [History.begin, asked, closed]
    rfl

theorem extend (fits : h.Fits i) (playing : i.category?.isSome) (still : j.category?.isSome)
    (flag : j.endRequested = i.endRequested) {ns : List Mark} (middle : Middle ns)
    (quiet : .asked ∉ ns) : (h.extend ns).Fits j := by
  refine ⟨fits.middles, ?_, ?_, ?_⟩
  · intro category ms same
    obtain ⟨⟨category', ms'⟩, current, pair⟩ := Option.map_eq_some_iff.1 same
    obtain ⟨rfl, rfl⟩ := Prod.mk.inj pair
    exact (fits.middle _ _ current).append middle
  · rw [still, History.extend, Option.isSome_map, ← fits.active, playing]
  · rw [flag, fits.flag, h.asked_extend quiet]

theorem close (fits : h.Fits i) (playing : i.category?.isSome) (idle : j.category? = none)
    (flag : j.endRequested = false) (closed : Category) : (h.close closed).Fits j := by
  rw [fits.active] at playing
  obtain ⟨⟨opened, middle⟩, current⟩ := Option.isSome_iff_exists.1 playing
  simp only [History.close, current]
  refine ⟨?_, by simp, by simp [idle], by simpa [asked] using flag⟩
  intro b mem
  rcases List.mem_append.1 mem with mem | mem
  · exact fits.middles b mem
  · obtain rfl := List.mem_singleton.1 mem
    exact fits.middle _ _ current

end Fits

namespace Tidy

variable {h : History} {i j : Interpreter}

theorem ask (tidy : h.Tidy i) (category : j.category? = i.category?) : h.ask.Tidy j := by
  obtain ⟨blocks, requests, current⟩ := h
  cases current with
  | none => exact ⟨tidy.blocks, by simp [History.ask]⟩
  | some block =>
    refine ⟨tidy.blocks, ?_⟩
    intro _ _ same
    obtain ⟨rfl, rfl⟩ := Prod.mk.inj (Option.some.inj same)
    rw [category]
    exact tidy.current _ _ rfl

theorem congr (tidy : h.Tidy i) (category : j.category? = i.category?) : h.Tidy j where
  blocks := tidy.blocks
  current := by
    rw [category]
    exact tidy.current

theorem begin (tidy : h.Tidy i) {opened : Category} (playing : j.category? = some opened) :
    (h.begin opened).Tidy j := by
  refine ⟨tidy.blocks, ?_⟩
  intro _ _ same
  obtain ⟨rfl, rfl⟩ := Prod.mk.inj (Option.some.inj same)
  exact playing

theorem extend (tidy : h.Tidy i) (category : j.category? = i.category?) (ns : List Mark) :
    (h.extend ns).Tidy j := by
  refine ⟨tidy.blocks, ?_⟩
  intro _ _ same
  obtain ⟨⟨opened, middle⟩, current, pair⟩ := Option.map_eq_some_iff.1 same
  obtain ⟨rfl, rfl⟩ := Prod.mk.inj pair
  rw [category]
  exact tidy.current _ _ current

theorem close (tidy : h.Tidy i) {closed : Category} (playing : i.category? = some closed) :
    (h.close closed).Tidy j := by
  cases current : h.current with
  | none =>
    simp only [History.close, current]
    exact ⟨tidy.blocks, by simp [current]⟩
  | some block =>
    obtain ⟨opened, middle⟩ := block
    simp only [History.close, current]
    refine ⟨?_, by simp⟩
    intro b mem
    rcases List.mem_append.1 mem with mem | mem
    · exact tidy.blocks b mem
    · obtain rfl := List.mem_singleton.1 mem
      exact Option.some.inj (playing.symm.trans (tidy.current _ _ current))

end Tidy

/-! ## Notifications -/

theorem sent_block (sandbox : Bool) {b : Block} (middle : Middle b.middle) :
    ((b.marks sandbox).filterMap Mark.event?).filterMap Event.sent? =
      [.started b.opened, .finished b.closed] := by
  have ending : ((sessionEnding sandbox b.asked b.closed).map Mark.did).filterMap Mark.event? =
      sessionEnding sandbox b.asked b.closed := by
    induction sessionEnding sandbox b.asked b.closed with
    | nil => rfl
    | cons e es ih => exact congrArg (e :: ·) ih
  have finished : (sessionEnding sandbox b.asked b.closed).filterMap Event.sent? =
      [.finished b.closed] := by
    unfold sessionEnding
    cases sandbox <;> cases b.asked <;> rfl
  have requests : (List.replicate b.requests Mark.asked).filterMap Mark.event? = [] := by
    simp [Mark.event?]
  simp only [Block.marks, List.filterMap_append, middle.sent_eq_nil, ending, finished, requests]
  rfl

theorem sent_marks {h : History} {i : Interpreter} (fits : h.Fits i) (sandbox : Bool) :
    ((h.marks sandbox).filterMap Mark.event?).filterMap Event.sent? = h.notifications := by
  have requests : (List.replicate h.requests Mark.asked).filterMap Mark.event? = [] := by
    simp [Mark.event?]
  have blocks : ((h.blocks.flatMap (Block.marks sandbox)).filterMap Mark.event?).filterMap
      Event.sent? = h.blocks.flatMap fun b => [.started b.opened, .finished b.closed] := by
    rw [List.filterMap_flatMap, List.filterMap_flatMap]
    apply List.flatMap_congr
    intro b mem
    exact sent_block sandbox (fits.middles b mem)
  simp only [marks, notifications, List.filterMap_append, blocks, requests, List.append_nil]
  cases current : h.current with
  | none => rfl
  | some block =>
    obtain ⟨category, ms⟩ := block
    have middle := (fits.middle _ _ current).sent_eq_nil
    simp only [Option.elim_some, List.filterMap_append, middle, List.append_nil]
    rfl

end History

end Storyline
