import Mathlib.Algebra.Ring.Nat
import Storyline.Proofs.Graph.Branch
import Storyline.Proofs.Random.Shares

/-!
# Odds of branches

A branch at random reads numbers until one of them decides for a linked outcome. Its odds are told by
how many of the numbers that can be read decide for each.

* `Graph.candidates_eq`: the candidates are the linked outcomes in the order of their positions.
* `Graph.pickUniform_exact`: all candidates have the same odds.
* `Graph.pickWeighted_proportional`: the odds of a candidate are its weight.
-/

namespace Storyline

/-! ## Picks by reading -/

/-- A pick among some candidates reads on until a reading decides for the position of one. -/
structure PicksBy {α : Type} (wide : Bool) (decision : Nat → Option Nat) (as : List α)
    (pick : Generator → Option α × Generator) : Prop where
  decided {gen : Generator} {k : Nat} (h : decision (gen.read wide).1 = some k) :
    ∃ inside : k < as.length, pick gen = (some as[k], (gen.read wide).2)
  passed {gen : Generator} (h : decision (gen.read wide).1 = none) :
    pick gen = pick (gen.read wide).2

/-- As many of the readings decide for one candidate as for any other. -/
def PicksAlike {α : Type} (as : List α) (pick : Generator → Option α × Generator) : Prop :=
  ∃ wide decision share, PicksBy wide decision as pick ∧ 0 < share ∧
    ∀ k < as.length, Nat.count (fun reading => decision reading = some k) (Generator.span wide) =
      share

namespace Graph

variable {α : Type}

theorem pickAmong_picksBy {as : List α} (nonempty : as ≠ []) :
    PicksBy (Lottery.uniform as.length).wide (Lottery.uniform as.length).take? as
      (pickAmong as) := by
  have positive : 0 < (Lottery.uniform as.length).bound := by
    simpa using List.length_pos_iff.2 nonempty
  constructor
  · intro gen k taken
    have inside : k < as.length := by
      simpa using Lottery.take?_lt positive (gen.read_lt _) taken
    refine ⟨inside, ?_⟩
    simp [pickAmong, nonempty, Generator.draw_of_take? taken, inside]
  · intro gen refused
    simp [pickAmong, nonempty, Generator.draw_of_refused refused]

theorem count_uniform {n : Nat} (positive : 0 < n) (small : n < 2 ^ 64) :
    ∃ share, 0 < share ∧ ∀ k < n,
      Nat.count (fun reading => (Lottery.uniform n).take? reading = some k)
        (Generator.span (Lottery.uniform n).wide) = share := by
  obtain ⟨share, some, fair⟩ := Lottery.uniform_fair positive small
  exact ⟨share, some, fun k below => fair.count_take? (by simpa using below)⟩

theorem pickAmong_alike {as : List α} (nonempty : as ≠ []) (small : as.length < 2 ^ 64) :
    PicksAlike as (pickAmong as) := by
  obtain ⟨share, some, alike⟩ := count_uniform (List.length_pos_iff.2 nonempty) small
  exact ⟨_, _, share, pickAmong_picksBy nonempty, some, alike⟩

/-! ## Weights -/

/-- The position of the first weight at which the weights so far exceed the number. -/
def shareAt : List Nat → Nat → Nat
  | [], _ => 0
  | weight :: rest, n => if n < weight then 0 else shareAt rest (n - weight) + 1

/-- The position for which a reading decides, if the positions have the given weights. -/
def weightedDecision (weights : List Nat) (reading : Nat) : Option Nat :=
  ((Lottery.shares weights.sum).take? reading).map (shareAt weights)

theorem shareAt_of_lt {weight n : Nat} (h : n < weight) (rest : List Nat) :
    shareAt (weight :: rest) n = 0 := by
  simp [shareAt, h]

theorem shareAt_add (weight : Nat) (rest : List Nat) (n : Nat) :
    shareAt (weight :: rest) (weight + n) = shareAt rest n + 1 := by
  simp [shareAt]

theorem shareAt_lt {weights : List Nat} {n : Nat} (h : n < weights.sum) :
    shareAt weights n < weights.length := by
  induction weights generalizing n with
  | nil => simp at h
  | cons weight rest ih =>
    by_cases first : n < weight
    · simp [shareAt_of_lt first]
    · obtain ⟨m, rfl⟩ := Nat.exists_eq_add_of_le (Nat.le_of_not_lt first)
      rw [List.sum_cons] at h
      simpa [shareAt_add] using ih (Nat.lt_of_add_lt_add_left h)

theorem count_shareAt (weights : List Nat) {k : Nat} (inside : k < weights.length) :
    Nat.count (fun n => shareAt weights n = k) weights.sum = weights[k] := by
  induction weights generalizing k with
  | nil => simp at inside
  | cons weight rest ih =>
    rw [List.sum_cons, Nat.count_add]
    simp only [shareAt_add]
    cases k with
    | zero =>
      rw [Nat.count_of_forall fun n below => shareAt_of_lt below rest,
        Nat.count_of_forall_not fun n _ => Nat.succ_ne_zero _]
      rfl
    | succ k =>
      rw [Nat.count_of_forall_not fun n below => by simp [shareAt_of_lt below]]
      simpa using ih (Nat.lt_of_succ_lt_succ inside)

theorem totalWeight_eq (as : List (α × Nat)) : totalWeight as = (as.map Prod.snd).sum := by
  induction as with
  | nil => rfl
  | cons entry rest ih => simp [totalWeight, ih]

theorem atShare_eq (as : List (α × Nat)) (n : Nat) :
    atShare as n = (as.map Prod.fst)[shareAt (as.map Prod.snd) n]? := by
  induction as generalizing n with
  | nil => rfl
  | cons entry rest ih =>
    obtain ⟨a, weight⟩ := entry
    by_cases first : n < weight
    · simp [atShare, shareAt, first]
    · simp [atShare, shareAt, first, ih]

theorem weightedDecision_eq_none_iff {weights : List Nat} {reading : Nat} :
    weightedDecision weights reading = none ↔
      (Lottery.shares weights.sum).take? reading = none := by
  simp [weightedDecision]

theorem count_weightedDecision {weights : List Nat} (positive : 0 < weights.sum)
    (small : weights.sum < 2 ^ 32) {k : Nat} (inside : k < weights.length) :
    Nat.count (fun word => weightedDecision weights word = some k) (2 ^ 32) =
      2 ^ 32 / weights.sum * weights[k] := by
  let numbers := (Finset.range weights.sum).filter fun n => shareAt weights n = k
  have decides : ∀ word < 2 ^ 32, weightedDecision weights word = some k ↔
      ∃ n ∈ numbers, (Lottery.shares weights.sum).take? word = some n := by
    intro word below
    simp only [weightedDecision, Option.map_eq_some_iff, numbers, Finset.mem_filter,
      Finset.mem_range]
    constructor
    · rintro ⟨n, taken, position⟩
      exact ⟨n, ⟨Lottery.take?_lt positive below taken, position⟩, taken⟩
    · rintro ⟨n, ⟨-, position⟩, taken⟩
      exact ⟨n, taken, position⟩
  have among := (Lottery.shares_fair positive small).count_among numbers
    fun n mem => Finset.mem_range.1 (Finset.mem_filter.1 mem).1
  rw [← Nat.count_eq_card_filter_range, count_shareAt weights inside] at among
  rw [← among]
  exact Nat.le_antisymm (Nat.count_mono_left fun word below => (decides word below).1)
    (Nat.count_mono_left fun word below => (decides word below).2)

theorem count_undecided {weights : List Nat} (positive : 0 < weights.sum)
    (small : weights.sum < 2 ^ 32) :
    Nat.count (fun word => weightedDecision weights word = none) (2 ^ 32) =
      2 ^ 32 % weights.sum := by
  have refused := (Lottery.shares_fair positive small).count_refused positive
  simp only [weightedDecision, Option.map_eq_none_iff]
  exact refused.trans (Nat.mod_eq_sub_mul_div).symm

/-! ## Linked outcomes -/

/-- The linked ones among so many outcomes of a node, each with its position and its target. -/
def linkedOutcomes (g : Graph) (id : NodeId) (count : Nat) : List (Nat × Node) :=
  (List.range count).filterMap fun i => (g.next? id (outcomeOutlet i)).map (i, ·)

theorem mem_linkedOutcomes {g : Graph} {id : NodeId} {count i : Nat} {target : Node} :
    (i, target) ∈ g.linkedOutcomes id count ↔
      i < count ∧ g.next? id (outcomeOutlet i) = some target := by
  simp [linkedOutcomes]

theorem linkedOutcomes_ascending (g : Graph) (id : NodeId) (count : Nat) :
    ((g.linkedOutcomes id count).map Prod.fst).Pairwise (· < ·) := by
  rw [List.pairwise_map]
  refine List.pairwise_lt_range.filterMap _ ?_
  intro i j before entry mem entry' mem'
  obtain ⟨_, -, rfl⟩ := Option.map_eq_some_iff.1 mem
  obtain ⟨_, -, rfl⟩ := Option.map_eq_some_iff.1 mem'
  exact before

theorem zipIdx_eq_map_range (weights : List Nat) :
    weights.zipIdx = (List.range weights.length).map fun i => (weights.getD i 0, i) := by
  apply List.ext_getElem
  · simp
  · intro i inside _
    simp only [List.length_zipIdx] at inside
    simp [inside]

theorem candidates_eq {g : Graph} {node : Node} {count : Nat}
    (found : g.node? node.id = some node) (branch : node.kind.outcomes? = some count) :
    g.candidates node.id = (g.linkedOutcomes node.id count).map fun (i, target) =>
      (target, node.kind.weights.getD i 0) := by
  simp only [candidates, found, zipIdx_eq_map_range, node.kind.length_weights branch,
    linkedOutcomes, List.filterMap_map, List.map_filterMap, Option.map_map, Function.comp_def]

theorem candidates_targets {g : Graph} {node : Node} {count : Nat}
    (found : g.node? node.id = some node) (branch : node.kind.outcomes? = some count) :
    (g.candidates node.id).map Prod.fst = (g.linkedOutcomes node.id count).map Prod.snd := by
  rw [candidates_eq found branch, List.map_map]
  rfl

theorem candidates_of_unbranched {g : Graph} {id : NodeId}
    (unbranched : ∀ node, g.node? id = some node → node.kind.outcomes? = none) :
    g.candidates id = [] := by
  unfold candidates
  split
  · rfl
  · rename_i node found
    have none := unbranched node found
    cases kind : node.kind <;> simp_all [Kind.outcomes?, Kind.weights]

/-! ## Uniform branches -/

/-- The candidates of a branch are the targets of its linked outcomes in the order of their
positions. Each is picked for equally many words, and all other words are passed over. Without
candidates nothing is read. -/
theorem pickUniform_exact (g : Graph) :
    (∀ (node : Node) (count : Nat), g.node? node.id = some node →
      node.kind.outcomes? = some count →
      let linked := g.linkedOutcomes node.id count
      let targets := linked.map Prod.snd
      let decision := (Lottery.uniform targets.length).take?
      (linked.map Prod.fst).Pairwise (· < ·) ∧
      (∀ i target, (i, target) ∈ linked ↔
        i < count ∧ g.next? node.id (outcomeOutlet i) = some target) ∧
      (g.candidates node.id).map Prod.fst = targets ∧
      (0 < targets.length → targets.length < 2 ^ 32 →
        PicksBy false decision targets (g.pickUniform node.id) ∧
        ∃ share, 0 < share ∧ ∀ k < targets.length,
          Nat.count (fun word => decision word = some k) (2 ^ 32) = share) ∧
      (targets = [] → ∀ gen, g.pickUniform node.id gen = (none, gen))) ∧
    ∀ id, (∀ node, g.node? id = some node → node.kind.outcomes? = none) →
      ∀ gen, g.pickUniform id gen = (none, gen) := by
  constructor
  · intro node count found branch linked targets decision
    have same : (g.candidates node.id).map Prod.fst = targets := candidates_targets found branch
    refine ⟨linkedOutcomes_ascending .., fun _ _ => mem_linkedOutcomes, same, ?_, ?_⟩
    · intro positive small
      have narrow : (Lottery.uniform targets.length).wide = false := Lottery.wide_uniform small
      have pick : g.pickUniform node.id = pickAmong targets := by
        funext gen
        rw [pickUniform, same]
      have reads := pickAmong_picksBy (List.length_pos_iff.1 positive)
      obtain ⟨share, some, alike⟩ := count_uniform positive (small.trans (by decide))
      rw [narrow] at reads alike
      rw [pick]
      exact ⟨reads, share, some, alike⟩
    · intro empty
      rw [empty, List.map_eq_nil_iff] at same
      exact pickUniform_of_nil same
  · intro id unbranched
    exact pickUniform_of_nil (candidates_of_unbranched unbranched)

/-- A turn of a wheel with eleven outcomes. -/
def turn : Node :=
  ⟨"turn", .random (List.replicate 11 "number")⟩

/-- The third and the last outcome of the turn are linked. -/
def wheel : Graph where
  name := "wheel"
  nodes := [⟨"start", .start "daily"⟩, turn, ⟨"two", .final⟩, ⟨"ten", .final⟩]
  links := [⟨"start", "start", "turn"⟩, ⟨"turn", "outcomes 10", "ten"⟩,
    ⟨"turn", "outcomes 2", "two"⟩]
  valid := Document.fault?_eq_none (by decide)

theorem pickUniform_exact_wheel :
    (wheel.candidates "turn").map (·.1.id) = ["two", "ten"] ∧
      ∃ share, 0 < share ∧
        Nat.count (fun word => (Lottery.uniform 2).take? word = some 0) (2 ^ 32) = share ∧
        Nat.count (fun word => (Lottery.uniform 2).take? word = some 1) (2 ^ 32) = share := by
  have found : wheel.node? turn.id = some turn := by decide
  obtain ⟨branches, -⟩ := pickUniform_exact wheel
  obtain ⟨-, -, -, drawn, -⟩ := branches turn 11 found rfl
  obtain ⟨-, share, some, alike⟩ := drawn (by decide) (by decide)
  exact ⟨by decide, share, some, alike 0 (by decide), alike 1 (by decide)⟩

/-! ## Weighted branches -/

theorem pickWeighted_picksBy {g : Graph} {id : NodeId}
    (positive : 0 < totalWeight (g.candidates id)) :
    PicksBy false (weightedDecision ((g.candidates id).map Prod.snd))
        ((g.candidates id).map Prod.fst)
        (fun gen => ((g.pickWeighted id gen).1, (g.pickWeighted id gen).2.1)) ∧
      ∀ gen, (g.pickWeighted id gen).2.2 = [] := by
  have nonempty : g.candidates id ≠ [] := by
    intro empty
    simp [empty, totalWeight] at positive
  have drawn (gen : Generator) : g.pickWeighted id gen =
      (atShare (g.candidates id) (gen.draw (.shares (totalWeight (g.candidates id)))).1,
        (gen.draw (.shares (totalWeight (g.candidates id)))).2, []) := by
    simp [pickWeighted, nonempty, positive.ne']
  simp only [drawn, atShare_eq, totalWeight_eq] at *
  refine ⟨⟨?_, ?_⟩, fun _ => trivial⟩
  · intro gen k decided
    obtain ⟨n, taken, rfl⟩ := Option.map_eq_some_iff.1 decided
    have inside : shareAt ((g.candidates id).map Prod.snd) n <
        ((g.candidates id).map Prod.fst).length := by
      simpa using shareAt_lt (Lottery.take?_lt positive (gen.read_lt false) taken)
    refine ⟨inside, ?_⟩
    rw [Generator.draw_of_take? taken, List.getElem?_eq_getElem inside]
    rfl
  · intro gen passed
    rw [Generator.draw_of_refused (weightedDecision_eq_none_iff.1 passed)]
    rfl

theorem pickWeighted_weightless {g : Graph} {id : NodeId} (nonempty : g.candidates id ≠ [])
    (weightless : totalWeight (g.candidates id) = 0) (gen : Generator) :
    g.pickWeighted id gen =
      ((pickAmong ((g.candidates id).map Prod.fst) gen).1,
        (pickAmong ((g.candidates id).map Prod.fst) gen).2, [.weightsZero g.name id]) := by
  simp [pickWeighted, nonempty, weightless]

/-- Of all words, those that decide for a linked outcome are in proportion to its weight, and what is
left over is passed over. If no linked outcome has any weight, a warning is given and all of them
have the same odds. Without linked outcomes nothing is read. -/
theorem pickWeighted_proportional {g : Graph} {node : Node} {outcomes : List WeightedOutcome}
    (found : g.node? node.id = some node) (kind : node.kind = .weightedRandom outcomes) :
    let linked := g.linkedOutcomes node.id outcomes.length
    let targets := linked.map Prod.snd
    let weights := linked.map fun (i, _) => (outcomes.map (·.weight.toNat)).getD i 0
    let pick := fun gen => ((g.pickWeighted node.id gen).1, (g.pickWeighted node.id gen).2.1)
    let notices := fun gen => (g.pickWeighted node.id gen).2.2
    (0 < weights.sum → weights.sum < 2 ^ 32 →
      PicksBy false (weightedDecision weights) targets pick ∧ (∀ gen, notices gen = []) ∧
      (∀ (k : Nat) (inside : k < weights.length),
        Nat.count (fun word => weightedDecision weights word = some k) (2 ^ 32) =
          2 ^ 32 / weights.sum * weights[k]) ∧
      Nat.count (fun word => weightedDecision weights word = none) (2 ^ 32) =
        2 ^ 32 % weights.sum) ∧
    (weights.sum = 0 → targets ≠ [] → targets.length < 2 ^ 64 →
      PicksAlike targets pick ∧ ∀ gen, notices gen = [.weightsZero g.name node.id]) ∧
    (targets = [] → ∀ gen, g.pickWeighted node.id gen = (none, gen, [])) := by
  intro linked targets weights pick notices
  have branch : node.kind.outcomes? = some outcomes.length := by
    rw [kind]
    rfl
  have same : (g.candidates node.id).map Prod.fst = targets := candidates_targets found branch
  have weighed : (g.candidates node.id).map Prod.snd = weights := by
    rw [candidates_eq found branch, List.map_map, kind]
    rfl
  have total : totalWeight (g.candidates node.id) = weights.sum := by
    rw [totalWeight_eq, weighed]
  refine ⟨fun positive small => ?_, fun weightless nonempty small => ?_, fun empty gen => ?_⟩
  · rw [← total] at positive
    obtain ⟨reads, silent⟩ := pickWeighted_picksBy positive
    rw [total] at positive
    rw [same, weighed] at reads
    exact ⟨reads, silent, fun k inside => count_weightedDecision positive small inside,
      count_undecided positive small⟩
  · have some : g.candidates node.id ≠ [] := by
      intro empty
      rw [empty] at same
      exact nonempty same.symm
    have picked := pickWeighted_weightless some (total.trans weightless)
    simp only [pick, notices, picked, same]
    exact ⟨pickAmong_alike nonempty small, fun _ => trivial⟩
  · rw [empty, List.map_eq_nil_iff] at same
    exact pickWeighted_of_nil same gen

/-- A roll with four outcomes. -/
def roll : Node :=
  ⟨"roll", .weightedRandom [⟨"none", 0⟩, ⟨"low", 2⟩, ⟨"lost", 7⟩, ⟨"high", 3⟩]⟩

/-- The third outcome of the roll is not linked, and two of them lead to the same end. -/
def dice : Graph where
  name := "dice"
  nodes := [⟨"start", .start "daily"⟩, roll, ⟨"draw", .final⟩, ⟨"win", .final⟩]
  links := [⟨"start", "start", "roll"⟩, ⟨"roll", "outcomes 3", "win"⟩,
    ⟨"roll", "outcomes 0", "draw"⟩, ⟨"roll", "outcomes 1", "win"⟩]
  valid := Document.fault?_eq_none (by decide)

theorem pickWeighted_proportional_dice :
    (dice.linkedOutcomes "roll" 4).map Prod.fst = [0, 1, 3] ∧
      Nat.count (fun word => weightedDecision [0, 2, 3] word = some 0) (2 ^ 32) = 0 ∧
      Nat.count (fun word => weightedDecision [0, 2, 3] word = some 2) (2 ^ 32) =
        2 ^ 32 / 5 * 3 ∧
      Nat.count (fun word => weightedDecision [0, 2, 3] word = none) (2 ^ 32) = 2 ^ 32 % 5 := by
  have found : dice.node? roll.id = some roll := by decide
  obtain ⟨weighted, -, -⟩ := pickWeighted_proportional found rfl
  obtain ⟨-, -, odds, passed⟩ := weighted (by decide) (by decide)
  exact ⟨by decide, odds 0 (by decide), odds 2 (by decide), passed⟩

end Graph

end Storyline
