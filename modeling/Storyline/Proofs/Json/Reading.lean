import Storyline.Json.Draft
import Storyline.Proofs.Json.Tokens

/-!
# Reading what was written

The text of a value, in either layout, is read as the draft of that value, complete and with nothing
after it.

* `Draft.reads`: a reader that is ready for a value takes exactly the tokens of the value.
* `Draft.parse_write`, `Draft.parse_writeIndented`: the whole text of a value.
-/

namespace Storyline.Json

namespace Draft

/-! ## Values inside frames -/

/-- The states in which a value may begin inside some frames. -/
inductive Ready (frames : List Frame) : State → Prop where
  | value : Ready frames (.reading .value frames)
  | valueOrClose : Ready frames (.reading .valueOrClose frames)

theorem Ready.step {frames : List Frame} {s : State} (h : Ready frames s) {t : Token}
    (other : t ≠ .closeArray) : step s t = begin frames t := by
  cases h with
  | value => rfl
  | valueOrClose =>
    rw [Draft.step]
    exact fun _ _ close _ => other close

/-- Whether a reader that is ready for a value takes exactly the given tokens, as this draft. -/
def Takes (ts : List Token) (d : Draft) : Prop :=
  ∀ {frames : List Frame} {s : State} (more : List Token), Ready frames s →
    (ts ++ more).foldl step s = more.foldl step (finish frames d)

/-- Whether a reader that is ready for a value takes exactly the tokens of the given one. -/
def Reads (v : Value) : Prop :=
  Takes v.tokens (ofValue v)

theorem reads_atom {v : Value} {t : Token} (alone : v.tokens = [t])
    (atom : atom? t = some (ofValue v)) : Reads v := by
  intro frames s ts ready
  have other : t ≠ .closeArray := by
    rintro rfl
    contradiction
  have begun : begin frames t = finish frames (ofValue v) := by simp [begin, atom]
  rw [alone, List.singleton_append, List.foldl_cons, ready.step other, begun]

/-! ## Arrays -/

theorem read_moreElements {vs : List Value} (elements : ∀ v ∈ vs, Reads v) (read : List Draft)
    (frames : List Frame) (ts : List Token) :
    (moreElementTokens vs ++ ts).foldl step (.reading .separator (.array read :: frames)) =
      ts.foldl step (finish frames (.array (read.reverse ++ ofElements vs) true)) := by
  induction vs generalizing read with
  | nil =>
    rw [ofElements, List.append_nil]
    rfl
  | cons v vs ih =>
    -- The frame holds its parts in reverse order.
    obtain ⟨first, others⟩ := List.forall_mem_cons.1 elements
    have rest := ih others (ofValue v :: read)
    rw [List.reverse_cons, List.append_assoc, List.singleton_append] at rest
    rw [moreElementTokens, List.append_assoc, ofElements, ← rest]
    exact first (moreElementTokens vs ++ ts) .value

theorem reads_array {vs : List Value} (elements : ∀ v ∈ vs, Reads v) : Reads (.array vs) := by
  intro frames s ts ready
  rw [Value.tokens, List.cons_append, List.foldl_cons, ready.step (by decide)]
  cases vs with
  | nil => rfl
  | cons v vs =>
    obtain ⟨first, others⟩ := List.forall_mem_cons.1 elements
    rw [elementTokens, List.append_assoc]
    refine (first (moreElementTokens vs ++ ts) .valueOrClose).trans ?_
    exact read_moreElements others [ofValue v] frames ts

/-! ## Objects -/

/-- The states in which a member may begin inside an object. -/
inductive ReadyForKey (read : List (Option String × Draft)) (frames : List Frame) :
    State → Prop where
  | key {last : Option String} :
      ReadyForKey read frames (.reading .key (.object read last :: frames))
  | keyOrClose {last : Option String} :
      ReadyForKey read frames (.reading .keyOrClose (.object read last :: frames))

theorem ReadyForKey.read_member {read : List (Option String × Draft)} {frames : List Frame}
    {s : State} (h : ReadyForKey read frames s) {ts : List Token} {d : Draft} (takes : Takes ts d)
    (k : Option String) (more : List Token) :
    (.string k :: .colon :: (ts ++ more)).foldl step s =
      more.foldl step (.reading .separator (.object ((k, d) :: read) k :: frames)) := by
  have key : step s (.string k) = .reading .colon (.object read k :: frames) := by
    cases h <;> rfl
  rw [List.foldl_cons, key]
  exact takes more .value

theorem read_moreMembers {ms : List (String × Value)} (members : ∀ m ∈ ms, Reads m.2)
    (read : List (Option String × Draft)) (last : Option String) (frames : List Frame)
    (ts : List Token) :
    (moreMemberTokens ms ++ ts).foldl step (.reading .separator (.object read last :: frames)) =
      ts.foldl step (finish frames (.object (read.reverse ++ ofMembers ms) true)) := by
  induction ms generalizing read last with
  | nil =>
    rw [ofMembers, List.append_nil]
    rfl
  | cons m ms ih =>
    obtain ⟨first, others⟩ := List.forall_mem_cons.1 members
    have rest := ih others ((some m.1, ofValue m.2) :: read) (some m.1)
    rw [List.reverse_cons, List.append_assoc, List.singleton_append] at rest
    rw [moreMemberTokens, List.append_assoc, ofMembers, ← rest]
    exact ReadyForKey.key.read_member first m.1 (moreMemberTokens ms ++ ts)

theorem reads_object {ms : List (String × Value)} (members : ∀ m ∈ ms, Reads m.2) :
    Reads (.object ms) := by
  intro frames s ts ready
  rw [Value.tokens, List.cons_append, List.foldl_cons, ready.step (by decide)]
  cases ms with
  | nil => rfl
  | cons m ms =>
    obtain ⟨first, others⟩ := List.forall_mem_cons.1 members
    rw [memberTokens, List.append_assoc]
    refine (ReadyForKey.keyOrClose.read_member first m.1 (moreMemberTokens ms ++ ts)).trans ?_
    exact read_moreMembers others [(some m.1, ofValue m.2)] (some m.1) frames ts

/-! ## Whole texts -/

mutual

theorem reads : ∀ v : Value, Reads v
  | .null => reads_atom rfl rfl
  | .bool _ => reads_atom rfl rfl
  | .number _ => reads_atom rfl rfl
  | .string _ => reads_atom rfl rfl
  | .array vs => reads_array (reads_elements vs)
  | .object ms => reads_object (reads_members ms)

theorem reads_elements : ∀ vs : List Value, ∀ v ∈ vs, Reads v
  | [] => List.forall_mem_nil _
  | v :: vs => List.forall_mem_cons.2 ⟨reads v, reads_elements vs⟩

theorem reads_members : ∀ ms : List (String × Value), ∀ m ∈ ms, Reads m.2
  | [] => List.forall_mem_nil _
  | (_, v) :: ms => List.forall_mem_cons.2 ⟨reads v, reads_members ms⟩

end

theorem parse_of_tokens {text : List Char} {ts : List Token} (h : Yields text ts) :
    parse text = (ts.foldl step (.reading .value [])).result := by
  have tokens := h [] stops_nil
  have nothing : Token.scan [] = [] := Token.scan_eq []
  rw [List.append_nil, nothing, List.append_nil] at tokens
  rw [parse, tokens]

theorem parse_of_yields {text : List Char} {v : Value} (h : Yields text v.tokens) :
    parse text = (ofValue v, false) := by
  have start : Ready [] (.reading .value []) := .value
  have all := reads v [] start
  rw [List.append_nil] at all
  rw [parse_of_tokens h, all]
  rfl

theorem parse_write {room : Nat} {v : Value} (within : v.Within room) :
    parse v.write = (ofValue v, false) :=
  parse_of_yields (yields_write within)

theorem parse_writeIndented {room : Nat} {v : Value} (within : v.Within room) :
    parse (v.writeIndented 0) = (ofValue v, false) :=
  parse_of_yields (yields_writeIndented within 0)

end Draft

end Storyline.Json
