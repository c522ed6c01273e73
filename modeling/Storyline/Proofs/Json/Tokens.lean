import Storyline.Json.Value
import Storyline.Proofs.Json.Scan

/-!
# The tokens of a value

A value has the same tokens in either layout of its text: the indented text differs from the compact
one by blanks alone.

* `Value.tokens`: the tokens that stand for a value.
* `Value.Within`: the values that can be written and read back.
* `yields_write`, `yields_writeIndented`: the tokens of the two layouts.
-/

namespace Storyline.Json

mutual

/-- The tokens that stand for a value. -/
def Value.tokens : Value → List Token
  | .null => [.null]
  | .bool b => [.bool b]
  | .number n => [.number (.whole n)]
  | .string s => [.string (some s)]
  | .array elements => .openArray :: elementTokens elements
  | .object members => .openObject :: memberTokens members

/-- The tokens of the elements of an array, with its closing bracket. -/
def elementTokens : List Value → List Token
  | [] => [.closeArray]
  | v :: vs => v.tokens ++ moreElementTokens vs

def moreElementTokens : List Value → List Token
  | [] => [.closeArray]
  | v :: vs => .comma :: v.tokens ++ moreElementTokens vs

/-- The tokens of the members of an object, with its closing brace. -/
def memberTokens : List (String × Value) → List Token
  | [] => [.closeObject]
  | (k, v) :: ms => .string (some k) :: .colon :: v.tokens ++ moreMemberTokens ms

def moreMemberTokens : List (String × Value) → List Token
  | [] => [.closeObject]
  | (k, v) :: ms => .comma :: .string (some k) :: .colon :: v.tokens ++ moreMemberTokens ms

end

/-- A value whose integers have 64 bits and which is nested no deeper than `room`. -/
inductive Value.Within : Nat → Value → Prop where
  | null {room : Nat} : Within room .null
  | bool {room : Nat} (b : Bool) : Within room (.bool b)
  | number {room : Nat} {n : Int} (least : -0x8000000000000000 ≤ n)
      (greatest : n ≤ 0xFFFFFFFFFFFFFFFF) : Within room (.number n)
  | string {room : Nat} (s : String) : Within room (.string s)
  | array {room : Nat} {vs : List Value} (elements : ∀ v ∈ vs, Within room v) :
      Within (room + 1) (.array vs)
  | object {room : Nat} {ms : List (String × Value)} (members : ∀ m ∈ ms, Within room m.2) :
      Within (room + 1) (.object ms)

/-! ## Texts and their tokens -/

/-- Whether a text has these tokens in front of those of whatever follows, as long as a number at
its end stops there. -/
def Yields (text : List Char) (ts : List Token) : Prop :=
  ∀ rest : List Char, Stops rest → Token.scan (text ++ rest) = ts ++ Token.scan rest

/-- The characters that are tokens by themselves. -/
inductive Mark : Char → Token → Prop where
  | openArray : Mark '[' .openArray
  | closeArray : Mark ']' .closeArray
  | openObject : Mark '\x7b' .openObject
  | closeObject : Mark '\x7d' .closeObject
  | comma : Mark ',' .comma
  | colon : Mark ':' .colon

/-- Whether a text begins in such a way that a number before it stops. -/
def Separates (text : List Char) : Prop :=
  ∃ c ∈ text.head?, c = ',' ∨ c = ']' ∨ c = '\x7d' ∨ c = '\n'

theorem Separates.stops {text : List Char} (h : Separates text) (rest : List Char) :
    Stops (text ++ rest) := by
  obtain ⟨c, first, other⟩ := h
  obtain ⟨cs, rfl⟩ := List.head?_eq_some_iff.1 first
  exact stops_cons other _

namespace Yields

variable {text more : List Char} {ts ts' : List Token}

theorem nil : Yields [] [] :=
  fun _ _ => rfl

theorem append (h : Yields text ts) (h' : Yields more ts') (separate : Separates more) :
    Yields (text ++ more) (ts ++ ts') := by
  intro rest stops
  rw [List.append_assoc, h _ (separate.stops rest), h' rest stops, List.append_assoc]

theorem mark {c : Char} {t : Token} (mark : Mark c t) (h : Yields text ts) :
    Yields (c :: text) (t :: ts) := by
  intro rest stops
  rw [List.cons_append, List.cons_append, ← h rest stops]
  cases mark <;> exact Token.scan_of_scanToken rfl rfl

theorem string (k : String) (h : Yields text ts) :
    Yields (writeString k ++ text) (.string (some k) :: ts) := by
  intro rest stops
  have quoted : writeString k ++ text ++ rest =
      '"' :: (k.toList.flatMap escape ++ '"' :: (text ++ rest)) := by
    simp [writeString]
  rw [quoted, List.cons_append, ← h rest stops]
  exact Token.scan_of_scanToken rfl (scanString_write k _)

theorem blanks {blanks : List Char} (blank : ∀ c ∈ blanks, isBlank c) (h : Yields text ts) :
    Yields (blanks ++ text) ts := by
  intro rest stops
  rw [List.append_assoc, Token.scan_blanks blank, h rest stops]

theorem newLine (level : Nat) (h : Yields text ts) : Yields (newLine level ++ text) ts :=
  h.blanks (by simp [Json.newLine, isBlank])

theorem space (h : Yields text ts) : Yields (' ' :: text) ts := by
  have blank : ∀ c ∈ [' '], isBlank c := by simp [isBlank]
  exact h.blanks blank

theorem number {n : Int} (least : -0x8000000000000000 ≤ n) (greatest : n ≤ 0xFFFFFFFFFFFFFFFF) :
    Yields (writeInt n) [.number (.whole n)] := by
  intro rest stops
  have first := scanToken_writeInt least greatest stops
  obtain ⟨c, cs, written, visible⟩ := writeInt_visible n
  rw [written] at first ⊢
  exact Token.scan_of_scanToken visible first

theorem bool (b : Bool) : Yields (writeBool b) [.bool b] := by
  intro rest _
  cases b <;> exact Token.scan_of_scanToken rfl rfl

theorem null : Yields Value.null.write [.null] :=
  fun _ _ => Token.scan_of_scanToken rfl rfl

end Yields

/-! ## The compact layout -/

theorem yields_moreElements {vs : List Value} (elements : ∀ v ∈ vs, Yields v.write v.tokens) :
    Separates (writeMoreElements vs) ∧ Yields (writeMoreElements vs) (moreElementTokens vs) := by
  induction vs with
  | nil => exact ⟨⟨_, rfl, by simp⟩, .mark .closeArray .nil⟩
  | cons v vs ih =>
    obtain ⟨first, others⟩ := List.forall_mem_cons.1 elements
    obtain ⟨separate, rest⟩ := ih others
    exact ⟨⟨_, rfl, by simp⟩, .mark .comma (first.append rest separate)⟩

theorem yields_moreMembers {ms : List (String × Value)}
    (members : ∀ m ∈ ms, Yields m.2.write m.2.tokens) :
    Separates (writeMoreMembers ms) ∧ Yields (writeMoreMembers ms) (moreMemberTokens ms) := by
  induction ms with
  | nil => exact ⟨⟨_, rfl, by simp⟩, .mark .closeObject .nil⟩
  | cons m ms ih =>
    obtain ⟨first, others⟩ := List.forall_mem_cons.1 members
    obtain ⟨separate, rest⟩ := ih others
    refine ⟨⟨_, rfl, by simp⟩, ?_⟩
    have member := (first.append rest separate).mark .colon |>.string m.1 |>.mark .comma
    simpa [writeMoreMembers, moreMemberTokens] using member

theorem yields_write {room : Nat} {v : Value} (within : v.Within room) :
    Yields v.write v.tokens := by
  induction within with
  | null => exact .null
  | bool b => exact .bool b
  | number least greatest => exact .number least greatest
  | string s => simpa [Value.write, Value.tokens] using Yields.nil.string s
  | @array _ vs _ ih =>
    refine .mark .openArray ?_
    cases vs with
    | nil => exact .mark .closeArray .nil
    | cons v vs =>
      -- Behind an element stands a comma or the bracket, so that a number stops there.
      obtain ⟨first, others⟩ := List.forall_mem_cons.1 ih
      obtain ⟨separate, rest⟩ := yields_moreElements others
      exact first.append rest separate
  | @object _ ms _ ih =>
    refine .mark .openObject ?_
    cases ms with
    | nil => exact .mark .closeObject .nil
    | cons m ms =>
      obtain ⟨first, others⟩ := List.forall_mem_cons.1 ih
      obtain ⟨separate, rest⟩ := yields_moreMembers others
      have member := (first.append rest separate).mark .colon |>.string m.1
      simpa [writeMembers, memberTokens] using member

/-! ## The indented layout -/

section Indented

variable {level : Nat}

theorem yields_indentElements {vs : List Value}
    (elements : ∀ v ∈ vs, Yields (v.writeIndented (level + 1)) v.tokens) :
    Separates (indentElements level vs) ∧
      Yields (indentElements level vs) (moreElementTokens vs) := by
  induction vs with
  | nil => exact ⟨⟨_, rfl, by simp⟩, (Yields.nil.mark .closeArray).newLine level⟩
  | cons v vs ih =>
    obtain ⟨first, others⟩ := List.forall_mem_cons.1 elements
    obtain ⟨separate, rest⟩ := ih others
    refine ⟨⟨_, rfl, by simp⟩, ?_⟩
    have element := (first.append rest separate).newLine (level + 1) |>.mark .comma
    simpa [indentElements, moreElementTokens] using element

theorem yields_indentMembers {ms : List (String × Value)}
    (members : ∀ m ∈ ms, Yields (m.2.writeIndented (level + 1)) m.2.tokens) :
    Separates (indentMembers level ms) ∧
      Yields (indentMembers level ms) (moreMemberTokens ms) := by
  induction ms with
  | nil => exact ⟨⟨_, rfl, by simp⟩, (Yields.nil.mark .closeObject).newLine level⟩
  | cons m ms ih =>
    obtain ⟨first, others⟩ := List.forall_mem_cons.1 members
    obtain ⟨separate, rest⟩ := ih others
    refine ⟨⟨_, rfl, by simp⟩, ?_⟩
    have member := (first.append rest separate).space.mark .colon |>.string m.1
      |>.newLine (level + 1) |>.mark .comma
    simpa [indentMembers, moreMemberTokens] using member

end Indented

theorem yields_writeIndented {room : Nat} {v : Value} (within : v.Within room) (level : Nat) :
    Yields (v.writeIndented level) v.tokens := by
  induction within generalizing level with
  | null => exact .null
  | bool b => exact .bool b
  | number least greatest => exact .number least greatest
  | string s => simpa [Value.writeIndented, Value.tokens] using Yields.nil.string s
  | @array _ vs _ ih =>
    cases vs with
    | nil => exact .mark .openArray (.mark .closeArray .nil)
    | cons v vs =>
      obtain ⟨first, others⟩ := List.forall_mem_cons.1 fun v mem => ih v mem (level + 1)
      obtain ⟨separate, rest⟩ := yields_indentElements others
      have elements := (first.append rest separate).newLine (level + 1) |>.mark .openArray
      simpa [Value.writeIndented, Value.tokens, elementTokens] using elements
  | @object _ ms _ ih =>
    cases ms with
    | nil => exact .mark .openObject (.mark .closeObject .nil)
    | cons m ms =>
      obtain ⟨first, others⟩ := List.forall_mem_cons.1 fun m mem => ih m mem (level + 1)
      obtain ⟨separate, rest⟩ := yields_indentMembers others
      have members := (first.append rest separate).space.mark .colon |>.string m.1
        |>.newLine (level + 1) |>.mark .openObject
      simpa [Value.writeIndented, Value.tokens, memberTokens] using members

end Storyline.Json
