import Storyline.Json.Token
import Storyline.Json.Value
import Storyline.Proofs.Text.Numeral

/-!
# Scanning what was written

Strings and integers as the writer leaves them are scanned as one token each, whatever follows.

* `scanString_write`: a string is read back with all its characters.
* `scanToken_writeInt`: an integer of 64 bits is read back, if nothing that follows belongs to it.
* `Token.scan_of_scanToken`: the tokens of a text are the first one and those of the rest.
* `Token.scan_blanks`: blanks in front of a text leave its tokens as they are.
-/

namespace Storyline.Json

/-! ## Strings -/

/-- Whether a piece of a string stands for a character. Only controls are named by their number. -/
inductive Piece.Spells : Piece → Char → Prop where
  | char (c : Char) : Spells (.char c) c
  | unit {c : Char} (control : c.toNat < 0x20) : Spells (.unit c.toNat) c

theorem hexUnit?_control :
    ∀ n < 0x20, hexUnit? '0' '0' (Nat.digitChar (n / 16)) (Nat.digitChar (n % 16)) = some n := by
  decide

/-- A piece in front of some others that are read, and the text after them. -/
def consPiece (p : Piece) (read : Option (List Piece × List Char)) :
    Option (List Piece × List Char) :=
  read.bind fun (ps, rest) => some (p :: ps, rest)

theorem pieces?_named {c e : Char} (named : escaped? e = some c) (notNumber : e ≠ 'u')
    (rest : List Char) : pieces? ('\\' :: e :: rest) = consPiece (.char c) (pieces? rest) := by
  rw [pieces?]
  · simp [named, consPiece]
  · simp [notNumber]

theorem pieces?_control {n : Nat} (control : n < 0x20) (rest : List Char) :
    pieces?
        ('\\' :: 'u' :: '0' :: '0' :: Nat.digitChar (n / 16) :: Nat.digitChar (n % 16) :: rest) =
      consPiece (.unit n) (pieces? rest) := by
  rw [pieces?, hexUnit?_control n control]
  rfl

theorem pieces?_plain {c : Char} (notQuote : c ≠ '"') (notBackslash : c ≠ '\\')
    (visible : ¬ c.toNat < 0x20) (rest : List Char) :
    pieces? (c :: rest) = consPiece (.char c) (pieces? rest) := by
  rw [pieces?]
  · rw [if_neg visible]
    rfl
  · exact fun same => notQuote same
  · simp [notBackslash]
  · simp [notBackslash]

theorem pieces?_escape (c : Char) (rest : List Char) :
    ∃ p : Piece, p.Spells c ∧ pieces? (escape c ++ rest) = consPiece p (pieces? rest) := by
  unfold escape
  -- Seven characters have an escape of one letter.
  iterate 7
    split
    · subst_vars
      exact ⟨_, .char _, pieces?_named rfl (by decide) rest⟩
  rename_i notQuote notBackslash _ _ _ _ _
  split
  · rename_i control
    exact ⟨_, .unit control, pieces?_control control rest⟩
  · rename_i visible
    exact ⟨_, .char c, pieces?_plain notQuote notBackslash visible rest⟩

theorem pieces?_write (cs rest : List Char) :
    ∃ ps, List.Forall₂ Piece.Spells ps cs ∧
      pieces? (cs.flatMap escape ++ '"' :: rest) = some (ps, rest) := by
  induction cs with
  | nil => exact ⟨[], .nil, by simp [pieces?]⟩
  | cons c cs ih =>
    obtain ⟨ps, spells, read⟩ := ih
    obtain ⟨p, first, step⟩ := pieces?_escape c (cs.flatMap escape ++ '"' :: rest)
    refine ⟨p :: ps, .cons first spells, ?_⟩
    rw [List.flatMap_cons, List.append_assoc, step, read]
    rfl

theorem joinPieces_unit {n : Nat} (low : n < 0xD800) (ps : List Piece) :
    joinPieces (.unit n :: ps) = (joinPieces ps).map (Char.ofNat n :: ·) := by
  have notHigh : isHighSurrogate n = false := by simp [isHighSurrogate]; omega
  have notLow : isLowSurrogate n = false := by simp [isLowSurrogate]; omega
  cases ps with
  | nil => simp [joinPieces, notHigh, notLow]
  | cons p ps => cases p <;> simp [joinPieces, notHigh, notLow]

theorem joinPieces_of_spells {ps : List Piece} {cs : List Char}
    (spells : List.Forall₂ Piece.Spells ps cs) : joinPieces ps = some cs := by
  induction spells with
  | nil => rfl
  | cons first _ ih =>
    cases first with
    | char c => simp [joinPieces, ih]
    | @unit c control =>
      rw [joinPieces_unit (by omega), ih, Char.ofNat_toNat]
      rfl

theorem scanString_write (s : String) (rest : List Char) :
    scanString (s.toList.flatMap escape ++ '"' :: rest) = some (.string (some s), rest) := by
  obtain ⟨ps, spells, read⟩ := pieces?_write s.toList rest
  simp [scanString, read, joinPieces_of_spells spells]

/-! ## Integers -/

/-- Whether nothing at the start of a text can belong to a number before it. -/
def Stops (rest : List Char) : Prop :=
  ∀ c ∈ rest.head?, c.isDigit = false ∧ c ≠ '.' ∧ c ≠ 'e' ∧ c ≠ 'E'

theorem stops_nil : Stops [] := by simp [Stops]

theorem stops_cons {c : Char} (other : c = ',' ∨ c = ']' ∨ c = '\x7d' ∨ c = '\n')
    (rest : List Char) : Stops (c :: rest) := by
  rintro d same
  obtain rfl := Option.some.inj same
  rcases other with rfl | rfl | rfl | rfl <;> decide

namespace Stops

variable {rest : List Char}

theorem digits (h : Stops rest) :
    rest.takeWhile Char.isDigit = [] ∧ rest.dropWhile Char.isDigit = rest := by
  cases rest with
  | nil => exact ⟨rfl, rfl⟩
  | cons c rest => simp [(h c rfl).1]

theorem fraction (h : Stops rest) : scanFraction rest = some (none, rest) := by
  unfold scanFraction
  split
  · exact absurd rfl (h '.' rfl).2.1
  · rfl

theorem exponent (h : Stops rest) : scanExponent rest = some (none, rest) := by
  unfold scanExponent
  split
  · rename_i c cs
    have := h c rfl
    rw [if_neg (by tauto)]
  · rfl

end Stops

theorem scanDigits_toDigits (n : Nat) {rest : List Char} (stops : Stops rest) :
    scanDigits (Nat.toDigits 10 n ++ rest) = some (Nat.toDigits 10 n, rest) := by
  have digits : ∀ c ∈ Nat.toDigits 10 n, c.isDigit :=
    fun c mem => Nat.isDigit_of_mem_toDigits (by decide) (by decide) mem
  simp [scanDigits, List.takeWhile_append_of_pos digits, List.dropWhile_append_of_pos digits,
    stops.digits, Nat.toDigits_ne_nil]

theorem scanInteger_toDigits (n : Nat) {rest : List Char} (stops : Stops rest) :
    scanInteger (Nat.toDigits 10 n ++ rest) = some (Nat.toDigits 10 n, rest) := by
  have alone : ¬ ((Nat.toDigits 10 n).head? = some '0' ∧ (Nat.toDigits 10 n).length ≠ 1) := by
    rintro ⟨zero, more⟩
    obtain ⟨cs, digits⟩ := List.head?_eq_some_iff.1 zero
    obtain rfl := Text.eq_zero_of_toDigits digits
    exact more rfl
  simpa [scanInteger, scanDigits_toDigits n stops] using alone

theorem scanNumber_toDigits (negative : Bool) (n : Nat) {rest : List Char} (stops : Stops rest) :
    scanNumber negative (Nat.toDigits 10 n ++ rest) =
      some (.number (Numeral.number ⟨negative, Nat.toDigits 10 n, none, none⟩), rest) := by
  simp [scanNumber, scanInteger_toDigits n stops, stops.fraction, stops.exponent]

theorem scanToken_of_digit {c : Char} (digit : c.isDigit) (cs : List Char) :
    scanToken (c :: cs) = scanNumber false (c :: cs) := by
  unfold scanToken
  split <;> simp_all

theorem scanToken_writeInt {n : Int} (least : -0x8000000000000000 ≤ n)
    (greatest : n ≤ 0xFFFFFFFFFFFFFFFF) {rest : List Char} (stops : Stops rest) :
    scanToken (writeInt n ++ rest) = some (.number (.whole n), rest) := by
  cases n with
  | ofNat n =>
    have small : n < 0x10000000000000000 := by
      have := Int.ofNat_eq_natCast n
      omega
    have read := scanNumber_toDigits false n stops
    rw [number_natural small] at read
    show scanToken (Nat.toDigits 10 n ++ rest) = _
    cases digits : Nat.toDigits 10 n with
    | nil => exact absurd digits Nat.toDigits_ne_nil
    | cons c cs =>
      have digit : c.isDigit :=
        Nat.isDigit_of_mem_toDigits (by decide) (by decide) (digits ▸ List.mem_cons_self)
      rw [digits] at read
      rw [List.cons_append, scanToken_of_digit digit]
      exact read
  | negSucc n =>
    have small : n + 1 ≤ 0x8000000000000000 := by omega
    have read := scanNumber_toDigits true (n + 1) stops
    rw [number_negative (Nat.succ_pos n) small] at read
    exact read

theorem isBlank_of_digit {c : Char} (digit : c.isDigit) : isBlank c = false := by
  simp only [isBlank, Bool.or_eq_false_iff, beq_eq_false_iff_ne]
  refine ⟨⟨⟨?_, ?_⟩, ?_⟩, ?_⟩ <;>
  · rintro rfl
    contradiction

theorem writeInt_visible (n : Int) : ∃ c cs, writeInt n = c :: cs ∧ isBlank c = false := by
  cases n with
  | ofNat n =>
    show ∃ c cs, Nat.toDigits 10 n = c :: cs ∧ isBlank c = false
    cases digits : Nat.toDigits 10 n with
    | nil => exact absurd digits Nat.toDigits_ne_nil
    | cons c cs =>
      have digit : c.isDigit :=
        Nat.isDigit_of_mem_toDigits (by decide) (by decide) (digits ▸ List.mem_cons_self)
      exact ⟨c, cs, rfl, isBlank_of_digit digit⟩
  | negSucc n => exact ⟨_, _, rfl, rfl⟩

/-! ## Tokens -/

namespace Token

theorem scan_eq (cs : List Char) :
    scan cs =
      match cs.dropWhile isBlank with
      | [] => []
      | c :: r =>
        match scanToken (c :: r) with
        | none => [.bad]
        | some (t, rest) => t :: scan rest := by
  rw [scan]
  split
  · rename_i start
    simp only [start]
  · rename_i start
    simp only [start]
    split <;> rename_i first <;> simp only [first]

theorem scan_of_scanToken {c : Char} {cs rest : List Char} {t : Token}
    (visible : isBlank c = false) (first : scanToken (c :: cs) = some (t, rest)) :
    scan (c :: cs) = t :: scan rest := by
  have start : (c :: cs).dropWhile isBlank = c :: cs := by simp [visible]
  rw [scan_eq, start]
  dsimp only
  rw [first]

theorem scan_blanks {blanks : List Char} (blank : ∀ c ∈ blanks, isBlank c) (cs : List Char) :
    scan (blanks ++ cs) = scan cs := by
  rw [scan_eq, List.dropWhile_append_of_pos blank, ← scan_eq]

end Token

end Storyline.Json
