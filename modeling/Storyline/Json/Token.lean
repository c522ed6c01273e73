import Storyline.Json.Number

/-!
# JSON tokens

A text is cut into tokens up to the first place where none can begin; there the last token is
`bad`. A string is kept with its escapes resolved; one whose escapes name half of a surrogate pair
is a string without a text.

* `Token.scan`: the tokens of a text.
-/

namespace Storyline.Json

/-- The smallest parts of a JSON text. -/
inductive Token where
  | openArray
  | closeArray
  | openObject
  | closeObject
  | comma
  | colon
  | null
  | bool (b : Bool)
  | number (n : Number)
  | string (s : Option String)
  | bad
  deriving DecidableEq, Repr

/-! ## Strings -/

/-- A part of a string: a character, or the sixteen bits that a numeric escape names. -/
inductive Piece where
  | char (c : Char)
  | unit (n : Nat)
  deriving DecidableEq, Repr

/-- The value of a hexadecimal digit. -/
def hexDigit? (c : Char) : Option Nat :=
  if c.isDigit then some (c.toNat - '0'.toNat)
  else if 'a' ≤ c && c ≤ 'f' then some (c.toNat - 'a'.toNat + 10)
  else if 'A' ≤ c && c ≤ 'F' then some (c.toNat - 'A'.toNat + 10)
  else none

/-- The value of four hexadecimal digits. -/
def hexUnit? (a b c d : Char) : Option Nat := do
  let a ← hexDigit? a
  let b ← hexDigit? b
  let c ← hexDigit? c
  let d ← hexDigit? d
  return ((a * 16 + b) * 16 + c) * 16 + d

/-- The character that a one-letter escape stands for. -/
def escaped? (c : Char) : Option Char :=
  if c = '"' ∨ c = '\\' ∨ c = '/' then some c
  else if c = 'b' then some '\x08'
  else if c = 'f' then some '\x0c'
  else if c = 'n' then some '\n'
  else if c = 'r' then some '\r'
  else if c = 't' then some '\t'
  else none

/-- The pieces of a string up to its closing quote, and the text after it. Raw controls, unknown
escapes and a missing quote are refused. -/
def pieces? : List Char → Option (List Piece × List Char)
  | [] => none
  | '"' :: cs => some ([], cs)
  | '\\' :: 'u' :: a :: b :: c :: d :: cs => do
    let n ← hexUnit? a b c d
    let (ps, rest) ← pieces? cs
    return (.unit n :: ps, rest)
  | '\\' :: c :: cs => do
    let e ← escaped? c
    let (ps, rest) ← pieces? cs
    return (.char e :: ps, rest)
  | c :: cs =>
    if c.toNat < 0x20 then none
    else do
      let (ps, rest) ← pieces? cs
      return (.char c :: ps, rest)

/-- The first half of a surrogate pair. -/
def isHighSurrogate (n : Nat) : Bool :=
  0xD800 ≤ n && n < 0xDC00

/-- The second half of a surrogate pair. -/
def isLowSurrogate (n : Nat) : Bool :=
  0xDC00 ≤ n && n < 0xE000

/-- The characters of the pieces, if every surrogate has its other half. -/
def joinPieces : List Piece → Option (List Char)
  | [] => some []
  | .char c :: ps => (joinPieces ps).map (c :: ·)
  | .unit n :: .unit m :: ps =>
    if isHighSurrogate n then
      if isLowSurrogate m then
        (joinPieces ps).map (Char.ofNat (0x10000 + (n - 0xD800) * 0x400 + (m - 0xDC00)) :: ·)
      else none
    else if isLowSurrogate n then none
    else (joinPieces (.unit m :: ps)).map (Char.ofNat n :: ·)
  | .unit n :: ps =>
    if isHighSurrogate n || isLowSurrogate n then none
    else (joinPieces ps).map (Char.ofNat n :: ·)

/-- The string token after an opening quote. -/
def scanString (cs : List Char) : Option (Token × List Char) := do
  let (ps, rest) ← pieces? cs
  return (.string ((joinPieces ps).map String.ofList), rest)

/-! ## Numbers -/

/-- One digit at least. -/
def scanDigits (cs : List Char) : Option (List Char × List Char) :=
  let digits := cs.takeWhile Char.isDigit
  if digits.isEmpty then none else some (digits, cs.dropWhile Char.isDigit)

/-- The digits before the point: a zero stands alone. -/
def scanInteger (cs : List Char) : Option (List Char × List Char) := do
  let (digits, rest) ← scanDigits cs
  if digits.head? == some '0' && digits.length != 1 then none else return (digits, rest)

/-- A point and the digits after it, or nothing. -/
def scanFraction : List Char → Option (Option (List Char) × List Char)
  | '.' :: cs => (scanDigits cs).map fun (digits, rest) => (some digits, rest)
  | cs => some (none, cs)

/-- The digits of an exponent with their sign. -/
def scanSigned : List Char → Option (Int × List Char)
  | '-' :: cs => (scanDigits cs).map fun (digits, rest) => (-(Nat.ofDigitChars 10 digits 0), rest)
  | '+' :: cs => (scanDigits cs).map fun (digits, rest) => (Nat.ofDigitChars 10 digits 0, rest)
  | cs => (scanDigits cs).map fun (digits, rest) => (Nat.ofDigitChars 10 digits 0, rest)

/-- A letter `e` and the exponent after it, or nothing. -/
def scanExponent : List Char → Option (Option Int × List Char)
  | c :: cs =>
    if c = 'e' ∨ c = 'E' then (scanSigned cs).map fun (n, rest) => (some n, rest)
    else some (none, c :: cs)
  | [] => some (none, [])

/-- The number token whose digits follow, its sign being known. -/
def scanNumber (negative : Bool) (cs : List Char) : Option (Token × List Char) := do
  let (integer, cs) ← scanInteger cs
  let (fraction, cs) ← scanFraction cs
  let (exponent, cs) ← scanExponent cs
  return (.number (Numeral.number ⟨negative, integer, fraction, exponent⟩), cs)

/-! ## The scanner -/

/-- Blanks between tokens. -/
def isBlank (c : Char) : Bool :=
  c == ' ' || c == '\t' || c == '\n' || c == '\r'

/-- The token at the start of a text that is not blank there, and the text after it. -/
def scanToken : List Char → Option (Token × List Char)
  | '[' :: cs => some (.openArray, cs)
  | ']' :: cs => some (.closeArray, cs)
  | '\x7b' :: cs => some (.openObject, cs)
  | '\x7d' :: cs => some (.closeObject, cs)
  | ',' :: cs => some (.comma, cs)
  | ':' :: cs => some (.colon, cs)
  | 'n' :: 'u' :: 'l' :: 'l' :: cs => some (.null, cs)
  | 't' :: 'r' :: 'u' :: 'e' :: cs => some (.bool true, cs)
  | 'f' :: 'a' :: 'l' :: 's' :: 'e' :: cs => some (.bool false, cs)
  | '"' :: cs => scanString cs
  | '-' :: cs => scanNumber true cs
  | cs => scanNumber false cs

/-! ## Each token takes a part of the text -/

theorem length_of_pieces? {cs rest : List Char} {ps : List Piece}
    (h : pieces? cs = some (ps, rest)) : rest.length < cs.length := by
  fun_induction pieces? cs generalizing ps rest with
  | case1 => simp at h
  | case2 cs => grind
  | case3 a b c d cs ih =>
    simp only [Option.bind_eq_bind, Option.bind_eq_some_iff] at h
    obtain ⟨n, -, ⟨qs, r⟩, hq, h⟩ := h
    have := ih hq
    simp at h
    simp only [List.length_cons]
    grind
  | case4 c cs _ ih =>
    simp only [Option.bind_eq_bind, Option.bind_eq_some_iff] at h
    obtain ⟨e, -, ⟨qs, r⟩, hq, h⟩ := h
    have := ih hq
    simp at h
    grind
  | case5 => simp at h
  | case6 c cs _ _ _ _ ih =>
    simp only [Option.bind_eq_bind, Option.bind_eq_some_iff] at h
    obtain ⟨⟨qs, r⟩, hq, h⟩ := h
    have := ih hq
    simp at h
    grind

theorem length_of_scanDigits {cs ds rest : List Char} (h : scanDigits cs = some (ds, rest)) :
    rest.length < cs.length := by
  have hl :
      (cs.takeWhile Char.isDigit).length + (cs.dropWhile Char.isDigit).length = cs.length := by
    rw [← List.length_append, List.takeWhile_append_dropWhile]
  unfold scanDigits at h
  simp only at h
  split at h
  · simp at h
  · next he =>
    have : 0 < (cs.takeWhile Char.isDigit).length := by
      cases hd : cs.takeWhile Char.isDigit with
      | nil => simp [hd] at he
      | cons => simp
    grind

theorem length_of_scanFraction {cs rest : List Char} {ds : Option (List Char)}
    (h : scanFraction cs = some (ds, rest)) : rest.length ≤ cs.length := by
  unfold scanFraction at h
  split at h
  · next cs =>
    obtain ⟨⟨ds, r⟩, hd, h⟩ := Option.map_eq_some_iff.1 h
    have := length_of_scanDigits hd
    grind
  · grind

theorem length_of_scanSigned {cs rest : List Char} {n : Int}
    (h : scanSigned cs = some (n, rest)) : rest.length ≤ cs.length := by
  unfold scanSigned at h
  split at h <;>
  · obtain ⟨⟨ds, r⟩, hd, h⟩ := Option.map_eq_some_iff.1 h
    have := length_of_scanDigits hd
    grind

theorem length_of_scanExponent {cs rest : List Char} {n : Option Int}
    (h : scanExponent cs = some (n, rest)) : rest.length ≤ cs.length := by
  unfold scanExponent at h
  split at h
  · split at h
    · obtain ⟨⟨ds, r⟩, hd, h⟩ := Option.map_eq_some_iff.1 h
      have := length_of_scanSigned hd
      grind
    · grind
  · grind

theorem length_of_scanNumber {b : Bool} {cs rest : List Char} {t : Token}
    (h : scanNumber b cs = some (t, rest)) : rest.length < cs.length := by
  simp only [scanNumber, scanInteger, Option.bind_eq_bind, Option.bind_eq_some_iff] at h
  obtain ⟨⟨i, c₁⟩, ⟨⟨d, c₀⟩, h₀, h₁⟩, ⟨f, c₂⟩, h₂, ⟨e, c₃⟩, h₃, h⟩ := h
  have := length_of_scanDigits h₀
  have := length_of_scanFraction h₂
  have := length_of_scanExponent h₃
  split at h₁ <;> simp at h h₁
  grind

theorem length_of_scanToken {cs rest : List Char} {t : Token}
    (h : scanToken cs = some (t, rest)) : rest.length < cs.length := by
  unfold scanToken at h
  split at h
  case h_10 cs =>
    simp only [scanString, Option.bind_eq_bind, Option.bind_eq_some_iff] at h
    obtain ⟨⟨ps, r⟩, hp, h⟩ := h
    have := length_of_pieces? hp
    simp at h
    grind
  case h_11 => have := length_of_scanNumber h; grind
  case h_12 => exact length_of_scanNumber h
  all_goals grind

theorem length_dropWhile_le (p : Char → Bool) (cs : List Char) :
    (cs.dropWhile p).length ≤ cs.length :=
  (List.dropWhile_sublist p).length_le

theorem length_lt_of_scanToken {cs r rest : List Char} {c : Char} {t : Token}
    (h : cs.dropWhile isBlank = c :: r) (ht : scanToken (c :: r) = some (t, rest)) :
    rest.length < cs.length := by
  have := length_of_scanToken ht
  have := length_dropWhile_le isBlank cs
  grind

/-- The tokens of a text. -/
def Token.scan (cs : List Char) : List Token :=
  match h : cs.dropWhile isBlank with
  | [] => []
  | c :: r =>
    match ht : scanToken (c :: r) with
    | none => [.bad]
    | some (t, rest) =>
      have := length_lt_of_scanToken h ht
      t :: Token.scan rest
termination_by cs.length

end Storyline.Json
