import Storyline.Proofs.Json.Tokens

/-!
# Tokens in front of further text

The tokens of a text stay its tokens in front of whatever does not belong to its last number. Of
strings this holds without any condition, since they end with a quote.

* `pieces?_append`, `scanNumber_append`, `scanToken_append`: a string, a number, any token.
* `Token.yields_scan`: a whole text.
-/

namespace Storyline.Json

variable {cs rest more : List Char}

/-! ## Strings -/

theorem pieces?_append {ps : List Piece} (h : pieces? cs = some (ps, rest)) (more : List Char) :
    pieces? (cs ++ more) = some (ps, rest ++ more) := by
  fun_induction pieces? cs generalizing ps rest with
  | case1 => simp at h
  | case2 cs =>
    obtain ⟨rfl, rfl⟩ := Prod.mk.inj (Option.some.inj h)
    rfl
  | case3 a b c d cs ih =>
    simp only [Option.bind_eq_bind, Option.bind_eq_some_iff] at h
    obtain ⟨n, unit, ⟨qs, r⟩, read, same⟩ := h
    simp only [List.cons_append]
    rw [pieces?, unit, ih read]
    simp_all
  | case4 c cs other ih =>
    simp only [Option.bind_eq_bind, Option.bind_eq_some_iff] at h
    obtain ⟨e, named, ⟨qs, r⟩, read, same⟩ := h
    have notNumber : c ≠ 'u' := by
      rintro rfl
      contradiction
    simp only [List.cons_append]
    rw [pieces?_named named notNumber, ih read]
    simp_all [consPiece]
  | case5 => simp at h
  | case6 c cs notQuote notNumber notEscape visible ih =>
    simp only [Option.bind_eq_bind, Option.bind_eq_some_iff] at h
    obtain ⟨⟨qs, r⟩, read, same⟩ := h
    have notBackslash : c ≠ '\\' := by
      rintro rfl
      cases cs with
      | nil => simp [pieces?] at read
      | cons c cs => exact notEscape c cs rfl rfl
    have notQuote : c ≠ '"' := fun quote => notQuote quote
    simp only [List.cons_append]
    rw [pieces?_plain notQuote notBackslash visible, ih read]
    simp_all [consPiece]

/-! ## Numbers -/

theorem scanDigits_append {ds : List Char} (h : scanDigits cs = some (ds, rest))
    (stops : Stops more) : scanDigits (cs ++ more) = some (ds, rest ++ more) := by
  have taken : (cs ++ more).takeWhile Char.isDigit = cs.takeWhile Char.isDigit := by
    rw [List.takeWhile_append]
    split <;> rename_i all
    · rw [stops.digits.1, List.append_nil, (List.takeWhile_prefix _).eq_of_length all]
    · rfl
  have dropped : (cs ++ more).dropWhile Char.isDigit = cs.dropWhile Char.isDigit ++ more := by
    rw [List.dropWhile_append]
    split <;> rename_i all
    · rw [stops.digits.2, List.isEmpty_iff.1 all, List.nil_append]
    · rfl
  simp only [scanDigits, taken, dropped] at h ⊢
  split at h
  · contradiction
  · rename_i some
    obtain ⟨rfl, rfl⟩ := Prod.mk.inj (Option.some.inj h)
    rw [if_neg some]

theorem digit_of_scanDigits {ds : List Char} (h : scanDigits cs = some (ds, rest)) :
    ∃ c cs', cs = c :: cs' ∧ c.isDigit := by
  cases cs with
  | nil => contradiction
  | cons c cs =>
    refine ⟨c, cs, rfl, ?_⟩
    by_contra other
    simp [scanDigits, other] at h

theorem scanInteger_append {ds : List Char} (h : scanInteger cs = some (ds, rest))
    (stops : Stops more) : scanInteger (cs ++ more) = some (ds, rest ++ more) := by
  obtain ⟨⟨digits, rest'⟩, read, same⟩ := Option.bind_eq_some_iff.1 h
  simp only [scanInteger, scanDigits_append read stops]
  grind

theorem scanFraction_append {ds : Option (List Char)} (h : scanFraction cs = some (ds, rest))
    (stops : Stops more) : scanFraction (cs ++ more) = some (ds, rest ++ more) := by
  cases cs with
  | nil =>
    obtain ⟨rfl, rfl⟩ := Prod.mk.inj (Option.some.inj h)
    exact stops.fraction
  | cons c cs =>
    by_cases point : c = '.'
    · subst point
      obtain ⟨⟨digits, rest'⟩, read, same⟩ := Option.map_eq_some_iff.1 h
      obtain ⟨rfl, rfl⟩ := Prod.mk.inj same
      simp [scanFraction, scanDigits_append read stops]
    · have none (cs : List Char) : scanFraction (c :: cs) = some (none, c :: cs) := by
        simp [scanFraction, point]
      rw [none] at h
      obtain ⟨rfl, rfl⟩ := Prod.mk.inj (Option.some.inj h)
      exact none _

theorem scanSigned_append {n : Int} (h : scanSigned cs = some (n, rest)) (stops : Stops more) :
    scanSigned (cs ++ more) = some (n, rest ++ more) := by
  unfold scanSigned at h
  split at h
  case h_3 cs notMinus notPlus =>
    obtain ⟨⟨digits, rest'⟩, read, same⟩ := Option.map_eq_some_iff.1 h
    obtain ⟨rfl, rfl⟩ := Prod.mk.inj same
    obtain ⟨c, cs, rfl, -⟩ := digit_of_scanDigits read
    have all := scanDigits_append read stops
    rw [List.cons_append] at all ⊢
    rw [scanSigned, all]
    · rfl
    · exact fun _ minus => notMinus cs (by rw [(List.cons.inj minus).1])
    · exact fun _ plus => notPlus cs (by rw [(List.cons.inj plus).1])
  all_goals
    obtain ⟨⟨digits, rest'⟩, read, same⟩ := Option.map_eq_some_iff.1 h
    obtain ⟨rfl, rfl⟩ := Prod.mk.inj same
    simp [scanSigned, scanDigits_append read stops]

theorem scanExponent_append {n : Option Int} (h : scanExponent cs = some (n, rest))
    (stops : Stops more) : scanExponent (cs ++ more) = some (n, rest ++ more) := by
  cases cs with
  | nil =>
    obtain ⟨rfl, rfl⟩ := Prod.mk.inj (Option.some.inj h)
    exact stops.exponent
  | cons c cs =>
    rw [List.cons_append, scanExponent] at *
    split at h <;> rename_i letter
    · obtain ⟨⟨m, rest'⟩, read, same⟩ := Option.map_eq_some_iff.1 h
      obtain ⟨rfl, rfl⟩ := Prod.mk.inj same
      simp [letter, scanSigned_append read stops]
    · obtain ⟨rfl, rfl⟩ := Prod.mk.inj (Option.some.inj h)
      rw [if_neg letter]
      rfl

theorem scanNumber_append {negative : Bool} {t : Token}
    (h : scanNumber negative cs = some (t, rest)) (stops : Stops more) :
    scanNumber negative (cs ++ more) = some (t, rest ++ more) := by
  simp only [scanNumber, Option.bind_eq_bind, Option.bind_eq_some_iff] at h
  obtain ⟨⟨integer, cs₁⟩, first, ⟨fraction, cs₂⟩, second, ⟨exponent, cs₃⟩, third, same⟩ := h
  obtain ⟨rfl, rfl⟩ := Prod.mk.inj (Option.some.inj same)
  rw [scanNumber, scanInteger_append first stops]
  simp [scanFraction_append second stops, scanExponent_append third stops]

/-! ## Tokens -/

theorem scanToken_append {t : Token} (h : scanToken cs = some (t, rest)) (stops : Stops more) :
    scanToken (cs ++ more) = some (t, rest ++ more) := by
  unfold scanToken at h
  split at h
  case h_10 cs =>
    obtain ⟨⟨ps, rest'⟩, read, same⟩ := Option.bind_eq_some_iff.1 h
    show scanString (cs ++ more) = _
    simp only [scanString, pieces?_append read more]
    simp_all
  case h_11 cs => exact scanNumber_append h stops
  case h_12 =>
    -- Only a digit is left to begin a token.
    obtain ⟨⟨integer, rest'⟩, first, -⟩ := Option.bind_eq_some_iff.1 h
    obtain ⟨⟨digits, rest'⟩, read, -⟩ := Option.bind_eq_some_iff.1 first
    obtain ⟨c, cs, rfl, digit⟩ := digit_of_scanDigits read
    rw [List.cons_append, scanToken_of_digit digit]
    exact scanNumber_append h stops
  all_goals
    obtain ⟨rfl, rfl⟩ := Prod.mk.inj (Option.some.inj h)
    rfl

namespace Token

theorem scan_dropBlanks (cs more : List Char) :
    scan (cs ++ more) = scan (cs.dropWhile isBlank ++ more) := by
  have blank : ∀ c ∈ cs.takeWhile isBlank, isBlank c :=
    List.all_eq_true.1 (List.all_takeWhile)
  have parts : cs.takeWhile isBlank ++ cs.dropWhile isBlank = cs := List.takeWhile_append_dropWhile
  calc
    scan (cs ++ more) = scan (cs.takeWhile isBlank ++ cs.dropWhile isBlank ++ more) := by rw [parts]
    _ = scan (cs.dropWhile isBlank ++ more) := by rw [List.append_assoc, scan_blanks blank]

theorem yields_scan {text : List Char} (sound : .bad ∉ scan text) : Yields text (scan text) := by
  intro more stops
  induction text using scan.induct with
  | case1 cs nothing =>
    have tokens : scan cs = [] := by rw [scan_eq, nothing]
    rw [tokens, scan_dropBlanks, nothing]
    rfl
  | case2 cs c r start none =>
    rw [scan_eq, start] at sound
    simp [none] at sound
  | case3 cs c r start t rest first shorter ih =>
    have visible : isBlank c = false := by
      have := List.head?_dropWhile_not isBlank cs
      rwa [start] at this
    have tokens : scan cs = t :: scan rest := by
      rw [scan_eq, start]
      simp only [first]
    rw [tokens] at sound
    have further := ih fun mem => sound (List.mem_cons_of_mem t mem)
    rw [tokens, scan_dropBlanks, start, List.cons_append, List.cons_append, ← further]
    exact scan_of_scanToken visible (scanToken_append first stops)

end Token

end Storyline.Json
