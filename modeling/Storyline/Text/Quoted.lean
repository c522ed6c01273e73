import Storyline.Text.Visible

/-!
# Quoted texts

A text between double quotes, with every character that could mislead the reader escaped.

* `quoted_of_plain`: a text of visible characters without quotes and backslashes is shown as it is.
-/

namespace Storyline.Text

def hex (n : Nat) : List Char :=
  Nat.toDigits 16 n

/-- How one character is written between quotes. -/
def escape (c : Char) : List Char :=
  if c = '"' then ['\\', '"']
  else if c = '\\' then ['\\', '\\']
  else if c = '\t' then ['\\', 't']
  else if c = '\r' then ['\\', 'r']
  else if c = '\n' then ['\\', 'n']
  else if c = '\x00' then ['\\', '0']
  else if isVisible c then [c]
  else ['\\', 'u', '\x7b'] ++ hex c.toNat ++ ['\x7d']

/-- The text between quotes. -/
def quoted (s : String) : String :=
  String.ofList ('"' :: s.toList.flatMap escape ++ ['"'])

theorem escape_of_plain {c : Char} (hv : isVisible c) (hq : c ≠ '"') (hb : c ≠ '\\') :
    escape c = [c] := by
  have hc : ∀ d : Char, isVisible d = false → c ≠ d := by rintro d hd rfl; simp [hv] at hd
  have ht := hc '\t' (by decide)
  have hr := hc '\r' (by decide)
  have hn := hc '\n' (by decide)
  have h0 := hc '\x00' (by decide)
  simp [escape, hq, hb, ht, hr, hn, h0, hv]

theorem quoted_of_plain {s : String}
    (h : ∀ c ∈ s.toList, isVisible c ∧ c ≠ '"' ∧ c ≠ '\\') :
    (quoted s).toList = '"' :: s.toList ++ ['"'] := by
  have : s.toList.flatMap escape = s.toList := by
    generalize s.toList = cs at h
    induction cs with
    | nil => rfl
    | cons c cs ih =>
      have hc := h c (by simp)
      rw [List.flatMap_cons, escape_of_plain hc.1 hc.2.1 hc.2.2,
        ih fun d hd => h d (by simp [hd])]
      rfl
  simp [quoted, this]

end Storyline.Text
