import Storyline.Calendar.Date
import Storyline.Text.Blank
import Storyline.Text.Numeral

/-!
# Written dates

A date is written as year, month and day, joined by hyphens. The year has four digits at least; one
outside 0 to 9999 has a sign. What is read may lack leading zeros and may have blanks before each
number and at the end.
-/

namespace Storyline

/-! ## Writing -/

/-- The digits of a number, filled up with zeros to the given width. -/
def padded (width n : Nat) : List Char :=
  let digits := Nat.toDigits 10 n
  List.replicate (width - digits.length) '0' ++ digits

/-- The year of a written date. -/
def writeYear (year : Int) : List Char :=
  if year < 0 then '-' :: padded 4 year.natAbs
  else if 9999 < year then '+' :: padded 4 year.natAbs
  else padded 4 year.natAbs

def Date.text (date : Date) : String :=
  String.ofList
    (writeYear date.year ++ '-' :: padded 2 date.month ++ '-' :: padded 2 date.dayOfMonth)

/-! ## Reading -/

/-- Why a text is no date. -/
inductive DateFault where
  | tooShort
  | invalid
  | outOfRange
  | trailing
  deriving DecidableEq, Repr

def DateFault.message : DateFault → String
  | .tooShort => "premature end of input"
  | .invalid => "input contains invalid characters"
  | .outOfRange => "input is out of range"
  | .trailing => "trailing input"

/-- One digit at least and at most `width`, and the text after them. -/
def readNumber (width : Nat) (cs : List Char) : Except DateFault (Nat × List Char) :=
  let digits := (cs.take width).takeWhile Char.isDigit
  if cs.isEmpty then .error .tooShort
  else if digits.isEmpty then .error .invalid
  else .ok (Nat.ofDigitChars 10 digits 0, cs.drop digits.length)

/-- A year: up to four digits, or any number of them after a sign. -/
def readYear (cs : List Char) : Except DateFault (Int × List Char) :=
  match Text.trimStart cs with
  | '-' :: cs => (readNumber cs.length cs).map fun (n, rest) => (-(n : Int), rest)
  | '+' :: cs => (readNumber cs.length cs).map fun (n, rest) => ((n : Int), rest)
  | cs => (readNumber 4 cs).map fun (n, rest) => ((n : Int), rest)

/-- A hyphen after optional blanks. -/
def readHyphen (cs : List Char) : Except DateFault (List Char) :=
  match Text.trimStart cs with
  | [] => .error .tooShort
  | '-' :: rest => .ok rest
  | _ => .error .invalid

/-- A number of at most two digits between 1 and `greatest`. -/
def readPart (greatest : Nat) (cs : List Char) : Except DateFault (Nat × List Char) := do
  let (n, rest) ← readNumber 2 (Text.trimStart cs)
  if 1 ≤ n ∧ n ≤ greatest then .ok (n, rest) else .error .outOfRange

/-- A date from its text. -/
def Date.read (text : List Char) : Except DateFault Date := do
  let (year, rest) ← readYear text
  if year < -0x80000000 ∨ 0x7FFFFFFF < year then .error .outOfRange
  else do
    let rest ← readHyphen rest
    let (month, rest) ← readPart 12 rest
    let rest ← readHyphen rest
    let (day, rest) ← readPart 31 rest
    if (Text.trimStart rest).isEmpty then
      match Date.ofCivil? year month day with
      | some date => .ok date
      | none => .error .outOfRange
    else .error .trailing

end Storyline
