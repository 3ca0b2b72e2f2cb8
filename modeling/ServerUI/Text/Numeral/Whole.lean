import ServerUI.Text.Blank
import ServerUI.Text.Numeral

/-!
Whole numbers as text. The plain form is an optional minus and digits without a zero in front.
Other forms are first brought into the plain one: blanks around the number, a plus, zeros in
front, separators and a fraction of zeros are dropped.
-/

set_option autoImplicit false

namespace ServerUI.Text

inductive WholeReading where
  | value (i : Int)
  | tooLong
  | malformed
deriving DecidableEq, Repr

def maxWholeLength : Nat := 4300

def isLeadingDigit (c : Char) : Bool := '1' ≤ c && c ≤ '9'

-- Reads the digits of a whole number, which fill the text; `room` is how many there may be. A
-- number that is too long is so whatever comes behind it.
def readPlainDigits (room : Nat) : List Char → WholeReading
  | ['0'] => .value 0
  | c :: cs =>
      if isLeadingDigit c then
        let ds := (c :: cs).takeWhile isDigit
        if room < ds.length then .tooLong
        else if ds.length = cs.length + 1 then .value (ofDigits ds)
        else .malformed
      else .malformed
  | [] => .malformed

def readPlain : List Char → WholeReading
  | '-' :: cs =>
      match readPlainDigits (maxWholeLength - 1) cs with
      | .value i => .value (-i)
      | other => other
  | cs => readPlainDigits maxWholeLength cs

-- What is left of zeros and underscores from `previous` on: the text from the first other digit or
-- minus, or the last of them if a point or the end follows.
def skipZeros (previous : Char) : List Char → Option (List Char)
  | [] => some [previous]
  | c :: cs =>
      if c = '0' ∨ c = '_' then skipZeros c cs
      else if c = '.' then some (previous :: c :: cs)
      else if isLeadingDigit c ∨ c = '-' then some (c :: cs)
      else none

def dropZeros : List Char → Option (List Char)
  | [] => none
  | c :: cs =>
      if c = '0' then skipZeros c cs
      else if isLeadingDigit c ∨ c = '-' then some (c :: cs)
      else none

def dropZeroFraction (cs : List Char) : List Char :=
  let whole := cs.takeWhile (· ≠ '.')
  let fraction := cs.drop (whole.length + 1)
  if !fraction.isEmpty && fraction.all (· == '0') then whole else cs

-- A minus stays in front of what its number becomes; a plus goes, unless a minus follows.
def dropZerosSigned : List Char → Option (List Char)
  | '+' :: '-' :: _ => none
  | '+' :: cs => dropZeros cs
  | '-' :: cs => (dropZeros cs).map ('-' :: ·)
  | cs => dropZeros cs

def plainForm? (cs : List Char) : Option (List Char) :=
  (dropZerosSigned (trimBlank cs)).map fun cs =>
    let cs := dropZeroFraction cs
    if hasSeparators cs then dropSeparators cs else cs

def readWhole (s : String) : WholeReading :=
  match readPlain s.toList with
  | .malformed =>
      -- Only a number in plain form can be too long; in the other forms that counts as malformed.
      match (plainForm? s.toList).map readPlain with
      | some (.value i) => .value i
      | _ => .malformed
  | reading => reading

end ServerUI.Text
