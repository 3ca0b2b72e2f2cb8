import ServerUI.Binary64
import ServerUI.Text.Blank
import ServerUI.Text.Numeral
import ServerUI.Text.Numeral.Script

/-!
Binary64 numbers as text: a sign, then digits with an optional point among them and an optional
exponent, or a word for infinity or NaN. Underscores and blanks are admitted in two ways.
-/

set_option autoImplicit false

namespace ServerUI.Text

def readExponent : List Char → Option Int
  | [] => some 0
  | e :: rest =>
      if e = 'e' ∨ e = 'E' then
        let (negative, ds) := takeSign rest
        if ds.isEmpty || !ds.all isDigit then none
        else some (if negative then -(ofManyDigits ds : Int) else ofManyDigits ds)
      else none

def readUnsigned (negative : Bool) (cs : List Char) : Option Binary64 :=
  let whole := cs.takeWhile isDigit
  let rest := cs.dropWhile isDigit
  let (fraction, rest) := match rest with
    | '.' :: rest => (rest.takeWhile isDigit, rest.dropWhile isDigit)
    | rest => ([], rest)
  if whole.isEmpty && fraction.isEmpty then none
  else
    match readExponent rest with
    | some e =>
        some (Binary64.ofDecimal negative (ofManyDigits (whole ++ fraction)) (e - fraction.length))
    | none => none

def readReal (cs : List Char) : Option Binary64 :=
  -- The words for infinity and NaN may have any case.
  let (negative, cs) := takeSign cs
  let word := String.ofList (cs.map Char.toLower)
  if word = "inf" ∨ word = "infinity" then some (.infinity negative)
  else if word = "nan" then some .nan
  else readUnsigned negative cs

def readSeparated (s : String) : Option Binary64 :=
  match readReal (trimBlank s.toList) with
  | some x => some x
  | none => if hasSeparators s.toList then readReal (dropSeparators s.toList) else none

def groupsDigits (previous : Char) : List Char → Bool
  | [] => previous != '_'
  | c :: cs =>
      (if c = '_' then isDigit previous else previous != '_' || isDigit c) && groupsDigits c cs

def readGrouped (cs : List Char) : Option Binary64 :=
  let cs := trim isNarrowBlank cs
  if groupsDigits ' ' cs then readReal (dropSeparators cs) else none

def narrow? (c : Char) : Option Char :=
  if c.toNat < 127 then some c
  else if isBlank c then some ' '
  else (digitOfScript? c).map fun d => Char.ofNat (48 + d)

def readScript (s : String) : Option Binary64 :=
  if s.toList.all fun c => c.toNat < 128 then readGrouped s.toList
  else (s.toList.mapM narrow?).bind readGrouped

end ServerUI.Text
