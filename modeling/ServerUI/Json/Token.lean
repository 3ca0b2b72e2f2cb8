import ServerUI.Binary64
import ServerUI.Text.Numeral

/-!
Tokens of JSON text and the scanner that finds them. The scanner accepts exactly the tokens of
RFC 8259: four blank characters, no leading zeros, no lone surrogates and no raw control
characters.
-/

set_option autoImplicit false

namespace ServerUI.Json

open ServerUI.Text

inductive Token where
  | arrayOpen
  | arrayClose
  | objectOpen
  | objectClose
  | comma
  | colon
  | null
  | bool (b : Bool)
  | int (i : Int)
  | float (x : Binary64)
  | str (s : String)
deriving DecidableEq, Repr

def isSpace (c : Char) : Bool := c == ' ' || c == '\t' || c == '\n' || c == '\r'

def hexValue? (c : Char) : Option Nat :=
  if '0' ≤ c ∧ c ≤ '9' then some (c.toNat - 48)
  else if 'a' ≤ c ∧ c ≤ 'f' then some (c.toNat - 87)
  else if 'A' ≤ c ∧ c ≤ 'F' then some (c.toNat - 55)
  else none

def unit? (a b c d : Char) : Option Nat := do
  let a ← hexValue? a
  let b ← hexValue? b
  let c ← hexValue? c
  let d ← hexValue? d
  return ((a * 16 + b) * 16 + c) * 16 + d

def isHighSurrogate (n : Nat) : Bool := 0xD800 ≤ n && n < 0xDC00

def isLowSurrogate (n : Nat) : Bool := 0xDC00 ≤ n && n < 0xE000

def joinSurrogates (high low : Nat) : Char :=
  Char.ofNat (0x10000 + (high - 0xD800) * 0x400 + (low - 0xDC00))

def simpleEscape? (c : Char) : Option Char :=
  match c with
  | '"' => some '"'
  | '\\' => some '\\'
  | '/' => some '/'
  | 'b' => some '\x08'
  | 'f' => some '\x0c'
  | 'n' => some '\n'
  | 'r' => some '\r'
  | 't' => some '\t'
  | _ => none

-- The characters read so far stand in `acc`, last first.
def scanString (acc : List Char) : List Char → Option (String × List Char)
  | '"' :: rest => some (String.ofList acc.reverse, rest)
  | '\\' :: 'u' :: a :: b :: c :: d :: '\\' :: 'u' :: e :: f :: g :: h :: rest =>
      match unit? a b c d with
      | none => none
      | some n =>
          if isHighSurrogate n then
            match unit? e f g h with
            | some m =>
                if isLowSurrogate m then scanString (joinSurrogates n m :: acc) rest else none
            | none => none
          else if isLowSurrogate n then none
          else scanString (Char.ofNat n :: acc) ('\\' :: 'u' :: e :: f :: g :: h :: rest)
  | '\\' :: 'u' :: a :: b :: c :: d :: rest =>
      match unit? a b c d with
      | none => none
      | some n =>
          if isHighSurrogate n || isLowSurrogate n then none
          else scanString (Char.ofNat n :: acc) rest
  | '\\' :: c :: rest =>
      match simpleEscape? c with
      | some c => scanString (c :: acc) rest
      | none => none
  | c :: rest => if c.toNat < 0x20 then none else scanString (c :: acc) rest
  | [] => none

-- Whole numbers in this range stay whole; others become binary64.
def isWholeRange (i : Int) : Bool := -9223372036854775808 ≤ i && i ≤ 18446744073709551615

def finite? (x : Binary64) : Option Token :=
  if x.isFinite then some (.float x) else none

def scanExponent (cs : List Char) : Option (Int × List Char) :=
  let (negative, cs) := takeSign cs
  let ds := cs.takeWhile isDigit
  if ds.isEmpty then none
  else some (if negative then -(ofManyDigits ds : Int) else ofManyDigits ds, cs.dropWhile isDigit)

def scanFraction : List Char → Option (List Char × List Char)
  | '.' :: rest =>
      let ds := rest.takeWhile isDigit
      if ds.isEmpty then none else some (ds, rest.dropWhile isDigit)
  | cs => some ([], cs)

def number? (negative : Bool) (whole fraction : List Char) (exponent : Option Int) : Option Token :=
  match exponent, fraction with
  | none, [] =>
      let i : Int := if negative then -(ofManyDigits whole : Int) else ofManyDigits whole
      if isWholeRange i then some (.int i)
      else finite? (.ofDecimal negative (ofManyDigits whole) 0)
  | e, fraction =>
      finite? (.ofDecimal negative (ofManyDigits (whole ++ fraction)) (e.getD 0 - fraction.length))

def scanNumber (cs : List Char) : Option (Token × List Char) := do
  -- `0` starts no longer whole part than itself.
  let (negative, cs) := match cs with
    | '-' :: rest => (true, rest)
    | cs => (false, cs)
  let whole := cs.takeWhile isDigit
  if whole.isEmpty || (whole.length ≠ 1 && whole.head? == some '0') then none
  let (fraction, rest) ← scanFraction (cs.dropWhile isDigit)
  match rest with
  | e :: rest =>
      if e = 'e' ∨ e = 'E' then
        let (exponent, rest) ← scanExponent rest
        return (← number? negative whole fraction (some exponent), rest)
      else return (← number? negative whole fraction none, e :: rest)
  | [] => return (← number? negative whole fraction none, [])

def scanToken : List Char → Option (Token × List Char)
  | '[' :: rest => some (.arrayOpen, rest)
  | ']' :: rest => some (.arrayClose, rest)
  | '{' :: rest => some (.objectOpen, rest)
  | '}' :: rest => some (.objectClose, rest)
  | ',' :: rest => some (.comma, rest)
  | ':' :: rest => some (.colon, rest)
  | 'n' :: 'u' :: 'l' :: 'l' :: rest => some (.null, rest)
  | 't' :: 'r' :: 'u' :: 'e' :: rest => some (.bool true, rest)
  | 'f' :: 'a' :: 'l' :: 's' :: 'e' :: rest => some (.bool false, rest)
  | '"' :: rest => (scanString [] rest).map fun (s, rest) => (.str s, rest)
  | cs => scanNumber cs

-- Each token takes a character at least, so the length of the text bounds their number.
def scan : Nat → List Token → List Char → Option (List Token)
  | fuel, acc, cs =>
      match cs.dropWhile isSpace with
      | [] => some acc.reverse
      | c :: rest =>
          match fuel with
          | 0 => none
          | fuel + 1 =>
              match scanToken (c :: rest) with
              | some (t, rest) => scan fuel (t :: acc) rest
              | none => none

def tokens? (cs : List Char) : Option (List Token) := scan cs.length [] cs

end ServerUI.Json
