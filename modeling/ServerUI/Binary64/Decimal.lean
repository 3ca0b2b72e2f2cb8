import ServerUI.Binary64

/-!
Decimal text of binary64 numbers: the fewest significant digits that read back as the same
number, and among those the nearest. A `FloatFormat` says how such digits are laid out.
-/

set_option autoImplicit false

namespace ServerUI

structure Decimal where
  digits : Nat
  exponent : Int
deriving DecidableEq, Repr

namespace Decimal

def length (n : Nat) : Nat := if n = 0 then 0 else (Nat.toDigits 10 n).length

def magnitude (num den : Nat) : Int :=
  if den ≤ num then length (num / den) else 1 - (length ((den - 1) / num) : Int)

def trim : Nat → Decimal → Decimal
  | 0, d => d
  | fuel + 1, d =>
      if d.digits ≠ 0 ∧ d.digits % 10 = 0 then trim fuel ⟨d.digits / 10, d.exponent + 1⟩ else d

def neighbour (hit : Decimal → Bool) (num den : Nat) (exponent : Int) : Option Decimal :=
  -- The neighbours among the multiples of `10 ^ exponent`; the nearer one comes first, and of two
  -- equally near the even one.
  let n := num * Nat.pow 10 (-exponent).toNat
  let d := den * Nat.pow 10 exponent.toNat
  let below : Decimal := ⟨n / d, exponent⟩
  let above : Decimal := ⟨n / d + 1, exponent⟩
  let nearest := Binary64.roundDiv n d
  let order := if nearest = n / d then [below, above] else [above, below]
  order.find? hit

def shortest (significand : Nat) (exponent : Int) : Decimal :=
  let (num, den) := Binary64.magnitude significand exponent
  let k := magnitude num den
  let target := Binary64.finite false significand exponent
  let hit (d : Decimal) : Bool := Binary64.ofDecimal false d.digits d.exponent == target
  match (List.range 17).findSome? fun (i : Nat) => neighbour hit num den (k - (i : Int) - 1) with
  | some d => d.trim 20
  | none => ⟨significand, 0⟩

end Decimal

-- Layout of a decimal: positional from ten to the `lowest` up to, not including, ten to the
-- `beyond`, otherwise with an exponent of at least `exponentDigits` digits that always has a sign.
-- A positional whole number keeps one zero after the point.
structure FloatFormat where
  lowest : Int
  beyond : Int
  exponentDigits : Nat
  nan : String
  infinity : String
  negativeInfinity : String

namespace FloatFormat

def padLeft (width : Nat) (s : String) : String :=
  String.ofList (List.replicate (width - s.length) '0') ++ s

def exponentText (f : FloatFormat) (e : Int) : String :=
  (if e < 0 then "e-" else "e+") ++ padLeft f.exponentDigits (toString e.natAbs)

def positional (ds : String) (point : Int) : String :=
  if point ≤ 0 then
    "0." ++ String.ofList (List.replicate (-point).toNat '0') ++ ds
  else
    let whole := point.toNat
    let cs := ds.toList
    let left := String.ofList (cs.take whole ++ List.replicate (whole - cs.length) '0')
    let right := cs.drop whole
    left ++ "." ++ (if right.isEmpty then "0" else String.ofList right)

def scientific (f : FloatFormat) (ds : String) (e : Int) : String :=
  match ds.toList with
  | [] => ""
  | [c] => String.singleton c ++ f.exponentText e
  | c :: rest => String.singleton c ++ "." ++ String.ofList rest ++ f.exponentText e

def magnitudeText (f : FloatFormat) (significand : Nat) (exponent : Int) : String :=
  if significand = 0 then "0.0"
  else
    let d := Decimal.shortest significand exponent
    let ds := toString d.digits
    let point : Int := ds.length + d.exponent
    if f.lowest ≤ point - 1 ∧ point - 1 < f.beyond then positional ds point
    else f.scientific ds (point - 1)

def render (f : FloatFormat) : Binary64 → String
  | .nan => f.nan
  | .infinity false => f.infinity
  | .infinity true => f.negativeInfinity
  | .finite negative m e => (if negative then "-" else "") ++ f.magnitudeText m e

def display : FloatFormat := ⟨-4, 16, 2, "nan", "inf", "-inf"⟩

def json : FloatFormat := ⟨-5, 16, 1, "null", "null", "null"⟩

end FloatFormat

end ServerUI
