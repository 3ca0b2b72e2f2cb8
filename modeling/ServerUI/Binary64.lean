/-!
Binary floating-point numbers of 53 significant bits. A finite number is a signed significand
times a power of two; every operation forms the exact quotient of two natural numbers and
rounds it once, to the nearest number and on a tie to the even significand.
-/

set_option autoImplicit false

namespace ServerUI

inductive Binary64 where
  | nan
  | infinity (negative : Bool)
  | finite (negative : Bool) (significand : Nat) (exponent : Int)
deriving DecidableEq, Repr, Inhabited

namespace Binary64

def minExponent : Int := -1074

def maxExponent : Int := 971

def roundDiv (num den : Nat) : Nat :=
  let q := num / den
  let r := num % den
  if 2 * r < den then q
  else if den < 2 * r then q + 1
  else if q % 2 = 0 then q else q + 1

def scale (num den : Nat) (e : Int) : Nat × Nat :=
  -- The quotient `num / den / 2 ^ e`.
  (num * Nat.pow 2 (-e).toNat, den * Nat.pow 2 e.toNat)

def unitExponent (num den : Nat) : Int :=
  let e : Int := (num.log2 : Int) - den.log2 - 52
  let (n, d) := scale num den e
  let e := if n / d < Nat.pow 2 52 then e - 1 else e
  max e minExponent

def normalize (negative : Bool) (significand : Nat) (exponent : Int) : Binary64 :=
  let (m, e) := if Nat.pow 2 53 ≤ significand then (significand / 2, exponent + 1) else (significand, exponent)
  if maxExponent < e then .infinity negative else .finite negative m e

def ofRatio (negative : Bool) (num den : Nat) : Binary64 :=
  if num = 0 then .finite negative 0 minExponent
  else
    let e := unitExponent num den
    let (n, d) := scale num den e
    normalize negative (roundDiv n d) e

def zero : Binary64 := .finite false 0 minExponent

def ofInt (i : Int) : Binary64 := ofRatio (decide (i < 0)) i.natAbs 1

def ofNat (n : Nat) : Binary64 := ofRatio false n 1

def ofDecimal (negative : Bool) (digits : Nat) (exponent : Int) : Binary64 :=
  if digits = 0 then .finite negative 0 minExponent
  -- Far outside the range the answer is known without the power: a positive whole number times
  -- `10 ^ 400` is too large, and less than `2 ^ (k + 1)` over `10 ^ (k + 400)` is nearest to zero.
  else if 400 < exponent then .infinity negative
  else if exponent < -(digits.log2 : Int) - 400 then .finite negative 0 minExponent
  else ofRatio negative (digits * Nat.pow 10 exponent.toNat) (Nat.pow 10 (-exponent).toNat)

def isFinite : Binary64 → Bool
  | .finite .. => true
  | _ => false

def isNan : Binary64 → Bool
  | .nan => true
  | _ => false

def isZero : Binary64 → Bool
  | .finite _ 0 _ => true
  | _ => false

def magnitude (significand : Nat) (exponent : Int) : Nat × Nat :=
  (significand * Nat.pow 2 exponent.toNat, Nat.pow 2 (-exponent).toNat)

def toRatio? : Binary64 → Option (Int × Nat)
  | .finite negative m e =>
      let (n, d) := magnitude m e
      some (if negative then -(n : Int) else n, d)
  | _ => none

def truncate? (x : Binary64) : Option Int :=
  x.toRatio?.map fun (n, d) => Int.tdiv n d

def toInt? (x : Binary64) : Option Int :=
  match x.toRatio? with
  | some (n, d) => if n.natAbs % d = 0 then some (Int.tdiv n d) else none
  | none => none

def negate : Binary64 → Binary64
  | .nan => .nan
  | .infinity s => .infinity (!s)
  | .finite s m e => .finite (!s) m e

def ofSignedRatio (zeroSign : Bool) (num : Int) (den : Nat) : Binary64 :=
  -- An exact sum is rounded once; `zeroSign` is the sign of a sum of exactly zero.
  if num = 0 then .finite zeroSign 0 minExponent
  else ofRatio (decide (num < 0)) num.natAbs den

def add : Binary64 → Binary64 → Binary64
  | .nan, _ => .nan
  | _, .nan => .nan
  | .infinity s, .infinity t => if s = t then .infinity s else .nan
  | .infinity s, .finite .. => .infinity s
  | .finite .., .infinity t => .infinity t
  | .finite s m e, .finite t n f =>
      let (a, b) := magnitude m e
      let (c, d) := magnitude n f
      let sign (negative : Bool) (x : Nat) : Int := if negative then -(x : Int) else x
      ofSignedRatio (s && t) (sign s (a * d) + sign t (c * b)) (b * d)

def sub (x y : Binary64) : Binary64 := x.add y.negate

def mul : Binary64 → Binary64 → Binary64
  | .nan, _ => .nan
  | _, .nan => .nan
  | .infinity s, .infinity t => .infinity (s != t)
  | .infinity s, .finite t n _ => if n = 0 then .nan else .infinity (s != t)
  | .finite s m _, .infinity t => if m = 0 then .nan else .infinity (s != t)
  | .finite s m e, .finite t n f =>
      let (a, b) := magnitude m e
      let (c, d) := magnitude n f
      ofRatio (s != t) (a * c) (b * d)

-- Order of the values; the two zeros are equal and a NaN is below nothing.
def lt : Binary64 → Binary64 → Bool
  | .nan, _ => false
  | _, .nan => false
  | .infinity s, .infinity t => s && !t
  | .infinity s, .finite .. => s
  | .finite .., .infinity t => !t
  | x, y =>
      match x.toRatio?, y.toRatio? with
      | some (a, b), some (c, d) => decide (a * d < c * b)
      | _, _ => false

def same : Binary64 → Binary64 → Bool
  | .nan, _ => false
  | .finite s m e, .finite t n f => (m == 0 && n == 0) || (s == t && m == n && e == f)
  | x, y => x == y

def sameInt (x : Binary64) (i : Int) : Bool := x.toInt? == some i

def le (x y : Binary64) : Bool := x.lt y || x.same y

def tenth : Binary64 := ofDecimal false 1 (-1)

def thousand : Binary64 := ofNat 1000

end Binary64

end ServerUI
