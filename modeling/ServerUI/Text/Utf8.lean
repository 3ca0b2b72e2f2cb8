/-!
Text in UTF-8. Bytes fall into units: the characters that they encode, and broken pieces, each
of them the start of a character as far as it goes, or else a single byte.
-/

set_option autoImplicit false

namespace ServerUI.Text

def tailBounds? (first : UInt8) : Option (List (UInt8 × UInt8)) :=
  -- The least and the greatest that each further byte may be.
  let tail : UInt8 × UInt8 := (0x80, 0xBF)
  if first < 0x80 then some []
  else if first < 0xC2 then none
  else if first < 0xE0 then some [tail]
  else if first = 0xE0 then some [(0xA0, 0xBF), tail]
  else if first = 0xED then some [(0x80, 0x9F), tail]
  else if first < 0xF0 then some [tail, tail]
  else if first = 0xF0 then some [(0x90, 0xBF), tail, tail]
  else if first < 0xF4 then some [tail, tail, tail]
  else if first = 0xF4 then some [(0x80, 0x8F), tail, tail]
  else none

def within : List (UInt8 × UInt8) → List UInt8 → Nat
  | (least, greatest) :: bounds, b :: bs =>
      if least ≤ b ∧ b ≤ greatest then within bounds bs + 1 else 0
  | _, _ => 0

def codePoint (first : UInt8) (tail : List UInt8) : Nat :=
  -- What the first byte has below the bits that tell the length, and six bits of each further byte.
  let width := 0x80 / Nat.pow 2 (tail.length + if tail.isEmpty then 0 else 1)
  tail.foldl (fun n b => 64 * n + b.toNat % 64) (first.toNat % width)

def unit (first : UInt8) (bs : List UInt8) : Option Char × Nat :=
  match tailBounds? first with
  | none => (none, 0)
  | some bounds =>
      let n := within bounds bs
      if n = bounds.length then (some (Char.ofNat (codePoint first (bs.take n))), n) else (none, n)

-- The units of bytes; the first `skip` bytes belong to a unit before.
def units (skip : Nat) : List UInt8 → List (Option Char)
  | [] => []
  | b :: bs =>
      match skip with
      | 0 =>
          let (c, n) := unit b bs
          c :: units n bs
      | skip + 1 => units skip bs

def decode? (bs : List UInt8) : Option String := ((units 0 bs).mapM id).map String.ofList

def decodeMarked (bs : List UInt8) : String :=
  String.ofList ((units 0 bs).map fun c => c.getD '\uFFFD')

def brokenAt? (skip position : Nat) : List UInt8 → Option Nat
  | [] => none
  | b :: bs =>
      match skip with
      | 0 =>
          match unit b bs with
          | (none, _) => some position
          | (some _, n) => brokenAt? n (position + 1) bs
      | skip + 1 => brokenAt? skip (position + 1) bs

end ServerUI.Text
