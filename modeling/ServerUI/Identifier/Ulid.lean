import ServerUI.Binary64

/-!
Universally unique sortable identifiers: 26 digits to base 32, of which the first ten count
milliseconds since 1970. The digits are decimal digits and letters without I, L, O and U, in
either case; the first is at most 7, so that the whole has 128 bits.
-/

set_option autoImplicit false

namespace ServerUI.Ulid

def alphabet : List Char := "0123456789ABCDEFGHJKMNPQRSTVWXYZ".toList

def digit? (c : Char) : Option Nat := alphabet.idxOf? c.toUpper

def length : Nat := 26

def timeLength : Nat := 10

def isUlid (cs : List Char) : Bool :=
  cs.length == length && cs.all (fun c => (digit? c).isSome) &&
    (match cs with
      | c :: _ => decide ((digit? c).getD 8 ≤ 7)
      | [] => false)

def ofDigits (cs : List Char) : Nat := cs.foldl (fun n c => 32 * n + (digit? c).getD 0) 0

def time (cs : List Char) : Nat := ofDigits (cs.take timeLength)

def digits (width n : Nat) : List Char :=
  match width with
  | 0 => []
  | width + 1 => digits width (n / 32) ++ [alphabet.getD (n % 32) '0']

def times : Nat := Nat.pow 2 48

def ofParts (milliseconds entropy : Nat) : List Char :=
  digits timeLength (milliseconds % times) ++ digits (length - timeLength) entropy

end ServerUI.Ulid
