/-!
Decimal digits, signs and the separators between digits. Writers may put underscores into a
number to group its digits.
-/

set_option autoImplicit false

namespace ServerUI.Text

def isDigit (c : Char) : Bool := '0' ≤ c && c ≤ '9'

def digitValue (c : Char) : Nat := c.toNat - 48

def ofDigits (ds : List Char) : Nat := ds.foldl (fun n c => 10 * n + digitValue c) 0

-- The number that digits write, read in blocks: what is before the block, and the block with the
-- power of ten that it counts up to. Only a full block is put to the large number before it.
def ofBlocks (before scale block : Nat) : List Char → Nat
  | [] => before * scale + block
  | c :: cs =>
      if scale < 10000000000000000 then ofBlocks before (10 * scale) (10 * block + digitValue c) cs
      else ofBlocks (before * scale + block) 10 (digitValue c) cs

theorem ofBlocks_eq (before scale block : Nat) (ds : List Char) :
    ofBlocks before scale block ds =
      ds.foldl (fun n c => 10 * n + digitValue c) (before * scale + block) := by
  induction ds generalizing before scale block with
  | nil => rfl
  | cons c cs ih =>
      rw [ofBlocks, List.foldl_cons]
      split
      · rw [ih, Nat.mul_add, Nat.mul_left_comm, Nat.add_assoc]
      · rw [ih, Nat.mul_comm]

def ofManyDigits (ds : List Char) : Nat := ofBlocks 0 1 0 ds

@[simp] theorem ofManyDigits_eq (ds : List Char) : ofManyDigits ds = ofDigits ds :=
  ofBlocks_eq 0 1 0 ds

def takeSign : List Char → Bool × List Char
  | '-' :: rest => (true, rest)
  | '+' :: rest => (false, rest)
  | cs => (false, cs)

-- No underscore is last, and none has another one behind it.
def loneUnderscores : List Char → Bool
  | [] => true
  | ['_'] => false
  | '_' :: '_' :: _ => false
  | _ :: rest => loneUnderscores rest

def hasSeparators (cs : List Char) : Bool :=
  cs.contains '_' && cs.head? != some '_' && loneUnderscores cs

def dropSeparators (cs : List Char) : List Char := cs.filter (· ≠ '_')

end ServerUI.Text
