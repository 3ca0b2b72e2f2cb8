/-!
Blank characters: those with the Unicode property White_Space, and the narrow ones among them,
which are those of ASCII.
-/

set_option autoImplicit false

namespace ServerUI.Text

def isNarrowBlank (c : Char) : Bool :=
  let n := c.toNat
  (9 ≤ n && n ≤ 13) || n == 32

def isBlank (c : Char) : Bool :=
  let n := c.toNat
  isNarrowBlank c || n == 0x85 || n == 0xA0 || n == 0x1680 ||
    (0x2000 ≤ n && n ≤ 0x200A) || n == 0x2028 || n == 0x2029 || n == 0x202F ||
    n == 0x205F || n == 0x3000

def trim (isOuter : Char → Bool) (cs : List Char) : List Char :=
  ((cs.dropWhile isOuter).reverse.dropWhile isOuter).reverse

def trimBlank (cs : List Char) : List Char := trim isBlank cs

end ServerUI.Text
