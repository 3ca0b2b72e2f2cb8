/-!
Lines of a text. A line ends at a line break of any kind; a carriage return and the line feed
behind it are one break.
-/

set_option autoImplicit false

namespace ServerUI.Text

def isLineBreak (c : Char) : Bool :=
  let n := c.toNat
  (10 ≤ n && n ≤ 13) || (28 ≤ n && n ≤ 30) || n == 0x85 || n == 0x2028 || n == 0x2029

-- The lines of a text whose current line starts with `line`, last character first. A text that ends
-- with a break has no line behind it.
def splitLines (line : List Char) : List Char → List (List Char)
  | [] => if line.isEmpty then [] else [line.reverse]
  | '\r' :: '\n' :: cs => line.reverse :: splitLines [] cs
  | c :: cs => if isLineBreak c then line.reverse :: splitLines [] cs else splitLines (c :: line) cs

def lines (s : String) : List String := (splitLines [] s.toList).map String.ofList

end ServerUI.Text
