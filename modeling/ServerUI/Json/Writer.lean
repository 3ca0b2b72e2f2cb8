import ServerUI.Json.Token
import ServerUI.Text.Quoted
import ServerUI.Value.Tree

/-!
Writing values as JSON text, either without blanks or with each member on a line of its own.
What JSON has no form for is written as the text of the value.
-/

set_option autoImplicit false

namespace ServerUI.Json

inductive Layout where
  | compact
  | indented
deriving DecidableEq, Repr

def Layout.newline (l : Layout) (level : Nat) : List Char :=
  match l with
  | compact => []
  | indented => '\n' :: List.replicate (2 * level) ' '

def Layout.colon : Layout → List Char
  | compact => [':']
  | indented => [':', ' ']

def escapeChar (c : Char) : List Char :=
  match c with
  | '"' => ['\\', '"']
  | '\\' => ['\\', '\\']
  | '\x08' => ['\\', 'b']
  | '\t' => ['\\', 't']
  | '\n' => ['\\', 'n']
  | '\x0c' => ['\\', 'f']
  | '\r' => ['\\', 'r']
  | c => if c.toNat < 0x20 then '\\' :: 'u' :: Text.hex 4 c.toNat else [c]

def writeString (s : String) : List Char := '"' :: s.toList.flatMap escapeChar ++ ['"']

mutual

def writeBefore (l : Layout) (level : Nat) (rest : List Char) : Tree → List Char
  | .null => "null".toList ++ rest
  | .bool b => (if b then "true" else "false").toList ++ rest
  | .int i => (toString i).toList ++ rest
  | .float x => (FloatFormat.json.render x).toList ++ rest
  | .str s => writeString s ++ rest
  | .kind k => writeString k.name ++ rest
  | .list [] => '[' :: ']' :: rest
  | .list items => '[' :: writeItems l (level + 1) (l.newline level ++ ']' :: rest) items
  | .tuple [] => '[' :: ']' :: rest
  | .tuple items => '[' :: writeItems l (level + 1) (l.newline level ++ ']' :: rest) items
  | .dict [] => '\x7b' :: '\x7d' :: rest
  | .dict entries =>
      '\x7b' :: writeEntries l (level + 1) (l.newline level ++ '\x7d' :: rest) entries
  | t => writeString t.display ++ rest

def writeItems (l : Layout) (level : Nat) (rest : List Char) : List Tree → List Char
  | [] => rest
  | [t] => l.newline level ++ writeBefore l level rest t
  | t :: ts => l.newline level ++ writeBefore l level (',' :: writeItems l level rest ts) t

def writeEntries (l : Layout) (level : Nat) (rest : List Char) : List (String × Tree) → List Char
  | [] => rest
  | [(k, t)] => l.newline level ++ writeString k ++ l.colon ++ writeBefore l level rest t
  | (k, t) :: es =>
      l.newline level ++ writeString k ++ l.colon ++
        writeBefore l level (',' :: writeEntries l level rest es) t

end

def write (l : Layout) (t : Tree) : List Char := writeBefore l 0 [] t

-- Levels are counted in a byte, and the last value of the byte is no level for a list or a mapping.
-- A tuple is a level too, but may stand anywhere.
def isLevel (level : Nat) : Bool := level % 256 != 255

mutual

def fits (outer : Nat) : Tree → Bool
  | .int i => isWholeRange i
  | .list items => isLevel (outer + 1) && itemsFit (outer + 1) items
  | .tuple items => itemsFit (outer + 1) items
  | .dict entries => isLevel (outer + 1) && entriesFit (outer + 1) entries
  | _ => true

def itemsFit (outer : Nat) : List Tree → Bool
  | [] => true
  | t :: ts => fits outer t && itemsFit outer ts

def entriesFit (outer : Nat) : List (String × Tree) → Bool
  | [] => true
  | (_, t) :: es => fits outer t && entriesFit outer es

end

def toText? (l : Layout) (v : Value) : Option String :=
  if fits 0 v.tree then some (String.ofList (write l v.tree)) else none

end ServerUI.Json
