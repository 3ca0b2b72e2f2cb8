import ServerUI.Binary64.Decimal
import ServerUI.Text.Quoted
import ServerUI.Value

/-!
Values with their models opened: in a tree a model is its name and its named fields. Printing
and comparing work on trees. Two values are the same if they differ at most in how a number or
a word is kept and in the order of mapping entries. A NaN is the same as itself alone, so it
matters whether two values may have a part in common.
-/

set_option autoImplicit false

namespace ServerUI

inductive Tree where
  | null
  | bool (b : Bool)
  | int (i : Int)
  | float (x : Binary64)
  | str (s : String)
  | kind (k : ActionKind)
  | bytes (bs : List UInt8)
  | list (items : List Tree)
  | tuple (items : List Tree)
  | dict (entries : List (String × Tree))
  | model (name : String) (fields : List (String × Tree))
  | keyed (key : Tree) (output : Tree)
  | callback

namespace Tree

def ofOption {α : Type} (f : α → Tree) : Option α → Tree
  | none => null
  | some x => f x

def ofNumber : Number → Tree
  | .integer i => int i
  | .real x => float x

def ofKey : Key → Tree
  | .text s => str s
  | .number i => int i

end Tree

mutual

def Value.tree : Value → Tree
  | .null => .null
  | .bool b => .bool b
  | .int i => .int i
  | .float x => .float x
  | .str s => .str s
  | .kind k => .kind k
  | .bytes bs => .bytes bs
  | .list items => .list (Tree.ofValues items)
  | .tuple items => .tuple (Tree.ofValues items)
  | .dict entries => .dict (Tree.ofEntries entries)
  | .action a => a.tree
  | .node n => n.tree
  | .section s => s.tree
  | .screen s => s.tree
  | .keyed key output => .keyed key.tree output.tree
  | .callback .. => .callback

def Tree.ofValues : List Value → List Tree
  | [] => []
  | v :: vs => v.tree :: Tree.ofValues vs

def Tree.ofEntries : List (String × Value) → List (String × Tree)
  | [] => []
  | (k, v) :: es => (k, v.tree) :: Tree.ofEntries es

def Tree.ofMapping : Option (List (String × Value)) → Tree
  | none => .null
  | some es => .dict (Tree.ofEntries es)

def Effect.treeFields : Effect → List (String × Tree)
  | .navigate screen params => [("screen", .str screen), ("params", Tree.ofMapping params)]
  | .goBack => []
  | .openUrl url external => [("url", .str url), ("external", .ofOption .bool external)]
  | .addToCart productId quantity =>
      [("product_id", .str productId), ("quantity", .ofOption .int quantity)]
  | .updateCartQuantity productId quantity =>
      [("product_id", .str productId), ("quantity", quantity.tree)]
  | .removeFromCart productId => [("product_id", .str productId)]
  | .toggleFavorite productId => [("product_id", .str productId)]
  | .showToast message status duration =>
      [("message", .str message), ("status", .ofOption (.str ·.name) status),
        ("duration", .ofOption .ofNumber duration)]
  | .showModal modalId props => [("modal_id", .str modalId), ("props", Tree.ofMapping props)]
  | .closeModal modalId => [("modal_id", .ofOption .str modalId)]
  | .share title message url =>
      [("title", .ofOption .str title), ("message", .ofOption .str message),
        ("url", .ofOption .str url)]
  | .trackEvent event properties =>
      [("event", .str event), ("properties", Tree.ofMapping properties)]
  | .refresh sectionId => [("section_id", .ofOption .str sectionId)]

def Action.tree : Action → Tree
  | .effect e => .model e.kind.model (("type", .str e.kind.name) :: e.treeFields)
  | .apiCall endpoint method body onSuccess onError =>
      .model ActionKind.apiCall.model
        [("type", .str ActionKind.apiCall.name), ("endpoint", .str endpoint),
          ("method", .ofOption (.str ·.name) method), ("body", Tree.ofMapping body),
          ("on_success", Tree.ofInstruction? onSuccess), ("on_error", Tree.ofInstruction? onError)]
  | .sequence actions =>
      .model ActionKind.sequence.model
        [("type", .str ActionKind.sequence.name), ("actions", .tuple (Tree.ofInstructions actions))]
  | .conditional condition onTrue onFalse =>
      .model ActionKind.conditional.model
        [("type", .str ActionKind.conditional.name), ("condition", .str condition),
          ("on_true", Tree.ofInstruction? onTrue), ("on_false", Tree.ofInstruction? onFalse)]
  | .noop => .model ActionKind.noop.model [("type", .str ActionKind.noop.name)]

def Instruction.tree : Instruction → Tree
  | .known a => a.tree
  | .unknown entries => .dict (Tree.ofEntries entries)

def Tree.ofInstruction? : Option Instruction → Tree
  | none => .null
  | some i => i.tree

def Tree.ofInstructions : List Instruction → List Tree
  | [] => []
  | i :: is => i.tree :: Tree.ofInstructions is

def Tree.ofActionMap : List (String × Instruction) → List (String × Tree)
  | [] => []
  | (k, i) :: es => (k, i.tree) :: Tree.ofActionMap es

def Tree.ofActionMap? : Option (List (String × Instruction)) → Tree
  | none => .null
  | some es => .dict (Tree.ofActionMap es)

def Node.tree : Node → Tree
  | ⟨type, props, actions, key, children, condition, style⟩ =>
      .model "ComponentDescriptor"
        [("type", .str type), ("props", .dict (Tree.ofEntries props)),
          ("actions", Tree.ofActionMap? actions), ("key", .ofOption .ofKey key),
          ("children", Tree.ofNodes? children), ("condition", .ofOption .str condition),
          ("style", Tree.ofMapping style)]

def Tree.ofNodes : List Node → List Tree
  | [] => []
  | n :: ns => n.tree :: Tree.ofNodes ns

def Tree.ofNodes? : Option (List Node) → Tree
  | none => .null
  | some ns => .list (Tree.ofNodes ns)

def Tree.ofNode? : Option Node → Tree
  | none => .null
  | some n => n.tree

def Section.tree : Section → Tree
  | ⟨id, type, title, components, colorProps, style, collapsible, collapsed, onHeaderPress,
      seeAllAction⟩ =>
      .model "SectionDescriptor"
        [("id", .ofOption .str id), ("type", .ofOption .str type), ("title", .ofOption .str title),
          ("components", .list (Tree.ofNodes components)),
          ("color_props", Tree.ofMapping colorProps), ("style", Tree.ofMapping style),
          ("collapsible", .ofOption .bool collapsible), ("collapsed", .ofOption .bool collapsed),
          ("on_header_press", Tree.ofInstruction? onHeaderPress),
          ("see_all_action", Tree.ofInstruction? seeAllAction)]

def Tree.ofSections : List Section → List Tree
  | [] => []
  | s :: ss => s.tree :: Tree.ofSections ss

def Screen.tree : Screen → Tree
  | ⟨id, title, sections, header, footer, onRefresh, background, analyticsName⟩ =>
      .model "ScreenDescriptor"
        [("id", .str id), ("title", .ofOption .str title),
          ("sections", .list (Tree.ofSections sections)), ("header", Tree.ofNode? header),
          ("footer", Tree.ofNode? footer), ("on_refresh", Tree.ofInstruction? onRefresh),
          ("background", background.tree), ("analytics_name", .ofOption .str analyticsName)]

end

namespace Tree

def joined (separator : String) (parts : List String) : String := separator.intercalate parts

mutual

def inner : Tree → String
  | null => "None"
  | bool b => if b then "True" else "False"
  | int i => toString i
  | float x => FloatFormat.display.render x
  | str s => Text.quoted s
  | kind k => "<ActionType." ++ k.name ++ ": " ++ Text.quoted k.name ++ ">"
  | bytes bs => Text.quotedBytes bs
  | list items => "[" ++ joined ", " (innerItems items) ++ "]"
  | tuple [item] => "(" ++ item.inner ++ ",)"
  | tuple items => "(" ++ joined ", " (innerItems items) ++ ")"
  | dict entries => "\x7b" ++ joined ", " (innerEntries entries) ++ "\x7d"
  | model name fields => name ++ "(" ++ joined ", " (innerFields fields) ++ ")"
  | keyed key output => "Keyed(key=" ++ key.inner ++ ", output=" ++ output.inner ++ ")"
  | callback => "<callback>"

def innerItems : List Tree → List String
  | [] => []
  | t :: ts => t.inner :: innerItems ts

def innerEntries : List (String × Tree) → List String
  | [] => []
  | (k, t) :: es => (Text.quoted k ++ ": " ++ t.inner) :: innerEntries es

def innerFields : List (String × Tree) → List String
  | [] => []
  | (k, t) :: es => (k ++ "=" ++ t.inner) :: innerFields es

end

-- The text of a value by itself: words are bare and a model is its fields alone.
def display : Tree → String
  | str s => s
  | kind k => "ActionType." ++ k.name
  | model _ fields => joined " " (innerFields fields)
  | t => t.inner

mutual

def unhashable? : Tree → Option String
  | list _ => some "list"
  | dict _ => some "dict"
  | tuple items => unhashableItem? items
  | model _ fields => unhashableField? fields
  | keyed key output => (unhashable? key).or (unhashable? output)
  | _ => none

def unhashableItem? : List Tree → Option String
  | [] => none
  | t :: ts => (unhashable? t).or (unhashableItem? ts)

def unhashableField? : List (String × Tree) → Option String
  | [] => none
  | (_, t) :: es => (unhashable? t).or (unhashableField? es)

end

def number? : Tree → Option Number
  | bool b => some (.integer (if b then 1 else 0))
  | int i => some (.integer i)
  | float x => some (.real x)
  | _ => none

end Tree

-- Equality of numbers by value. Two NaNs are one where they are in a part that is `shared`.
def Number.same (shared : Bool) : Number → Number → Bool
  | .integer i, .integer j => i == j
  | .integer i, .real x => x.sameInt i
  | .real x, .integer i => x.sameInt i
  | .real x, .real y => x.same y || (shared && x.isNan && y.isNan)

namespace Tree

def word? : Tree → Option String
  | str s => some s
  | kind k => some k.name
  | _ => none

mutual

def same (shared : Bool) : Tree → Tree → Bool
  | null, null => true
  | bytes bs, bytes cs => bs == cs
  | list xs, list ys => sameItems shared xs ys
  | tuple xs, tuple ys => sameItems shared xs ys
  | dict es, dict fs => es.length == fs.length && sameEntries shared es fs
  | model m es, model n fs => m == n && es.length == fs.length && sameEntries shared es fs
  | keyed k v, keyed l w => same shared k l && same shared v w
  | s, t =>
      match s.number?, t.number? with
      | some m, some n => m.same shared n
      | _, _ =>
          match s.word?, t.word? with
          | some v, some w => v == w
          | _, _ => false

def sameItems (shared : Bool) : List Tree → List Tree → Bool
  | [], [] => true
  | s :: ss, t :: ts => same shared s t && sameItems shared ss ts
  | _, _ => false

def sameEntries (shared : Bool) : List (String × Tree) → List (String × Tree) → Bool
  | [], _ => true
  | (k, t) :: es, fs =>
      (match Entries.find? fs k with
        | some u => same shared t u
        | none => false) && sameEntries shared es fs

end

theorem same_int_comm (i : Int) (t : Tree) : (int i).same false t = t.same false (int i) := by
  cases t <;> simp [same, number?, word?, Number.same, Bool.beq_comm]

theorem same_str_comm (s : String) (t : Tree) : (str s).same false t = t.same false (str s) := by
  cases t <;> simp [same, number?, word?, Bool.beq_comm]

end Tree

namespace Value

def display (v : Value) : String := v.tree.display

def same (shared : Bool) (v w : Value) : Bool := v.tree.same shared w.tree

theorem same_int_comm (i : Int) (v : Value) : (int i).same false v = v.same false (int i) :=
  Tree.same_int_comm i v.tree

theorem same_str_comm (s : String) (v : Value) : (str s).same false v = v.same false (str s) :=
  Tree.same_str_comm s v.tree

@[simp] theorem same_int (i j : Int) : (int i).same false (int j) = (i == j) := by
  simp [same, tree, Tree.same, Tree.number?, Number.same]

@[simp] theorem same_str (s t : String) : (str s).same false (str t) = (s == t) := by
  simp [same, tree, Tree.same, Tree.number?, Tree.word?]

@[simp] theorem same_str_int (s : String) (i : Int) : (str s).same false (int i) = false := by
  simp [same, tree, Tree.same, Tree.number?, Tree.word?]

end Value

end ServerUI
