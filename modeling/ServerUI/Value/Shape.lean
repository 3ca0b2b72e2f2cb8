import ServerUI.Value.Tree

/-!
What can be asked of any value: its type's name, whether it is empty, whether it can be a key,
what it contains and whether it can be read as a mapping.
-/

set_option autoImplicit false

namespace ServerUI

namespace Value

def typeName : Value → String
  | .null => "NoneType"
  | .bool _ => "bool"
  | .int _ => "int"
  | .float _ => "float"
  | .str _ => "str"
  | .kind _ => "ActionType"
  | .bytes _ => "bytes"
  | .list _ => "list"
  | .tuple _ => "tuple"
  | .dict _ => "dict"
  | .action a => a.kind.model
  | .node _ => "ComponentDescriptor"
  | .section _ => "SectionDescriptor"
  | .screen _ => "ScreenDescriptor"
  | .keyed .. => "Keyed"
  | .callback .. => "function"

def word? : Value → Option String
  | str s => some s
  | kind k => some k.name
  | _ => none

-- Null, zero, false and what is empty do not count as present.
def isPresent : Value → Bool
  | null => false
  | bool b => b
  | int i => i ≠ 0
  | float x => !x.isZero
  | str s => !s.isEmpty
  | bytes bs => !bs.isEmpty
  | list items => !items.isEmpty
  | tuple items => !items.isEmpty
  | dict entries => !entries.isEmpty
  | _ => true

def unhashable? (v : Value) : Option String := v.tree.unhashable?

def items? : Value → Option (List Value)
  | str s => some (s.toList.map fun c => str (String.singleton c))
  | kind k => some (k.name.toList.map fun c => str (String.singleton c))
  | bytes bs => some (bs.map fun b => int b.toNat)
  | list items => some items
  | tuple items => some items
  | dict entries => some (entries.map fun e => str e.1)
  | keyed key output => some [key, output]
  | v => v.model?.map fun (_, fields) => fields.map fun e => tuple [str e.1, e.2]

-- How many members a value has; models have members but no count.
def length? : Value → Option Nat
  | str s => some s.length
  | kind k => some k.name.length
  | bytes bs => some bs.length
  | list items => some items.length
  | tuple items => some items.length
  | dict entries => some entries.length
  | keyed .. => some 2
  | _ => none

def keyFloat : FloatFormat :=
  { FloatFormat.display with nan := "NaN", infinity := "Infinity", negativeInfinity := "-Infinity" }

def keyText : Value → String
  | str s => s
  | kind k => k.name
  | int i => toString i
  | bool b => if b then "true" else "false"
  | float x => keyFloat.render x
  | _ => "null"

end Value

inductive MappingError where
  | noPairs
  | notAPair (index length : Nat)
  | unhashable (type : String)
deriving DecidableEq, Repr

namespace Value

-- A key that is there already stays as it was first given; only its value is replaced.
def putPair (key value : Value) : List (Value × Value) → List (Value × Value)
  | [] => [(key, value)]
  | (k, v) :: rest =>
      if k.same false key then (k, value) :: rest else (k, v) :: putPair key value rest

def putPairs (pairs : List (Value × Value)) (index : Nat) :
    List Value → Except MappingError (List (Value × Value))
  | [] => .ok pairs
  | item :: rest =>
      match item.items? with
      | none => .error .noPairs
      | some [key, value] =>
          match key.unhashable? with
          | some type => .error (.unhashable type)
          | none => putPairs (putPair key value pairs) (index + 1) rest
      | some parts => .error (.notAPair index parts.length)

def ofPairs (pairs : List (Value × Value)) : Dict :=
  Entries.ofList (pairs.map fun (k, v) => (k.keyText, v))

/-- A value as a mapping: a mapping itself, a model by its fields, or members that are pairs. -/
def toDict (v : Value) : Except MappingError Dict :=
  match v with
  | dict entries => .ok entries
  | v =>
      match v.model? with
      | some (_, fields) => .ok fields
      | none =>
          match v.items? with
          | some items => (putPairs [] 0 items).map ofPairs
          | none => .error .noPairs

end Value

end ServerUI
