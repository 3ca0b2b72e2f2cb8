import ServerUI.Failure
import ServerUI.Log.Record
import ServerUI.Value.Shape

/-!
The registry of components. A builder binds type names to implementations with what rendering
has to know about them; a snapshot of it is handed to renderers.
-/

set_option autoImplicit false

namespace ServerUI

inductive PropRule where
  | startsWith (s : String)
  | endsWith (s : String)
  | oneOf (names : List String)
deriving DecidableEq, Repr

namespace PropRule

def holds : PropRule → String → Bool
  | startsWith s, name => s.toList.isPrefixOf name.toList
  | endsWith s, name => s.toList.isSuffixOf name.toList
  | oneOf names, name => names.contains name

def judge (r : PropRule) (v : Value) : Except Failure Bool :=
  -- A value that is no word is none of the names, and it cannot be asked how it starts or ends.
  match v.word?, r, v with
  | some name, r, _ => .ok (r.holds name)
  | none, oneOf _, _ => .ok false
  | none, _, .bytes _ => .error .unsupported
  | none, _, _ => .error .noAttribute

def handlers : PropRule := startsWith "on"

end PropRule

structure Entry (κ : Type) where
  component : κ
  defaultProps : Dict
  actionProps : List Value
  childrenProps : List Value
  inferActionProps : Value

structure Registration where
  defaultProps : Value := .null
  actionProps : Value := .null
  childrenProps : Value := .null
  inferActionProps : Value := .bool true

namespace Entry

variable {κ : Type}

def commonActionProps : List String :=
  ["onPress", "onLongPress", "onAddToCart", "onToggleFavorite", "onQuantityChange", "onRemove",
    "onSubmit", "onCancel", "onClose", "onSeeAll", "onHeaderPress"]

def membersOf (v : Value) : Except Failure (List Value) :=
  match v.items? with
  | some items => .ok items
  | none => .error .unsupported

def resolveActionProps (r : Registration) : Except Failure (List Value) :=
  if !r.actionProps.isNull then membersOf r.actionProps
  else if r.inferActionProps.isPresent then .ok []
  else .ok (commonActionProps.map .str)

def resolveDefaultProps (r : Registration) : Except Failure Dict :=
  if r.defaultProps.isPresent then r.defaultProps.toDict.mapError .notAMapping else .ok []

def resolveChildrenProps (r : Registration) : Except Failure (List Value) :=
  if r.childrenProps.isPresent then membersOf r.childrenProps else .ok []

def ofRegistration (component : κ) (r : Registration) : Except Failure (Entry κ) := do
  let actionProps ← resolveActionProps r
  let defaultProps ← resolveDefaultProps r
  let childrenProps ← resolveChildrenProps r
  return ⟨component, defaultProps, actionProps, childrenProps, r.inferActionProps⟩

def listsAction (e : Entry κ) (name : String) : Bool :=
  e.actionProps.any fun v => v.word? == some name

def lists (e : Entry κ) (prop : Value) : Bool := e.actionProps.any fun v => v.same false prop

/-- Whether the prop takes an action: the explicit list comes first, then the naming rule if the
entry infers action props. Without inference the answer is the option itself. -/
def acceptance (e : Entry κ) (isActionProp : String → Bool) (name : String) : Value :=
  if e.listsAction name then .bool true
  else if e.inferActionProps.isPresent then .bool (isActionProp name)
  else e.inferActionProps

def acceptanceOf (e : Entry κ) (rule : PropRule) (prop : Value) : Except Failure Value :=
  if e.lists prop then .ok (.bool true)
  else if e.inferActionProps.isPresent then (rule.judge prop).map .bool
  else .ok e.inferActionProps

def accepts (e : Entry κ) (isActionProp : String → Bool) (name : String) : Bool :=
  (e.acceptance isActionProp name).isPresent

end Entry

abbrev Registry (κ : Type) := Entries (Entry κ)

namespace Registry

variable {κ : Type}

def typeRecord (event type : String) : Log.Record := ⟨.debug, event, [("type", .str type)]⟩

/-- Binds a type name. A binding that is replaced is logged before anything can fail; a
registration that fails binds nothing. -/
def register (r : Registry κ) (type : String) (component : κ) (options : Registration) :
    Except Failure (Registry κ) × List Log.Record :=
  let replaced := if Entries.contains r type then [typeRecord "component_replaced" type] else []
  match Entry.ofRegistration component options with
  | .ok e => (.ok (Entries.insert r type e), replaced ++ [typeRecord "component_registered" type])
  | .error f => (.error f, replaced)

def unregister (r : Registry κ) (type : String) : Registry κ × List Log.Record :=
  -- A name that is not bound is no failure.
  if Entries.contains r type then
    (Entries.erase r type, [typeRecord "component_unregistered" type])
  else (r, [])

def sizeRecord (event : String) (r : Registry κ) : Log.Record :=
  ⟨.info, event, [("components", .int r.length)]⟩

def build (r : Registry κ) : Registry κ × List Log.Record := (r, [r.sizeRecord "registry_built"])

structure Stats where
  components : Nat
  withDefaults : Nat
  withActionProps : Nat
  types : List String
deriving DecidableEq, Repr

def stats (r : Registry κ) : Stats where
  components := r.length
  withDefaults := r.countP fun e => !e.2.defaultProps.isEmpty
  withActionProps := r.countP fun e => !e.2.actionProps.isEmpty
  types := Entries.keys r

end Registry

end ServerUI
