import ServerUI.Text.Quoted
import ServerUI.Text.Utf8
import ServerUI.Validation.Field

/-!
The wire form of values: models as mappings of their fields under the wire spelling, without the
fields that are null, and plain mappings with all their entries. Bytes go as the text that they
encode, and a free number that is not finite goes as null. Free values, which no model fixes the
type of, may be nested in one another up to a limit.
-/

set_option autoImplicit false

namespace ServerUI

inductive WireError where
  | brokenText (byte : UInt8) (position : Nat)
  | tooDeep
deriving DecidableEq, Repr

namespace WireError

def message : WireError → String
  | brokenText byte position =>
      "'utf-8' codec can't decode byte 0x" ++ String.ofList (Text.hex 2 byte.toNat) ++
        " in position " ++ toString position ++ ": invalid utf-8"
  | tooDeep => "Maximum serialization depth exceeded"

end WireError

namespace Wire

def maxNesting : Nat := 254

def deeper {α : Type} (room : Nat) (inner : Nat → Except WireError α) : Except WireError α :=
  match room with
  | 0 => .error .tooDeep
  | room + 1 => inner room

def textOfBytes (bs : List UInt8) : Except WireError String :=
  match Text.decode? bs with
  | some s => .ok s
  | none =>
      let position := (Text.brokenAt? 0 0 bs).getD 0
      .error (.brokenText (bs.getD position 0) position)

def field (name : String) : Option (Except WireError Value) → Except WireError Dict
  | none => .ok []
  | some r => r.map fun v => [(Field.camelCase name, v)]

def given (name : String) (v : Value) : Except WireError Dict := field name (some (.ok v))

def plain {α : Type} (name : String) (form : α → Value) (a : Option α) : Except WireError Dict :=
  field name (a.map fun a => .ok (form a))

def inOrder : List (Except WireError Dict) → Except WireError Dict
  | [] => .ok []
  | r :: rest => do
      let es ← r
      return es ++ (← inOrder rest)

def mapping (fields : List (Except WireError Dict)) : Except WireError Value :=
  (inOrder fields).map .dict

end Wire

open Wire

mutual

def Value.wire (room : Nat) : Value → Except WireError Value
  | .float x => .ok (if x.isFinite then .float x else .null)
  | .kind k => .ok (.str k.name)
  | .bytes bs => (textOfBytes bs).map .str
  | .list items => deeper room fun room => (Value.wireItems room items).map .list
  | .tuple items => deeper room fun room => (Value.wireItems room items).map .list
  | .dict entries => deeper room fun room => (Value.wireEntries room entries).map .dict
  | .action a => deeper room fun room => a.wire room
  | .node n => deeper room fun room => n.wire room
  | .section s => deeper room fun room => s.wire room
  | .screen s => deeper room fun room => s.wire room
  | v => .ok v

def Value.wireItems (room : Nat) : List Value → Except WireError (List Value)
  | [] => .ok []
  | v :: vs => do
      let w ← v.wire room
      return w :: (← Value.wireItems room vs)

def Value.wireEntries (room : Nat) : List (String × Value) → Except WireError Dict
  | [] => .ok []
  | (k, v) :: es => do
      let w ← v.wire room
      return (k, w) :: (← Value.wireEntries room es)

def Value.wireMapping (room : Nat) (name : String) :
    Option (List (String × Value)) → Except WireError Dict
  | none => field name none
  | some es => field name (some ((Value.wireEntries room es).map .dict))

def Effect.wireFields (room : Nat) : Effect → List (Except WireError Dict)
  | .navigate screen params =>
      [given "screen" (.str screen), Value.wireMapping room "params" params]
  | .goBack => []
  | .openUrl url external => [given "url" (.str url), plain "external" .bool external]
  | .addToCart productId quantity =>
      [given "product_id" (.str productId), plain "quantity" .int quantity]
  | .updateCartQuantity productId quantity =>
      [given "product_id" (.str productId), field "quantity" (some (quantity.wire room))]
  | .removeFromCart productId => [given "product_id" (.str productId)]
  | .toggleFavorite productId => [given "product_id" (.str productId)]
  | .showToast message status duration =>
      [given "message" (.str message), plain "status" (.str ·.name) status,
        plain "duration" .ofNumber duration]
  | .showModal modalId props =>
      [given "modal_id" (.str modalId), Value.wireMapping room "props" props]
  | .closeModal modalId => [plain "modal_id" .str modalId]
  | .share title message url =>
      [plain "title" .str title, plain "message" .str message, plain "url" .str url]
  | .trackEvent event properties =>
      [given "event" (.str event), Value.wireMapping room "properties" properties]
  | .refresh sectionId => [plain "section_id" .str sectionId]

def Action.wire (room : Nat) : Action → Except WireError Value
  | .effect e => mapping (given "type" (.str e.kind.name) :: e.wireFields room)
  | .apiCall endpoint method body onSuccess onError =>
      mapping [given "type" (.str ActionKind.apiCall.name), given "endpoint" (.str endpoint),
        plain "method" (.str ·.name) method, Value.wireMapping room "body" body,
        Instruction.wireField room "on_success" onSuccess,
        Instruction.wireField room "on_error" onError]
  | .sequence actions =>
      mapping [given "type" (.str ActionKind.sequence.name),
        field "actions" (some (deeper room fun room =>
          (Instruction.wireItems room actions).map .list))]
  | .conditional condition onTrue onFalse =>
      mapping [given "type" (.str ActionKind.conditional.name), given "condition" (.str condition),
        Instruction.wireField room "on_true" onTrue, Instruction.wireField room "on_false" onFalse]
  | .noop => mapping [given "type" (.str ActionKind.noop.name)]

def Instruction.wire (room : Nat) : Instruction → Except WireError Value
  | .known a => deeper room fun room => a.wire room
  | .unknown entries => deeper room fun room => (Value.wireEntries room entries).map .dict

def Instruction.wireField (room : Nat) (name : String) :
    Option Instruction → Except WireError Dict
  | none => field name none
  | some i => field name (some (i.wire room))

def Instruction.wireItems (room : Nat) : List Instruction → Except WireError (List Value)
  | [] => .ok []
  | i :: is => do
      let w ← i.wire room
      return w :: (← Instruction.wireItems room is)

def Instruction.wireEntries (room : Nat) :
    List (String × Instruction) → Except WireError Dict
  | [] => .ok []
  | (k, i) :: es => do
      let w ← i.wire room
      return (k, w) :: (← Instruction.wireEntries room es)

def Instruction.wireMap (room : Nat) (name : String) :
    Option (List (String × Instruction)) → Except WireError Dict
  | none => field name none
  | some es => field name (some ((Instruction.wireEntries room es).map .dict))

def Node.wire (room : Nat) : Node → Except WireError Value
  | ⟨type, props, actions, key, children, condition, style⟩ =>
      mapping [given "type" (.str type),
        field "props" (some ((Value.wireEntries room props).map .dict)),
        Instruction.wireMap room "actions" actions, plain "key" .ofKey key,
        Node.wireList room "children" children, plain "condition" .str condition,
        Value.wireMapping room "style" style]

-- Nodes inside models count as free values, and lists of them do not.
def Node.wireItems (room : Nat) : List Node → Except WireError (List Value)
  | [] => .ok []
  | n :: ns => do
      let w ← deeper room fun room => n.wire room
      return w :: (← Node.wireItems room ns)

def Node.wireList (room : Nat) (name : String) : Option (List Node) → Except WireError Dict
  | none => field name none
  | some ns => field name (some ((Node.wireItems room ns).map .list))

def Node.wireField (room : Nat) (name : String) : Option Node → Except WireError Dict
  | none => field name none
  | some n => field name (some (deeper room fun room => n.wire room))

def Section.wire (room : Nat) : Section → Except WireError Value
  | ⟨id, type, title, components, colorProps, style, collapsible, collapsed, onHeaderPress,
      seeAllAction⟩ =>
      mapping [plain "id" .str id, plain "type" .str type, plain "title" .str title,
        field "components" (some ((Node.wireItems room components).map .list)),
        Value.wireMapping room "color_props" colorProps, Value.wireMapping room "style" style,
        plain "collapsible" .bool collapsible, plain "collapsed" .bool collapsed,
        Instruction.wireField room "on_header_press" onHeaderPress,
        Instruction.wireField room "see_all_action" seeAllAction]

def Section.wireItems (room : Nat) : List Section → Except WireError (List Value)
  | [] => .ok []
  | s :: ss => do
      let w ← s.wire room
      return w :: (← Section.wireItems room ss)

def Screen.wire (room : Nat) : Screen → Except WireError Value
  | ⟨id, title, sections, header, footer, onRefresh, background, analyticsName⟩ =>
      mapping [given "id" (.str id), plain "title" .str title,
        field "sections" (some ((Section.wireItems room sections).map .list)),
        Node.wireField room "header" header, Node.wireField room "footer" footer,
        Instruction.wireField room "on_refresh" onRefresh,
        field "background" (if background.isNull then none else some (background.wire room)),
        plain "analytics_name" .str analyticsName]

end

def Action.toWire (a : Action) : Except WireError Value := a.wire maxNesting

end ServerUI
