import ServerUI.Action.Kind
import ServerUI.Binary64
import ServerUI.Entries

/-!
The values that a server sends and components receive, together with the models that
validation builds from them. A value may hold a model and a model holds values, so both are
defined at once.
-/

set_option autoImplicit false

namespace ServerUI

inductive Number where
  | integer (i : Int)
  | real (x : Binary64)
deriving DecidableEq, Repr

inductive Key where
  | text (s : String)
  | number (i : Int)
deriving DecidableEq, Repr

inductive Listener where
  | dispatcher (number : Nat)
  | host (number : Nat)
deriving DecidableEq, Repr

mutual

inductive Value where
  | null
  | bool (b : Bool)
  | int (i : Int)
  | float (x : Binary64)
  | str (s : String)
  | kind (k : ActionKind)
  | bytes (bs : List UInt8)
  | list (items : List Value)
  | tuple (items : List Value)
  | dict (entries : List (String × Value))
  | action (a : Action)
  | node (n : Node)
  | section (s : Section)
  | screen (s : Screen)
  | keyed (key : Value) (output : Value)
  | callback (listener : Listener) (action : Value) (argument : Option String)

/-- An action that is one call to the client. The quantity of a cart line is any value, because
a callback fills it in without a check. -/
inductive Effect where
  | navigate (screen : String) (params : Option (List (String × Value)))
  | goBack
  | openUrl (url : String) (external : Option Bool)
  | addToCart (productId : String) (quantity : Option Int)
  | updateCartQuantity (productId : String) (quantity : Value)
  | removeFromCart (productId : String)
  | toggleFavorite (productId : String)
  | showToast (message : String) (status : Option ToastStatus) (duration : Option Number)
  | showModal (modalId : String) (props : Option (List (String × Value)))
  | closeModal (modalId : Option String)
  | share (title message url : Option String)
  | trackEvent (event : String) (properties : Option (List (String × Value)))
  | refresh (sectionId : Option String)

inductive Action where
  | effect (e : Effect)
  | apiCall (endpoint : String) (method : Option RequestMethod)
      (body : Option (List (String × Value))) (onSuccess onError : Option Instruction)
  | sequence (actions : List Instruction)
  | conditional (condition : String) (onTrue onFalse : Option Instruction)
  | noop

/-- What an action position holds: an action of a known kind, or the mapping of an action whose
kind is not known, kept as it came. -/
inductive Instruction where
  | known (a : Action)
  | unknown (entries : List (String × Value))

structure Node where
  type : String
  props : List (String × Value)
  actions : Option (List (String × Instruction))
  key : Option Key
  children : Option (List Node)
  condition : Option String
  style : Option (List (String × Value))

structure Section where
  id : Option String
  type : Option String
  title : Option String
  components : List Node
  colorProps : Option (List (String × Value))
  style : Option (List (String × Value))
  collapsible : Option Bool
  collapsed : Option Bool
  onHeaderPress : Option Instruction
  seeAllAction : Option Instruction

structure Screen where
  id : String
  title : Option String
  sections : List Section
  header : Option Node
  footer : Option Node
  onRefresh : Option Instruction
  background : Value
  analyticsName : Option String

end

abbrev Dict := Entries Value

instance : Inhabited Value := ⟨.null⟩

namespace Effect

def kind : Effect → ActionKind
  | navigate .. => .navigate
  | goBack => .goBack
  | openUrl .. => .openUrl
  | addToCart .. => .addToCart
  | updateCartQuantity .. => .updateCartQuantity
  | removeFromCart .. => .removeFromCart
  | toggleFavorite .. => .toggleFavorite
  | showToast .. => .showToast
  | showModal .. => .showModal
  | closeModal .. => .closeModal
  | share .. => .share
  | trackEvent .. => .trackEvent
  | refresh .. => .refresh

end Effect

namespace Action

def kind : Action → ActionKind
  | effect e => e.kind
  | apiCall .. => .apiCall
  | sequence .. => .sequence
  | conditional .. => .conditional
  | noop => .noop

end Action

namespace Value

def isNull : Value → Bool
  | null => true
  | _ => false

def ofOption {α : Type} (f : α → Value) : Option α → Value
  | none => null
  | some x => f x

def ofNumber : Number → Value
  | .integer i => int i
  | .real x => float x

def ofKey : Key → Value
  | .text s => str s
  | .number i => int i

end Value

def Instruction.toValue : Instruction → Value
  | .known a => .action a
  | .unknown entries => .dict entries

namespace Effect

def fields : Effect → Dict
  | navigate screen params => [("screen", .str screen), ("params", .ofOption .dict params)]
  | goBack => []
  | openUrl url external => [("url", .str url), ("external", .ofOption .bool external)]
  | addToCart productId quantity =>
      [("product_id", .str productId), ("quantity", .ofOption .int quantity)]
  | updateCartQuantity productId quantity =>
      [("product_id", .str productId), ("quantity", quantity)]
  | removeFromCart productId => [("product_id", .str productId)]
  | toggleFavorite productId => [("product_id", .str productId)]
  | showToast message status duration =>
      [("message", .str message), ("status", .ofOption (.str ·.name) status),
        ("duration", .ofOption .ofNumber duration)]
  | showModal modalId props => [("modal_id", .str modalId), ("props", .ofOption .dict props)]
  | closeModal modalId => [("modal_id", .ofOption .str modalId)]
  | share title message url =>
      [("title", .ofOption .str title), ("message", .ofOption .str message),
        ("url", .ofOption .str url)]
  | trackEvent event properties =>
      [("event", .str event), ("properties", .ofOption .dict properties)]
  | refresh sectionId => [("section_id", .ofOption .str sectionId)]

end Effect

def Action.fields (a : Action) : Dict :=
  ("type", .str a.kind.name) :: match a with
    | .effect e => e.fields
    | .apiCall endpoint method body onSuccess onError =>
        [("endpoint", .str endpoint), ("method", .ofOption (.str ·.name) method),
          ("body", .ofOption .dict body), ("on_success", .ofOption (·.toValue) onSuccess),
          ("on_error", .ofOption (·.toValue) onError)]
    | .sequence actions => [("actions", .tuple (actions.map (·.toValue)))]
    | .conditional condition onTrue onFalse =>
        [("condition", .str condition), ("on_true", .ofOption (·.toValue) onTrue),
          ("on_false", .ofOption (·.toValue) onFalse)]
    | .noop => []

def Node.fields (n : Node) : Dict :=
  [("type", .str n.type), ("props", .dict n.props),
    ("actions", .ofOption (fun as => .dict (as.map fun (k, i) => (k, i.toValue))) n.actions),
    ("key", .ofOption .ofKey n.key),
    ("children", .ofOption (fun ns => .list (ns.map .node)) n.children),
    ("condition", .ofOption .str n.condition), ("style", .ofOption .dict n.style)]

def Section.fields (s : Section) : Dict :=
  [("id", .ofOption .str s.id), ("type", .ofOption .str s.type),
    ("title", .ofOption .str s.title), ("components", .list (s.components.map .node)),
    ("color_props", .ofOption .dict s.colorProps), ("style", .ofOption .dict s.style),
    ("collapsible", .ofOption .bool s.collapsible), ("collapsed", .ofOption .bool s.collapsed),
    ("on_header_press", .ofOption (·.toValue) s.onHeaderPress),
    ("see_all_action", .ofOption (·.toValue) s.seeAllAction)]

def Screen.fields (s : Screen) : Dict :=
  [("id", .str s.id), ("title", .ofOption .str s.title),
    ("sections", .list (s.sections.map .section)), ("header", .ofOption .node s.header),
    ("footer", .ofOption .node s.footer), ("on_refresh", .ofOption (·.toValue) s.onRefresh),
    ("background", s.background), ("analytics_name", .ofOption .str s.analyticsName)]

def Value.model? : Value → Option (String × Dict)
  | .action a => some (a.kind.model, a.fields)
  | .node n => some ("ComponentDescriptor", n.fields)
  | .section s => some ("SectionDescriptor", s.fields)
  | .screen s => some ("ScreenDescriptor", s.fields)
  | _ => none

end ServerUI
