import ServerUI.Failure

/-!
The effects that clients handle. A table says under which name a client sets the handler for a kind
of action, and which fields of the action the handler is called with.
-/

set_option autoImplicit false

namespace ServerUI

namespace ActionKind

/-- The name of the handler for a kind of action. What the engine does by itself has none. -/
def handlerName? : ActionKind → Option String
  | .navigate => some "navigate"
  | .goBack => some "go_back"
  | .openUrl => some "open_url"
  | .addToCart => some "add_to_cart"
  | .updateCartQuantity => some "update_cart_quantity"
  | .removeFromCart => some "remove_from_cart"
  | .toggleFavorite => some "toggle_favorite"
  | .apiCall => some "api_call"
  | .showToast => some "show_toast"
  | .showModal => some "show_modal"
  | .closeModal => some "close_modal"
  | .share => some "share"
  | .trackEvent => some "track_event"
  | .refresh => some "refresh"
  | .sequence | .conditional | .noop => none

def handlerName (k : ActionKind) : String := k.handlerName?.getD ""

def ofHandlerName (name : String) : Except Failure ActionKind :=
  match all.find? fun k => k.handlerName? = some name with
  | some k => .ok k
  | none => .error .noAttribute

end ActionKind

structure EffectRow where
  handler : String
  fields : List String

def effectTable : Entries EffectRow :=
  [(ActionKind.navigate.name, ⟨"navigate", ["screen", "params"]⟩),
    (ActionKind.goBack.name, ⟨"go_back", []⟩),
    (ActionKind.openUrl.name, ⟨"open_url", ["url", "external"]⟩),
    (ActionKind.addToCart.name, ⟨"add_to_cart", ["product_id", "quantity"]⟩),
    (ActionKind.updateCartQuantity.name, ⟨"update_cart_quantity", ["product_id", "quantity"]⟩),
    (ActionKind.removeFromCart.name, ⟨"remove_from_cart", ["product_id"]⟩),
    (ActionKind.toggleFavorite.name, ⟨"toggle_favorite", ["product_id"]⟩),
    (ActionKind.showToast.name, ⟨"show_toast", ["message", "status", "duration"]⟩),
    (ActionKind.showModal.name, ⟨"show_modal", ["modal_id", "props"]⟩),
    (ActionKind.closeModal.name, ⟨"close_modal", ["modal_id"]⟩),
    (ActionKind.share.name, ⟨"share", ["title", "message", "url"]⟩),
    (ActionKind.trackEvent.name, ⟨"track_event", ["event", "properties"]⟩),
    (ActionKind.refresh.name, ⟨"refresh", ["section_id"]⟩)]

def Action.field (a : Action) (name : String) : Except Failure Value :=
  match Entries.find? a.fields name with
  | some v => .ok v
  | none => .error .noAttribute

end ServerUI
