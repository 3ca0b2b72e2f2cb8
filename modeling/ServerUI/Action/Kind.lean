/-!
The closed sets of words that a server uses in actions: the kinds of action, the request
methods and the toast states, each with its spelling on the wire.
-/

set_option autoImplicit false

namespace ServerUI

inductive ActionKind where
  | navigate
  | goBack
  | openUrl
  | addToCart
  | updateCartQuantity
  | removeFromCart
  | toggleFavorite
  | apiCall
  | showToast
  | showModal
  | closeModal
  | share
  | trackEvent
  | refresh
  | sequence
  | conditional
  | noop
deriving DecidableEq, Repr

namespace ActionKind

def all : List ActionKind :=
  [.navigate, .goBack, .openUrl, .addToCart, .updateCartQuantity, .removeFromCart, .toggleFavorite,
    .apiCall, .showToast, .showModal, .closeModal, .share, .trackEvent, .refresh, .sequence,
    .conditional, .noop]

def name : ActionKind → String
  | .navigate => "NAVIGATE"
  | .goBack => "GO_BACK"
  | .openUrl => "OPEN_URL"
  | .addToCart => "ADD_TO_CART"
  | .updateCartQuantity => "UPDATE_CART_QUANTITY"
  | .removeFromCart => "REMOVE_FROM_CART"
  | .toggleFavorite => "TOGGLE_FAVORITE"
  | .apiCall => "API_CALL"
  | .showToast => "SHOW_TOAST"
  | .showModal => "SHOW_MODAL"
  | .closeModal => "CLOSE_MODAL"
  | .share => "SHARE"
  | .trackEvent => "TRACK_EVENT"
  | .refresh => "REFRESH"
  | .sequence => "SEQUENCE"
  | .conditional => "CONDITIONAL"
  | .noop => "NOOP"

def ofName? (s : String) : Option ActionKind := all.find? fun k => k.name = s

@[simp] theorem ofName?_name (k : ActionKind) : ofName? k.name = some k := by
  cases k <;> decide

theorem name_of_ofName? {s : String} {k : ActionKind} (h : ofName? s = some k) : k.name = s := by
  simpa using List.find?_some h

def model : ActionKind → String
  | .navigate => "NavigateAction"
  | .goBack => "GoBackAction"
  | .openUrl => "OpenURLAction"
  | .addToCart => "AddToCartAction"
  | .updateCartQuantity => "UpdateCartQuantityAction"
  | .removeFromCart => "RemoveFromCartAction"
  | .toggleFavorite => "ToggleFavoriteAction"
  | .apiCall => "APICallAction"
  | .showToast => "ShowToastAction"
  | .showModal => "ShowModalAction"
  | .closeModal => "CloseModalAction"
  | .share => "ShareAction"
  | .trackEvent => "TrackEventAction"
  | .refresh => "RefreshAction"
  | .sequence => "SequenceAction"
  | .conditional => "ConditionalAction"
  | .noop => "NoOpAction"

end ActionKind

inductive RequestMethod where
  | get
  | post
  | put
  | delete
deriving DecidableEq, Repr

namespace RequestMethod

def all : List RequestMethod := [.get, .post, .put, .delete]

def name : RequestMethod → String
  | .get => "GET"
  | .post => "POST"
  | .put => "PUT"
  | .delete => "DELETE"

def ofName? (s : String) : Option RequestMethod := all.find? fun m => m.name = s

@[simp] theorem ofName?_name (m : RequestMethod) : ofName? m.name = some m := by
  cases m <;> decide

end RequestMethod

inductive ToastStatus where
  | info
  | success
  | warning
  | error
deriving DecidableEq, Repr

namespace ToastStatus

def all : List ToastStatus := [.info, .success, .warning, .error]

def name : ToastStatus → String
  | .info => "info"
  | .success => "success"
  | .warning => "warning"
  | .error => "error"

def ofName? (s : String) : Option ToastStatus := all.find? fun t => t.name = s

@[simp] theorem ofName?_name (t : ToastStatus) : ofName? t.name = some t := by
  cases t <;> decide

end ToastStatus

end ServerUI
