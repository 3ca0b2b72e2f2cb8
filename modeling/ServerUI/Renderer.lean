import ServerUI.Registry

/-!
A renderer: a snapshot of the registry and what a client has set up for it. Nothing of it
changes while it renders.
-/

set_option autoImplicit false

namespace ServerUI

structure Renderer (ι : Type) where
  registry : Registry ι
  onAction : Option Listener := none
  fallback : Option ι := none
  wrapper : Option ι := none
  isActionProp : String → Bool := PropRule.handlers.holds
  metered : Bool := false

end ServerUI
