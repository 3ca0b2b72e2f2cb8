import ServerUI.Engine
import ServerUI.Settings

/-!
A container hands out one dispatcher and one renderer that belong together. The renderer is made
when it is first asked for, from what the registry builder holds then.
-/

set_option autoImplicit false

namespace ServerUI

def Settings.handlerRule (s : Settings) : PropRule := .startsWith s.actionPropPrefix

structure Container (ι : Type) where
  settings : Settings
  fallback : Option ι := none
  wrapper : Option ι := none
  renderer : Option (Renderer ι) := none

namespace Container

variable {ι σ : Type}

def dispatcherNumber : Nat := 0

def makeRenderer (c : Container ι) (snapshot : Registry ι) : Renderer ι where
  registry := snapshot
  onAction := some (.dispatcher dispatcherNumber)
  fallback := c.fallback
  wrapper := c.wrapper
  isActionProp := c.settings.handlerRule.holds
  metered := c.settings.enableMetrics

def provideRenderer (c : Container ι) (builder : Registry ι) :
    Run ι σ (Renderer ι × Container ι) :=
  match c.renderer with
  | some r => pure (r, c)
  | none => do
      let (snapshot, records) := builder.build
      Run.logAll records
      Run.measure c.settings.enableMetrics (.registrySize (.ofNat snapshot.length))
      Run.logAll [snapshot.sizeRecord "engine_ready"]
      let r := c.makeRenderer snapshot
      return (r, { c with renderer := some r })

end Container

end ServerUI
