import ServerUI.Binary64

set_option autoImplicit false

namespace ServerUI

structure Clock where
  step : Binary64 := Binary64.zero
  readings : Nat := 0
deriving DecidableEq, Repr

namespace Clock

def now (c : Clock) : Binary64 := (Binary64.ofNat c.readings).mul c.step

def tick (c : Clock) : Clock := { c with readings := c.readings + 1 }

end Clock

end ServerUI
