/-!
Numbers for things that were made one after another. A negative number counts from the last one
made.
-/

set_option autoImplicit false

namespace ServerUI.Scenario

def place? (count : Nat) (number : Int) : Option Nat :=
  let n := if number < 0 then number + count else number
  if 0 ≤ n ∧ n < count then some n.toNat else none

def nth? {α : Type} (things : List α) (number : Int) : Option α :=
  (place? things.length number).bind fun n => things[n]?

end ServerUI.Scenario
