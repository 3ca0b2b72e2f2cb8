import ServerUI.Calendar
import ServerUI.Failure
import ServerUI.Identifier.Ulid

/-!
Identifiers with an optional prefix: a prefix, an underscore and what identifies. Reading an
identifier takes the part between the first underscore and the second.
-/

set_option autoImplicit false

namespace ServerUI.Identifier

def dispatchPrefix : String := "dsp"

def renderPrefix : String := "rnd"

def withPrefix (pre body : String) : String := pre ++ "_" ++ body

def parts (cs : List Char) : List (List Char) := cs.splitOn '_'

def body (s : String) : List Char :=
  match parts s.toList with
  | _ :: second :: _ => second
  | [whole] => whole
  | [] => []

def isValid (s : String) : Bool := Ulid.isUlid (body s)

def seconds (milliseconds : Nat) : Binary64 := Binary64.ofRatio false milliseconds 1000

def timestamp (s : String) : Int :=
  if isValid s then
    -- By way of the seconds, which rounds twice.
    (((seconds (Ulid.time (body s))).mul Binary64.thousand).truncate?).getD 0
  else 0

def dateTime? (s : String) : Except Failure (Option DateTime) :=
  match timestamp s with
  | .ofNat (ms + 1) =>
      match DateTime.splitSeconds (seconds (ms + 1)) with
      | none => .ok none
      | some (whole, us) =>
          let t := DateTime.ofSeconds whole us
          if DateTime.maxYear < t.year then .error (.yearOutOfRange t.year) else .ok (some t)
  | _ => .ok none

def prefix? (s : String) : Option String :=
  match parts s.toList with
  | [pre, _] => some (String.ofList pre)
  | _ => none

end ServerUI.Identifier

namespace ServerUI

structure Sequence where
  start : Int := 0
  next : Int := start
deriving DecidableEq, Repr

namespace Sequence

def generate (s : Sequence) : String × Sequence := (toString s.next, { s with next := s.next + 1 })

def generateWithPrefix (s : Sequence) (pre : String) : String × Sequence :=
  let (body, s) := s.generate
  (Identifier.withPrefix pre body, s)

def reset (s : Sequence) : Sequence := { s with next := s.start }

end Sequence

end ServerUI
