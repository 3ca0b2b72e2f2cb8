import ServerUI.Value

set_option autoImplicit false

namespace ServerUI.Log

inductive Level where
  | debug
  | info
  | warning
  | error
  | critical
deriving DecidableEq, Repr

def Level.name : Level → String
  | debug => "debug"
  | info => "info"
  | warning => "warning"
  | error => "error"
  | critical => "critical"

def reservedNames : List String := ["self", "event", "method_name"]

def hasReserved (fields : Dict) : Bool := fields.any fun e => reservedNames.contains e.1

structure Record where
  level : Level
  event : String
  fields : Dict

def Record.within (context : Dict) (r : Record) : Record :=
  -- The fields of the record itself win.
  { r with fields := Entries.merge context r.fields }

end ServerUI.Log
