import ServerUI.Failure
import ServerUI.Log.Record

/-!
The bindings that every log record carries. A scope binds some names, and its end puts back
what was bound to each of them before.
-/

set_option autoImplicit false

namespace ServerUI.Log

abbrev Saved := Entries (Option Value)

namespace Context

-- Name that cannot be bound: it stands for the scope.
def scopeName : String := "self"

def canBind (bindings : Dict) : Bool := !Entries.contains bindings scopeName

def bind (context bindings : Dict) : Dict := Entries.merge context bindings

def save (context bindings : Dict) : Saved :=
  bindings.map fun (name, _) => (name, Entries.find? context name)

def putBack (context : Dict) (name : String) : Option Value → Dict
  | some value => Entries.insert context name value
  | none => Entries.erase context name

def restore (context : Dict) (saved : Saved) : Dict :=
  saved.foldl (fun c (name, found) => putBack c name found) context

end Context

structure Scopes where
  context : Dict := []
  opened : Entries Saved := []

namespace Scopes

def enter (s : Scopes) (label : String) (bindings : Dict) : Scopes where
  context := Context.bind s.context bindings
  opened := Entries.insert s.opened label (Context.save s.context bindings)

def tryEnter (s : Scopes) (label : String) (bindings : Dict) : Except Failure Scopes :=
  if Context.canBind bindings then .ok (s.enter label bindings) else .error .unsupported

def exit (s : Scopes) (label : String) : Scopes :=
  -- Ends a scope, in whatever order the scopes were opened.
  match Entries.find? s.opened label with
  | some saved => ⟨Context.restore s.context saved, Entries.erase s.opened label⟩
  | none => s

end Scopes

end ServerUI.Log
