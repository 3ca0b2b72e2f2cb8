import ServerUI.Proofs.Run.Account
import ServerUI.Proofs.Run.Alike

/-!
What the parts of the client are asked in the course of a journal, in order, and which of it is
asked for the steps of dispatches.
-/

set_option autoImplicit false

namespace ServerUI

variable {ι : Type}

def requests (es : List (Event ι)) : List (ι × Request) :=
  (calls es).map fun call => (call.part, call.request)

def handlerCalls (es : List (Event ι)) : List (ι × Request) :=
  (requests es).filter fun call => call.2.isStep

@[simp] theorem requests_nil : requests ([] : List (Event ι)) = [] := rfl

@[simp] theorem requests_append (es es' : List (Event ι)) :
    requests (es ++ es') = requests es ++ requests es' := by
  simp [requests]

theorem requests_asked (part : ι) (what : Request) (context : Dict) :
    requests [.asked part what context] = [(part, what)] := rfl

@[simp] theorem requests_measured (own : Dispatcher ι) (ms : List Measurement) :
    requests (own.measured ms) = [] := by
  simp [requests]

theorem requests_of_isPlain {e : Event ι} (plain : e.isPlain = true) : requests [e] = [] := by
  cases e with
  | asked => cases plain
  | _ => rfl

@[simp] theorem handlerCalls_nil : handlerCalls ([] : List (Event ι)) = [] := rfl

@[simp] theorem handlerCalls_append (es es' : List (Event ι)) :
    handlerCalls (es ++ es') = handlerCalls es ++ handlerCalls es' := by
  simp [handlerCalls]

theorem handlerCalls_of_requests {es : List (Event ι)} (nothing : requests es = []) :
    handlerCalls es = [] := by
  rw [handlerCalls, nothing]
  rfl

end ServerUI
