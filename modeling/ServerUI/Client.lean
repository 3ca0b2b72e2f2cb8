import ServerUI.Renderer

/-!
The client's side of the engine. Whenever the engine needs something done that is not its own
work, it asks a part of the client, and the reaction says what that part does.
-/

set_option autoImplicit false

namespace ServerUI

inductive Request where
  | effect (kind : ActionKind) (arguments : List Value)
  | custom (tag : String) (action : Value)
  | component (props : Dict) (children : Option (List Value))
  | fallback (type : String)
  | wrap (content : Section) (items : List Value)
  | listen (action : Value)

def Request.isStep : Request → Bool
  | .effect .. | .custom .. => true
  | _ => false

structure Handlers (ι : Type) where
  effects : ActionKind → Option ι := fun _ => none
  custom : Entries ι := []

namespace Handlers

variable {ι : Type}

def setEffect (h : Handlers ι) (kind : ActionKind) (part : Option ι) : Handlers ι :=
  { h with effects := fun k => if k = kind then part else h.effects k }

def setCustom (h : Handlers ι) (tag : String) : Option ι → Handlers ι
  | some part => { h with custom := Entries.insert h.custom tag part }
  | none => { h with custom := Entries.erase h.custom tag }

def customFor (h : Handlers ι) (tag : Value) : Option (String × ι) :=
  tag.word?.bind fun word => (Entries.find? h.custom word).map fun part => (word, part)

end Handlers

/-- A program of a part of the client. It may change the handlers of a dispatcher, dispatch an
action or render a screen and go on with what came of it, and it ends with a value or a failure. -/
inductive Reaction (ι : Type) where
  | finish (value : Value)
  | fail (why : Failure)
  | edit (dispatcher : Nat) (change : Handlers ι → Handlers ι) (next : Reaction ι)
  | dispatch (dispatcher : Nat) (action : Value) (next : Except Failure Value → Reaction ι)
  | renderScreen (renderer : Renderer ι) (screen : Value)
      (next : Except Failure Value → Reaction ι)

structure Client (ι σ : Type) where
  respond : ι → Request → σ → Reaction ι × σ
  listener : Nat → ι

end ServerUI
