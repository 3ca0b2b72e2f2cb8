import ServerUI.Action.Request

/-!
Callbacks close over one action and send it to a listener when they are called. A callback of a
prop that reports a value takes that value as its one argument and fills it into the action.
-/

set_option autoImplicit false

namespace ServerUI.Callback

def argumentOf (prop : String) : Option (ActionKind × String) :=
  if prop = "onQuantityChange" then some (.updateCartQuantity, "quantity") else none

def ofAction (listener : Listener) (prop : String) (action : Value) (withArguments : Bool) :
    Except Failure Value :=
  match (if withArguments then argumentOf prop else none) with
  | none => .ok (.callback listener action none)
  | some (kind, field) =>
      -- The tag is only asked for where the callback may take an argument.
      match action.actionTag with
      | .error f => .error f
      | .ok tag =>
          if tag.word? = some kind.name then .ok (.callback listener action (some field))
          else .ok (.callback listener action none)

def ofEntries (listener : Listener) (withArguments : Bool) : Dict → Except Failure Dict
  | [] => .ok []
  | (prop, action) :: rest =>
      match ofAction listener prop action withArguments with
      | .error f => .error f
      | .ok callback => (ofEntries listener withArguments rest).map ((prop, callback) :: ·)

def ofActions (listener : Listener) (actions : Value) (withArguments : Bool) :
    Except Failure Dict :=
  if actions.isPresent then
    match actions with
    | .dict es => ofEntries listener withArguments es
    | _ => .error .noAttribute
  else .ok []

def fill (action : Value) (field : String) (value : Value) : Value :=
  -- A parsed action takes the value as it is; a mapping is validated when it is dispatched.
  match action with
  | .action (.effect (.updateCartQuantity productId _)) =>
      .action (.effect (.updateCartQuantity productId value))
  | .dict es => .dict (Entries.insert es field value)
  | other => other

def send (callback : Value) (arguments : List Value) : Except Failure (Listener × Value) :=
  match callback, arguments with
  | .callback listener action none, [] => .ok (listener, action)
  | .callback listener action (some field), [value] => .ok (listener, fill action field value)
  | _, _ => .error .unsupported

end ServerUI.Callback
