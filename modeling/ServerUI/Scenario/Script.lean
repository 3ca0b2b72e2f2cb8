import ServerUI.Engine

set_option autoImplicit false

namespace ServerUI.Scenario

mutual

/-- What a handler does when it is called: it edits the handlers, and then it fails, dispatches
an action on one of its first calls, or returns a result. -/
inductive Script where
  | mk (edits : List Edit) (failure : Option Failure) (dispatch : Option Value) (result : Value)

inductive Edit where
  | effect (kind : ActionKind) (script : Option Script)
  | custom (tag : String) (script : Option Script)
  | replace (effects : List (ActionKind × Script)) (custom : List (String × Script))

end

inductive Drawing where
  | echo
  | blank
  | count
  | fail (why : Failure)

inductive Substitute where
  | echo
  | blank
  | fail

inductive Wrapping where
  | echo
  | blankIfEmpty
  | fail

inductive Part where
  | handler (number : Nat) (script : Script)
  | component (name : String) (drawing : Drawing)
  | substitute (how : Substitute)
  | wrapper (how : Wrapping)
  | recorder (counts : Bool)

structure Tally where
  handlers : Nat := 0
  calls : List (Nat × Nat) := []
  heard : Nat := 0

namespace Tally

def setUp (t : Tally) (script : Script) : Part × Tally :=
  (.handler t.handlers script, { t with handlers := t.handlers + 1 })

def setUpOption (t : Tally) : Option Script → Option Part × Tally
  | none => (none, t)
  | some script =>
      let (part, t) := t.setUp script
      (some part, t)

def setUpAll {κ : Type} (t : Tally) : List (κ × Script) → List (κ × Part) × Tally
  | [] => ([], t)
  | (k, script) :: rest =>
      let (part, t) := t.setUp script
      let (parts, t) := t.setUpAll rest
      ((k, part) :: parts, t)

def setUpHandlers (t : Tally) (effects : List (ActionKind × Script))
    (custom : List (String × Script)) : Handlers Part × Tally :=
  let (effects, t) := t.setUpAll effects
  let (custom, t) := t.setUpAll custom
  ({ effects := fun k => effects.lookup k, custom := Entries.ofList custom }, t)

def setUpEdit (t : Tally) : Edit → (Handlers Part → Handlers Part) × Tally
  | .effect kind script =>
      let (part, t) := t.setUpOption script
      (fun h => h.setEffect kind part, t)
  | .custom tag script =>
      let (part, t) := t.setUpOption script
      (fun h => h.setCustom tag part, t)
  | .replace effects custom =>
      let (h, t) := t.setUpHandlers effects custom
      (fun _ => h, t)

def setUpEdits (t : Tally) : List Edit → List (Handlers Part → Handlers Part) × Tally
  | [] => ([], t)
  | e :: rest =>
      let (change, t) := t.setUpEdit e
      let (changes, t) := t.setUpEdits rest
      (change :: changes, t)

def countCall (t : Tally) (number : Nat) : Nat × Tally :=
  let n := (t.calls.lookup number).getD 0 + 1
  (n, { t with calls := (number, n) :: t.calls.filter (·.1 ≠ number) })

end Tally

def dispatchingCalls : Nat := 2

def dispatcherNumber : Nat := 0

def pass : Except Failure Value → Reaction Part
  | .ok v => .finish v
  | .error f => .fail f

def Script.outcome (failure : Option Failure) (dispatch : Option Value) (result : Value)
    (call : Nat) : Reaction Part :=
  match failure, dispatch with
  | some f, _ => .fail f
  | none, some action =>
      if call ≤ dispatchingCalls then .dispatch dispatcherNumber action pass else .finish result
  | none, none => .finish result

def Script.react (number : Nat) (t : Tally) : Script → Reaction Part × Tally
  | ⟨edits, failure, dispatch, result⟩ =>
      let (call, t) := t.countCall number
      let (changes, t) := t.setUpEdits edits
      (changes.foldr (fun change next => .edit dispatcherNumber change next)
        (Script.outcome failure dispatch result call), t)

def Drawing.draw (name : String) (props : Dict) (children : Option (List Value)) :
    Drawing → Reaction Part
  | echo =>
      .finish (.dict [("component", .str name), ("props", .dict props),
        ("children", .ofOption .list children)])
  | blank => .finish .null
  | count =>
      .finish (.dict [("component", .str name),
        ("children", .ofOption (fun items => .int items.length) children)])
  | fail why => .fail why

def Substitute.draw (type : String) : Substitute → Reaction Part
  | echo => .finish (.dict [("fallback", .str type)])
  | blank => .finish .null
  | fail => .fail (.client .runtime (some ("no component " ++ type)))

def Wrapping.wrap (content : Section) (items : List Value) : Wrapping → Reaction Part
  | echo => .finish (.dict [("section", .section content), ("content", .list items)])
  | blankIfEmpty =>
      if items.isEmpty then .finish .null
      else .finish (.dict [("section", .section content), ("content", .list items)])
  | fail => .fail (.client .runtime (some "wrapper failed"))

def respond (part : Part) (what : Request) (t : Tally) : Reaction Part × Tally :=
  match part, what with
  | .handler number script, .effect .. => script.react number t
  | .handler number script, .custom .. => script.react number t
  | .component name drawing, .component props children => (drawing.draw name props children, t)
  | .substitute how, .fallback type => (how.draw type, t)
  | .wrapper how, .wrap content items => (how.wrap content items, t)
  | .recorder counts, .listen _ =>
      (.finish (if counts then .int (t.heard + 1 : Nat) else .null),
        { t with heard := t.heard + 1 })
  | _, _ => (.finish .null, t)

-- Listener number 0 counts, the others do not.
def countingListener : Listener := .host 0

def silentListener : Listener := .host 1

def client : Client Part Tally where
  respond := respond
  listener n := .recorder (n = 0)

def engine : Engine Part Tally := { client }

end ServerUI.Scenario
