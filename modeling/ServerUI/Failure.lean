import ServerUI.Action.Wire
import ServerUI.Json.Limits
import ServerUI.Text.Quoted
import ServerUI.Validation.Checked
import ServerUI.Value.Tree

set_option autoImplicit false

namespace ServerUI

inductive PayloadError where
  | document (e : DocumentError)
  | notAnObject (found : String)
  | missingField (name : String)
  | notAList (name : String)
  | schema (model : String) (faults : List Fault)

/-- What the code of a client can raise. Ordinary failures are those that a caller may handle;
a cancellation or a fatal failure passes through every caller. -/
inductive ClientError where
  | general
  | runtime
  | value
  | key
  | connection
  | timeout
  | cancelled
  | fatal
deriving DecidableEq, Repr

inductive Failure where
  | invalid (title : Option String) (faults : List Fault)
  | notAnAction (rule : ActionRule)
  | notAMapping (e : MappingError)
  | unhashable (type : String)
  | document (e : DocumentError)
  | payload (e : PayloadError)
  | wire (e : WireError)
  | unwritable
  | noAttribute
  | unsupported
  | missingKey (key : Value)
  | missingItem
  | nestingLimit
  | yearOutOfRange (year : Nat)
  | notALevel (found : String)
  | notANumber (text : Value)
  | tooLarge
  | client (kind : ClientError) (message : Option String)

namespace Failure

def faultCount (title : Option String) (n : Nat) : String :=
  toString n ++ (if n = 1 then " validation error" else " validation errors") ++
    (match title with
      | some t => " for " ++ t
      | none => "")

end Failure

namespace MappingError

def message : MappingError → String
  | noPairs => ""
  | notAPair index length =>
      "dictionary update sequence element #" ++ toString index ++ " has length " ++
        toString length ++ "; 2 is required"
  | unhashable type => "unhashable type: '" ++ type ++ "'"

end MappingError

namespace PayloadError

def message : PayloadError → String
  | document e => e.message
  | notAnObject found => "Expected JSON object, got " ++ found
  | missingField name => "Payload missing required '" ++ name ++ "' field"
  | notAList name => "Payload '" ++ name ++ "' must be a list"
  | schema model faults => "Invalid " ++ model ++ ": " ++ Failure.faultCount (some model) faults.length

end PayloadError

namespace ClientError

def isOrdinary : ClientError → Bool
  | cancelled | fatal => false
  | _ => true

end ClientError

namespace Failure

def message : Failure → String
  | invalid title faults => faultCount title faults.length
  | notAnAction rule => rule.message
  | notAMapping e => e.message
  | unhashable type => "unhashable type: '" ++ type ++ "'"
  | document e => e.message
  | payload e => e.message
  | wire e => e.message
  | unwritable => ""
  | noAttribute => ""
  | unsupported => ""
  | missingKey key => key.tree.inner
  | missingItem => "list index out of range"
  | nestingLimit => ""
  | yearOutOfRange year => "year " ++ toString year ++ " is out of range"
  | notALevel found => "Unknown level: " ++ Text.quoted found
  | notANumber text => "could not convert string to float: " ++ text.tree.inner
  | tooLarge => "int too large to convert to float"
  | client .key (some m) => Text.quoted m
  | client _ m => m.getD ""

def isOrdinary : Failure → Bool
  | client kind _ => kind.isOrdinary
  | _ => true

def ofRejection (title : Option String) : Rejection → Failure
  | .faults fs => .invalid title fs
  | .notAnAction rule => .notAnAction rule
  | .unhashable t => .unhashable t

theorem isOrdinary_ofRejection (title : Option String) (r : Rejection) :
    (ofRejection title r).isOrdinary = true := by
  cases r <;> rfl

def ofChecked {α : Type} (title : Option String) (c : Checked α) : Except Failure α :=
  c.toExcept.mapError (ofRejection title)

@[simp] theorem ofChecked_eq_ok {α : Type} {title : Option String} {c : Checked α} {a : α} :
    ofChecked title c = .ok a ↔ c = .ok a := by
  simp [ofChecked]

theorem isOrdinary_of_ofChecked {α : Type} {title : Option String} {c : Checked α} {f : Failure}
    (h : ofChecked title c = .error f) : f.isOrdinary = true := by
  obtain ⟨r, -, rfl⟩ := Except.mapError_eq_error.mp h
  exact isOrdinary_ofRejection title r

end Failure

namespace Value

-- Names that only say something about a model.
def derivedNames : List String := ["__weakref__", "__fields_set__"]

def fieldIn (es : Dict) (field : String) : Except Failure (String × Tree) :=
  match Entries.find? es field with
  | some v => .ok (field, v.tree)
  | none => .error .noAttribute

def withFields (model : Value) (es : Dict) : Except Failure Tree :=
  match model.model? with
  | some (name, fields) => ((Entries.keys fields).mapM (fieldIn es)).map (.model name)
  | none => .error .noAttribute

def assign (model : Value) (name : String) (value : Value) : Except Failure Tree :=
  -- Models are read-only, except that names with an underscore in front are free, and setting one
  -- changes no field. Some of those names stand for the kind of the model or all its fields.
  match name, value with
  | "__class__", _ => .error .unsupported
  | "__dict__", .dict es => model.withFields es
  | "__dict__", _ => .error .unsupported
  | name, _ =>
      if derivedNames.contains name then .error .noAttribute
      else if name.toList.head? = some '_' then .ok model.tree
      else .error (.invalid none [⟨[.name name], .frozen⟩])

end Value

end ServerUI
