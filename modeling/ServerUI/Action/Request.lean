import ServerUI.Failure
import ServerUI.Action.Validation

set_option autoImplicit false

namespace ServerUI

namespace Action

def parse (v : Value) : Except Failure Action :=
  match v.toDict with
  | .error e => .error (.notAMapping e)
  | .ok es => Failure.ofChecked none (ofDict es)

theorem parse_dict_eq_ok {es : Dict} {a : Action} :
    parse (.dict es) = .ok a ↔ Instruction.ofValue (.dict es) = .ok (.known a) := by
  rw [Instruction.ofValue_eq_ok]
  simp [parse, Value.toDict, ofDict_eq_ok]

end Action

namespace Instruction

def parse (v : Value) : Except Failure Instruction :=
  (ofValue v).mapError (Failure.ofRejection none)

@[simp] theorem parse_eq_ok {v : Value} {i : Instruction} :
    parse v = .ok i ↔ ofValue v = .ok i := by
  simp [parse]

theorem parse_action (a : Action) : parse (.action a) = .ok (.known a) := by
  simp

theorem isOrdinary_of_parse {v : Value} {f : Failure} (h : parse v = .error f) :
    f.isOrdinary = true := by
  obtain ⟨r, -, rfl⟩ := Except.mapError_eq_error.mp h
  exact Failure.isOrdinary_ofRejection none r

def tagOf (es : Dict) : Value :=
  match es.find? "type" with
  | none => .null
  | some (.kind k) => .str k.name
  | some v => v

def tag : Instruction → Value
  | known a => .str a.kind.name
  | unknown es => tagOf es

end Instruction

namespace Value

def actionTag (v : Value) : Except Failure Value :=
  match v with
  | .action a => .ok (.str a.kind.name)
  | .dict es => .ok (Instruction.tagOf es)
  | _ => .error .noAttribute

def actionWire (v : Value) : Except Failure Value :=
  match v with
  | .action a => a.toWire.mapError .wire
  | v => (v.toDict.map .dict).mapError .notAMapping

end Value

end ServerUI
