import ServerUI.Action.Wire
import ServerUI.Engine.Trace
import ServerUI.Metrics.Exposition
import ServerUI.Text.Numeral.Real

set_option autoImplicit false

namespace ServerUI.Scenario

inductive Probe where
  | recordAction (arguments : List Value)
  | recordNode (arguments : List Value)
  | recordApiFailure (arguments : List Value)
  | setRegistrySize (arguments : List Value)
  | expose
  | measured (arguments : List Value) (body : List Probe) (failure : Option Failure)
  | timed (body : List Probe) (failure : Option Failure)
  | traced (arguments : List Value) (fields : Dict) (body : List Probe) (failure : Option Failure)
  | broken (why : Failure)

namespace Probe

abbrev Work := Run Empty Unit

def toBinary64 (v : Value) : Except Failure Binary64 :=
  match v with
  | .bool b => .ok (.ofNat (if b then 1 else 0))
  | .float x => .ok x
  | .int i =>
      let x := Binary64.ofInt i
      if x.isFinite then .ok x else .error .tooLarge
  | .str s => spelled (Text.readScript s)
  | .kind k => spelled (Text.readScript k.name)
  | .bytes bs => spelled (Text.readGrouped (bs.map fun b => Char.ofNat b.toNat))
  | _ => .error .unsupported
where
  spelled : Option Binary64 → Except Failure Binary64
    | some x => .ok x
    | none => .error (.notANumber v)

def totals : Work Metrics := do
  let w ← get
  return ({} : Metrics).recordAll (w.journal.filterMap fun e =>
    match e with
    | .measured m => some m
    | _ => none)

def operationOf (arguments : List Value) (fields : Dict) : Except Failure (Value × Dict) :=
  match arguments, Entries.find? fields "operation" with
  | [name], none => .ok (name, fields)
  | [], some name => .ok (name, Entries.erase fields "operation")
  | _, _ => .error .unsupported

def ending : Option Failure → Work Value
  | some f => throw f
  | none => return .null

mutual

def run : Probe → Work Value
  | recordAction [type, outcome] => do
      Run.measure true (.action type.display outcome.display)
      return .null
  | recordNode [status] => do
      Run.measure true (.node status.display)
      return .null
  | recordApiFailure [] => do
      Run.measure true .apiFailure
      return .null
  | setRegistrySize [size] => do
      let x ← Run.ofExcept (toBinary64 size)
      Run.measure true (.registrySize x)
      return .null
  | expose => do
      let m ← totals
      return .list ((Exposition.lines m).map .str)
  | measured [name] body failure => Trace.scope name.display (runAll body failure)
  | timed body failure => Trace.timed (fun s => Run.emit (.timed s)) (runAll body failure)
  | traced arguments fields body failure => do
      let (name, rest) ← Run.ofExcept (operationOf arguments fields)
      Trace.operation name rest (runAll body failure)
  | broken why => throw why
  | _ => throw .unsupported

def runAll : List Probe → Option Failure → Work Value
  | [], failure => ending failure
  | p :: rest, failure => do
      let _ ← p.run
      runAll rest failure

end

structure Reading where
  result : Except Failure Value
  events : List (Event Empty)
  changes : List Sample

def measurements (es : List (Event Empty)) : List Measurement :=
  es.filterMap fun e =>
    match e with
    | .measured m => some m
    | _ => none

def readings (w : World Empty Unit) : List Probe → List Reading
  | [] => []
  | p :: rest =>
      let (result, w') := p.run.exec w
      let events := w'.journal.drop w.journal.length
      let before := ({} : Metrics).recordAll (measurements w.journal)
      ⟨result, events, before.changes (before.recordAll (measurements events))⟩ :: readings w' rest

end Probe

end ServerUI.Scenario
