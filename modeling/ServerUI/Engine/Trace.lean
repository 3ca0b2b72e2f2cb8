import ServerUI.Binary64.Decimal
import ServerUI.Engine.World

/-!
Tracing and timing of operations. A traced operation logs that it starts and, unless it is cut
short by what no caller may handle, how it ends and how long it took.
-/

set_option autoImplicit false

namespace ServerUI.Trace

variable {ι σ α : Type}

def slowSeconds : Binary64 := Binary64.tenth

def log (level : Log.Level) (event : String) (own fields : Dict) : Run ι σ Unit :=
  -- A level among the fields is not one of the record. A field `positional_args` is passed on like
  -- any other: a record is what the logger is called with, and only an output that writes it takes
  -- this field for the arguments of the event.
  Run.log level event (own ++ fields.filter fun e => e.1 ≠ "level")

def clash? (own fields : Dict) : Option String :=
  (Entries.keys fields).find? fun name => Entries.contains own name

def duration (start stop : Binary64) : Value :=
  .float ((stop.sub start).mul Binary64.thousand)

def logFailure (name : Value) (fields : Dict) (start : Binary64) (f : Failure) : Run ι σ Unit := do
  let stop ← Run.now
  let own : Dict :=
    [("operation", name), ("error", .str f.message), ("duration_ms", duration start stop)]
  -- A field under one of these names is a failure of its own, and hides the first.
  match clash? own fields with
  | some field => throw (.missingKey (.str field))
  | none => log .error "operation_error" own fields

def logEnd (name : Value) (fields : Dict) (start : Binary64) : Run ι σ Unit := do
  let stop ← Run.now
  let own : Dict := [("operation", name), ("duration_ms", duration start stop)]
  match clash? own fields with
  | some _ => throw .unsupported
  | none =>
      if slowSeconds.lt (stop.sub start) then log .warning "operation_slow" own fields
      else log .debug "operation_end" own fields

/-- Runs an operation between a record of its start and a record of its end. -/
def operation (name : Value) (fields : Dict) (body : Run ι σ α) : Run ι σ α := do
  let start ← Run.now
  if Log.hasReserved fields then throw .unsupported
  log .debug "operation_start" [("operation", name)] fields
  match ← Run.attempt body with
  | .error f =>
      if f.isOrdinary then logFailure name fields start f
      throw f
  | .ok a =>
      logEnd name fields start
      return a

def timed (report : Binary64 → Run ι σ Unit) (body : Run ι σ α) : Run ι σ α := do
  let start ← Run.now
  let r ← Run.attempt body
  let stop ← Run.now
  report (stop.sub start)
  Run.ofExcept r

def scope (name : String) (body : Run ι σ α) : Run ι σ α := do
  Run.measure true (.scope name)
  timed (fun seconds => Run.measure true (.duration name seconds)) body

end ServerUI.Trace
