import ServerUI.Client
import ServerUI.Clock
import ServerUI.Identifier
import ServerUI.Log.Context
import ServerUI.Metrics

/-!
What an engine runs in. A run reads and changes a world, may fail, and writes everything that
can be seen of it from outside into the journal of the world.
-/

set_option autoImplicit false

namespace ServerUI

inductive Event (ι : Type) where
  | logged (record : Log.Record)
  | measured (m : Measurement)
  | asked (part : ι) (request : Request) (context : Dict)
  | refused (part : ι) (request : Request) (why : Failure)
  | absorbed (why : Failure)
  | opened (bindings : Dict)
  | closed
  | began (path : List Nat) (step : Instruction)
  | ended (path : List Nat) (why : Option Failure)
  | timed (seconds : Binary64)

structure Dispatcher (ι : Type) where
  handlers : Handlers ι := {}
  sequence : Nat := 0
  metered : Bool := false

def Dispatcher.edit {ι : Type} (d : Dispatcher ι) (change : Handlers ι → Handlers ι) :
    Dispatcher ι :=
  { d with handlers := change d.handlers }

def Dispatcher.measured {ι : Type} (d : Dispatcher ι) (ms : List Measurement) : List (Event ι) :=
  if d.metered then ms.map .measured else []

theorem Dispatcher.measured_append {ι : Type} (d : Dispatcher ι) (ms ms' : List Measurement) :
    d.measured (ms ++ ms') = d.measured ms ++ d.measured ms' := by
  unfold measured
  split <;> simp

structure World (ι σ : Type) where
  client : σ
  dispatchers : Nat → Dispatcher ι := fun _ => {}
  -- The first sequence is the one of everybody who has none of their own.
  sequences : Nat → Sequence := fun _ => {}
  context : Dict := []
  clock : Clock := {}
  journal : List (Event ι) := []

def putAt {α : Type} (f : Nat → α) (n : Nat) (a : α) : Nat → α := fun m => if m = n then a else f m

@[simp] theorem putAt_self {α : Type} (f : Nat → α) (n : Nat) (a : α) : putAt f n a n = a := by
  simp [putAt]

theorem putAt_of_ne {α : Type} (f : Nat → α) {m n : Nat} (a : α) (h : m ≠ n) :
    putAt f n a m = f m := by
  simp [putAt, h]

namespace World

variable {ι σ : Type} (w : World ι σ) (es : List (Event ι))

def after : World ι σ := { w with journal := w.journal ++ es }

@[simp] theorem after_journal : (w.after es).journal = w.journal ++ es := rfl

@[simp] theorem after_client : (w.after es).client = w.client := rfl

@[simp] theorem after_dispatchers : (w.after es).dispatchers = w.dispatchers := rfl

@[simp] theorem after_sequences : (w.after es).sequences = w.sequences := rfl

@[simp] theorem after_context : (w.after es).context = w.context := rfl

@[simp] theorem after_nil : w.after [] = w := by simp [after]

@[simp] theorem after_after (es' : List (Event ι)) :
    (w.after es).after es' = w.after (es ++ es') := by
  simp [after]

end World

/-- A run that ends with a value or a failure, in a world that it changes either way. -/
abbrev Run (ι σ : Type) := ExceptT Failure (StateM (World ι σ))

namespace Run

variable {ι σ α : Type}

def emit (e : Event ι) : Run ι σ Unit :=
  modify fun w => { w with journal := w.journal ++ [e] }

def log (level : Log.Level) (event : String) (fields : Dict) : Run ι σ Unit := do
  let w ← get
  emit (.logged ((⟨level, event, fields⟩ : Log.Record).within w.context))

def logAll (records : List Log.Record) : Run ι σ Unit :=
  records.forM fun r => log r.level r.event r.fields

def measure (metered : Bool) (m : Measurement) : Run ι σ Unit :=
  if metered then emit (.measured m) else pure ()

def attempt (x : Run ι σ α) : Run ι σ (Except Failure α) := ExceptT.lift x.run

def ofExcept (r : Except Failure α) : Run ι σ α := ExceptT.mk (pure r)

def failure? : Except Failure α → Option Failure
  | .ok _ => none
  | .error f => some f

def dispatcher (number : Nat) : Run ι σ (Dispatcher ι) := return (← get).dispatchers number

def edit (number : Nat) (change : Handlers ι → Handlers ι) : Run ι σ Unit :=
  modify fun w =>
    { w with dispatchers := putAt w.dispatchers number ((w.dispatchers number).edit change) }

def now : Run ι σ Binary64 := do
  let w ← get
  set { w with clock := w.clock.tick }
  return w.clock.now

def newId (sequence : Nat) (pre : String) : Run ι σ String := do
  let w ← get
  let (id, rest) := (w.sequences sequence).generateWithPrefix pre
  set { w with sequences := putAt w.sequences sequence rest }
  return id

def bindNames (bindings : Dict) : Run ι σ Unit :=
  modify fun w => { w with context := Log.Context.bind w.context bindings }

def restore (saved : Log.Saved) : Run ι σ Unit :=
  modify fun w => { w with context := Log.Context.restore w.context saved }

def within (bindings : Dict) (x : Run ι σ α) : Run ι σ α := do
  let w ← get
  let saved := Log.Context.save w.context bindings
  bindNames bindings
  emit (.opened bindings)
  let r ← attempt x
  restore saved
  emit .closed
  ofExcept r

def exec (x : Run ι σ α) (w : World ι σ) : Except Failure α × World ι σ := x.run.run w

variable {β : Type}

theorem ofExcept_ok_bind (a : α) (f : α → Run ι σ β) : (ofExcept (.ok a) >>= f) = f a := rfl

@[simp] theorem failure?_ok (a : α) : failure? (.ok a) = none := rfl

@[simp] theorem failure?_error (f : Failure) :
    failure? (.error f : Except Failure α) = some f := rfl

@[simp] theorem exec_pure (a : α) (w : World ι σ) : exec (pure a) w = (.ok a, w) := rfl

@[simp] theorem exec_throw (f : Failure) (w : World ι σ) :
    exec (throw f : Run ι σ α) w = (.error f, w) := rfl

theorem exec_bind (x : Run ι σ α) (f : α → Run ι σ β) (w : World ι σ) :
    exec (x >>= f) w =
      match exec x w with
      | (.ok a, w) => exec (f a) w
      | (.error e, w) => (.error e, w) := by
  simp only [exec, ExceptT.run_bind, StateT.run_bind]
  generalize StateT.run (ExceptT.run x) w = r
  obtain ⟨a | a, w⟩ := r <;> rfl

theorem exec_map (f : α → β) (x : Run ι σ α) (w : World ι σ) :
    exec (f <$> x) w = ((exec x w).1.map f, (exec x w).2) := by
  rw [map_eq_pure_bind, exec_bind]
  cases exec x w with
  | mk r w' => cases r <;> rfl

@[simp] theorem exec_get (w : World ι σ) : exec (get : Run ι σ (World ι σ)) w = (.ok w, w) := rfl

@[simp] theorem exec_dispatcher (number : Nat) (w : World ι σ) :
    exec (dispatcher number) w = (.ok (w.dispatchers number), w) := rfl

@[simp] theorem exec_modify (f : World ι σ → World ι σ) (w : World ι σ) :
    exec (modify f : Run ι σ Unit) w = (.ok (), f w) := rfl

@[simp] theorem exec_emit (e : Event ι) (w : World ι σ) :
    exec (emit e) w = (.ok (), w.after [e]) := rfl

@[simp] theorem exec_attempt (x : Run ι σ α) (w : World ι σ) :
    exec (attempt x) w = (.ok (exec x w).1, (exec x w).2) := rfl

@[simp] theorem exec_ofExcept (r : Except Failure α) (w : World ι σ) :
    exec (ofExcept r) w = (r, w) := rfl

@[simp] theorem exec_log (level : Log.Level) (event : String) (fields : Dict) (w : World ι σ) :
    exec (log level event fields) w =
      (.ok (), w.after [.logged ((⟨level, event, fields⟩ : Log.Record).within w.context)]) := rfl

@[simp] theorem exec_measure (metered : Bool) (m : Measurement) (w : World ι σ) :
    exec (measure metered m) w =
      (.ok (), w.after (if metered then [.measured m] else [])) := by
  cases metered <;> simp [measure, World.after]

@[simp] theorem exec_edit (number : Nat) (change : Handlers ι → Handlers ι) (w : World ι σ) :
    exec (edit number change) w =
      (.ok (), { w with
        dispatchers := putAt w.dispatchers number ((w.dispatchers number).edit change) }) := rfl

@[simp] theorem exec_now (w : World ι σ) :
    exec now w = (.ok w.clock.now, { w with clock := w.clock.tick }) := rfl

@[simp] theorem exec_newId (sequence : Nat) (pre : String) (w : World ι σ) :
    exec (newId sequence pre) w =
      (.ok ((w.sequences sequence).generateWithPrefix pre).1, { w with
        sequences :=
          putAt w.sequences sequence ((w.sequences sequence).generateWithPrefix pre).2 }) := rfl

theorem exec_within (bindings : Dict) (x : Run ι σ α) (w : World ι σ) :
    exec (within bindings x) w =
      let inside : World ι σ := { w with context := Log.Context.bind w.context bindings }
      match exec x (inside.after [.opened bindings]) with
      | (r, w') =>
          let outside : World ι σ :=
            { w' with
              context := Log.Context.restore w'.context (Log.Context.save w.context bindings) }
          (r, outside.after [.closed]) := by
  simp [within, exec_bind, bindNames, restore]

end Run

/-- How a run puts a request to a part of the client. -/
abbrev Ask (ι σ : Type) := ι → Request → Run ι σ Value

end ServerUI
