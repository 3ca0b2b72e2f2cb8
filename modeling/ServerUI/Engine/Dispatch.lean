import ServerUI.Action.Effects
import ServerUI.Action.Height
import ServerUI.Engine.World

/-!
Dispatching actions. A step reads its action and is carried out by the custom handler for its tag
if there is one, else by what the engine does for its kind; a kind that is not known is logged and
nothing else. Handlers are looked up anew at each step, so a step may change what later steps do.
-/

set_option autoImplicit false

namespace ServerUI

namespace Dispatch

variable {ι σ : Type} (ask : Ask ι σ) (dispatcher : Nat)

def handlers : Run ι σ (Handlers ι) := return (← Run.dispatcher dispatcher).handlers

def count (tag : String) (o : Outcome) : Run ι σ Unit := do
  let own ← Run.dispatcher dispatcher
  Run.measure own.metered (.action tag o.name)

def countFailure : Run ι σ Unit := do
  let own ← Run.dispatcher dispatcher
  Run.measure own.metered .apiFailure

@[simp] theorem exec_handlers (w : World ι σ) :
    Run.exec (handlers dispatcher) w = (.ok (w.dispatchers dispatcher).handlers, w) := rfl

@[simp] theorem exec_count (tag : String) (o : Outcome) (w : World ι σ) :
    Run.exec (count dispatcher tag o) w =
      (.ok (), w.after ((w.dispatchers dispatcher).measured [.action tag o.name])) := by
  simp [count, Run.exec_bind, Dispatcher.measured]

@[simp] theorem exec_countFailure (w : World ι σ) :
    Run.exec (countFailure dispatcher) w =
      (.ok (), w.after ((w.dispatchers dispatcher).measured [.apiFailure])) := by
  simp [countFailure, Run.exec_bind, Dispatcher.measured]

def runUnknown (tag : Value) : Run ι σ Unit := do
  Run.log .warning "unknown_action_type" [("action_type", tag)]
  count dispatcher tag.display .unknown

def runEffect (e : Effect) : Run ι σ Unit :=
  match Entries.find? effectTable e.kind.name with
  -- The table decides which kinds are known to have an effect.
  | none => runUnknown dispatcher (.str e.kind.name)
  | some row => do
      let kind ← Run.ofExcept (ActionKind.ofHandlerName row.handler)
      let h ← handlers dispatcher
      match h.effects kind with
      | none =>
          Run.log .debug "effect_handler_missing"
            [("action_type", .str e.kind.name), ("handler", .str row.handler)]
          count dispatcher e.kind.name .unhandled
      | some part =>
          let arguments ← Run.ofExcept (row.fields.mapM (Action.effect e).field)
          let _ ← ask part (.effect kind arguments)
          count dispatcher e.kind.name .handled

def callApi (endpoint : String) (method : Option RequestMethod) (body : Option Dict) :
    Run ι σ Unit := do
  let h ← handlers dispatcher
  match h.effects .apiCall with
  | none => pure ()
  | some part =>
      let _ ← ask part (.effect .apiCall
        [.str endpoint, .ofOption (.str ·.name) method, .ofOption .dict body])

def announced (path : List Nat) (i : Instruction) (x : Run ι σ Value) : Run ι σ Value := do
  Run.emit (.began path i)
  let r ← Run.attempt x
  Run.emit (.ended path (Run.failure? r))
  Run.ofExcept r

theorem exec_announced (path : List Nat) (i : Instruction) (x : Run ι σ Value) (w : World ι σ) :
    Run.exec (announced path i x) w =
      match Run.exec x (w.after [.began path i]) with
      | (r, w') => (r, w'.after [.ended path (Run.failure? r)]) := by
  simp [announced, Run.exec_bind]

def step (path : List Nat) (i : Instruction) (work : Run ι σ Unit) : Run ι σ Value :=
  announced path i (do
    let h ← handlers dispatcher
    match h.customFor i.tag with
    | some (tag, part) =>
        count dispatcher tag .custom
        ask part (.custom tag i.toValue)
    | none =>
        work
        return .null)

theorem exec_step {path : List Nat} {i : Instruction} {work : Run ι σ Unit} {w : World ι σ}
    (plain : (w.dispatchers dispatcher).handlers.customFor i.tag = none) :
    Run.exec (step ask dispatcher path i work) w =
      match Run.exec work (w.after [.began path i]) with
      | (r, w') => (r.map fun _ => .null, w'.after [.ended path (Run.failure? r)]) := by
  simp only [step, exec_announced, Run.exec_bind, exec_handlers, World.after_dispatchers, plain]
  cases Run.exec work (w.after [.began path i]) with
  | mk r w' => cases r <;> rfl

def containing (work : Run ι σ Unit) (onSuccess : Run ι σ Unit)
    (onFailure : Failure → Run ι σ Unit) : Run ι σ Unit := do
  match ← Run.attempt work with
  | .ok () => onSuccess
  | .error f =>
      if f.isOrdinary then
        Run.emit (.absorbed f)
        onFailure f
      else throw f

theorem exec_containing (work onSuccess : Run ι σ Unit) (onFailure : Failure → Run ι σ Unit)
    (w : World ι σ) :
    Run.exec (containing work onSuccess onFailure) w =
      match Run.exec work w with
      | (.ok (), w) => Run.exec onSuccess w
      | (.error f, w) =>
          if f.isOrdinary then Run.exec (onFailure f) (w.after [.absorbed f])
          else (.error f, w) := by
  simp only [containing, Run.exec_bind, Run.exec_attempt]
  cases Run.exec work w with
  | mk r w =>
      cases r with
      | ok _ => rfl
      | error f => by_cases ordinary : f.isOrdinary <;> simp [ordinary, Run.exec_bind]

mutual

def perform (path : List Nat) (v : Value) : Run ι σ Value :=
  match _read : Instruction.parse v with
  | .error f => throw f
  | .ok (.known a) => step ask dispatcher path (.known a) (work path a)
  | .ok (.unknown es) =>
      step ask dispatcher path (.unknown es) (runUnknown dispatcher (Instruction.tagOf es))
termination_by (v.height, 0, 0)
decreasing_by
  exact Prod.Lex.left _ _ (Instruction.height_lt_of_parse _read)

def work (path : List Nat) : Action → Run ι σ Unit
  | .effect e => runEffect ask dispatcher e
  | .apiCall endpoint method body onSuccess onError =>
      containing
        (do
          callApi ask dispatcher endpoint method body
          performOption (path ++ [0]) onSuccess)
        (count dispatcher ActionKind.apiCall.name .handled)
        (fun f => do
          Run.log .warning "api_call_failed"
            [("endpoint", .str endpoint), ("method", .ofOption (.str ·.name) method),
              ("error", .str f.message), ("has_on_error", .bool onError.isSome)]
          count dispatcher ActionKind.apiCall.name .failed
          countFailure dispatcher
          performOption (path ++ [1]) onError)
  | .sequence actions => do
      performAll path 0 actions
      count dispatcher ActionKind.sequence.name .handled
  | .conditional condition _ _ => do
      Run.log .warning "conditional_not_evaluated" [("condition", .str condition)]
      count dispatcher ActionKind.conditional.name .skipped
  | .noop => count dispatcher ActionKind.noop.name .handled
termination_by a => (a.height, 2, 0)
decreasing_by
  all_goals
    simp only [Action.height]
    grind

def performOption (path : List Nat) : Option Instruction → Run ι σ Unit
  | none => pure ()
  | some i => do let _ ← perform path i.toValue
termination_by o => (Instruction.heightOfOption o, 1, 0)

def performAll (path : List Nat) (index : Nat) : List Instruction → Run ι σ Unit
  | [] => pure ()
  | i :: rest => do
      Run.log .debug "sequence_step" [("index", .int index), ("action_type", i.tag)]
      let _ ← perform (path ++ [index]) i.toValue
      performAll path (index + 1) rest
termination_by is => (Instruction.heightOfItems is, 1, is.length)
decreasing_by
  all_goals
    simp only [Instruction.heightOfItems, Instruction.height_toValue, List.length_cons]
    grind

end

variable {path : List Nat} {v : Value}

theorem perform_of_refused {f : Failure} (h : Instruction.parse v = .error f) :
    perform ask dispatcher path v = throw f := by
  rw [perform]
  split <;> simp_all

theorem perform_of_known {a : Action} (h : Instruction.parse v = .ok (.known a)) :
    perform ask dispatcher path v =
      step ask dispatcher path (.known a) (work ask dispatcher path a) := by
  rw [perform]
  split <;> simp_all

theorem perform_action (a : Action) :
    perform ask dispatcher path (.action a) =
      step ask dispatcher path (.known a) (work ask dispatcher path a) :=
  perform_of_known ask dispatcher (Instruction.parse_action a)

theorem perform_of_unknown {es : Dict} (h : Instruction.parse v = .ok (.unknown es)) :
    perform ask dispatcher path v =
      step ask dispatcher path (.unknown es) (runUnknown dispatcher (Instruction.tagOf es)) := by
  rw [perform]
  split <;> simp_all

def run (action : Value) : Run ι σ Value := do
  let own ← Run.dispatcher dispatcher
  let id ← Run.newId own.sequence Identifier.dispatchPrefix
  Run.within [("dispatch_id", .str id)] (perform ask dispatcher [] action)

/-- A dispatch is one step between the events that its identifier is bound and put back. -/
theorem exec_run (v : Value) (w : World ι σ) :
    ∃ id w₀, w₀.client = w.client ∧ w₀.dispatchers = w.dispatchers ∧
      w₀.journal = w.journal ++ [.opened [("dispatch_id", .str id)]] ∧
      let whole := Run.exec (run ask dispatcher v) w
      let step := Run.exec (perform ask dispatcher [] v) w₀
      whole.1 = step.1 ∧ whole.2.client = step.2.client ∧
        whole.2.dispatchers = step.2.dispatchers ∧
        whole.2.journal = step.2.journal ++ [.closed] := by
  let own := w.dispatchers dispatcher
  let new := (w.sequences own.sequence).generateWithPrefix Identifier.dispatchPrefix
  let inside : World ι σ :=
    { w with
      sequences := putAt w.sequences own.sequence new.2
      context := Log.Context.bind w.context [("dispatch_id", .str new.1)] }
  refine ⟨new.1, inside.after [.opened [("dispatch_id", .str new.1)]], rfl, rfl, rfl, ?_⟩
  simp only [run, Run.exec_bind, Run.exec_dispatcher, Run.exec_newId, Run.exec_within]
  exact ⟨rfl, rfl, rfl, rfl⟩

end Dispatch

end ServerUI
