import ServerUI.Proofs.Run.Origin

/-!
An API call contains the failures of its call and of what follows on success, and of nothing else.
-/

set_option autoImplicit false

namespace ServerUI

variable {ι σ : Type}

namespace Dispatch

variable {ask : Ask ι σ} {dispatcher : Nat} {path : List Nat} {endpoint : String}
  {method : Option RequestMethod} {body : Option Dict} {onSuccess onError : Option Instruction}

def guarded (ask : Ask ι σ) (dispatcher : Nat) (path : List Nat) (endpoint : String)
    (method : Option RequestMethod) (body : Option Dict) (onSuccess : Option Instruction) :
    Run ι σ Unit := do
  callApi ask dispatcher endpoint method body
  performOption ask dispatcher (path ++ [0]) onSuccess

/-- With a handler for calls to the API, that is what is asked first, with all that the action says
of the call. -/
theorem exec_guarded_asks {S : Account ι} {w : World ι σ} {part : ι}
    (set : (w.dispatchers dispatcher).handlers.effects .apiCall = some part)
    (asked : ∀ what, Run.Adds (Account.any.asked part what) Value (ask part what))
    (next : Run.Adds S Unit (performOption ask dispatcher (path ++ [0]) onSuccess)) :
    let ended := Run.exec (guarded ask dispatcher path endpoint method body onSuccess) w
    ∃ context es, ended.2.journal =
      w.journal ++ .asked part (.effect .apiCall
        [.str endpoint, .ofOption (.str ·.name) method, .ofOption .dict body]) context :: es := by
  intro ended
  obtain ⟨_, added, context, between, -, rfl⟩ := asked (.effect .apiCall
    [.str endpoint, .ofOption (.str ·.name) method, .ofOption .dict body]) w
  simp only [ended, guarded, callApi, Run.exec_bind, exec_handlers, set]
  cases ran : Run.exec (ask part (.effect .apiCall
      [.str endpoint, .ofOption (.str ·.name) method, .ofOption .dict body])) w with
  | mk r w' =>
    rw [ran] at added
    cases r with
    | error f => exact ⟨context, _, added⟩
    | ok v =>
      obtain ⟨es, after, -⟩ := next w'
      have whole := after.trans (congrArg (· ++ es) added)
      rw [List.append_assoc, List.cons_append] at whole
      exact ⟨context, _, whole⟩

theorem exec_guarded_plain {w : World ι σ}
    (absent : (w.dispatchers dispatcher).handlers.effects .apiCall = none) :
    Run.exec (guarded ask dispatcher path endpoint method body onSuccess) w =
      Run.exec (performOption ask dispatcher (path ++ [0]) onSuccess) w := by
  simp [guarded, callApi, Run.exec_bind, absent]

def failureEvents (own : Dispatcher ι) (context : Dict) (endpoint : String)
    (method : Option RequestMethod) (hasOnError : Bool) (f : Failure) : List (Event ι) :=
  [.absorbed f,
    .logged ((⟨.warning, "api_call_failed",
      [("endpoint", .str endpoint), ("method", .ofOption (.str ·.name) method),
        ("error", .str f.message), ("has_on_error", .bool hasOnError)]⟩ : Log.Record).within
      context)] ++
    own.measured [.action ActionKind.apiCall.name Outcome.failed.name, .apiFailure]

theorem exec_work_apiCall (w : World ι σ) :
    Run.exec (work ask dispatcher path (.apiCall endpoint method body onSuccess onError)) w =
      match Run.exec (guarded ask dispatcher path endpoint method body onSuccess) w with
      | (.ok (), w) =>
          (.ok (), w.after ((w.dispatchers dispatcher).measured
            [.action ActionKind.apiCall.name Outcome.handled.name]))
      | (.error f, w) =>
          if f.isOrdinary then
            Run.exec (performOption ask dispatcher (path ++ [1]) onError)
              (w.after (failureEvents (w.dispatchers dispatcher) w.context endpoint method
                onError.isSome f))
          else (.error f, w) := by
  rw [work, exec_containing, ← guarded]
  cases Run.exec (guarded ask dispatcher path endpoint method body onSuccess) w with
  | mk r w =>
      cases r with
      | ok _ => simp
      | error f =>
          by_cases ordinary : f.isOrdinary
          · simp [ordinary, Run.exec_bind, failureEvents, ← Dispatcher.measured_append]
          · simp [ordinary]

end Dispatch

namespace Engine

variable (e : Engine ι σ)

/-- The step of an API call asks the handler for such calls first, if there is one, and what follows
on success behind it. Its execution is one of two things. Either both end well, and the step records
that and ends. Or they fail, with what a part of the client raised at the last thing that it was
asked; then what was done stands, the failure is recorded, what is to follow on a failure is
dispatched once, and how that ends is how the step ends. -/
theorem apiCall_contains (obeys : e.client.Obeys Policy.ordinary) (dispatcher : Nat)
    (path : List Nat) {v : Value} {endpoint : String} {method : Option RequestMethod}
    {body : Option Dict} {onSuccess onError : Option Instruction}
    (read : Instruction.parse v = .ok (.known (.apiCall endpoint method body onSuccess onError)))
    (settled : (Instruction.known (.apiCall endpoint method body onSuccess onError)).Settled)
    (w : World ι σ)
    (plain : (w.dispatchers dispatcher).handlers.customFor (.str ActionKind.apiCall.name) = none) :
    let step := Dispatch.perform e.ask dispatcher path v
    let guarded := Dispatch.guarded e.ask dispatcher path endpoint method body onSuccess
    let began := w.after [.began path (.known (.apiCall endpoint method body onSuccess onError))]
    (match (w.dispatchers dispatcher).handlers.effects .apiCall with
      | none => Run.exec guarded began =
          Run.exec (Dispatch.performOption e.ask dispatcher (path ++ [0]) onSuccess) began
      | some part => ∃ context es, (Run.exec guarded began).2.journal =
          began.journal ++ .asked part (.effect .apiCall
            [.str endpoint, .ofOption (.str ·.name) method, .ofOption .dict body]) context :: es) ∧
    match Run.exec guarded began with
    | (.ok (), w₁) =>
        Run.exec step w = (.ok .null, w₁.after
          ((w₁.dispatchers dispatcher).measured
            [.action ActionKind.apiCall.name Outcome.handled.name] ++ [.ended path none]))
    | (.error f, w₁) =>
        (∃ es, w₁.journal = began.journal ++ es ∧ Escapes f es) ∧
        let w₂ := w₁.after (Dispatch.failureEvents (w₁.dispatchers dispatcher) w₁.context endpoint
          method onError.isSome f)
        match onError with
        | none => Run.exec step w = (.ok .null, w₂.after [.ended path none])
        | some i =>
            match Run.exec (Dispatch.perform e.ask dispatcher (path ++ [1]) i.toValue) w₂ with
            | (.ok _, w₃) => Run.exec step w = (.ok .null, w₃.after [.ended path none])
            | (.error g, w₃) => Run.exec step w = (.error g, w₃.after [.ended path (some g)]) := by
  intro step guarded began
  have asking part what := (e.ask_traced (fun _ h => h) obeys part what).2
  have closed :=
    Run.Adds.toDispatch (σ := σ) (Account.failing_traced_dispatching (Policy.ordinary (ι := ι)))
  -- What follows on success was read with the call, so none of its steps can be refused.
  have inner : ∀ i ∈ onSuccess.toList, i.Settled := fun i member =>
    settled.nested i (by simp [Action.nested, member])
  have follow : Run.Adds (Account.failing Policy.ordinary).traced Unit
      (Dispatch.performOption e.ask dispatcher (path ++ [0]) onSuccess) :=
    closed.performOption_settled asking inner _
  have adds : Run.Adds (Account.failing Policy.ordinary).traced Unit guarded :=
    closed.bind (closed.callApi asking endpoint method body) fun _ => follow
  constructor
  next =>
    cases set : (w.dispatchers dispatcher).handlers.effects .apiCall with
    | none => exact Dispatch.exec_guarded_plain set
    | some part => exact Dispatch.exec_guarded_asks set (e.ask_adds part) follow
  obtain ⟨es, added, fails, escapes⟩ := adds began
  have ran : Run.exec step w = _ :=
    (congrArg (Run.exec · w) (Dispatch.perform_of_known _ _ read)).trans
      (Dispatch.exec_step _ _ plain)
  cases result : Run.exec guarded began with
  | mk r w₁ =>
      rw [Dispatch.exec_work_apiCall, show Run.exec (Dispatch.guarded e.ask dispatcher path endpoint
        method body onSuccess) began = _ from result] at ran
      rw [result] at added fails escapes
      cases r with
      | ok _ => simpa [Except.map] using ran
      | error f =>
          -- Ordinary, because the failure was raised by the client: so it is contained.
          have ordinary : f.isOrdinary = true := fails f rfl
          simp only [ordinary, if_true] at ran
          refine ⟨⟨es, added, escapes f rfl⟩, ?_⟩
          cases onError with
          | none => simpa [Dispatch.performOption, Except.map] using ran
          | some i =>
              rw [Dispatch.performOption, Run.exec_bind] at ran
              dsimp only
              split <;> simp_all [Except.map]

/-- The call fails, and what is to follow on a failure finds no handler. -/
theorem apiCall_contains_offline :
    let offline : Engine Unit Unit := { client := .failing (.client .connection none) }
    let toast : Instruction := .known (.effect (.showToast "offline" none none))
    let call : Instruction := .known (.apiCall "/orders" none none none (some toast))
    let handlers : Handlers Unit := { effects := fun k => if k = .apiCall then some () else none }
    let w : World Unit Unit :=
      { client := (), dispatchers := fun _ => { handlers, metered := true } }
    let ended := Run.exec (Dispatch.perform offline.ask 0 [] call.toValue) w
    call.Settled ∧ ended.1 = .ok .null ∧
      (ended.2.journal.filterMap fun
        | .measured m => some m
        | _ => none) =
        [.action "API_CALL" "failed", .apiFailure, .action "SHOW_TOAST" "unhandled"] := by
  intro offline toast call handlers w ended
  have leaf : toast.Settled := .known trivial (by simp [Action.nested])
  have settled : call.Settled := by
    refine .known trivial fun i member => ?_
    obtain rfl : i = toast := by simpa [Action.nested] using member
    exact leaf
  obtain ⟨-, ends⟩ := apiCall_contains offline (Client.failing_obeys rfl) 0 []
    settled.parse_toValue settled w rfl
  simp only [Dispatch.guarded, Dispatch.performOption, toast, Instruction.toValue,
    Dispatch.perform_action, Dispatch.work] at ends
  have whole : Run.exec (Dispatch.perform offline.ask 0 [] call.toValue) w = _ := ends.2
  refine ⟨settled, ?_, ?_⟩
  · simp only [ended, whole]
  · simp only [ended, whole]
    rfl

end Engine

end ServerUI
