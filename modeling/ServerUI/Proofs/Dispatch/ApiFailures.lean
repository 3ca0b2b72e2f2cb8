import ServerUI.Proofs.Dispatch.Containment
import ServerUI.Proofs.Dispatch.Steps

/-!
What the counter of API failures counts. It goes up whenever an API call absorbs a failure, and that
need not be one of the call itself: what follows on success is guarded as well. And a call that is
cut short by what no caller may handle is not absorbed, so it does not count.
-/

set_option autoImplicit false

namespace ServerUI

variable {ι σ : Type}

theorem Silent.counts {es : List (Event ι)} (h : Silent es) :
    es.countP Event.isApiFailure = 0 ∧ es.any Event.isAbsorbed = false ∧
      es.countP Event.isRefusedCall = 0 ∧ es.any Event.isRefusedCall = false :=
  ⟨h.countP_eq_zero fun _ => Event.not_isApiFailure, h.any_eq_false fun _ => Event.not_isAbsorbed,
    h.countP_eq_zero fun _ => Event.not_isRefusedCall,
    h.any_eq_false fun _ => Event.not_isRefusedCall⟩

namespace Dispatch

namespace Step

variable (s : Step ι)

/-- The call itself raised, and the step absorbed nothing. -/
def callEscapes : Bool := s.own.any Event.isRefusedCall && !s.own.any Event.isAbsorbed

/-- The step absorbed a failure, though the call itself did not raise. -/
def followUpFails : Bool := s.own.any Event.isAbsorbed && !s.own.any Event.isRefusedCall

end Step

theorem Called.counts {o : Option Failure} {es : List (Event ι)} (h : Called o es) :
    es.countP Event.isApiFailure = 0 ∧ es.any Event.isAbsorbed = false ∧
      es.countP Event.isRefusedCall = (es.any Event.isRefusedCall).toNat := by
  cases h with
  | raised silent =>
      obtain ⟨failures, absorbed, refused, none⟩ := silent.counts
      simp [failures, absorbed, refused, none, Event.isApiFailure, Event.isAbsorbed,
        Event.isRefusedCall, Request.isApiCall]
  | returned silent =>
      obtain ⟨failures, absorbed, refused, none⟩ := silent.counts
      simp [failures, absorbed, refused, none]

theorem Step.Sound.balanced {allowed : Failure → Prop} {s : Step ι} (sound : s.Sound allowed) :
    s.own.countP Event.isApiFailure + s.callEscapes.toNat =
      s.own.countP Event.isRefusedCall + s.followUpFails.toNat := by
  obtain ⟨path, i, own, why⟩ := s
  obtain ⟨written, -⟩ := sound
  simp only [callEscapes, followUpFails] at written ⊢
  cases written with
  | custom word silent =>
      obtain ⟨failures, absorbed, refused, none⟩ := silent.counts
      simp [failures, absorbed, refused, none, Event.isApiFailure, Event.isRefusedCall,
        Event.isAbsorbed]
  | plain work =>
      cases work with
      | done other fine silent =>
          obtain ⟨failures, absorbed, refused, none⟩ := silent.counts
          simp [failures, absorbed, refused, none, Event.isApiFailure, Event.isRefusedCall,
            Event.isAbsorbed]
      | undone other silent =>
          obtain ⟨failures, absorbed, refused, none⟩ := silent.counts
          simp [failures, absorbed, refused, none]
      | called api call =>
          obtain ⟨failures, absorbed, refused⟩ := call.counts
          simp [failures, absorbed, refused, Event.isApiFailure, Event.isRefusedCall,
            Event.isAbsorbed]
      | @contained f _ es record api call =>
          obtain ⟨failures, absorbed, refused⟩ := call.counts
          -- One failure is counted: of the call, if that raised, and else of what followed.
          cases raised : es.any Event.isRefusedCall <;>
            simp [failures, refused, raised, Event.isApiFailure, Event.isRefusedCall,
              Event.isAbsorbed]
      | escaped api extraordinary call =>
          obtain ⟨failures, absorbed, refused⟩ := call.counts
          simp [failures, absorbed, refused]

theorem Books.balanced {allowed : Failure → Prop} {own es : List (Event ι)} {steps : List (Step ι)}
    (books : Books own steps es) (quiet : Silent own) (sound : ∀ s ∈ steps, s.Sound allowed) :
    es.countP Event.isApiFailure + steps.countP Step.callEscapes =
      es.countP Event.isRefusedCall + steps.countP Step.followUpFails := by
  rw [books.countP (by
      intro e bracket
      cases e <;> simp_all [Event.isBracket, Event.isApiFailure]),
    books.countP (by
      intro e bracket
      cases e <;> simp_all [Event.isBracket, Event.isRefusedCall]),
    quiet.countP_eq_zero fun _ => Event.not_isApiFailure,
    quiet.countP_eq_zero fun _ => Event.not_isRefusedCall]
  clear books
  induction steps with
  | nil => simp
  | cons s steps ih =>
      have first := (sound s List.mem_cons_self).balanced
      have rest := ih fun t member => sound t (List.mem_cons_of_mem _ member)
      have toNat (b : Bool) : (if b = true then 1 else 0) = b.toNat := by cases b <;> rfl
      simp only [List.flatMap_cons, List.countP_append, List.countP_cons, toNat]
      omega

theorem run_kept {keep : (Nat → Dispatcher ι) → Prop} {allowed : Failure → Prop}
    {ask : Ask ι σ} (ordinary : ∀ f : Failure, f.isOrdinary = true → allowed f)
    (asking : ∀ part what, Run.Writes keep ((Account.kept allowed .silent).asked part what) Value
      (ask part what)) (dispatcher : Nat)
    (metered : ∀ ds, keep ds → (ds dispatcher).metered = true) (v : Value) :
    Run.Writes keep (Account.kept allowed .silent) Value (run ask dispatcher v) := by
  have writes := run_writes (perform_writes metered (fun part what _ => asking part what) [] v)
  refine writes.mono ?_
  rintro o _ ⟨id, es, script, rfl⟩
  exact Account.kept_dispatch _ (script.kept ordinary fun _ _ h => h)

namespace Step.Sound

variable {allowed : Failure → Prop} {s : Step ι}

/-- Only a failure that no caller may handle lets a call escape. -/
theorem of_callEscapes (sound : s.Sound allowed) (h : s.callEscapes = true) :
    s.action.isApiCall = true ∧ ∃ f, s.why = some f ∧ f.isOrdinary = false := by
  obtain ⟨path, i, own, why⟩ := s
  obtain ⟨written, -⟩ := sound
  simp only [callEscapes] at written h ⊢
  cases written with
  | custom word silent =>
      obtain ⟨-, -, -, none⟩ := silent.counts
      simp [none, Event.isRefusedCall] at h
  | plain work =>
      cases work with
      | done other fine silent =>
          obtain ⟨-, -, -, none⟩ := silent.counts
          simp [none, Event.isRefusedCall] at h
      | undone other silent =>
          obtain ⟨-, -, -, none⟩ := silent.counts
          simp [none] at h
      | called api call =>
          cases call with
          | returned silent =>
              obtain ⟨-, -, -, none⟩ := silent.counts
              simp [none, Event.isRefusedCall] at h
      | contained record api call => simp [Event.isAbsorbed] at h
      | escaped api extraordinary call => exact ⟨api, _, rfl, extraordinary⟩

theorem of_followUpFails (sound : s.Sound allowed) (h : s.followUpFails = true) :
    s.action.isApiCall = true := by
  obtain ⟨path, i, own, why⟩ := s
  obtain ⟨written, -⟩ := sound
  simp only [followUpFails] at written h ⊢
  cases written with
  | custom word silent =>
      obtain ⟨-, absorbed, -⟩ := silent.counts
      simp [absorbed, Event.isAbsorbed] at h
  | plain work =>
      cases work with
      | done other fine silent =>
          obtain ⟨-, absorbed, -⟩ := silent.counts
          simp [absorbed, Event.isAbsorbed] at h
      | undone other silent =>
          obtain ⟨-, absorbed, -⟩ := silent.counts
          simp [absorbed] at h
      | called api call => exact api
      | contained record api call => exact api
      | escaped api extraordinary call => exact api

end Step.Sound

end Dispatch

namespace Engine

variable (e : Engine ι σ)

theorem ask_kept (part : ι) (what : Request) :
    Run.Writes (σ := σ) (fun ds => ∀ number, (ds number).metered = true)
      ((Account.kept (fun _ => True) .silent).asked part what) Value (e.ask part what) := by
  let keep (ds : Nat → Dispatcher ι) : Prop := ∀ number, (ds number).metered = true
  have closed : Engine.Closed (σ := σ) {}
      (Run.Writes keep (Account.kept (ι := ι) (fun _ => True) .silent)) := by
    refine Run.Writes.toEngine Account.kept_silent_drawing (fun _ _ => trivial) ?_
    intro number change ds _ kept other
    rw [Dispatcher.metered_edited]
    exact kept other
  refine closed.ask_writes e.client.obeys_free ?_ ?_ _ _ part what
  · exact fun part what still o es h =>
      Account.kept_mono (Account.kept_asked h) fun own => Account.silent_of_still still
  · exact fun ask asking d v _ =>
      Dispatch.run_kept (fun _ _ => trivial) asking d (fun ds kept => kept d) v

theorem dispatchAll_kept (dispatcher : Nat) (vs : List Value) :
    Run.Writes (σ := σ) (fun ds => ∀ number, (ds number).metered = true)
      (Account.kept (fun _ => True) .silent) Unit (e.dispatchAll dispatcher vs) := by
  induction vs with
  | nil => exact (Run.Writes.toRuns Account.kept_silent_drawing.toPlain).pure ()
  | cons v vs ih =>
      have first := Dispatch.run_kept (fun _ _ => trivial) e.ask_kept dispatcher
        (fun _ kept => kept dispatcher) v
      exact Run.Writes.recover Account.kept_silent_drawing first (fun _ => ih) fun _ _ => ih

/-- The counter of API failures, the calls that escaped with what no caller may handle put to it,
is the number of calls that raised and of follow-ups that failed. So it is the number of calls that
raised exactly when as many calls escaped as follow-ups failed, which they do if no call escapes and
no follow-up fails. -/
theorem dispatchAll_apiFailures (dispatcher : Nat) (vs : List Value) (w : World ι σ)
    (metered : ∀ number, (w.dispatchers number).metered = true) :
    ∃ es, (Run.exec (e.dispatchAll dispatcher vs) w).2.journal = w.journal ++ es ∧
      let steps := (Dispatch.Ledger.of es).ended
      (Metrics.ofEvents es).apiFailures + steps.countP Dispatch.Step.callEscapes =
        es.countP Event.isRefusedCall + steps.countP Dispatch.Step.followUpFails ∧
      (∀ s ∈ steps, s.callEscapes = true →
        s.action.isApiCall = true ∧ ∃ f, s.why = some f ∧ f.isOrdinary = false) ∧
      ∀ s ∈ steps, s.followUpFails = true → s.action.isApiCall = true := by
  obtain ⟨-, es, added, -, own, steps, books, quiet, sound⟩ :=
    e.dispatchAll_kept dispatcher vs w metered
  refine ⟨es, added, ?_⟩
  simp only [books.ledger, Metrics.apiFailures_ofEvents]
  exact ⟨books.balanced quiet sound, fun s member => (sound s member).of_callEscapes,
    fun s member => (sound s member).of_followUpFails⟩

/-- The call is the only thing that raises, and what is to follow on a failure finds no handler. -/
theorem dispatchAll_apiFailures_offline :
    let offline : Engine Unit Unit := { client := .failing (.client .connection none) }
    let toast : Instruction := .known (.effect (.showToast "offline" none none))
    let call : Instruction := .known (.apiCall "/orders" none none none (some toast))
    let handlers : Handlers Unit := { effects := fun k => if k = .apiCall then some () else none }
    let w : World Unit Unit :=
      { client := (), dispatchers := fun _ => { handlers, metered := true } }
    let es := (Run.exec (offline.dispatchAll 0 [call.toValue, call.toValue]) w).2.journal
    let steps := (Dispatch.Ledger.of es).ended
    (Metrics.ofEvents es).apiFailures + steps.countP Dispatch.Step.callEscapes =
        es.countP Event.isRefusedCall + steps.countP Dispatch.Step.followUpFails ∧
      (Metrics.ofEvents es).apiFailures = 2 ∧ es.countP Event.isRefusedCall = 2 ∧
      steps.length = 4 := by
  intro offline toast call handlers w es steps
  have metered : ∀ number, (w.dispatchers number).metered = true := fun _ => rfl
  obtain ⟨run, added, balanced, -⟩ :=
    dispatchAll_apiFailures offline 0 [call.toValue, call.toValue] w metered
  obtain rfl : es = run := by simpa [w] using added
  refine ⟨balanced, ?_⟩
  simp only [steps, es, call, toast, Instruction.toValue, dispatchAll, dispatch, Dispatch.run,
    Dispatch.perform_action, Dispatch.work, Dispatch.performOption]
  decide +kernel

/-- The call succeeds, and only what follows on its success fails. -/
theorem dispatchAll_apiFailures_followUp :
    let e : Engine (Except Failure Value) Unit := { client := .answering }
    let refresh : Value := .dict [("type", .str "REFRESH")]
    let call : Value := .dict
      [("type", .str "API_CALL"), ("endpoint", .str "/x"), ("onSuccess", refresh)]
    let effects : ActionKind → Option (Except Failure Value)
      | .apiCall => some (.ok .null)
      | .refresh => some (.error (.client .runtime (some "r")))
      | _ => none
    let w : World (Except Failure Value) Unit :=
      { client := (), dispatchers _ := { handlers := { effects := effects }, metered := true } }
    let es := (Run.exec (e.dispatchAll 0 [call]) w).2.journal
    (Metrics.ofEvents es).apiFailures = 1 ∧ es.countP Event.isRefusedCall = 0 := by
  intro e refresh call effects w es
  have read : Instruction.parse call = .ok (.known (.apiCall "/x" none none
      (some (.known (.effect (.refresh none)))) none)) := by
    have follow : Instruction.ofValue refresh = .ok (.known (.effect (.refresh none))) :=
      Action.ofValue_effect rfl rfl
    apply Instruction.parse_eq_ok.mpr (Instruction.ofValue_of_ofFields rfl _)
    exact Action.ofFields_apiCall_eq_ok.mpr ⟨_, _, _, _, _, rfl, rfl, rfl, rfl,
      Instruction.inField_eq_ok.mpr (Instruction.ofValue?_eq_ok.mpr (.inr ⟨_, follow, rfl⟩)), rfl⟩
  have next : Instruction.parse (Instruction.known (.effect (.refresh none))).toValue =
      .ok (.known (.effect (.refresh none))) := Instruction.parse_action _
  have asks (part : Except Failure Value) (what : Request) (v : World (Except Failure Value) Unit) :
      Run.exec (e.ask part what) v = _ :=
    Client.exec_ask_answering e.levels e.nesting part what v
  have plain {v : World (Except Failure Value) Unit} (same : v.dispatchers = w.dispatchers)
      (i : Instruction) : (v.dispatchers 0).handlers.customFor i.tag = none := by
    simp [same, w, Handlers.customFor]
  have called (v : World (Except Failure Value) Unit) (same : v.dispatchers = w.dispatchers) :
      ∃ asked, Run.exec (Dispatch.callApi e.ask 0 "/x" none none) v = (.ok (), v.after asked) ∧
        asked.countP Event.isApiFailure = 0 ∧ asked.countP Event.isRefusedCall = 0 := by
    simp only [Dispatch.callApi, Run.exec_bind, Dispatch.exec_handlers, same, w, effects, asks]
    exact ⟨_, rfl, rfl, rfl⟩
  have followed (v : World (Except Failure Value) Unit) (same : v.dispatchers = w.dispatchers) :
      ∃ es, Run.exec (Dispatch.performOption e.ask 0 ([] ++ [0])
          (some (.known (.effect (.refresh none))))) v =
          (.error (.client .runtime (some "r")), v.after es) ∧
        es.countP Event.isApiFailure = 0 ∧ es.countP Event.isRefusedCall = 0 := by
    simp only [Dispatch.performOption, Run.exec_bind, Dispatch.perform_of_known _ _ next,
      Dispatch.exec_step _ _ (plain same _), Dispatch.work, Dispatch.runEffect_eq,
      Dispatch.exec_handlers, same, w, effects, Effect.kind, World.after_dispatchers, asks,
      World.after_after]
    exact ⟨_, rfl, rfl, rfl⟩
  obtain ⟨id, w₀, -, same, opened, -, -, -, closed⟩ := Dispatch.exec_run e.ask 0 call w
  let v : World (Except Failure Value) Unit := w₀.after [.began [] (.known (.apiCall "/x" none none
      (some (.known (.effect (.refresh none)))) none))]
  obtain ⟨es₁, ran₁, failures₁, refused₁⟩ := called v same
  obtain ⟨es₂, ran₂, failures₂, refused₂⟩ := followed (v.after es₁) same
  have journal : es = (Run.exec (Dispatch.perform e.ask 0 [] call) w₀).2.journal ++ [.closed] :=
    closed
  rw [Dispatch.perform_of_known _ _ read, Dispatch.exec_step _ _ (plain same _),
    Dispatch.exec_work_apiCall, Dispatch.guarded, Run.exec_bind] at journal
  have ordinary : (Failure.client .runtime (some "r")).isOrdinary = true := rfl
  have nothing : Dispatch.performOption e.ask 0 ([] ++ [1]) none = pure () := by
    rw [Dispatch.performOption]
  simp only [v] at ran₁ ran₂
  simp only [ran₁, ran₂, ordinary, nothing, Run.exec_pure, if_true] at journal
  rw [Metrics.apiFailures_ofEvents, journal]
  simp [opened, failures₁, failures₂, refused₁, refused₂, Event.isApiFailure,
    Event.isRefusedCall, Dispatch.failureEvents, Dispatcher.measured, w,
    same, List.countP_cons]

end Engine

end ServerUI
