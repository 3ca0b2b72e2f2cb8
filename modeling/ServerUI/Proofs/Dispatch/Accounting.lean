import ServerUI.Proofs.Dispatch.Steps
import ServerUI.Proofs.Dispatch.Containment

/-!
The metrics of a dispatcher account for its steps. Where the parts of a client dispatch nothing, a
dispatch takes each action of the tree at most once, and each step counts itself once, unless it is
cut short before it comes to that.
-/

set_option autoImplicit false

namespace ServerUI

variable {ι σ : Type}

namespace Instruction

/-- The actions inside an action, by the numbers that steps are told apart by. -/
def branch? : Instruction → Nat → Option Instruction
  | known (.apiCall _ _ _ onSuccess _), 0 => onSuccess
  | known (.apiCall _ _ _ _ onError), 1 => onError
  | known (.sequence is), k => is[k]?
  | known (.conditional _ onTrue _), 0 => onTrue
  | known (.conditional _ _ onFalse), 1 => onFalse
  | _, _ => none

/-- What stands at a place in the tree of an action, as it is read there. -/
def at? (v : Value) : List Nat → Option Instruction
  | [] => (parse v).toOption
  | k :: rest => (parse v).toOption.bind fun i => (i.branch? k).bind fun j => at? j.toValue rest

end Instruction

theorem Outcome.name_injective {o o' : Outcome} (h : o.name = o'.name) : o = o' := by
  cases o <;> cases o' <;> simp_all [Outcome.name]

theorem Instruction.display_of_word? {i : Instruction} {tag : String}
    (h : i.tag.word? = some tag) : i.tag.display = tag := by
  cases i with
  | known a =>
      cases h
      rfl
  | unknown es =>
      simp only [Instruction.tag, tagOf] at h ⊢
      split at h
      · cases h
      · cases h
        rfl
      · next v other found =>
          cases v with
          | str s =>
              cases h
              rfl
          | kind k => exact absurd rfl (other k)
          | _ => cases h

theorem Instruction.display_of_isApiCall {i : Instruction} (h : i.isApiCall = true) :
    i.tag.display = ActionKind.apiCall.name := by
  unfold Instruction.isApiCall at h
  split at h
  · rfl
  · cases h

namespace Event

def count? : Event ι → Option (String × String)
  | measured (.action type outcome) => some (type, outcome)
  | _ => none

end Event

namespace Dispatch

namespace Step

variable (s : Step ι)

/-- The increments of the actions counter by the step itself, with their labels. -/
def counts : List (String × String) := s.own.filterMap Event.count?

def isCustom : Bool := s.own.any Event.isCustomCall

/-- The step counted itself once, or was cut short before it could. -/
structure Accounted : Prop where
  counted : s.why = none ∨ s.isCustom ∨ s.action.isApiCall →
    ∃ o : Outcome, s.counts = [(s.action.tag.display, o.name)]
  uncounted : ¬(s.why = none ∨ s.isCustom ∨ s.action.isApiCall) → s.counts = []

end Step

end Dispatch

theorem Silent.filterMap_count? {es : List (Event ι)} (h : Silent es) :
    es.filterMap Event.count? = [] := by
  rw [List.filterMap_eq_nil_iff]
  intro e member
  have quiet := h e member
  cases e with
  | measured m => cases m <;> simp_all [Event.count?, Event.isSilent, Measurement.isDrawing]
  | _ => rfl

namespace Dispatch

variable {o : Option Failure} {es : List (Event ι)}

theorem Called.filterMap_count? (h : Called o es) : es.filterMap Event.count? = [] := by
  cases h with
  | raised silent => simp [silent.filterMap_count?, Event.count?]
  | returned silent => exact silent.filterMap_count?

namespace Step.Sound

variable {s : Step ι}

theorem accounted (sound : s.Sound fun f => f.isOrdinary = true) : s.Accounted := by
  obtain ⟨path, i, own, why⟩ := s
  obtain ⟨written, fails⟩ := sound
  simp only at written fails
  cases written with
  | @custom tag part context _ es word silent =>
      have counts : (⟨path, i, .counted tag .custom ::
          .asked part (.custom tag i.toValue) context :: es, why⟩ : Step ι).counts =
          [(i.tag.display, Outcome.custom.name)] := by
        simp [Step.counts, List.filterMap_cons, silent.filterMap_count?, Event.count?,
          Instruction.display_of_word? word]
      refine ⟨fun _ => ⟨.custom, counts⟩, fun uncounted => absurd (.inr (.inl ?_)) uncounted⟩
      simp [Step.isCustom, Event.isCustomCall, Request.isCustom]
  | plain work =>
      cases work with
      | @done o es other fine silent =>
          have counts : (⟨path, i, es ++ [.counted i.tag.display o], none⟩ : Step ι).counts =
              [(i.tag.display, o.name)] := by
            simp [Step.counts, silent.filterMap_count?, Event.count?]
          exact ⟨fun _ => ⟨o, counts⟩, fun uncounted => absurd (.inl rfl) uncounted⟩
      | undone other silent =>
          refine ⟨fun counted => ?_, fun _ => silent.filterMap_count?⟩
          simp [Step.isCustom, silent.any_eq_false fun _ => Event.not_isCustomCall, other]
            at counted
      | @called es api call =>
          have counts : (⟨path, i, es ++ [.counted ActionKind.apiCall.name .handled],
              none⟩ : Step ι).counts = [(i.tag.display, Outcome.handled.name)] := by
            simp [Step.counts, call.filterMap_count?, Event.count?,
              Instruction.display_of_isApiCall api]
          exact ⟨fun _ => ⟨.handled, counts⟩, fun uncounted => absurd (.inl rfl) uncounted⟩
      | @contained f _ es record api call =>
          have counts : (⟨path, i, es ++ [.absorbed f, .logged record,
              .counted ActionKind.apiCall.name .failed, .measured .apiFailure],
              why⟩ : Step ι).counts = [(i.tag.display, Outcome.failed.name)] := by
            simp [Step.counts, List.filterMap_cons, call.filterMap_count?, Event.count?,
              Instruction.display_of_isApiCall api]
          exact ⟨fun _ => ⟨.failed, counts⟩, fun uncounted => absurd (.inr (.inr api)) uncounted⟩
      | @escaped f _ api extraordinary call =>
          have ordinary : f.isOrdinary = true := fails f rfl
          simp [extraordinary] at ordinary

end Step.Sound

theorem Called.countP_isApiFailure (h : Called o es) : es.countP Event.isApiFailure = 0 := by
  cases h with
  | raised silent =>
      simp [silent.countP_eq_zero fun _ => Event.not_isApiFailure, Event.isApiFailure]
  | returned silent => exact silent.countP_eq_zero fun _ => Event.not_isApiFailure

/-- A step counts an API failure exactly when it counts itself as a failed API call. -/
theorem Written.apiFailures {i : Instruction} (written : Written i o es) :
    es.countP Event.isApiFailure =
      (es.filterMap Event.count?).count (ActionKind.apiCall.name, Outcome.failed.name) := by
  have other {tag : String} {out : Outcome} (fine : out ≠ .failed) :
      (tag, out.name) ≠ (ActionKind.apiCall.name, Outcome.failed.name) := fun same =>
    fine (Outcome.name_injective (congrArg Prod.snd same))
  cases written with
  | custom word silent =>
      simp [List.filterMap_cons, Event.count?, silent.filterMap_count?,
        silent.countP_eq_zero fun _ => Event.not_isApiFailure, Event.isApiFailure, Event.counted,
        other]
  | plain work =>
      cases work with
      | done _ fine silent =>
          simp [Event.count?, silent.filterMap_count?,
            silent.countP_eq_zero fun _ => Event.not_isApiFailure, Event.isApiFailure, other fine]
      | undone _ silent =>
          simp [silent.filterMap_count?, silent.countP_eq_zero fun _ => Event.not_isApiFailure]
      | called _ call =>
          simp [Event.count?, call.filterMap_count?, call.countP_isApiFailure, Event.isApiFailure,
            other]
      | contained record _ call =>
          simp [List.filterMap_cons, Event.count?, call.filterMap_count?, call.countP_isApiFailure,
            Event.isApiFailure]
      | escaped _ _ call => simp [call.filterMap_count?, call.countP_isApiFailure]

/-- Steps at different places below `path`, each of them a place of `places`. -/
structure Placed (places : List Nat → Instruction → Prop) (path : List Nat)
    (steps : List (List Nat × Instruction)) : Prop where
  apart : (steps.map Prod.fst).Nodup
  placed : ∀ s ∈ steps, ∃ rest, s.1 = path ++ rest ∧ places rest s.2

namespace Placed

variable {places places' whole : List Nat → Instruction → Prop} {path : List Nat}
  {steps steps' : List (List Nat × Instruction)}

theorem nil : Placed places path [] := ⟨by simp, by simp⟩

theorem mono (h : Placed places path steps) (imp : ∀ rest i, places rest i → whole rest i) :
    Placed whole path steps := by
  refine ⟨h.apart, fun s member => ?_⟩
  obtain ⟨rest, same, stands⟩ := h.placed s member
  exact ⟨rest, same, imp rest _ stands⟩

theorem append (h : Placed places path steps) (h' : Placed places' path steps')
    (imp : ∀ rest i, places rest i → whole rest i) (imp' : ∀ rest i, places' rest i → whole rest i)
    (disjoint : ∀ rest i j, places rest i → ¬places' rest j) :
    Placed whole path (steps ++ steps') := by
  refine ⟨?_, fun s member => ?_⟩
  · rw [List.map_append, List.nodup_append]
    refine ⟨h.apart, h'.apart, fun p first q next same => ?_⟩
    obtain ⟨s, member, rfl⟩ := List.mem_map.mp first
    obtain ⟨s', member', rfl⟩ := List.mem_map.mp next
    obtain ⟨rest, here, stands⟩ := h.placed s member
    obtain ⟨rest', there, stands'⟩ := h'.placed s' member'
    obtain rfl : rest = rest' := List.append_cancel_left (here.symm.trans (same.trans there))
    exact disjoint rest _ _ stands stands'
  · rcases List.mem_append.mp member with first | next
    · exact (h.mono imp).placed s first
    · exact (h'.mono imp').placed s next

/-- The places inside the branch of one number. -/
theorem inside {k : Nat} (h : Placed places (path ++ [k]) steps) :
    Placed (fun rest i => ∃ r, rest = k :: r ∧ places r i) path steps := by
  refine ⟨h.apart, fun s member => ?_⟩
  obtain ⟨rest, same, stands⟩ := h.placed s member
  exact ⟨k :: rest, by simp [same], rest, rfl, stands⟩

theorem single {i : Instruction} (here : places [] i) : Placed places path [(path, i)] :=
  ⟨by simp, by simpa using here⟩

end Placed

/-- Where the steps of a task may stand, below the place of the task. -/
def Task.places : Task → List Nat → Instruction → Prop
  | .perform _ v => fun rest j => Instruction.at? v rest = some j
  | .work _ i => fun rest j =>
      ∃ k r b, rest = k :: r ∧ i.branch? k = some b ∧ Instruction.at? b.toValue r = some j
  | .call _ onSuccess => fun rest j =>
      ∃ r b, rest = 0 :: r ∧ onSuccess = some b ∧ Instruction.at? b.toValue r = some j
  | .option _ o => fun rest j => ∃ b, o = some b ∧ Instruction.at? b.toValue rest = some j
  | .members _ index is => fun rest j =>
      ∃ k r b, rest = (index + k) :: r ∧ is[k]? = some b ∧ Instruction.at? b.toValue r = some j

def Task.path : Task → List Nat
  | .perform path _ | .work path _ | .call path _ | .option path _ | .members path _ _ => path

theorem Transcript.placed {S : Account ι}
    (still : ∀ o es, S o es → begun es = []) {task : Task} {o : Option Failure}
    {es : List (Event ι)} (h : Transcript S task o es) :
    Placed task.places task.path (begun es) := by
  have asked {part : ι} {what : Request} {o : Option Failure} {es : List (Event ι)}
      (h : S.asked part what o es) : begun es = [] := by
    obtain ⟨context, between, said, rfl⟩ := h
    cases o <;> simp [Event.step?, still _ _ said]
  have success {path : List Nat} {endpoint : String} {method : Option RequestMethod}
      {body : Option Dict} {onSuccess onError : Option Instruction} {rest : List Nat}
      {j : Instruction} (h : (Task.call path onSuccess).places rest j) :
      (Task.work path
        (.known (.apiCall endpoint method body onSuccess onError))).places rest j := by
    obtain ⟨r, b, rfl, same, there⟩ := h
    exact ⟨0, r, b, rfl, same, there⟩
  have followUp {path : List Nat} {onSuccess : Option Instruction} {rest : List Nat}
      {j : Instruction}
      (h : ∃ r, rest = 0 :: r ∧ (Task.option (path ++ [0]) onSuccess).places r j) :
      (Task.call path onSuccess).places rest j := by
    obtain ⟨r, rfl, b, same, there⟩ := h
    exact ⟨r, b, rfl, same, there⟩
  have member {path : List Nat} {is : List Instruction} {rest : List Nat} {j : Instruction}
      (h : (Task.members path 0 is).places rest j) :
      (Task.work path (.known (.sequence is))).places rest j := by
    obtain ⟨k, r, b, rfl, here, there⟩ := h
    exact ⟨k, r, b, by rw [Nat.zero_add], here, there⟩
  induction h with
  | refused read => exact .nil
  | @custom path v i tag part o es read word ask =>
      have here : Instruction.at? v [] = some i := by simp [Instruction.at?, read, Except.toOption]
      simpa [Event.step?, asked ask, Task.path] using Placed.single here
  | @plain path v i o es read work ih =>
      have here : Instruction.at? v [] = some i := by simp [Instruction.at?, read, Except.toOption]
      have both : begun (.began path i :: es ++ [.ended path o]) = [(path, i)] ++ begun es := by
        simp [Event.step?]
      rw [both]
      have itself : Placed (fun rest j => rest = [] ∧ j = i) path [(path, i)] := .single ⟨rfl, rfl⟩
      refine itself.append ih ?_ ?_ ?_
      · rintro rest j ⟨rfl, rfl⟩
        exact here
      · rintro _ j ⟨k, r, b, rfl, branch, there⟩
        simpa [Task.places, Instruction.at?, read, Except.toOption, branch] using there
      · rintro _ j j' ⟨rfl, rfl⟩ ⟨k, r, b, ⟨⟩, -⟩
  | unknown path es record => exact .nil
  | unhandled path e record => exact .nil
  | handled ask =>
      simpa [Event.step?, asked ask] using Placed.nil
  | unfinished ask =>
      rw [asked ask]
      exact .nil
  | succeeded call ih =>
      simpa [Event.step?, Task.path] using ih.mono fun _ _ => success
  | @contained path endpoint method body onSuccess onError f o es es' record ordinary call next
      ih ih' =>
      have both : begun (es ++ [.absorbed f, .logged record,
          .counted ActionKind.apiCall.name .failed, .measured .apiFailure] ++ es') =
          begun es ++ begun es' := by
        simp [Event.step?]
      rw [both]
      refine ih.append ih'.inside (fun _ _ => success) ?_ ?_
      · rintro _ j ⟨r, rfl, b, same, there⟩
        exact ⟨1, r, b, rfl, same, there⟩
      · rintro _ j j' ⟨r, b, rfl, -⟩ ⟨r', ⟨⟩, -⟩
  | escaped extraordinary call ih => exact ih.mono fun _ _ => success
  | unanswered ask =>
      rw [asked ask]
      exact .nil
  | answered ask next ih =>
      rw [begun_append, asked ask, List.nil_append]
      exact ih.inside.mono fun _ _ => followUp
  | uncalled next ih => exact ih.inside.mono fun _ _ => followUp
  | sequence members ih =>
      simpa [Event.step?, Task.path] using ih.mono fun _ _ => member
  | aborted members ih => exact ih.mono fun _ _ => member
  | conditional path condition onTrue onFalse record => exact .nil
  | noop path => exact .nil
  | absent path => exact .nil
  | present step ih => exact ih.mono fun rest j there => ⟨_, rfl, there⟩
  | nil path index => exact .nil
  | @last path index i rest f es record step ih =>
      refine ih.inside.mono ?_
      rintro _ j ⟨r, rfl, there⟩
      exact ⟨0, r, i, rfl, rfl, there⟩
  | @cons path index i rest o es es' record step others ih ih' =>
      have both : begun (.logged record :: es ++ es') = begun es ++ begun es' := by
        simp [Event.step?]
      rw [both]
      refine ih.inside.append ih' ?_ ?_ ?_
      · rintro _ j ⟨r, rfl, there⟩
        exact ⟨0, r, i, rfl, rfl, there⟩
      · rintro _ j ⟨k, r, b, rfl, here, there⟩
        exact ⟨k + 1, r, b, by rw [Nat.add_right_comm, Nat.add_assoc], here, there⟩
      · rintro _ j j' ⟨r, rfl, -⟩ ⟨k, r', b, same, -⟩
        simp only [List.cons.injEq] at same
        omega

end Dispatch

namespace Policy

/-- Parts raise ordinary failures and may change handlers, but dispatch nothing themselves. -/
def quiet : Policy ι where
  dispatch _ := False
  fail f := f.isOrdinary = true

end Policy

def Account.quiet : Account ι := fun o es => (∀ f, o = some f → f.isOrdinary = true) ∧ Silent es

namespace Account

theorem quiet_drawing : Drawing (fun f => f.isOrdinary = true) (quiet (ι := ι)) where
  nil := by simp [quiet]
  event h := by simp [quiet, Event.isSilent_of_isPlain h]
  append first next := ⟨next.1, Silent.append.mpr ⟨first.2, next.2⟩⟩
  failed f es := by simp [quiet, and_comm]

theorem quiet_of_asked {part : ι} {what : Request} {o : Option Failure} {es : List (Event ι)}
    (still : what.isStep = false) (h : quiet.asked part what o es) : quiet o es := by
  obtain ⟨context, between, ⟨fails, said⟩, rfl⟩ := h
  exact ⟨fails, silent_of_still still ⟨context, between, said, rfl⟩⟩

end Account

theorem Silent.begun_eq_nil {es : List (Event ι)} (h : Silent es) : Dispatch.begun es = [] := by
  rw [Dispatch.begun, List.filterMap_eq_nil_iff]
  intro e member
  have quiet := h e member
  cases e <;> simp_all [Event.step?, Event.isSilent]

namespace Dispatch

/-- Every step of a dispatch of `v` has ended. Each is an action at a place of its own in the tree
of `v` and is accounted for, and nothing is counted but by the steps. -/
structure Accounts (v : Value) (es : List (Event ι)) : Prop where
  ended : (Ledger.of es).running = []
  apart : ((Ledger.of es).ended.map Step.path).Nodup
  placed : ∀ s ∈ (Ledger.of es).ended, Instruction.at? v s.path = some s.action
  accounted : ∀ s ∈ (Ledger.of es).ended, s.Accounted
  counts (type outcome : String) : (Metrics.ofEvents es).actionCount type outcome =
    ((Ledger.of es).ended.flatMap Step.counts).count (type, outcome)
  apiFailures : (Metrics.ofEvents es).apiFailures =
    (Metrics.ofEvents es).actionCount ActionKind.apiCall.name Outcome.failed.name

theorem countP_isCount (es : List (Event ι)) (type outcome : String) :
    es.countP (Event.isCount type outcome) =
      (es.filterMap Event.count?).count (type, outcome) := by
  rw [List.count, List.countP_filterMap]
  refine List.countP_congr fun e _ => ?_
  cases e with
  | measured m => cases m <;> simp [Event.count?, Event.isCount]
  | _ => simp [Event.count?, Event.isCount]

theorem Books.accounts {v : Value} {own : List (Event ι)} {steps : List (Step ι)}
    {es : List (Event ι)} (books : Books own steps es) (quiet : Silent own)
    (sound : ∀ s ∈ steps, s.Sound fun f => f.isOrdinary = true)
    (placed : Placed (Task.perform [] v).places [] (begun es)) : Accounts v es := by
  have outside : own.countP Event.isApiFailure = 0 :=
    quiet.countP_eq_zero fun _ => Event.not_isApiFailure
  have counted (type outcome : String) : (Metrics.ofEvents es).actionCount type outcome =
      (steps.flatMap Step.counts).count (type, outcome) := by
    rw [Metrics.actionCount_ofEvents, books.countP (by
      intro e bracket
      cases e <;> simp_all [Event.isBracket, Event.isCount])]
    simp only [countP_isCount, quiet.filterMap_count?, List.count_nil, Nat.add_zero,
      List.filterMap_flatMap]
    rfl
  have failures : (Metrics.ofEvents es).apiFailures =
      (steps.flatMap Step.counts).count (ActionKind.apiCall.name, Outcome.failed.name) := by
    rw [Metrics.apiFailures_ofEvents, books.countP (by
      intro e bracket
      cases e <;> simp_all [Event.isBracket, Event.isApiFailure]), outside, Nat.add_zero,
      List.countP_flatMap, List.count_flatMap]
    exact congrArg List.sum
      (List.map_congr_left fun s member => (sound s member).written.apiFailures)
  have same := books.perm_steps
  have ledger := books.ledger
  refine ⟨by rw [ledger], ?_, ?_, ?_, ?_, failures.trans (counted _ _).symm⟩
  all_goals simp only [ledger]
  · have paths : (steps.map Step.path).Perm ((begun es).map Prod.fst) := by
      simpa [Function.comp_def] using same.map Prod.fst
    exact paths.nodup_iff.mpr placed.apart
  · intro s member
    have began : (s.path, s.action) ∈ begun es :=
      same.mem_iff.mp (List.mem_map.mpr ⟨s, member, rfl⟩)
    obtain ⟨rest, here, there⟩ := placed.placed _ began
    obtain rfl : s.path = rest := here
    exact there
  · exact fun s member => (sound s member).accounted
  · exact counted

theorem Accounts.apiFailures_flatten {vs : List Value} {runs : List (List (Event ι))}
    (all : List.Forall₂ Accounts vs runs) :
    (Metrics.ofEvents runs.flatten).apiFailures = (Metrics.ofEvents runs.flatten).actionCount
      ActionKind.apiCall.name Outcome.failed.name := by
  simp only [Metrics.apiFailures_ofEvents, Metrics.actionCount_ofEvents]
  induction all with
  | nil => rfl
  | cons first _ ih =>
      have own := first.apiFailures
      simp only [Metrics.apiFailures_ofEvents, Metrics.actionCount_ofEvents] at own
      simp only [List.flatten_cons, List.countP_append, own, ih]

end Dispatch

namespace Engine

variable (e : Engine ι σ)

theorem ask_quiet (obeys : e.client.Obeys Policy.quiet) (dispatcher : Nat) (part : ι)
    (what : Request) :
    Run.Writes (σ := σ) (fun ds => (ds dispatcher).metered = true) (Account.quiet.asked part what)
      Value (e.ask part what) := by
  have closed : Engine.Closed (σ := σ) (Policy.quiet (ι := ι))
      (Run.Writes (fun ds => (ds dispatcher).metered = true) Account.quiet) := by
    refine Run.Writes.toEngine Account.quiet_drawing (fun _ h => h)
      fun number change ds _ kept => ?_
    rwa [Dispatcher.metered_edited]
  exact closed.ask_writes obeys (fun _ _ still _ _ => Account.quiet_of_asked still)
    (fun _ _ _ _ never => never.elim) _ _ part what

theorem dispatch_accounts (obeys : e.client.Obeys Policy.quiet) (dispatcher : Nat) (v : Value) :
    Run.Writes (fun ds => (ds dispatcher).metered = true) (fun _ es => Dispatch.Accounts v es)
      Value (e.dispatch dispatcher v) := by
  have asking part what (_ : what.isStep = true) := e.ask_quiet obeys dispatcher part what
  have writes := Dispatch.run_writes (Dispatch.perform_writes (fun _ h => h) asking [] v)
  refine writes.mono ?_
  rintro o _ ⟨id, es, script, rfl⟩
  have kept : Account.kept (fun f => f.isOrdinary = true) _ o es := script.kept (fun _ h => h)
    fun o es quiet => Account.kept_events quiet.1 (Silent.not_bracket quiet.2) quiet.2
  have placed := script.placed fun o es quiet => Silent.begun_eq_nil quiet.2
  obtain ⟨-, own, steps, books, silent, sound⟩ :=
    Account.kept_dispatch [("dispatch_id", .str id)] kept
  exact books.accounts silent sound (by simpa [Event.step?, Dispatch.Task.path] using placed)

/-- The metrics account for every step of a sequence of dispatches, and at every moment between
them the counter of API failures is the count of failed API calls. -/
theorem dispatchAll_accounts (obeys : e.client.Obeys Policy.quiet) (dispatcher : Nat)
    (vs : List Value) (w : World ι σ) (metered : (w.dispatchers dispatcher).metered = true) :
    ∃ runs : List (List (Event ι)),
      (Run.exec (e.dispatchAll dispatcher vs) w).2.journal = w.journal ++ runs.flatten ∧
      List.Forall₂ Dispatch.Accounts vs runs ∧
      ∀ n, let m := Metrics.ofEvents (runs.take n).flatten
        m.apiFailures = m.actionCount ActionKind.apiCall.name Outcome.failed.name := by
  obtain ⟨runs, added, all⟩ :=
    dispatchAll_writes (e.dispatch_accounts obeys dispatcher) vs w metered
  have all : List.Forall₂ Dispatch.Accounts vs runs := by
    refine all.imp ?_
    rintro v es ⟨_, accounts⟩
    exact accounts
  exact ⟨runs, added, all, fun n => Dispatch.Accounts.apiFailures_flatten (List.forall₂_take n all)⟩

/-- The call fails, what is to follow on a failure finds no handler, and the sequence goes on. -/
theorem dispatchAll_accounts_offline :
    let offline : Engine Unit Unit := { client := .failing (.client .connection none) }
    let toast : Instruction := .known (.effect (.showToast "offline" none none))
    let call : Instruction := .known (.apiCall "/orders" none none none (some toast))
    let both : Instruction := .known (.sequence [call, toast])
    let handlers : Handlers Unit := { effects := fun k => if k = .apiCall then some () else none }
    let w : World Unit Unit :=
      { client := (), dispatchers := fun _ => { handlers, metered := true } }
    let es := (Run.exec (offline.dispatchAll 0 [both.toValue]) w).2.journal
    offline.client.Obeys Policy.quiet ∧ Dispatch.Accounts both.toValue es ∧
      (Dispatch.Ledger.of es).ended.map Dispatch.Step.path = [[0, 1], [0], [1], []] ∧
      (Metrics.ofEvents es).apiFailures = 1 ∧
      (Metrics.ofEvents es).actions =
        [(("API_CALL", "failed"), 1), (("SHOW_TOAST", "unhandled"), 2),
          (("SEQUENCE", "handled"), 1)] := by
  intro offline toast call both handlers w es
  have obeys : offline.client.Obeys Policy.quiet := Client.failing_obeys rfl
  obtain ⟨runs, added, accounts, -⟩ := dispatchAll_accounts offline obeys 0 [both.toValue] w rfl
  obtain ⟨run, _, first, rest, rfl⟩ := List.forall₂_cons_left_iff.mp accounts
  obtain rfl := List.forall₂_nil_left_iff.mp rest
  have whole : es = run := by simpa [w] using added
  refine ⟨obeys, whole ▸ first, ?_⟩
  simp only [es, both, call, toast, Instruction.toValue, dispatchAll, dispatch, Dispatch.run,
    Dispatch.perform_action, Dispatch.work, Dispatch.performAll, Dispatch.performOption]
  decide +kernel

end Engine

end ServerUI
