import Mathlib.Data.List.Forall2
import ServerUI.Proofs.Dispatch.Ledger
import ServerUI.Proofs.Dispatch.Transcript

/-!
What each step of a dispatch writes down of itself, between the steps inside it. What a step counts,
and when it counts an API failure, is read off from that.
-/

set_option autoImplicit false

namespace ServerUI

variable {ι σ : Type}

namespace Request

def isApiCall : Request → Bool
  | effect kind _ => kind = .apiCall
  | _ => false

def isCustom : Request → Bool
  | custom .. => true
  | _ => false

end Request

namespace Event

def isCustomCall : Event ι → Bool
  | asked _ what _ => what.isCustom
  | _ => false

def isRefusedCall : Event ι → Bool
  | refused _ what _ => what.isApiCall
  | _ => false

/-- What says nothing of the step that writes it down. -/
def isSilent : Event ι → Bool
  | measured m => m.isDrawing
  | began .. | ended .. | absorbed _ => false
  | e => !e.isCustomCall && !e.isRefusedCall

@[simp] theorem isSilent_logged (record : Log.Record) :
    (logged record : Event ι).isSilent = true := rfl

@[simp] theorem isSilent_asked (part : ι) (what : Request) (context : Dict) :
    (asked part what context).isSilent = !what.isCustom := by
  simp [isSilent, isCustomCall, isRefusedCall]

@[simp] theorem isSilent_refused (part : ι) (what : Request) (f : Failure) :
    (refused part what f).isSilent = !what.isApiCall := by
  simp [isSilent, isCustomCall, isRefusedCall]

theorem not_isCustomCall {e : Event ι} (h : e.isSilent = true) : e.isCustomCall = false := by
  cases e <;> simp_all [isSilent, isCustomCall]

theorem not_isRefusedCall {e : Event ι} (h : e.isSilent = true) : e.isRefusedCall = false := by
  cases e <;> simp_all [isSilent, isRefusedCall]

theorem not_isAbsorbed {e : Event ι} (h : e.isSilent = true) : e.isAbsorbed = false := by
  cases e <;> simp_all [isSilent, isAbsorbed]

theorem not_isApiFailure {e : Event ι} (h : e.isSilent = true) : e.isApiFailure = false := by
  cases e with
  | measured m => cases m <;> simp_all [isSilent, isApiFailure, Measurement.isDrawing]
  | _ => rfl

theorem isSilent_of_isPlain {e : Event ι} (h : e.isPlain = true) : e.isSilent = true := by
  cases e <;> simp_all [isPlain, isSilent, isCustomCall, isRefusedCall]

end Event

def Instruction.isApiCall : Instruction → Bool
  | known (.apiCall ..) => true
  | _ => false

def Silent (es : List (Event ι)) : Prop := ∀ e ∈ es, e.isSilent = true

namespace Silent

variable {e : Event ι} {es es' : List (Event ι)}

@[simp] theorem nil : Silent (ι := ι) [] := by simp [Silent]

@[simp] theorem cons : Silent (e :: es) ↔ e.isSilent = true ∧ Silent es := List.forall_mem_cons

@[simp] theorem append : Silent (es ++ es') ↔ Silent es ∧ Silent es' := List.forall_mem_append

theorem any_eq_false (h : Silent es) {p : Event ι → Bool}
    (quiet : ∀ e, e.isSilent = true → p e = false) : es.any p = false := by
  rw [List.any_eq_false]
  intro e member found
  simp [quiet e (h e member)] at found

theorem countP_eq_zero (h : Silent es) {p : Event ι → Bool}
    (quiet : ∀ e, e.isSilent = true → p e = false) : es.countP p = 0 := by
  rw [List.countP_eq_zero]
  intro e member found
  simp [quiet e (h e member)] at found

theorem not_bracket (h : Silent es) : ∀ e ∈ es, e.isBracket = false := by
  intro e member
  have silent := h e member
  cases e <;> simp_all [Event.isSilent, Event.isBracket]

end Silent

def Account.silent : Account ι := fun _ => Silent

namespace Dispatch

/-- The call of an API call either raises, or whatever fails is what follows on it. -/
inductive Called : Option Failure → List (Event ι) → Prop
  | raised {part : ι} {arguments : List Value} {f : Failure} {es : List (Event ι)}
      (silent : Silent es) : Called (some f) (es ++ [.refused part (.effect .apiCall arguments) f])
  | returned {o : Option Failure} {es : List (Event ι)} (silent : Silent es) : Called o es

inductive Worked : Instruction → Option Failure → List (Event ι) → Prop
  | done {i : Instruction} {o : Outcome} {es : List (Event ι)} (other : i.isApiCall = false)
      (fine : o ≠ .failed) (silent : Silent es) :
      Worked i none (es ++ [.counted i.tag.display o])
  | undone {i : Instruction} {f : Failure} {es : List (Event ι)} (other : i.isApiCall = false)
      (silent : Silent es) : Worked i (some f) es
  | called {i : Instruction} {es : List (Event ι)} (api : i.isApiCall = true)
      (call : Called none es) : Worked i none (es ++ [.counted ActionKind.apiCall.name .handled])
  | contained {i : Instruction} {f : Failure} {o : Option Failure} {es : List (Event ι)}
      (record : Log.Record) (api : i.isApiCall = true) (call : Called (some f) es) :
      Worked i o (es ++ [.absorbed f, .logged record, .counted ActionKind.apiCall.name .failed,
        .measured .apiFailure])
  | escaped {i : Instruction} {f : Failure} {es : List (Event ι)} (api : i.isApiCall = true)
      (extraordinary : f.isOrdinary = false) (call : Called (some f) es) : Worked i (some f) es

inductive Written : Instruction → Option Failure → List (Event ι) → Prop
  | custom {i : Instruction} {tag : String} {part : ι} {context : Dict} {o : Option Failure}
      {es : List (Event ι)} (word : i.tag.word? = some tag) (silent : Silent es) :
      Written i o (.counted tag .custom :: .asked part (.custom tag i.toValue) context :: es)
  | plain {i : Instruction} {o : Option Failure} {es : List (Event ι)} (work : Worked i o es) :
      Written i o es

structure Step.Sound (allowed : Failure → Prop) (s : Step ι) : Prop where
  written : Written s.action s.why s.own
  fails : ∀ f, s.why = some f → allowed f

end Dispatch

open Dispatch

/-- The events are those of sound steps and, besides, those that are written down as in `owns`. -/
def Account.kept (allowed : Failure → Prop) (owns : Account ι) : Account ι := fun o es =>
  (∀ f, o = some f → allowed f) ∧
    ∃ own steps, Books own steps es ∧ owns o own ∧ ∀ s ∈ steps, s.Sound allowed

namespace Account

variable {allowed : Failure → Prop} {owns : Account ι}

theorem kept_mono {owns' : Account ι} {o : Option Failure} {es : List (Event ι)}
    (h : kept allowed owns o es) (imp : ∀ own, owns o own → owns' o own) :
    kept allowed owns' o es := by
  obtain ⟨fails, own, steps, books, said, sound⟩ := h
  exact ⟨fails, own, steps, books, imp own said, sound⟩

theorem kept_append {o o' : Option Failure} {es es' : List (Event ι)} {first next both : Account ι}
    (h : kept allowed first o es) (h' : kept allowed next o' es')
    (imp : ∀ own own', first o own → next o' own' → both o' (own ++ own')) :
    kept allowed both o' (es ++ es') := by
  obtain ⟨-, own, steps, books, said, sound⟩ := h
  obtain ⟨fails, own', steps', books', said', sound'⟩ := h'
  refine ⟨fails, own ++ own', steps ++ steps', books.append books', imp _ _ said said', ?_⟩
  exact fun s member => (List.mem_append.mp member).elim (sound s) (sound' s)

theorem kept_events {o : Option Failure} {es : List (Event ι)}
    (fails : ∀ f, o = some f → allowed f) (plain : ∀ e ∈ es, e.isBracket = false)
    (said : owns o es) : kept allowed owns o es :=
  ⟨fails, es, [], .events plain, said, by simp⟩

theorem kept_exactly {es : List (Event ι)} (plain : ∀ e ∈ es, e.isBracket = false) :
    kept allowed (exactly es) none es := kept_events (by simp) plain ⟨rfl, rfl⟩

theorem kept_silent_drawing : Drawing allowed (kept (ι := ι) allowed silent) where
  nil := kept_events (by simp) (by simp) .nil
  event {e} h := by
    have quiet : Silent [e] := by simp [Event.isSilent_of_isPlain h]
    exact kept_events (by simp) quiet.not_bracket quiet
  append first next :=
    kept_append first next fun _ _ said said' => Silent.append.mpr ⟨said, said'⟩
  failed f es := by simp [kept, silent, and_comm]

theorem kept_asked {part : ι} {what : Request} {o : Option Failure} {es : List (Event ι)}
    (h : (kept allowed silent).asked part what o es) :
    kept allowed (silent.asked part what) o es := by
  obtain ⟨context, between, ⟨fails, own, steps, books, quiet, sound⟩, rfl⟩ := h
  refine ⟨fails, _, steps, ?_, ⟨context, own, quiet, rfl⟩, sound⟩
  refine (books.before rfl).after ?_
  cases o <;> simp [Event.isBracket]

theorem silent_refused {part : ι} {what : Request} {o : Option Failure}
    (fine : o = none ∨ what.isApiCall = false) :
    Silent (o.map (Event.refused part what)).toList := by
  cases o with
  | none => simp
  | some f => simpa using fine

theorem silent_of_asked {part : ι} {what : Request} {o : Option Failure} {own : List (Event ι)}
    (other : what.isCustom = false) (fine : o = none ∨ what.isApiCall = false)
    (h : silent.asked part what o own) : Silent own := by
  obtain ⟨context, between, said, rfl⟩ := h
  have quiet : Silent between := said
  simp [quiet, other, silent_refused fine]

theorem silent_of_still {part : ι} {what : Request} {o : Option Failure} {own : List (Event ι)}
    (still : what.isStep = false) (h : silent.asked part what o own) : Silent own := by
  refine silent_of_asked ?_ (.inr ?_) h
  · cases what <;> simp_all [Request.isStep, Request.isCustom]
  · cases what <;> simp_all [Request.isStep, Request.isApiCall]

theorem kept_step {i : Instruction} {o : Option Failure} {es : List (Event ι)} (path : List Nat)
    (h : kept allowed (Written i) o es) :
    kept allowed (fun _ own => own = []) o (.began path i :: es ++ [.ended path o]) := by
  obtain ⟨fails, own, steps, books, written, sound⟩ := h
  refine ⟨fails, [], _, books.step path i o, rfl, fun s member => ?_⟩
  rcases List.mem_append.mp member with inside | itself
  · exact sound s inside
  · obtain rfl : s = ⟨path, i, own, o⟩ := by simpa using itself
    exact ⟨written, fails⟩

theorem kept_dispatch {o : Option Failure} {es : List (Event ι)} (bindings : Dict)
    (h : kept allowed (fun _ own => own = []) o es) :
    kept allowed silent o (.opened bindings :: es ++ [.closed]) := by
  obtain ⟨fails, _, steps, books, rfl, sound⟩ := h
  refine ⟨fails, _, steps, (books.before rfl).after (by simp [Event.isBracket]), ?_, sound⟩
  simp [silent, Event.isSilent, Event.isCustomCall, Event.isRefusedCall]

end Account

namespace Dispatch

/-- What a task writes down itself, in the step that it is a part of. -/
def Task.owns : Task → Account ι
  | .perform .. | .option .. => fun _ own => own = []
  | .work _ i => Worked i
  | .call .. => Called
  | .members .. => .silent

variable {S : Account ι} {allowed : Failure → Prop}

theorem isApiCall_kind (e : Effect) (arguments : List Value) :
    (Request.effect e.kind arguments).isApiCall = false := by
  cases e <;> rfl

theorem Transcript.kept (ordinary : ∀ f : Failure, f.isOrdinary = true → allowed f)
    (reactions : ∀ o es, S o es → Account.kept allowed .silent o es) {task : Task}
    {o : Option Failure} {es : List (Event ι)} (h : Transcript S task o es) :
    Account.kept allowed task.owns o es := by
  have asked {part : ι} {what : Request} {o : Option Failure} {es : List (Event ι)}
      (h : S.asked part what o es) :
      Account.kept allowed (Account.silent.asked part what) o es := by
    obtain ⟨context, between, said, rfl⟩ := h
    exact Account.kept_asked ⟨context, between, reactions _ _ said, rfl⟩
  have counted {tag : String} {o : Outcome} :
      Account.kept (ι := ι) allowed (Account.exactly [.counted tag o]) none [.counted tag o] :=
    Account.kept_exactly (by simp [Event.counted, Event.isBracket])
  have logged (record : Log.Record) : Account.kept (ι := ι) allowed .silent none [.logged record] :=
    Account.kept_events (by simp) (by simp [Event.isBracket]) (by simp [Account.silent])
  induction h with
  | refused read =>
      refine Account.kept_events (fun f same => ?_) (by simp) rfl
      cases same
      exact ordinary _ (Instruction.isOrdinary_of_parse read)
  | custom read word ask =>
      refine Account.kept_step _ (Account.kept_append counted (asked ask) ?_)
      rintro _ _ ⟨-, rfl⟩ ⟨context, own, said, rfl⟩
      exact .custom word (Silent.append.mpr ⟨said, Account.silent_refused (.inr rfl)⟩)
  | plain read work ih => exact Account.kept_step _ (Account.kept_mono ih fun _ => .plain)
  | unknown path es record =>
      refine Account.kept_append (logged record) counted ?_
      rintro own _ quiet ⟨-, rfl⟩
      exact .done rfl (by simp) quiet
  | unhandled path e record =>
      refine Account.kept_append (logged record) counted ?_
      rintro own _ quiet ⟨-, rfl⟩
      exact .done rfl (by simp) quiet
  | handled ask =>
      refine Account.kept_append (asked ask) counted ?_
      rintro own _ said ⟨-, rfl⟩
      exact .done rfl (by simp) (Account.silent_of_asked rfl (.inl rfl) said)
  | unfinished ask =>
      exact Account.kept_mono (asked ask) fun own said =>
        .undone rfl (Account.silent_of_asked rfl (.inr (isApiCall_kind _ _)) said)
  | succeeded call ih =>
      refine Account.kept_append ih counted ?_
      rintro own _ call ⟨-, rfl⟩
      exact .called rfl call
  | @contained path endpoint method body onSuccess onError f o es es' record ordinary call next
      ih ih' =>
      let mid : List (Event ι) := [.absorbed f, .logged record,
        .counted ActionKind.apiCall.name .failed, .measured .apiFailure]
      have events : Account.kept allowed (Account.exactly mid) none mid :=
        Account.kept_exactly (by simp [mid, Event.counted, Event.isBracket])
      -- The failure is contained whatever becomes of what is to follow on it.
      have failed : Account.kept allowed (fun _ own => ∃ called, Called (some f) called ∧
          own = called ++ mid) none (es ++ mid) :=
        Account.kept_append ih events fun own _ call same => ⟨own, call, same.2 ▸ rfl⟩
      refine Account.kept_append failed ih' ?_
      rintro _ _ ⟨own, call, rfl⟩ rfl
      rw [List.append_nil]
      exact .contained record rfl call
  | escaped extraordinary call ih =>
      exact Account.kept_mono ih fun own call => .escaped rfl extraordinary call
  | unanswered ask =>
      refine Account.kept_mono (asked ask) ?_
      rintro _ ⟨context, own, said, rfl⟩
      have quiet : Silent own := said
      exact .raised (Silent.cons.mpr ⟨rfl, quiet⟩)
  | answered ask next ih =>
      refine Account.kept_append (asked ask) ih ?_
      rintro own _ said rfl
      rw [List.append_nil]
      exact .returned (Account.silent_of_asked rfl (.inl rfl) said)
  | uncalled next ih =>
      refine Account.kept_mono ih ?_
      rintro _ rfl
      exact .returned .nil
  | sequence members ih =>
      refine Account.kept_append ih counted ?_
      rintro own _ quiet ⟨-, rfl⟩
      exact .done rfl (by simp) quiet
  | aborted members ih => exact Account.kept_mono ih fun own quiet => .undone rfl quiet
  | conditional path condition onTrue onFalse record =>
      refine Account.kept_append (logged record) counted ?_
      rintro own _ quiet ⟨-, rfl⟩
      exact .done rfl (by simp) quiet
  | noop path =>
      refine Account.kept_mono counted ?_
      rintro _ ⟨-, rfl⟩
      exact .done rfl (by simp) .nil
  | absent path => exact Account.kept_events (by simp) (by simp) rfl
  | present step ih => exact ih
  | nil path index => exact Account.kept_events (by simp) (by simp) .nil
  | last record step ih =>
      refine Account.kept_append (logged record) ih ?_
      rintro own _ quiet rfl
      exact (List.append_nil own).symm ▸ quiet
  | @cons path index i rest o es es' record step others ih ih' =>
      have both : Account.kept allowed .silent o (es ++ es') :=
        Account.kept_append ih ih' (by rintro _ own rfl quiet; exact quiet)
      have whole : Account.kept allowed .silent o ([.logged record] ++ (es ++ es')) :=
        Account.kept_append (logged record) both fun own own' quiet quiet' =>
          Silent.append.mpr ⟨quiet, quiet'⟩
      exact whole

end Dispatch

theorem Dispatcher.metered_edited (ds : Nat → Dispatcher ι) (number other : Nat)
    (change : Handlers ι → Handlers ι) :
    (putAt ds number ((ds number).edit change) other).metered = (ds other).metered := by
  by_cases same : other = number
  · subst same
    simp [Dispatcher.edit]
  · rw [putAt_of_ne _ _ same]

/-- Dispatches one action after the other, whatever becomes of each. -/
def Engine.dispatchAll (e : Engine ι σ) (dispatcher : Nat) : List Value → Run ι σ Unit
  | [] => pure ()
  | v :: vs => do
      let _ ← Run.attempt (e.dispatch dispatcher v)
      e.dispatchAll dispatcher vs

theorem Engine.dispatchAll_writes {keep : (Nat → Dispatcher ι) → Prop} {T : Value → Account ι}
    {e : Engine ι σ} {dispatcher : Nat}
    (each : ∀ v, Run.Writes keep (T v) Value (e.dispatch dispatcher v)) (vs : List Value)
    (w : World ι σ) (kept : keep w.dispatchers) :
    ∃ runs : List (List (Event ι)),
      (Run.exec (e.dispatchAll dispatcher vs) w).2.journal = w.journal ++ runs.flatten ∧
      List.Forall₂ (fun v es => ∃ o, T v o es) vs runs := by
  induction vs generalizing w with
  | nil => exact ⟨[], by simp [dispatchAll], .nil⟩
  | cons v vs ih =>
      obtain ⟨kept, es, added, said⟩ := each v w kept
      obtain ⟨runs, later, all⟩ := ih _ kept
      have first : Run.exec (e.dispatchAll dispatcher (v :: vs)) w =
          Run.exec (e.dispatchAll dispatcher vs) (Run.exec (e.dispatch dispatcher v) w).2 := by
        simp [dispatchAll, Run.exec_bind]
      exact ⟨es :: runs, by simp [first, later, added], .cons ⟨_, said⟩ all⟩

end ServerUI
