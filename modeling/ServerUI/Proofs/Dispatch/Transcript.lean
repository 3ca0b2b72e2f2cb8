import ServerUI.Proofs.Run.Account

/-!
What a dispatch writes down, said without running it. A transcript is put together along the action
like the dispatch itself, and leaves open only what is logged and what the client does meanwhile.
Every dispatch by a dispatcher that counts writes a transcript, so what holds of all transcripts,
by induction on how they are put together, holds of all dispatches.
-/

set_option autoImplicit false

namespace ServerUI

variable {ι σ : Type}

abbrev Event.counted (tag : String) (o : Outcome) : Event ι := .measured (.action tag o.name)

namespace Dispatch

inductive Task where
  | perform (path : List Nat) (v : Value)
  | work (path : List Nat) (i : Instruction)
  -- The call of an API call, and what follows on its success.
  | call (path : List Nat) (onSuccess : Option Instruction)
  | option (path : List Nat) (o : Option Instruction)
  | members (path : List Nat) (index : Nat) (is : List Instruction)

/-- A task may be done like this, if the client does as in `S` whenever a part of it is asked. -/
inductive Transcript (S : Account ι) : Task → Account ι
  | refused {path : List Nat} {v : Value} {f : Failure} (read : Instruction.parse v = .error f) :
      Transcript S (.perform path v) (some f) []
  | custom {path : List Nat} {v : Value} {i : Instruction} {tag : String} {part : ι}
      {o : Option Failure} {es : List (Event ι)} (read : Instruction.parse v = .ok i)
      (word : i.tag.word? = some tag) (asked : S.asked part (.custom tag i.toValue) o es) :
      Transcript S (.perform path v) o
        (.began path i :: (.counted tag .custom :: es) ++ [.ended path o])
  | plain {path : List Nat} {v : Value} {i : Instruction} {o : Option Failure}
      {es : List (Event ι)} (read : Instruction.parse v = .ok i)
      (work : Transcript S (.work path i) o es) :
      Transcript S (.perform path v) o (.began path i :: es ++ [.ended path o])
  | unknown (path : List Nat) (es : Dict) (record : Log.Record) :
      Transcript S (.work path (.unknown es)) none
        [.logged record, .counted (Instruction.tagOf es).display .unknown]
  | unhandled (path : List Nat) (e : Effect) (record : Log.Record) :
      Transcript S (.work path (.known (.effect e))) none
        [.logged record, .counted e.kind.name .unhandled]
  | handled {path : List Nat} {e : Effect} {part : ι} {es : List (Event ι)}
      (asked : S.asked part (.effect e.kind e.arguments) none es) :
      Transcript S (.work path (.known (.effect e))) none (es ++ [.counted e.kind.name .handled])
  | unfinished {path : List Nat} {e : Effect} {part : ι} {f : Failure} {es : List (Event ι)}
      (asked : S.asked part (.effect e.kind e.arguments) (some f) es) :
      Transcript S (.work path (.known (.effect e))) (some f) es
  | succeeded {path : List Nat} {endpoint : String} {method : Option RequestMethod}
      {body : Option Dict} {onSuccess onError : Option Instruction} {es : List (Event ι)}
      (call : Transcript S (.call path onSuccess) none es) :
      Transcript S (.work path (.known (.apiCall endpoint method body onSuccess onError))) none
        (es ++ [.counted ActionKind.apiCall.name .handled])
  | contained {path : List Nat} {endpoint : String} {method : Option RequestMethod}
      {body : Option Dict} {onSuccess onError : Option Instruction} {f : Failure}
      {o : Option Failure} {es es' : List (Event ι)} (record : Log.Record)
      (ordinary : f.isOrdinary = true) (call : Transcript S (.call path onSuccess) (some f) es)
      (next : Transcript S (.option (path ++ [1]) onError) o es') :
      Transcript S (.work path (.known (.apiCall endpoint method body onSuccess onError))) o
        (es ++ [.absorbed f, .logged record, .counted ActionKind.apiCall.name .failed,
          .measured .apiFailure] ++ es')
  | escaped {path : List Nat} {endpoint : String} {method : Option RequestMethod}
      {body : Option Dict} {onSuccess onError : Option Instruction} {f : Failure}
      {es : List (Event ι)} (extraordinary : f.isOrdinary = false)
      (call : Transcript S (.call path onSuccess) (some f) es) :
      Transcript S (.work path (.known (.apiCall endpoint method body onSuccess onError))) (some f)
        es
  | unanswered {path : List Nat} {onSuccess : Option Instruction} {part : ι}
      {arguments : List Value} {f : Failure} {es : List (Event ι)}
      (asked : S.asked part (.effect .apiCall arguments) (some f) es) :
      Transcript S (.call path onSuccess) (some f) es
  | answered {path : List Nat} {onSuccess : Option Instruction} {part : ι}
      {arguments : List Value} {o : Option Failure} {es es' : List (Event ι)}
      (asked : S.asked part (.effect .apiCall arguments) none es)
      (next : Transcript S (.option (path ++ [0]) onSuccess) o es') :
      Transcript S (.call path onSuccess) o (es ++ es')
  | uncalled {path : List Nat} {onSuccess : Option Instruction} {o : Option Failure}
      {es : List (Event ι)} (next : Transcript S (.option (path ++ [0]) onSuccess) o es) :
      Transcript S (.call path onSuccess) o es
  | sequence {path : List Nat} {is : List Instruction} {es : List (Event ι)}
      (members : Transcript S (.members path 0 is) none es) :
      Transcript S (.work path (.known (.sequence is))) none
        (es ++ [.counted ActionKind.sequence.name .handled])
  | aborted {path : List Nat} {is : List Instruction} {f : Failure} {es : List (Event ι)}
      (members : Transcript S (.members path 0 is) (some f) es) :
      Transcript S (.work path (.known (.sequence is))) (some f) es
  | conditional (path : List Nat) (condition : String) (onTrue onFalse : Option Instruction)
      (record : Log.Record) :
      Transcript S (.work path (.known (.conditional condition onTrue onFalse))) none
        [.logged record, .counted ActionKind.conditional.name .skipped]
  | noop (path : List Nat) :
      Transcript S (.work path (.known .noop)) none [.counted ActionKind.noop.name .handled]
  | absent (path : List Nat) : Transcript S (.option path none) none []
  | present {path : List Nat} {i : Instruction} {o : Option Failure} {es : List (Event ι)}
      (step : Transcript S (.perform path i.toValue) o es) :
      Transcript S (.option path (some i)) o es
  | nil (path : List Nat) (index : Nat) : Transcript S (.members path index []) none []
  | last {path : List Nat} {index : Nat} {i : Instruction} {rest : List Instruction} {f : Failure}
      {es : List (Event ι)} (record : Log.Record)
      (step : Transcript S (.perform (path ++ [index]) i.toValue) (some f) es) :
      Transcript S (.members path index (i :: rest)) (some f) (.logged record :: es)
  | cons {path : List Nat} {index : Nat} {i : Instruction} {rest : List Instruction}
      {o : Option Failure} {es es' : List (Event ι)} (record : Log.Record)
      (step : Transcript S (.perform (path ++ [index]) i.toValue) none es)
      (others : Transcript S (.members path (index + 1) rest) o es') :
      Transcript S (.members path index (i :: rest)) o (.logged record :: es ++ es')

end Dispatch

def Account.exactly (es : List (Event ι)) : Account ι := fun o es' => o = none ∧ es' = es

namespace Run.Writes

variable {keep : (Nat → Dispatcher ι) → Prop} {S T U : Account ι} {α β : Type} {x : Run ι σ α}
  {f : α → Run ι σ β} {es : List (Event ι)}

theorem pure (a : α) : Writes (σ := σ) keep (Account.exactly []) α (pure a) :=
  of_after fun w _ => ⟨a, [], by simp, rfl, rfl⟩

theorem after (first : Writes keep (Account.exactly es) α x) (later : ∀ a, Writes keep T β (f a))
    (both : ∀ o es', T o es' → U o (es ++ es')) : Writes keep U β (x >>= f) := by
  refine first.next later ?_ ?_
  · rintro g _ ⟨⟨⟩, -⟩
  · rintro o _ es' ⟨-, rfl⟩ said
    exact both o es' said

theorem before (first : Writes keep S α x) (last : ∀ a, Writes keep (Account.exactly es) β (f a))
    (stopped : ∀ g es', S (some g) es' → U (some g) es')
    (both : ∀ es', S none es' → U none (es' ++ es)) : Writes keep U β (x >>= f) := by
  refine first.next last stopped ?_
  rintro o es' _ said ⟨rfl, rfl⟩
  exact both es' said

theorem after_log {level : Log.Level} {name : String} {fields : Dict} {f : Unit → Run ι σ β}
    (later : ∀ a, Writes keep T β (f a))
    (both : ∀ record o es', T o es' → U o (.logged record :: es')) :
    Writes keep U β (Run.log level name fields >>= f) := by
  have logged : Writes (σ := σ) keep (fun o es => o = none ∧ ∃ record, es = [.logged record]) Unit
      (Run.log level name fields) :=
    log (fun record => ⟨rfl, record, rfl⟩) level name fields
  refine logged.next later ?_ ?_
  · rintro g _ ⟨⟨⟩, -⟩
  · rintro o _ es' ⟨-, record, rfl⟩ said
    exact both record o es' said

end Run.Writes

theorem Handlers.word_of_customFor {h : Handlers ι} {v : Value} {tag : String} {part : ι}
    (found : h.customFor v = some (tag, part)) : v.word? = some tag := by
  obtain ⟨word, spelled, given⟩ := Option.bind_eq_some_iff.mp found
  obtain ⟨part, -, same⟩ := Option.map_eq_some_iff.mp given
  cases same
  exact spelled

namespace Dispatch

open Run.Writes (pure)

variable {keep : (Nat → Dispatcher ι) → Prop} {S : Account ι} {ask : Ask ι σ} {dispatcher : Nat}

theorem handlers_writes :
    Run.Writes (σ := σ) keep (Account.exactly []) (Handlers ι) (handlers dispatcher) :=
  .of_after fun w _ => ⟨_, [], by rw [World.after_nil]; rfl, rfl, rfl⟩

theorem announced_writes {path : List Nat} {i : Instruction} {x : Run ι σ Value}
    (h : Run.Writes keep S Value x) :
    Run.Writes keep
      (fun o es => ∃ inner, S o inner ∧ es = .began path i :: inner ++ [.ended path o])
      Value (announced path i x) := by
  intro w kept
  obtain ⟨kept, es, added, said⟩ := h (w.after [.began path i]) kept
  rw [exec_announced]
  exact ⟨kept, _, by simp [added], es, said, rfl⟩

theorem containing_writes {T U V : Account ι} {work onSuccess : Run ι σ Unit}
    {onFailure : Failure → Run ι σ Unit} (inner : Run.Writes keep S Unit work)
    (success : Run.Writes keep T Unit onSuccess)
    (failure : ∀ f, Run.Writes keep U Unit (onFailure f))
    (succeeded : ∀ o es es', S none es → T o es' → V o (es ++ es'))
    (contained : ∀ f o es es', f.isOrdinary = true → S (some f) es → U o es' →
      V o (es ++ .absorbed f :: es'))
    (escaped : ∀ f es, f.isOrdinary = false → S (some f) es → V (some f) es) :
    Run.Writes keep V Unit (containing work onSuccess onFailure) := by
  intro w kept
  obtain ⟨kept, es, added, said⟩ := inner w kept
  rw [exec_containing]
  cases ran : Run.exec work w with
  | mk r w' =>
      simp only [ran] at kept added said
      cases r with
      | ok _ =>
          obtain ⟨kept, es', added', said'⟩ := success w' kept
          exact ⟨kept, es ++ es', by simp [added', added], succeeded _ es es' said said'⟩
      | error f =>
          by_cases ordinary : f.isOrdinary
          · obtain ⟨kept, es', added', said'⟩ := failure f (w'.after [.absorbed f]) kept
            simp only [ordinary, if_true]
            exact ⟨kept, es ++ .absorbed f :: es', by simp [added', added],
              contained f _ es es' ordinary said said'⟩
          · have extraordinary : f.isOrdinary = false := by simpa using ordinary
            simp only [extraordinary, Bool.false_eq_true, if_false]
            exact ⟨kept, es, added, escaped f es extraordinary said⟩

theorem callApi_writes
    (asking : ∀ part what, what.isStep = true →
      Run.Writes keep (S.asked part what) Value (ask part what))
    (endpoint : String) (method : Option RequestMethod) (body : Option Dict) :
    Run.Writes keep (fun o es => (o = none ∧ es = []) ∨
      ∃ part arguments, S.asked part (.effect .apiCall arguments) o es) Unit
      (callApi ask dispatcher endpoint method body) := by
  refine handlers_writes.after (fun h => ?_) fun o es said => said
  cases h.effects .apiCall with
  | none => exact (pure ()).mono fun o es nothing => .inl nothing
  | some part =>
      refine (asking part _ rfl).before (fun _ => pure ()) (fun f es asked => ?_) fun es asked => ?_
      · exact .inr ⟨part, _, asked⟩
      · exact .inr ⟨part, _, by simpa using asked⟩

variable (metered : ∀ ds, keep ds → (ds dispatcher).metered = true)

include metered

theorem count_writes (tag : String) (o : Outcome) :
    Run.Writes (σ := σ) keep (Account.exactly [.counted tag o]) Unit (count dispatcher tag o) := by
  refine .of_after fun w kept => ⟨(), _, exec_count dispatcher tag o w, rfl, ?_⟩
  simp [Dispatcher.measured, metered _ kept, Event.counted]

theorem countFailure_writes :
    Run.Writes (σ := σ) keep (Account.exactly [.measured .apiFailure]) Unit
      (countFailure dispatcher) := by
  refine .of_after fun w kept => ⟨(), _, exec_countFailure dispatcher w, rfl, ?_⟩
  simp [Dispatcher.measured, metered _ kept]

theorem runUnknown_writes (path : List Nat) (es : Dict) :
    Run.Writes (σ := σ) keep (Transcript S (.work path (.unknown es))) Unit
      (runUnknown dispatcher (Instruction.tagOf es)) := by
  refine .after_log (fun _ => count_writes metered _ _) ?_
  rintro record o _ ⟨rfl, rfl⟩
  exact .unknown path es record

variable (asking : ∀ part what, what.isStep = true →
  Run.Writes keep (S.asked part what) Value (ask part what))

include asking

theorem runEffect_writes (path : List Nat) (e : Effect) :
    Run.Writes keep (Transcript S (.work path (.known (.effect e)))) Unit
      (runEffect ask dispatcher e) := by
  rw [runEffect_eq]
  refine handlers_writes.after (fun h => ?_) fun o es said => said
  cases h.effects e.kind with
  | none =>
      refine .after_log (fun _ => count_writes metered _ _) ?_
      rintro record o _ ⟨rfl, rfl⟩
      exact .unhandled path e record
  | some part =>
      exact (asking part _ rfl).before (fun _ => count_writes metered _ _)
        (fun f es asked => .unfinished asked) fun es asked => .handled asked

theorem step_writes {path : List Nat} {v : Value} {i : Instruction} {work : Run ι σ Unit}
    (read : Instruction.parse v = .ok i)
    (inner : Run.Writes keep (Transcript S (.work path i)) Unit work) :
    Run.Writes keep (Transcript S (.perform path v)) Value (step ask dispatcher path i work) := by
  refine (announced_writes (S := fun o es => Transcript S (.work path i) o es ∨
    ∃ tag part es', i.tag.word? = some tag ∧ S.asked part (.custom tag i.toValue) o es' ∧
      es = .counted tag .custom :: es')
    (handlers_writes.after (fun h => ?_) fun o es said => said)).mono ?_
  · cases found : h.customFor i.tag with
    | none =>
        refine inner.before (fun _ => pure Value.null) (fun f es said => .inl said)
          fun es said => ?_
        exact .inl (by simpa using said)
    | some custom =>
        obtain ⟨tag, part⟩ := custom
        refine (count_writes metered tag .custom).after
          (fun _ => asking part (.custom tag i.toValue) rfl) fun o es asked => ?_
        exact .inr ⟨tag, part, es, Handlers.word_of_customFor found, asked, rfl⟩
  · rintro o _ ⟨es, work | ⟨tag, part, es', word, asked, rfl⟩, rfl⟩
    · exact .plain read work
    · exact .custom read word asked

theorem perform_writes (path : List Nat) (v : Value) :
    Run.Writes keep (Transcript S (.perform path v)) Value (perform ask dispatcher path v) := by
  -- One motive for each of the functions that dispatching recurses through.
  refine perform.induct
    (fun path v =>
      Run.Writes keep (Transcript S (.perform path v)) Value (perform ask dispatcher path v))
    (fun path a =>
      Run.Writes keep (Transcript S (.work path (.known a))) Unit (work ask dispatcher path a))
    (fun path index is =>
      Run.Writes keep (Transcript S (.members path index is)) Unit
        (performAll ask dispatcher path index is))
    (fun path o =>
      Run.Writes keep (Transcript S (.option path o)) Unit (performOption ask dispatcher path o))
    ?_ ?_ ?_ ?_ ?_ ?_ ?_ ?_ ?_ ?_ ?_ ?_ path v
  · intro path v f read
    rw [perform_of_refused _ _ read]
    exact .throw (.refused read)
  · intro path v a read inner
    rw [perform_of_known _ _ read]
    exact step_writes metered asking read inner
  · intro path v es read
    rw [perform_of_unknown _ _ read]
    exact step_writes metered asking read (runUnknown_writes metered path es)
  -- The work of an action.
  · intro path e
    rw [work]
    exact runEffect_writes metered asking path e
  · intro path endpoint method body onSuccess onError success error
    rw [work]
    have call : Run.Writes keep (Transcript S (.call path onSuccess)) Unit (do
        callApi ask dispatcher endpoint method body
        performOption ask dispatcher (path ++ [0]) onSuccess) := by
      refine (callApi_writes asking endpoint method body).next (fun _ => success) ?_ ?_
      · rintro f es (⟨⟨⟩, -⟩ | ⟨part, arguments, asked⟩)
        exact .unanswered asked
      · rintro o _ es' (⟨-, rfl⟩ | ⟨part, arguments, asked⟩) next
        · exact .uncalled next
        · exact .answered asked next
    have onFailure (f : Failure) : Run.Writes keep
        (fun o es => ∃ record es', Transcript S (.option (path ++ [1]) onError) o es' ∧
          es = .logged record :: .counted ActionKind.apiCall.name .failed ::
            .measured .apiFailure :: es') Unit (do
        Run.log .warning "api_call_failed"
          [("endpoint", .str endpoint), ("method", .ofOption (.str ·.name) method),
            ("error", .str f.message), ("has_on_error", .bool onError.isSome)]
        count dispatcher ActionKind.apiCall.name .failed
        countFailure dispatcher
        performOption ask dispatcher (path ++ [1]) onError) := by
      refine .after_log (fun _ => (count_writes metered _ _).after
        (fun _ => (countFailure_writes metered).after (fun _ => error)
          (U := fun o es => ∃ es', Transcript S (.option (path ++ [1]) onError) o es' ∧
            es = .measured .apiFailure :: es') ?_)
        (U := fun o es => ∃ es', Transcript S (.option (path ++ [1]) onError) o es' ∧
          es = .counted ActionKind.apiCall.name .failed :: .measured .apiFailure :: es') ?_) ?_
      · exact fun o es next => ⟨es, next, rfl⟩
      · rintro o _ ⟨es, next, rfl⟩
        exact ⟨es, next, rfl⟩
      · rintro record o _ ⟨es, next, rfl⟩
        exact ⟨record, es, next, rfl⟩
    refine containing_writes call (count_writes metered _ _) onFailure ?_ ?_ ?_
    · rintro o es _ call ⟨rfl, rfl⟩
      exact .succeeded call
    · rintro f o es _ ordinary call ⟨record, es', next, rfl⟩
      simpa using Transcript.contained record ordinary call next
    · exact fun f es extraordinary call => .escaped extraordinary call
  · intro path actions members
    rw [work]
    exact members.before (fun _ => count_writes metered _ _) (fun f es failed => .aborted failed)
      fun es done => .sequence done
  · intro path condition onTrue onFalse
    rw [work]
    refine .after_log (fun _ => count_writes metered _ _) ?_
    rintro record o _ ⟨rfl, rfl⟩
    exact .conditional path condition onTrue onFalse record
  · intro path
    rw [work]
    refine (count_writes metered _ _).mono ?_
    rintro o _ ⟨rfl, rfl⟩
    exact .noop path
  -- The members of a sequence.
  · intro path index
    rw [performAll]
    refine (pure ()).mono ?_
    rintro o _ ⟨rfl, rfl⟩
    exact .nil path index
  · intro path index i rest first others
    rw [performAll]
    refine .after_log (fun _ => first.next (fun _ => others)
      (U := fun o es => ∀ record, Transcript S (.members path index (i :: rest)) o
        (.logged record :: es)) ?_ ?_) ?_
    · exact fun f es failed record => .last record failed
    · exact fun o es es' done next record => .cons record done next
    · exact fun record o es said => said record
  -- An instruction that may be absent.
  · intro path
    rw [performOption]
    refine (pure ()).mono ?_
    rintro o _ ⟨rfl, rfl⟩
    exact .absent path
  · intro path i inner
    rw [performOption]
    exact inner.before (fun _ => pure ()) (fun f es failed => .present failed)
      fun es done => by simpa using Transcript.present done

end Dispatch

end ServerUI
