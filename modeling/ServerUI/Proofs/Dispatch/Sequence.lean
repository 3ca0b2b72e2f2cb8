import ServerUI.Proofs.Run.Alike
import ServerUI.Proofs.Run.Origin

/-!
A sequence inside a sequence may as well be written out. Both ask the same of the client, which can
change its handlers or fail at any point, and both are aborted at the same point.
-/

set_option autoImplicit false

namespace ServerUI

variable {ι σ : Type}

def Handlers.PlainSequences (h : Handlers ι) : Prop :=
  -- Sequences are carried out by the engine itself.
  h.customFor (.str ActionKind.sequence.name) = none

namespace Policy

def plainSequences : Policy ι where
  edit change := ∀ h : Handlers ι, h.PlainSequences → (change h).PlainSequences

end Policy

namespace Dispatch

variable {ask : Ask ι σ} {dispatcher : Nat} {path path' : List Nat}

def Plain (dispatcher : Nat) (ds : Nat → Dispatcher ι) : Prop :=
  (ds dispatcher).handlers.PlainSequences

theorem performAll_append (n : Nat) (is js : List Instruction) :
    performAll ask dispatcher path n (is ++ js) = (do
      performAll ask dispatcher path n is
      performAll ask dispatcher path (n + is.length) js) := by
  induction is generalizing n with
  | nil => simp [performAll]
  | cons i is ih => simp [performAll, ih, Nat.add_right_comm, Nat.add_assoc]

theorem exec_sequence {w : World ι σ} (plain : Plain dispatcher w.dispatchers)
    (is : List Instruction) :
    Run.exec (perform ask dispatcher path (.action (.sequence is))) w =
      match Run.exec (performAll ask dispatcher path 0 is)
        (w.after [.began path (.known (.sequence is))]) with
      | (.ok _, w') => (.ok .null, w'.after ((w'.dispatchers dispatcher).measured
          [.action ActionKind.sequence.name Outcome.handled.name] ++ [.ended path none]))
      | (.error f, w') => (.error f, w'.after [.ended path (some f)]) := by
  have read : Instruction.parse (.action (.sequence is)) = .ok (.known (.sequence is)) := by simp
  have plain : (w.dispatchers dispatcher).handlers.customFor
      (Instruction.known (.sequence is)).tag = none := plain
  rw [perform_of_known _ _ read, exec_step _ _ plain, work, Run.exec_bind]
  cases Run.exec (performAll ask dispatcher path 0 is)
      (w.after [.began path (.known (.sequence is))]) with
  | mk r w' => cases r <;> simp [Except.map]

-- A sequence does as its members do, wherever they stand.
theorem alike_sequence {is : List Instruction} {x : Run ι σ Unit}
    (h : Run.Alike (Plain dispatcher) Unit (performAll ask dispatcher path 0 is) x) :
    Run.Alike (Plain dispatcher) Value (perform ask dispatcher path (.action (.sequence is)))
      (do x; return .null) := by
  intro w w' same kept
  rw [exec_sequence kept, Run.exec_bind]
  let began : Event ι := .began path (.known (.sequence is))
  have begun : calls [began] = calls [] := rfl
  obtain ⟨result, same, kept⟩ := h _ _ (same.after _ _ begun) kept
  rw [World.after_nil] at result same
  cases left : Run.exec (performAll ask dispatcher path 0 is) (w.after [began]) with
  | mk r v =>
      cases right : Run.exec x w' with
      | mk r' v' =>
          simp only [left, right] at result same kept
          subst result
          have silent (es : List (Event ι)) (nothing : calls es = []) : (v.after es).Alike v' := by
            simpa using same.after es [] nothing
          cases r with
          | ok _ => exact ⟨rfl, silent _ (by rw [calls_append, calls_measured]; rfl), kept⟩
          | error f => exact ⟨rfl, silent _ rfl, kept⟩

variable (asking : ∀ part what, what.isStep →
  Run.Alike (Plain dispatcher) Value (ask part what) (ask part what))

include asking

theorem alike_member (is : List Instruction) (path : List Nat) (n : Nat) :
    Run.Alike (Plain dispatcher) Unit (performAll ask dispatcher path n [.known (.sequence is)])
      (performAll ask dispatcher path n is) := by
  -- The inner sequence begins and ends unnoticed, and so does the record of its own step.
  have inner := alike_sequence (.performAll asking is (path ++ [n]) path 0 n)
  have announced : Run.Alike (σ := σ) (ι := ι) (Plain dispatcher) Unit
      (Run.log .debug "sequence_step"
        [("index", .int n), ("action_type", (Instruction.known (.sequence is)).tag)])
      (pure ()) :=
    .of_silent (fun w => ⟨_, Run.exec_log _ _ _ w, rfl⟩) fun w => ⟨[], by simp, rfl⟩
  have both := announced.bind fun _ => inner.bind fun _ => .pure ()
  simpa [performAll, Instruction.toValue] using both

theorem alike_nested (xs ys zs : List Instruction) (path : List Nat) :
    Run.Alike (Plain dispatcher) Unit
      (performAll ask dispatcher path 0 (xs ++ [.known (.sequence ys)] ++ zs))
      (performAll ask dispatcher path 0 (xs ++ ys ++ zs)) := by
  simp only [performAll_append]
  refine .bind (.bind (.performAll asking xs path path 0 0) fun _ => ?_) fun _ => ?_
  · exact alike_member asking ys path _
  · exact .performAll asking zs path path _ _

end Dispatch

namespace Engine

variable (e : Engine ι σ)

theorem ask_alike (obeys : e.client.Obeys Policy.plainSequences) (dispatcher : Nat) (part : ι)
    (what : Request) :
    Run.Alike (Dispatch.Plain dispatcher) Value (e.ask part what) (e.ask part what) := by
  have closed : Engine.Closed (σ := σ) (Policy.plainSequences (ι := ι))
      (fun α x => Run.Alike (Dispatch.Plain dispatcher) α x x) :=
    Run.Alike.toEngine (fun _ => trivial) fun number change ds keeps kept => by
      by_cases same : dispatcher = number
      · subst same
        simpa [Dispatch.Plain, Dispatcher.edit] using keeps _ kept
      · simpa [Dispatch.Plain, putAt_of_ne _ _ same] using kept
  refine closed.ask obeys (A := fun _ _ x => Run.Alike (Dispatch.Plain dispatcher) Value x x)
    (fun _ _ _ _ h => h) (fun _ _ _ _ => Run.Alike.request) ?_ _ _ part what
  intro ask asking d v _
  exact .run (.perform (fun part what _ => asking part what) v [] [])

/-- A dispatch was aborted: a part of the client raised `f`, and from there on steps only ended. -/
def Aborted (f : Failure) (w w' : World ι σ) : Prop :=
  ∃ id es, w'.journal = w.journal ++ .opened [("dispatch_id", .str id)] :: es ++ [.closed] ∧
    Escapes f es

theorem dispatch_sequence_ends {is : List Instruction} (settled : ∀ i ∈ is, i.Settled)
    {dispatcher : Nat} {w : World ι σ}
    (plain : (w.dispatchers dispatcher).handlers.PlainSequences) :
    let dispatched := Run.exec (e.dispatch dispatcher (.action (.sequence is))) w
    dispatched.1 = .ok .null ∨ ∃ f, dispatched.1 = .error f ∧ Aborted f w dispatched.2 := by
  intro dispatched
  have read : Instruction.parse (.action (.sequence is)) = .ok (.known (.sequence is)) := by simp
  have asking part what :=
    (e.ask_traced (p := {}) (fun _ _ => trivial) e.client.obeys_free part what).2
  have adds : Run.Adds (Account.failing {}).traced Value
      (Dispatch.perform e.ask dispatcher [] (.action (.sequence is))) :=
    (Run.Adds.toDispatch (Account.failing_traced_dispatching {})).perform_settled asking read
      (.known trivial settled) []
  obtain ⟨id, es, added, -, escapes⟩ := Dispatch.run_adds adds w
  cases result : dispatched.1 with
  | error f => exact .inr ⟨f, rfl, id, es, added, escapes f (congrArg Run.failure? result)⟩
  | ok v =>
      obtain ⟨-, w₀, -, same, -, ended, -⟩ :=
        Dispatch.exec_run e.ask dispatcher (.action (.sequence is)) w
      have plain : Dispatch.Plain dispatcher w₀.dispatchers := by rwa [Dispatch.Plain, same]
      rw [Dispatch.exec_sequence plain] at ended
      have ended := result.symm.trans ended
      split at ended
      · exact .inl ended
      · cases ended

/-- A sequence in a sequence may be written out. The parts of the client are asked the same in the
same order, everything but the journal is left the same, and both dispatches end in the same way:
with nothing to tell, or with the same failure, which aborts them. -/
theorem dispatch_sequence_flatten (obeys : e.client.Obeys Policy.plainSequences) (dispatcher : Nat)
    {xs ys zs : List Instruction} (settled : ∀ i ∈ xs ++ ys ++ zs, i.Settled) (w : World ι σ)
    (plain : (w.dispatchers dispatcher).handlers.PlainSequences) :
    let nested := Run.exec (e.dispatch dispatcher
      (.action (.sequence (xs ++ [.known (.sequence ys)] ++ zs)))) w
    let flat := Run.exec (e.dispatch dispatcher (.action (.sequence (xs ++ ys ++ zs)))) w
    nested.2.Alike flat.2 ∧
      ((nested.1 = .ok .null ∧ flat.1 = .ok .null) ∨
        ∃ f, nested.1 = .error f ∧ flat.1 = .error f ∧
          Aborted f w nested.2 ∧ Aborted f w flat.2) := by
  intro nested flat
  have asking part what (_ : what.isStep = true) := e.ask_alike obeys dispatcher part what
  have members := Dispatch.alike_nested asking xs ys zs []
  -- Both dispatches do as their members do one after another.
  have steps := (Dispatch.alike_sequence members).trans
    (Dispatch.alike_sequence (.performAll asking (xs ++ ys ++ zs) [] [] 0 0)).symm
  obtain ⟨result, same, -⟩ := Run.Alike.run steps w w (.refl w) plain
  have inner : (Instruction.known (.sequence ys)).Settled :=
    .known trivial fun i member => settled i (by simp_all [Action.nested])
  have nestedSettled : ∀ i ∈ xs ++ [.known (.sequence ys)] ++ zs, i.Settled := by grind
  refine ⟨same, ?_⟩
  rcases e.dispatch_sequence_ends nestedSettled plain with nothing | ⟨f, failed, aborted⟩
  · exact .inl ⟨nothing, result.symm.trans nothing⟩
  · have flatFailed : flat.1 = .error f := result.symm.trans failed
    rcases e.dispatch_sequence_ends settled plain with nothing | ⟨g, failed', aborted'⟩
    · cases nothing.symm.trans flatFailed
    · cases failed'.symm.trans flatFailed
      exact .inr ⟨f, failed, flatFailed, aborted, aborted'⟩

theorem dispatch_sequence_flatten_offline :
    let offline : Engine Unit Unit := { client := .failing (.client .connection none) }
    let w : World Unit Unit :=
      { client := (), dispatchers _ := { handlers := { effects _ := some () } } }
    let refresh : Instruction := .known (.effect (.refresh none))
    let goBack : Instruction := .known (.effect .goBack)
    let nested := Run.exec
      (offline.dispatch 0 (.action (.sequence [refresh, .known (.sequence [goBack])]))) w
    let flat := Run.exec (offline.dispatch 0 (.action (.sequence [refresh, goBack]))) w
    nested.2.Alike flat.2 ∧ nested.1 = flat.1 := by
  intro offline w refresh goBack nested flat
  have obeys : offline.client.Obeys Policy.plainSequences := Client.failing_obeys trivial
  have settled : ∀ i ∈ [refresh] ++ [goBack] ++ [], i.Settled := by
    have leaf (e : Effect) : (Instruction.known (.effect e)).Settled :=
      .known trivial (by simp [Action.nested])
    simp [refresh, goBack, leaf]
  obtain ⟨same, ends⟩ := dispatch_sequence_flatten offline obeys 0 settled w rfl
  refine ⟨same, ?_⟩
  rcases ends with ⟨left, right⟩ | ⟨f, left, right, -⟩
  · exact left.trans right.symm
  · exact left.trans right.symm

end Engine

end ServerUI
