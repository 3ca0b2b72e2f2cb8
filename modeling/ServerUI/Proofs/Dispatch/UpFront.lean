import ServerUI.Proofs.Run.Origin

/-!
An action is read as a whole before any of it is carried out. Either reading fails and nothing else
happens, or the engine raises no failure of its own from there on: whatever leaves the dispatch, and
whatever is absorbed on the way, was raised by a part of the client that was asked for a step.
-/

set_option autoImplicit false

namespace ServerUI

variable {ι σ : Type}

/-- Every failure that was absorbed had escaped from a part of the client. -/
def Sourced (es : List (Event ι)) : Prop :=
  ∀ before f after, es = before ++ .absorbed f :: after → Escapes f before

namespace Sourced

theorem event {e : Event ι} (still : e.isAbsorbed = false) : Sourced [e] := by
  intro before f after same
  cases before <;> simp at same
  simp [same, Event.isAbsorbed] at still

theorem append {es es' : List (Event ι)} (first : Sourced es) (next : Sourced es') :
    Sourced (es ++ es') := by
  intro before f after same
  rcases append_eq_append_cons same with ⟨middle, rfl, place⟩ | ⟨rest, place, -⟩
  · exact (next middle f after place).prepend es
  · exact first before f rest place

theorem absorbed {f : Failure} {es : List (Event ι)} (h : Sourced es) (escapes : Escapes f es) :
    Sourced (es ++ [.absorbed f]) := by
  intro before g after same
  rcases append_eq_append_cons same with ⟨middle, rfl, place⟩ | ⟨rest, place, -⟩
  · cases middle <;> simp at place
    simpa [← place.1] using escapes
  · exact h before g rest place

end Sourced

namespace Account

def sourced : Account ι := fun _ es => Sourced es

theorem sourced_rendering : Rendering (fun _ => True) (sourced : Account ι) where
  nil := by
    intro before f after same
    simp at same
  event := Sourced.event
  append := Sourced.append
  failed f es := by simp [sourced]

theorem sourced_dispatching : Dispatching (sourced : Account ι).traced :=
  traced_dispatching (p := {}) sourced_rendering fun _ _ => Sourced.absorbed

end Account

namespace Policy

def settled : Policy ι where
  dispatch := Value.Settled

end Policy

namespace Dispatch

variable {ask : Ask ι σ} {dispatcher : Nat} {v : Value}

theorem run_sourced
    (asking : ∀ part what, what.isStep → Run.Adds Account.sourced.traced Value (ask part what))
    (settled : v.Settled) : Run.Adds Account.sourced Value (run ask dispatcher v) := by
  have closed : Engine.Closed (Policy.settled : Policy ι) (Run.Adds (σ := σ) Account.sourced) :=
    Account.Rendering.toEngine (p := Policy.settled) Account.sourced_rendering fun _ _ => trivial
  have reading := (Run.Adds.toDispatch (σ := σ) (Account.sourced_dispatching (ι := ι)))
  rw [Run.adds_eq]
  refine run_drawing Account.sourced_rendering.toDrawing ?_
  rw [← Run.adds_eq]
  cases read : Instruction.parse v with
  | error f =>
      rw [perform_of_refused _ _ read]
      exact closed.throw f trivial
  | ok i =>
      have settled : i.Settled := .of_ofValue settled (Instruction.parse_eq_ok.mp read)
      exact (reading.perform_settled asking read settled []).mono fun _ _ said => said.1

end Dispatch

namespace Engine

variable (e : Engine ι σ)

theorem ask_sourced (obeys : e.client.Obeys Policy.settled) (part : ι) (what : Request) :
    Run.Adds Account.sourced Value (e.ask part what) ∧
      (what.isStep → Run.Adds Account.sourced.traced Value (e.ask part what)) := by
  have closed : Engine.Closed (Policy.settled : Policy ι) (Run.Adds (σ := σ) Account.sourced) :=
    Account.Rendering.toEngine (p := Policy.settled) Account.sourced_rendering fun _ _ => trivial
  refine closed.ask obeys
    (A := fun _ what x => Run.Adds Account.sourced Value x ∧
      (what.isStep → Run.Adds Account.sourced.traced Value x))
    (fun _ _ _ _ h => h.1) ?_ ?_ _ _ part what
  · exact fun _ _ _ _ reacting =>
      Client.request_traced (p := Policy.settled) Account.sourced_rendering reacting
  · exact fun ask asking d v settled =>
      Dispatch.run_sourced (fun part what => (asking part what).2) settled

/-- Either an action cannot be read, and its dispatch fails with just that and has done nothing; or
it can, and every failure that leaves the dispatch or is absorbed on the way was raised by a part of
the client that was asked for a step. -/
theorem dispatch_reads_first (obeys : e.client.Obeys Policy.settled) (dispatcher : Nat) {v : Value}
    (settled : v.Settled) (w : World ι σ) :
    ∃ id, match Instruction.parse v, Run.exec (e.dispatch dispatcher v) w with
      | .error f, (r, w') =>
          r = .error f ∧ w'.client = w.client ∧ w'.dispatchers = w.dispatchers ∧
            w'.journal = w.journal ++ [.opened [("dispatch_id", .str id)], .closed]
      | .ok _, (r, w') =>
          ∃ es, w'.journal = w.journal ++ .opened [("dispatch_id", .str id)] :: es ++ [.closed] ∧
            Sourced es ∧ ∀ f, r = .error f → Escapes f es := by
  cases read : Instruction.parse v with
  | error f =>
      obtain ⟨id, w₀, client, dispatchers, opened, result, client', dispatchers', closed⟩ :=
        Dispatch.exec_run e.ask dispatcher v w
      rw [Dispatch.perform_of_refused _ _ read] at result client' dispatchers' closed
      exact ⟨id, result, client'.trans client, dispatchers'.trans dispatchers,
        closed.trans (by simp [opened])⟩
  | ok i =>
      -- All nested instructions were read with `i`, so reading them anew at their steps succeeds.
      have settled : i.Settled := .of_ofValue settled (Instruction.parse_eq_ok.mp read)
      have asking part what := (e.ask_sourced obeys part what).2
      have adds : Run.Adds Account.sourced.traced Value (Dispatch.perform e.ask dispatcher [] v) :=
        (Run.Adds.toDispatch Account.sourced_dispatching).perform_settled asking read settled []
      obtain ⟨id, es, added, said, escapes⟩ := Dispatch.run_adds adds w
      exact ⟨id, es, added, said, fun f failed => escapes f (congrArg Run.failure? failed)⟩

theorem dispatch_reads_first_offline :
    let offline : Engine Unit Unit := { client := .failing (.client .connection none) }
    let refresh : Value := .dict [("type", .str "REFRESH")]
    let w : World Unit Unit :=
      { client := (), dispatchers _ := { handlers := { effects _ := some () } } }
    ∃ id es, (Run.exec (offline.dispatch 0 refresh) w).2.journal =
        .opened [("dispatch_id", .str id)] :: es ++ [.closed] ∧
      Sourced es ∧
      ∀ f, (Run.exec (offline.dispatch 0 refresh) w).1 = .error f → Escapes f es := by
  intro offline refresh w
  have json : refresh.IsJson := .of_leaves (by simp [Value.isPlain, Value.parts])
  have fields : Action.ofFields .refresh [("type", .str "REFRESH")] =
      .ok (.effect (.refresh none)) := by
    rw [Action.ofFields_of_effect rfl]
    rfl
  have read : Instruction.parse refresh = .ok (.known (.effect (.refresh none))) :=
    Instruction.parse_eq_ok.mpr (Instruction.ofValue_of_ofFields rfl fields)
  have h := dispatch_reads_first offline (Client.failing_obeys trivial) 0 json.settled w
  rw [read] at h
  exact h

end Engine

end ServerUI
