import ServerUI.Proofs.Run.Account

/-!
Where failures come from. A failure that leaves a step was raised by a part of the client that was
asked for a step, and from there on nothing happened but the ends of the steps that it left.
-/

set_option autoImplicit false

namespace ServerUI

variable {ι σ : Type}

/-- A part that was asked for a step failed with `f`, and then steps only ended with it. -/
def Escapes (f : Failure) (es : List (Event ι)) : Prop :=
  ∃ (before between : List (Event ι)) (part : ι) (what : Request) (context : Dict)
    (paths : List (List Nat)), what.isStep = true ∧
    es = before ++ .asked part what context :: between ++
      .refused part what f :: paths.map (.ended · (some f))

namespace Escapes

variable {f : Failure} {es : List (Event ι)}

theorem refused {part : ι} {what : Request} (context : Dict) (between : List (Event ι))
    (step : what.isStep = true) :
    Escapes f (.asked part what context :: between ++ [.refused part what f]) :=
  ⟨[], between, part, what, context, [], step, by simp⟩

theorem prepend (first : List (Event ι)) (h : Escapes f es) : Escapes f (first ++ es) := by
  obtain ⟨before, between, part, what, context, paths, step, rfl⟩ := h
  exact ⟨first ++ before, between, part, what, context, paths, step, by simp⟩

theorem of_asked {T : Account ι} {part : ι} {what : Request} (step : what.isStep = true)
    (h : T.asked part what (some f) es) : Escapes f es := by
  obtain ⟨context, between, -, rfl⟩ := h
  exact refused context between step

theorem ended (path : List Nat) (h : Escapes f es) : Escapes f (es ++ [.ended path (some f)]) := by
  obtain ⟨before, between, part, what, context, paths, step, rfl⟩ := h
  exact ⟨before, between, part, what, context, paths ++ [path], step, by simp⟩

end Escapes

namespace Account

def traced (T : Account ι) : Account ι := fun o es => T o es ∧ ∀ f, o = some f → Escapes f es

-- A run fails only as the policy lets parts fail.
def failing (p : Policy ι) : Account ι := fun o _ => ∀ f, o = some f → p.fail f

theorem failing_dispatching (p : Policy ι) : Dispatching (failing p) where
  nil := by simp [failing]
  event _ := by simp [failing]
  append _ next := next
  ended _ h := h
  absorbed _ := by simp [failing]

theorem failing_rendering (p : Policy ι) : Rendering p.fail (failing p) where
  toClosed := (failing_dispatching p).toClosed
  failed f es := by simp [failing]

variable {p : Policy ι} {T : Account ι} (closed : Rendering p.fail T)
  (absorbed : ∀ f es, T (some f) es → Escapes f es → T none (es ++ [.absorbed f]))

include closed

theorem Rendering.event_after {f : Failure} {es : List (Event ι)} {e : Event ι}
    (still : e.isAbsorbed = false) (h : T (some f) es) : T (some f) (es ++ [e]) := by
  obtain ⟨before, ok⟩ := (closed.failed f es).mp h
  exact (closed.failed f _).mpr ⟨closed.append before (closed.event still), ok⟩

theorem Rendering.of_asked {part : ι} {what : Request} {o : Option Failure} {es : List (Event ι)}
    (h : T.asked part what o es) : T o es := by
  obtain ⟨context, between, said, rfl⟩ := h
  have both : T o ([.asked part what context] ++ between) :=
    closed.append (closed.event rfl) said
  cases o with
  | none => simpa using both
  | some f => exact closed.event_after rfl both

include absorbed

theorem traced_dispatching : Dispatching (traced T) where
  nil := ⟨closed.nil, by simp⟩
  event h := ⟨closed.event h, by simp⟩
  append first next := ⟨closed.append first.1 next.1, fun f failed => (next.2 f failed).prepend _⟩
  ended path h := by
    refine ⟨closed.event_after rfl h.1, fun f same => ?_⟩
    cases same
    exact (h.2 _ rfl).ended path
  absorbed h := ⟨absorbed _ _ h.1 (h.2 _ rfl), by simp⟩

end Account

theorem Account.failing_traced_dispatching (p : Policy ι) : Dispatching (failing p).traced :=
  traced_dispatching (failing_rendering p) (by simp [failing])

namespace Client

variable {p : Policy ι} {T : Account ι}

theorem request_traced (closed : Account.Rendering p.fail T) {c : Client ι σ}
    {dispatch : Nat → Value → Run ι σ Value} {renderScreen : Renderer ι → Value → Run ι σ Value}
    {part : ι} {what : Request}
    (reacting : ∀ state, Run.Adds T Value
      ((c.respond part what state).1.carryOut dispatch renderScreen)) :
    Run.Adds T Value (c.request dispatch renderScreen part what) ∧
      (what.isStep = true →
        Run.Adds T.traced Value (c.request dispatch renderScreen part what)) := by
  simp only [Run.adds_eq] at reacting ⊢
  have asked := request_writes reacting
  refine ⟨asked.mono fun o es => closed.of_asked, fun step => asked.mono fun o es said => ?_⟩
  refine ⟨closed.of_asked said, fun f failed => ?_⟩
  subst failed
  exact .of_asked step said

end Client

namespace Dispatch

variable {Q : Run.Property ι σ} {ask : Ask ι σ} {dispatcher : Nat}

theorem run_adds {S : Account ι} {v : Value} (h : Run.Adds S Value (perform ask dispatcher [] v))
    (w : World ι σ) :
    ∃ id es, (Run.exec (run ask dispatcher v) w).2.journal =
        w.journal ++ .opened [("dispatch_id", .str id)] :: es ++ [.closed] ∧
      S (Run.failure? (Run.exec (run ask dispatcher v) w).1) es := by
  rw [Run.adds_eq] at h
  obtain ⟨-, _, added, id, es, said, rfl⟩ := run_writes h w trivial
  exact ⟨id, es, by simpa using added, said⟩

theorem Closed.perform_settled (closed : Closed Q)
    (asking : ∀ part what, what.isStep → Q Value (ask part what)) {v : Value} {i : Instruction}
    (read : Instruction.parse v = .ok i) (settled : i.Settled) (path : List Nat) :
    Q Value (Dispatch.perform ask dispatcher path v) := by
  refine closed.perform asking (fun v => ∃ i, Instruction.parse v = .ok i ∧ i.Settled)
    ?_ ?_ path v ⟨i, read, settled⟩
  · rintro v f ⟨i, read, -⟩ refused
    simp [read] at refused
  · rintro v a ⟨i, read, settled⟩ known j member
    -- The nested instruction was read with the whole, so it reads as itself.
    obtain rfl : i = .known a := by simpa [read] using known
    have settled : j.Settled := settled.nested j member
    exact ⟨j, settled.parse_toValue, settled⟩

theorem Closed.performOption_settled (closed : Closed Q)
    (asking : ∀ part what, what.isStep → Q Value (ask part what)) {o : Option Instruction}
    (settled : ∀ i ∈ o.toList, i.Settled) (path : List Nat) :
    Q Unit (performOption ask dispatcher path o) := by
  rw [performOption.eq_def]
  cases o with
  | none => exact closed.pure ()
  | some i =>
      have settled : i.Settled := settled i (by simp)
      exact closed.bind (closed.perform_settled asking settled.parse_toValue settled path)
        fun _ => closed.pure ()

end Dispatch

namespace Engine

variable {p : Policy ι} (ordinary : ∀ f : Failure, f.isOrdinary = true → p.fail f) (e : Engine ι σ)
  (obeys : e.client.Obeys p)

include ordinary obeys

theorem ask_traced (part : ι) (what : Request) :
    Run.Adds (Account.failing p) Value (e.ask part what) ∧
      (what.isStep → Run.Adds (Account.failing p).traced Value (e.ask part what)) := by
  have closed : Engine.Closed p (Run.Adds (σ := σ) (Account.failing p)) :=
    (Account.failing_rendering p).toEngine ordinary
  have dispatching := Run.Adds.toDispatch (σ := σ) (Account.failing_dispatching p)
  refine closed.ask obeys
    (A := fun _ what x => Run.Adds (Account.failing p) Value x ∧
      (what.isStep → Run.Adds (Account.failing p).traced Value x))
    (fun _ _ _ _ h => h.1) ?_ ?_ _ _ part what
  · exact fun _ _ _ _ reacting => Client.request_traced (Account.failing_rendering p) reacting
  · intro ask asking d v _
    rw [Run.adds_eq]
    refine Dispatch.run_drawing (Account.failing_rendering p).toDrawing ?_
    rw [← Run.adds_eq]
    refine dispatching.perform (fun part what _ => (asking part what).1) (fun _ => True)
      (fun v f _ refused => ?_) (fun _ _ _ _ _ _ => trivial) _ _ trivial
    exact closed.throw f (ordinary f (Instruction.isOrdinary_of_parse refused))

end Engine

end ServerUI
