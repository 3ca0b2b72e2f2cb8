import ServerUI.Proofs.Run.Rendering

/-!
What clients are held to, and the properties of runs that asking a client then has. A part of the
client that is asked may dispatch and render, and these ask other parts; the induction is on how
deep that goes.
-/

set_option autoImplicit false

namespace ServerUI

variable {ι σ : Type}

/-- What the parts of a client keep to: how they change handlers, what they dispatch and how they
fail. -/
structure Policy (ι : Type) where
  edit : (Handlers ι → Handlers ι) → Prop := fun _ => True
  dispatch : Value → Prop := fun _ => True
  fail : Failure → Prop := fun _ => True

/-- Parts fail only as a caller may handle. -/
def Policy.ordinary : Policy ι where
  fail f := f.isOrdinary = true

def Policy.result {α : Type} (p : Policy ι) (r : Except Failure α) : Prop :=
  ∀ f, r = .error f → p.fail f

def Reaction.Obeys (p : Policy ι) : Reaction ι → Prop
  | finish _ => True
  | fail f => p.fail f
  | edit _ change next => p.edit change ∧ next.Obeys p
  | dispatch _ v next => p.dispatch v ∧ ∀ r, p.result r → (next r).Obeys p
  | renderScreen _ _ next => ∀ r, p.result r → (next r).Obeys p

def Client.Obeys (p : Policy ι) (c : Client ι σ) : Prop :=
  ∀ part what state, (c.respond part what state).1.Obeys p

theorem Reaction.obeys_free (r : Reaction ι) : r.Obeys {} := by
  induction r with
  | finish => trivial
  | fail => trivial
  | edit _ _ _ ih => exact ⟨trivial, ih⟩
  | dispatch _ _ _ ih => exact ⟨trivial, fun r _ => ih r⟩
  | renderScreen _ _ _ ih => exact fun r _ => ih r

theorem Client.obeys_free (c : Client ι σ) : c.Obeys {} := fun _ _ _ => Reaction.obeys_free _

def Client.failing (f : Failure) : Client Unit Unit where
  respond _ _ state := (.fail f, state)
  listener _ := ()

theorem Client.failing_obeys {p : Policy Unit} {f : Failure} (h : p.fail f) :
    (Client.failing f).Obeys p := fun _ _ _ => h

/-- Each part answers with what it is. -/
def Client.answering : Client (Except Failure Value) Unit where
  respond
    | .ok v, _, state => (.finish v, state)
    | .error f, _, state => (.fail f, state)
  listener _ := .ok .null

theorem Client.exec_ask_answering (levels nesting : Nat) (part : Except Failure Value)
    (what : Request) (w : World (Except Failure Value) Unit) :
    Run.exec (answering.ask levels nesting part what) w =
      (part, w.after (.asked part what w.context ::
        ((Run.failure? part).map (Event.refused part what)).toList)) := by
  cases nesting <;> rw [ask, exec_request] <;> cases part <;> simp [answering, Reaction.carryOut]

structure Engine.Closed (p : Policy ι) (Q : Run.Property ι σ) : Prop
    extends toRendering : Renderer.Closed p.fail Q where
  screen (name : String) {x : Run ι σ (List Value)} (h : Q (List Value) x) :
    Q (List Value) (Renderer.screenScope name x)
  edit (number : Nat) {change : Handlers ι → Handlers ι} (h : p.edit change) :
    Q Unit (Run.edit number change)

namespace Engine.Closed

variable {p : Policy ι} {Q : Run.Property ι σ} (closed : Engine.Closed p Q)

include closed

theorem carryOut {dispatch : Nat → Value → Run ι σ Value}
    {renderScreen : Renderer ι → Value → Run ι σ Value}
    (dispatching : ∀ d v, p.dispatch v → Q Value (dispatch d v))
    (rendering : ∀ r v, Q Value (renderScreen r v)) {reaction : Reaction ι}
    (h : reaction.Obeys p) : Q Value (reaction.carryOut dispatch renderScreen) := by
  induction reaction with
  | finish v => exact closed.pure v
  | fail f => exact closed.throw f h
  | edit d change next ih => exact closed.bind (closed.edit d h.1) fun _ => ih h.2
  | dispatch d v next ih =>
      refine closed.recover (dispatching d v h.1) (fun a => ?_) fun f hf => ?_
      · exact ih _ (h.2 _ (by simp [Policy.result]))
      · exact ih _ (h.2 _ (by simpa [Policy.result] using hf))
  | renderScreen r v next ih =>
      refine closed.recover (rendering r v) (fun a => ?_) fun f hf => ?_
      · exact ih _ (h _ (by simp [Policy.result]))
      · exact ih _ (h _ (by simpa [Policy.result] using hf))

/-- Asking has the property `A`, if a request has it whose reaction has `Q`, and `A` of what a
dispatch asks makes for `Q` of the dispatch. -/
theorem ask {c : Client ι σ} (obeys : c.Obeys p) {A : ι → Request → Run ι σ Value → Prop}
    (weaken : ∀ part what x, what.isStep = false → A part what x → Q Value x)
    (request : ∀ dispatch renderScreen part what,
      (∀ state, Q Value ((c.respond part what state).1.carryOut dispatch renderScreen)) →
        A part what (c.request dispatch renderScreen part what))
    (run : ∀ ask : Ask ι σ, (∀ part what, A part what (ask part what)) →
      ∀ d v, p.dispatch v → Q Value (Dispatch.run ask d v))
    (levels nesting : Nat) (part : ι) (what : Request) :
    A part what (c.ask levels nesting part what) := by
  -- The induction is on how many requests may still stand inside one another.
  induction nesting generalizing part what with
  | zero =>
      have limit : Q Value (throw .nestingLimit) := closed.throw _ (closed.ordinary _ rfl)
      exact request _ _ part what fun state =>
        closed.carryOut (fun _ _ _ => limit) (fun _ _ => limit) (obeys part what state)
  | succ nesting ih =>
      refine request _ _ part what fun state => closed.carryOut ?_ ?_ (obeys part what state)
      · exact run _ ih
      · have asking part what (drawing : what.isStep = false) :=
          weaken part what _ drawing (ih part what)
        exact fun r v => closed.map _ (closed.fullScreen asking closed.screen _ v)

end Engine.Closed

end ServerUI
