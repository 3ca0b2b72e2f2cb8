import ServerUI.Engine.Dispatch
import ServerUI.Engine.Render

/-!
The engine with its client. A part of the client that is asked may itself dispatch actions and
render screens, so asking, dispatching and rendering call one another; `nesting` bounds how deep.
-/

set_option autoImplicit false

namespace ServerUI

variable {ι σ : Type}

namespace Reaction

def carryOut (dispatch : Nat → Value → Run ι σ Value)
    (renderScreen : Renderer ι → Value → Run ι σ Value) : Reaction ι → Run ι σ Value
  | finish v => pure v
  | fail f => throw f
  | edit d change next => do
      Run.edit d change
      next.carryOut dispatch renderScreen
  | .dispatch d action next => do
      let r ← Run.attempt (dispatch d action)
      (next r).carryOut dispatch renderScreen
  | .renderScreen renderer screen next => do
      let r ← Run.attempt (renderScreen renderer screen)
      (next r).carryOut dispatch renderScreen

end Reaction

namespace Client

def request (c : Client ι σ) (dispatch : Nat → Value → Run ι σ Value)
    (renderScreen : Renderer ι → Value → Run ι σ Value) : Ask ι σ := fun part what => do
  let w ← get
  Run.emit (.asked part what w.context)
  let (reaction, state) := c.respond part what w.client
  modify fun w => { w with client := state }
  match ← Run.attempt (reaction.carryOut dispatch renderScreen) with
  | .ok v => return v
  | .error f =>
      Run.emit (.refused part what f)
      throw f

theorem exec_request (c : Client ι σ) (dispatch : Nat → Value → Run ι σ Value)
    (renderScreen : Renderer ι → Value → Run ι σ Value) (part : ι) (what : Request)
    (w : World ι σ) :
    Run.exec (c.request dispatch renderScreen part what) w =
      let (reaction, state) := c.respond part what w.client
      let asked : World ι σ := { w with client := state }
      match Run.exec (reaction.carryOut dispatch renderScreen)
          (asked.after [.asked part what w.context]) with
      | (.ok v, w) => (.ok v, w)
      | (.error f, w) => (.error f, w.after [.refused part what f]) := by
  let x := (c.respond part what w.client).1.carryOut dispatch renderScreen
  let asked : World ι σ := { w with client := (c.respond part what w.client).2 }
  have begun : Run.exec (c.request dispatch renderScreen part what) w =
      Run.exec (do
        match ← Run.attempt x with
        | .ok v => return v
        | .error f =>
            Run.emit (.refused part what f)
            throw f) (asked.after [.asked part what w.context]) := rfl
  rw [begun, Run.exec_bind, Run.exec_attempt]
  cases ran : Run.exec x (asked.after [.asked part what w.context]) with
  | mk r w' => cases r <;> simp [ran, x, asked, Run.exec_bind]

/-- Asks a part of the client, which may dispatch and render in its turn, up to `nesting` times
inside one another. -/
def ask (c : Client ι σ) (levels : Nat) : Nat → Ask ι σ
  | 0 => c.request (fun _ _ => throw .nestingLimit) (fun _ _ => throw .nestingLimit)
  | nesting + 1 =>
      c.request (fun d action => Dispatch.run (c.ask levels nesting) d action)
        (fun r screen => Value.list <$> r.fullScreen (c.ask levels nesting) levels screen)

end Client

structure Engine (ι σ : Type) where
  client : Client ι σ
  nesting : Nat := 1000
  levels : Nat := 100000

namespace Engine

variable (e : Engine ι σ)

def ask : Ask ι σ := e.client.ask e.levels e.nesting

def dispatch (dispatcher : Nat) (action : Value) : Run ι σ Value :=
  Dispatch.run e.ask dispatcher action

def render (r : Renderer ι) (v : Value) : Run ι σ Value := r.node e.ask e.levels v

def resolveProps (r : Renderer ι) (v : Value) : Run ι σ Value := r.resolveProps e.ask e.levels v

def renderSection (r : Renderer ι) (v : Value) : Run ι σ Value := r.sectionOf e.ask e.levels v

def renderScreen (r : Renderer ι) (v asSections : Value) : Run ι σ Value :=
  Value.list <$> r.screen e.ask e.levels v asSections

def renderFullScreen (r : Renderer ι) (v : Value) : Run ι σ Value :=
  Value.list <$> r.fullScreen e.ask e.levels v

def deliver (listener : Listener) (action : Value) : Run ι σ Value :=
  match listener with
  | .dispatcher d => e.dispatch d action
  | .host n => e.ask (e.client.listener n) (.listen action)

structure Call where
  callbacks : Option Dict
  name : String
  arguments : List Value

def Call.send (c : Call) : Except Failure (Listener × Value) :=
  match c.callbacks with
  | none => .error .missingItem
  | some callbacks =>
      match Entries.find? callbacks c.name with
      | none => .error (.missingKey (.str c.name))
      | some callback => Callback.send callback c.arguments

def call (c : Call) : Run ι σ Value := do
  let (listener, action) ← Run.ofExcept c.send
  e.deliver listener action

inductive Started where
  | over (result : Except Failure Value)
  | waiting (dispatcher : Nat) (action : Value)

def start (c : Call) : Run ι σ Started :=
  match c.send with
  | .error f => return .over (.error f)
  -- A dispatch does not begin before all calls are made.
  | .ok (.dispatcher d, action) => return .waiting d action
  | .ok (listener, action) => .over <$> Run.attempt (e.deliver listener action)

structure Finished where
  waited : Bool
  result : Except Failure Value

-- Those who wait for a cancelled dispatch are not told why it was cancelled.
def withoutReason : Except Failure Value → Except Failure Value
  | .error (.client .cancelled _) => .error (.client .cancelled none)
  | r => r

def finish : Started → Run ι σ Finished
  | .over result => return ⟨false, result⟩
  | .waiting d action => do
      let r ← Run.attempt (e.dispatch d action)
      return ⟨true, withoutReason r⟩

def report (f : Finished) : Run ι σ Unit :=
  -- A dispatch that failed has nobody to hear of it; a cancelled one is no failure.
  match f.waited, f.result with
  | true, .error (.client .cancelled _) => pure ()
  | true, .error why => Run.log .error "action_callback_failed" [("error", .str why.message)]
  | _, _ => pure ()

/-- Makes all calls, then runs the dispatches that they started, in order, and then reports
those that failed. -/
def callTogether (calls : List Call) : Run ι σ (List Finished) := do
  let started ← calls.mapM e.start
  let finished ← started.mapM e.finish
  finished.forM report
  return finished

end Engine

end ServerUI
