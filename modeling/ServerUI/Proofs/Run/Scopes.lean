import ServerUI.Proofs.Run.Nesting
import ServerUI.Proofs.Run.Origin

/-!
Dispatches and full screens inside one another, through whatever the client does meanwhile. Every
run leaves the context as it was, however it ends, and its journal is one of calls inside one
another.
-/

set_option autoImplicit false

namespace ServerUI

variable {ι σ : Type}

def World.sequenceOf (w : World ι σ) (d : Nat) : Nat := (w.dispatchers d).sequence

/-- What a run leaves of the world: it adds to the journal, puts the context back, and leaves each
dispatcher its sequence. -/
structure Steady (w w' : World ι σ) (es : List (Event ι)) : Prop where
  added : w'.journal = w.journal ++ es
  context : w'.context = w.context
  sequenceOf : w'.sequenceOf = w.sequenceOf

namespace Steady

variable {w w' w'' : World ι σ} {es es' : List (Event ι)}

theorem refl (w : World ι σ) : Steady w w [] := ⟨by simp, rfl, rfl⟩

theorem after (w : World ι σ) (es : List (Event ι)) : Steady w (w.after es) es := ⟨rfl, rfl, rfl⟩

theorem trans (first : Steady w w' es) (next : Steady w' w'' es') :
    Steady w w'' (es ++ es') where
  added := by rw [next.added, first.added, List.append_assoc]
  context := next.context.trans first.context
  sequenceOf := next.sequenceOf.trans first.sequenceOf

theorem edit (w : World ι σ) (number : Nat) (change : Handlers ι → Handlers ι) :
    Steady w (Run.exec (Run.edit number change) w).2 [] where
  added := by simp
  context := rfl
  sequenceOf := by
    funext d
    by_cases same : d = number
    next =>
      subst same
      simp [World.sequenceOf, Dispatcher.edit]
    next => simp [World.sequenceOf, putAt_of_ne _ _ same]

end Steady

/-- Under calls as in `P`, the run leaves a journal of what `tale` says. -/
def Run.Scoped (c : Client ι σ) (tale : Tale ι) (P : List Scope → Prop) : Run.Property ι σ :=
  fun _ x => ∀ w scopes, P scopes → ∃ es, Steady w (Run.exec x w).2 es ∧
    Nested c w.sequenceOf tale ⟨w.context, scopes⟩ w.sequences es (Run.exec x w).2.sequences

namespace Run.Scoped

variable {c : Client ι σ} {n : Nat} {P P' : List Scope → Prop} {α β : Type}

theorem mono {tale : Tale ι} {x : Run ι σ α} (imp : ∀ scopes, P' scopes → P scopes)
    (h : Scoped c tale P α x) : Scoped c tale P' α x :=
  fun w scopes here => h w scopes (imp scopes here)

theorem map {tale : Tale ι} {x : Run ι σ α} (f : α → β) (h : Scoped c tale P α x) :
    Scoped c tale P β (f <$> x) := by
  intro w scopes here
  rw [exec_map]
  exact h w scopes here

theorem of_after {x : Run ι σ α}
    (after : ∀ w, ∃ a es, exec x w = (.ok a, w.after es) ∧
      ∀ own scopes, Nested c own (.inside n) ⟨w.context, scopes⟩ w.sequences es w.sequences) :
    Scoped c (.inside n) P α x := by
  intro w scopes _
  obtain ⟨a, es, ran, nested⟩ := after w
  rw [ran]
  exact ⟨es, .after w es, nested _ scopes⟩

theorem of_same {x : Run ι σ α} (same : ∀ w, Steady w (exec x w).2 [])
    (kept : ∀ w, (exec x w).2.sequences = w.sequences) : Scoped c (.inside n) P α x := by
  intro w scopes _
  rw [kept]
  exact ⟨[], same w, .nil⟩

theorem pure (a : α) : Scoped c (.inside n) P α (pure a) :=
  of_same (fun w => .refl w) fun _ => rfl

theorem throw (f : Failure) : Scoped c (.inside n) P α (throw f) :=
  of_same (fun w => .refl w) fun _ => rfl

theorem now : Scoped c (.inside n) P Binary64 now :=
  of_same (fun _ => ⟨by simp, rfl, rfl⟩) fun _ => rfl

theorem dispatcher (number : Nat) : Scoped c (.inside n) P (Dispatcher ι) (dispatcher number) :=
  of_same (fun w => .refl w) fun _ => rfl

theorem log (level : Log.Level) (event : String) {fields : Dict}
    (free : Log.isFree fields = true) :
    Scoped c (.inside n) P Unit (log level event fields) :=
  of_after fun w => ⟨(), _, exec_log level event fields w, fun _ scopes =>
    @Nested.logged _ _ _ _ _ ⟨w.context, scopes⟩ _ ⟨level, event, fields⟩ free⟩

theorem measure (metered : Bool) (m : Measurement) :
    Scoped c (.inside n) P Unit (measure metered m) := by
  apply of_after
  intro w
  refine ⟨(), _, exec_measure metered m w, fun _ scopes => ?_⟩
  cases metered with
  | false => exact .nil
  | true => exact .quiet rfl

theorem bind {x : Run ι σ α} {f : α → Run ι σ β} (first : Scoped c (.inside n) P α x)
    (next : ∀ a, Scoped c (.inside n) P β (f a)) : Scoped c (.inside n) P β (x >>= f) := by
  intro w scopes here
  obtain ⟨es, steady, nested⟩ := first w scopes here
  rw [exec_bind]
  cases ran : exec x w with
  | mk r w' =>
    rw [ran] at steady nested
    cases r with
    | error f => exact ⟨es, steady, nested⟩
    | ok a =>
      obtain ⟨es', steady', nested'⟩ := next a w' scopes here
      rw [steady.context, steady.sequenceOf] at nested'
      exact ⟨es ++ es', steady.trans steady', nested.append nested'⟩

theorem attempt {x : Run ι σ α} (h : Scoped c (.inside n) P α x) :
    Scoped c (.inside n) P (Except Failure α) (attempt x) := h

theorem toRuns : Run.Closed (Scoped c (.inside n) P) where
  pure := pure
  bind := bind
  log level event _ free := log level event free

/-- What the end of a call puts back is what was there before it. -/
theorem within {x : Run ι σ α} (h : Scoped c (.inside n) P α x) (call : Scope) (w : World ι σ)
    (sequences : Nat → Sequence) (scopes : List Scope) (here : P (call :: scopes)) :
    let ended := (exec (within call.bindings x) { w with sequences }).2
    ∃ es, Steady w ended (.opened call.bindings :: es ++ [.closed]) ∧
      Nested c w.sequenceOf (.inside n) (Site.within ⟨w.context, scopes⟩ call) sequences es
        ended.sequences := by
  intro ended
  let inside : World ι σ :=
    { w with sequences, context := Log.Context.bind w.context call.bindings }
  obtain ⟨es, steady, nested⟩ := h (inside.after [.opened call.bindings]) (call :: scopes) here
  let left := (exec x (inside.after [.opened call.bindings])).2
  have restored : Log.Context.restore left.context (Log.Context.save w.context call.bindings) =
      w.context := by
    have context : left.context = Log.Context.bind w.context call.bindings := steady.context
    rw [context, Log.Context.restore_bind call.bindings_once]
  have whole : ended = { left with context := w.context }.after [.closed] := by
    simp only [ended, exec_within]
    exact congrArg (fun context => { left with context }.after [.closed]) restored
  rw [whole]
  have added : left.journal = (w.journal ++ [.opened call.bindings]) ++ es := steady.added
  exact ⟨es, ⟨by simp [added], rfl, steady.sequenceOf⟩, nested⟩

end Run.Scoped

namespace Dispatch

variable {c : Client ι σ} {n : Nat} {ask : Ask ι σ} {dispatcher : Nat}

/-- The innermost call is a dispatch. -/
def Innermost (scopes : List Scope) : Prop := ∃ id outer, scopes = .dispatch id :: outer

theorem scoped_announced {path : List Nat} {i : Instruction} {x : Run ι σ Value}
    (h : Run.Scoped c (.inside n) Innermost Value x) :
    Run.Scoped c (.inside n) Innermost Value (announced path i x) := by
  intro w scopes here
  obtain ⟨es, steady, nested⟩ := h (w.after [.began path i]) scopes here
  obtain ⟨id, outer, rfl⟩ := here
  have began : Steady w (w.after [.began path i]) [.began path i] := .after w _
  have both := began.trans steady
  rw [exec_announced]
  cases ran : Run.exec x (w.after [.began path i]) with
  | mk r w' =>
    rw [ran] at both nested
    exact ⟨_, both.trans (.after w' _), .step path i (Run.failure? r) nested⟩

theorem scoped_containing {P : List Scope → Prop} {work onSuccess : Run ι σ Unit}
    {onFailure : Failure → Run ι σ Unit} (inner : Run.Scoped c (.inside n) P Unit work)
    (success : Run.Scoped c (.inside n) P Unit onSuccess)
    (failure : ∀ f, Run.Scoped c (.inside n) P Unit (onFailure f)) :
    Run.Scoped c (.inside n) P Unit (containing work onSuccess onFailure) := by
  apply Run.Scoped.bind inner.attempt
  intro r
  cases r with
  | ok _ => exact success
  | error f =>
    have absorbed : Run.Scoped c (.inside n) P Unit (Run.emit (.absorbed f)) :=
      .of_after fun w => ⟨(), _, Run.exec_emit (.absorbed f) w, fun _ _ => .quiet rfl⟩
    dsimp only
    split
    · exact absorbed.bind fun _ => failure f
    · exact .throw f

theorem scoped_closed : Closed (Run.Scoped c (.inside n) Innermost) where
  toRuns := Run.Scoped.toRuns
  measure := Run.Scoped.measure
  dispatcher := Run.Scoped.dispatcher
  announced := scoped_announced
  containing := scoped_containing

theorem run_scoped (asking : ∀ part what, Run.Scoped c (.inside n) (fun _ => True) Value
    (ask part what)) (v : Value) :
    Run.Scoped c (.dispatch (n + 1) dispatcher) (fun _ => True) Value (run ask dispatcher v) := by
  have steps : Run.Scoped c (.inside n) Innermost Value (perform ask dispatcher [] v) :=
    scoped_closed.perform (fun part what _ => (asking part what).mono fun _ _ => trivial)
      (fun _ => True) (fun _ f _ _ => .throw f) (fun _ _ _ _ _ _ => trivial) [] v trivial
  intro w scopes _
  let drawn := (w.sequences (w.sequenceOf dispatcher)).generateWithPrefix Identifier.dispatchPrefix
  obtain ⟨es, steady, nested⟩ := steps.within (.dispatch drawn.1) w
    (putAt w.sequences (w.sequenceOf dispatcher) drawn.2) scopes ⟨drawn.1, scopes, rfl⟩
  exact ⟨_, steady, .dispatch rfl nested⟩

end Dispatch

namespace Renderer

variable {c : Client ι σ} {n : Nat} {ask : Ask ι σ}

theorem scoped_closed : Closed (fun _ => True) (Run.Scoped c (.inside n) fun _ => True) where
  toRuns := Run.Scoped.toRuns
  measure metered _ _ := Run.Scoped.measure metered _
  ordinary _ _ := trivial
  throw f _ := Run.Scoped.throw f
  recover first success failure := first.attempt.bind fun r => by
    cases r with
    | ok a => exact success a
    | error f => exact failure f trivial
  now := Run.Scoped.now

theorem fullScreen_scoped (asking : ∀ part what, Run.Scoped c (.inside n) (fun _ => True) Value
    (ask part what)) (r : Renderer ι) (levels : Nat) (v : Value) :
    Run.Scoped c (.screen (n + 1) v) (fun _ => True) (List Value) (r.fullScreen ask levels v) := by
  intro w scopes _
  rw [fullScreen_eq, Run.exec_bind, Run.exec_ofExcept]
  cases read : Failure.ofChecked (some "ScreenDescriptor") (Screen.ofValue v) with
  | error f =>
    have refused (screen : Screen) : Screen.ofValue v ≠ .ok screen := by
      intro accepted
      cases read.symm.trans (Failure.ofChecked_eq_ok.mpr accepted)
    exact ⟨[], .refl w, .unread refused⟩
  | ok screen =>
    have drawing : Run.Scoped c (.inside n) (fun _ => True) (List Value)
        (r.contents ask levels screen) :=
      scoped_closed.contents (fun part what _ => asking part what) levels screen
    let drawn := (w.sequences 0).generateWithPrefix Identifier.renderPrefix
    obtain ⟨es, steady, nested⟩ := drawing.within (.screen drawn.1 screen.id) w
      (putAt w.sequences 0 drawn.2) scopes trivial
    exact ⟨_, steady, .screen (Failure.ofChecked_eq_ok.mp read) rfl nested⟩

end Renderer

/-- A program of the client goes through its calls one after another. -/
theorem Reaction.carryOut_nested {c : Client ι σ} {n : Nat}
    {dispatch : Nat → Value → Run ι σ Value} {renderScreen : Renderer ι → Value → Run ι σ Value}
    (dispatching : ∀ d v, Run.Scoped c (.dispatch n d) (fun _ => True) Value (dispatch d v))
    (rendering : ∀ r v, Run.Scoped c (.screen n v) (fun _ => True) Value (renderScreen r v))
    (p : Reaction ι) :
    Run.Scoped c (.program n p) (fun _ => True) Value (p.carryOut dispatch renderScreen) := by
  intro w scopes _
  induction p generalizing w with
  | finish v => exact ⟨[], .refl w, .finish⟩
  | fail f => exact ⟨[], .refl w, .fail⟩
  | edit d change next ih =>
    have edited := Steady.edit w d change
    obtain ⟨es, steady, nested⟩ := ih (Run.exec (Run.edit d change) w).2
    rw [edited.context, edited.sequenceOf] at nested
    exact ⟨es, edited.trans steady, .edit nested⟩
  | dispatch d v next ih =>
    let called := Run.exec (dispatch d v) w
    obtain ⟨es, steady, nested⟩ := dispatching d v w scopes trivial
    obtain ⟨es', steady', nested'⟩ := ih called.1 called.2
    rw [steady.context, steady.sequenceOf] at nested'
    exact ⟨es ++ es', steady.trans steady', .dispatches called.1 nested nested'⟩
  | renderScreen r v next ih =>
    let called := Run.exec (renderScreen r v) w
    obtain ⟨es, steady, nested⟩ := rendering r v w scopes trivial
    obtain ⟨es', steady', nested'⟩ := ih called.1 called.2
    rw [steady.context, steady.sequenceOf] at nested'
    exact ⟨es ++ es', steady.trans steady', .renders called.1 nested nested'⟩

namespace Client

variable {c : Client ι σ} {n : Nat}

theorem request_scoped {dispatch : Nat → Value → Run ι σ Value}
    {renderScreen : Renderer ι → Value → Run ι σ Value}
    (dispatching : ∀ d v, Run.Scoped c (.dispatch n d) (fun _ => True) Value (dispatch d v))
    (rendering : ∀ r v, Run.Scoped c (.screen n v) (fun _ => True) Value (renderScreen r v))
    (part : ι) (what : Request) :
    Run.Scoped c (.inside n) (fun _ => True) Value (c.request dispatch renderScreen part what) := by
  intro w scopes _
  let answer := c.respond part what w.client
  let asked : World ι σ := { w with client := answer.2 }
  let questioned := asked.after [.asked part what w.context]
  have answering := answer.1.carryOut_nested dispatching rendering
  obtain ⟨es, steady, nested⟩ := answering questioned scopes trivial
  have begun : Steady w questioned [.asked part what w.context] := ⟨rfl, rfl, rfl⟩
  have both := begun.trans steady
  rw [exec_request]
  dsimp only
  cases ran : Run.exec (answer.1.carryOut dispatch renderScreen) questioned with
  | mk r w' =>
    rw [ran] at both nested
    cases r with
    | ok v => exact ⟨_, by simpa using both, .asked part what w.client none nested⟩
    | error f =>
      exact ⟨_, both.trans (.after w' _), .asked part what w.client (some f) nested⟩

theorem ask_scoped (c : Client ι σ) (levels nesting : Nat) (part : ι) (what : Request) :
    Run.Scoped c (.inside nesting) (fun _ => True) Value (c.ask levels nesting part what) := by
  -- The induction is on how many requests may still stand inside one another.
  induction nesting generalizing part what with
  | zero =>
    apply request_scoped
    · exact fun d v w scopes _ => ⟨[], .refl w, .noDispatch⟩
    · exact fun r v w scopes _ => ⟨[], .refl w, .noScreen⟩
  | succ nesting asking =>
    apply request_scoped
    · exact fun d v => Dispatch.run_scoped asking v
    · exact fun r v => (r.fullScreen_scoped asking levels v).map _

end Client

namespace Engine

variable (e : Engine ι σ)

/-- Whatever a program dispatches and renders, and whatever the client does meanwhile, calls stand
inside one another, also where they fail: each binds an identifier of its own around all that it
does and puts the context back that it found, and each record carries what the innermost calls have
bound that are open where it stands. The dispatches of a program whose dispatchers share a sequence
of their own are numbered as they begin. -/
theorem carryOut_scoped (program : Reaction ι) (w : World ι σ) :
    let ended := Run.exec (program.carryOut e.dispatch e.renderFullScreen) w
    ∃ es, ended.2.journal = w.journal ++ es ∧ ended.2.context = w.context ∧
      Nested e.client w.sequenceOf (.program (e.nesting + 1) program) ⟨w.context, []⟩ w.sequences es
        ended.2.sequences ∧
      Recorded w.context [] es ∧
      ∀ s, s ≠ 0 → (∀ d, w.sequenceOf d = s) →
        ∀ k id, (dispatchIds es)[k]? = some id → id = (w.sequences s).dispatchId k := by
  intro ended
  have asking := e.client.ask_scoped e.levels e.nesting
  have whole := program.carryOut_nested (fun d v => Dispatch.run_scoped asking v)
    (fun r v => (r.fullScreen_scoped asking e.levels v).map Value.list)
  obtain ⟨es, steady, nested⟩ := whole w [] trivial
  have outside : Carries w.context [] w.context := fun name _ => rfl
  exact ⟨es, steady.added, steady.context, nested, nested.recorded outside,
    fun s own shared => (nested.numbered own shared).ids⟩

/-- A handler that dispatches and then renders a screen. What it dispatches is logged under an
identifier of its own, and the screen under that of the dispatch it was asked for. -/
theorem carryOut_scoped_handler :
    let home : Screen := ⟨"home", none, [], none, none, none, .null, none⟩
    let strange : Value := .dict [("type", .str "STRANGE")]
    let client : Client Unit Unit :=
      { respond := fun _ _ state =>
          (.dispatch 1 strange fun _ =>
            .renderScreen { registry := [] } (.screen home) fun _ => .finish .null, state)
        listener := fun _ => () }
    let e : Engine Unit Unit := { client, nesting := 1, levels := 1 }
    let refresh : Value := .action (.effect (.refresh none))
    let program : Reaction Unit := .dispatch 0 refresh fun _ => .finish .null
    let w : World Unit Unit :=
      { client := ()
        dispatchers := fun _ => { handlers := { effects := fun _ => some () }, sequence := 1 }
        sequences := fun _ => { start := 5 } }
    let ended := Run.exec (program.carryOut e.dispatch e.renderFullScreen) w
    ended.2.context = [] ∧ Recorded [] [] ended.2.journal ∧
      dispatchIds ended.2.journal = ["dsp_5", "dsp_6"] ∧
      (ended.2.journal.filterMap fun
        | .logged record => some (Log.scopeNames.map (Entries.find? record.fields))
        | _ => none) =
        [[some (.str "dsp_6"), none, none],
          [some (.str "dsp_5"), some (.str "rnd_5"), some (.str "home")]] := by
  intro home strange client e refresh program w ended
  obtain ⟨es, added, context, -, recorded, numbered⟩ := carryOut_scoped e program w
  have journal : ended.2.journal = es := added
  have ids := numbered 1 (by decide) fun _ => rfl
  rw [← journal] at recorded ids
  have kept : Instruction.parse strange = .ok (.unknown [("type", .str "STRANGE")]) :=
    Instruction.parse_eq_ok.mpr (Instruction.ofValue_unknown rfl)
  have skipped (ask : Ask Unit Unit) : Dispatch.perform ask 1 [] strange = _ :=
    Dispatch.perform_of_unknown _ _ kept
  have listed (count : (dispatchIds ended.2.journal).length = 2) :
      dispatchIds ended.2.journal = ["dsp_5", "dsp_6"] := by
    apply List.ext_getElem count
    intro k here _
    have id := ids k _ (List.getElem?_eq_getElem here)
    obtain rfl | rfl : k = 0 ∨ k = 1 := by omega
    · exact id
    · exact id
  refine ⟨context, recorded, And.imp_left listed ?_⟩
  simp only [ended, program, refresh, Reaction.carryOut, Engine.dispatch, Dispatch.run,
    Dispatch.perform_action, Dispatch.work, skipped, Dispatch.step, Dispatch.runEffect_eq, e,
    Engine.ask, Client.ask, Client.request, client]
  constructor
  next => rfl
  next => rfl

end Engine

end ServerUI
