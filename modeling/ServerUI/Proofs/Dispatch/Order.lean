import ServerUI.Proofs.Run.Origin
import ServerUI.Proofs.Run.Requests

/-!
The calls of handlers that a dispatch makes, in order. While handlers neither fail nor change
handlers nor dispatch, they are what a traversal of the action tells beforehand.
-/

set_option autoImplicit false

namespace ServerUI

variable {ι σ : Type}

namespace Handlers

/-- What stands for an instruction: its custom handler if it has one, and else `plain`. -/
def orCustom (h : Handlers ι) (i : Instruction) (plain : List (ι × Request)) :
    List (ι × Request) :=
  match h.customFor i.tag with
  | some (tag, part) => [(part, .custom tag i.toValue)]
  | none => plain

/-- The part is one of the handlers. -/
def Has (h : Handlers ι) (part : ι) : Prop :=
  (∃ kind, h.effects kind = some part) ∨ ∃ tag word, h.customFor tag = some (word, part)

def effectCall (h : Handlers ι) (kind : ActionKind) (arguments : List Value) :
    List (ι × Request) :=
  ((h.effects kind).map fun part => (part, .effect kind arguments)).toList

mutual

/-- The calls that an action stands for. A custom handler takes all that is beneath it. -/
def calls (h : Handlers ι) : Instruction → List (ι × Request)
  | .known a => h.orCustom (.known a) (h.callsOfAction a)
  | .unknown es => h.orCustom (.unknown es) []

def callsOfAction (h : Handlers ι) : Action → List (ι × Request)
  | .effect e => h.effectCall e.kind ((Action.effect e).untagged.map (·.2))
  | .apiCall endpoint method body onSuccess _ =>
      h.effectCall .apiCall
        [.str endpoint, .ofOption (.str ·.name) method, .ofOption .dict body] ++
        h.callsOfOption onSuccess
  | .sequence actions => h.callsOfItems actions
  | .conditional .. => []
  | .noop => []

def callsOfOption (h : Handlers ι) : Option Instruction → List (ι × Request)
  | none => []
  | some i => h.calls i

def callsOfItems (h : Handlers ι) : List Instruction → List (ι × Request)
  | [] => []
  | i :: is => h.calls i ++ h.callsOfItems is

end

end Handlers

/-- A handler ends with a value and neither changes handlers nor dispatches. It may render, if
that is `harmless`. -/
def Reaction.Calm (harmless : Prop) : Reaction ι → Prop
  | finish _ => True
  | fail _ => False
  | edit .. => False
  | dispatch .. => False
  | renderScreen _ _ next => harmless ∧ ∀ r, (next r).Calm harmless

namespace Policy

def aloof : Policy ι where
  edit _ := False
  dispatch _ := False

end Policy

/-- All handlers are calm. Where they render, nothing that they draw changes handlers or
dispatches either. -/
def Client.Calm (c : Client ι σ) (h : Handlers ι) : Prop :=
  ∀ part, h.Has part → ∀ what state, what.isStep = true →
    (c.respond part what state).1.Calm (c.Obeys Policy.aloof)

namespace Dispatch

variable {ask : Ask ι σ} {dispatcher : Nat} {h : Handlers ι} {cs ds : List (ι × Request)}
  {α β : Type}

/-- The handlers stay as they are in `h`. -/
def Keeps (dispatcher : Nat) (h : Handlers ι) (ds : Nat → Dispatcher ι) : Prop :=
  (ds dispatcher).handlers = h

/-- The run makes just these calls of handlers, and ends with a value. -/
def Makes (dispatcher : Nat) (h : Handlers ι) (cs : List (ι × Request)) : Run.Property ι σ :=
  Run.Writes (Keeps dispatcher h) fun o es => o = none ∧ handlerCalls es = cs

/-- The run makes no calls of handlers, however it ends. -/
def Draws (dispatcher : Nat) (h : Handlers ι) : Run.Property ι σ :=
  Run.Writes (Keeps dispatcher h) fun _ es => handlerCalls es = []

namespace Makes

theorem pure (a : α) : Makes (σ := σ) dispatcher h [] α (pure a) :=
  .of_still ⟨rfl, rfl⟩ fun w kept => ⟨a, w, rfl, rfl, kept⟩

theorem bind {x : Run ι σ α} {f : α → Run ι σ β} (first : Makes dispatcher h cs α x)
    (next : ∀ a, Makes dispatcher h ds β (f a)) : Makes dispatcher h (cs ++ ds) β (x >>= f) := by
  apply Run.Writes.next first next
  · rintro f es ⟨failed, -⟩
    cases failed
  · rintro o es es' ⟨-, first⟩ ⟨ended, next⟩
    exact ⟨ended, by rw [handlerCalls_append, first, next]⟩

theorem silent {x : Run ι σ α} {f : α → Run ι σ β} (first : Makes dispatcher h [] α x)
    (next : ∀ a, Makes dispatcher h cs β (f a)) : Makes dispatcher h cs β (x >>= f) :=
  first.bind next

theorem last {x : Run ι σ α} {f : α → Run ι σ β} (first : Makes dispatcher h cs α x)
    (next : ∀ a, Makes dispatcher h [] β (f a)) : Makes dispatcher h cs β (x >>= f) := by
  have both := first.bind next
  rwa [List.append_nil] at both

theorem log (level : Log.Level) (event : String) (fields : Dict) :
    Makes (ι := ι) (σ := σ) dispatcher h [] Unit (Run.log level event fields) :=
  Run.Writes.log (fun _ => ⟨rfl, rfl⟩) level event fields

theorem count (tag : String) (o : Outcome) :
    Makes (σ := σ) dispatcher h [] Unit (count dispatcher tag o) :=
  .of_after fun w _ => ⟨(), _, exec_count dispatcher tag o w, rfl,
    handlerCalls_of_requests (requests_measured _ _)⟩

-- The handlers that are looked up are those that are kept.
theorem handlers {f : Handlers ι → Run ι σ α} (next : Makes dispatcher h cs α (f h)) :
    Makes dispatcher h cs α (handlers dispatcher >>= f) := by
  intro w kept
  have same : (w.dispatchers dispatcher).handlers = h := kept
  rw [Run.exec_bind, exec_handlers, same]
  exact next w kept

theorem announced {path : List Nat} {i : Instruction} {x : Run ι σ Value}
    (inner : Makes dispatcher h cs Value x) :
    Makes dispatcher h cs Value (announced path i x) := by
  intro w kept
  obtain ⟨kept, es, added, ended, made⟩ := inner (w.after [.began path i]) kept
  rw [exec_announced]
  refine ⟨kept, [.began path i] ++ es ++ [.ended path none], ?_, ended, ?_⟩
  · simp [added, ended]
  · rw [handlerCalls_append, handlerCalls_append, made]
    exact List.append_nil _

theorem containing {work onSuccess : Run ι σ Unit} {onFailure : Failure → Run ι σ Unit}
    (inner : Makes dispatcher h cs Unit work) (success : Makes dispatcher h [] Unit onSuccess) :
    Makes dispatcher h cs Unit (containing work onSuccess onFailure) := by
  intro w kept
  obtain ⟨kept, es, added, ended, made⟩ := inner w kept
  rw [exec_containing]
  cases ran : Run.exec work w with
  | mk r w' =>
    rw [ran] at kept added ended
    cases r with
    | error f => cases ended
    | ok _ =>
      obtain ⟨kept, es', added', ended, made'⟩ := success w' kept
      refine ⟨kept, es ++ es', ?_, ended, ?_⟩
      · rw [added', added, List.append_assoc]
      · rw [handlerCalls_append, made, made', List.append_nil]

variable (asking : ∀ part what, h.Has part → what.isStep = true →
  Makes dispatcher h [(part, what)] Value (ask part what))

include asking

theorem runEffect (e : Effect) :
    Makes dispatcher h (h.callsOfAction (.effect e)) Unit (runEffect ask dispatcher e) := by
  rw [runEffect_eq]
  apply handlers
  rw [Handlers.callsOfAction, Handlers.effectCall]
  cases set : h.effects e.kind with
  | none => exact (log _ _ _).silent fun _ => count _ _
  | some part => exact (asking part _ (.inl ⟨_, set⟩) rfl).last fun _ => count _ _

theorem callApi (endpoint : String) (method : Option RequestMethod) (body : Option Dict) :
    Makes dispatcher h (h.effectCall .apiCall
        [.str endpoint, .ofOption (.str ·.name) method, .ofOption .dict body]) Unit
      (callApi ask dispatcher endpoint method body) := by
  apply handlers
  rw [Handlers.effectCall]
  cases set : h.effects .apiCall with
  | none => exact pure ()
  | some part => exact (asking part _ (.inl ⟨_, set⟩) rfl).last fun _ => pure ()

theorem step {path : List Nat} {i : Instruction} {work : Run ι σ Unit}
    (plain : Makes dispatcher h cs Unit work) :
    Makes dispatcher h (h.orCustom i cs) Value (step ask dispatcher path i work) := by
  apply announced
  apply handlers
  rw [Handlers.orCustom]
  cases set : h.customFor i.tag with
  | none => exact plain.last fun _ => pure _
  | some custom => exact (count _ _).silent fun _ => asking _ _ (.inr ⟨_, _, set⟩) rfl

theorem perform (path : List Nat) {v : Value} {i : Instruction}
    (read : Instruction.parse v = .ok i) (settled : i.Settled) :
    Makes dispatcher h (h.calls i) Value (perform ask dispatcher path v) := by
  -- One motive for each of the functions that dispatching recurses through.
  refine perform.induct
    (fun path v => ∀ i, Instruction.parse v = .ok i → i.Settled →
      Makes dispatcher h (h.calls i) Value (Dispatch.perform ask dispatcher path v))
    (fun path a => (∀ i ∈ a.nested, i.Settled) →
      Makes dispatcher h (h.callsOfAction a) Unit (work ask dispatcher path a))
    (fun path index is => (∀ i ∈ is, i.Settled) →
      Makes dispatcher h (h.callsOfItems is) Unit (performAll ask dispatcher path index is))
    (fun path o => (∀ i ∈ o.toList, i.Settled) →
      Makes dispatcher h (h.callsOfOption o) Unit (performOption ask dispatcher path o))
    ?_ ?_ ?_ ?_ ?_ ?_ ?_ ?_ ?_ ?_ ?_ ?_ path v i read settled
  · intro path v f refused i read _
    cases refused.symm.trans read
  · intro path v a known inner i read settled
    cases known.symm.trans read
    rw [perform_of_known _ _ known, Handlers.calls]
    exact step asking (inner settled.nested)
  · intro path v es unknown i read _
    cases unknown.symm.trans read
    rw [perform_of_unknown _ _ unknown, Handlers.calls]
    have nothing : Makes (σ := σ) dispatcher h [] Unit
        (runUnknown dispatcher (Instruction.tagOf es)) :=
      (log _ _ _).silent fun _ => count _ _
    exact step asking nothing
  -- The work of an action.
  · intro path e _
    rw [work]
    exact runEffect asking e
  · intro path endpoint method body onSuccess onError success _ settled
    rw [work, Handlers.callsOfAction]
    have onward := success fun i member => settled i (List.mem_append_left _ member)
    have called := (callApi asking endpoint method body).bind fun _ => onward
    exact containing called (count _ _)
  · intro path actions members settled
    rw [work, Handlers.callsOfAction]
    exact (members settled).last fun _ => count _ _
  · intro path condition onTrue onFalse _
    rw [work, Handlers.callsOfAction]
    exact (log _ _ _).silent fun _ => count _ _
  · intro path _
    rw [work, Handlers.callsOfAction]
    exact count _ _
  -- The members of a sequence.
  · intro path index _
    rw [performAll, Handlers.callsOfItems]
    exact pure ()
  · intro path index i rest first others settled
    rw [performAll, Handlers.callsOfItems]
    have head : i.Settled := settled i List.mem_cons_self
    have tail : ∀ j ∈ rest, j.Settled := fun j member => settled j (List.mem_cons_of_mem _ member)
    apply (log _ _ _).silent
    intro _
    exact (first i head.parse_toValue head).bind fun _ => others tail
  -- An instruction that may be absent.
  · intro path _
    rw [performOption, Handlers.callsOfOption]
    exact pure ()
  · intro path i inner settled
    rw [performOption, Handlers.callsOfOption]
    have here : i.Settled := settled i (by simp)
    exact (inner i here.parse_toValue here).last fun _ => pure ()

end Makes

theorem draws_engine (dispatcher : Nat) (h : Handlers ι) :
    Engine.Closed (σ := σ) (Policy.aloof : Policy ι) (Draws dispatcher h) := by
  apply Run.Writes.toEngine
  · exact {
      nil := rfl
      event := fun plain => handlerCalls_of_requests (requests_of_isPlain plain)
      append := fun first next => by rw [handlerCalls_append, first, next]; rfl
      failed := fun f es => by simp [Policy.aloof] }
  · exact fun _ _ => trivial
  · exact fun _ _ _ changed _ => changed.elim

theorem Draws.attempt {x : Run ι σ α} (inner : Draws dispatcher h α x) :
    Makes dispatcher h [] (Except Failure α) (Run.attempt x) := by
  intro w kept
  obtain ⟨kept, es, added, nothing⟩ := inner w kept
  exact ⟨kept, es, added, rfl, nothing⟩

end Dispatch

/-- What a calm handler goes through makes no calls of handlers, and gives a value. -/
theorem Reaction.Calm.makes {harmless : Prop} {dispatcher : Nat}
    {h : Handlers ι} {reaction : Reaction ι}
    (calm : reaction.Calm harmless) {dispatch : Nat → Value → Run ι σ Value}
    {renderScreen : Renderer ι → Value → Run ι σ Value}
    (rendering : harmless → ∀ r v, Dispatch.Draws dispatcher h Value (renderScreen r v)) :
    Dispatch.Makes dispatcher h [] Value (reaction.carryOut dispatch renderScreen) := by
  induction reaction with
  | finish v => exact .pure v
  | fail => exact calm.elim
  | edit => exact calm.elim
  | dispatch => exact calm.elim
  | renderScreen r v next ih =>
    obtain ⟨allowed, calm⟩ := calm
    exact (rendering allowed r v).attempt.silent fun result => ih result (calm result)

namespace Client

open Dispatch (Draws Makes draws_engine)

variable {c : Client ι σ} {dispatcher : Nat} {h : Handlers ι}

theorem ask_draws (aloof : c.Obeys Policy.aloof) (levels nesting : Nat) (part : ι)
    (what : Request) (drawn : what.isStep = false) :
    Draws dispatcher h Value (c.ask levels nesting part what) := by
  revert drawn
  refine (draws_engine dispatcher h).ask aloof
    (A := fun _ what x => what.isStep = false → Draws dispatcher h Value x)
    (fun _ _ _ drawn asked => asked drawn) ?_ ?_ levels nesting part what
  · intro dispatch renderScreen part what reacting drawn
    apply (request_writes reacting).mono
    rintro o es ⟨context, between, nothing, rfl⟩
    have asked : handlerCalls [Event.asked part what context] = [] := by
      simp [handlerCalls, requests_asked, drawn]
    have refused : handlerCalls (o.map (Event.refused part what)).toList = [] := by
      cases o <;> rfl
    rw [← List.singleton_append, handlerCalls_append, handlerCalls_append, asked, nothing, refused]
    rfl
  · exact fun _ _ _ _ dispatched => dispatched.elim

theorem request_makes {dispatch : Nat → Value → Run ι σ Value}
    {renderScreen : Renderer ι → Value → Run ι σ Value} {part : ι} {what : Request}
    (step : what.isStep = true)
    (reacting : ∀ state, Makes dispatcher h [] Value
      ((c.respond part what state).1.carryOut dispatch renderScreen)) :
    Makes dispatcher h [(part, what)] Value (c.request dispatch renderScreen part what) := by
  apply (request_writes reacting).mono
  rintro o es ⟨context, between, ⟨rfl, nothing⟩, rfl⟩
  have asked : handlerCalls [Event.asked part what context] = [(part, what)] := by
    simp [handlerCalls, requests_asked, step]
  refine ⟨rfl, ?_⟩
  rw [← List.singleton_append, handlerCalls_append, handlerCalls_append, asked, nothing]
  rfl

theorem Calm.ask (calm : c.Calm h) (levels nesting : Nat) (part : ι) (what : Request)
    (has : h.Has part) (step : what.isStep = true) :
    Makes dispatcher h [(part, what)] Value (c.ask levels nesting part what) := by
  cases nesting with
  | zero =>
    apply request_makes step
    intro state
    exact (calm part has what state step).makes fun _ _ _ => Run.Writes.throw rfl
  | succ nesting =>
    apply request_makes step
    intro state
    apply (calm part has what state step).makes
    intro aloof r v
    have closed : Engine.Closed _ (Draws dispatcher h) := draws_engine (σ := σ) dispatcher h
    exact closed.map _ (closed.fullScreen (ask_draws aloof levels nesting) closed.screen levels v)

end Client

namespace Dispatch

variable {ask : Ask ι σ} {dispatcher : Nat} {path : List Nat} {v : Value} {i : Instruction}

-- With a custom handler, a step ends as the handler does.
theorem exec_perform_custom {w : World ι σ} {tag : String} {part : ι}
    (read : Instruction.parse v = .ok i)
    (custom : (w.dispatchers dispatcher).handlers.customFor i.tag = some (tag, part)) :
    ∃ es, (Run.exec (perform ask dispatcher path v) w).1 =
      (Run.exec (ask part (.custom tag i.toValue)) (w.after es)).1 := by
  have taken (work : Run ι σ Unit) : (Run.exec (step ask dispatcher path i work) w).1 =
      (Run.exec (ask part (.custom tag i.toValue)) (w.after (.began path i ::
        (w.dispatchers dispatcher).measured [.action tag Outcome.custom.name]))).1 := by
    simp [step, exec_announced, Run.exec_bind, custom]
  cases i with
  | known a =>
    rw [perform_of_known _ _ read]
    exact ⟨_, taken _⟩
  | unknown es =>
    rw [perform_of_unknown _ _ read]
    exact ⟨_, taken _⟩

theorem exec_perform_plain {w : World ι σ} (read : Instruction.parse v = .ok i)
    (plain : (w.dispatchers dispatcher).handlers.customFor i.tag = none) :
    (Run.exec (perform ask dispatcher path v) w).1 = .ok .null ∨
      ∃ f, (Run.exec (perform ask dispatcher path v) w).1 = .error f := by
  have ends (work : Run ι σ Unit) :
      (Run.exec (step ask dispatcher path i work) w).1 = .ok .null ∨
        ∃ f, (Run.exec (step ask dispatcher path i work) w).1 = .error f := by
    rw [exec_step _ _ plain]
    cases Run.exec work (w.after [.began path i]) with
    | mk r w' =>
      cases r with
      | ok _ => exact .inl rfl
      | error f => exact .inr ⟨f, rfl⟩
  cases i with
  | known a =>
    rw [perform_of_known _ _ read]
    exact ends _
  | unknown es =>
    rw [perform_of_unknown _ _ read]
    exact ends _

end Dispatch

namespace Engine

variable (e : Engine ι σ)

/-- While its handlers are calm, a dispatch makes just the calls that its action stands for, in
order, and leaves the handlers as they are. It ends as the custom handler does that the action has
itself, and else with nothing. -/
theorem dispatch_calls {dispatcher : Nat} {w : World ι σ}
    (calm : e.client.Calm (w.dispatchers dispatcher).handlers) {v : Value} {i : Instruction}
    (settled : v.Settled) (read : Instruction.parse v = .ok i) :
    let h := (w.dispatchers dispatcher).handlers
    let ended := Run.exec (e.dispatch dispatcher v) w
    (∃ es, ended.2.journal = w.journal ++ es ∧ handlerCalls es = h.calls i) ∧
      (ended.2.dispatchers dispatcher).handlers = h ∧
      match h.customFor i.tag with
      | none => ended.1 = .ok .null
      | some (tag, part) => ∃ w₁ answer, w₁.client = w.client ∧ w₁.dispatchers = w.dispatchers ∧
          (Run.exec (e.ask part (.custom tag i.toValue)) w₁).1 = .ok answer ∧
          ended.1 = .ok answer := by
  intro h ended
  have settled : i.Settled := .of_ofValue settled (Instruction.parse_eq_ok.mp read)
  have makes : Dispatch.Makes dispatcher h (h.calls i) Value
      (Dispatch.perform e.ask dispatcher [] v) :=
    .perform (calm.ask e.levels e.nesting) [] read settled
  obtain ⟨kept, _, added, id, es, ⟨returned, made⟩, rfl⟩ := Dispatch.run_writes makes w rfl
  have calls : handlerCalls (.opened [("dispatch_id", .str id)] :: es ++ [.closed]) =
      h.calls i := by
    rw [← List.singleton_append, handlerCalls_append, handlerCalls_append, made]
    exact List.append_nil _
  refine ⟨⟨_, added, calls⟩, kept, ?_⟩
  obtain ⟨answer, answered⟩ : ∃ answer, ended.1 = .ok answer := by
    cases result : ended.1 with
    | ok answer => exact ⟨answer, rfl⟩
    | error f => cases (congrArg Run.failure? result).symm.trans returned
  obtain ⟨id, w₀, client, same, -, result, -⟩ := Dispatch.exec_run e.ask dispatcher v w
  have found : (w₀.dispatchers dispatcher).handlers.customFor i.tag = h.customFor i.tag := by
    rw [same]
  cases custom : h.customFor i.tag with
  | none =>
    rcases Dispatch.exec_perform_plain read (found.trans custom) with nothing | ⟨f, failed⟩
    · exact result.trans nothing
    · cases answered.symm.trans (result.trans failed)
  | some taken =>
    obtain ⟨es, handled⟩ := Dispatch.exec_perform_custom read (found.trans custom)
    have same' : ended.1 = _ := result.trans handled
    exact ⟨w₀.after es, answer, client, same, same'.symm.trans answered, answered⟩

/-- A custom handler takes its step, and a call to the API goes on where it succeeded. -/
theorem dispatch_calls_sequence :
    let client : Client Unit Unit :=
      { respond := fun _ _ state => (.finish (.bool true), state), listener := fun _ => () }
    let e : Engine Unit Unit := { client }
    let handlers : Handlers Unit := { effects := fun _ => some (), custom := [("GO_BACK", ())] }
    let w : World Unit Unit := { client := (), dispatchers := fun _ => { handlers } }
    let buy : Instruction := .known (.effect (.addToCart "p" (some 2)))
    let call : Instruction := .known (.apiCall "/x" none none (some buy) (some buy))
    let v : Value := .action (.sequence [.known (.effect .goBack), call])
    (∃ es, (Run.exec (e.dispatch 0 v) w).2.journal = es ∧ handlerCalls es =
      [((), .custom "GO_BACK" (.action (.effect .goBack))),
        ((), .effect .apiCall [.str "/x", .null, .null]),
        ((), .effect .addToCart [.str "p", .int 2])]) ∧
      (Run.exec (e.dispatch 0 v) w).1 = .ok .null := by
  intro client e handlers w buy call v
  have calm : e.client.Calm handlers := fun _ _ _ _ _ => trivial
  have leaf (effect : Effect) : (Instruction.known (.effect effect)).Settled :=
    .known trivial (by simp [Action.nested])
  have inner : call.Settled := by
    refine .known trivial fun i member => ?_
    obtain rfl : i = buy := by simpa [Action.nested] using member
    exact leaf _
  have whole : (Instruction.known (.sequence [.known (.effect .goBack), call])).Settled := by
    refine .known trivial fun i member => ?_
    have either : i = .known (.effect .goBack) ∨ i = call := by
      simpa [Action.nested] using member
    rcases either with rfl | rfl
    · exact leaf _
    · exact inner
  have settled : v.Settled := by
    refine .intro (fun a same => ?_) (by simp [v, Value.parts])
    exact Value.action.inj same ▸ whole
  have read : Instruction.parse v =
      .ok (.known (.sequence [.known (.effect .goBack), call])) := by
    simp [v]
  obtain ⟨⟨es, added, made⟩, -, ended⟩ := dispatch_calls e (w := w) calm settled read
  exact ⟨⟨es, by simpa [w] using added, made⟩, ended⟩

end Engine

end ServerUI
