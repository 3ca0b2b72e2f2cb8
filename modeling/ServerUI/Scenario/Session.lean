import ServerUI.Container
import ServerUI.Scenario.Place
import ServerUI.Scenario.Script

/-!
Sessions: an engine is set up with a scripted client and then taken through steps. Each step
answers with what it came to, and leaves in the journal what could be seen of it.
-/

set_option autoImplicit false

namespace ServerUI.Scenario

structure Component where
  type : String
  label : String
  drawing : Drawing
  options : Registration

structure Setup where
  settings : Except Failure Settings := .ok {}
  components : List Component := []
  effects : List (ActionKind × Script) := []
  custom : List (String × Script) := []
  onAction : Option Listener := none
  fallback : Option Part := none
  wrapper : Option Part := none
  isActionProp : Option PropRule := none
  ownMetrics : Bool := false
  firstId : Int := 0
  clock : Binary64 := .zero
  contained : Bool := false

structure Session where
  setup : Setup
  world : World Part Tally
  builder : Registry Part
  container : Except Failure (Container Part)
  callbacks : List Dict := []
  drawn : List Dict := []
  metrics : Metrics := {}

inductive Target where
  | bound (number : Int) (name : String) (arguments : List Value)
  | drawn (number : Int) (name : String) (arguments : List Value)

inductive Step where
  | dispatch (action : Value)
  | mapActions (actions : Value)
  | bindActions (actions : Value) (withArguments : Bool) (listener : Listener)
  | bindAction (prop : String) (action : Value) (withArguments : Bool) (listener : Listener)
  | call (targets : List Target)
  | callTogether (targets : List Target)
  | edit (e : Edit)
  | register (c : Component)
  | unregister (type : String)
  | rebuild
  | registered
  | singletons
  | render (v : Value)
  | resolveProps (v : Value)
  | renderSection (v : Value)
  | renderScreen (v asSections : Value)
  | renderFullScreen (v : Value)
  | renderAlone (v : Value)
  | renderSectionAlone (v : Value)
  | renderScreenAlone (v asSections : Value)

inductive Answer where
  | value (v : Value)
  | singletons
  | results (rs : List (Except Failure Value))
  | finished (rs : List Engine.Finished)

def Step.needsEngine : Step → Bool
  | bindActions _ _ (.host _) | bindAction _ _ _ (.host _) => false
  | call _ | callTogether _ | register _ | unregister _ => false
  | _ => true

def Step.standsAlone : Step → Bool
  | renderAlone _ | renderSectionAlone _ | renderScreenAlone .. => true
  | _ => false

namespace Setup

def known (s : Setup) : Settings :=
  match s.settings with
  | .ok settings => settings
  | .error _ => {}

def isExplicit (s : Setup) : Bool := s.ownMetrics && s.isActionProp.isSome

def metered (s : Setup) : Bool :=
  if s.contained then s.known.enableMetrics else s.ownMetrics || s.known.enableMetrics

def sharedStart : Int := 100

def ownSequence : Nat := 1

def sequences (s : Setup) : Nat → Sequence :=
  putAt (fun _ => { start := sharedStart }) ownSequence { start := s.firstId }

def makeRenderer (s : Setup) (snapshot : Registry Part) : Renderer Part where
  registry := snapshot
  onAction := s.onAction
  fallback := s.fallback
  wrapper := s.wrapper
  isActionProp := (s.isActionProp.getD s.known.handlerRule).holds
  metered := s.metered

def singleUseRenderer (s : Setup) (wrapped : Bool) (snapshot : Registry Part) : Renderer Part where
  registry := snapshot
  onAction := if s.contained then none else s.onAction
  fallback := s.fallback
  wrapper := if wrapped then s.wrapper else none
  isActionProp := s.known.handlerRule.holds
  metered := s.known.enableMetrics

def registerAll (builder : Registry Part) : List Component → Except Failure (Registry Part)
  | [] => .ok builder
  | c :: rest =>
      match (builder.register c.type (.component c.label c.drawing) c.options).1 with
      | .ok builder => registerAll builder rest
      | .error f => .error f

def makeContainer (s : Setup) (builder : Registry Part) :
    Except Failure (Except Failure (Container Part)) :=
  let container : Container Part :=
    { settings := s.known, fallback := s.fallback, wrapper := s.wrapper }
  if s.contained then .ok (s.settings.map fun _ => container)
  else
    match s.isExplicit, s.settings with
    | false, .error f => .error f
    | _, _ => .ok (.ok { container with renderer := some (s.makeRenderer builder) })

def start (s : Setup) : Except Failure Session := do
  let builder ← registerAll [] s.components
  let container ← s.makeContainer builder
  let (handlers, tally) := ({} : Tally).setUpHandlers s.effects s.custom
  let sequence := if s.contained then 0 else ownSequence
  return {
    setup := s
    world := {
      client := tally
      dispatchers := putAt (fun _ => {}) dispatcherNumber ⟨handlers, sequence, s.metered⟩
      sequences := s.sequences
      clock := { step := s.clock } }
    builder
    container }

end Setup

namespace Session

abbrev Work := Run Part Tally

def run {α : Type} (s : Session) (x : Work α) : Except Failure α × Session :=
  let (r, w) := x.exec s.world
  (r, { s with world := w })

def sortedNames {α : Type} (es : Entries α) : Value :=
  .list (((Entries.keys es).mergeSort (· ≤ ·)).map .str)

def withRenderer {α : Type} (s : Session) (x : Renderer Part → Work α) :
    Except Failure α × Session :=
  match s.container with
  | .error f => (.error f, s)
  | .ok container =>
      let (r, s) := s.run (container.provideRenderer s.builder)
      match r with
      | .error f => (.error f, s)
      | .ok (renderer, container) => ({ s with container := .ok container }).run (x renderer)

def withRegistry {α : Type} (s : Session) (x : Registry Part → Work α) :
    Except Failure α × Session :=
  s.withRenderer fun r => x r.registry

def addCallbacks (s : Session) : Except Failure Dict → Except Failure Answer × Session
  | .error f => (.error f, s)
  | .ok es => (.ok (.value (sortedNames es)), { s with callbacks := s.callbacks ++ [es] })

def call (s : Session) : Target → Engine.Call
  | .bound number name arguments => ⟨nth? s.callbacks number, name, arguments⟩
  | .drawn number name arguments => ⟨nth? s.drawn number, name, arguments⟩

def value (r : Except Failure Value × Session) : Except Failure Answer × Session :=
  (r.1.map .value, r.2)

def emitAll (s : Session) (records : List Log.Record) : Session :=
  (s.run (Run.logAll records)).2

def edit (s : Session) (e : Edit) : Session :=
  let (change, tally) := s.world.client.setUpEdit e
  let dispatchers := putAt s.world.dispatchers dispatcherNumber
    ((s.world.dispatchers dispatcherNumber).edit change)
  { s with world := { s.world with client := tally, dispatchers } }

def register (s : Session) (c : Component) : Except Failure Answer × Session :=
  let (r, records) := s.builder.register c.type (.component c.label c.drawing) c.options
  let s := s.emitAll records
  match r with
  | .ok builder => (.ok (.value (.bool true)), { s with builder })
  | .error f => (.error f, s)

def unregister (s : Session) (type : String) : Except Failure Answer × Session :=
  let (builder, records) := s.builder.unregister type
  (.ok (.value (.bool true)), { s.emitAll records with builder })

def rebuild (s : Session) : Except Failure Answer × Session :=
  let (snapshot, records) := s.builder.build
  let s := s.emitAll records
  let renew (c : Container Part) : Container Part :=
    let r := if s.setup.contained then c.makeRenderer snapshot else s.setup.makeRenderer snapshot
    { c with renderer := some r }
  (.ok (.value .null), { s with container := s.container.map renew })

def perform (s : Session) : Step → Except Failure Answer × Session
  | .dispatch action => value (s.run (engine.dispatch dispatcherNumber action))
  | .mapActions actions =>
      s.addCallbacks (Callback.ofActions (.dispatcher dispatcherNumber) actions false)
  | .bindActions actions withArguments listener =>
      s.addCallbacks (Callback.ofActions listener actions withArguments)
  | .bindAction prop action withArguments listener =>
      s.addCallbacks ((Callback.ofAction listener prop action withArguments).map fun c => [(prop, c)])
  | .call targets =>
      let (r, s') := s.run (targets.mapM fun t => Run.attempt (engine.call (s.call t)))
      (r.map .results, s')
  | .callTogether targets =>
      let (r, s') := s.run (engine.callTogether (targets.map s.call))
      (r.map .finished, s')
  | .edit e => (.ok (.value .null), s.edit e)
  | .register c => s.register c
  | .unregister type => s.unregister type
  | .rebuild => s.rebuild
  | .registered => value (s.withRegistry fun r => pure (sortedNames r))
  | .singletons => s.withRenderer fun _ => pure .singletons
  | .render v => value (s.withRenderer fun r => engine.render r v)
  | .resolveProps v => value (s.withRenderer fun r => engine.resolveProps r v)
  | .renderSection v => value (s.withRenderer fun r => engine.renderSection r v)
  | .renderScreen v asSections => value (s.withRenderer fun r => engine.renderScreen r v asSections)
  | .renderFullScreen v => value (s.withRenderer fun r => engine.renderFullScreen r v)
  | .renderAlone v =>
      value (s.withRegistry fun r => engine.render (s.setup.singleUseRenderer false r) v)
  | .renderSectionAlone v =>
      value (s.withRegistry fun r => engine.renderSection (s.setup.singleUseRenderer true r) v)
  | .renderScreenAlone v asSections =>
      value (s.withRegistry fun r =>
        engine.renderScreen (s.setup.singleUseRenderer true r) v asSections)

def obstacle? (s : Session) (x : Step) : Option Failure :=
  match s.container, s.setup.settings with
  | .error f, _ => if x.needsEngine then some f else none
  | _, .error f => if x.standsAlone then some f else none
  | _, _ => none

end Session

structure StepRecord where
  answer : Except Failure Answer
  events : List (Event Part)
  changes : List Sample

namespace Session

def measurement? : Event Part → Option Measurement
  | .measured m => some m
  | _ => none

def drawnProps? : Event Part → Option Dict
  | .asked (.component ..) (.component props _) _ => some props
  | _ => none

def step (s : Session) (x : Step) : StepRecord × Session :=
  let (answer, s') : Except Failure Answer × Session := match s.obstacle? x with
    | some f => (.error f, s)
    | none => s.perform x
  let events := s'.world.journal
  let metrics := s.metrics.recordAll (events.filterMap measurement?)
  (⟨answer, events, s.metrics.changes metrics⟩,
    { s' with world := { s'.world with journal := [] }, metrics, drawn := s'.drawn ++ events.filterMap drawnProps? })

def steps (s : Session) : List Step → List StepRecord
  | [] => []
  | x :: rest =>
      let (o, s) := s.step x
      o :: steps s rest

end Session

end ServerUI.Scenario
