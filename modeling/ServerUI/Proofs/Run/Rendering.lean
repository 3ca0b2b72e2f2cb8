import ServerUI.Proofs.Run.Closed

/-!
Rendering keeps what is kept by the ways in which it puts runs together. Beyond sequencing it fails
by itself, goes on after failures, reads the clock, takes identifiers and binds names.
-/

set_option autoImplicit false

namespace ServerUI

variable {ι σ : Type}

def Measurement.isDrawing : Measurement → Bool
  | node .. | scope .. | duration .. => true
  | action .. | apiFailure | registrySize .. => false

namespace Renderer

/-- What drawing nodes and sections is put together from besides, where runs fail only as `allowed`.
Every failure of the renderer itself is ordinary. -/
structure Drawing (allowed : Failure → Prop) (Q : Run.Property ι σ) : Prop
    extends toRuns : Run.Closed Q where
  measure (metered : Bool) {m : Measurement} (drawing : m.isDrawing = true) :
    Q Unit (Run.measure metered m)
  ordinary (f : Failure) (h : f.isOrdinary = true) : allowed f
  throw {α : Type} (f : Failure) (h : allowed f) : Q α (throw f)

/-- Whole screens are traced and timed as well. -/
structure Closed (allowed : Failure → Prop) (Q : Run.Property ι σ) : Prop
    extends toDrawing : Drawing allowed Q where
  recover {α β : Type} {x : Run ι σ α} {g : Except Failure α → Run ι σ β} (first : Q α x)
    (success : ∀ a, Q β (g (.ok a))) (failure : ∀ f, allowed f → Q β (g (.error f))) :
    Q β (Run.attempt x >>= g)
  now : Q Binary64 Run.now

/-- A full screen is rendered under an identifier of its own. -/
def screenScope {α : Type} (name : String) (x : Run ι σ α) : Run ι σ α := do
  let id ← Run.newId 0 Identifier.renderPrefix
  Run.within [("render_id", .str id), ("screen_id", .str name)] x

def contents (ask : Ask ι σ) (r : Renderer ι) (levels : Nat) (s : Screen) :
    Run ι σ (List Value) := do
  Run.log .info "render_screen_descriptor" [("sections", .int s.sections.length)]
  let header ← r.edge ask levels "header" s.header
  let sections ← r.screen ask levels (.list (s.sections.map .section)) (.bool true)
  let footer ← r.edge ask levels "footer" s.footer
  return header ++ sections ++ footer

theorem fullScreen_eq (ask : Ask ι σ) (r : Renderer ι) (levels : Nat) (v : Value) :
    r.fullScreen ask levels v = (do
      let s ← Run.ofExcept (Failure.ofChecked (some "ScreenDescriptor") (Screen.ofValue v))
      screenScope s.id (r.contents ask levels s)) := rfl

/-- What the items of a list come to, as sections or as nodes. -/
def outputs (ask : Ask ι σ) (r : Renderer ι) (levels : Nat) (asSections : Value)
    (items : List Value) : Run ι σ (List Value) :=
  if asSections.isPresent then keyed "id" (r.sectionOf ask levels) 0 items
  else nodes (r.node ask levels) items

def listFields (size : Nat) (asSections : Value) : Dict :=
  [("items", .int size), ("sections", asSections)]

theorem screenItems_eq (ask : Ask ι σ) (r : Renderer ι) (levels : Nat) {v : Value} {size : Nat}
    {items : List Value} (sized : v.length? = some size) (listed : v.items? = some items)
    (asSections : Value) :
    r.screenItems ask levels v asSections =
      Trace.operation (.str "render_screen") (listFields size asSections)
        (r.outputs ask levels asSections items) := by
  rw [screenItems, sized, listed]
  rfl

/-- What a renderer asks for nodes. -/
def Asks (r : Renderer ι) (part : ι) (what : Request) : Prop :=
  (∃ type e props children, Entries.find? r.registry type = some e ∧ part = e.component ∧
      what = .component props children) ∨
    ∃ type, r.fallback = some part ∧ what = .fallback type

theorem Asks.not_isStep {r : Renderer ι} {part : ι} {what : Request} (asks : r.Asks part what) :
    what.isStep = false := by
  rcases asks with ⟨type, e, props, children, -, -, rfl⟩ | ⟨type, -, rfl⟩ <;> rfl

end Renderer

theorem Value.isOrdinary_of_actionTag {v : Value} {f : Failure} (h : v.actionTag = .error f) :
    f.isOrdinary = true := by
  unfold actionTag at h
  split at h <;> cases h
  rfl

namespace Callback

variable {listener : Listener} {withArguments : Bool} {f : Failure}

theorem isOrdinary_of_ofAction {prop : String} {action : Value}
    (h : ofAction listener prop action withArguments = .error f) : f.isOrdinary = true := by
  unfold ofAction at h
  split at h
  · cases h
  · split at h
    · next g tag =>
        cases h
        exact Value.isOrdinary_of_actionTag tag
    · split at h <;> cases h

theorem isOrdinary_of_ofEntries {es : Dict} (h : ofEntries listener withArguments es = .error f) :
    f.isOrdinary = true := by
  induction es with
  | nil => simp [ofEntries] at h
  | cons e es ih =>
      obtain ⟨prop, action⟩ := e
      rw [ofEntries] at h
      cases first : ofAction listener prop action withArguments with
      | error g =>
          simp only [first, Except.error.injEq] at h
          exact isOrdinary_of_ofAction (h ▸ first)
      | ok callback =>
          cases rest : ofEntries listener withArguments es with
          | error g => exact ih (by simp_all [Except.map])
          | ok others => simp [first, rest, Except.map] at h

end Callback

namespace Renderer

theorem isOrdinary_of_ofSections {v told : Value} {f : Failure} (h : ofSections v told = .error f) :
    f.isOrdinary = true := by
  unfold ofSections at h
  split at h
  · unfold first at h
    split at h
    · cases h
      rfl
    · split at h <;> cases h
      rfl
  · cases h

namespace Drawing

variable {allowed : Failure → Prop} {Q : Run.Property ι σ} (closed : Drawing allowed Q)

include closed

theorem ofExcept {α : Type} {r : Except Failure α} (h : ∀ f, r = .error f → allowed f) :
    Q α (Run.ofExcept r) := by
  cases r with
  | ok a => exact closed.pure a
  | error f => exact closed.throw f (h f rfl)

variable {ask : Ask ι σ} {r : Renderer ι} {one : Value → Run ι σ Value}

theorem count (status : NodeStatus) : Q Unit (r.count status) := closed.measure _ rfl

theorem keyed (each : ∀ v, Q Value (one v)) (name : String) (index : Nat) (items : List Value) :
    Q (List Value) (keyed name one index items) := by
  induction items generalizing index with
  | nil => exact closed.pure []
  | cons item rest ih =>
      exact closed.bind (each item) fun _ => closed.bind (ih (index + 1)) fun _ => closed.pure _

theorem slot (each : ∀ v, Q Value (one v)) (v : Value) : Q Value (slot one v) := by
  unfold Renderer.slot
  split
  · exact each _
  · split
    · exact each _
    · exact closed.pure _
  · exact closed.map _ (closed.keyed each _ _ _)
  · exact closed.map _ (closed.keyed each _ _ _)
  · exact closed.map _ (closed.keyed each _ _ _)
  · exact closed.pure _

theorem slots (each : ∀ v, Q Value (one v)) (names : List Value) (props : Dict) :
    Q Dict (slots one names props) := by
  induction names generalizing props with
  | nil => exact closed.pure props
  | cons name rest ih =>
      unfold Renderer.slots
      split
      · exact closed.throw _ (closed.ordinary _ rfl)
      · split
        · exact ih props
        · exact closed.bind (closed.slot each _) fun _ => ih _

theorem buildProps (each : ∀ v, Q Value (one v)) (n : Node) (e : Entry ι) :
    Q Dict (r.buildProps one n e) := by
  refine closed.bind (closed.slots each _ _) fun props => ?_
  refine closed.bind (closed.ofExcept fun f h => closed.ordinary f ?_) fun bound => closed.pure _
  unfold callbacks at h
  split at h
  · exact Callback.isOrdinary_of_ofEntries h
  · cases h

theorem malformed (event : String) (faults : List Fault) :
    Q Unit (malformed (ι := ι) (σ := σ) event faults) :=
  closed.log _ _ rfl

theorem children (each : ∀ v, Q Value (one v)) (n : Node) :
    Q (Option (List Value)) (children one n) := by
  unfold Renderer.children
  split
  · exact closed.pure none
  · exact closed.pure none
  · exact closed.map _ (closed.keyed each _ _ _)

section

variable (asking : ∀ part what, r.Asks part what → Q Value (ask part what))

include asking

theorem unregistered (type : String) : Q Value (r.unregistered ask type) := by
  refine closed.bind (closed.log _ _ rfl) fun _ => ?_
  split
  · next part fallback =>
      exact closed.bind (closed.count _) fun _ => asking _ _ (.inr ⟨type, fallback, rfl⟩)
  · exact closed.bind (closed.count _) fun _ => closed.pure _

theorem node (levels : Nat) (v : Value) : Q Value (r.node ask levels v) := by
  induction levels generalizing v with
  | zero => exact closed.throw _ (closed.ordinary _ rfl)
  | succ levels ih =>
      unfold Renderer.node
      split
      · exact closed.throw _ (closed.ordinary _ rfl)
      · exact closed.bind (closed.malformed _ _) fun _ => closed.bind (closed.count _) fun _ =>
          closed.pure _
      · split
        · exact closed.unregistered asking _
        · next e found =>
            exact closed.bind (closed.buildProps ih _ _) fun props =>
              closed.bind (closed.children ih _) fun children =>
                closed.bind (closed.count _) fun _ =>
                  asking _ _ (.inl ⟨_, e, props, children, found, rfl, rfl⟩)

end

variable (asking : ∀ part what, what.isStep = false → Q Value (ask part what))

include asking

theorem nodeAsking (levels : Nat) (v : Value) : Q Value (r.node ask levels v) :=
  closed.node (fun part what asks => asking part what asks.not_isStep) levels v

theorem sectionOf (levels : Nat) (v : Value) : Q Value (r.sectionOf ask levels v) := by
  unfold Renderer.sectionOf
  split
  · exact closed.throw _ (closed.ordinary _ rfl)
  · exact closed.bind (closed.malformed _ _) fun _ => closed.pure _
  · refine closed.bind (closed.keyed (closed.nodeAsking asking levels) _ _ _) fun items => ?_
    split
    · exact asking _ _ rfl
    · exact closed.pure _

end Drawing

namespace Closed

variable {allowed : Failure → Prop} {Q : Run.Property ι σ} (closed : Closed allowed Q)

include closed

theorem timed {α : Type} {report : Binary64 → Run ι σ Unit} {body : Run ι σ α}
    (reporting : ∀ seconds, Q Unit (report seconds)) (h : Q α body) :
    Q α (Trace.timed report body) := by
  refine closed.bind closed.now fun start => closed.recover h (fun a => ?_) fun f hf => ?_
  · exact closed.bind closed.now fun stop => closed.bind (reporting _) fun _ =>
      closed.ofExcept (by simp)
  · exact closed.bind closed.now fun stop => closed.bind (reporting _) fun _ =>
      closed.ofExcept (by simpa using hf)

theorem scope {α : Type} (name : String) {body : Run ι σ α} (h : Q α body) :
    Q α (Trace.scope name body) :=
  closed.bind (closed.measure _ rfl) fun _ => closed.timed (fun _ => closed.measure _ rfl) h

theorem traceLog (level : Log.Level) (event : String) {own fields : Dict}
    (ownFree : Log.isFree own = true) (free : Log.isFree fields = true) :
    Q Unit (Trace.log level event own fields) := by
  apply closed.log
  rw [Log.isFree_append, ownFree, Log.isFree_filter free]
  rfl

theorem logFailure (name : Value) {fields : Dict} (free : Log.isFree fields = true)
    (start : Binary64) (f : Failure) : Q Unit (Trace.logFailure name fields start f) := by
  refine closed.bind closed.now fun stop => ?_
  dsimp only
  split
  · exact closed.throw _ (closed.ordinary _ rfl)
  · exact closed.traceLog _ _ rfl free

theorem logEnd (name : Value) {fields : Dict} (free : Log.isFree fields = true)
    (start : Binary64) : Q Unit (Trace.logEnd name fields start) := by
  refine closed.bind closed.now fun stop => ?_
  dsimp only
  split
  · exact closed.throw _ (closed.ordinary _ rfl)
  · split <;> exact closed.traceLog _ _ rfl free

theorem operation {α : Type} (name : Value) {fields : Dict} (free : Log.isFree fields = true)
    {body : Run ι σ α} (h : Q α body) : Q α (Trace.operation name fields body) := by
  refine closed.bind closed.now fun start => ?_
  split
  · exact closed.throw _ (closed.ordinary _ rfl)
  · refine closed.bind (closed.traceLog _ _ rfl free) fun _ =>
      closed.recover h (fun a => ?_) fun f hf => ?_
    · exact closed.bind (closed.logEnd _ free _) fun _ => closed.pure a
    · dsimp only
      split
      · exact closed.bind (closed.logFailure _ free _ _) fun _ => closed.throw f hf
      · exact closed.throw f hf

variable {ask : Ask ι σ} {r : Renderer ι}
  (asking : ∀ part what, what.isStep = false → Q Value (ask part what))

include asking

theorem outputs (levels : Nat) (asSections : Value) (items : List Value) :
    Q (List Value) (r.outputs ask levels asSections items) := by
  unfold Renderer.outputs
  split
  · exact closed.keyed (closed.sectionOf asking levels) _ _ _
  · exact closed.keyed (closed.nodeAsking asking levels) _ _ _

theorem screenItems (levels : Nat) (v asSections : Value) :
    Q (List Value) (r.screenItems ask levels v asSections) := by
  unfold Renderer.screenItems
  split
  · exact closed.operation _ rfl (closed.outputs asking levels asSections _)
  · exact closed.throw _ (closed.ordinary _ rfl)

theorem screen (levels : Nat) (v told : Value) : Q (List Value) (r.screen ask levels v told) := by
  unfold Renderer.screen
  split
  · refine closed.bind (closed.ofExcept fun f h =>
      closed.ordinary f (isOrdinary_of_ofSections h)) fun asSections => ?_
    dsimp only
    split
    · exact closed.scope _ (closed.screenItems asking levels v asSections)
    · exact closed.screenItems asking levels v asSections
  · exact closed.pure []

theorem edge (levels : Nat) (key : String) (o : Option Node) :
    Q (List Value) (r.edge ask levels key o) := by
  cases o with
  | none => exact closed.pure []
  | some n => exact closed.bind (closed.nodeAsking asking levels _) fun _ => closed.pure _

theorem contents (levels : Nat) (s : Screen) : Q (List Value) (r.contents ask levels s) :=
  closed.bind (closed.log _ _ rfl) fun _ => closed.bind (closed.edge asking _ _ _) fun _ =>
    closed.bind (closed.screen asking _ _ _) fun _ =>
      closed.bind (closed.edge asking _ _ _) fun _ => closed.pure _

theorem fullScreen
    (screen : ∀ name {x : Run ι σ (List Value)}, Q (List Value) x →
      Q (List Value) (screenScope name x))
    (levels : Nat) (v : Value) : Q (List Value) (r.fullScreen ask levels v) := by
  rw [fullScreen_eq]
  exact closed.bind (closed.ofExcept fun f h =>
    closed.ordinary f (Failure.isOrdinary_of_ofChecked h)) fun s =>
      screen s.id (closed.contents asking levels s)

end Closed

end Renderer

end ServerUI
