import ServerUI.Proofs.Log.Context
import ServerUI.Proofs.Run.Account

/-!
Calls inside one another, as a journal tells of them. A dispatch and a full screen take an
identifier each, bind it for as long as they last, and ask the client meanwhile, which may dispatch
and render in its turn. So at any place the calls that are open form a stack, every record carries
what the innermost of them bound, and dispatches are numbered in the order in which they begin.
-/

set_option autoImplicit false

namespace ServerUI

variable {ι σ : Type}

inductive Scope where
  | dispatch (id : String)
  | screen (id name : String)

def Scope.bindings : Scope → Dict
  | dispatch id => [("dispatch_id", .str id)]
  | screen id name => [("render_id", .str id), ("screen_id", .str name)]

theorem Scope.bindings_once (s : Scope) : (Entries.keys s.bindings).Nodup := by
  cases s <;> simp [bindings, Entries.keys]

namespace Event

/-- Neither a record nor a request, and neither the beginning nor the end of anything. -/
def isQuiet : Event ι → Bool
  | measured _ | absorbed _ | timed _ => true
  | _ => false

/-- The bindings of the calls that are open after an event, the innermost first. -/
def enter (stack : List Dict) : Event ι → List Dict
  | opened bindings => bindings :: stack
  | closed => stack.tail
  | _ => stack

end Event

/-- What a piece of a journal tells of: a whole dispatch, a whole screen, what is done inside one of
them, or a program of the client. At most `nesting` calls stand inside one another. -/
inductive Tale (ι : Type) where
  | dispatch (nesting dispatcher : Nat)
  | screen (nesting : Nat) (v : Value)
  | inside (nesting : Nat)
  | program (nesting : Nat) (p : Reaction ι)

/-- What is bound somewhere, and the calls that are open there, the innermost first. -/
structure Site where
  context : Dict
  scopes : List Scope

def Site.within (site : Site) (c : Scope) : Site :=
  ⟨Log.Context.bind site.context c.bindings, c :: site.scopes⟩

def Sequence.draw (sequences : Nat → Sequence) (number : Nat) (pre : String) :
    String × (Nat → Sequence) :=
  let (id, rest) := (sequences number).generateWithPrefix pre
  (id, putAt sequences number rest)

/-- A journal of calls inside one another, between the identifiers that are left before it and those
left after it. Each call takes the next identifier of its sequence, and all of it stands between the
event that binds the identifier and the event that puts back what was there. What the client does
when it is asked stands behind the question. -/
inductive Nested (c : Client ι σ) (own : Nat → Nat) :
    Tale ι → Site → (Nat → Sequence) → List (Event ι) → (Nat → Sequence) → Prop
  | dispatch {n d : Nat} {site : Site} {s s₁ s' : Nat → Sequence} {id : String}
      {es : List (Event ι)} (drawn : Sequence.draw s (own d) Identifier.dispatchPrefix = (id, s₁))
      (inner : Nested c own (.inside n) (site.within (.dispatch id)) s₁ es s') :
      Nested c own (.dispatch (n + 1) d) site s
        (.opened (Scope.dispatch id).bindings :: es ++ [.closed]) s'
  | screen {n : Nat} {v : Value} {screen : Screen} {site : Site} {s s₁ s' : Nat → Sequence}
      {id : String} {es : List (Event ι)} (read : Screen.ofValue v = .ok screen)
      (drawn : Sequence.draw s 0 Identifier.renderPrefix = (id, s₁))
      (inner : Nested c own (.inside n) (site.within (.screen id screen.id)) s₁ es s') :
      Nested c own (.screen (n + 1) v) site s
        (.opened (Scope.screen id screen.id).bindings :: es ++ [.closed]) s'
  -- What is no screen is refused before anything is bound for it.
  | unread {n : Nat} {v : Value} {site : Site} {s : Nat → Sequence}
      (refused : ∀ screen, Screen.ofValue v ≠ .ok screen) :
      Nested c own (.screen (n + 1) v) site s [] s
  | noDispatch {d : Nat} {site : Site} {s : Nat → Sequence} :
      Nested c own (.dispatch 0 d) site s [] s
  | noScreen {v : Value} {site : Site} {s : Nat → Sequence} :
      Nested c own (.screen 0 v) site s [] s
  | nil {n : Nat} {site : Site} {s : Nat → Sequence} : Nested c own (.inside n) site s [] s
  | append {n : Nat} {site : Site} {s s' s'' : Nat → Sequence} {es es' : List (Event ι)}
      (first : Nested c own (.inside n) site s es s')
      (next : Nested c own (.inside n) site s' es' s'') :
      Nested c own (.inside n) site s (es ++ es') s''
  | quiet {n : Nat} {site : Site} {s : Nat → Sequence} {e : Event ι} (still : e.isQuiet = true) :
      Nested c own (.inside n) site s [e] s
  | logged {n : Nat} {site : Site} {s : Nat → Sequence} {record : Log.Record}
      (free : Log.isFree record.fields = true) :
      Nested c own (.inside n) site s [.logged (record.within site.context)] s
  -- The steps of a dispatch stand in the dispatch itself, however deep in its action.
  | step {n : Nat} {context : Dict} {scopes : List Scope} {id : String} {s s' : Nat → Sequence}
      {es : List (Event ι)} (path : List Nat) (i : Instruction) (why : Option Failure)
      (inner : Nested c own (.inside n) ⟨context, .dispatch id :: scopes⟩ s es s') :
      Nested c own (.inside n) ⟨context, .dispatch id :: scopes⟩ s
        (.began path i :: es ++ [.ended path why]) s'
  | asked {n : Nat} {site : Site} {s s' : Nat → Sequence} {es : List (Event ι)} (part : ι)
      (what : Request) (state : σ) (why : Option Failure)
      (answer : Nested c own (.program n (c.respond part what state).1) site s es s') :
      Nested c own (.inside n) site s
        (.asked part what site.context :: es ++ (why.map (Event.refused part what)).toList) s'
  | finish {n : Nat} {v : Value} {site : Site} {s : Nat → Sequence} :
      Nested c own (.program n (.finish v)) site s [] s
  | fail {n : Nat} {f : Failure} {site : Site} {s : Nat → Sequence} :
      Nested c own (.program n (.fail f)) site s [] s
  | edit {n d : Nat} {change : Handlers ι → Handlers ι} {next : Reaction ι} {site : Site}
      {s s' : Nat → Sequence} {es : List (Event ι)}
      (later : Nested c own (.program n next) site s es s') :
      Nested c own (.program n (.edit d change next)) site s es s'
  | dispatches {n d : Nat} {v : Value} {next : Except Failure Value → Reaction ι} {site : Site}
      {s s' s'' : Nat → Sequence} {es es' : List (Event ι)} (r : Except Failure Value)
      (call : Nested c own (.dispatch n d) site s es s')
      (later : Nested c own (.program n (next r)) site s' es' s'') :
      Nested c own (.program n (.dispatch d v next)) site s (es ++ es') s''
  | renders {n : Nat} {r : Renderer ι} {v : Value} {next : Except Failure Value → Reaction ι}
      {site : Site} {s s' s'' : Nat → Sequence} {es es' : List (Event ι)}
      (outcome : Except Failure Value) (call : Nested c own (.screen n v) site s es s')
      (later : Nested c own (.program n (next outcome)) site s' es' s'') :
      Nested c own (.program n (.renderScreen r v next)) site s (es ++ es') s''

/-- What a name stands for where calls are open: what the innermost of them bound it to that bound
it, or else what it stood for outside. -/
def bound (outside : Dict) (stack : List Dict) (name : String) : Option Value :=
  (stack.findSome? fun bindings => Entries.find? bindings name).or (Entries.find? outside name)

def Carries (outside : Dict) (stack : List Dict) (fields : Dict) : Prop :=
  ∀ name ∈ Log.scopeNames, Entries.find? fields name = bound outside stack name

/-- Every record carries what the calls have bound that are open where it stands. -/
def Recorded (outside : Dict) (stack : List Dict) (es : List (Event ι)) : Prop :=
  ∀ before record after, es = before ++ .logged record :: after →
    Carries outside (before.foldl Event.enter stack) record.fields

theorem Carries.bind {outside context : Dict} {stack : List Dict} (c : Scope)
    (carries : Carries outside stack context) :
    Carries outside (c.bindings :: stack) (Log.Context.bind context c.bindings) := by
  intro name listed
  have outer : Entries.find? context name = bound outside stack name := carries name listed
  rw [Log.Context.bind, Entries.find?_merge c.bindings_once, outer, bound, bound,
    List.findSome?_cons]
  cases Entries.find? c.bindings name <;> rfl

theorem Carries.within {outside context : Dict} {stack : List Dict} {record : Log.Record}
    (carries : Carries outside stack context) (free : Log.isFree record.fields = true) :
    Carries outside stack (record.within context).fields := by
  intro name listed
  have fresh : name ∉ Entries.keys record.fields := by
    intro member
    obtain ⟨field, inside, rfl⟩ := List.mem_map.mp member
    have apart := List.all_eq_true.mp free field inside
    simp [listed] at apart
  exact (Entries.find?_merge_of_not_mem fresh).trans (carries name listed)

namespace Recorded

variable {outside : Dict} {stack : List Dict} {es es' : List (Event ι)}

theorem nil : Recorded (ι := ι) outside stack [] := by
  intro before record after same
  cases before <;> cases same

theorem single {e : Event ι} (unlogged : ∀ record, e ≠ .logged record) :
    Recorded outside stack [e] := by
  intro before record after same
  cases before with
  | nil =>
    cases same
    exact absurd rfl (unlogged record)
  | cons first before => cases before <;> cases same

theorem logged {record : Log.Record} (carries : Carries outside stack record.fields) :
    Recorded (ι := ι) outside stack [.logged record] := by
  intro before record' after same
  cases before with
  | nil =>
    cases same
    exact carries
  | cons first before => cases before <;> cases same

theorem append (first : Recorded outside stack es)
    (next : Recorded outside (es.foldl Event.enter stack) es') :
    Recorded outside stack (es ++ es') := by
  intro before record after same
  rcases append_eq_append_cons same with ⟨middle, rfl, place⟩ | ⟨rest, place, -⟩
  · rw [List.foldl_append]
    exact next middle record after place
  · exact first before record rest place

theorem between {e e' : Event ι} (inner : Recorded outside (Event.enter stack e) es)
    (before : ∀ record, e ≠ .logged record) (after : ∀ record, e' ≠ .logged record) :
    Recorded outside stack (e :: es ++ [e']) := by
  have opening : Recorded outside stack [e] := single before
  exact (opening.append inner).append (single after)

end Recorded

namespace Nested

variable {c : Client ι σ} {own : Nat → Nat} {tale : Tale ι} {site : Site} {s s' : Nat → Sequence}
  {es : List (Event ι)}

/-- Whatever is opened is closed again. -/
theorem balanced (nested : Nested c own tale site s es s') (stack : List Dict) :
    es.foldl Event.enter stack = stack := by
  induction nested generalizing stack with
  | nil | unread | noDispatch | noScreen | finish | fail | logged => rfl
  | edit _ later => exact later stack
  | append _ _ first next | dispatches _ _ _ first next | renders _ _ _ first next =>
    rw [List.foldl_append, first, next]
  | @quiet _ _ _ e still => cases e <;> first | rfl | cases still
  | dispatch _ _ inner | screen _ _ _ inner | step _ _ _ _ inner =>
    rw [List.cons_append, List.foldl_cons, List.foldl_append, inner]
    rfl
  | asked part what _ why _ answer =>
    rw [List.cons_append, List.foldl_cons, List.foldl_append, answer]
    cases why <;> rfl

theorem recorded {outside : Dict} (nested : Nested c own tale site s es s')
    (carries : Carries outside (site.scopes.map Scope.bindings) site.context) :
    Recorded outside (site.scopes.map Scope.bindings) es := by
  induction nested with
  | nil | unread | noDispatch | noScreen | finish | fail => exact .nil
  | edit _ later => exact later carries
  | append earlier _ first next | dispatches _ earlier _ first next
  | renders _ earlier _ first next =>
    apply (first carries).append
    rw [earlier.balanced]
    exact next carries
  | @quiet _ _ _ e still => exact .single fun record same => by simp [same, Event.isQuiet] at still
  | logged free => exact .logged (carries.within free)
  | step path i why _ inner => exact (inner carries).between nofun nofun
  | dispatch _ _ inner | screen _ _ _ inner => exact (inner (carries.bind _)).between nofun nofun
  | @asked _ site _ _ _ part what _ why _ answer =>
    have question : Recorded outside (site.scopes.map Scope.bindings)
      [.asked part what site.context] := .single nofun
    apply (question.append (answer carries)).append
    cases why with
    | none => exact .nil
    | some f => exact .single nofun

end Nested

/-- The identifiers of the dispatches that begin, in order. -/
def dispatchIds (es : List (Event ι)) : List String :=
  es.filterMap fun
    | .opened bindings =>
        match Entries.find? bindings "dispatch_id" with
        | some (.str id) => some id
        | _ => none
    | _ => none

@[simp] theorem dispatchIds_append (es es' : List (Event ι)) :
    dispatchIds (es ++ es') = dispatchIds es ++ dispatchIds es' :=
  List.filterMap_append

namespace Sequence

def dispatchId (s : Sequence) (k : Nat) : String :=
  Identifier.withPrefix Identifier.dispatchPrefix (toString (s.next + k))

variable {s s' : Nat → Sequence} {number : Nat} {pre id : String}

theorem draw_other (drawn : draw s number pre = (id, s')) {other : Nat} (apart : other ≠ number) :
    s' other = s other := by
  cases drawn
  exact putAt_of_ne _ _ apart

end Sequence

/-- The dispatches that begin take the next identifiers of a sequence, one after another. -/
structure Numbered (before : Sequence) (es : List (Event ι)) (after : Sequence) : Prop where
  next : after.next = before.next + (dispatchIds es).length
  ids (k : Nat) (id : String) (there : (dispatchIds es)[k]? = some id) : id = before.dispatchId k

namespace Numbered

variable {s s' s'' : Sequence} {es es' : List (Event ι)}

theorem none (nothing : dispatchIds es = []) : Numbered s es s := by
  constructor <;> simp [nothing]

theorem append (first : Numbered s es s') (next : Numbered s' es' s'') :
    Numbered s (es ++ es') s'' := by
  constructor
  · rw [next.next, first.next, dispatchIds_append, List.length_append]
    omega
  · intro k id there
    rw [dispatchIds_append, List.getElem?_append] at there
    split at there
    · exact first.ids k id there
    · next behind =>
      rw [next.ids _ id there, Sequence.dispatchId, Sequence.dispatchId, first.next]
      congr 2
      omega

theorem drawn {s s' : Nat → Sequence} {number : Nat} {id : String}
    (drawn : Sequence.draw s number Identifier.dispatchPrefix = (id, s')) :
    Numbered (s number) [(.opened (Scope.dispatch id).bindings : Event ι)] (s' number) := by
  cases drawn
  rw [putAt_self]
  constructor
  next => rfl
  next =>
    intro k id there
    cases k with
    | zero =>
      obtain rfl : _ = id := Option.some.inj there
      simp [Sequence.dispatchId]
    | succ k => cases there

end Numbered

/-- Dispatchers that share a sequence of their own take all its identifiers. -/
theorem Nested.numbered {c : Client ι σ} {own : Nat → Nat} {tale : Tale ι} {site : Site}
    {s s' : Nat → Sequence} {es : List (Event ι)} (nested : Nested c own tale site s es s')
    {number : Nat} (apart : number ≠ 0) (shared : ∀ d, own d = number) :
    Numbered (s number) es (s' number) := by
  induction nested with
  | nil | unread | noDispatch | noScreen | finish | fail | logged => exact .none rfl
  | edit _ later => exact later
  | append _ _ first next | dispatches _ _ _ first next | renders _ _ _ first next =>
    exact first.append next
  | @quiet _ _ _ e still =>
    apply Numbered.none
    cases e <;> first | rfl | cases still
  | @dispatch _ d _ _ _ _ _ _ drawn _ inner =>
    rw [shared d] at drawn
    exact ((Numbered.drawn drawn).append inner).append (.none rfl)
  | @screen _ _ screen _ s s₁ _ id _ _ drawn _ inner =>
    rw [← Sequence.draw_other drawn apart]
    have opened : Numbered (s₁ number) [(.opened (Scope.screen id screen.id).bindings : Event ι)]
      (s₁ number) := .none rfl
    exact (opened.append inner).append (.none rfl)
  | @step _ _ _ _ s _ _ path i why _ inner =>
    have began : Numbered (s number) [(.began path i : Event ι)] (s number) := .none rfl
    exact (began.append inner).append (.none rfl)
  | @asked _ site s _ _ part what _ why _ answer =>
    have question : Numbered (s number) [.asked part what site.context] (s number) := .none rfl
    apply (question.append answer).append
    cases why <;> exact .none rfl

end ServerUI
