import ServerUI.Proofs.Run.Asking

/-!
Runs only add to the journal. What is said of the events that a run adds, together with how it
fails, is said of every run that is put together from others, as soon as it carries over from the
pieces of a list of events to the whole. It may also be said only of worlds whose dispatchers are of
a kind that runs keep.
-/

set_option autoImplicit false

namespace ServerUI

variable {ι σ : Type}

namespace Event

def isAbsorbed : Event ι → Bool
  | absorbed _ => true
  | _ => false

/-- What is written down by the engine itself whenever it draws or dispatches. -/
def isPlain : Event ι → Bool
  | logged _ | opened _ | closed => true
  | measured m => m.isDrawing
  | _ => false

end Event

-- An event of two lists on end is in the second or in the first.
theorem append_eq_append_cons {es es' before after : List (Event ι)} {e : Event ι}
    (same : es ++ es' = before ++ e :: after) :
    (∃ middle, before = es ++ middle ∧ es' = middle ++ e :: after) ∨
      ∃ rest, es = before ++ e :: rest ∧ after = rest ++ es' := by
  rcases List.append_eq_append_iff.mp same with ⟨middle, rfl, rest⟩ | ⟨middle, rfl, rest⟩
  · exact .inl ⟨middle, rfl, rest⟩
  · cases middle with
    | nil => exact .inl ⟨[], by simp, by simpa using rest.symm⟩
    | cons head middle =>
        simp only [List.cons_append, List.cons.injEq] at rest
        obtain ⟨rfl, rfl⟩ := rest
        exact .inr ⟨middle, rfl, rfl⟩

/-- What may be said of how a run fails, if it does, and of the events that it adds. -/
abbrev Account (ι : Type) := Option Failure → List (Event ι) → Prop

namespace Account

structure Plain (S : Account ι) : Prop where
  nil : S none []
  event {e : Event ι} (h : e.isPlain = true) : S none [e]
  append {es es' : List (Event ι)} {o : Option Failure} (first : S none es) (next : S o es') :
    S o (es ++ es')

structure Closed (S : Account ι) : Prop where
  nil : S none []
  event {e : Event ι} (h : e.isAbsorbed = false) : S none [e]
  append {es es' : List (Event ι)} {o : Option Failure} (first : S none es) (next : S o es') :
    S o (es ++ es')

/-- A failure is said to leave steps, and may be absorbed. -/
structure Dispatching (S : Account ι) : Prop extends Closed S where
  ended {f : Failure} {es : List (Event ι)} (path : List Nat) (h : S (some f) es) :
    S (some f) (es ++ [.ended path (some f)])
  absorbed {f : Failure} {es : List (Event ι)} (h : S (some f) es) : S none (es ++ [.absorbed f])

/-- Nothing but `allowed` is said of a failure, so that it may be raised and recovered from. -/
structure Drawing (allowed : Failure → Prop) (S : Account ι) : Prop extends Plain S where
  failed (f : Failure) (es : List (Event ι)) : S (some f) es ↔ S none es ∧ allowed f

structure Rendering (allowed : Failure → Prop) (S : Account ι) : Prop extends Closed S where
  failed (f : Failure) (es : List (Event ι)) : S (some f) es ↔ S none es ∧ allowed f

theorem Closed.toPlain {S : Account ι} (closed : Closed S) : Plain S where
  nil := closed.nil
  event {e} h := closed.event (by cases e <;> simp_all [Event.isPlain, Event.isAbsorbed])
  append := closed.append

theorem Rendering.toDrawing {allowed : Failure → Prop} {S : Account ι}
    (closed : Rendering allowed S) : Drawing allowed S where
  toPlain := closed.toClosed.toPlain
  failed := closed.failed

theorem Drawing.finish {allowed : Failure → Prop} {S : Account ι} (closed : Drawing allowed S)
    (o : Option Failure) (es : List (Event ι)) (h : S o es) : S o (es ++ [.closed]) := by
  cases o with
  | none => exact closed.append h (closed.event rfl)
  | some f =>
      rw [closed.failed] at h ⊢
      exact ⟨closed.append h.1 (closed.event rfl), h.2⟩

end Account

/-- From worlds with dispatchers as in `keep` the run leaves dispatchers as in `keep`, and it fails
and adds events as in `S`. -/
def Run.Writes (keep : (Nat → Dispatcher ι) → Prop) (S : Account ι) : Run.Property ι σ := fun _ x =>
  ∀ w, keep w.dispatchers → keep (Run.exec x w).2.dispatchers ∧
    ∃ es, (Run.exec x w).2.journal = w.journal ++ es ∧ S (Run.failure? (Run.exec x w).1) es

namespace Run.Writes

variable {keep : (Nat → Dispatcher ι) → Prop} {S T U : Account ι} {α β : Type}

theorem mono (imp : ∀ o es, S o es → T o es) {x : Run ι σ α} (h : Writes keep S α x) :
    Writes keep T α x := by
  intro w kept
  obtain ⟨kept, es, added, said⟩ := h w kept
  exact ⟨kept, es, added, imp _ _ said⟩

theorem of_still {x : Run ι σ α} (nil : S none [])
    (still : ∀ w, keep w.dispatchers → ∃ a w', Run.exec x w = (.ok a, w') ∧
      w'.journal = w.journal ∧ keep w'.dispatchers) :
    Writes keep S α x := by
  intro w kept
  obtain ⟨a, w', ran, same, kept⟩ := still w kept
  exact ⟨by simpa [ran] using kept, [], by simp [ran, same], by simpa [ran] using nil⟩

theorem of_after {x : Run ι σ α}
    (after : ∀ w, keep w.dispatchers → ∃ a es, Run.exec x w = (.ok a, w.after es) ∧ S none es) :
    Writes keep S α x := by
  intro w kept
  obtain ⟨a, es, ran, said⟩ := after w kept
  exact ⟨by simpa [ran] using kept, es, by simp [ran], by simpa [ran] using said⟩

theorem throw {f : Failure} (h : S (some f) []) : Writes (σ := σ) keep S α (throw f) :=
  fun _ kept => ⟨kept, [], by simp, h⟩

/-- What is said of a run by itself and of the run that goes on from it, put together. -/
theorem next {x : Run ι σ α} {f : α → Run ι σ β} (first : Writes keep S α x)
    (later : ∀ a, Writes keep T β (f a)) (stopped : ∀ g es, S (some g) es → U (some g) es)
    (both : ∀ o es es', S none es → T o es' → U o (es ++ es')) : Writes keep U β (x >>= f) := by
  intro w kept
  obtain ⟨kept, es, added, said⟩ := first w kept
  rw [Run.exec_bind]
  cases ran : Run.exec x w with
  | mk r w' =>
      simp only [ran] at kept added said
      cases r with
      | error g => exact ⟨kept, es, added, stopped g es said⟩
      | ok a =>
          obtain ⟨kept, es', added', said'⟩ := later a w' kept
          exact ⟨kept, es ++ es', by simp [added', added], both _ es es' said said'⟩

theorem bind (append : ∀ {o es es'}, S none es → S o es' → S o (es ++ es')) {x : Run ι σ α}
    {f : α → Run ι σ β} (first : Writes keep S α x) (later : ∀ a, Writes keep S β (f a)) :
    Writes keep S β (x >>= f) :=
  next first later (fun _ _ said => said) fun _ _ _ => append

theorem log (event : ∀ record, S none [.logged record]) (level : Log.Level) (name : String)
    (fields : Dict) : Writes (σ := σ) keep S Unit (Run.log level name fields) :=
  of_after fun w _ => ⟨(), _, Run.exec_log level name fields w, event _⟩

theorem toRuns (plain : Account.Plain S) : Run.Closed (Writes (σ := σ) keep S) where
  pure a := of_still plain.nil fun w kept => ⟨a, w, rfl, rfl, kept⟩
  bind := bind plain.append
  log level name _ _ := log (fun _ => plain.event rfl) level name _

theorem within (plain : Account.Plain S) (finish : ∀ o es, S o es → S o (es ++ [.closed]))
    (bindings : Dict) {x : Run ι σ α} (h : Writes keep S α x) :
    Writes keep S α (Run.within bindings x) := by
  intro w kept
  rw [Run.exec_within]
  let inside : World ι σ := { w with context := Log.Context.bind w.context bindings }
  obtain ⟨kept, es, added, said⟩ := h (inside.after [.opened bindings]) kept
  exact ⟨kept, [.opened bindings] ++ (es ++ [.closed]), by simp [added, inside],
    plain.append (plain.event rfl) (finish _ _ said)⟩

theorem recover {allowed : Failure → Prop} (closed : Account.Drawing allowed S) {x : Run ι σ α}
    {g : Except Failure α → Run ι σ β} (first : Writes keep S α x)
    (success : ∀ a, Writes keep S β (g (.ok a)))
    (failure : ∀ f, allowed f → Writes keep S β (g (.error f))) :
    Writes keep S β (Run.attempt x >>= g) := by
  intro w kept
  obtain ⟨kept, es, added, said⟩ := first w kept
  simp only [Run.exec_bind, Run.exec_attempt]
  cases ran : Run.exec x w with
  | mk r w' =>
      simp only [ran] at kept added said
      cases r with
      | ok a =>
          obtain ⟨kept, es', added', said'⟩ := success a w' kept
          exact ⟨kept, es ++ es', by simp [added', added], closed.append said said'⟩
      | error f =>
          obtain ⟨before, ok⟩ := (closed.failed f es).mp said
          obtain ⟨kept, es', added', said'⟩ := failure f ok w' kept
          exact ⟨kept, es ++ es', by simp [added', added], closed.append before said'⟩

theorem toEngine {p : Policy ι} (closed : Account.Drawing p.fail S)
    (ordinary : ∀ f : Failure, f.isOrdinary = true → p.fail f)
    (keeps : ∀ number change ds, p.edit change → keep ds →
      keep (putAt ds number ((ds number).edit change))) :
    Engine.Closed p (Writes (σ := σ) keep S) where
  toRuns := toRuns closed.toPlain
  measure metered m drawing := of_after fun w _ =>
    ⟨(), _, Run.exec_measure metered m w, by
      cases metered
      · exact closed.nil
      · exact closed.event drawing⟩
  ordinary := ordinary
  throw f h := throw ((closed.failed f []).mpr ⟨closed.nil, h⟩)
  recover := recover closed
  now := of_still closed.nil fun w kept => ⟨_, _, Run.exec_now w, rfl, kept⟩
  screen name _ h := by
    have drawn : Writes (σ := σ) keep S String (Run.newId 0 Identifier.renderPrefix) :=
      of_still closed.nil fun w kept => ⟨_, _, Run.exec_newId _ _ w, rfl, kept⟩
    exact bind closed.append drawn fun id => within closed.toPlain closed.finish _ h
  edit number change h := of_still closed.nil fun w kept =>
    ⟨_, _, Run.exec_edit number change w, rfl, keeps number change _ h kept⟩

end Run.Writes

/-- Between the events that its identifier is bound and put back, a dispatch writes down what its
step does. -/
theorem Dispatch.run_writes {keep : (Nat → Dispatcher ι) → Prop} {S : Account ι} {ask : Ask ι σ}
    {dispatcher : Nat} {v : Value} (h : Run.Writes keep S Value (perform ask dispatcher [] v)) :
    Run.Writes keep (fun o es => ∃ id inner, S o inner ∧
      es = .opened [("dispatch_id", .str id)] :: inner ++ [.closed]) Value
      (run ask dispatcher v) := by
  intro w kept
  obtain ⟨id, w₀, -, same, opened, result, -, left, closed⟩ := exec_run ask dispatcher v w
  obtain ⟨kept, es, added, said⟩ := h w₀ (same ▸ kept)
  exact ⟨left ▸ kept, _, by simp [closed, added, opened], id, es, result ▸ said, rfl⟩

theorem Dispatch.run_drawing {allowed : Failure → Prop} {keep : (Nat → Dispatcher ι) → Prop}
    {S : Account ι} (closed : Account.Drawing allowed S) {ask : Ask ι σ} {dispatcher : Nat}
    {v : Value} (h : Run.Writes keep S Value (perform ask dispatcher [] v)) :
    Run.Writes keep S Value (run ask dispatcher v) := by
  apply (run_writes h).mono
  rintro o _ ⟨id, inner, said, rfl⟩
  rw [List.cons_append, ← List.singleton_append]
  exact closed.append (closed.event rfl) (closed.finish o inner said)

/-- A part is asked and does as in `S`; if it fails, that is written down last. -/
def Account.asked (S : Account ι) (part : ι) (what : Request) : Account ι := fun o es =>
  ∃ context between, S o between ∧
    es = .asked part what context :: between ++ (o.map (Event.refused part what)).toList

theorem Client.request_writes {keep : (Nat → Dispatcher ι) → Prop} {S : Account ι} {c : Client ι σ}
    {dispatch : Nat → Value → Run ι σ Value} {renderScreen : Renderer ι → Value → Run ι σ Value}
    {part : ι} {what : Request}
    (reacting : ∀ state, Run.Writes keep S Value
      ((c.respond part what state).1.carryOut dispatch renderScreen)) :
    Run.Writes keep (S.asked part what) Value (c.request dispatch renderScreen part what) := by
  intro w kept
  rw [exec_request]
  cases responded : c.respond part what w.client with
  | mk reaction state =>
      have reacting := reacting w.client
      rw [responded] at reacting
      let asked : World ι σ := { w with client := state }
      obtain ⟨kept, es, added, said⟩ := reacting (asked.after [.asked part what w.context]) kept
      dsimp only
      cases ran : Run.exec (reaction.carryOut dispatch renderScreen)
          (asked.after [.asked part what w.context]) with
      | mk r w' =>
          simp only [ran] at kept added said
          cases r with
          | ok v => exact ⟨kept, _, by simp [added, asked], w.context, es, said, rfl⟩
          | error f => exact ⟨kept, _, by simp [added, asked], w.context, es, said, rfl⟩

/-- What is said of the reactions of a client is said of it between being asked and failing, as soon
as that holds of a dispatch whose parts are asked so. -/
theorem Engine.Closed.ask_writes {p : Policy ι} {keep : (Nat → Dispatcher ι) → Prop} {S : Account ι}
    (closed : Engine.Closed p (Run.Writes (σ := σ) keep S)) {c : Client ι σ} (obeys : c.Obeys p)
    (drawing : ∀ part what, what.isStep = false → ∀ o es, S.asked part what o es → S o es)
    (run : ∀ ask : Ask ι σ,
      (∀ part what, Run.Writes keep (S.asked part what) Value (ask part what)) →
      ∀ d v, p.dispatch v → Run.Writes keep S Value (Dispatch.run ask d v))
    (levels nesting : Nat) (part : ι) (what : Request) :
    Run.Writes keep (S.asked part what) Value (c.ask levels nesting part what) :=
  closed.ask obeys (A := fun part what x => Run.Writes keep (S.asked part what) Value x)
    (fun part what _ still h => h.mono (drawing part what still))
    (fun _ _ _ _ => Client.request_writes) run levels nesting part what

def Run.Adds (S : Account ι) : Run.Property ι σ := fun _ x =>
  ∀ w, ∃ es, (Run.exec x w).2.journal = w.journal ++ es ∧ S (Run.failure? (Run.exec x w).1) es

theorem Run.adds_eq (S : Account ι) : (Run.Adds (σ := σ) S) = Run.Writes (fun _ => True) S := by
  funext α x
  simp [Run.Adds, Run.Writes]

namespace Run.Adds

variable {S T : Account ι} {α β : Type}

theorem mono (imp : ∀ o es, S o es → T o es) {x : Run ι σ α} (h : Adds S α x) : Adds T α x := by
  rw [adds_eq] at h ⊢
  exact h.mono imp

theorem toRuns (closed : Account.Closed S) : Run.Closed (Adds (σ := σ) S) := by
  rw [adds_eq]
  exact Writes.toRuns closed.toPlain

theorem announced (closed : Account.Dispatching S) {path : List Nat} {i : Instruction}
    {x : Run ι σ Value} (h : Adds S Value x) : Adds S Value (Dispatch.announced path i x) := by
  intro w
  obtain ⟨es, added, said⟩ := h (w.after [.began path i])
  rw [Dispatch.exec_announced]
  cases ran : Run.exec x (w.after [.began path i]) with
  | mk r w' =>
      simp only [ran] at added said
      refine ⟨[.began path i] ++ (es ++ [.ended path (failure? r)]), by simp [added],
        closed.append (closed.event rfl) ?_⟩
      cases r with
      | ok v => exact closed.append said (closed.event rfl)
      | error f => exact closed.ended path said

theorem containing (closed : Account.Dispatching S) {work onSuccess : Run ι σ Unit}
    {onFailure : Failure → Run ι σ Unit} (inner : Adds S Unit work)
    (success : Adds S Unit onSuccess) (failure : ∀ f, Adds S Unit (onFailure f)) :
    Adds S Unit (Dispatch.containing work onSuccess onFailure) := by
  intro w
  obtain ⟨es, added, said⟩ := inner w
  rw [Dispatch.exec_containing]
  cases ran : Run.exec work w with
  | mk r w' =>
      simp only [ran] at added said
      cases r with
      | ok _ =>
          obtain ⟨es', added', said'⟩ := success w'
          exact ⟨es ++ es', by simp [added', added], closed.append said said'⟩
      | error f =>
          by_cases ordinary : f.isOrdinary
          -- The failure is said of the events up to its absorption, and of nothing behind it.
          · obtain ⟨es', added', said'⟩ := failure f (w'.after [.absorbed f])
            refine ⟨es ++ [.absorbed f] ++ es', ?_, ?_⟩
            · simp only [ordinary, if_true, added']
              simp [added]
            · simpa [ordinary] using closed.append (closed.absorbed said) said'
          · exact ⟨es, by simp [ordinary, added], by simpa [ordinary] using said⟩

theorem toDispatch (closed : Account.Dispatching S) : Dispatch.Closed (Adds (σ := σ) S) where
  toRuns := toRuns closed.toClosed
  measure metered m w := by
    cases metered with
    | false => exact ⟨[], by simp, closed.nil⟩
    | true => exact ⟨[.measured m], by simp, closed.event rfl⟩
  dispatcher _ _ := ⟨[], by simp, closed.nil⟩
  announced := announced closed
  containing := containing closed

end Run.Adds

theorem Account.Rendering.toEngine {p : Policy ι} {S : Account ι} (closed : Rendering p.fail S)
    (ordinary : ∀ f : Failure, f.isOrdinary = true → p.fail f) :
    Engine.Closed p (Run.Adds (σ := σ) S) := by
  rw [Run.adds_eq]
  exact Run.Writes.toEngine closed.toDrawing ordinary fun _ _ _ _ _ => trivial

namespace Account

def any : Account ι := fun _ _ => True

theorem any_rendering : Rendering (fun _ => True) (any : Account ι) where
  nil := trivial
  event _ := trivial
  append _ _ := trivial
  failed _ _ := by simp [any]

theorem any_dispatching : Dispatching (any : Account ι) where
  toClosed := any_rendering.toClosed
  ended _ _ := trivial
  absorbed _ := trivial

end Account

/-- Whoever is asked for something, that is written down first. -/
theorem Engine.ask_adds (e : Engine ι σ) (part : ι) (what : Request) :
    Run.Adds (Account.any.asked part what) Value (e.ask part what) := by
  have closed : Engine.Closed ({} : Policy ι) (Run.Adds (σ := σ) Account.any) :=
    Account.any_rendering.toEngine fun _ _ => trivial
  have reading := Run.Adds.toDispatch (σ := σ) (Account.any_dispatching (ι := ι))
  rw [Run.adds_eq] at closed reading ⊢
  refine closed.ask_writes e.client.obeys_free (fun _ _ _ _ _ _ => trivial) ?_ _ _ part what
  intro ask asking d v _
  refine Dispatch.run_drawing Account.any_rendering.toDrawing
    (reading.perform ?_ (fun _ => True) ?_ ?_ [] v trivial)
  · exact fun part what _ => (asking part what).mono fun _ _ _ => trivial
  · exact fun _ _ _ _ => .throw trivial
  · exact fun _ _ _ _ _ _ => trivial

end ServerUI
