import ServerUI.Engine
import ServerUI.Proofs.Action.Everywhere
import ServerUI.Proofs.Dispatch.Effects

/-!
Relations between runs that are kept when runs are put together, and properties that are. A dispatch
puts together runs that ask parts of the client, so what is kept holds of it as soon as it holds of
asking.
-/

set_option autoImplicit false

namespace ServerUI

variable {ι σ : Type}

/-- The names that dispatches and full screens bind. -/
def Log.scopeNames : List String := ["dispatch_id", "render_id", "screen_id"]

/-- The fields of a record leave these names to what is bound. -/
def Log.isFree (fields : Dict) : Bool := fields.all fun field => !scopeNames.contains field.1

theorem Log.isFree_append (fields more : Dict) :
    isFree (fields ++ more) = (isFree fields && isFree more) :=
  List.all_append

theorem Log.isFree_filter {fields : Dict} (free : isFree fields = true)
    (kept : String × Value → Bool) : isFree (fields.filter kept) = true := by
  rw [isFree, List.all_eq_true] at free ⊢
  intro field member
  exact free field (List.mem_filter.mp member).1

abbrev Run.Relation (ι σ : Type) : Type 1 := (α : Type) → Run ι σ α → Run ι σ α → Prop

abbrev Run.Property (ι σ : Type) : Type 1 := (α : Type) → Run ι σ α → Prop

/-- What every run of the engine is put together from. -/
structure Run.Closed (Q : Run.Property ι σ) : Prop where
  pure {α : Type} (a : α) : Q α (pure a)
  bind {α β : Type} {x : Run ι σ α} {f : α → Run ι σ β} (first : Q α x) (next : ∀ a, Q β (f a)) :
    Q β (x >>= f)
  log (level : Log.Level) (event : String) {fields : Dict} (free : Log.isFree fields = true) :
    Q Unit (Run.log level event fields)

theorem Run.Closed.map {Q : Run.Property ι σ} (closed : Run.Closed Q) {α β : Type}
    {x : Run ι σ α} (f : α → β) (h : Q α x) : Q β (f <$> x) := by
  rw [map_eq_pure_bind]
  exact closed.bind h fun a => closed.pure (f a)

namespace Dispatch

structure Closed (Q : Run.Property ι σ) : Prop extends toRuns : Run.Closed Q where
  measure (metered : Bool) (m : Measurement) : Q Unit (Run.measure metered m)
  dispatcher (number : Nat) : Q (Dispatcher ι) (Run.dispatcher number)
  announced {path : List Nat} {i : Instruction} {x : Run ι σ Value} (h : Q Value x) :
    Q Value (announced path i x)
  containing {work onSuccess : Run ι σ Unit} {onFailure : Failure → Run ι σ Unit}
    (inner : Q Unit work) (success : Q Unit onSuccess) (failure : ∀ f, Q Unit (onFailure f)) :
    Q Unit (containing work onSuccess onFailure)

/-- Dispatches may also be compared that go on at different places of an action; which ones is said
by `place`. -/
structure Congruent (place : List Nat → List Nat → Prop) (R : Run.Relation ι σ) : Prop where
  pure {α : Type} (a : α) : R α (pure a) (pure a)
  bind {α β : Type} {x y : Run ι σ α} {f g : α → Run ι σ β} (first : R α x y)
    (next : ∀ a, R β (f a) (g a)) : R β (x >>= f) (y >>= g)
  log (level : Log.Level) (event : String) {fields : Dict} (free : Log.isFree fields = true) :
    R Unit (Run.log level event fields) (Run.log level event fields)
  measure (metered : Bool) (m : Measurement) :
    R Unit (Run.measure metered m) (Run.measure metered m)
  dispatcher (number : Nat) : R (Dispatcher ι) (Run.dispatcher number) (Run.dispatcher number)
  announced {path path' : List Nat} {i : Instruction} {x y : Run ι σ Value}
    (here : place path path') (h : R Value x y) : R Value (announced path i x) (announced path' i y)
  containing {work work' onSuccess onSuccess' : Run ι σ Unit}
    {onFailure onFailure' : Failure → Run ι σ Unit} (inner : R Unit work work')
    (success : R Unit onSuccess onSuccess')
    (failure : ∀ f, R Unit (onFailure f) (onFailure' f)) :
    R Unit (containing work onSuccess onFailure) (containing work' onSuccess' onFailure')
  inside {path path' : List Nat} (n : Nat) (here : place path path') :
    place (path ++ [n]) (path' ++ [n])
  member {path path' : List Nat} {n n' : Nat} (tag : Value)
    (here : place (path ++ [n]) (path' ++ [n'])) :
    R Unit (Run.log .debug "sequence_step" [("index", .int n), ("action_type", tag)])
      (Run.log .debug "sequence_step" [("index", .int n'), ("action_type", tag)])
  next {path path' : List Nat} {n n' : Nat} (here : place (path ++ [n]) (path' ++ [n'])) :
    place (path ++ [n + 1]) (path' ++ [n' + 1])

namespace Congruent

variable {place : List Nat → List Nat → Prop} {R : Run.Relation ι σ} (congruent : Congruent place R)
  {ask : Ask ι σ} {dispatcher : Nat}

include congruent

theorem handlers : R (Handlers ι) (handlers dispatcher) (handlers dispatcher) :=
  congruent.bind (congruent.dispatcher dispatcher) fun own => congruent.pure own.handlers

theorem count (tag : String) (o : Outcome) :
    R Unit (count dispatcher tag o) (count dispatcher tag o) :=
  congruent.bind (congruent.dispatcher dispatcher) fun _ => congruent.measure _ _

theorem countFailure : R Unit (countFailure dispatcher) (countFailure dispatcher) :=
  congruent.bind (congruent.dispatcher dispatcher) fun _ => congruent.measure _ _

theorem runUnknown (tag : Value) : R Unit (runUnknown dispatcher tag) (runUnknown dispatcher tag) :=
  congruent.bind (congruent.log _ _ rfl) fun _ => congruent.count _ _

variable (asking : ∀ part what, what.isStep → R Value (ask part what) (ask part what))

include asking

theorem runEffect (e : Effect) :
    R Unit (runEffect ask dispatcher e) (runEffect ask dispatcher e) := by
  rw [runEffect_eq]
  refine congruent.bind congruent.handlers fun h => ?_
  cases h.effects e.kind with
  | none => exact congruent.bind (congruent.log _ _ rfl) fun _ => congruent.count _ _
  | some part => exact congruent.bind (asking _ _ rfl) fun _ => congruent.count _ _

theorem callApi (endpoint : String) (method : Option RequestMethod) (body : Option Dict) :
    R Unit (callApi ask dispatcher endpoint method body)
      (callApi ask dispatcher endpoint method body) := by
  refine congruent.bind congruent.handlers fun h => ?_
  cases h.effects .apiCall with
  | none => exact congruent.pure ()
  | some part => exact congruent.bind (asking _ _ rfl) fun _ => congruent.pure ()

theorem step {path path' : List Nat} {i : Instruction} {work work' : Run ι σ Unit}
    (here : place path path') (h : R Unit work work') :
    R Value (step ask dispatcher path i work) (step ask dispatcher path' i work') := by
  refine congruent.announced here (congruent.bind congruent.handlers fun handlers => ?_)
  cases handlers.customFor i.tag with
  | none => exact congruent.bind h fun _ => congruent.pure _
  | some custom => exact congruent.bind (congruent.count _ _) fun _ => asking _ _ rfl

-- Steps of the same action at two places are related, if reading their action anew does not break
-- that: for the values that are `permitted` and for those inside them.
theorem perform (permitted : Value → Prop)
    (refused : ∀ v f, permitted v → Instruction.parse v = .error f → R Value (throw f) (throw f))
    (inner : ∀ v a, permitted v → Instruction.parse v = .ok (.known a) →
      ∀ i ∈ a.nested, permitted i.toValue)
    (path : List Nat) (v : Value) (hv : permitted v) (path' : List Nat) (here : place path path') :
    R Value (perform ask dispatcher path v) (perform ask dispatcher path' v) := by
  -- Dispatching recurses from a value to the work of its action, from there to members and to
  -- optional instructions, and back to values: one motive for each.
  refine perform.induct
    (fun path v => permitted v → ∀ path', place path path' →
      R Value (Dispatch.perform ask dispatcher path v) (Dispatch.perform ask dispatcher path' v))
    (fun path a => (∀ i ∈ a.nested, permitted i.toValue) → ∀ path', place path path' →
      R Unit (work ask dispatcher path a) (work ask dispatcher path' a))
    (fun path index is => (∀ i ∈ is, permitted i.toValue) →
      ∀ path' index', place (path ++ [index]) (path' ++ [index']) →
      R Unit (performAll ask dispatcher path index is) (performAll ask dispatcher path' index' is))
    (fun path o => (∀ i ∈ o.toList, permitted i.toValue) → ∀ path', place path path' →
      R Unit (performOption ask dispatcher path o) (performOption ask dispatcher path' o))
    ?_ ?_ ?_ ?_ ?_ ?_ ?_ ?_ ?_ ?_ ?_ ?_ path v hv path' here
  · intro path v f hf hv path' here
    rw [perform_of_refused _ _ hf, perform_of_refused _ _ hf]
    exact refused v f hv hf
  · intro path v a ha ih hv path' here
    rw [perform_of_known _ _ ha, perform_of_known _ _ ha]
    exact congruent.step asking here (ih (inner v a hv ha) path' here)
  · intro path v es hes _ path' here
    rw [perform_of_unknown _ _ hes, perform_of_unknown _ _ hes]
    exact congruent.step asking here (congruent.runUnknown _)
  -- The work of an action.
  · intro path e _ path' here
    rw [work, work]
    exact congruent.runEffect asking e
  · intro path endpoint method body onSuccess onError hs he inner path' here
    simp only [Action.nested, List.mem_append, or_imp, forall_and] at inner
    rw [work, work]
    refine congruent.containing ?_ (congruent.count _ _) fun f => ?_
    · exact congruent.bind (congruent.callApi asking endpoint method body) fun _ =>
        hs inner.1 _ (congruent.inside 0 here)
    · exact congruent.bind (congruent.log _ _ rfl) fun _ =>
        congruent.bind (congruent.count _ _) fun _ =>
          congruent.bind congruent.countFailure fun _ => he inner.2 _ (congruent.inside 1 here)
  · intro path actions ih inner path' here
    rw [work, work]
    exact congruent.bind (ih inner path' 0 (congruent.inside 0 here)) fun _ => congruent.count _ _
  · intro path condition onTrue onFalse _ path' here
    rw [work, work]
    exact congruent.bind (congruent.log _ _ rfl) fun _ => congruent.count _ _
  · intro path _ path' here
    rw [work, work]
    exact congruent.count _ _
  -- The members of a sequence, counted from different places.
  · intro path index _ path' index' here
    rw [performAll, performAll]
    exact congruent.pure ()
  · intro path index i rest first others inner path' index' here
    simp only [List.mem_cons, forall_eq_or_imp] at inner
    rw [performAll, performAll]
    exact congruent.bind (congruent.member _ here) fun _ =>
      congruent.bind (first inner.1 _ here) fun _ =>
        others inner.2 path' (index' + 1) (congruent.next here)
  -- An instruction that may be absent.
  · intro path _ path' here
    rw [performOption, performOption]
    exact congruent.pure ()
  · intro path i ih inner path' here
    rw [performOption, performOption]
    exact congruent.bind (ih (inner i (by simp)) path' here) fun _ => congruent.pure ()

theorem performAll (permitted : Value → Prop)
    (refused : ∀ v f, permitted v → Instruction.parse v = .error f → R Value (throw f) (throw f))
    (inner : ∀ v a, permitted v → Instruction.parse v = .ok (.known a) →
      ∀ i ∈ a.nested, permitted i.toValue)
    {is : List Instruction} (all : ∀ i ∈ is, permitted i.toValue) {path path' : List Nat}
    {n n' : Nat} (here : place (path ++ [n]) (path' ++ [n'])) :
    R Unit (performAll ask dispatcher path n is) (performAll ask dispatcher path' n' is) := by
  induction is generalizing n n' with
  | nil =>
      rw [Dispatch.performAll, Dispatch.performAll]
      exact congruent.pure ()
  | cons i rest ih =>
      simp only [List.mem_cons, forall_eq_or_imp] at all
      rw [Dispatch.performAll, Dispatch.performAll]
      exact congruent.bind (congruent.member _ here) fun _ =>
        congruent.bind (congruent.perform asking permitted refused inner _ _ all.1 _ here) fun _ =>
          ih all.2 (congruent.next here)

end Congruent

namespace Closed

variable {Q : Run.Property ι σ} (closed : Closed Q) {ask : Ask ι σ} {dispatcher : Nat}

include closed

-- A property relates runs that have it to themselves, at the same place.
theorem congruent : Congruent Eq (fun α x y => x = y ∧ Q α x) where
  pure a := ⟨rfl, closed.pure a⟩
  bind first next := by
    obtain ⟨rfl, first⟩ := first
    obtain rfl := funext fun a => (next a).1
    exact ⟨rfl, closed.bind first fun a => (next a).2⟩
  log level event _ free := ⟨rfl, closed.log level event free⟩
  measure metered m := ⟨rfl, closed.measure metered m⟩
  dispatcher number := ⟨rfl, closed.dispatcher number⟩
  announced here h := by
    obtain ⟨rfl, h⟩ := h
    exact ⟨here ▸ rfl, closed.announced h⟩
  containing inner success failure := by
    obtain ⟨rfl, inner⟩ := inner
    obtain ⟨rfl, success⟩ := success
    obtain rfl := funext fun f => (failure f).1
    exact ⟨rfl, closed.containing inner success fun f => (failure f).2⟩
  inside _ here := here ▸ rfl
  member tag here := by
    obtain ⟨-, same⟩ := List.append_inj' here rfl
    simp only [List.cons.injEq, and_true] at same
    exact ⟨same ▸ rfl, closed.log _ _ rfl⟩
  next here := by
    obtain ⟨rfl, same⟩ := List.append_inj' here rfl
    simp only [List.cons.injEq, and_true] at same
    rw [same]

variable (asking : ∀ part what, what.isStep → Q Value (ask part what))

include asking

theorem callApi (endpoint : String) (method : Option RequestMethod) (body : Option Dict) :
    Q Unit (callApi ask dispatcher endpoint method body) :=
  (closed.congruent.callApi (fun part what step => ⟨rfl, asking part what step⟩)
    endpoint method body).2

theorem perform (permitted : Value → Prop)
    (refused : ∀ v f, permitted v → Instruction.parse v = .error f → Q Value (throw f))
    (inner : ∀ v a, permitted v → Instruction.parse v = .ok (.known a) →
      ∀ i ∈ a.nested, permitted i.toValue)
    (path : List Nat) (v : Value) (hv : permitted v) : Q Value (perform ask dispatcher path v) :=
  (closed.congruent.perform (fun part what step => ⟨rfl, asking part what step⟩) permitted
    (fun v f hv hf => ⟨rfl, refused v f hv hf⟩) inner path v hv path rfl).2

end Closed

end Dispatch

end ServerUI
