import ServerUI.Proofs.Render.Surroundings

/-!
Ways of rendering that return the same. What a determinate run returns does not depend on what was
run before it, so a node is rendered the same in two ways as soon as everything that is rendered
inside it is, slot by slot as they are filled and child by child.
-/

set_option autoImplicit false

namespace ServerUI

variable {ι σ α β : Type}

namespace Run

/-- What the run returns if it starts in this world. -/
def Gives (w : World ι σ) (x : Run ι σ α) (a : α) : Prop := (exec x w).1 = .ok a

variable {w : World ι σ} {x : Run ι σ α} {a b : α}

theorem Gives.unique (h : Gives w x a) (h' : Gives w x b) : a = b :=
  Except.ok.inj (h.symm.trans h')

@[simp] theorem gives_pure : Gives w (pure a) b ↔ a = b := by
  simp [Gives]

@[simp] theorem not_gives_throw {f : Failure} : ¬Gives w (throw f : Run ι σ α) a := by
  simp [Gives]

@[simp] theorem gives_ofExcept {r : Except Failure α} : Gives w (ofExcept r) a ↔ r = .ok a := by
  simp [Gives]

/-- What is done first leads into another world, but a determinate run does not see that. -/
theorem gives_bind {g : α → Run ι σ β} {b : β} (steady : ∀ a, Determinate β (g a)) :
    Gives w (x >>= g) b ↔ ∃ a, Gives w x a ∧ Gives w (g a) b := by
  unfold Gives
  rw [exec_bind]
  cases ran : exec x w with
  | mk r w' =>
    cases r with
    | error f => simp
    | ok a =>
      obtain ⟨c, takes⟩ := steady a
      simp only [Except.ok.injEq, exists_eq_left', (takes w').1, (takes w).1]

theorem gives_map {f : α → β} {b : β} : Gives w (f <$> x) b ↔ ∃ a, Gives w x a ∧ f a = b := by
  rw [map_eq_pure_bind, gives_bind fun _ => ⟨_, .pure _⟩]
  simp only [gives_pure]

/-- Two runs that return the same if they return at all. -/
def Same (w : World ι σ) (x y : Run ι σ α) : Prop := ∀ a, Gives w x a ↔ Gives w y a

namespace Same

theorem refl (x : Run ι σ α) : Same w x x := fun _ => Iff.rfl

theorem bind {y : Run ι σ α} {g g' : α → Run ι σ β} (steady : ∀ a, Determinate β (g a))
    (steady' : ∀ a, Determinate β (g' a)) (first : Same w x y)
    (next : ∀ a, Gives w x a → Same w (g a) (g' a)) : Same w (x >>= g) (y >>= g') := by
  intro b
  rw [gives_bind steady, gives_bind steady']
  refine exists_congr fun a => ?_
  rw [← first a]
  exact and_congr_right fun returned => next a returned b

theorem map {y : Run ι σ α} (h : Same w x y) (f : α → β) : Same w (f <$> x) (f <$> y) :=
  fun b => by simp only [gives_map, h _]

end Same

theorem same_map_iff {y : Run ι σ α} {f : α → β} (injective : Function.Injective f) :
    Same w (f <$> x) (f <$> y) ↔ Same w x y := by
  refine ⟨fun same a => ?_, fun same => same.map f⟩
  have returned (z : Run ι σ α) : Gives w (f <$> z) (f a) ↔ Gives w z a := by
    rw [gives_map]
    constructor
    · rintro ⟨b, given, equal⟩
      exact injective equal ▸ given
    · exact fun given => ⟨a, given, rfl⟩
  rw [← returned x, ← returned y]
  exact same (f a)

end Run

namespace Renderer

variable {w : World ι σ} {one one' : Value → Run ι σ Value}

/-- What is rendered in slots as they are filled one after the other. -/
def Fills (w : World ι σ) (one : Value → Run ι σ Value) : List Value → Dict → Value → Prop
  | [], _, _ => False
  | name :: rest, props, u =>
      match name.word?.bind fun word => (Entries.find? props word).map (word, ·) with
      | none => Fills w one rest props u
      | some (word, v) => u ∈ v.inSlot ∨ ∃ o, Run.Gives w (slot one v) o ∧
          Fills w one rest (Entries.insert props word o) u

section Alike

variable (steady : ∀ v, Run.Determinate Value (one v))
  (steady' : ∀ v, Run.Determinate Value (one' v))

include steady steady'

theorem same_keyed {items : List Value}
    (each : ∀ u ∈ items, Run.Same w (one u) (one' u)) (name : String) (index : Nat) :
    Run.Same w (keyed name one index items) (keyed name one' index items) := by
  induction items generalizing index with
  | nil => exact fun _ => Iff.rfl
  | cons item rest ih =>
    simp only [List.mem_cons, forall_eq_or_imp] at each
    have drawing := Run.Determinate.drawing (ι := ι) (σ := σ)
    have later := drawing.keyed steady name (index + 1) rest
    have later' := drawing.keyed steady' name (index + 1) rest
    rw [keyed_cons, keyed_cons]
    refine .bind (fun o => drawing.bind later fun _ => drawing.pure _)
      (fun o => drawing.bind later' fun _ => drawing.pure _) each.1 fun o _ => ?_
    exact .bind (fun _ => drawing.pure _) (fun _ => drawing.pure _) (ih each.2 (index + 1))
      fun _ _ => .refl _

theorem same_slot {v : Value} (each : ∀ u ∈ v.inSlot, Run.Same w (one u) (one' u)) :
    Run.Same w (slot one v) (slot one' v) := by
  have listed {items : List Value} (each : ∀ u ∈ items, Run.Same w (one u) (one' u)) :
      Run.Same w (Value.list <$> nodes one items) (Value.list <$> nodes one' items) :=
    (same_keyed steady steady' each "key" 0).map _
  cases v with
  | node n => exact each _ (by simp [Value.inSlot])
  | dict es =>
    cases typed : Entries.contains es "type" with
    | true => simpa [slot, typed] using each (.dict es) (by simp [Value.inSlot, typed])
    | false => simpa [slot, typed] using Run.Same.refl _
  | list items | tuple items | keyed key output => exact listed each
  | _ => exact Run.Same.refl _

theorem same_slots {names : List Value} {props : Dict}
    (each : ∀ u, Fills w one names props u → Run.Same w (one u) (one' u)) :
    Run.Same w (slots one names props) (slots one' names props) := by
  induction names generalizing props with
  | nil => exact Run.Same.refl _
  | cons name rest ih =>
    unfold slots
    unfold Fills at each
    cases name.unhashable? with
    | some type => exact Run.Same.refl _
    | none =>
      cases found : name.word?.bind fun word => (Entries.find? props word).map (word, ·) with
      | none =>
        simp only [found] at each
        exact ih each
      | some filled =>
        simp only [found] at each
        refine .bind (fun _ => Run.Determinate.drawing.slots steady _ _)
          (fun _ => Run.Determinate.drawing.slots steady' _ _)
          (same_slot steady steady' fun u inside => each u (.inl inside)) fun o given => ?_
        exact ih fun u fills => each u (.inr ⟨o, given, fills⟩)

theorem same_children {n : Node}
    (each : ∀ u ∈ (n.children.getD []).map Value.node, Run.Same w (one u) (one' u)) :
    Run.Same w (children one n) (children one' n) := by
  unfold children
  split
  · exact Run.Same.refl _
  · exact Run.Same.refl _
  · next ns _ there =>
    rw [there, Option.getD_some] at each
    exact (same_keyed steady steady' each "key" 0).map some

end Alike

/-- The props of a node, whose slots have been filled, under its callbacks and its style. -/
def finish (r : Renderer ι) (n : Node) (e : Entry ι) (filled : Dict) : Except Failure Dict :=
  (r.callbacks e n.actions).map fun bound => withStyle (Entries.merge filled bound) n.style

theorem gives_buildProps {r : Renderer ι} {n : Node} {e : Entry ι} {p : Dict} :
    Run.Gives w (r.buildProps one n e) p ↔
      ∃ q, Run.Gives w (slots one e.childrenProps (Entries.merge e.defaultProps n.props)) q ∧
        r.finish n e q = .ok p := by
  have finished (q : Dict) : (do
      let bound ← Run.ofExcept (r.callbacks e n.actions)
      return withStyle (Entries.merge q bound) n.style : Run ι σ Dict) =
        Run.ofExcept (r.finish n e q) := by
    unfold finish
    cases r.callbacks e n.actions <;> rfl
  unfold buildProps
  simp only [finished]
  rw [Run.gives_bind fun q => ⟨_, .ofExcept _⟩]
  simp only [Run.gives_ofExcept]

theorem same_buildProps (steady : ∀ v, Run.Determinate Value (one v))
    (steady' : ∀ v, Run.Determinate Value (one' v)) {r : Renderer ι} {n : Node} {e : Entry ι}
    (each : ∀ u, Fills w one e.childrenProps (Entries.merge e.defaultProps n.props) u →
      Run.Same w (one u) (one' u)) :
    Run.Same w (r.buildProps one n e) (r.buildProps one' n e) := fun p => by
  simp only [gives_buildProps, same_slots steady steady' each _]

theorem same_registered (steady : ∀ v, Run.Determinate Value (one v))
    (steady' : ∀ v, Run.Determinate Value (one' v)) {ask : Ask ι σ} {r : Renderer ι} {n : Node}
    {e e' : Entry ι} (part : e'.component = e.component) (asking : ∀ props inner,
      Run.Determinate Value (ask e.component (.component props inner)))
    (bag : Run.Same w (r.buildProps one n e) (r.buildProps one' n e'))
    (inner : Run.Same w (children one n) (children one' n)) :
    Run.Same w (r.registered ask one n e) (r.registered ask one' n e') := by
  have drawing := Run.Determinate.drawing (ι := ι) (σ := σ)
  have asks (props : Dict) (inner : Option (List Value)) := drawing.bind
    (drawing.count (r := r) .rendered) fun _ => asking props inner
  unfold registered
  rw [part]
  refine .bind (fun props => drawing.bind (drawing.children steady n) (asks props))
    (fun props => drawing.bind (drawing.children steady' n) (asks props)) bag fun props _ => ?_
  exact .bind (asks props) (asks props) inner fun _ _ => .refl _

end Renderer

end ServerUI
