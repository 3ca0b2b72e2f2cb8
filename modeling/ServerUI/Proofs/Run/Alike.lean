import ServerUI.Proofs.Run.Asking

/-!
Runs that cannot be told apart by the parts of the client: from worlds that are alike they ask the
same in the same order, fail in the same way and leave worlds that are alike. Only what is announced
of steps, logged and counted may differ.
-/

set_option autoImplicit false

namespace ServerUI

variable {ι σ : Type}

structure Ask.Call (ι : Type) where
  part : ι
  request : Request
  context : Dict

def calls (es : List (Event ι)) : List (Ask.Call ι) :=
  es.filterMap fun
    | .asked part request context => some ⟨part, request, context⟩
    | _ => none

@[simp] theorem calls_append (es es' : List (Event ι)) :
    calls (es ++ es') = calls es ++ calls es' :=
  List.filterMap_append

@[simp] theorem calls_measured (own : Dispatcher ι) (ms : List Measurement) :
    calls (own.measured ms) = [] := by
  unfold Dispatcher.measured
  split <;> simp [calls]

/-- Nothing but the journals differs, and the same was asked in them. -/
structure World.Alike (w w' : World ι σ) : Prop where
  rest : w' = { w with journal := w'.journal }
  asked : calls w.journal = calls w'.journal

namespace World.Alike

variable {w w' : World ι σ}

theorem refl (w : World ι σ) : w.Alike w := ⟨rfl, rfl⟩

theorem symm (h : w.Alike w') : w'.Alike w := ⟨by rw [h.rest], h.asked.symm⟩

theorem trans {w'' : World ι σ} (h : w.Alike w') (h' : w'.Alike w'') : w.Alike w'' :=
  ⟨by rw [h'.rest, h.rest], h.asked.trans h'.asked⟩

theorem client (h : w.Alike w') : w'.client = w.client := by rw [h.rest]

theorem dispatchers (h : w.Alike w') : w'.dispatchers = w.dispatchers := by rw [h.rest]

theorem sequences (h : w.Alike w') : w'.sequences = w.sequences := by rw [h.rest]

theorem context (h : w.Alike w') : w'.context = w.context := by rw [h.rest]

theorem clock (h : w.Alike w') : w'.clock = w.clock := by rw [h.rest]

theorem after (h : w.Alike w') (es es' : List (Event ι)) (same : calls es = calls es') :
    (w.after es).Alike (w'.after es') where
  rest := by rw [h.rest]; rfl
  asked := by simp [h.asked, same]

end World.Alike

namespace Run

/-- From worlds that are alike, two runs do alike. They keep what `keep` says of the dispatchers. -/
def Alike (keep : (Nat → Dispatcher ι) → Prop) : Run.Relation ι σ := fun _ x y =>
  ∀ w w', w.Alike w' → keep w.dispatchers →
    (exec x w).1 = (exec y w').1 ∧ (exec x w).2.Alike (exec y w').2 ∧
      keep (exec x w).2.dispatchers

namespace Alike

variable {α β : Type} {keep : (Nat → Dispatcher ι) → Prop}

theorem pure (a : α) : Alike (σ := σ) keep α (pure a) (pure a) :=
  fun _ _ same kept => ⟨rfl, same, kept⟩

theorem symm {x y : Run ι σ α} (h : Alike keep α x y) : Alike keep α y x := by
  intro w w' same kept
  obtain ⟨result, after, kept⟩ := h w' w same.symm (same.dispatchers ▸ kept)
  exact ⟨result.symm, after.symm, after.dispatchers ▸ kept⟩

theorem trans {x y z : Run ι σ α} (h : Alike keep α x y) (h' : Alike keep α y z) :
    Alike keep α x z := by
  intro w w' same kept
  obtain ⟨result, after, kept'⟩ := h w w (.refl w) kept
  obtain ⟨result', after', -⟩ := h' w w' same kept
  exact ⟨result.trans result', after.trans after', kept'⟩

theorem throw (f : Failure) : Alike (σ := σ) keep α (throw f) (throw f) :=
  fun _ _ same kept => ⟨rfl, same, kept⟩

theorem bind {x y : Run ι σ α} {f g : α → Run ι σ β} (first : Alike keep α x y)
    (next : ∀ a, Alike keep β (f a) (g a)) : Alike keep β (x >>= f) (y >>= g) := by
  intro w w' same kept
  obtain ⟨result, same, kept⟩ := first w w' same kept
  rw [exec_bind, exec_bind]
  cases left : exec x w with
  | mk r v =>
      cases right : exec y w' with
      | mk r' v' =>
          simp only [left, right] at result same kept
          subst result
          cases r with
          | error f => exact ⟨rfl, same, kept⟩
          | ok a => exact next a v v' same kept

theorem attempt {x y : Run ι σ α} (h : Alike keep α x y) :
    Alike keep (Except Failure α) (attempt x) (attempt y) := by
  intro w w' same kept
  obtain ⟨result, same, kept⟩ := h w w' same kept
  exact ⟨congrArg Except.ok result, same, kept⟩

theorem ofExcept (r : Except Failure α) : Alike (σ := σ) keep α (ofExcept r) (ofExcept r) :=
  fun _ _ same kept => ⟨rfl, same, kept⟩

theorem of_silent {x y : Run ι σ Unit}
    (left : ∀ w, ∃ es, exec x w = (.ok (), w.after es) ∧ calls es = [])
    (right : ∀ w, ∃ es, exec y w = (.ok (), w.after es) ∧ calls es = []) : Alike keep Unit x y := by
  intro w w' same kept
  obtain ⟨es, ran, silent⟩ := left w
  obtain ⟨es', ran', silent'⟩ := right w'
  rw [ran, ran']
  exact ⟨rfl, same.after _ _ (silent.trans silent'.symm), kept⟩

theorem emit {e e' : Event ι} (silent : calls [e] = []) (silent' : calls [e'] = []) :
    Alike (σ := σ) keep Unit (emit e) (emit e') :=
  of_silent (fun _ => ⟨[e], rfl, silent⟩) fun _ => ⟨[e'], rfl, silent'⟩

theorem log (level : Log.Level) (event : String) (fields fields' : Dict) :
    Alike (σ := σ) keep Unit (log level event fields) (log level event fields') :=
  of_silent (fun w => ⟨_, exec_log level event fields w, rfl⟩)
    fun w => ⟨_, exec_log level event fields' w, rfl⟩

theorem measure (metered : Bool) (m : Measurement) :
    Alike (σ := σ) keep Unit (measure metered m) (measure metered m) :=
  of_silent (fun w => ⟨_, exec_measure metered m w, by cases metered <;> rfl⟩)
    fun w => ⟨_, exec_measure metered m w, by cases metered <;> rfl⟩

theorem dispatcher (number : Nat) :
    Alike (σ := σ) keep (Dispatcher ι) (dispatcher number) (dispatcher number) :=
  fun _ _ same kept => ⟨by simp [same.dispatchers], same, kept⟩

theorem now : Alike (ι := ι) (σ := σ) keep Binary64 now now := fun w w' same kept =>
  ⟨by simp [same.clock], ⟨by simp only [exec_now]; rw [same.rest], same.asked⟩, kept⟩

theorem newId (sequence : Nat) (pre : String) :
    Alike (ι := ι) (σ := σ) keep String (newId sequence pre) (newId sequence pre) :=
  fun w w' same kept =>
    ⟨by simp [same.sequences], ⟨by simp only [exec_newId]; rw [same.rest], same.asked⟩, kept⟩

theorem edit {number : Nat} {change : Handlers ι → Handlers ι}
    (keeps : ∀ ds, keep ds → keep (putAt ds number ((ds number).edit change))) :
    Alike (σ := σ) keep Unit (edit number change) (edit number change) := fun w w' same kept =>
  ⟨rfl, ⟨by simp only [exec_edit]; rw [same.rest], same.asked⟩, keeps _ kept⟩

theorem within (bindings : Dict) {x y : Run ι σ α} (h : Alike keep α x y) :
    Alike keep α (within bindings x) (within bindings y) := by
  intro w w' same kept
  let inside (w : World ι σ) : World ι σ :=
    { w with context := Log.Context.bind w.context bindings }
  have entered : (inside w).Alike (inside w') := ⟨by simp only [inside]; rw [same.rest], same.asked⟩
  obtain ⟨result, same', kept⟩ :=
    h _ _ (entered.after [.opened bindings] [.opened bindings] rfl) kept
  -- What is put back was saved before the run, from contexts that are the same.
  let outside (w v : World ι σ) : World ι σ :=
    { v with context := Log.Context.restore v.context (Log.Context.save w.context bindings) }
  have leaving {v v' : World ι σ} (same' : v.Alike v') : (outside w v).Alike (outside w' v') :=
    ⟨by simp only [outside]; rw [same'.rest, same.context], same'.asked⟩
  rw [exec_within, exec_within]
  exact ⟨result, (leaving same').after _ _ rfl, kept⟩

theorem announced {path path' : List Nat} {i i' : Instruction} {x y : Run ι σ Value}
    (h : Alike keep Value x y) :
    Alike keep Value (Dispatch.announced path i x) (Dispatch.announced path' i' y) := by
  refine bind (emit rfl rfl) fun _ => bind (attempt h) fun r => ?_
  exact bind (emit rfl rfl) fun _ => ofExcept r

theorem containing {work work' onSuccess onSuccess' : Run ι σ Unit}
    {onFailure onFailure' : Failure → Run ι σ Unit} (inner : Alike keep Unit work work')
    (success : Alike keep Unit onSuccess onSuccess')
    (failure : ∀ f, Alike keep Unit (onFailure f) (onFailure' f)) :
    Alike keep Unit (Dispatch.containing work onSuccess onFailure)
      (Dispatch.containing work' onSuccess' onFailure') := by
  refine bind (attempt inner) fun r => ?_
  cases r with
  | ok _ => exact success
  | error f =>
      dsimp only
      split
      · exact bind (emit rfl rfl) fun _ => failure f
      · exact throw f

theorem toDispatch : Dispatch.Congruent (fun _ _ => True) (Alike (σ := σ) keep) where
  pure := pure
  bind := bind
  log level event fields _ := log level event fields fields
  measure := measure
  dispatcher := dispatcher
  announced _ := announced
  containing := containing
  inside _ _ := trivial
  member _ _ := log _ _ _ _
  next _ := trivial

section

variable {ask : Ask ι σ} {number : Nat}
  (asking : ∀ part what, what.isStep → Alike keep Value (ask part what) (ask part what))

include asking

theorem perform (v : Value) (path path' : List Nat) :
    Alike keep Value (Dispatch.perform ask number path v) (Dispatch.perform ask number path' v) :=
  toDispatch.perform asking (fun _ => True) (fun _ f _ _ => throw f)
    (fun _ _ _ _ _ _ => trivial) path v trivial path' trivial

theorem performAll (is : List Instruction) (path path' : List Nat) (n n' : Nat) :
    Alike keep Unit (Dispatch.performAll ask number path n is)
      (Dispatch.performAll ask number path' n' is) :=
  toDispatch.performAll asking (fun _ => True) (fun _ f _ _ => throw f)
    (fun _ _ _ _ _ _ => trivial) (fun _ _ => trivial) trivial

end

theorem run {ask : Ask ι σ} {number : Nat} {v v' : Value}
    (h : Alike keep Value (Dispatch.perform ask number [] v) (Dispatch.perform ask number [] v')) :
    Alike keep Value (Dispatch.run ask number v) (Dispatch.run ask number v') :=
  bind (dispatcher number) fun own => bind (newId own.sequence Identifier.dispatchPrefix) fun _ =>
    within _ h

theorem toEngine {p : Policy ι} (free : ∀ f, p.fail f)
    (keeps : ∀ number change ds, p.edit change → keep ds →
      keep (putAt ds number ((ds number).edit change))) :
    Engine.Closed p (fun α x => Alike (σ := σ) keep α x x) where
  pure := pure
  bind := bind
  log level event fields _ := log level event fields fields
  measure metered _ _ := measure metered _
  ordinary f _ := free f
  throw f _ := throw f
  recover first success failure := bind (attempt first) fun r => by
    cases r with
    | ok a => exact success a
    | error f => exact failure f (free f)
  now := now
  screen name _ h := bind (newId 0 Identifier.renderPrefix) fun id => within _ h
  edit number change h := edit fun ds => keeps number _ ds h

-- A part that is asked the same in the same state reacts in the same way.
theorem request {c : Client ι σ} {dispatch : Nat → Value → Run ι σ Value}
    {renderScreen : Renderer ι → Value → Run ι σ Value} {part : ι} {what : Request}
    (reacting : ∀ state, Alike keep Value
      ((c.respond part what state).1.carryOut dispatch renderScreen)
      ((c.respond part what state).1.carryOut dispatch renderScreen)) :
    Alike keep Value (c.request dispatch renderScreen part what)
      (c.request dispatch renderScreen part what) := by
  intro w w' same kept
  rw [Client.exec_request, Client.exec_request, same.client]
  cases responded : c.respond part what w.client with
  | mk reaction state =>
      have reacting := reacting w.client
      rw [responded] at reacting
      let asked (w : World ι σ) : World ι σ := { w with client := state }
      have entered : (asked w).Alike (asked w') :=
        ⟨by simp only [asked]; rw [same.rest], same.asked⟩
      have call : calls [.asked part what w.context] = calls [.asked part what w'.context] := by
        rw [same.context]
      obtain ⟨result, same, kept⟩ := reacting _ _ (entered.after _ _ call) kept
      dsimp only
      cases left : exec (reaction.carryOut dispatch renderScreen)
          ((asked w).after [.asked part what w.context]) with
      | mk r v =>
          cases right : exec (reaction.carryOut dispatch renderScreen)
              ((asked w').after [.asked part what w'.context]) with
          | mk r' v' =>
              simp only [left, right] at result same kept
              subst result
              cases r with
              | ok a => exact ⟨rfl, same, kept⟩
              | error f => exact ⟨rfl, same.after _ _ rfl, kept⟩

end Alike

end Run

end ServerUI
