import Mathlib.Algebra.GroupWithZero.Nat
import ServerUI.Proofs.Metrics.Totals
import ServerUI.Proofs.Render.Nested
import ServerUI.Proofs.Run.Rendering

/-!
In which order a render comes to nodes. They are visited from below: what a node holds in its slots,
in the order of the slots, then its children, then the node itself. Each visit is counted under one
status, and makes at most one call of the client.
-/

set_option autoImplicit false

namespace ServerUI

variable {ι σ : Type}

inductive Visit (ι : Type) where
  | rendered (component : ι)
  | fallback (part : ι) (type : String)
  | omitted
  | malformed
deriving DecidableEq, Repr

def Visit.status : Visit ι → NodeStatus
  | rendered _ => .rendered
  | fallback .. => .fallback
  | omitted => .omitted
  | malformed => .malformed

/-- The visits of one walk after another, if both come to an end. -/
def Visit.andThen (first next : Option (List (Visit ι))) : Option (List (Visit ι)) :=
  first.bind fun vs => next.map (vs ++ ·)

def Visit.ofAll (walk : Value → Option (List (Visit ι))) : List Value → Option (List (Visit ι))
  | [] => some []
  | v :: rest => andThen (walk v) (ofAll walk rest)

namespace Renderer

def visitUnknown (r : Renderer ι) (type : String) : Visit ι :=
  match r.fallback with
  | some part => .fallback part type
  | none => .omitted

/-- The visits of a render, with at most `levels` nodes inside one another. Nothing is known of the
visits if these do not suffice, or if the type of a node cannot be looked up. -/
def walk (r : Renderer ι) : Nat → Value → Option (List (Visit ι))
  | 0, _ => none
  | levels + 1, v =>
      match Node.ofValue v with
      | .unhashable _ => none
      | .faults _ => some [.malformed]
      | .ok n =>
          match Entries.find? r.registry n.type with
          | none => some [r.visitUnknown n.type]
          | some e =>
              Visit.andThen (Visit.ofAll (walk r levels) (inner n e)) (some [.rendered e.component])

/-- How many renders the render of a value comes to, with itself. -/
def renders (r : Renderer ι) : Nat → Value → Nat
  | 0, _ => 0
  | levels + 1, v => ((r.calls v).map (renders r levels)).sum + 1

end Renderer

namespace Visit

variable {walk walk' : Value → Option (List (Visit ι))} {first next : Option (List (Visit ι))}
  {vs : List (Visit ι)}

theorem andThen_eq_some :
    andThen first next = some vs ↔
      ∃ before after, first = some before ∧ next = some after ∧ vs = before ++ after := by
  cases first <;> cases next <;> simp [andThen, eq_comm]

@[simp] theorem andThen_nil (first : Option (List (Visit ι))) :
    andThen first (some []) = first := by
  cases first <;> simp [andThen]

@[simp] theorem nil_andThen (next : Option (List (Visit ι))) :
    andThen (some []) next = next := by
  cases next <;> simp [andThen]

theorem andThen_assoc (first next last : Option (List (Visit ι))) :
    andThen (andThen first next) last = andThen first (andThen next last) := by
  cases first <;> cases next <;> cases last <;> simp [andThen]

theorem ofAll_append (vs us : List Value) :
    ofAll walk (vs ++ us) = andThen (ofAll walk vs) (ofAll walk us) := by
  induction vs with
  | nil => simp [ofAll]
  | cons v vs ih => rw [List.cons_append, ofAll, ofAll, ih, andThen_assoc]

theorem ofAll_mono {items : List Value}
    (more : ∀ u ∈ items, ∀ vs, walk u = some vs → walk' u = some vs) :
    ∀ vs, ofAll walk items = some vs → ofAll walk' items = some vs := by
  induction items with
  | nil => exact fun _ h => h
  | cons u rest ih =>
    simp only [List.mem_cons, forall_eq_or_imp] at more
    intro vs there
    obtain ⟨before, after, here, others, rfl⟩ := andThen_eq_some.mp there
    exact andThen_eq_some.mpr ⟨before, after, more.1 _ here, ih more.2 _ others, rfl⟩

theorem length_of_ofAll {count : Value → Nat} {items : List Value}
    (each : ∀ u ∈ items, ∀ vs, walk u = some vs → vs.length = count u) :
    ∀ vs, ofAll walk items = some vs → vs.length = (items.map count).sum := by
  induction items with
  | nil =>
    intro vs there
    obtain rfl : [] = vs := Option.some.inj there
    rfl
  | cons u rest ih =>
    simp only [List.mem_cons, forall_eq_or_imp] at each
    intro vs there
    obtain ⟨before, after, here, others, rfl⟩ := andThen_eq_some.mp there
    rw [List.length_append, each.1 _ here, ih each.2 _ others, List.map_cons, List.sum_cons]

end Visit

namespace Renderer

variable {r : Renderer ι} {levels : Nat} {v : Value} {vs : List (Visit ι)}

/-- A walk that comes to an end within some levels is the same within more. -/
theorem walk_succ (there : r.walk levels v = some vs) : r.walk (levels + 1) v = some vs := by
  induction levels generalizing v vs with
  | zero => cases there
  | succ levels ih =>
    unfold walk at there ⊢
    split at there
    · cases there
    · exact there
    · split at there
      · exact there
      · obtain ⟨before, after, inside, itself, rfl⟩ := Visit.andThen_eq_some.mp there
        exact Visit.andThen_eq_some.mpr
          ⟨before, after, Visit.ofAll_mono (fun _ _ _ => ih) _ inside, itself, rfl⟩

theorem walk_mono {more : Nat} (le : levels ≤ more) (there : r.walk levels v = some vs) :
    r.walk more v = some vs := by
  induction le with
  | refl => exact there
  | step _ ih => exact walk_succ ih

/-- Each render is one visit. -/
theorem length_walk (there : r.walk levels v = some vs) : vs.length = r.renders levels v := by
  induction levels generalizing v vs with
  | zero => cases there
  | succ levels ih =>
    rw [walk] at there
    rw [renders, calls]
    cases read : Node.ofValue v with
    | unhashable type => simp [read] at there
    | faults fs =>
      simp only [read] at there ⊢
      cases there
      rfl
    | ok n =>
      simp only [read] at there ⊢
      cases found : Entries.find? r.registry n.type with
      | none =>
        simp only [found] at there ⊢
        cases there
        rfl
      | some e =>
        simp only [found] at there ⊢
        obtain ⟨before, after, inside, itself, rfl⟩ := Visit.andThen_eq_some.mp there
        cases itself
        rw [List.length_append, Visit.length_of_ofAll (fun _ _ _ => ih) _ inside]
        rfl

end Renderer

/-- The call of a visit, if it makes one, leads from one world to another, and it returns. -/
inductive Visit.Calls (ask : Ask ι σ) (r : Renderer ι) : Visit ι → World ι σ → World ι σ → Prop
  | rendered {type : String} {e : Entry ι} {props : Dict} {children : Option (List Value)}
      {o : Value} {w w' : World ι σ} (found : Entries.find? r.registry type = some e)
      (asked : Run.exec (ask e.component (.component props children)) w = (.ok o, w')) :
      Calls ask r (.rendered e.component) w w'
  | fallback {part : ι} {type : String} {o : Value} {w w' : World ι σ}
      (set : r.fallback = some part)
      (asked : Run.exec (ask part (.fallback type)) w = (.ok o, w')) :
      Calls ask r (.fallback part type) w w'
  | omitted (w : World ι σ) : Calls ask r .omitted w w
  | malformed (w : World ι σ) : Calls ask r .malformed w w

/-- Nothing leads from one world to the other but these visits: each is counted and makes its call,
and between them there are records of the log only. -/
inductive Passage (ask : Ask ι σ) (r : Renderer ι) :
    World ι σ → List (Visit ι) → World ι σ → Prop
  | nil (w : World ι σ) : Passage ask r w [] w
  | logged {record : Log.Record} {w w' : World ι σ} {vs : List (Visit ι)}
      (rest : Passage ask r (w.after [.logged record]) vs w') : Passage ask r w vs w'
  | visit {v : Visit ι} {w w₁ w' : World ι σ} {vs : List (Visit ι)}
      (call : v.Calls ask r
        (w.after (if r.metered then [.measured (.node v.status.name)] else [])) w₁)
      (rest : Passage ask r w₁ vs w') : Passage ask r w (v :: vs) w'

theorem Passage.trans {ask : Ask ι σ} {r : Renderer ι} {w w₁ w' : World ι σ}
    {vs vs' : List (Visit ι)} (h : Passage ask r w vs w₁) (h' : Passage ask r w₁ vs' w') :
    Passage ask r w (vs ++ vs') w' := by
  induction h with
  | nil => exact h'
  | logged _ ih => exact .logged (ih h')
  | visit call _ ih => exact .visit call (ih h')

/-- If the run returns, then by way of these visits. -/
def Run.Passes (ask : Ask ι σ) (r : Renderer ι) (walk : Option (List (Visit ι))) :
    Run.Property ι σ := fun _ x =>
  ∀ w a w', Run.exec x w = (.ok a, w') → ∃ vs, walk = some vs ∧ Passage ask r w vs w'

theorem Renderer.inSlots_cons (word : String) (words : List String) (props : Dict) :
    inSlots (word :: words) props =
      ((Entries.find? props word).map Value.inSlot).getD [] ++ inSlots words props := rfl

theorem Renderer.inSlots_insert {words : List String} {word : String} (props : Dict) (v : Value)
    (fresh : word ∉ words) :
    inSlots words (Entries.insert props word v) = inSlots words props := by
  rw [inSlots, inSlots, List.flatMap_def, List.flatMap_def]
  congr 1
  refine List.map_congr_left fun other listed => ?_
  have apart : other ≠ word := fun same => fresh (same ▸ listed)
  rw [Entries.find?_insert_of_ne props v apart]

namespace Run.Passes

variable {ask : Ask ι σ} {r : Renderer ι} {first next : Option (List (Visit ι))} {α β : Type}

theorem pure (a : α) : Passes (σ := σ) ask r (some []) α (pure a) := by
  rintro w _ w' ran
  cases ran
  exact ⟨[], rfl, .nil w⟩

theorem ofExcept (result : Except Failure α) :
    Passes (σ := σ) ask r (some []) α (ofExcept result) := by
  rintro w _ w' ran
  cases ran
  exact ⟨[], rfl, .nil w⟩

theorem throw (f : Failure) : Passes (σ := σ) ask r first α (throw f) := by
  rintro w _ w' ⟨⟩

theorem log (level : Log.Level) (event : String) (fields : Dict) :
    Passes (σ := σ) ask r (some []) Unit (log level event fields) := by
  rintro w _ w' ran
  cases ran
  exact ⟨[], rfl, .logged (.nil _)⟩

theorem bind {x : Run ι σ α} {f : α → Run ι σ β} (before : Passes ask r first α x)
    (after : ∀ a, Passes ask r next β (f a)) :
    Passes ask r (Visit.andThen first next) β (x >>= f) := by
  intro w b w' ran
  rw [exec_bind] at ran
  cases started : exec x w with
  | mk result w₁ =>
    rw [started] at ran
    cases result with
    | error g => cases ran
    | ok a =>
      obtain ⟨vs, rfl, passed⟩ := before w a w₁ started
      obtain ⟨vs', rfl, passed'⟩ := after a w₁ b w' ran
      exact ⟨vs ++ vs', rfl, passed.trans passed'⟩

theorem last {x : Run ι σ α} {f : α → Run ι σ β} (before : Passes ask r first α x)
    (after : ∀ a, Passes ask r (some []) β (f a)) : Passes ask r first β (x >>= f) := by
  simpa using before.bind after

theorem silent {x : Run ι σ α} {f : α → Run ι σ β} (before : Passes ask r (some []) α x)
    (after : ∀ a, Passes ask r next β (f a)) : Passes ask r next β (x >>= f) := by
  simpa using before.bind after

theorem map {x : Run ι σ α} (h : Passes ask r first α x) (f : α → β) :
    Passes ask r first β (f <$> x) := by
  rw [map_eq_pure_bind]
  exact h.last fun a => pure (f a)

theorem visit {x : Run ι σ α} {v : Visit ι}
    (call : ∀ w a w', exec x w = (.ok a, w') → v.Calls ask r w w') :
    Passes ask r (some [v]) α (r.count v.status >>= fun _ => x) := by
  intro w a w' ran
  rw [exec_bind, Renderer.count, exec_measure] at ran
  exact ⟨[v], rfl, .visit (call _ a w' ran) (.nil w')⟩

variable {one : Value → Run ι σ Value} {walk : Value → Option (List (Visit ι))}

theorem keyed {items : List Value}
    (each : ∀ u ∈ items, Passes ask r (walk u) Value (one u)) (name : String) (index : Nat) :
    Passes ask r (Visit.ofAll walk items) (List Value)
      (Renderer.keyed name one index items) := by
  induction items generalizing index with
  | nil => exact pure []
  | cons item rest ih =>
    simp only [List.mem_cons, forall_eq_or_imp] at each
    exact each.1.bind fun _ => (ih each.2 (index + 1)).last fun _ => pure _

theorem slot {v : Value} (each : ∀ u ∈ v.inSlot, Passes ask r (walk u) Value (one u)) :
    Passes ask r (Visit.ofAll walk v.inSlot) Value (Renderer.slot one v) := by
  have alone (u : Value) : Visit.ofAll walk [u] = walk u := Visit.andThen_nil _
  cases v with
  | node n =>
    rw [show (Value.node n).inSlot = [.node n] from rfl, alone]
    exact each (.node n) (by simp [Value.inSlot])
  | dict es =>
    cases typed : Entries.contains es "type" with
    | true =>
      have inside : (Value.dict es).inSlot = [.dict es] := by simp [Value.inSlot, typed]
      rw [inside, alone, Renderer.slot, if_pos typed]
      exact each _ (by simp [inside])
    | false =>
      have inside : (Value.dict es).inSlot = [] := by simp [Value.inSlot, typed]
      rw [inside, Renderer.slot, if_neg (by simp [typed])]
      exact pure _
  | list items | tuple items => exact (keyed each "key" 0).map Value.list
  | keyed key output => exact (keyed each "key" 0).map Value.list
  | _ => exact pure _

theorem slots {names : List Value} {props : Dict} (once : (names.filterMap Value.word?).Nodup)
    (each : ∀ u ∈ Renderer.inSlots (names.filterMap Value.word?) props,
      Passes ask r (walk u) Value (one u)) :
    Passes ask r (Visit.ofAll walk (Renderer.inSlots (names.filterMap Value.word?) props)) Dict
      (Renderer.slots one names props) := by
  induction names generalizing props with
  | nil => exact pure props
  | cons name rest ih =>
    unfold Renderer.slots
    split
    · exact throw _
    · cases named : name.word? with
      | none =>
        simp only [List.filterMap_cons, named] at once each ⊢
        exact ih once each
      | some word =>
        simp only [List.filterMap_cons, named, List.nodup_cons, Renderer.inSlots_cons,
          List.mem_append, or_imp, forall_and, Visit.ofAll_append] at once each ⊢
        cases found : Entries.find? props word with
        | none => simpa [found, Visit.ofAll] using ih once.2 each.2
        | some v =>
          simp only [found, Option.map_some, Option.getD_some, Option.bind_some] at each ⊢
          refine (slot each.1).bind fun output => ?_
          -- The slot that was filled is not among those to come.
          rw [← Renderer.inSlots_insert props output once.1] at each ⊢
          exact ih once.2 each.2

theorem registered {n : Node} {e : Entry ι} (once : e.slots.Nodup) {type : String}
    (found : Entries.find? r.registry type = some e)
    (each : ∀ u ∈ Renderer.inner n e, Passes ask r (walk u) Value (one u)) :
    Passes ask r
      (Visit.andThen (Visit.ofAll walk (Renderer.inner n e)) (some [.rendered e.component])) Value
      (r.registered ask one n e) := by
  simp only [Renderer.inner, List.mem_append, or_imp, forall_and] at each
  rw [Renderer.inner, Visit.ofAll_append, Visit.andThen_assoc]
  have props : Passes ask r (Visit.ofAll walk (Renderer.inSlots e.slots
      (Entries.merge e.defaultProps n.props))) Dict (r.buildProps one n e) :=
    (slots once each.1).last fun _ => (ofExcept _).last fun _ => pure _
  have children : Passes ask r (Visit.ofAll walk ((n.children.getD []).map .node))
      (Option (List Value)) (Renderer.children one n) := by
    unfold Renderer.children
    split
    · next absent => simpa [absent, Visit.ofAll] using pure none
    · next empty => simpa [empty, Visit.ofAll] using pure none
    · next ns _ there =>
      rw [there, Option.getD_some] at each ⊢
      exact (keyed each.2 "key" 0).map some
  exact props.bind fun props => children.bind fun inside =>
    visit (v := .rendered e.component) fun w o w' asked => .rendered found asked

theorem unregistered (type : String) :
    Passes ask r (some [r.visitUnknown type]) Value (r.unregistered ask type) := by
  refine silent (log _ _ _) fun _ => ?_
  unfold Renderer.visitUnknown
  cases set : r.fallback with
  | some part =>
    exact visit (v := .fallback part type) fun w o w' asked => .fallback set asked
  | none =>
    refine visit (v := .omitted) fun w o w' ran => ?_
    cases ran
    exact .omitted w

theorem node (once : r.SlotsOnce) (levels : Nat) (v : Value) :
    Passes ask r (r.walk levels v) Value (r.node ask levels v) := by
  induction levels generalizing v with
  | zero => exact throw _
  | succ levels ih =>
    unfold Renderer.node Renderer.walk
    cases read : Node.ofValue v with
    | unhashable type => exact throw _
    | faults fs =>
      refine silent (log _ _ _) fun _ => visit (v := .malformed) fun w o w' ran => ?_
      cases ran
      exact .malformed w
    | ok n =>
      dsimp only
      cases found : Entries.find? r.registry n.type with
      | none => exact unregistered n.type
      | some e => exact registered (once n.type e found) found fun u _ => ih u

end Run.Passes

/-- What can be seen of visits: the calls of components and of the fallback, and the counting of
nodes by their status. -/
inductive Mark (ι : Type) where
  | component (part : ι)
  | fallback (part : ι) (type : String)
  | counted (status : String)
deriving DecidableEq, Repr

def Event.mark? : Event ι → Option (Mark ι)
  | asked part (.component ..) _ => some (.component part)
  | asked part (.fallback type) _ => some (.fallback part type)
  | measured (.node status) => some (.counted status)
  | _ => none

def Visit.call : Visit ι → List (Mark ι)
  | rendered part => [.component part]
  | fallback part type => [.fallback part type]
  | omitted | malformed => []

def Visit.marks (metered : Bool) (v : Visit ι) : List (Mark ι) :=
  (if metered then [.counted v.status.name] else []) ++ v.call

/-- When they are asked by the renderer, the parts of the client answer and do nothing else. -/
def Client.OnlyAnswers (c : Client ι σ) (r : Renderer ι) : Prop :=
  ∀ part what state, r.Asks part what → ∃ o, (c.respond part what state).1 = .finish o

theorem Client.OnlyAnswers.exec_ask {c : Client ι σ} {r : Renderer ι} (h : c.OnlyAnswers r)
    {part : ι} {what : Request} (asks : r.Asks part what) (levels nesting : Nat)
    (w : World ι σ) :
    ∃ o w', Run.exec (c.ask levels nesting part what) w = (.ok o, w') ∧
      w'.journal = w.journal ++ [.asked part what w.context] := by
  obtain ⟨o, answer⟩ := h part what w.client asks
  let asked : World ι σ := { w with client := (c.respond part what w.client).2 }
  refine ⟨o, asked.after [.asked part what w.context], ?_, rfl⟩
  cases nesting <;> rw [Client.ask, Client.exec_request] <;>
    simp [answer, Reaction.carryOut, asked]

theorem Visit.Calls.marks {e : Engine ι σ} {r : Renderer ι} (answers : e.client.OnlyAnswers r)
    {v : Visit ι} {w w' : World ι σ} (h : v.Calls e.ask r w w') :
    ∃ es, w'.journal = w.journal ++ es ∧ es.filterMap Event.mark? = v.call := by
  cases h with
  | @rendered type entry props children o _ _ found asked =>
    obtain ⟨_, _, ran, added⟩ := answers.exec_ask
      (.inl ⟨type, entry, props, children, found, rfl, rfl⟩) e.levels e.nesting w
    cases asked.symm.trans ran
    exact ⟨_, added, rfl⟩
  | @fallback part type o _ _ set asked =>
    obtain ⟨_, _, ran, added⟩ :=
      answers.exec_ask (.inr ⟨type, set, rfl⟩) e.levels e.nesting w
    cases asked.symm.trans ran
    exact ⟨_, added, rfl⟩
  | omitted => exact ⟨[], by simp, rfl⟩
  | malformed => exact ⟨[], by simp, rfl⟩

theorem Passage.marks {e : Engine ι σ} {r : Renderer ι} (answers : e.client.OnlyAnswers r)
    {w w' : World ι σ} {vs : List (Visit ι)} (h : Passage e.ask r w vs w') :
    ∃ es, w'.journal = w.journal ++ es ∧
      es.filterMap Event.mark? = vs.flatMap (Visit.marks r.metered) := by
  induction h with
  | nil => exact ⟨[], by simp, rfl⟩
  | @logged record w w' vs _ ih =>
    obtain ⟨es, added, said⟩ := ih
    exact ⟨.logged record :: es, by simp [added], said⟩
  | @visit v w w₁ w' vs call _ ih =>
    obtain ⟨called, first, mark⟩ := call.marks answers
    obtain ⟨es, added, said⟩ := ih
    refine ⟨(if r.metered then [.measured (.node v.status.name)] else []) ++ called ++ es,
      by simp [added, first], ?_⟩
    rw [List.filterMap_append, List.filterMap_append, mark, said, List.flatMap_cons, Visit.marks]
    cases r.metered <;> rfl

def Mark.isCount : Mark ι → Bool
  | counted _ => true
  | _ => false

theorem Event.countP_isNodeCount (es : List (Event ι)) :
    es.countP Event.isNodeCount = (es.filterMap Event.mark?).countP Mark.isCount := by
  rw [List.countP_filterMap]
  refine List.countP_congr fun e _ => ?_
  cases e with
  | asked part what context => cases what <;> simp [isNodeCount, mark?, Mark.isCount]
  | measured m => cases m <;> simp [isNodeCount, mark?, Mark.isCount, Measurement.isNode]
  | _ => simp [isNodeCount, mark?]

theorem Visit.countP_marks (metered : Bool) (vs : List (Visit ι)) :
    (vs.flatMap (marks metered)).countP Mark.isCount = if metered then vs.length else 0 := by
  have one (v : Visit ι) : (v.marks metered).countP Mark.isCount = if metered then 1 else 0 := by
    cases metered <;> cases v <;> rfl
  induction vs with
  | nil => cases metered <;> rfl
  | cons v vs ih =>
    rw [List.flatMap_cons, List.countP_append, one, ih]
    cases metered
    · rfl
    · simp [Nat.add_comm]

namespace Engine

/-- A render that returns is the walk from below through the nodes that it comes to, which more
levels do not change: every render that it comes to is one visit, in its turn, and nothing else is
counted or called by the renderer. If the client only answers, then this is all that can be seen,
and the nodes counted are as many as the renders. -/
theorem render_postOrder (e : Engine ι σ) {r : Renderer ι} (once : r.SlotsOnce) {v o : Value}
    {w w' : World ι σ} (returned : Run.exec (e.render r v) w = (.ok o, w')) :
    ∃ vs, (∀ levels, e.levels ≤ levels → r.walk levels v = some vs) ∧
      vs.length = r.renders e.levels v ∧
      Passage e.ask r w vs w' ∧
      (e.client.OnlyAnswers r → ∃ es, w'.journal = w.journal ++ es ∧
        es.filterMap Event.mark? = vs.flatMap (Visit.marks r.metered) ∧
        (Metrics.ofEvents w'.journal).nodeTotal = (Metrics.ofEvents w.journal).nodeTotal +
          if r.metered then r.renders e.levels v else 0) := by
  obtain ⟨vs, walk, passage⟩ := Run.Passes.node once e.levels v w o w' returned
  have length := Renderer.length_walk walk
  refine ⟨vs, fun levels le => Renderer.walk_mono le walk, length, passage, fun answers => ?_⟩
  obtain ⟨es, added, seen⟩ := passage.marks answers
  refine ⟨es, added, seen, ?_⟩
  rw [Metrics.nodeTotal_ofEvents, Metrics.nodeTotal_ofEvents, added, List.countP_append,
    Event.countP_isNodeCount es, seen, Visit.countP_marks, length]

/-- A list in a slot comes before the children, and an unknown type is left out on the way. -/
theorem render_postOrder_slot :
    let node (type : String) : Value := .dict [("type", .str type)]
    let v : Value := .dict [("type", .str "A"),
      ("props", .dict [("header", .list [node "B", node "X", .null])]),
      ("children", .list [node "C"])]
    let entry (part : Nat) : Entry Nat := ⟨part, [], [], [.str "header"], .bool true⟩
    let r : Renderer Nat :=
      { registry := [("A", entry 0), ("B", entry 1), ("C", entry 2)], metered := true }
    let client : Client Nat Unit :=
      { respond := fun _ _ state => (.finish .null, state), listener := fun _ => 0 }
    let e : Engine Nat Unit := { client, nesting := 0, levels := 3 }
    let w' := (Run.exec (e.render r v) { client := () }).2
    r.walk 3 v = some [.rendered 1, .omitted, .malformed, .rendered 2, .rendered 0] ∧
      w'.journal.filterMap Event.mark? =
        [.counted "rendered", .component 1, .counted "omitted", .counted "malformed",
          .counted "rendered", .component 2, .counted "rendered", .component 0] ∧
      (Metrics.ofEvents w'.journal).nodeTotal = 5 := by
  intro node v entry r client e w'
  have once : r.SlotsOnce := by
    intro type e found
    have member : e = entry 0 ∨ e = entry 1 ∨ e = entry 2 := by
      have listed := Entries.mem_of_find? found
      simp only [r, List.mem_cons, Prod.mk.injEq, List.not_mem_nil, or_false] at listed
      exact listed.imp And.right (Or.imp And.right And.right)
    rcases member with rfl | rfl | rfl <;> simp [entry, Entry.slots, Value.word?]
  have returned : Run.exec (e.render r v) { client := () } = (.ok .null, w') :=
    Prod.ext rfl rfl
  have walk : r.walk 3 v = some [.rendered 1, .omitted, .malformed, .rendered 2, .rendered 0] := by
    rfl
  obtain ⟨vs, walks, length, -, plain⟩ := render_postOrder e once returned
  obtain ⟨es, added, seen, total⟩ := plain fun _ _ _ _ => ⟨_, rfl⟩
  cases walk.symm.trans (walks 3 (Nat.le_refl 3))
  refine ⟨walk, ?_, ?_⟩
  · rw [added, List.nil_append, seen]
    rfl
  · rw [total, ← length]
    rfl

end Engine

end ServerUI
