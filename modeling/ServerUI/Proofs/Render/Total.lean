import Mathlib.Logic.Relation
import ServerUI.Proofs.Render.Nested
import ServerUI.Proofs.Run.Ends
import ServerUI.Proofs.Validation.Lookup

/-!
Rendering fails at nothing that a server sends but a `type` that cannot be looked up: what is
malformed or not registered is left out, and everything else becomes what its component makes of
it. Where no slot is listed twice, a value that is not too deep for the levels is rendered to an
end; otherwise rendering may meet again, without end, what a component has put into a slot.
-/

set_option autoImplicit false

namespace ServerUI

variable {ι σ : Type}

namespace Callback

theorem exists_of_toValue (listener : Listener) (es : Entries Instruction) :
    ∃ callbacks, ofEntries listener true (es.map fun (name, i) => (name, i.toValue)) =
      .ok callbacks := by
  have one (prop : String) (i : Instruction) :
      ∃ callback, ofAction listener prop i.toValue true = .ok callback := by
    unfold ofAction
    split
    · exact ⟨_, rfl⟩
    · cases i <;> simp only [Instruction.toValue, Value.actionTag] <;> split <;> exact ⟨_, rfl⟩
  induction es with
  | nil => exact ⟨[], rfl⟩
  | cons e rest ih =>
      obtain ⟨callback, first⟩ := one e.1 e.2
      obtain ⟨others, next⟩ := ih
      exact ⟨(e.1, callback) :: others, by simp [ofEntries, first, next, Except.map]⟩

end Callback

namespace Renderer

variable {ask : Ask ι σ} {r : Renderer ι} {one : Value → Run ι σ Value} {F : Failure → Prop}
  {P : Value → Prop}

theorem ends_keyed {name : String} {index : Nat} {items : List Value}
    (each : ∀ u ∈ items, Run.Ends F P (one u)) :
    Run.Ends F (fun outputs => ∀ o ∈ outputs, ∃ key v, o = .keyed key v)
      (keyed name one index items) := by
  induction items generalizing index with
  | nil => exact Run.ends_pure (by simp)
  | cons item rest ih =>
      simp only [List.mem_cons, forall_eq_or_imp] at each
      refine each.1.bind fun output _ => (ih each.2).bind fun others keyed => Run.ends_pure ?_
      split
      · exact keyed
      · simpa using keyed

/-- What a slot that held `v` comes to hold: what was rendered in it, or nothing that can be rendered
again but outputs with their keys; and nothing at all where there was nothing to render. -/
def Filled (P : Value → Prop) (v o : Value) : Prop :=
  (v.inSlot = [] → o.inSlot = []) ∧ (P o ∨ ∀ u ∈ o.inSlot, ∃ key v, u = .keyed key v)

theorem Filled.exists_mem {v o u : Value} (h : Filled P v o) (member : u ∈ o.inSlot) :
    ∃ first, first ∈ v.inSlot := by
  refine List.exists_mem_of_ne_nil _ fun empty => ?_
  simp [h.1 empty] at member

theorem ends_slot {v : Value} (each : ∀ u ∈ v.inSlot, Run.Ends F P (one u)) :
    Run.Ends F (Filled P v) (slot one v) := by
  have listed {items : List Value} (holds : v.inSlot = items)
      (each : ∀ u ∈ items, Run.Ends F P (one u)) :
      Run.Ends F (Filled P v) (Value.list <$> nodes one items) := by
    cases items with
    | nil => exact Run.ends_pure ⟨fun _ => rfl, .inr (by simp [Value.inSlot])⟩
    | cons item rest =>
        exact (ends_keyed each).map fun outputs keyed => ⟨by simp [holds], .inr keyed⟩
  have kept (empty : v.inSlot = []) : Run.Ends F (Filled P v) (pure v : Run ι σ Value) :=
    Run.ends_pure ⟨id, .inr (by simp [empty])⟩
  have held (holds : v.inSlot = [v]) : Run.Ends F (Filled P v) (one v) :=
    (each v (by simp [holds])).mono (fun _ h => h) fun _ h => ⟨by simp [holds], .inl h⟩
  cases v with
  | node n => exact held rfl
  | dict es =>
      unfold slot
      dsimp only
      cases typed : Entries.contains es "type" with
      | true => exact held (by simp [Value.inSlot, typed])
      | false => exact kept (by simp [Value.inSlot, typed])
  | list items | tuple items => exact listed rfl each
  | keyed key output => exact listed rfl each
  | _ => exact kept rfl

theorem ends_slots {names : List Value} {props : Dict}
    (named : ∀ name ∈ names, ∀ t, name.unhashable? = some t → F (.unhashable t))
    (each : ∀ u ∈ inSlots (names.filterMap Value.word?) props, Run.Ends F P (one u))
    (again : ∀ u ∈ inSlots (names.filterMap Value.word?) props,
      (names.filterMap Value.word?).Nodup ∨
        ∀ v o, Filled P v o → ∀ u ∈ o.inSlot, Run.Ends F P (one u)) :
    Run.Ends F (fun _ => True) (slots one names props) := by
  induction names generalizing props with
  | nil => exact Run.ends_pure trivial
  | cons name rest ih =>
      simp only [List.mem_cons, forall_eq_or_imp] at named
      unfold slots
      split
      · next t unhashable => exact Run.ends_throw (named.1 t unhashable)
      · cases spelled : name.word? with
        | none =>
            simp only [List.filterMap_cons, spelled] at again each
            exact ih named.2 each again
        | some word =>
            simp only [List.filterMap_cons, spelled] at again each
            have behind {u : Value} (member : u ∈ inSlots (rest.filterMap Value.word?) props) :
                u ∈ inSlots (word :: rest.filterMap Value.word?) props :=
              List.mem_append_right _ member
            have tail {u : Value} (member : u ∈ inSlots (word :: rest.filterMap Value.word?) props) :=
              (again u member).imp_left fun once => (List.nodup_cons.mp once).2
            cases found : Entries.find? props word with
            | none =>
                simp only [Option.bind_some, found, Option.map_none]
                exact ih named.2 (fun u member => each u (behind member))
                  fun u member => tail (behind member)
            | some v =>
                have here {u : Value} (member : u ∈ v.inSlot) :
                    u ∈ inSlots (word :: rest.filterMap Value.word?) props :=
                  mem_inSlots.mpr ⟨word, by simp, v, found, member⟩
                simp only [Option.bind_some, found, Option.map_some]
                refine (ends_slot fun u member => each u (here member)).bind fun output filled => ?_
                refine ih named.2 (fun u member => ?_) fun u member => ?_
                · rcases mem_inSlots_insert member with before | ⟨listed, inside⟩
                  · exact each u (behind before)
                  · -- The slot is listed again, and now holds what was rendered in it.
                    obtain ⟨first, member⟩ := filled.exists_mem inside
                    rcases again first (here member) with once | again
                    · exact absurd listed (List.nodup_cons.mp once).1
                    · exact again v output filled u inside
                · rcases mem_inSlots_insert member with before | ⟨-, inside⟩
                  · exact tail (behind before)
                  · obtain ⟨first, member⟩ := filled.exists_mem inside
                    exact tail (here member)

/-- The components and the fallback never fail, and what they answer is as in `P`. -/
structure Answers (ask : Ask ι σ) (r : Renderer ι) (P : Value → Prop) : Prop where
  component {type : String} {e : Entry ι} (h : Entries.find? r.registry type = some e)
    (props : Dict) (children : Option (List Value)) :
    Run.Ends (fun _ => False) P (ask e.component (.component props children))
  fallback {part : ι} (h : r.fallback = some part) (type : String) :
    Run.Ends (fun _ => False) P (ask part (.fallback type))

/-- Every slot has a name that can be looked up. -/
def SlotsNamed (r : Renderer ι) : Prop :=
  ∀ type e, Entries.find? r.registry type = some e →
    ∀ name ∈ e.childrenProps, name.unhashable? = none

/-- Slots can only be looked up with a failure as in `F`. -/
def SlotsFail (F : Failure → Prop) (r : Renderer ι) : Prop :=
  ∀ type e, Entries.find? r.registry type = some e →
    ∀ name ∈ e.childrenProps, ∀ t, name.unhashable? = some t → F (.unhashable t)

theorem SlotsNamed.fail (named : r.SlotsNamed) : SlotsFail F r :=
  fun type e found name member t unhashable => by
    simp [named type e found name member] at unhashable

theorem exists_callbacks (r : Renderer ι) (e : Entry ι) (actions : Option (Entries Instruction)) :
    ∃ bound, r.callbacks e actions = .ok bound := by
  unfold callbacks
  split
  · exact Callback.exists_of_toValue _ _
  · exact ⟨[], rfl⟩

theorem ends_registered {type : String} {n : Node} {e : Entry ι} (answers : Answers ask r P)
    (named : SlotsFail F r) (found : Entries.find? r.registry type = some e)
    (each : ∀ u ∈ inner n e, Run.Ends F P (one u))
    (again : ∀ u ∈ inner n e,
      e.slots.Nodup ∨ ∀ v o, Filled P v o → ∀ u ∈ o.inSlot, Run.Ends F P (one u)) :
    Run.Ends F P (r.registered ask one n e) := by
  have props : Run.Ends F (fun _ => True) (r.buildProps one n e) := by
    obtain ⟨bound, ok⟩ := r.exists_callbacks e n.actions
    refine (ends_slots (named type e found)
      (fun u member => each u (List.mem_append_left _ member))
      fun u member => again u (List.mem_append_left _ member)).bind fun _ _ => ?_
    rw [ok]
    exact Run.ends_pure trivial
  have inside : Run.Ends F (fun _ => True) (children one n) := by
    unfold children
    split
    · exact Run.ends_pure trivial
    · exact Run.ends_pure trivial
    · next ns _ there =>
        have members : ∀ u ∈ ns.map Value.node, Run.Ends F P (one u) := fun u member =>
          each u (List.mem_append_right _ (by simpa [there] using member))
        exact (ends_keyed members).map fun _ _ => trivial
  refine props.bind fun props _ => inside.bind fun children _ => ?_
  exact (Run.ends_measure _ _).bind fun _ _ =>
    (answers.component found props children).mono (fun _ => False.elim) fun _ h => h

theorem ends_unregistered (answers : Answers ask r P) (null : P .null) (type : String) :
    Run.Ends F P (r.unregistered ask type) := by
  refine (Run.ends_log _ _ _).bind fun _ _ => ?_
  split
  · next part fallback =>
      exact (Run.ends_measure _ _).bind fun _ _ =>
        (answers.fallback fallback type).mono (fun _ => False.elim) fun _ h => h
  · exact (Run.ends_measure _ _).bind fun _ _ => Run.ends_pure null

/-- One level of rendering, given the next one. -/
theorem ends_node {levels : Nat} {v : Value} (answers : Answers ask r P) (null : P .null)
    (named : SlotsFail F r) (readable : ∀ t, Node.ofValue v = .unhashable t → F (.unhashable t))
    (each : ∀ u ∈ r.calls v, Run.Ends F P (r.node ask levels u))
    (again : ∀ u ∈ r.calls v, r.SlotsOnce ∨
      ∀ v o, Filled P v o → ∀ u ∈ o.inSlot, Run.Ends F P (r.node ask levels u)) :
    Run.Ends F P (r.node ask (levels + 1) v) := by
  unfold node
  split
  · next t stopped => exact Run.ends_throw (readable t stopped)
  · exact (Run.ends_log _ _ _).bind fun _ _ => (Run.ends_measure _ _).bind fun _ _ =>
      Run.ends_pure null
  · next n read =>
      split
      · exact ends_unregistered answers null n.type
      · next e found =>
          have call {u : Value} (member : u ∈ inner n e) : u ∈ r.calls v :=
            mem_calls.mpr ⟨n, e, read, found, member⟩
          exact ends_registered answers named found (fun u member => each u (call member))
            fun u member => (again u (call member)).imp_left fun once => once n.type e found

/-- The value can be looked up, and whatever is rendered inside it, at any level. -/
def Readable (r : Renderer ι) (v : Value) : Prop :=
  ∀ u, Relation.ReflTransGen (fun v u => u ∈ r.calls v) v u → ∀ t, Node.ofValue u ≠ .unhashable t

theorem Readable.here {v : Value} (h : r.Readable v) : ∀ t, Node.ofValue v ≠ .unhashable t :=
  h v .refl

theorem Readable.inside {v u : Value} (h : r.Readable v) (call : u ∈ r.calls v) : r.Readable u :=
  fun w reached => h w (reached.head call)

theorem readable_keyed (key v : Value) : r.Readable (.keyed key v) := by
  have read : Node.ofValue (.keyed key v) = .fault .model := rfl
  intro u reached
  rcases reached.cases_head with rfl | ⟨w, call, -⟩
  · simp [read, Checked.fault]
  · simp [calls, read, Checked.fault] at call

end Renderer

namespace Value.StandsFor

variable {r : Renderer ι} {part v u : Value}

theorem ne_unhashable (stands : part.StandsFor v) (lookable : part.Lookable) (t : String) :
    Node.ofValue v ≠ .unhashable t := by
  cases stands with
  | self => exact Node.blames_ofValue lookable.blames t
  | node => simp [Node.ofValue_node]

theorem reached (stands : part.StandsFor v) (bare : r.SlotsBare) (plain : part.IsJson)
    (h : Relation.ReflTransGen (fun v u => u ∈ r.calls v) v u) :
    ∃ q : Value, q.Occurs part ∧ q.depth ≤ part.depth ∧ q.StandsFor u := by
  induction h with
  | refl => exact ⟨part, .here, Nat.le_refl _, stands⟩
  | tail _ call ih =>
      obtain ⟨q, occurs, shallow, stands⟩ := ih
      obtain ⟨q', inside, deeper, stands⟩ :=
        Renderer.exists_part_of_mem_calls bare (plain.occurring occurs) stands call
      exact ⟨q', inside.trans occurs, by omega, stands⟩

theorem readable (stands : part.StandsFor v) (bare : r.SlotsBare) (plain : part.IsJson)
    (lookable : part.Lookable) : r.Readable v := fun u h => by
  obtain ⟨q, occurs, -, stands⟩ := stands.reached bare plain h
  exact stands.ne_unhashable (lookable.occurring occurs)

end Value.StandsFor

namespace Renderer

variable {ask : Ask ι σ} {r : Renderer ι}

/-- What an answer is held to, as a slot that is listed twice is rendered again with the answer in
it: all that is rendered then can be looked up. -/
def Answerable (r : Renderer ι) (o : Value) : Prop := r.SlotsOnce ∨ ∀ u ∈ o.inSlot, r.Readable u

theorem answerable_null (r : Renderer ι) : r.Answerable .null := .inr (by simp [Value.inSlot])

theorem ends_of_depth_lt {part v : Value} (answers : Answers ask r r.Answerable)
    (named : r.SlotsNamed) (once : r.SlotsOnce) (bare : r.SlotsBare) (plain : part.IsJson)
    (lookable : part.Lookable) (stands : part.StandsFor v) {levels : Nat}
    (enough : part.depth < 2 * levels) :
    Run.Ends (fun _ => False) r.Answerable (r.node ask levels v) := by
  induction levels generalizing part v with
  | zero => omega
  | succ levels ih =>
      refine ends_node answers r.answerable_null named.fail
        (fun t stopped => absurd stopped (stands.ne_unhashable lookable t)) (fun u call => ?_)
        fun _ _ => .inl once
      obtain ⟨q, occurs, deeper, stands⟩ := exists_part_of_mem_calls bare plain stands call
      exact ih (plain.occurring occurs) (lookable.occurring occurs) stands (by omega)

theorem ends_of_readable {v : Value} (answers : Answers ask r r.Answerable) (named : r.SlotsNamed)
    (readable : r.Readable v) (levels : Nat) :
    Run.Ends (· = .nestingLimit) r.Answerable (r.node ask levels v) := by
  induction levels generalizing v with
  | zero => exact Run.ends_throw rfl
  | succ levels ih =>
      refine ends_node answers r.answerable_null named.fail
        (fun t stopped => absurd stopped (readable.here t))
        (fun u call => ih (readable.inside call)) fun _ _ => ?_
      by_cases once : r.SlotsOnce
      · exact .inl once
      · refine .inr fun v o filled u member => ih ?_
        rcases filled.2 with answered | keyed
        · exact answered.resolve_left once u member
        · obtain ⟨key, output, rfl⟩ := keyed u member
          exact r.readable_keyed key output

/-- A node is left out where it is malformed, or of a type without component or fallback. -/
def LeftOut (r : Renderer ι) (v : Value) : Prop :=
  (∃ fs, Node.ofValue v = .faults fs) ∨
    ∃ n, Node.ofValue v = .ok n ∧ Entries.find? r.registry n.type = none ∧ r.fallback = none

theorem LeftOut.exec_node {v : Value} (h : r.LeftOut v) (ask : Ask ι σ) (levels : Nat)
    (w : World ι σ) : ∃ w', Run.exec (r.node ask (levels + 1) v) w = (.ok .null, w') := by
  rcases h with ⟨fs, read⟩ | ⟨n, read, missing, alone⟩
  · simp only [node, read, malformed, count, Run.exec_bind, Run.exec_log, Run.exec_measure,
      Run.exec_pure]
    exact ⟨_, rfl⟩
  · simp only [node, read, missing, unregistered, alone, count, Run.exec_bind, Run.exec_log,
      Run.exec_measure, Run.exec_pure]
    exact ⟨_, rfl⟩

/-- Whatever a server sends, and every node reached in it, is rendered without failure as long as
what stands under `type` in it can be looked up; only the bound on levels may end it. No bound does
that which is beyond half the depth of the value, unless a slot is listed twice. -/
theorem node_returns (answers : Answers ask r r.Answerable) (named : r.SlotsNamed)
    (bare : r.SlotsBare) {v u : Value} (plain : v.IsJson) (lookable : v.Lookable)
    (reached : Relation.ReflTransGen (fun v u => u ∈ r.calls v) v u) (levels : Nat)
    (w : World ι σ) :
    (∀ f w', Run.exec (r.node ask levels u) w = (.error f, w') → f = .nestingLimit) ∧
    (r.SlotsOnce → v.depth / 2 < levels → ∃ o w', Run.exec (r.node ask levels u) w = (.ok o, w')) ∧
    (0 < levels → r.LeftOut u → ∃ w', Run.exec (r.node ask levels u) w = (.ok .null, w')) := by
  obtain ⟨q, occurs, shallow, stands⟩ := Value.StandsFor.self.reached bare plain reached
  have plain := plain.occurring occurs
  have lookable := lookable.occurring occurs
  refine ⟨fun f w' ran => ?_, fun once enough => ?_, fun some_level leftOut => ?_⟩
  · exact (ends_of_readable answers named (stands.readable bare plain lookable) levels).failure ran
  · exact (ends_of_depth_lt answers named once bare plain lookable stands (by omega)).returns w
  · obtain ⟨below, rfl⟩ := Nat.exists_eq_succ_of_ne_zero (Nat.pos_iff_ne_zero.mp some_level)
    exact leftOut.exec_node ask below w

/-- A component in the slot of another one is rendered, and so is the other one. -/
theorem node_returns_slot :
    let ask : Ask Unit Unit := fun _ _ => pure (.str "drawn")
    let r : Renderer Unit := { registry := [("A", ⟨(), [], [], [.str "header"], .bool true⟩)] }
    let u : Value := .dict [("type", .str "A")]
    let v : Value := .dict [("type", .str "A"), ("props", .dict [("header", u)])]
    (∃ o w', Run.exec (r.node ask 2 v) { client := () } = (.ok o, w')) ∧
      ∃ o w', Run.exec (r.node ask 2 u) { client := () } = (.ok o, w') := by
  intro ask r u v
  have entry {type : String} {e : Entry Unit} (h : Entries.find? r.registry type = some e) :
      e = ⟨(), [], [], [.str "header"], .bool true⟩ := by
    obtain ⟨-, rfl⟩ := Entries.find?_singleton_eq_some.mp h
    rfl
  have once : r.SlotsOnce := fun type e h => by simp [entry h, Entry.slots, Value.word?]
  have bare : r.SlotsBare := fun type e h word _ => by simp [entry h]
  have named : r.SlotsNamed := fun type e h name member => by
    obtain rfl : name = .str "header" := by simpa [entry h] using member
    rfl
  have answers : Answers ask r r.Answerable :=
    ⟨fun _ _ _ => Run.ends_pure (.inl once), fun _ _ => Run.ends_pure (.inl once)⟩
  have everywhere {P : Value → Prop} (leaf : P (.str "A")) (inner : P u)
      (props : P (.dict [("header", u)])) (outer : P v) : v.Everywhere P := by
    have inside : u.Everywhere P := .of_leaves inner (by simpa [Value.parts] using leaf)
    have around : (Value.dict [("header", u)]).Everywhere P :=
      .of_entries props (by simpa using inside)
    exact .of_entries outer (by simpa using ⟨.intro leaf (by simp [Value.parts]), around⟩)
  have plain : v.IsJson := everywhere rfl rfl rfl rfl
  have tagged {es : Dict} (found : Entries.find? es "type" ∈ [none, some (.str "A")]) :
      ∀ es' tag, Value.dict es = .dict es' → Entries.find? es' "type" = some tag →
        tag.unhashable? = none := by
    rintro _ tag ⟨⟩ there
    obtain rfl : tag = .str "A" := by simpa [there] using found
    rfl
  have lookable : v.Lookable := by
    refine everywhere (by simp) (tagged ?_) (tagged ?_) (tagged ?_) <;> simp [Entries.find?_cons]
  have calls : r.calls v = [u] := rfl
  have depth : v.depth = 3 := rfl
  have inside := (Relation.ReflTransGen.refl (r := fun v u => u ∈ r.calls v)).tail
    (show u ∈ r.calls v by simp [calls])
  exact ⟨(node_returns answers named bare plain lookable .refl 2 _).2.1 once (by omega),
    (node_returns answers named bare plain lookable inside 2 _).2.1 once (by omega)⟩

/-- A `type` that is a list ends the rendering of a node whose component never fails. -/
theorem node_listed_tag :
    let ask : Ask Unit Unit := fun _ _ => pure (.str "drawn")
    let r : Renderer Unit := { registry := [("A", ⟨(), [], [], [], .bool true⟩)] }
    let v : Value := .dict
      [("type", .str "A"), ("actions", .dict [("onPress", .dict [("type", .list [])])])]
    Answers ask r r.Answerable ∧ r.SlotsNamed ∧ r.SlotsBare ∧ v.IsJson ∧
      Run.exec (r.node ask 1000 v) { client := () } =
        (.error (.unhashable "list"), { client := () }) := by
  intro ask r v
  have entry {type : String} {e : Entry Unit} (h : Entries.find? r.registry type = some e) :
      e.childrenProps = [] := by
    obtain ⟨-, rfl⟩ := Entries.find?_singleton_eq_some.mp h
    rfl
  have once : r.SlotsOnce := fun type e h => by simp [entry h, Entry.slots]
  have answers : Answers ask r r.Answerable :=
    ⟨fun _ _ _ => Run.ends_pure (.inl once), fun _ _ => Run.ends_pure (.inl once)⟩
  have plain : v.IsJson := by
    have action : (Value.dict [("type", .list [])]).IsJson :=
      .of_leaves (by simp [Value.isPlain, Value.parts])
    have actions : (Value.dict [("onPress", .dict [("type", .list [])])]).IsJson :=
      .of_entries rfl (by simpa [Value.IsJson] using action)
    have tag : (Value.str "A").IsJson := .intro rfl (by simp [Value.parts])
    exact .of_entries rfl (by simpa [Value.IsJson] using ⟨tag, actions⟩)
  have read : Node.ofValue v = .unhashable "list" :=
    Node.ofValue_action_unhashable (Instruction.ofValue_unhashable rfl rfl)
  have named : r.SlotsNamed := fun type e h => by simp [entry h]
  have bare : r.SlotsBare := fun type e h => by simp [entry h, Entry.slots]
  refine ⟨answers, named, bare, plain, ?_⟩
  rw [node, read]
  rfl

end Renderer

end ServerUI
