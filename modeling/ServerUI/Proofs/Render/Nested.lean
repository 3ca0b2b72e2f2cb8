import ServerUI.Engine.Render
import ServerUI.Proofs.Descriptor.Parts
import ServerUI.Proofs.Payload.Depth

/-!
Which values a node renders inside it: its children and what its slots hold. They can be told before
anything is rendered, as long as no slot is listed twice and then holds what was rendered before.
What is rendered inside a node of a plain value stands for parts of the value that are at least two
levels deeper.
-/

set_option autoImplicit false

namespace ServerUI

namespace Value

/-- What is rendered when a slot holds the value. -/
def inSlot : Value → List Value
  | node n => [node n]
  | dict es => if Entries.contains es "type" then [dict es] else []
  | list items => items
  | tuple items => items
  | keyed key output => [key, output]
  | _ => []

end Value

/-- The slots of a component that a prop can fill. -/
def Entry.slots {κ : Type} (e : Entry κ) : List String := e.childrenProps.filterMap Value.word?

namespace Renderer

variable {ι σ : Type}

def inSlots (words : List String) (props : Dict) : List Value :=
  words.flatMap fun word => ((Entries.find? props word).map Value.inSlot).getD []

def inner (n : Node) (e : Entry ι) : List Value :=
  inSlots e.slots (Entries.merge e.defaultProps n.props) ++ (n.children.getD []).map .node

/-- The values whose rendering is started by the rendering of a value. -/
def calls (r : Renderer ι) (v : Value) : List Value :=
  match Node.ofValue v with
  | .ok n =>
      match Entries.find? r.registry n.type with
      | some e => inner n e
      | none => []
  | _ => []

theorem mem_inSlots {words : List String} {props : Dict} {u : Value} :
    u ∈ inSlots words props ↔
      ∃ word ∈ words, ∃ v, Entries.find? props word = some v ∧ u ∈ v.inSlot := by
  simp only [inSlots, List.mem_flatMap]
  refine exists_congr fun word => and_congr_right fun _ => ?_
  cases Entries.find? props word <;> simp

theorem mem_calls {r : Renderer ι} {v u : Value} :
    u ∈ r.calls v ↔
      ∃ n e, Node.ofValue v = .ok n ∧ Entries.find? r.registry n.type = some e ∧ u ∈ inner n e := by
  unfold calls
  cases Node.ofValue v with
  | ok n => cases found : Entries.find? r.registry n.type <;> simp [found]
  | faults => simp
  | unhashable => simp

/-- No entry lists a slot twice. -/
def SlotsOnce (r : Renderer ι) : Prop :=
  ∀ type e, Entries.find? r.registry type = some e → e.slots.Nodup

/-- No entry has a default for one of its slots. -/
def SlotsBare (r : Renderer ι) : Prop :=
  ∀ type e, Entries.find? r.registry type = some e →
    ∀ word ∈ e.slots, Entries.find? e.defaultProps word = none

-- What a slot is filled with is rendered only if the slot is still to come.
theorem mem_inSlots_insert {words : List String} {word : String} {props : Dict} {v u : Value}
    (h : u ∈ inSlots words (Entries.insert props word v)) :
    u ∈ inSlots words props ∨ word ∈ words ∧ u ∈ v.inSlot := by
  obtain ⟨other, listed, held, there, inside⟩ := mem_inSlots.mp h
  by_cases same : other = word
  · rw [same, Entries.find?_insert_self, Option.some.injEq] at there
    exact .inr ⟨same ▸ listed, there ▸ inside⟩
  · rw [Entries.find?_insert_of_ne _ _ same] at there
    exact .inl (mem_inSlots.mpr ⟨other, listed, held, there, inside⟩)

section Congruence

variable {ask : Ask ι σ} {r : Renderer ι} {one one' : Value → Run ι σ Value}

theorem keyed_congr {name : String} {index : Nat} {items : List Value}
    (h : ∀ u ∈ items, one u = one' u) :
    keyed name one index items = keyed name one' index items := by
  induction items generalizing index with
  | nil => rfl
  | cons item rest ih =>
      simp only [List.mem_cons, forall_eq_or_imp] at h
      rw [keyed, keyed, h.1, ih h.2]

theorem slot_congr {v : Value} (h : ∀ u ∈ v.inSlot, one u = one' u) : slot one v = slot one' v := by
  cases v with
  | node n => exact h (.node n) (by simp [Value.inSlot])
  | dict es =>
      cases typed : Entries.contains es "type" with
      | true =>
          have same : one (.dict es) = one' (.dict es) := h _ (by simp [Value.inSlot, typed])
          simp only [slot, typed, if_true, same]
      | false => simp [slot, typed]
  | list items | tuple items =>
      have same : nodes one items = nodes one' items := keyed_congr h
      simp only [slot, same]
  | keyed key output =>
      have same : nodes one [key, output] = nodes one' [key, output] := keyed_congr h
      simp only [slot, same]
  | _ => rfl

theorem slots_congr {names : List Value} {props : Dict}
    (once : (names.filterMap Value.word?).Nodup)
    (h : ∀ u ∈ inSlots (names.filterMap Value.word?) props, one u = one' u) :
    slots one names props = slots one' names props := by
  induction names generalizing props with
  | nil => rfl
  | cons name rest ih =>
      unfold slots
      split
      · rfl
      · cases named : name.word? with
        | none =>
            simp only [List.filterMap_cons, named] at once h
            exact ih once h
        | some word =>
            simp only [List.filterMap_cons, named, List.nodup_cons] at once h
            have rest_congr (output : Value) :
                slots one rest (Entries.insert props word output) =
                  slots one' rest (Entries.insert props word output) := by
              refine ih once.2 fun u member => h u ?_
              have before := (mem_inSlots_insert member).resolve_right fun h => once.1 h.1
              exact List.mem_append_right _ before
            cases found : Entries.find? props word with
            | none =>
                simp only [Option.bind_some, found, Option.map_none]
                exact ih once.2 fun u member => h u (List.mem_append_right _ member)
            | some v =>
                have here : slot one v = slot one' v :=
                  slot_congr fun u member => h u (mem_inSlots.mpr ⟨word, by simp, v, found, member⟩)
                simp only [Option.bind_some, found, Option.map_some, here, rest_congr]

theorem registered_congr {n : Node} {e : Entry ι} (once : e.slots.Nodup)
    (h : ∀ u ∈ inner n e, one u = one' u) :
    r.registered ask one n e = r.registered ask one' n e := by
  have props : r.buildProps one n e = r.buildProps one' n e := by
    have inside := slots_congr once fun u member => h u (List.mem_append_left _ member)
    rw [buildProps, buildProps, inside]
  have inside : children one n = children one' n := by
    unfold children
    split
    · rfl
    · rfl
    · next ns there =>
        rw [nodes, nodes, keyed_congr fun u member => h u (List.mem_append_right _ ?_)]
        simpa [there] using member
  rw [registered, registered, props, inside]

/-- What a node becomes depends on nothing but what the values rendered inside it become. -/
theorem node_congr {levels levels' : Nat} {v : Value} (once : r.SlotsOnce)
    (h : ∀ u ∈ r.calls v, r.node ask levels u = r.node ask levels' u) :
    r.node ask (levels + 1) v = r.node ask (levels' + 1) v := by
  unfold node
  split
  · rfl
  · rfl
  · next n read =>
      split
      · rfl
      · next e found =>
          exact registered_congr (once n.type e found) fun u member =>
            h u (mem_calls.mpr ⟨n, e, read, found, member⟩)

end Congruence

end Renderer

namespace Value

/-- What is rendered for a part of a plain value: the part itself, or the node read from it. -/
inductive StandsFor (part : Value) : Value → Prop
  | self : StandsFor part part
  | node {levels : Nat} {n : Node} (read : Node.within levels part = .ok n) :
      StandsFor part (.node n)

variable {part u v : Value} {n : Node}

theorem StandsFor.origin (h : part.StandsFor v) (read : Node.ofValue v = .ok n) :
    part = .node n ∨ ∃ es below, part = .dict es ∧ Node.ofFields (Node.within below) es = .ok n := by
  cases h with
  | self => exact Node.within_eq_ok read
  | node earlier =>
      obtain rfl : _ = n := by simpa [Node.ofValue_node] using read
      exact Node.within_eq_ok earlier

theorem StandsFor.fields (h : part.StandsFor v) (plain : part.IsJson)
    (read : Node.ofValue v = .ok n) :
    ∃ es below, part = .dict es ∧ Node.ofFields (Node.within below) es = .ok n := by
  refine (h.origin read).resolve_left ?_
  rintro rfl
  simpa [isPlain] using plain.here

theorem IsJson.part_of_part (plain : v.IsJson) {w : Value} (outer : w ∈ v.parts)
    (inner : u ∈ w.parts) : u.Occurs v ∧ u.depth + 2 ≤ v.depth := by
  have := depth_lt_of_mem_parts plain.here outer
  have := depth_lt_of_mem_parts (plain.inside w outer).here inner
  exact ⟨.part outer (.part inner .here), by omega⟩

theorem occurs_of_mem_inSlot (plain : v.IsJson) (h : u ∈ v.inSlot) :
    u.Occurs v ∧ u.depth ≤ v.depth := by
  cases v with
  | node | tuple | keyed => exact absurd plain.here (by simp [isPlain])
  | dict es =>
      simp only [inSlot] at h
      split at h
      · obtain rfl : u = .dict es := by simpa using h
        exact ⟨.here, Nat.le_refl _⟩
      · simp at h
  | list items => exact ⟨.part h .here, Nat.le_of_lt (depth_lt_of_mem_parts plain.here h)⟩
  | _ => simp [inSlot] at h

end Value

/-- What is rendered inside a node stands for a part of the value that the node stands for, two
levels deeper at least. -/
theorem Renderer.exists_part_of_mem_calls {ι : Type} {r : Renderer ι} (bare : r.SlotsBare)
    {part v u : Value} (plain : part.IsJson) (stands : part.StandsFor v) (h : u ∈ r.calls v) :
    ∃ q : Value, q.Occurs part ∧ q.depth + 2 ≤ part.depth ∧ q.StandsFor u := by
  obtain ⟨n, e, read, found, inside⟩ := mem_calls.mp h
  obtain ⟨es, below, rfl, fields⟩ := stands.fields plain read
  rcases List.mem_append.mp inside with slot | child
  · obtain ⟨word, listed, held, there, inSlot⟩ := mem_inSlots.mp slot
    rcases Entries.find?_merge_eq_some there with prop | default
    · obtain ⟨w, outer, inner⟩ := Node.part_of_mem_props fields prop
      obtain ⟨occurs, deeper⟩ := plain.part_of_part outer inner
      obtain ⟨within, depth⟩ := Value.occurs_of_mem_inSlot (plain.occurring occurs) inSlot
      exact ⟨u, within.trans occurs, by omega, .self⟩
    · simp [bare n.type e found word listed] at default
  · obtain ⟨m, member, rfl⟩ := List.mem_map.mp child
    obtain ⟨w, outer, q, inner, made⟩ := Node.part_of_mem_children fields member
    obtain ⟨occurs, deeper⟩ := plain.part_of_part outer inner
    exact ⟨q, occurs, deeper, .node made⟩

end ServerUI
