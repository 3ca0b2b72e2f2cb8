import Mathlib.Data.List.Chain
import Mathlib.Data.Set.Finite.Basic
import ServerUI.Proofs.Render.Total

/-!
Rendering ends, but for a value that is rendered inside itself. What is rendered inside a value is a
part of it, and smaller, or it is what a slot holds by default; and a registry has finitely many
defaults. So a chain of renderings inside one another has a bound unless it meets a default twice,
and then it has none: there is no number of levels that would be enough.
-/

set_option autoImplicit false

namespace ServerUI

variable {ι σ : Type}

namespace Value

variable {part u v : Value}

theorem sizeOf_le_of_mem_inSlot (h : u ∈ v.inSlot) : sizeOf u ≤ sizeOf v := by
  cases v with
  | node n =>
      obtain rfl : u = .node n := by simpa [inSlot] using h
      exact Nat.le_refl _
  | dict es =>
      simp only [inSlot] at h
      split at h
      · obtain rfl : u = .dict es := by simpa using h
        exact Nat.le_refl _
      · simp at h
  | list items | tuple items => exact Nat.le_of_lt (sizeOf_lt_of_mem_parts h)
  | keyed key output =>
      have either : u = key ∨ u = output := by simpa [inSlot] using h
      rcases either with rfl | rfl <;> simp only [keyed.sizeOf_spec] <;> omega
  | _ => simp [inSlot] at h

end Value

namespace Renderer

variable {ask : Ask ι σ} {r : Renderer ι} {u v : Value} {n : Nat}

/-- What is rendered inside a value. -/
abbrev Calls (r : Renderer ι) (v u : Value) : Prop := u ∈ r.calls v

/-- At most `n` values are rendered inside one another as `v` is rendered, itself included. -/
def Bounded (r : Renderer ι) (n : Nat) (v : Value) : Prop :=
  ∀ chain : List Value, List.IsChain r.Calls (v :: chain) → (v :: chain).length ≤ n

/-- Something is rendered inside itself as `v` is rendered. -/
def Endless (r : Renderer ι) (v : Value) : Prop :=
  ∃ u, Relation.ReflTransGen r.Calls v u ∧ Relation.TransGen r.Calls u u

/-- What the slots hold by default. -/
def slotDefaults (r : Renderer ι) : List Value :=
  r.registry.flatMap fun (_, e) => inSlots e.slots e.defaultProps

theorem not_bounded_zero (r : Renderer ι) (v : Value) : ¬ r.Bounded 0 v := fun h => by
  have := h [] (.singleton v)
  simp at this

theorem bounded_succ : r.Bounded (n + 1) v ↔ ∀ u ∈ r.calls v, r.Bounded n u := by
  constructor
  · intro h u call chain nested
    have := h (u :: chain) (List.isChain_cons_cons.mpr ⟨call, nested⟩)
    simpa using this
  · intro h chain nested
    cases chain with
    | nil => simp
    | cons u rest =>
        obtain ⟨call, nested⟩ := List.isChain_cons_cons.mp nested
        have := h u call rest nested
        simpa using this

theorem Bounded.mono {m : Nat} (h : r.Bounded n v) (le : n ≤ m) : r.Bounded m v :=
  fun chain nested => (h chain nested).trans le

theorem Bounded.call (h : r.Bounded n v) (call : u ∈ r.calls v) : ∃ m < n, r.Bounded m u := by
  cases n with
  | zero => exact absurd h (r.not_bounded_zero v)
  | succ n => exact ⟨n, n.lt_succ_self, bounded_succ.mp h u call⟩

theorem Bounded.inside (h : r.Bounded n v) (below : Relation.TransGen r.Calls v u) :
    ∃ m < n, r.Bounded m u := by
  induction below with
  | single call => exact h.call call
  | tail _ call ih =>
      obtain ⟨m, less, bounded⟩ := ih
      obtain ⟨l, lesser, bounded⟩ := bounded.call call
      exact ⟨l, lesser.trans less, bounded⟩

theorem Bounded.not_cycle (h : r.Bounded n v) : ¬ Relation.TransGen r.Calls v v := by
  intro cycle
  induction n using Nat.strong_induction_on with
  | _ n ih =>
      obtain ⟨m, less, bounded⟩ := h.inside cycle
      exact ih m less bounded

theorem Bounded.not_endless (h : r.Bounded n v) : ¬ r.Endless v := by
  rintro ⟨u, reached, cycle⟩
  rcases Relation.reflTransGen_iff_eq_or_transGen.mp reached with rfl | below
  · exact h.not_cycle cycle
  · obtain ⟨m, -, bounded⟩ := h.inside below
    exact bounded.not_cycle cycle

theorem exists_bounded (each : ∀ u ∈ r.calls v, ∃ n, r.Bounded n u) : ∃ n, r.Bounded n v := by
  have common (us : List Value) (each : ∀ u ∈ us, ∃ n, r.Bounded n u) :
      ∃ n, ∀ u ∈ us, r.Bounded n u := by
    induction us with
    | nil => exact ⟨0, by simp⟩
    | cons u rest ih =>
        simp only [List.mem_cons, forall_eq_or_imp] at each ⊢
        obtain ⟨n, first⟩ := each.1
        obtain ⟨m, others⟩ := ih each.2
        exact ⟨max n m, first.mono (le_max_left n m),
          fun u member => (others u member).mono (le_max_right n m)⟩
  obtain ⟨n, bounded⟩ := common (r.calls v) each
  exact ⟨n + 1, bounded_succ.mpr bounded⟩

/-- What is rendered inside a node stands for a smaller part of it, or is the default of a slot. -/
theorem slotDefault_or_smaller {part : Value} (stands : part.StandsFor v) (call : u ∈ r.calls v) :
    u ∈ r.slotDefaults ∨ ∃ q : Value, sizeOf q < sizeOf part ∧ q.StandsFor u := by
  obtain ⟨n, e, read, found, inside⟩ := mem_calls.mp call
  rcases List.mem_append.mp inside with slot | child
  · obtain ⟨word, listed, held, there, inSlot⟩ := mem_inSlots.mp slot
    have shallow := Value.sizeOf_le_of_mem_inSlot inSlot
    rcases Entries.find?_merge_eq_some there with prop | default
    · refine .inr ⟨u, ?_, .self⟩
      rcases stands.origin read with rfl | ⟨es, below, rfl, fields⟩
      · have small : sizeOf held < sizeOf n.props := Field.sizeOf_value_lt prop
        have props : sizeOf n.props < sizeOf n := by cases n; simp; omega
        simp only [Value.node.sizeOf_spec]
        omega
      · obtain ⟨w, outer, inner⟩ := Node.part_of_mem_props fields prop
        have := Value.sizeOf_lt_of_mem_parts outer
        have := Value.sizeOf_lt_of_mem_parts inner
        omega
    · refine .inl (List.mem_flatMap.mpr ⟨(n.type, e), Entries.mem_of_find? found, ?_⟩)
      exact mem_inSlots.mpr ⟨word, listed, held, default, inSlot⟩
  · obtain ⟨m, member, rfl⟩ := List.mem_map.mp child
    refine .inr ?_
    rcases stands.origin read with rfl | ⟨es, below, rfl, fields⟩
    · refine ⟨.node m, ?_, .self⟩
      cases there : n.children with
      | none => simp [there] at member
      | some ns =>
          have small : sizeOf m < sizeOf ns := List.sizeOf_lt_of_mem (by simpa [there] using member)
          have children : sizeOf n.children < sizeOf n := by cases n; simp; omega
          simp only [there, Option.some.sizeOf_spec] at children
          simp only [Value.node.sizeOf_spec]
          omega
    · obtain ⟨w, outer, q, inner, made⟩ := Node.part_of_mem_children fields member
      have := Value.sizeOf_lt_of_mem_parts outer
      have := Value.sizeOf_lt_of_mem_parts inner
      exact ⟨q, by omega, .node made⟩

-- By recursion on the part that is rendered; only a default leads out of it.
theorem exists_bounded_of_defaults {part v : Value} (stands : part.StandsFor v)
    (defaults : ∀ d ∈ r.slotDefaults, Relation.TransGen r.Calls v d → ∃ n, r.Bounded n d) :
    ∃ n, r.Bounded n v := by
  apply exists_bounded
  intro u call
  rcases slotDefault_or_smaller stands call with default | ⟨q, smaller, stands⟩
  · exact defaults u default (.single call)
  · exact exists_bounded_of_defaults stands fun d member below =>
      defaults d member (.head call below)
termination_by sizeOf part

theorem exists_bounded_of_not_endless (h : ¬ r.Endless v) : ∃ n, r.Bounded n v := by
  let Met := { d // d ∈ r.slotDefaults ∧ Relation.ReflTransGen r.Calls v d }
  let Inside (d d' : Met) : Prop := Relation.TransGen r.Calls d'.1 d.1
  have : Finite Met := (r.slotDefaults.finite_toSet.subset fun d met => met.1).to_subtype
  have : IsTrans Met Inside := ⟨fun _ _ _ inner outer => outer.trans inner⟩
  have : Std.Irrefl Inside := ⟨fun d cycle => h ⟨d.1, d.2.2, cycle⟩⟩
  -- Finitely many defaults are met and none inside itself, so being inside is well founded on them.
  have bounded (d : Met) : ∃ n, r.Bounded n d.1 := by
    induction d using (Finite.wellFounded_of_trans_of_irrefl Inside).induction with
    | _ d ih =>
        apply exists_bounded_of_defaults .self
        intro d' member below
        exact ih ⟨d', member, d.2.2.trans below.to_reflTransGen⟩ below
  apply exists_bounded_of_defaults .self
  intro d member below
  exact bounded ⟨d, member, below.to_reflTransGen⟩

section Failing

variable {one : Value → Run ι σ Value}

theorem fails_keyed {name : String} {index : Nat} {items : List Value} (member : u ∈ items)
    (fails : (one u).Fails) : (keyed name one index items).Fails := by
  induction items generalizing index with
  | nil => simp at member
  | cons item rest ih =>
      rcases List.mem_cons.mp member with rfl | behind
      · exact fails.first _
      · exact .later _ fun _ => (ih behind).first _

theorem fails_slot (member : u ∈ v.inSlot) (fails : (one u).Fails) : (slot one v).Fails := by
  have listed {items : List Value} (member : u ∈ items) :
      (Value.list <$> nodes one items).Fails := (fails_keyed member fails).map _
  cases v with
  | node n =>
      obtain rfl : u = .node n := by simpa [Value.inSlot] using member
      exact fails
  | dict es =>
      simp only [Value.inSlot] at member
      split at member
      · next typed =>
          obtain rfl : u = .dict es := by simpa using member
          simpa [slot, typed] using fails
      · simp at member
  | list items | tuple items | keyed key output => exact listed member
  | _ => simp [Value.inSlot] at member

-- The first time that a slot is listed, it still holds what it held before any was rendered.
theorem fails_slots {names : List Value} {props : Dict}
    (member : u ∈ inSlots (names.filterMap Value.word?) props) (fails : (one u).Fails) :
    (slots one names props).Fails := by
  induction names generalizing props with
  | nil => simp [inSlots] at member
  | cons name rest ih =>
      unfold slots
      split
      · exact Run.ends_throw trivial
      · cases spelled : name.word? with
        | none =>
            simp only [List.filterMap_cons, spelled] at member
            exact ih member
        | some word =>
            simp only [List.filterMap_cons, spelled] at member
            obtain ⟨other, listed, held, there, inside⟩ := mem_inSlots.mp member
            have behind (different : other ≠ word) : other ∈ rest.filterMap Value.word? :=
              (List.mem_cons.mp listed).resolve_left different
            cases found : Entries.find? props word with
            | none =>
                simp only [Option.bind_some, found, Option.map_none]
                have different : other ≠ word := by
                  rintro rfl
                  simp [found] at there
                exact ih (mem_inSlots.mpr ⟨other, behind different, held, there, inside⟩)
            | some v =>
                simp only [Option.bind_some, found, Option.map_some]
                by_cases same : other = word
                · obtain rfl : v = held := by simpa [same, found] using there
                  exact (fails_slot inside fails).first _
                · refine .later _ fun output => ih ?_
                  rw [← Entries.find?_insert_of_ne props output same] at there
                  exact mem_inSlots.mpr ⟨other, behind same, held, there, inside⟩

theorem fails_registered {m : Node} {e : Entry ι} (member : u ∈ inner m e) (fails : (one u).Fails) :
    (r.registered ask one m e).Fails := by
  rcases List.mem_append.mp member with slot | child
  · have props : (r.buildProps one m e).Fails := (fails_slots slot fails).first _
    exact props.first _
  · have children : (children one m).Fails := by
      cases there : m.children with
      | none => simp [there] at child
      | some ns =>
          cases ns with
          | nil => simp [there] at child
          | cons first rest =>
              unfold children
              simp only [there]
              exact (fails_keyed (by simpa [there] using child) fails).map _
    exact .later _ fun _ => children.first _

theorem fails_node {levels : Nat} (call : u ∈ r.calls v) (fails : (r.node ask levels u).Fails) :
    (r.node ask (levels + 1) v).Fails := by
  obtain ⟨m, e, read, found, inside⟩ := mem_calls.mp call
  simp only [node, read, found]
  exact fails_registered inside fails

end Failing

theorem fails_of_not_bounded (h : ¬ r.Bounded n v) {levels : Nat} (few : levels ≤ n) :
    (r.node ask levels v).Fails := by
  induction levels generalizing n v with
  | zero => exact Run.ends_throw trivial
  | succ levels ih =>
      cases n with
      | zero => omega
      | succ n =>
          simp only [bounded_succ, not_forall] at h
          obtain ⟨u, call, h⟩ := h
          exact fails_node call (ih h (by omega))

/-- What an answer is held to, as a slot that is listed twice is rendered again with the answer in
it: nothing is rendered inside what is rendered then. -/
def Settling (r : Renderer ι) (o : Value) : Prop := r.SlotsOnce ∨ ∀ u ∈ o.inSlot, r.calls u = []

theorem calls_keyed (r : Renderer ι) (key v : Value) : r.calls (.keyed key v) = [] := by
  have read : Node.ofValue (.keyed key v) = .fault .model := rfl
  simp [calls, read, Checked.fault]

theorem bounded_one (h : r.calls v = []) : r.Bounded 1 v := bounded_succ.mpr (by simp [h])

theorem ends_of_bounded (answers : Answers ask r r.Settling) (bounded : r.Bounded n v)
    {levels : Nat} (enough : n ≤ levels) :
    Run.Ends (· ≠ .nestingLimit) r.Settling (r.node ask levels v) := by
  induction levels generalizing n v with
  | zero =>
      obtain rfl : n = 0 := by omega
      exact absurd bounded (r.not_bounded_zero v)
  | succ levels ih =>
      have null : r.Settling .null := .inr (by simp [Value.inSlot])
      have named : SlotsFail (· ≠ .nestingLimit) r := fun _ _ _ _ _ t _ => by simp
      have readable (t : String) (_ : Node.ofValue v = .unhashable t) :
          Failure.unhashable t ≠ .nestingLimit := by simp
      apply ends_node answers null named readable <;> intro u call
      · obtain ⟨m, less, bounded⟩ := bounded.call call
        exact ih bounded (by omega)
      · obtain ⟨m, less, inside⟩ := bounded.call call
        have some_level : 1 ≤ levels := by
          cases m with
          | zero => exact absurd inside (r.not_bounded_zero u)
          | succ m => omega
        by_cases once : r.SlotsOnce
        · exact .inl once
        · right
          intro v o filled w member
          apply ih (bounded_one _) some_level
          rcases filled.2 with answered | keyed
          · exact answered.resolve_left once w member
          · obtain ⟨key, output, rfl⟩ := keyed w member
            exact r.calls_keyed key output

/-- Rendering ends, whatever the registry, unless something is rendered inside itself: there is a
bound on the values inside one another, and as many levels are enough, as long as the components
return. What is rendered inside itself has no such bound, and no number of levels gives a value. -/
theorem node_terminates (r : Renderer ι) (v : Value) :
    (¬ r.Endless v → ∃ n, r.Bounded n v ∧ ∀ ask : Ask ι σ, Answers ask r r.Settling →
      ∀ levels, n ≤ levels →
        Run.Ends (· ≠ .nestingLimit) (fun _ => True) (r.node ask levels v)) ∧
    (r.Endless v → (∀ n, ¬ r.Bounded n v) ∧
      ∀ (ask : Ask ι σ) (levels : Nat), (r.node ask levels v).Fails) := by
  constructor
  · intro finite
    obtain ⟨n, bounded⟩ := exists_bounded_of_not_endless finite
    refine ⟨n, bounded, fun ask answers levels enough => ?_⟩
    exact (ends_of_bounded answers bounded enough).mono (fun _ h => h) fun _ _ => trivial
  · intro endless
    have unbounded (n : Nat) : ¬ r.Bounded n v := fun bounded => bounded.not_endless endless
    exact ⟨unbounded, fun ask levels => fails_of_not_bounded (unbounded levels) le_rfl⟩

/-- A default that is another component ends, and one that is the component itself does not. -/
theorem node_terminates_default :
    let ask : Ask Unit Unit := fun _ _ => pure (.str "drawn")
    let node (type : String) : Value := .dict [("type", .str type)]
    let entry (type : String) : Entry Unit :=
      ⟨(), [("header", node type)], [], [.str "header"], .bool true⟩
    let r : Renderer Unit := { registry := [("A", entry "B"), ("B", ⟨(), [], [], [], .bool true⟩)] }
    let r' : Renderer Unit := { registry := [("A", entry "A")] }
    (¬ r.Endless (node "A") ∧ ∃ n, ∀ levels, n ≤ levels →
      Run.Ends (· ≠ .nestingLimit) (fun _ => True) (r.node ask levels (node "A"))) ∧
    r'.Endless (node "A") ∧ ∀ levels, (r'.node ask levels (node "A")).Fails := by
  intro ask node entry r r'
  have outer : r.calls (node "A") = [node "B"] := rfl
  have inner : r.calls (node "B") = [] := rfl
  have own : r'.calls (node "A") = [node "A"] := rfl
  have bounded : r.Bounded 2 (node "A") :=
    bounded_succ.mpr (by simpa [outer] using bounded_one inner)
  have endless : r'.Endless (node "A") := ⟨_, .refl, .single (by simp [Calls, own])⟩
  have settles : r.Settling (.str "drawn") := .inr (by simp [Value.inSlot])
  have answers : Answers ask r r.Settling :=
    ⟨fun _ _ _ => Run.ends_pure settles, fun _ _ => Run.ends_pure settles⟩
  obtain ⟨n, -, ends⟩ := (node_terminates (σ := Unit) r (node "A")).1 bounded.not_endless
  exact ⟨⟨bounded.not_endless, n, ends ask answers⟩, endless,
    ((node_terminates r' (node "A")).2 endless).2 ask⟩

/-- A component that fills its slot with itself by default can be registered, and is rendered inside
itself until the bound on levels is met. -/
theorem node_default_itself :
    let v : Value := .dict [("type", .str "A")]
    let r : Renderer Unit :=
      { registry := [("A", ⟨(), [("header", v)], [], [.str "header"], .bool true⟩)] }
    (Registry.register [] "A" ()
      { defaultProps := .dict [("header", v)], childrenProps := .list [.str "header"] }).1 =
        .ok r.registry ∧
    (∀ n, ¬ r.Bounded n v) ∧
    ∀ (ask : Ask Unit Unit) (levels : Nat) (w : World Unit Unit),
      Run.exec (r.node ask levels v) w = (.error .nestingLimit, w) := by
  intro v r
  have registered : (Registry.register [] "A" ()
      { defaultProps := .dict [("header", v)], childrenProps := .list [.str "header"] }).1 =
        .ok r.registry := by rfl
  have own : r.calls v = [v] := rfl
  refine ⟨registered, fun n bounded => bounded.not_cycle (.single (by simp [Calls, own])), ?_⟩
  intro ask levels w
  have read : Node.ofValue v = .ok ⟨"A", [], none, none, none, none, none⟩ := rfl
  induction levels with
  | zero => rfl
  | succ levels ih =>
      have hashed : (Value.str "header").unhashable? = none := rfl
      have slot : Run.exec (slots (r.node ask levels) [.str "header"] [("header", v)]) w =
          (.error .nestingLimit, w) := by
        have inside : Run.exec (slot (r.node ask levels) v) w = (.error .nestingLimit, w) := ih
        simp only [slots, hashed, Value.word?, Option.bind_some, Entries.find?_cons, if_true,
          Option.map_some, Run.exec_bind, inside]
      have found : Entries.find? r.registry "A" =
          some ⟨(), [("header", v)], [], [.str "header"], .bool true⟩ := rfl
      have props : Entries.merge [("header", v)] [] = [("header", v)] := rfl
      simp only [node, read, found, Renderer.registered, buildProps, props, Run.exec_bind, slot]

end Renderer

end ServerUI
