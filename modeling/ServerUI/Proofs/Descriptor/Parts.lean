import ServerUI.Descriptor.Validation
import ServerUI.Proofs.Action.Everywhere

/-!
Where the parts of a descriptor are read from. Whatever nodes, sections and actions a descriptor
holds were read from parts of the values of the mapping that it was read from itself.
-/

set_option autoImplicit false

namespace ServerUI

namespace Validate

-- A value without members that is listed all the same is listed as pairs.
theorem mem_of_listed? {u v : Value} {items : List Value} (h : listed? v = some items)
    (member : u ∈ items) : u ∈ v.parts ∨ ∃ pair, u = .tuple pair := by
  unfold listed? at h
  split at h
  · cases h
    exact .inl member
  · cases h
    exact .inl member
  · obtain ⟨model, -, rfl⟩ := Option.map_eq_some_iff.mp h
    obtain ⟨e, -, rfl⟩ := List.mem_map.mp member
    exact .inr ⟨_, rfl⟩

theorem exists_of_listOf {α : Type} {check : Value → Checked α} {v : Value} {as : List α}
    (bare : ∀ pair a, check (.tuple pair) ≠ .ok a) (h : listOf check v = .ok as) {a : α}
    (member : a ∈ as) : ∃ q ∈ v.parts, check q = .ok a := by
  unfold listOf at h
  split at h
  · next items listed =>
      obtain ⟨q, inside, made⟩ := Checked.exists_of_mem_items h a member
      rcases mem_of_listed? listed inside with part | ⟨pair, rfl⟩
      · exact ⟨q, part, made⟩
      · exact absurd made (bare pair a)
  · simp at h

theorem optional_mapping_mem {f : Field} {es : Dict} {o : Option Dict}
    (h : f.optional mapping es = .ok o) {m : Dict} (same : o = some m) : ∃ k, (k, .dict m) ∈ es :=
  optional_mapping_eq_some (same ▸ h)

/-- An action position is empty, or was read from the value of a field. -/
theorem exists_of_instruction? {f : Field} {es : Dict} {o : Option Instruction}
    (h : f.withDefault none instruction? es = .ok o) {i : Instruction} (same : o = some i) :
    ∃ k v, (k, v) ∈ es ∧ Instruction.ofValue v = .ok i := by
  subst same
  obtain ⟨k, v, entry, read⟩ := Field.exists_of_withDefault h (by simp)
  rcases Instruction.ofValue?_eq_ok.mp (Checked.ofExcept_eq_ok.mp read) with
    ⟨-, none⟩ | ⟨j, read, ⟨⟩⟩
  · cases none
  · exact ⟨k, v, entry, read⟩

end Validate

namespace Instruction

theorem mapOfEntries_cons_eq_ok {k : String} {v : Value} {es : Dict} {is : Entries Instruction} :
    mapOfEntries ((k, v) :: es) = .ok is ↔
      ∃ i js, ofValue v = .ok i ∧ mapOfEntries es = .ok js ∧ is = (k, i) :: js := by
  rw [mapOfEntries]
  cases ofValue v <;> cases mapOfEntries es <;> simp [Except.map, eq_comm]

theorem exists_of_mem_mapOfEntries {es : Dict} {is : Entries Instruction}
    (h : mapOfEntries es = .ok is) : ∀ e ∈ is, ∃ v, (e.1, v) ∈ es ∧ ofValue v = .ok e.2 := by
  induction es generalizing is with
  | nil =>
      obtain rfl : is = [] := (Except.ok.inj h).symm
      simp
  | cons entry es ih =>
      obtain ⟨k, v⟩ := entry
      obtain ⟨i, js, first, rest, rfl⟩ := mapOfEntries_cons_eq_ok.mp h
      intro e member
      rcases List.mem_cons.mp member with rfl | later
      · exact ⟨v, List.mem_cons_self, first⟩
      · obtain ⟨u, inside, read⟩ := ih rest e later
        exact ⟨u, List.mem_cons_of_mem _ inside, read⟩

theorem mapOfValue?_eq_ok {v : Value} {o : Option (Entries Instruction)} :
    mapOfValue? v = .ok o ↔
      v = .null ∧ o = none ∨ ∃ es is, v = .dict es ∧ mapOfEntries es = .ok is ∧ o = some is := by
  cases v with
  | dict es => cases h : mapOfEntries es <;> simp [mapOfValue?, Except.map, h, eq_comm]
  | _ => simp [mapOfValue?, eq_comm]

end Instruction

namespace Node

variable {v : Value} {child : Value → Checked Node} {es : Dict} {n m : Node} {k : String}

/-- A prop is a part of a part of the mapping that the node is read from. -/
theorem part_of_mem_props (read : ofFields child es = .ok n) (h : (k, v) ∈ n.props) :
    ∃ w ∈ (Value.dict es).parts, v ∈ w.parts := by
  obtain ⟨-, props, -⟩ := ofFields_eq_ok.mp read
  obtain ⟨name, held, entry, made⟩ := Field.exists_of_withDefault props (List.ne_nil_of_mem h)
  obtain rfl := Validate.mapping_eq_ok.mp made
  exact ⟨.dict n.props, List.mem_map.mpr ⟨_, entry, rfl⟩, List.mem_map.mpr ⟨_, h, rfl⟩⟩

theorem within_tuple_ne_ok (levels : Nat) (items : List Value) :
    within levels (.tuple items) ≠ .ok n := by
  cases levels <;> simp [within]

/-- So is what a child is read from. -/
theorem part_of_mem_children {levels : Nat} (read : ofFields (within levels) es = .ok n)
    (h : m ∈ n.children.getD []) :
    ∃ w ∈ (Value.dict es).parts, ∃ q ∈ w.parts, within levels q = .ok m := by
  obtain ⟨-, -, -, -, children, -⟩ := ofFields_eq_ok.mp read
  cases there : n.children with
  | none => simp [there] at h
  | some ns =>
      rw [there] at children h
      obtain ⟨name, held, entry, listed⟩ := Field.exists_of_optional children
      exact ⟨held, List.mem_map.mpr ⟨_, entry, rfl⟩, Validate.exists_of_listOf
        (fun pair _ => within_tuple_ne_ok levels pair) listed h⟩

/-- And what an action of the node is read from. -/
theorem part_of_mem_actions (read : ofFields child es = .ok n) {as : Entries Instruction}
    (same : n.actions = some as) {i : Instruction} (h : (k, i) ∈ as) :
    ∃ w ∈ (Value.dict es).parts, ∃ q ∈ w.parts, Instruction.ofValue q = .ok i := by
  obtain ⟨-, -, actions, -⟩ := ofFields_eq_ok.mp read
  rw [same] at actions
  obtain ⟨name, held, entry, mapped⟩ := Field.exists_of_withDefault actions (by simp)
  rcases Instruction.mapOfValue?_eq_ok.mp (Checked.ofExcept_eq_ok.mp mapped) with
    ⟨-, none⟩ | ⟨given, is, rfl, read, ⟨⟩⟩
  · cases none
  · obtain ⟨q, inside, made⟩ := Instruction.exists_of_mem_mapOfEntries read _ h
    exact ⟨.dict given, List.mem_map.mpr ⟨_, entry, rfl⟩, q, List.mem_map.mpr ⟨_, inside, rfl⟩,
      made⟩

end Node

/-- What a value can be read as: an action, a descriptor, or several of them in a list, which may
become a tuple, or in a mapping. -/
inductive Shape where
  | action
  | component
  | section
  | screen
  | list (fixed : Bool) (item : Shape)
  | map (entry : Shape)
deriving DecidableEq, Repr

/-- A value is read as a model of the given shape. -/
inductive Value.ReadAs (v : Value) : Shape → Value → Prop
  | action {a : Action} (read : Action.parse v = .ok a) : ReadAs v .action (.action a)
  | component {n : Node} (read : Node.ofValue v = .ok n) : ReadAs v .component (.node n)
  | section {s : Section} (read : Section.ofValue v = .ok s) : ReadAs v .section (.section s)
  | screen {s : Screen} (read : Screen.ofValue v = .ok s) : ReadAs v .screen (.screen s)

end ServerUI
