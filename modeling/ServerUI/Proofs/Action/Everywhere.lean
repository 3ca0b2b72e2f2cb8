import ServerUI.Action.Request

/-!
What holds everywhere inside a value, and everywhere inside an instruction. What is read from a
value inherits what holds everywhere in it: each nested instruction is read from a part of the
mapping that holds it. So no mapping of a known kind is left unread in what is read from a value
without actions, such as one that JSON text describes.
-/

set_option autoImplicit false

namespace ServerUI

namespace Value

def parts : Value → List Value
  | list items => items
  | tuple items => items
  | dict es => es.map (·.2)
  | _ => []

mutual

/-- How many lists, tuples and mappings stand inside one another, counting the value itself. -/
def nesting : Value → Nat
  | list items => nestingOfItems items + 1
  | tuple items => nestingOfItems items + 1
  | dict entries => nestingOfEntries entries + 1
  | _ => 0

def nestingOfItems : List Value → Nat
  | [] => 0
  | v :: vs => max v.nesting (nestingOfItems vs)

def nestingOfEntries : List (String × Value) → Nat
  | [] => 0
  | (_, v) :: es => max v.nesting (nestingOfEntries es)

end

theorem nestingOfItems_le {vs : List Value} {n : Nat} :
    nestingOfItems vs ≤ n ↔ ∀ v ∈ vs, v.nesting ≤ n := by
  induction vs with
  | nil => simp [nestingOfItems]
  | cons v vs ih => simp only [nestingOfItems, Nat.max_le, ih, List.mem_cons, forall_eq_or_imp]

theorem nestingOfEntries_le {es : Dict} {n : Nat} :
    nestingOfEntries es ≤ n ↔ ∀ e ∈ es, e.2.nesting ≤ n := by
  induction es with
  | nil => simp [nestingOfEntries]
  | cons e es ih =>
      obtain ⟨k, v⟩ := e
      simp only [nestingOfEntries, Nat.max_le, ih, List.mem_cons, forall_eq_or_imp]

inductive Everywhere (P : Value → Prop) : Value → Prop
  | intro {v : Value} (here : P v) (inside : ∀ u ∈ v.parts, Everywhere P u) : Everywhere P v

namespace Everywhere

variable {P Q : Value → Prop} {v : Value}

theorem here (h : v.Everywhere P) : P v := by
  cases h with
  | intro here _ => exact here

theorem inside (h : v.Everywhere P) : ∀ u ∈ v.parts, u.Everywhere P := by
  cases h with
  | intro _ inside => exact inside

theorem mono (h : v.Everywhere P) (imp : ∀ u, P u → Q u) : v.Everywhere Q := by
  induction h with
  | intro here _ ih => exact .intro (imp _ here) ih

theorem entry {es : Dict} (h : (dict es).Everywhere P) {k : String} {u : Value}
    (member : (k, u) ∈ es) : u.Everywhere P :=
  h.inside u (List.mem_map.mpr ⟨(k, u), member, rfl⟩)

theorem of_entries {es : Dict} (here : P (dict es)) (h : ∀ e ∈ es, e.2.Everywhere P) :
    (dict es).Everywhere P := by
  refine .intro here fun u member => ?_
  obtain ⟨e, inside, rfl⟩ := List.mem_map.mp member
  exact h e inside

theorem of_leaves {es : Dict} (here : P (dict es)) (h : ∀ e ∈ es, P e.2 ∧ e.2.parts = []) :
    (dict es).Everywhere P :=
  .of_entries here fun e member => .intro (h e member).1 (by simp [(h e member).2])

end Everywhere

theorem sizeOf_lt_of_mem_parts {u v : Value} (h : u ∈ v.parts) : sizeOf u < sizeOf v := by
  cases v with
  | list items | tuple items =>
      have := List.sizeOf_lt_of_mem (show u ∈ items from h)
      simp only [list.sizeOf_spec, tuple.sizeOf_spec]
      omega
  | dict es =>
      obtain ⟨e, member, rfl⟩ := List.mem_map.mp h
      have := Field.sizeOf_value_lt member
      simp only [dict.sizeOf_spec]
      omega
  | _ => simp [parts] at h

/-- A value stands somewhere in another one, or is it. -/
inductive Occurs (u : Value) : Value → Prop
  | here : Occurs u u
  | part {v w : Value} (member : w ∈ v.parts) (inside : Occurs u w) : Occurs u v

theorem Occurs.trans {u v w : Value} (h : u.Occurs v) (h' : v.Occurs w) : u.Occurs w := by
  induction h' with
  | here => exact h
  | part member _ ih => exact .part member ih

theorem Everywhere.of_occurs {P : Value → Prop} {v : Value} (h : ∀ u, u.Occurs v → P u) :
    v.Everywhere P :=
  .intro (h v .here) fun w member => of_occurs fun u inside => h u (.part member inside)
termination_by sizeOf v
decreasing_by exact sizeOf_lt_of_mem_parts member

theorem Everywhere.occurring {P : Value → Prop} {u v : Value} (h : v.Everywhere P)
    (occurs : u.Occurs v) : u.Everywhere P := by
  induction occurs with
  | here => exact h
  | part member _ ih => exact ih (h.inside _ member)

def isPlain : Value → Bool
  | null | bool _ | int _ | float _ | str _ | list _ | dict _ => true
  | _ => false

def IsJson (v : Value) : Prop := v.Everywhere fun u => u.isPlain = true

end Value

theorem Value.IsJson.of_leaves {es : Dict}
    (h : ∀ e ∈ es, e.2.isPlain = true ∧ e.2.parts = []) : (dict es).IsJson :=
  Everywhere.of_leaves rfl h

def Action.nested : Action → List Instruction
  | .apiCall _ _ _ onSuccess onError => onSuccess.toList ++ onError.toList
  | .sequence actions => actions
  | .conditional _ onTrue onFalse => onTrue.toList ++ onFalse.toList
  | _ => []

namespace Instruction

/-- `P` holds of every action in an instruction, and `U` of every mapping kept as it came. -/
inductive Everywhere (P : Action → Prop) (U : Dict → Prop) : Instruction → Prop
  | known {a : Action} (here : P a) (inside : ∀ i ∈ a.nested, Everywhere P U i) :
      Everywhere P U (.known a)
  | unknown {es : Dict} (here : U es) : Everywhere P U (.unknown es)

theorem Everywhere.mono {P P' : Action → Prop} {U U' : Dict → Prop} {i : Instruction}
    (h : i.Everywhere P U) (known : ∀ a, P a → P' a) (unknown : ∀ es, U es → U' es) :
    i.Everywhere P' U' := by
  induction h with
  | known here _ ih => exact .known (known _ here) ih
  | unknown here => exact .unknown (unknown _ here)

theorem mem_toList_of_inField {name : String} {absent : Checked (Option Instruction)} {es : Dict}
    {o : Option Instruction} (missing : absent = .ok o → o = none)
    (h : inField name absent es = .ok o) {i : Instruction} (member : i ∈ o.toList) :
    ∃ k v, (k, v) ∈ es ∧ ofValue v = .ok i := by
  rw [inField_eq_ok] at h
  split at h
  · simp [missing h] at member
  · next v found =>
      obtain ⟨k, entry⟩ := Field.mem_of_value? found
      rcases ofValue?_eq_ok.mp h with ⟨-, rfl⟩ | ⟨j, read, rfl⟩
      · simp at member
      · simp only [Option.toList_some, List.mem_singleton] at member
        exact ⟨k, v, entry, member ▸ read⟩

-- Where an instruction inside an action was read from: a value of the mapping, or a member of one.
theorem exists_of_mem_nested {kind : ActionKind} {es : Dict} {a : Action}
    (h : Action.ofFields kind es = .ok a) {i : Instruction} (member : i ∈ a.nested) :
    ∃ k v u, (k, v) ∈ es ∧ (u = v ∨ u ∈ v.parts) ∧ sizeOf u < sizeOf es ∧ ofValue u = .ok i := by
  -- All but the members of a sequence are read from the whole value of a field.
  have whole (k : String) (v : Value) (entry : (k, v) ∈ es) (read : ofValue v = .ok i) :
      ∃ k v u, (k, v) ∈ es ∧ (u = v ∨ u ∈ v.parts) ∧ sizeOf u < sizeOf es ∧ ofValue u = .ok i :=
    ⟨k, v, v, entry, .inl rfl, Field.sizeOf_value_lt entry, read⟩
  cases effect : Effect.ofFields? kind es with
  | some checked =>
      rw [Action.ofFields_of_effect effect] at h
      obtain ⟨e, -, rfl⟩ := Checked.map_eq_ok.mp h
      simp [Action.nested] at member
  | none =>
      cases kind <;> simp only [Effect.ofFields?, reduceCtorEq] at effect
      case apiCall =>
        obtain ⟨_, _, _, _, _, rfl, -, -, -, hs, he⟩ := Action.ofFields_apiCall_eq_ok.mp h
        rcases List.mem_append.mp member with member | member
        · obtain ⟨k, v, entry, read⟩ := mem_toList_of_inField (by simp [eq_comm]) hs member
          exact whole k v entry read
        · obtain ⟨k, v, entry, read⟩ := mem_toList_of_inField (by simp [eq_comm]) he member
          exact whole k v entry read
      case sequence =>
        obtain ⟨is, rfl, items⟩ := Action.ofFields_sequence_eq_ok.mp h
        split at items
        · simp [Action.nested, items] at member
        · next v found =>
            obtain ⟨k, entry⟩ := Field.mem_of_value? found
            obtain ⟨members, shape, read⟩ := listOfValue_eq_ok.mp items
            obtain ⟨u, inside, hu⟩ := exists_of_mem_listOfValues read i member
            have smaller : sizeOf v < sizeOf es := Field.sizeOf_value_lt entry
            have := List.sizeOf_lt_of_mem inside
            refine ⟨k, v, u, entry, .inr ?_, ?_, hu⟩ <;> rcases shape with rfl | rfl
            · exact inside
            · exact inside
            · simp at smaller
              omega
            · simp at smaller
              omega
      case conditional =>
        obtain ⟨_, _, _, rfl, -, ht, hf⟩ := Action.ofFields_conditional_eq_ok.mp h
        rcases List.mem_append.mp member with member | member
        · obtain ⟨k, v, entry, read⟩ := mem_toList_of_inField (by simp [Field.missing]) ht member
          exact whole k v entry read
        · obtain ⟨k, v, entry, read⟩ := mem_toList_of_inField (by simp [eq_comm]) hf member
          exact whole k v entry read
      case noop =>
        simp only [Action.ofFields_noop, Checked.ok.injEq] at h
        simp [← h, Action.nested] at member

/-- What is read inherits from the value: `P` from the mappings of known kinds, `U` from the
others, and both from the actions that were there. -/
theorem everywhere_of_ofValue {V : Value → Prop} {P : Action → Prop} {U : Dict → Prop}
    (action : ∀ a, V (.action a) → (known a).Everywhere P U)
    (unread : ∀ es, (Value.dict es).Everywhere V → kindOf es = .ok none → U es)
    (read : ∀ es kind a, (Value.dict es).Everywhere V → Action.ofFields kind es = .ok a → P a)
    {v : Value} (hv : v.Everywhere V) {i : Instruction} (h : ofValue v = .ok i) :
    i.Everywhere P U := by
  refine ofValue_induction (motive := fun v i => v.Everywhere V → i.Everywhere P U) (fun a ha => ?_)
    (fun es hk hes => ?_) (fun es kind a _ fields ih hes => ?_) v i h hv
  · exact action a ha.here
  · exact .unknown (unread es hes hk)
  · refine .known (read es kind a hes fields) fun j member => ?_
    obtain ⟨k, v, u, entry, place, smaller, hu⟩ := exists_of_mem_nested fields member
    refine ih u j smaller hu ?_
    have hv : v.Everywhere V := hes.entry entry
    rcases place with rfl | inside
    · exact hv
    · exact hv.inside u inside

/-- No mapping of a known kind is left unread, so that reading anew changes nothing. -/
def Settled (i : Instruction) : Prop :=
  i.Everywhere (fun _ => True) fun es => kindOf es = .ok none

theorem Settled.ofValue_toValue {i : Instruction} (h : i.Settled) : ofValue i.toValue = .ok i := by
  cases h with
  | known => simp [toValue]
  | unknown here => exact ofValue_eq_ok.mpr (.inr (.inl ⟨_, rfl, here, rfl⟩))

theorem Settled.parse_toValue {i : Instruction} (h : i.Settled) : parse i.toValue = .ok i := by
  rw [parse_eq_ok, h.ofValue_toValue]

theorem Settled.nested {a : Action} (h : (known a).Settled) : ∀ i ∈ a.nested, i.Settled := by
  cases h with
  | known _ inside => exact inside

end Instruction

def Value.Settled (v : Value) : Prop :=
  v.Everywhere fun u => ∀ a, u = .action a → (Instruction.known a).Settled

-- JSON text describes no actions, only mappings that are read as such.
theorem Value.IsJson.settled {v : Value} (h : v.IsJson) : v.Settled := by
  refine h.mono fun u plain a same => ?_
  simp [same, isPlain] at plain

theorem Instruction.Settled.of_ofValue {v : Value} (hv : v.Settled) {i : Instruction}
    (h : ofValue v = .ok i) : i.Settled :=
  everywhere_of_ofValue (fun a ha => ha a rfl) (fun _ _ hk => hk) (fun _ _ _ _ _ => trivial) hv h

end ServerUI
