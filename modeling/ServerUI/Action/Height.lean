import ServerUI.Action.Request

/-!
How many actions stand inside one another, where every mapping counts as one that may be read as
an action. What is read from a value is no higher than the value, so that work which reads an
action anew at each step goes down.
-/

set_option autoImplicit false

namespace ServerUI

mutual

def Value.height : Value → Nat
  | .list items => Value.heightOfItems items
  | .tuple items => Value.heightOfItems items
  | .dict entries => Value.heightOfEntries entries + 1
  | .action a => a.height + 1
  | _ => 0

def Value.heightOfItems : List Value → Nat
  | [] => 0
  | v :: vs => max v.height (Value.heightOfItems vs)

def Value.heightOfEntries : List (String × Value) → Nat
  | [] => 0
  | (_, v) :: es => max v.height (Value.heightOfEntries es)

def Action.height : Action → Nat
  | .apiCall _ _ _ onSuccess onError =>
      max (Instruction.heightOfOption onSuccess) (Instruction.heightOfOption onError)
  | .sequence actions => Instruction.heightOfItems actions
  | .conditional _ onTrue onFalse =>
      max (Instruction.heightOfOption onTrue) (Instruction.heightOfOption onFalse)
  | _ => 0

def Instruction.height : Instruction → Nat
  | .known a => a.height + 1
  | .unknown entries => Value.heightOfEntries entries + 1

def Instruction.heightOfOption : Option Instruction → Nat
  | none => 0
  | some i => i.height

def Instruction.heightOfItems : List Instruction → Nat
  | [] => 0
  | i :: is => max i.height (Instruction.heightOfItems is)

end

@[simp] theorem Instruction.height_toValue (i : Instruction) : i.toValue.height = i.height := by
  cases i <;> simp [Instruction.toValue, Value.height, Instruction.height]

namespace Value

theorem height_le_of_mem_items {v : Value} {vs : List Value} (h : v ∈ vs) :
    v.height ≤ heightOfItems vs := by
  induction vs with
  | nil => simp at h
  | cons u us ih =>
      rw [heightOfItems]
      rcases List.mem_cons.mp h with rfl | h
      · omega
      · have := ih h
        omega

theorem height_le_of_mem_entries {k : String} {v : Value} {es : Dict} (h : (k, v) ∈ es) :
    v.height ≤ heightOfEntries es := by
  induction es with
  | nil => simp at h
  | cons e es ih =>
      obtain ⟨l, u⟩ := e
      rw [heightOfEntries]
      rcases List.mem_cons.mp h with h | h
      · cases h
        omega
      · have := ih h
        omega

theorem height_le_of_value? {f : Field} {v : Value} {es : Dict} (h : f.value? es = some v) :
    v.height ≤ heightOfEntries es := by
  obtain ⟨k, inside⟩ := Field.mem_of_value? h
  exact height_le_of_mem_entries inside

end Value

namespace Instruction

theorem heightOfItems_le {is : List Instruction} {n : Nat} (h : ∀ i ∈ is, i.height ≤ n) :
    heightOfItems is ≤ n := by
  induction is with
  | nil => simp [heightOfItems]
  | cons i is ih =>
      simp only [List.mem_cons, forall_eq_or_imp] at h
      have := ih h.2
      rw [heightOfItems]
      omega

theorem heightOfOption_le {name : String} {absent : Checked (Option Instruction)} {es : Dict}
    {o : Option Instruction} (missing : absent = .ok o → o = none)
    (inside : ∀ v i, sizeOf v < sizeOf es → ofValue v = .ok i → i.height ≤ v.height)
    (h : inField name absent es = .ok o) : heightOfOption o ≤ Value.heightOfEntries es := by
  rw [inField_eq_ok] at h
  split at h
  · rw [missing h]
    simp [heightOfOption]
  · next v found =>
      rcases ofValue?_eq_ok.mp h with ⟨-, rfl⟩ | ⟨i, read, rfl⟩
      · simp [heightOfOption]
      · obtain ⟨k, entry⟩ := Field.mem_of_value? found
        exact Nat.le_trans (inside v i (Field.sizeOf_value_lt entry) read)
          (Value.height_le_of_value? found)

theorem heightOfItems_le_of_listOfValue {v : Value} {is : List Instruction}
    (inside : ∀ u i, sizeOf u < sizeOf v → ofValue u = .ok i → i.height ≤ u.height)
    (h : listOfValue v = .ok is) : heightOfItems is ≤ v.height := by
  obtain ⟨items, shape, read⟩ := listOfValue_eq_ok.mp h
  have same : v.height = Value.heightOfItems items := by
    rcases shape with rfl | rfl <;> simp [Value.height]
  refine heightOfItems_le fun i member => ?_
  obtain ⟨u, found, hu⟩ := exists_of_mem_listOfValues read i member
  have smaller := List.sizeOf_lt_of_mem found
  have bound : i.height ≤ u.height :=
    inside u i (by rcases shape with rfl | rfl <;> simp <;> omega) hu
  have := Value.height_le_of_mem_items found
  omega

theorem height_le_of_ofValue {v : Value} {i : Instruction} (h : ofValue v = .ok i) :
    i.height ≤ v.height := by
  refine ofValue_induction (motive := fun v i => i.height ≤ v.height) (fun a => ?_)
    (fun es _ => ?_) (fun es kind a _ read inside => ?_) v i h
  · simp [height, Value.height]
  · simp [height, Value.height]
  · suffices a.height ≤ Value.heightOfEntries es by
      simp only [height, Value.height]
      omega
    cases effect : Effect.ofFields? kind es with
    | some checked =>
        rw [Action.ofFields_of_effect effect] at read
        obtain ⟨e, -, rfl⟩ := Checked.map_eq_ok.mp read
        simp [Action.height]
    | none =>
        cases kind <;> simp only [Effect.ofFields?, reduceCtorEq] at effect
        case apiCall =>
          obtain ⟨_, _, _, _, _, rfl, -, -, -, hs, he⟩ := Action.ofFields_apiCall_eq_ok.mp read
          have hsuccess := heightOfOption_le (by simp [eq_comm]) inside hs
          have herror := heightOfOption_le (by simp [eq_comm]) inside he
          simp only [Action.height]
          omega
        case sequence =>
          obtain ⟨is, rfl, items⟩ := Action.ofFields_sequence_eq_ok.mp read
          simp only [Action.height]
          split at items
          · simp [items, heightOfItems]
          · next v found =>
              obtain ⟨k, entry⟩ := Field.mem_of_value? found
              have smaller : sizeOf v < sizeOf es := Field.sizeOf_value_lt entry
              have := heightOfItems_le_of_listOfValue
                (fun u i h => inside u i (Nat.lt_trans h smaller)) items
              have := Value.height_le_of_value? found
              omega
        case conditional =>
          obtain ⟨_, _, _, rfl, -, ht, hf⟩ := Action.ofFields_conditional_eq_ok.mp read
          have htrue := heightOfOption_le (by simp [Field.missing]) inside ht
          have hfalse := heightOfOption_le (by simp [eq_comm]) inside hf
          simp only [Action.height]
          omega
        case noop =>
          simp only [Action.ofFields_noop, Checked.ok.injEq] at read
          simp [← read, Action.height]

theorem height_lt_of_parse {v : Value} {a : Action} (h : parse v = .ok (.known a)) :
    a.height < v.height := by
  exact height_le_of_ofValue (parse_eq_ok.mp h)

end Instruction

end ServerUI
