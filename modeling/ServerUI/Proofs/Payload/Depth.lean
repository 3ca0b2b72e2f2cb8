import ServerUI.Json.Limits
import ServerUI.Proofs.Action.Everywhere

/-!
The depth of a value, counted from its leaves, and the check of it, which counts from the root. A
member stands one level deeper than the list or the mapping that holds it.
-/

set_option autoImplicit false

namespace ServerUI

mutual

def Value.depth : Value → Nat
  | .list items => Value.depthOfItems items
  | .dict entries => Value.depthOfEntries entries
  | _ => 0

def Value.depthOfItems : List Value → Nat
  | [] => 0
  | v :: vs => max (v.depth + 1) (Value.depthOfItems vs)

def Value.depthOfEntries : List (String × Value) → Nat
  | [] => 0
  | (_, v) :: es => max (v.depth + 1) (Value.depthOfEntries es)

end

namespace Value

theorem depthOfItems_le {vs : List Value} {n : Nat} :
    depthOfItems vs ≤ n ↔ ∀ v ∈ vs, v.depth + 1 ≤ n := by
  induction vs with
  | nil => simp [depthOfItems]
  | cons v vs ih => simp only [depthOfItems, Nat.max_le, ih, List.mem_cons, forall_eq_or_imp]

theorem depthOfEntries_le {es : Dict} {n : Nat} :
    depthOfEntries es ≤ n ↔ ∀ e ∈ es, e.2.depth + 1 ≤ n := by
  induction es with
  | nil => simp [depthOfEntries]
  | cons e es ih =>
      obtain ⟨k, v⟩ := e
      simp only [depthOfEntries, Nat.max_le, ih, List.mem_cons, forall_eq_or_imp]

theorem depthOfItems_eq (vs : List Value) :
    depthOfItems vs = (vs.map depth).max?.elim 0 (· + 1) := by
  induction vs with
  | nil => rfl
  | cons v vs ih =>
      rw [depthOfItems, ih, List.map_cons, List.max?_cons]
      cases (vs.map depth).max? with
      | none => simp
      | some deepest => simp

theorem depthOfEntries_eq (es : Dict) : depthOfEntries es = depthOfItems (es.map (·.2)) := by
  induction es with
  | nil => rfl
  | cons e es ih => simp only [depthOfEntries, depthOfItems, List.map_cons, ih]

-- The depth of a list or a mapping is that of its deepest member and one more, or none without
-- members.
theorem depth_list (items : List Value) :
    (Value.list items).depth = (items.map depth).max?.elim 0 (· + 1) :=
  depthOfItems_eq items

theorem depth_dict (es : Dict) :
    (Value.dict es).depth = (es.map fun e => e.2.depth).max?.elim 0 (· + 1) := by
  have members : es.map (fun e => e.2.depth) = (es.map (·.2)).map depth := by
    rw [List.map_map]
    rfl
  rw [depth, depthOfEntries_eq, depthOfItems_eq, members]

theorem depth_lt_of_mem_parts {u v : Value} (plain : v.isPlain = true) (h : u ∈ v.parts) :
    u.depth < v.depth := by
  cases v with
  | list items => exact depthOfItems_le.mp (Nat.le_refl (depthOfItems items)) u h
  | dict es =>
      obtain ⟨e, member, rfl⟩ := List.mem_map.mp h
      exact depthOfEntries_le.mp (Nat.le_refl (depthOfEntries es)) e member
  | tuple => simp [isPlain] at plain
  | _ => simp [parts] at h

theorem checkDepthOfItems_eq_ok {limit depth : Int} {vs : List Value} :
    checkDepthOfItems limit depth vs = .ok () ↔ ∀ v ∈ vs, checkDepth limit depth v = .ok () := by
  induction vs with
  | nil => simp [checkDepthOfItems]
  | cons v vs ih =>
      rw [checkDepthOfItems]
      cases first : checkDepth limit depth v <;> simp [first, ih]

theorem checkDepthOfEntries_eq_ok {limit depth : Int} {es : Dict} :
    checkDepthOfEntries limit depth es = .ok () ↔
      ∀ e ∈ es, checkDepth limit depth e.2 = .ok () := by
  induction es with
  | nil => simp [checkDepthOfEntries]
  | cons e es ih =>
      obtain ⟨k, v⟩ := e
      rw [checkDepthOfEntries]
      cases first : checkDepth limit depth v <;> simp [first, ih]

/-- A value passes the check just when the levels below the one where it stands are within the
limit. -/
theorem checkDepth_eq_ok (limit depth : Int) (v : Value) :
    checkDepth limit depth v = .ok () ↔ depth + v.depth ≤ limit := by
  unfold checkDepth
  split
  · next deeper =>
      simp only [reduceCtorEq, false_iff]
      omega
  · next within =>
      cases v with
      | list items =>
          have members : (∀ v ∈ items, checkDepth limit (depth + 1) v = .ok ()) ↔
              ∀ v ∈ items, v.depth + 1 ≤ (limit - depth).toNat :=
            forall₂_congr fun v member => by
              rw [checkDepth_eq_ok]
              omega
          simp only [Value.depth, checkDepthOfItems_eq_ok, members, ← depthOfItems_le]
          omega
      | dict es =>
          have members : (∀ e ∈ es, checkDepth limit (depth + 1) e.2 = .ok ()) ↔
              ∀ e ∈ es, e.2.depth + 1 ≤ (limit - depth).toNat :=
            forall₂_congr fun e member => by
              rw [checkDepth_eq_ok]
              omega
          simp only [Value.depth, checkDepthOfEntries_eq_ok, members, ← depthOfEntries_le]
          omega
      | _ =>
          simp only [Value.depth, true_iff]
          omega
termination_by sizeOf v
decreasing_by
  · have := List.sizeOf_lt_of_mem member
    simp only [list.sizeOf_spec]
    omega
  · have := Field.sizeOf_value_lt member
    simp only [dict.sizeOf_spec]
    omega

theorem exists_of_checkDepthOfItems {limit depth : Int} {vs : List Value} {e : DocumentError}
    (h : checkDepthOfItems limit depth vs = .error e) :
    ∃ v ∈ vs, checkDepth limit depth v = .error e := by
  induction vs with
  | nil => simp [checkDepthOfItems] at h
  | cons v vs ih =>
      rw [checkDepthOfItems] at h
      split at h
      · next first =>
          cases h
          exact ⟨v, List.mem_cons_self, first⟩
      · obtain ⟨u, member, refused⟩ := ih h
        exact ⟨u, List.mem_cons_of_mem v member, refused⟩

theorem exists_of_checkDepthOfEntries {limit depth : Int} {es : Dict} {e : DocumentError}
    (h : checkDepthOfEntries limit depth es = .error e) :
    ∃ entry ∈ es, checkDepth limit depth entry.2 = .error e := by
  induction es with
  | nil => simp [checkDepthOfEntries] at h
  | cons entry es ih =>
      obtain ⟨k, v⟩ := entry
      rw [checkDepthOfEntries] at h
      split at h
      · next first =>
          cases h
          exact ⟨(k, v), List.mem_cons_self, first⟩
      · obtain ⟨u, member, refused⟩ := ih h
        exact ⟨u, List.mem_cons_of_mem _ member, refused⟩

/-- Whatever part of the value is too deep, the check names the first depth beyond the limit, or
the depth that it began with if that is beyond it already. -/
theorem eq_tooDeep_of_checkDepth (limit depth : Int) (v : Value) (e : DocumentError) :
    checkDepth limit depth v = .error e → e = .tooDeep (max depth (limit + 1)) limit := by
  unfold checkDepth
  split
  · next deeper =>
      rintro ⟨⟩
      rw [Int.max_eq_left (by omega)]
  · next within =>
      -- A part stands one level deeper, which is not yet beyond the first depth that is too deep.
      have level : max (depth + 1) (limit + 1) = max depth (limit + 1) := by omega
      cases v with
      | list items =>
          intro refused
          obtain ⟨u, member, refused⟩ := exists_of_checkDepthOfItems refused
          rw [eq_tooDeep_of_checkDepth _ _ u e refused, level]
      | dict es =>
          intro refused
          obtain ⟨entry, member, refused⟩ := exists_of_checkDepthOfEntries refused
          rw [eq_tooDeep_of_checkDepth _ _ entry.2 e refused, level]
      | _ => simp
termination_by sizeOf v
decreasing_by
  · have := List.sizeOf_lt_of_mem member
    simp only [list.sizeOf_spec]
    omega
  · have := Field.sizeOf_value_lt member
    simp only [dict.sizeOf_spec]
    omega

theorem checkDepth_eq_error {limit depth : Int} {v : Value} {e : DocumentError} :
    checkDepth limit depth v = .error e ↔
      limit < depth + v.depth ∧ e = .tooDeep (max depth (limit + 1)) limit := by
  rw [← Int.not_le, ← checkDepth_eq_ok]
  constructor
  · intro refused
    exact ⟨by simp [refused], eq_tooDeep_of_checkDepth _ _ _ _ refused⟩
  · rintro ⟨refused, rfl⟩
    cases outcome : checkDepth limit depth v with
    | ok _ => exact absurd outcome refused
    | error e => rw [eq_tooDeep_of_checkDepth _ _ _ _ outcome]

/-- The check refuses a value just when the levels below it go beyond the limit from where it
stands, and names the same depth whichever of its parts is found too deep. -/
theorem checkDepth_message (limit depth : Int) (v : Value) :
    (checkDepth limit depth v).mapError DocumentError.message =
      if depth + v.depth ≤ limit then .ok ()
      else .error ("JSON nesting depth " ++ toString (max depth (limit + 1)) ++
        " exceeds maximum " ++ toString limit) := by
  by_cases within : depth + v.depth ≤ limit
  next =>
    have passed : checkDepth limit depth v = .ok () := (checkDepth_eq_ok limit depth v).mpr within
    rw [passed, if_pos within]
    rfl
  next =>
    have beyond : limit < depth + v.depth := Int.not_le.mp within
    have refused : checkDepth limit depth v = .error (.tooDeep (max depth (limit + 1)) limit) := by
      rw [checkDepth_eq_error]
      exact ⟨beyond, rfl⟩
    rw [refused, if_neg within]
    rfl

end Value

end ServerUI
