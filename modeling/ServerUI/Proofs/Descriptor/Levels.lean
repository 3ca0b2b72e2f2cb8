import ServerUI.Action.Height
import ServerUI.Proofs.Descriptor.Rewriting

/-!
How high nodes may be. What is read within some levels is read the same within more, and a value
that is nested no deeper than the levels allow is not refused for want of them. No change of a part
makes a value higher, as long as the part itself is not made higher.
-/

set_option autoImplicit false

namespace ServerUI

namespace Validate

variable {α : Type} {check check' : Value → Checked α} {v : Value} {as : List α}

theorem listOf_mono (bare : ∀ pair a, check (.tuple pair) ≠ .ok a)
    (more : ∀ u ∈ v.parts, ∀ a, check u = .ok a → check' u = .ok a)
    (read : listOf check v = .ok as) : listOf check' v = .ok as := by
  unfold listOf at read ⊢
  cases found : listed? v with
  | none =>
    simp only [found] at read
    exact absurd read Checked.fault_ne_ok
  | some items =>
    simp only [found, Checked.items_eq_ok_iff] at read ⊢
    have each : ∀ u ∈ items, ∀ a, check u = .ok a → check' u = .ok a := fun u member a made => by
      rcases mem_of_listed? found member with part | ⟨pair, rfl⟩
      · exact more u part a made
      · exact absurd made (bare pair a)
    exact ((List.forall₂_and_left ..).mpr ⟨each, read⟩).imp fun _ a both => both.1 a both.2

end Validate

namespace Node

variable {v : Value} {n : Node} {levels more : Nat}

theorem ofFields_mono {child child' : Value → Checked Node} {es : Dict}
    (bare : ∀ pair n, child (.tuple pair) ≠ .ok n)
    (more : ∀ held, (Field.named "children").value? es = some held →
      ∀ u ∈ held.parts, ∀ n, child u = .ok n → child' u = .ok n)
    (read : ofFields child es = .ok n) : ofFields child' es = .ok n := by
  rw [ofFields_eq_ok] at read ⊢
  obtain ⟨type, props, actions, key, children, condition, style⟩ := read
  refine ⟨type, props, actions, key, ?_, condition, style⟩
  rw [Field.optional_eq_ok] at children ⊢
  split at children
  · exact children
  · next held found =>
    split at children
    · next null => rwa [if_pos null]
    · next given =>
      obtain ⟨ns, listed, there⟩ := children
      rw [if_neg given]
      exact ⟨ns, Validate.listOf_mono bare (more held found) listed, there⟩

/-- What is read within some levels is read the same within more. -/
theorem within_mono (le : levels ≤ more) (read : within levels v = .ok n) :
    within more v = .ok n := by
  induction levels generalizing v n more with
  | zero => exact absurd read Checked.fault_ne_ok
  | succ levels ih =>
    obtain ⟨more, rfl⟩ := Nat.exists_eq_add_one_of_ne_zero (show more ≠ 0 by omega)
    cases v with
    | node m => exact read
    | dict es =>
      exact ofFields_mono (fun pair _ => within_tuple_ne_ok levels pair)
        (fun _ _ _ _ _ inner => ih (by omega) inner) read
    | _ => exact absurd read Checked.fault_ne_ok

end Node

theorem forall_mem_set {α : Type} {P : α → Prop} {as : List α} {b : α} (h : ∀ a ∈ as, P a)
    (new : P b) (i : Nat) : ∀ a ∈ as.set i b, P a := by
  intro a member
  rcases List.mem_or_eq_of_mem_set member with old | rfl
  · exact h a old
  · exact new

namespace Shape

/-- A value is nested no deeper than what is read in it may be, where nodes may be `levels` high. -/
inductive Fits : Nat → Shape → Value → Prop
  | intro {levels : Nat} {shape : Shape} {v : Value} (room : shape = .component → 0 < levels)
      (fields : ∀ es name inner u, v = .dict es → (name, inner) ∈ shape.fields es →
        (Field.named name).value? es = some u → Fits (shape.levelsInside levels) inner u)
      (items : ∀ inner u, shape.item? = some inner → u ∈ v.parts → Fits levels inner u) :
      Fits levels shape v

variable {R : Shape → Value → Value → Prop} {shape inner : Shape} {levels more : Nat}
  {v v' : Value} {es : Dict} {name : String}

theorem Fits.room (h : shape.Fits levels v) : shape = .component → 0 < levels := by
  cases h with
  | intro room _ _ => exact room

theorem Fits.inherited : Inherited Fits where
  field h holds found := by
    cases h with
    | intro _ fields _ => exact fields _ _ _ _ rfl holds found
  item h item u member := by
    cases h with
    | intro _ _ items => exact items _ u item member

theorem Fits.within {n : Node} (h : component.Fits levels v) (read : Node.within more v = .ok n) :
    Node.within levels v = .ok n := by
  induction levels generalizing v n more with
  | zero => exact absurd (h.room rfl) (Nat.lt_irrefl 0)
  | succ levels ih =>
      cases more with
      | zero => exact absurd read Checked.fault_ne_ok
      | succ more =>
          cases v with
          | node m => exact read
          | dict es =>
              -- Only the children of a node are read with one level less.
              have children (held : Value) (found : (Field.named "children").value? es = some held)
                  (u : Value) (member : u ∈ held.parts) : component.Fits levels u :=
                have holds : ("children", list false component) ∈ component.fields es := by
                  simp [Shape.fields]
                inherited.item (inherited.field h holds found) rfl u member
              exact Node.ofFields_mono (fun pair _ => Node.within_tuple_ne_ok more pair)
                (fun held found u member _ inner => ih (children held found u member) inner) read
          | _ => exact absurd read Checked.fault_ne_ok

theorem height_le_of_mem_parts {u v : Value} (h : u ∈ v.parts) : u.height ≤ v.height := by
  cases v with
  | list items | tuple items => exact Value.height_le_of_mem_items h
  | dict es =>
      obtain ⟨e, member, rfl⟩ := List.mem_map.mp h
      exact Nat.le_succ_of_le (Value.height_le_of_mem_entries member)
  | _ => simp [Value.parts] at h

theorem levelsInside_bounds (shape : Shape) (le : levels ≤ Node.maxLevels) :
    levels - 1 ≤ shape.levelsInside levels ∧ shape.levelsInside levels ≤ Node.maxLevels := by
  cases shape <;> simp only [levelsInside] <;> omega

/-- Each node is a mapping, so a value fits if mappings do not stand too deep inside one another. -/
theorem fits_of_height {levels : Nat} {shape : Shape} {v : Value} (low : v.height < levels)
    (le : levels ≤ Node.maxLevels) : shape.Fits levels v := by
  refine .intro (fun _ => by omega) (fun es name inner u same holds found => ?_)
    (fun inner u item member => fits_of_height ?_ le)
  · obtain ⟨least, most⟩ := levelsInside_bounds shape le
    have inside := Value.height_le_of_value? found
    refine fits_of_height ?_ most
    rw [same, Value.height] at low
    omega
  · exact Nat.lt_of_le_of_lt (height_le_of_mem_parts member) low
termination_by sizeOf v
decreasing_by
  · obtain ⟨k, entry⟩ := Field.mem_of_value? found
    have smaller : sizeOf u < sizeOf es := Field.sizeOf_value_lt entry
    rw [same, Value.dict.sizeOf_spec]
    omega
  · exact Value.sizeOf_lt_of_mem_parts member

/-- By induction along the way to the part that is changed. -/
theorem Rewrites.fits
    (change : ∀ {levels shape v v'}, Fits levels shape v → R shape v v' → Fits levels shape v')
    (h : Rewrites R shape v v') (fits : shape.Fits levels v) : shape.Fits levels v' := by
  induction h generalizing levels with
  | here h => exact change fits h
  | @field shape inner es name k v v' holds found _ ih =>
      have given := Field.value?_of_source? found
      have changes := Field.changes_insert found v'
      refine .intro fits.room (fun es' other inner' u same holds' found' => ?_) ?_
      · obtain rfl : Entries.insert es k v' = es' := Value.dict.inj same
        rw [fields_of_changes holds changes] at holds'
        obtain ⟨-, -, -, separate⟩ := exists_apart holds
        by_cases own : (other, inner') = (name, inner)
        · obtain ⟨rfl, rfl⟩ := Prod.mk.inj own
          obtain rfl : v' = u := Option.some.inj (changes.own.symm.trans found')
          exact ih (Fits.inherited.field fits holds given)
        · rw [changes.others _ (separate _ holds' own)] at found'
          exact Fits.inherited.field fits holds' found'
      · cases shape with
        | list | map => cases holds
        | _ => exact nofun
  | @item inner fixed vs i v v' there _ ih =>
      have inside := Fits.inherited.item (v := .list vs) fits rfl
      refine .intro nofun nofun fun _ u item member => ?_
      obtain rfl := Option.some.inj item
      exact forall_mem_set inside (ih (inside v (List.mem_of_getElem? there))) i u member
  | @member inner fixed vs i v v' there _ ih =>
      have inside := Fits.inherited.item (v := .tuple vs) fits rfl
      refine .intro nofun nofun fun _ u item member => ?_
      obtain rfl := Option.some.inj item
      exact forall_mem_set inside (ih (inside v (List.mem_of_getElem? there))) i u member
  | @entry inner es k v v' there _ ih =>
      have inside := Fits.inherited.item fits rfl
      refine .intro nofun nofun fun _ u item member => ?_
      obtain rfl := Option.some.inj item
      obtain ⟨e, changed, rfl⟩ := List.mem_map.mp member
      rcases Entries.mem_of_mem_insert changed with rfl | old
      · exact ih (inside v (List.mem_map.mpr ⟨_, Entries.mem_of_find? there, rfl⟩))
      · exact inside e.2 (List.mem_map.mpr ⟨e, old, rfl⟩)

end Shape

end ServerUI
