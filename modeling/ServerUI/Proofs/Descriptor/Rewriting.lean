import ServerUI.Proofs.Descriptor.Alike

/-!
Changes inside a value, at any depth where an action or a descriptor is read in it. If what is
changed is read alike before and after, so is all around it, and so it stays over any number of
changes.
-/

set_option autoImplicit false

namespace ServerUI

section Lists

variable {α : Type} {R : α → α → Prop}

theorem forall₂_set_right (refl : ∀ a, R a a) {as : List α} {i : Nat} {a b : α}
    (there : as[i]? = some a) (related : R a b) : List.Forall₂ R as (as.set i b) := by
  obtain ⟨_, -, -, put⟩ := forall₂_set (List.forall₂_same.mpr fun a _ => refl a) there
  obtain ⟨inside, rfl⟩ := List.getElem?_eq_some_iff.mp there
  simpa using put _ b related

theorem forall₂_insert_right (refl : ∀ a, R a a) {es : Entries α} {k : String} {a b : α}
    (there : es.find? k = some a) (related : R a b) :
    List.Forall₂ (fun e f => e.1 = f.1 ∧ R e.2 f.2) es (es.insert k b) := by
  obtain ⟨_, -, -, put⟩ := forall₂_insert (R := R)
    (List.forall₂_same.mpr fun e _ => ⟨rfl, refl e.2⟩) there
  simpa [Entries.insert_of_find? there] using put a b related

end Lists

namespace Shape

/-- One value becomes another by a change of a part that is read as an action or as a descriptor,
where `R` tells which changes there are. -/
inductive Rewrites (R : Shape → Value → Value → Prop) : Shape → Value → Value → Prop
  | here {shape : Shape} {v v' : Value} (change : R shape v v') : Rewrites R shape v v'
  | field {shape inner : Shape} {es : Dict} {name k : String} {v v' : Value}
      (holds : (name, inner) ∈ shape.fields es)
      (found : (Field.named name).source? es = some (k, v)) (inside : Rewrites R inner v v') :
      Rewrites R shape (.dict es) (.dict (es.insert k v'))
  | item {inner : Shape} {fixed : Bool} {vs : List Value} {i : Nat} {v v' : Value}
      (there : vs[i]? = some v) (inside : Rewrites R inner v v') :
      Rewrites R (.list fixed inner) (.list vs) (.list (vs.set i v'))
  | member {inner : Shape} {fixed : Bool} {vs : List Value} {i : Nat} {v v' : Value}
      (there : vs[i]? = some v) (inside : Rewrites R inner v v') :
      Rewrites R (.list fixed inner) (.tuple vs) (.tuple (vs.set i v'))
  | entry {inner : Shape} {es : Dict} {k : String} {v v' : Value}
      (there : es.find? k = some v) (inside : Rewrites R inner v v') :
      Rewrites R (.map inner) (.dict es) (.dict (es.insert k v'))

/-- What the members of a list or of a mapping are read as. -/
def item? : Shape → Option Shape
  | .list _ item => some item
  | .map entry => some entry
  | _ => none

/-- What holds of a value where nodes may be so many levels high holds of the parts that are read
in it. -/
structure Inherited (P : Nat → Shape → Value → Prop) : Prop where
  field : ∀ {levels shape inner es name v}, P levels shape (.dict es) →
    (name, inner) ∈ shape.fields es → (Field.named name).value? es = some v →
      P (shape.levelsInside levels) inner v
  item : ∀ {levels shape inner v}, P levels shape v → shape.item? = some inner →
    ∀ u ∈ v.parts, P levels inner u

variable {R : Shape → Value → Value → Prop} {P : Nat → Shape → Value → Prop}
  {shape : Shape} {levels : Nat} {v v' : Value}

/-- By induction along the way to the part that is changed: one field, item or entry at a time. -/
theorem Rewrites.alike (inherited : Inherited P)
    (change : ∀ {levels shape v v'}, P levels shape v → R shape v v' → shape.Alike levels v v')
    (h : Rewrites R shape v v') (holds : P levels shape v) : shape.Alike levels v v' := by
  induction h generalizing levels with
  | here h => exact change holds h
  | @field _ _ _ _ _ _ v' held found _ ih =>
      have given := Field.value?_of_source? found
      have inside := ih (inherited.field holds held given)
      exact (Agree.of_changes held given (Field.changes_insert found v') inside).alike
  | @item _ _ vs _ _ _ there _ ih =>
      have inside := ih (inherited.item (v := .list vs) holds rfl _ (List.mem_of_getElem? there))
      exact .inr ⟨_, _, .inl ⟨rfl, rfl⟩, forall₂_set_right (Alike.refl _) there inside⟩
  | @member _ _ vs _ _ _ there _ ih =>
      have inside := ih (inherited.item (v := .tuple vs) holds rfl _ (List.mem_of_getElem? there))
      exact .inr ⟨_, _, .inr ⟨rfl, rfl⟩, forall₂_set_right (Alike.refl _) there inside⟩
  | @entry _ es _ v _ there _ ih =>
      have member : v ∈ (Value.dict es).parts :=
        List.mem_map.mpr ⟨_, Entries.mem_of_find? there, rfl⟩
      have inside := ih (inherited.item holds rfl v member)
      exact .inr ⟨_, _, rfl, rfl, forall₂_insert_right (Alike.refl _) there inside⟩

/-- Of mappings that no reader tells apart both are read as the same model, or both are refused. -/
theorem Alike.readAs_iff {es es' : Dict}
    (h : shape.Alike Node.maxLevels (.dict es) (.dict es')) {m : Value} :
    (Value.dict es).ReadAs shape m ↔ (Value.dict es').ReadAs shape m := by
  cases shape with
  | action =>
      have same (a : Action) :
          Action.parse (.dict es) = .ok a ↔ Action.parse (.dict es') = .ok a := by
        rw [Action.parse_dict_eq_ok, Action.parse_dict_eq_ok, h.ofValue]
      exact ⟨fun | .action read => .action ((same _).mp read),
        fun | .action read => .action ((same _).mpr read)⟩
  | component =>
      exact ⟨fun | .component read => .component ((h.2 _).mp read),
        fun | .component read => .component ((h.2 _).mpr read)⟩
  | «section» =>
      exact ⟨fun | .section read => .section ((h _).mp read),
        fun | .section read => .section ((h _).mpr read)⟩
  | screen =>
      exact ⟨fun | .screen read => .screen ((h _).mp read),
        fun | .screen read => .screen ((h _).mpr read)⟩
  | list | map => exact ⟨nofun, nofun⟩

end Shape

end ServerUI
