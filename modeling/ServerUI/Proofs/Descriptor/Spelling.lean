import ServerUI.Proofs.Descriptor.Rewriting

/-!
Spellings and unknown keys. A field may go by its name where it goes by its spelling on the wire,
and a mapping may have any keys besides those that spell its fields: nothing that is read depends on
either, at any depth.
-/

set_option autoImplicit false

namespace ServerUI

/-- A field is spelled alike in two mappings, or else by its name in the second one and as on the
wire alone in the first. -/
def Field.Respelled (f : Field) (es es' : Dict) : Prop :=
  (es'.find? f.wire = es.find? f.wire ∧ es'.find? f.name = es.find? f.name) ∨
    (es.find? f.name = none ∧ es'.find? f.wire = none ∧ es'.find? f.name = es.find? f.wire)

theorem Field.Respelled.value?_eq {f : Field} {es es' : Dict} (h : f.Respelled es es') :
    f.value? es' = f.value? es := by
  rw [Field.value?_eq, Field.value?_eq]
  rcases h with ⟨wire, name⟩ | ⟨missing, gone, moved⟩
  · rw [wire, name]
  · rw [gone, moved, missing, Option.none_or, Option.or_none]

namespace Shape

/-- Where a mapping is read as a model, these are the fields that the model has. -/
theorem names?_of_model {shape : Shape} {levels : Nat} {es fields : Dict} {u : Value}
    {model : String} (read : shape.Reads levels (.dict es) u) (there : u.model? = some (model, fields)) :
    ∃ names, shape.names? es = some names ∧ names.Perm (Entries.keys fields) := by
  cases shape with
  | action =>
      obtain ⟨i, made, rfl⟩ := read
      rcases Instruction.ofValue_eq_ok.mp made with
        ⟨_, ⟨⟩, -⟩ | ⟨_, -, -, rfl⟩ | ⟨_, kind, a, ⟨⟩, known, fields, rfl⟩
      · cases there
      · obtain rfl := Action.kind_of_ofFields fields
        cases there
        rw [names?, plain?, Shape.fields, known]
        refine ⟨_, rfl, ?_⟩
        cases a with
        | effect e => cases e <;> exact .refl _
        | _ => exact .refl _
  | component =>
      obtain ⟨n, -, rfl⟩ := read
      cases there
      exact ⟨_, rfl, List.isPerm_iff.mp (by rfl)⟩
  | «section» =>
      obtain ⟨s, -, rfl⟩ := read
      cases there
      exact ⟨_, rfl, List.isPerm_iff.mp (by rfl)⟩
  | screen =>
      obtain ⟨s, -, rfl⟩ := read
      cases there
      exact ⟨_, rfl, List.isPerm_iff.mp (by rfl)⟩
  | list => obtain ⟨_, _, ⟨⟩, -⟩ := read
  | map =>
      obtain ⟨_, _, -, rfl, -⟩ := read
      cases there

/-- Of two mappings the second has some fields of their model by name instead of as on the wire, and
may differ in any keys that spell none of them. -/
inductive Respells : Shape → Value → Value → Prop
  | mapping {shape : Shape} {es es' : Dict} {names : List String}
      (model : shape.names? es = some names)
      (fields : ∀ name ∈ names, (Field.named name).Respelled es es') :
      Respells shape (.dict es) (.dict es')

variable {shape : Shape} {levels : Nat} {v v' : Value} {es es' : Dict}

section Steps

variable {names : List String} {name k : String} (model : shape.names? es = some names)

include model

theorem Respells.add (w : Value)
    (foreign : ∀ name ∈ names, (Field.named name).wire ≠ k ∧ name ≠ k) :
    Respells shape (.dict es) (.dict (es.insert k w)) :=
  .mapping model fun name member => .inl
    ⟨Entries.find?_insert_of_ne es w (foreign name member).1,
      Entries.find?_insert_of_ne es w (foreign name member).2⟩

theorem Respells.rename (own : name ∈ names) (once : (Entries.keys es).Nodup)
    (there : es.find? (Field.named name).wire = some v) (missing : es.find? name = none) :
    Respells shape (.dict es) (.dict ((es.erase (Field.named name).wire).insert name v)) := by
  have moved : (Field.named name).wire ≠ name := fun same => by
    rw [same, missing] at there
    cases there
  refine .mapping model fun other member => ?_
  by_cases same : other = name
  · subst same
    refine .inr ⟨missing, ?_, ?_⟩
    · rw [Entries.find?_insert_of_ne _ v moved, Entries.find?_erase_self once]
    · rw [there]
      exact Entries.find?_insert_self _ other v
  · have apart : (Field.named other).Disjoint (Field.named name) :=
      (names_apart model).forall member own same
    refine .inl ⟨?_, ?_⟩
    · exact (Entries.find?_insert_of_ne _ v apart.2.1).trans (Entries.find?_erase_of_ne _ apart.1)
    · exact (Entries.find?_insert_of_ne _ v apart.2.2.2).trans
        (Entries.find?_erase_of_ne _ apart.2.2.1)

end Steps

theorem Respells.alike (h : Respells shape v v') : shape.Alike levels v v' := by
  cases h with
  | @mapping es es' names model fields =>
      obtain ⟨plain, known, rfl⟩ := Option.map_eq_some_iff.mp model
      have same (name : String) (member : name ∈ plain ++ (shape.fields es).map (·.1)) :
          (Field.named name).value? es' = (Field.named name).value? es :=
        (fields name member).value?_eq
      refine Agree.alike ⟨⟨plain, known, fun name member => ?_⟩, fun name inner holds => ?_⟩
      · exact same name (List.mem_append_left _ member)
      · rw [same name (List.mem_append_right _ (List.mem_map.mpr ⟨_, holds, rfl⟩))]
        cases (Field.named name).value? es with
        | none => exact .none
        | some u => exact .some (.refl inner u)

/-- Over any number of changes, by induction on them. -/
theorem Respells.alike_of_rewrites
    (h : Relation.ReflTransGen (Rewrites Respells shape) v v') : shape.Alike levels v v' := by
  have unlimited : Inherited fun _ _ _ => True := ⟨fun _ _ _ => trivial, fun _ _ _ _ => trivial⟩
  induction h with
  | refl => exact .refl shape v
  | tail _ last ih => exact ih.trans (last.alike unlimited (fun _ change => change.alike) trivial)

end Shape

/-- Fields are spelled either way and unknown keys are ignored: a mapping that is changed in these
wherever an action or a descriptor is read in it is read as the same model, or both are refused. -/
theorem Value.readAs_respelled_iff {shape : Shape} {es es' : Dict}
    (respelled : Relation.ReflTransGen (Shape.Rewrites Shape.Respells shape) (.dict es) (.dict es'))
    (m : Value) : (Value.dict es).ReadAs shape m ↔ (Value.dict es').ReadAs shape m :=
  (Shape.Respells.alike_of_rewrites respelled).readAs_iff

/-- A field of an action goes by its name, and the component has a key of its own. -/
theorem Value.readAs_respelled_press :
    let wire : Dict := [("type", .str "CLOSE_MODAL"), ("modalId", .str "m")]
    let named : Dict := [("type", .str "CLOSE_MODAL"), ("modal_id", .str "m")]
    let es (action : Dict) : Dict :=
      [("type", .str "A"), ("actions", .dict [("onPress", .dict action)])]
    let noted : Dict := (es named).insert "note" (.int 1)
    let n : Node := ⟨"A", [], some [("onPress", .known (.effect (.closeModal (some "m"))))], none,
      none, none, none⟩
    Relation.ReflTransGen (Shape.Rewrites Shape.Respells .component) (.dict (es wire))
        (.dict noted) ∧
      (Value.dict (es wire)).ReadAs .component (.node n) ∧
      (Value.dict noted).ReadAs .component (.node n) := by
  intro wire named es noted n
  have renamed : Shape.Respells .action (.dict wire) (.dict named) := by
    have model : Shape.action.names? wire = some ["type", "modal_id"] := by
      have kind : Instruction.kindOf wire = .ok (some .closeModal) := rfl
      simp [Shape.names?, Shape.plain?, Shape.fields, kind, ActionKind.plain]
    have place : Entries.insert (Entries.erase wire (Field.named "modal_id").wire) "modal_id"
        (.str "m") = named := rfl
    exact place ▸ .rename model (by simp) (by decide) rfl rfl
  have pressed : Shape.Rewrites Shape.Respells .component (.dict (es wire)) (.dict (es named)) := by
    have holds : ("actions", .map .action) ∈ Shape.component.fields (es wire) := by
      simp [Shape.fields]
    exact .field holds rfl (.entry (k := "onPress") rfl (.here renamed))
  have added : Shape.Respells .component (.dict (es named)) (.dict noted) :=
    .add rfl _ (by decide +kernel)
  have respelled : Relation.ReflTransGen (Shape.Rewrites Shape.Respells .component)
      (.dict (es wire)) (.dict noted) := .tail (.single pressed) (.here added)
  have read : (Value.dict (es wire)).ReadAs .component (.node n) :=
    .component (Node.ofValue_action (Action.ofValue_effect rfl rfl))
  exact ⟨respelled, read, (readAs_respelled_iff respelled _).mp read⟩

end ServerUI
