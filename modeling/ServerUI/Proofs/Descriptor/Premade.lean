import ServerUI.Proofs.Descriptor.Levels

/-!
Mappings with some parts read beforehand. Wherever an action, a component or a section is read in a
mapping, the model that is read may as well stand there itself, and the whole is read as before. The
one thing that a model cannot bring back is the height of what it was read from.
-/

set_option autoImplicit false

namespace ServerUI

namespace Shape

/-- A mapping gives way to the model that it is read as. -/
inductive Premade : Shape → Value → Value → Prop
  | made {shape : Shape} {es : Dict} {m : Value} (read : (Value.dict es).ReadAs shape m) :
      Premade shape (.dict es) m

variable {shape : Shape} {levels : Nat} {v v' : Value}

theorem Premade.fits (h : Premade shape v v') (fits : shape.Fits levels v) :
    shape.Fits levels v' := by
  obtain ⟨read⟩ := h
  refine .intro fits.room (fun es _ _ _ same _ _ => ?_) (fun inner _ item _ => ?_)
  · cases read <;> cases same
  · cases read <;> cases item

theorem Premade.alike (h : Premade shape v v') (fits : shape.Fits levels v) :
    shape.Alike levels v v' := by
  obtain ⟨read⟩ := h
  cases read with
  | action read =>
      have known := Action.parse_dict_eq_ok.mp read
      intro o
      rw [Instruction.ofValue?_eq_ok, Instruction.ofValue?_eq_ok, known, Instruction.ofValue_action]
      simp
  | component read =>
      refine ⟨rfl, fun n => ?_⟩
      obtain ⟨levels, rfl⟩ := Nat.exists_eq_add_one_of_ne_zero (Nat.ne_zero_of_lt (fits.room rfl))
      rw [fits.within read]
      rfl
  | «section» read =>
      intro s
      rw [read]
      rfl
  | screen read =>
      intro s
      rw [read]
      rfl

/-- Over any number of parts, by induction on them. -/
theorem Premade.alike_of_rewrites
    (h : Relation.ReflTransGen (Rewrites Premade shape) v v') (fits : shape.Fits levels v) :
    shape.Fits levels v' ∧ shape.Alike levels v v' := by
  induction h with
  | refl => exact ⟨fits, .refl shape v⟩
  | tail _ last ih =>
      exact ⟨last.fits (fun room change => change.fits room) ih.1,
        ih.2.trans (last.alike Fits.inherited (fun room change => change.alike room) ih.1)⟩

end Shape

/-- A mapping that is nested no deeper than it is read is read as the same model if any of its parts
are read beforehand, and a model is read as itself. -/
theorem Value.readAs_premade_iff {shape : Shape} {es es' : Dict}
    (fits : shape.Fits Node.maxLevels (.dict es))
    (premade : Relation.ReflTransGen (Shape.Rewrites Shape.Premade shape) (.dict es) (.dict es')) :
    (∀ m, (Value.dict es).ReadAs shape m ↔ (Value.dict es').ReadAs shape m) ∧
      (∀ v n, Node.ofValue v = .ok n → Node.ofValue (.node n) = .ok n) ∧
      (∀ v s, Section.ofValue v = .ok s → Section.ofValue (.section s) = .ok s) ∧
      ∀ v i, Instruction.ofValue v = .ok i → Instruction.ofValue i.toValue = .ok i := by
  refine ⟨fun m => (Shape.Premade.alike_of_rewrites premade fits).2.readAs_iff,
    fun _ n _ => Node.ofValue_node n, fun _ _ _ => rfl, fun v i read => ?_⟩
  cases i with
  | known a => exact Instruction.ofValue_action a
  | unknown es =>
      rcases Instruction.ofValue_eq_ok.mp read with
        ⟨_, -, ⟨⟩⟩ | ⟨_, rfl, -, ⟨⟩⟩ | ⟨_, _, _, -, -, -, ⟨⟩⟩
      exact read

/-- A child and an action of a component are read before the component. -/
theorem Value.readAs_premade_child :
    let child : Dict := [("type", .str "B")]
    let press : Dict := [("type", .str "NOOP")]
    let es (u w : Value) : Dict :=
      [("type", .str "A"), ("children", .list [u]), ("actions", .dict [("onPress", w)])]
    let b : Node := ⟨"B", [], none, none, none, none, none⟩
    let n : Node := ⟨"A", [], some [("onPress", .known .noop)], none, some [b], none, none⟩
    Shape.component.Fits Node.maxLevels (.dict (es (.dict child) (.dict press))) ∧
      Relation.ReflTransGen (Shape.Rewrites Shape.Premade .component)
        (.dict (es (.dict child) (.dict press))) (.dict (es (.node b) (.action .noop))) ∧
      (Value.dict (es (.dict child) (.dict press))).ReadAs .component (.node n) ∧
      (Value.dict (es (.node b) (.action .noop))).ReadAs .component (.node n) := by
  intro child press es b n
  have noop : Instruction.ofValue (.dict press) = .ok (.known .noop) :=
    Instruction.ofValue_of_ofFields rfl Action.ofFields_noop
  have fits : Shape.component.Fits Node.maxLevels (.dict (es (.dict child) (.dict press))) :=
    Shape.fits_of_height (by decide) (Nat.le_refl _)
  have first : Shape.Rewrites Shape.Premade .component (.dict (es (.dict child) (.dict press)))
      (.dict (es (.node b) (.dict press))) := by
    have holds : ("children", .list false .component) ∈
        Shape.component.fields (es (.dict child) (.dict press)) := by
      simp [Shape.fields]
    have made : Shape.Premade .component (.dict child) (.node b) := .made (.component rfl)
    exact .field holds rfl (.item (i := 0) rfl (.here made))
  have second : Shape.Rewrites Shape.Premade .component (.dict (es (.node b) (.dict press)))
      (.dict (es (.node b) (.action .noop))) := by
    have holds : ("actions", .map .action) ∈
        Shape.component.fields (es (.node b) (.dict press)) := by
      simp [Shape.fields]
    have made : Shape.Premade .action (.dict press) (.action .noop) :=
      .made (.action (Action.parse_dict_eq_ok.mpr noop))
    exact .field holds rfl (.entry (k := "onPress") rfl (.here made))
  have premade : Relation.ReflTransGen (Shape.Rewrites Shape.Premade .component) _ _ :=
    .tail (.single first) second
  have read : (Value.dict (es (.dict child) (.dict press))).ReadAs .component (.node n) := by
    have actions : Validate.actionMap? (.dict [("onPress", .dict press)]) =
        .ok (some [("onPress", .known .noop)]) :=
      Checked.ofExcept_eq_ok.mpr (Instruction.mapOfValue?_eq_ok.mpr (.inr ⟨_, _, rfl,
        Instruction.mapOfEntries_cons_eq_ok.mpr ⟨_, [], noop, rfl, rfl⟩, rfl⟩))
    exact .component (Node.ofFields_eq_ok.mpr
      ⟨rfl, rfl, Field.withDefault_eq_ok.mpr actions, rfl, rfl, rfl, rfl⟩)
  exact ⟨fits, premade, read, ((readAs_premade_iff fits premade).1 _).mp read⟩

end ServerUI
