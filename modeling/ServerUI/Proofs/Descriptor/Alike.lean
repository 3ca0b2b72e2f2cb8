import Mathlib.Data.List.Pairwise
import ServerUI.Proofs.Descriptor.Replaced

/-!
Values that are read alike. What is read of a mapping depends on nothing but the values of the
fields of its model: where these are read alike, so are the mappings, and with them whatever they
stand in.
-/

set_option autoImplicit false

namespace ServerUI

/-- The fields of an action, besides its tag, that hold no actions. -/
def ActionKind.plain : ActionKind → List String
  | .navigate => ["screen", "params"]
  | .openUrl => ["url", "external"]
  | .addToCart | .updateCartQuantity => ["product_id", "quantity"]
  | .removeFromCart | .toggleFavorite => ["product_id"]
  | .apiCall => ["endpoint", "method", "body"]
  | .showToast => ["message", "status", "duration"]
  | .showModal => ["modal_id", "props"]
  | .closeModal => ["modal_id"]
  | .share => ["title", "message", "url"]
  | .trackEvent => ["event", "properties"]
  | .refresh => ["section_id"]
  | .conditional => ["condition"]
  | .goBack | .sequence | .noop => []

section Lists

variable {α β : Type}

theorem forall₂_iff_of_forall₂ {R : α → β → Prop} {as as' : List α}
    (h : List.Forall₂ (fun a a' => ∀ b, R a b ↔ R a' b) as as') {bs : List β} :
    List.Forall₂ R as bs ↔ List.Forall₂ R as' bs := by
  induction h generalizing bs with
  | nil => exact .rfl
  | cons first _ ih => simp only [List.forall₂_cons_left_iff, first, ih]

theorem forall₂_trans {R : α → α → Prop} (trans : ∀ a b c, R a b → R b c → R a c)
    {as bs cs : List α} (h : List.Forall₂ R as bs) (h' : List.Forall₂ R bs cs) :
    List.Forall₂ R as cs := by
  induction h generalizing cs with
  | nil => exact h'
  | cons first _ ih =>
      cases h' with
      | cons first' rest' => exact .cons (trans _ _ _ first first') (ih rest')

end Lists

/-- The same is read for these fields in two mappings. -/
def Field.SameFor (names : List String) (es es' : Dict) : Prop :=
  ∀ name ∈ names, (named name).value? es' = (named name).value? es

namespace Field

variable {f : Field} {es es' : Dict} {α : Type} {check : Value → Checked α}

theorem readWith_alike {P : Value → Value → Prop} (h : Option.Rel P (f.value? es) (f.value? es'))
    (imp : ∀ {v v'}, P v v' → ∀ a, check v = .ok a ↔ check v' = .ok a) {absent : Checked α}
    {a : α} :
    f.readWith es' absent (fun v _ => check v) = .ok a ↔
      f.readWith es absent (fun v _ => check v) = .ok a := by
  rw [readWith_eq_ok, readWith_eq_ok]
  generalize f.value? es = found, f.value? es' = found' at h
  cases h with
  | none => exact .rfl
  | some related => exact (imp related a).symm

theorem required_alike {P : Value → Value → Prop} (h : Option.Rel P (f.value? es) (f.value? es'))
    (imp : ∀ {v v'}, P v v' → ∀ a, check v = .ok a ↔ check v' = .ok a) {a : α} :
    f.required check es' = .ok a ↔ f.required check es = .ok a :=
  readWith_alike h imp

theorem withDefault_alike {P : Value → Value → Prop}
    (h : Option.Rel P (f.value? es) (f.value? es'))
    (imp : ∀ {v v'}, P v v' → ∀ a, check v = .ok a ↔ check v' = .ok a) {d a : α} :
    f.withDefault d check es' = .ok a ↔ f.withDefault d check es = .ok a :=
  readWith_alike h imp

theorem optional_alike {P : Value → Value → Prop} (h : Option.Rel P (f.value? es) (f.value? es'))
    (imp : ∀ {v v'}, P v v' →
      v.isNull = v'.isNull ∧ ∀ a, check v = .ok a ↔ check v' = .ok a) {o : Option α} :
    f.optional check es' = .ok o ↔ f.optional check es = .ok o := by
  refine readWith_alike h fun related o => ?_
  obtain ⟨null, made⟩ := imp related
  rw [null]
  split
  · exact .rfl
  · simp only [Checked.map_eq_ok, made]

namespace SameFor

variable {names : List String} {name : String}

theorem readWith (h : SameFor names es es') (member : name ∈ names) {absent : Checked α} {a : α} :
    (named name).readWith es' absent (fun v _ => check v) = .ok a ↔
      (named name).readWith es absent (fun v _ => check v) = .ok a :=
  readWith_congr (h name member)

theorem required (h : SameFor names es es') (member : name ∈ names) {a : α} :
    (named name).required check es' = .ok a ↔ (named name).required check es = .ok a :=
  h.readWith member

theorem optional (h : SameFor names es es') (member : name ∈ names) {o : Option α} :
    (named name).optional check es' = .ok o ↔ (named name).optional check es = .ok o :=
  h.readWith member

theorem withDefault (h : SameFor names es es') (member : name ∈ names) {d a : α} :
    (named name).withDefault d check es' = .ok a ↔ (named name).withDefault d check es = .ok a :=
  h.readWith member

end SameFor

end Field

namespace Shape

variable {shape inner : Shape} {levels : Nat} {v v' v'' : Value} {es es' : Dict} {name : String}

/-- No reader tells two values apart, where nodes may be `levels` high. -/
def Alike (levels : Nat) : Shape → Value → Value → Prop
  | .action, v, v' => ∀ o, Instruction.ofValue? v = .ok o ↔ Instruction.ofValue? v' = .ok o
  | .component, v, v' =>
      v.isNull = v'.isNull ∧ ∀ n, Node.within levels v = .ok n ↔ Node.within levels v' = .ok n
  | .section, v, v' => ∀ s, Section.ofValue v = .ok s ↔ Section.ofValue v' = .ok s
  | .screen, v, v' => ∀ s, Screen.ofValue v = .ok s ↔ Screen.ofValue v' = .ok s
  | .list _ item, v, v' =>
      v = v' ∨ ∃ vs vs', (v = .list vs ∧ v' = .list vs' ∨ v = .tuple vs ∧ v' = .tuple vs') ∧
        List.Forall₂ (item.Alike levels) vs vs'
  | .map entry, v, v' =>
      v = v' ∨ ∃ es es', v = .dict es ∧ v' = .dict es' ∧
        List.Forall₂ (fun e e' => e.1 = e'.1 ∧ entry.Alike levels e.2 e'.2) es es'

theorem Alike.refl (shape : Shape) (v : Value) : shape.Alike levels v v := by
  cases shape with
  | action | «section» | screen => exact fun _ => .rfl
  | component => exact ⟨rfl, fun _ => .rfl⟩
  | list | map => exact .inl rfl

theorem Alike.trans (h : shape.Alike levels v v') (h' : shape.Alike levels v' v'') :
    shape.Alike levels v v'' := by
  induction shape generalizing v v' v'' with
  | action | «section» | screen => exact fun a => (h a).trans (h' a)
  | component => exact ⟨h.1.trans h'.1, fun n => (h.2 n).trans (h'.2 n)⟩
  | list fixed item ih =>
      rcases h with rfl | ⟨vs, us, wrap, all⟩
      · exact h'
      · rcases h' with rfl | ⟨us', ws, wrap', all'⟩
        · exact .inr ⟨vs, us, wrap, all⟩
        · obtain ⟨rfl, wrap⟩ : us = us' ∧
              (v = .list vs ∧ v'' = .list ws ∨ v = .tuple vs ∧ v'' = .tuple ws) := by
            rcases wrap with ⟨rfl, rfl⟩ | ⟨rfl, rfl⟩ <;> simpa using wrap'
          have items := forall₂_trans (R := item.Alike levels) (fun _ _ _ => ih) all all'
          exact .inr ⟨vs, ws, wrap, items⟩
  | map entry ih =>
      rcases h with rfl | ⟨es, fs, rfl, rfl, all⟩
      · exact h'
      · rcases h' with rfl | ⟨_, gs, ⟨⟩, rfl, all'⟩
        · exact .inr ⟨es, fs, rfl, rfl, all⟩
        · refine .inr ⟨es, gs, rfl, rfl, forall₂_trans (fun e f g first second => ?_) all all'⟩
          exact ⟨first.1.trans second.1, ih first.2 second.2⟩

theorem Alike.ofValue (h : action.Alike levels v v') (i : Instruction) :
    Instruction.ofValue v = .ok i ↔ Instruction.ofValue v' = .ok i := by
  have given (v : Value) :
      Instruction.ofValue? v = .ok (some i) ↔ Instruction.ofValue v = .ok i := by
    simp [Instruction.ofValue?_eq_ok]
  rw [← given, ← given]
  exact h (some i)

theorem Alike.instruction? (h : action.Alike levels v v') (o : Option Instruction) :
    Validate.instruction? v = .ok o ↔ Validate.instruction? v' = .ok o := by
  rw [Validate.instruction?, Validate.instruction?, Checked.ofExcept_eq_ok, Checked.ofExcept_eq_ok]
  exact h o

theorem Alike.actionMap? (h : (map action).Alike levels v v') (o : Option (Entries Instruction)) :
    Validate.actionMap? v = .ok o ↔ Validate.actionMap? v' = .ok o := by
  rcases h with rfl | ⟨es, es', rfl, rfl, all⟩
  · exact .rfl
  · have same (is : Entries Instruction) :
        Instruction.mapOfEntries es = .ok is ↔ Instruction.mapOfEntries es' = .ok is := by
      rw [Instruction.mapOfEntries_eq_ok_iff, Instruction.mapOfEntries_eq_ok_iff]
      exact forall₂_iff_of_forall₂ (all.imp fun e e' related i => by
        rw [related.1, related.2.ofValue])
    simp [Validate.actionMap?, Instruction.mapOfValue?_eq_ok, same]

theorem Alike.listOfValue {fixed : Bool} (h : (list fixed action).Alike levels v v')
    (is : List Instruction) :
    Instruction.listOfValue v = .ok is ↔ Instruction.listOfValue v' = .ok is := by
  rcases h with rfl | ⟨vs, vs', wrap, all⟩
  · exact .rfl
  · have same : Instruction.listOfValues vs = .ok is ↔ Instruction.listOfValues vs' = .ok is := by
      rw [Instruction.listOfValues_eq_ok_iff, Instruction.listOfValues_eq_ok_iff]
      exact forall₂_iff_of_forall₂ (all.imp fun _ _ related => related.ofValue)
    rcases wrap with ⟨rfl, rfl⟩ | ⟨rfl, rfl⟩ <;> simpa [Instruction.listOfValue] using same

theorem Alike.listOf {α : Type} {check : Value → Checked α} {fixed : Bool}
    (h : (list fixed inner).Alike levels v v')
    (imp : ∀ {u u'}, inner.Alike levels u u' → ∀ a, check u = .ok a ↔ check u' = .ok a)
    (as : List α) : Validate.listOf check v = .ok as ↔ Validate.listOf check v' = .ok as := by
  rcases h with rfl | ⟨vs, vs', wrap, all⟩
  · exact .rfl
  · have same : Checked.items check 0 vs = .ok as ↔ Checked.items check 0 vs' = .ok as := by
      rw [Checked.items_eq_ok_iff, Checked.items_eq_ok_iff]
      exact forall₂_iff_of_forall₂ (all.imp fun _ _ related => imp related)
    rcases wrap with ⟨rfl, rfl⟩ | ⟨rfl, rfl⟩ <;> exact same

theorem Alike.nodes {fixed : Bool} (h : (list fixed component).Alike levels v v')
    (ns : List Node) :
    Validate.listOf (Node.within levels) v = .ok ns ↔
      Validate.listOf (Node.within levels) v' = .ok ns :=
  h.listOf (fun inner => inner.2) ns

theorem Alike.parts {fixed : Bool} (h : (list fixed component).Alike (Node.maxLevels - 1) v v')
    (ns : List Node) :
    Validate.listOf Node.ofPart v = .ok ns ↔ Validate.listOf Node.ofPart v' = .ok ns :=
  h.nodes ns

theorem Alike.sections {fixed : Bool} (h : (list fixed «section»).Alike levels v v')
    (ss : List Section) :
    Validate.listOf Section.ofValue v = .ok ss ↔ Validate.listOf Section.ofValue v' = .ok ss :=
  h.listOf (fun inner => inner) ss

theorem Alike.ofPart (h : component.Alike (Node.maxLevels - 1) v v') :
    v.isNull = v'.isNull ∧ ∀ n, Node.ofPart v = .ok n ↔ Node.ofPart v' = .ok n :=
  h

theorem Alike.isNull {fixed : Bool} (h : (list fixed inner).Alike levels v v') :
    v.isNull = v'.isNull := by
  rcases h with rfl | ⟨_, _, ⟨rfl, rfl⟩ | ⟨rfl, rfl⟩, -⟩ <;> rfl

/-- How high nodes may be inside what is read as a shape. -/
def levelsInside (levels : Nat) : Shape → Nat
  | .component => levels - 1
  | .section | .screen => Node.maxLevels - 1
  | .action | .list .. | .map _ => levels

/-- The fields of a mapping's model that hold neither actions nor descriptors. A mapping of an
unknown kind has no model. -/
def plain? (es : Dict) : Shape → Option (List String)
  | .action =>
      match Instruction.kindOf es with
      | .ok (some kind) => some ("type" :: kind.plain)
      | _ => none
  | .component => some ["type", "props", "key", "condition", "style"]
  | .section => some ["id", "type", "title", "color_props", "style", "collapsible", "collapsed"]
  | .screen => some ["id", "title", "background", "analytics_name"]
  | .list .. | .map _ => none

/-- All fields of the model that a mapping is read as. -/
def names? (es : Dict) (shape : Shape) : Option (List String) :=
  (shape.plain? es).map (· ++ (shape.fields es).map (·.1))

/-- The fields of a model are read alike in two mappings. -/
structure Agree (levels : Nat) (shape : Shape) (es es' : Dict) : Prop where
  model : ∃ names, shape.plain? es = some names ∧ Field.SameFor names es es'
  held : ∀ name inner, (name, inner) ∈ shape.fields es →
    Option.Rel (inner.Alike (shape.levelsInside levels)) ((Field.named name).value? es)
      ((Field.named name).value? es')

end Shape

theorem Effect.ofFields?_alike {kind : ActionKind} {es es' : Dict}
    (same : Field.SameFor kind.plain es es') :
    Option.Rel (fun c c' => ∀ e, c = .ok e ↔ c' = .ok e) (ofFields? kind es)
      (ofFields? kind es') := by
  cases kind <;> simp only [ActionKind.plain] at same
  case apiCall | sequence | conditional | noop => exact .none
  all_goals
    refine .some fun e => ?_
    simp (disch := simp) only [Checked.seq_eq_ok, Checked.functorMap_eq_ok, same.required,
      same.optional]

namespace Instruction

variable {name : String} {es es' : Dict} {levels : Nat}

theorem inField_alike
    (h : Option.Rel (Shape.action.Alike levels) ((Field.named name).value? es)
      ((Field.named name).value? es')) {absent : Checked (Option Instruction)}
    {o : Option Instruction} : inField name absent es' = .ok o ↔ inField name absent es = .ok o :=
  Field.readWith_alike h fun related => related.instruction?

end Instruction

theorem Action.ofFields_alike {kind : ActionKind} {levels : Nat} {es es' : Dict}
    (known : Instruction.kindOf es = .ok (some kind))
    (h : Shape.action.Agree levels es es') (a : Action) :
    ofFields kind es' = .ok a ↔ ofFields kind es = .ok a := by
  have same : Field.SameFor kind.plain es es' := by
    obtain ⟨names, model, same⟩ := h.model
    simp only [Shape.plain?, known, Option.some.injEq] at model
    exact fun name member => same name (model ▸ List.mem_cons_of_mem _ member)
  have held := h.held
  simp only [Shape.fields, known] at held
  have effect := Effect.ofFields?_alike same
  cases kind
  case apiCall =>
    have success := held "on_success" .action (by simp)
    have error := held "on_error" .action (by simp)
    simp only [ActionKind.plain] at same
    simp (disch := simp) only [ofFields_apiCall_eq_ok, same.required, same.optional,
      Instruction.inField_alike success, Instruction.inField_alike error]
  case sequence =>
    have actions := held "actions" (.list true .action) (by simp)
    rw [ofFields_sequence_eq_ok, ofFields_sequence_eq_ok]
    generalize (Field.named "actions").value? es = found,
      (Field.named "actions").value? es' = found' at actions
    cases actions with
    | none => exact .rfl
    | some related => simp only [related.listOfValue]
  case conditional =>
    have onTrue := held "on_true" .action (by simp)
    have onFalse := held "on_false" .action (by simp)
    simp only [ActionKind.plain] at same
    simp (disch := simp) only [ofFields_conditional_eq_ok, same.required,
      Instruction.inField_alike onTrue, Instruction.inField_alike onFalse]
  case noop => simp
  all_goals
    generalize there : Effect.ofFields? _ es = c, there' : Effect.ofFields? _ es' = c' at effect
    cases effect with
    | none => cases there
    | some related =>
        rw [ofFields_of_effect there, ofFields_of_effect there', Checked.map_eq_ok,
          Checked.map_eq_ok]
        simp only [related]

theorem Node.ofFields_alike {levels : Nat} {es es' : Dict}
    (h : Shape.component.Agree (levels + 1) es es') (n : Node) :
    ofFields (within levels) es' = .ok n ↔ ofFields (within levels) es = .ok n := by
  obtain ⟨⟨_, ⟨⟩, same⟩, held⟩ := h
  have actions := held "actions" (.map .action) (by simp [Shape.fields])
  have children : Option.Rel ((Shape.list false .component).Alike levels) _ _ :=
    held "children" _ (by simp [Shape.fields])
  simp (disch := simp) only [ofFields_eq_ok, same.required, same.optional, same.withDefault,
    Field.withDefault_alike actions fun related => related.actionMap?,
    Field.optional_alike children fun related =>
      ⟨related.isNull, related.nodes⟩]

theorem Section.ofFields_alike {levels : Nat} {es es' : Dict}
    (h : Shape.section.Agree levels es es') (s : Section) :
    ofFields es' = .ok s ↔ ofFields es = .ok s := by
  obtain ⟨⟨_, ⟨⟩, same⟩, held⟩ := h
  have components := held "components" (.list false .component) (by simp [Shape.fields])
  have header := held "on_header_press" .action (by simp [Shape.fields])
  have all := held "see_all_action" .action (by simp [Shape.fields])
  simp (disch := simp) only [ofFields_eq_ok, same.optional,
    Field.required_alike components fun related => related.parts,
    Field.withDefault_alike header fun related => related.instruction?,
    Field.withDefault_alike all fun related => related.instruction?]

theorem Screen.ofFields_alike {levels : Nat} {es es' : Dict}
    (h : Shape.screen.Agree levels es es') (s : Screen) :
    ofFields es' = .ok s ↔ ofFields es = .ok s := by
  obtain ⟨⟨_, ⟨⟩, same⟩, held⟩ := h
  have sections := held "sections" (.list false .section) (by simp [Shape.fields])
  have header := held "header" .component (by simp [Shape.fields])
  have footer := held "footer" .component (by simp [Shape.fields])
  have refresh := held "on_refresh" .action (by simp [Shape.fields])
  simp (disch := simp) only [ofFields_eq_ok, same.required, same.optional, same.withDefault,
    Field.required_alike sections fun related => related.sections,
    Field.optional_alike header fun related => related.ofPart,
    Field.optional_alike footer fun related => related.ofPart,
    Field.withDefault_alike refresh fun related => related.instruction?]

namespace Shape

variable {shape inner : Shape} {levels : Nat} {v v' : Value} {es es' : Dict} {name : String}

theorem plain?_action {names : List String} (model : plain? es action = some names) :
    ∃ kind, Instruction.kindOf es = .ok (some kind) ∧ names = "type" :: kind.plain := by
  rw [plain?] at model
  split at model
  · next kind known => exact ⟨kind, known, (Option.some.inj model).symm⟩
  · cases model

/-- What is read of a mapping depends on nothing but the fields of its model. -/
theorem Agree.alike (h : shape.Agree levels es es') :
    shape.Alike levels (.dict es) (.dict es') := by
  obtain ⟨names, model, same⟩ := h.model
  cases shape with
  | action =>
      obtain ⟨kind, known, rfl⟩ := plain?_action model
      have known' : Instruction.kindOf es' = .ok (some kind) :=
        (Field.kindOf_of_value? (same "type" List.mem_cons_self)).trans known
      intro o
      simp [Instruction.ofValue?_eq_ok, Instruction.ofValue_eq_ok, known, known',
        Action.ofFields_alike known h]
  | component =>
      refine ⟨rfl, fun n => ?_⟩
      cases levels with
      | zero => exact .rfl
      | succ levels => exact (Node.ofFields_alike h n).symm
  | «section» => exact fun s => (Section.ofFields_alike h s).symm
  | screen => exact fun s => (Screen.ofFields_alike h s).symm
  | list | map => cases model

/-- No two fields of a model have a spelling in common. -/
theorem names_apart {names : List String} (model : shape.names? es = some names) :
    names.Pairwise fun name other => (Field.named name).Disjoint (Field.named other) := by
  obtain ⟨plain, known, rfl⟩ := Option.map_eq_some_iff.mp model
  cases shape with
  | action =>
      obtain ⟨kind, kindOf, rfl⟩ := plain?_action known
      rw [fields, kindOf]
      cases kind <;> decide +kernel
  | component | «section» | screen =>
      obtain rfl := Option.some.inj known
      rw [fields]
      decide +kernel
  | list | map => cases known

theorem exists_plain {f : String × Shape} (holds : f ∈ shape.fields es) :
    ∃ plain, shape.plain? es = some plain := by
  cases shape with
  | action =>
      rw [fields] at holds
      split at holds
      case h_1 known | h_2 known | h_3 known =>
        rw [plain?, known]
        exact ⟨_, rfl⟩
      case h_4 => cases holds
  | component | «section» | screen => exact ⟨_, rfl⟩
  | list | map => cases holds

/-- A field that holds actions or descriptors has no spelling in common with any other one. -/
theorem exists_apart (holds : (name, inner) ∈ shape.fields es) :
    ∃ plain, shape.plain? es = some plain ∧
      (∀ other ∈ plain, (Field.named name).Disjoint (Field.named other)) ∧
      ∀ f ∈ shape.fields es, f ≠ (name, inner) → (Field.named name).Disjoint (Field.named f.1) := by
  obtain ⟨plain, model⟩ := exists_plain holds
  have apart := names_apart (congrArg (Option.map _) model)
  obtain ⟨-, held, across⟩ := List.pairwise_append.mp apart
  have pairs := List.pairwise_map.mp held
  exact ⟨plain, model,
    fun other member => (across other member name (List.mem_map.mpr ⟨_, holds, rfl⟩)).symm,
    fun f member other => pairs.forall holds member other.symm⟩

/-- A change of one field keeps the others, so it is enough that the field itself is read alike. -/
theorem Agree.of_changes (holds : (name, inner) ∈ shape.fields es)
    (found : (Field.named name).value? es = some v) (h : (Field.named name).Changes v' es es')
    (alike : inner.Alike (shape.levelsInside levels) v v') : shape.Agree levels es es' := by
  obtain ⟨plain, model, unlike, separate⟩ := exists_apart holds
  refine ⟨⟨plain, model, fun other member => h.others _ (unlike other member)⟩,
    fun other inner' member => ?_⟩
  by_cases same : (other, inner') = (name, inner)
  · obtain ⟨rfl, rfl⟩ := Prod.mk.inj same
    rw [found, h.own]
    exact .some alike
  · rw [h.others _ (separate _ member same)]
    cases (Field.named other).value? es with
    | none => exact .none
    | some u => exact .some (.refl inner' u)

/-- Nor does it change which fields hold actions or descriptors. -/
theorem fields_of_changes (holds : (name, inner) ∈ shape.fields es)
    (h : (Field.named name).Changes v' es es') : shape.fields es' = shape.fields es := by
  obtain ⟨plain, model, unlike, -⟩ := exists_apart holds
  cases shape with
  | action =>
      obtain ⟨kind, -, rfl⟩ := plain?_action model
      rw [fields, fields, h.kindOf (unlike "type" List.mem_cons_self)]
  | _ => rfl

end Shape

end ServerUI
