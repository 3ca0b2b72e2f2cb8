import ServerUI.Action.Validation

/-!
From wire mappings to nodes, sections and screens. A part that is already a model is taken as
it is. A tree of nodes may be `Node.maxLevels` levels high.
-/

set_option autoImplicit false

namespace ServerUI

namespace Validate

def listed? : Value → Option (List Value)
  | .list vs => some vs
  | .tuple vs => some vs
  | v => v.model?.map fun (_, fields) => fields.map fun e => .tuple [.str e.1, e.2]

def listOf {α : Type} (check : Value → Checked α) (v : Value) : Checked (List α) :=
  match listed? v with
  | some vs => Checked.items check 0 vs
  | none => .fault .list

def instruction? (v : Value) : Checked (Option Instruction) :=
  .ofExcept (Instruction.ofValue? v)

def actionMap? (v : Value) : Checked (Option (Entries Instruction)) :=
  .ofExcept (Instruction.mapOfValue? v)

end Validate

namespace Node

def maxLevels : Nat := 255

def ofFields (child : Value → Checked Node) (es : Dict) : Checked Node :=
  Node.mk <$> (Field.named "type").required Validate.text es <*>
    (Field.named "props").withDefault [] Validate.mapping es <*>
    (Field.named "actions").withDefault none Validate.actionMap? es <*>
    (Field.named "key").optional Validate.key es <*>
    (Field.named "children").optional (Validate.listOf child) es <*>
    (Field.named "condition").optional Validate.text es <*>
    (Field.named "style").optional Validate.mapping es

def within : Nat → Value → Checked Node
  | 0, _ => .fault .nesting
  | levels + 1, v =>
      match v with
      | .node n => .ok n
      | .dict es => ofFields (within levels) es
      | _ => .fault .model

def ofValue (v : Value) : Checked Node := within maxLevels v

theorem ofValue_node (n : Node) : ofValue (.node n) = .ok n := by
  simp [ofValue, within, maxLevels]

-- A node inside a section or a screen, which take up one level.
def ofPart (v : Value) : Checked Node := within (maxLevels - 1) v

theorem ofFields_eq_ok {child : Value → Checked Node} {es : Dict} {n : Node} :
    ofFields child es = .ok n ↔
      (Field.named "type").required Validate.text es = .ok n.type ∧
      (Field.named "props").withDefault [] Validate.mapping es = .ok n.props ∧
      (Field.named "actions").withDefault none Validate.actionMap? es = .ok n.actions ∧
      (Field.named "key").optional Validate.key es = .ok n.key ∧
      (Field.named "children").optional (Validate.listOf child) es = .ok n.children ∧
      (Field.named "condition").optional Validate.text es = .ok n.condition ∧
      (Field.named "style").optional Validate.mapping es = .ok n.style := by
  rw [ofFields]
  simp only [Checked.seq_eq_ok, Checked.functorMap_eq_ok]
  constructor
  · rintro ⟨_, _, ⟨_, _, ⟨_, _, ⟨_, _, ⟨_, _, ⟨_, _, ⟨_, ht, rfl⟩, hp, rfl⟩, ha, rfl⟩, hk, rfl⟩, hc,
      rfl⟩, hd, rfl⟩, hs, rfl⟩
    exact ⟨ht, hp, ha, hk, hc, hd, hs⟩
  · cases n
    rintro ⟨ht, hp, ha, hk, hc, hd, hs⟩
    exact ⟨_, _, ⟨_, _, ⟨_, _, ⟨_, _, ⟨_, _, ⟨_, _, ⟨_, ht, rfl⟩, hp, rfl⟩, ha, rfl⟩, hk, rfl⟩, hc,
      rfl⟩, hd, rfl⟩, hs, rfl⟩

/-- A node with nothing but a type and one action is read as its action is. -/
theorem within_action (levels : Nat) (type prop : String) (press : Value) :
    within (levels + 1) (.dict [("type", .str type), ("actions", .dict [(prop, press)])]) =
      ((Checked.ofExcept (Instruction.ofValue press)).under (.name "actions")).map fun i =>
        ⟨type, [], some [(prop, i)], none, none, none, none⟩ := by
  let es : Dict := [("type", .str type), ("actions", .dict [(prop, press)])]
  have actions : (Field.named "actions").withDefault none Validate.actionMap? es =
      ((Checked.ofExcept (Instruction.ofValue press)).map fun i => some [(prop, i)]).under
        (.name "actions") := by
    change (Checked.ofExcept ((Instruction.mapOfEntries [(prop, press)]).map some)).under _ = _
    rw [Instruction.mapOfEntries]
    cases Instruction.ofValue press with
    | ok i => rfl
    | error r => cases r <;> rfl
  change ofFields (within levels) es = _
  rw [ofFields, actions]
  cases Checked.ofExcept (Instruction.ofValue press) <;> rfl

theorem ofValue_action {type prop : String} {press : Value} {i : Instruction}
    (read : Instruction.ofValue press = .ok i) :
    ofValue (.dict [("type", .str type), ("actions", .dict [(prop, press)])]) =
      .ok ⟨type, [], some [(prop, i)], none, none, none, none⟩ := by
  rw [ofValue, maxLevels, within_action, read]
  rfl

theorem ofValue_action_unhashable {type prop t : String} {press : Value}
    (read : Instruction.ofValue press = .error (.unhashable t)) :
    ofValue (.dict [("type", .str type), ("actions", .dict [(prop, press)])]) = .unhashable t := by
  rw [ofValue, maxLevels, within_action, read]
  rfl

theorem within_eq_ok {levels : Nat} {v : Value} {n : Node} (h : within levels v = .ok n) :
    v = .node n ∨ ∃ es below, v = .dict es ∧ ofFields (within below) es = .ok n := by
  cases levels with
  | zero => simp [within] at h
  | succ levels =>
      cases v <;> simp only [within, Checked.ok.injEq, Checked.fault_ne_ok] at h
      case node => exact .inl (h ▸ rfl)
      case dict es => exact .inr ⟨es, levels, rfl, h⟩

end Node

namespace Section

def ofFields (es : Dict) : Checked Section :=
  let text? (name : String) := (Field.named name).optional Validate.text es
  let dict? (name : String) := (Field.named name).optional Validate.mapping es
  let truth? (name : String) := (Field.named name).optional Validate.truth es
  let instruction? (name : String) :=
    (Field.named name).withDefault none Validate.instruction? es
  Section.mk <$> text? "id" <*> text? "type" <*> text? "title" <*>
    (Field.named "components").required (Validate.listOf Node.ofPart) es <*>
    dict? "color_props" <*> dict? "style" <*> truth? "collapsible" <*> truth? "collapsed" <*>
    instruction? "on_header_press" <*> instruction? "see_all_action"

theorem ofFields_eq_ok {es : Dict} {s : Section} :
    ofFields es = .ok s ↔
      (Field.named "id").optional Validate.text es = .ok s.id ∧
      (Field.named "type").optional Validate.text es = .ok s.type ∧
      (Field.named "title").optional Validate.text es = .ok s.title ∧
      (Field.named "components").required (Validate.listOf Node.ofPart) es = .ok s.components ∧
      (Field.named "color_props").optional Validate.mapping es = .ok s.colorProps ∧
      (Field.named "style").optional Validate.mapping es = .ok s.style ∧
      (Field.named "collapsible").optional Validate.truth es = .ok s.collapsible ∧
      (Field.named "collapsed").optional Validate.truth es = .ok s.collapsed ∧
      (Field.named "on_header_press").withDefault none Validate.instruction? es =
        .ok s.onHeaderPress ∧
      (Field.named "see_all_action").withDefault none Validate.instruction? es =
        .ok s.seeAllAction := by
  rw [ofFields]
  simp only [Checked.seq_eq_ok, Checked.functorMap_eq_ok]
  constructor
  · rintro ⟨_, _, ⟨_, _, ⟨_, _, ⟨_, _, ⟨_, _, ⟨_, _, ⟨_, _, ⟨_, _, ⟨_, _, ⟨_, hi, rfl⟩, ht, rfl⟩, hn,
      rfl⟩, hc, rfl⟩, hp, rfl⟩, hs, rfl⟩, hl, rfl⟩, hd, rfl⟩, ho, rfl⟩, ha, rfl⟩
    exact ⟨hi, ht, hn, hc, hp, hs, hl, hd, ho, ha⟩
  · cases s
    rintro ⟨hi, ht, hn, hc, hp, hs, hl, hd, ho, ha⟩
    exact ⟨_, _, ⟨_, _, ⟨_, _, ⟨_, _, ⟨_, _, ⟨_, _, ⟨_, _, ⟨_, _, ⟨_, _, ⟨_, hi, rfl⟩, ht, rfl⟩, hn,
      rfl⟩, hc, rfl⟩, hp, rfl⟩, hs, rfl⟩, hl, rfl⟩, hd, rfl⟩, ho, rfl⟩, ha, rfl⟩

def ofValue : Value → Checked Section
  | .section s => .ok s
  | .dict es => ofFields es
  | _ => .fault .model

end Section

namespace Screen

def ofFields (es : Dict) : Checked Screen :=
  let text? (name : String) := (Field.named name).optional Validate.text es
  let node? (name : String) := (Field.named name).optional Node.ofPart es
  Screen.mk <$> (Field.named "id").required Validate.text es <*> text? "title" <*>
    (Field.named "sections").required (Validate.listOf Section.ofValue) es <*>
    node? "header" <*> node? "footer" <*>
    (Field.named "on_refresh").withDefault none Validate.instruction? es <*>
    (Field.named "background").withDefault .null Validate.any es <*> text? "analytics_name"

theorem ofFields_eq_ok {es : Dict} {s : Screen} :
    ofFields es = .ok s ↔
      (Field.named "id").required Validate.text es = .ok s.id ∧
      (Field.named "title").optional Validate.text es = .ok s.title ∧
      (Field.named "sections").required (Validate.listOf Section.ofValue) es = .ok s.sections ∧
      (Field.named "header").optional Node.ofPart es = .ok s.header ∧
      (Field.named "footer").optional Node.ofPart es = .ok s.footer ∧
      (Field.named "on_refresh").withDefault none Validate.instruction? es = .ok s.onRefresh ∧
      (Field.named "background").withDefault .null Validate.any es = .ok s.background ∧
      (Field.named "analytics_name").optional Validate.text es = .ok s.analyticsName := by
  rw [ofFields]
  simp only [Checked.seq_eq_ok, Checked.functorMap_eq_ok]
  constructor
  · rintro ⟨_, _, ⟨_, _, ⟨_, _, ⟨_, _, ⟨_, _, ⟨_, _, ⟨_, _, ⟨_, hi, rfl⟩, ht, rfl⟩, hs, rfl⟩, hh, rfl⟩,
      hf, rfl⟩, hr, rfl⟩, hb, rfl⟩, ha, rfl⟩
    exact ⟨hi, ht, hs, hh, hf, hr, hb, ha⟩
  · cases s
    rintro ⟨hi, ht, hs, hh, hf, hr, hb, ha⟩
    exact ⟨_, _, ⟨_, _, ⟨_, _, ⟨_, _, ⟨_, _, ⟨_, _, ⟨_, _, ⟨_, hi, rfl⟩, ht, rfl⟩, hs, rfl⟩, hh, rfl⟩,
      hf, rfl⟩, hr, rfl⟩, hb, rfl⟩, ha, rfl⟩

def ofValue : Value → Checked Screen
  | .screen s => .ok s
  | .dict es => ofFields es
  | _ => .fault .model

end Screen

def Value.hasComponents : Value → Bool
  | .section _ => true
  | .dict es => Entries.contains es "components"
  | _ => false

end ServerUI
