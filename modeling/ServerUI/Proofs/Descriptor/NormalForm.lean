import ServerUI.Proofs.Action.WireForm
import ServerUI.Proofs.Descriptor.Parts

/-!
The normal form that reading leaves. Whatever model is reached from what was read of JSON was itself
read from a mapping in it, so each of its action positions was read as well: it holds an action, or
a mapping whose type is none of the known ones.
-/

set_option autoImplicit false

namespace ServerUI

namespace Value

/-- The fields that hold a single action, or none. -/
def singleActionFields : List String :=
  ["on_success", "on_error", "on_true", "on_false", "on_header_press", "see_all_action",
    "on_refresh"]

/-- An action, or a mapping as it came, whose type can be a key and is none of the known ones. -/
inductive IsAction : Value → Prop
  | typed (a : Action) : IsAction (.action a)
  | raw {es : Dict} (hashable : ∀ t, es.find? "type" = some t → t.unhashable? = none)
      (unknown : ∀ t, es.find? "type" = some t → ∀ kind : ActionKind, t.word? ≠ some kind.name) :
      IsAction (.dict es)

/-- What may stand in a field of a model, as far as the field is there for actions. -/
structure FieldNormal (model field : String) (v : Value) : Prop where
  single (h : field ∈ singleActionFields) : v = .null ∨ v.IsAction
  sequence (h : model = ActionKind.sequence.model) (h' : field = "actions") :
    ∃ items, v = .tuple items ∧ ∀ i ∈ items, i.IsAction
  map (h : model = "ComponentDescriptor") (h' : field = "actions") :
    v = .null ∨ ∃ es, v = .dict es ∧ ∀ e ∈ es, e.2.IsAction

def Normal (m : Value) : Prop :=
  ∀ model fields, m.model? = some (model, fields) →
    ∀ field v, (field, v) ∈ fields → FieldNormal model field v

/-- What stands in the fields of a model, by itself or among others, and in the fields of the
models among that. -/
inductive Reaches (m : Value) : Value → Prop
  | root : Reaches m m
  | field {u v w : Value} {model field : String} {fields : Dict} (outer : Reaches m u)
      (here : u.model? = some (model, fields)) (held : (field, v) ∈ fields)
      (inside : w = v ∨ w ∈ v.parts) : Reaches m w

/-- If this is a model, then it was read from a mapping of JSON. -/
inductive Read : Value → Prop
  | bare {v : Value} (h : v.model? = none) : Read v
  | action {es : Dict} {kind : ActionKind} {a : Action} (json : (Value.dict es).IsJson)
      (read : Action.ofFields kind es = .ok a) : Read (.action a)
  | node {es : Dict} {levels : Nat} {n : Node} (json : (Value.dict es).IsJson)
      (read : Node.ofFields (Node.within levels) es = .ok n) : Read (.node n)
  | section {es : Dict} {s : Section} (json : (Value.dict es).IsJson)
      (read : Section.ofFields es = .ok s) : Read (.section s)
  | screen {es : Dict} {s : Screen} (json : (Value.dict es).IsJson)
      (read : Screen.ofFields es = .ok s) : Read (.screen s)

def Held (v : Value) : Prop := ∀ w, w = v ∨ w ∈ v.parts → w.Read

/-- A field that is as it should be, and holds no model but what was read. -/
structure FieldRead (model field : String) (v : Value) : Prop where
  normal : FieldNormal model field v
  held : v.Held

theorem IsJson.read {v : Value} (h : v.IsJson) : v.Read := by
  have plain := h.here
  refine .bare ?_
  cases v <;> simp_all [isPlain, model?]

theorem IsJson.held {v : Value} (h : v.IsJson) : v.Held := by
  rintro w (rfl | part)
  · exact h.read
  · exact IsJson.read (h.inside w part)

@[simp] theorem isJson_null : null.IsJson := .intro rfl (by simp [parts])

@[simp] theorem isJson_bool (b : Bool) : (bool b).IsJson := .intro rfl (by simp [parts])

@[simp] theorem isJson_int (i : Int) : (int i).IsJson := .intro rfl (by simp [parts])

@[simp] theorem isJson_str (s : String) : (str s).IsJson := .intro rfl (by simp [parts])

@[simp] theorem isJson_list {vs : List Value} : (list vs).IsJson ↔ ∀ v ∈ vs, v.IsJson :=
  ⟨fun h => h.inside, fun h => .intro rfl h⟩

@[simp] theorem isJson_dict {es : Dict} : (dict es).IsJson ↔ ∀ e ∈ es, e.2.IsJson :=
  ⟨fun h _ => h.entry, fun h => .of_entries rfl h⟩

@[simp] theorem isJson_ofNumber (n : Number) : (ofNumber n).IsJson := by
  cases n <;> exact .intro rfl (by simp [parts, ofNumber])

@[simp] theorem isJson_ofKey (k : Key) : (ofKey k).IsJson := by
  cases k <;> exact .intro rfl (by simp [parts, ofKey])

@[simp] theorem isJson_ofOption {α : Type} {f : α → Value} {o : Option α} :
    (ofOption f o).IsJson ↔ ∀ a, o = some a → (f a).IsJson := by
  cases o <;> simp [ofOption]

theorem IsAction.of_kindOf {es : Dict} (h : Instruction.kindOf es = .ok none) :
    (dict es).IsAction := by
  rw [Instruction.kindOf] at h
  split at h
  · next absent => exact .raw (by simp [absent]) (by simp [absent])
  · next t found =>
      split at h
      · cases h
      · next hashable =>
          have none : t.actionKind? = none := Except.ok.inj h
          refine .raw (fun u same => ?_) fun u same kind word => ?_
          · obtain rfl : t = u := Option.some.inj (found.symm.trans same)
            exact hashable
          · obtain rfl : t = u := Option.some.inj (found.symm.trans same)
            simp [actionKind?, word] at none

theorem held_of_parts {v : Value} (bare : v.model? = none) (h : ∀ u ∈ v.parts, u.Read) :
    v.Held := by
  rintro w (rfl | part)
  · exact .bare bare
  · exact h w part

theorem Read.held_of_model {v : Value} (h : v.Read) (empty : v.parts = []) : v.Held := by
  rintro w (rfl | part)
  · exact h
  · simp [empty] at part

theorem held_of_within {levels : Nat} {q : Value} {n : Node} (json : q.IsJson)
    (h : Node.within levels q = .ok n) : (node n).Held := by
  rcases Node.within_eq_ok h with rfl | ⟨es, below, rfl, read⟩
  · exact absurd json.here (by simp [isPlain])
  · exact (Read.node json read).held_of_model rfl

/-- What is read at an action position is an action, with nothing in it but what was read. -/
theorem held_of_ofValue {v : Value} {i : Instruction} (json : v.IsJson)
    (h : Instruction.ofValue v = .ok i) : i.toValue.Held ∧ i.toValue.IsAction := by
  rcases Instruction.ofValue_eq_ok.mp h with
    ⟨a, rfl, rfl⟩ | ⟨es, rfl, kind, rfl⟩ | ⟨es, kind, a, rfl, hk, read, rfl⟩
  · exact absurd json.here (by simp [isPlain])
  · exact ⟨json.held, .of_kindOf kind⟩
  · exact ⟨(Read.action json read).held_of_model rfl, .typed a⟩

namespace FieldRead

variable {model field : String}

/-- A field that is not there for actions. -/
theorem other {v : Value} (held : v.Held) (apart : field ∉ "actions" :: singleActionFields) :
    FieldRead model field v := by
  rw [List.mem_cons, not_or] at apart
  refine ⟨⟨fun h => absurd h apart.2, ?_, ?_⟩, held⟩
  all_goals exact fun _ h => absurd h apart.1

theorem plain {v : Value} (json : v.IsJson) (apart : field ∉ "actions" :: singleActionFields) :
    FieldRead model field v :=
  other json.held apart

theorem instruction {o : Option Instruction}
    (h : ∀ i, o = some i → i.toValue.Held ∧ i.toValue.IsAction)
    (other : field ≠ "actions") : FieldRead model field (ofOption (·.toValue) o) := by
  cases o with
  | none =>
      exact ⟨⟨fun _ => .inl rfl, fun _ h => absurd h other, fun _ h => absurd h other⟩,
        isJson_null.held⟩
  | some i =>
      obtain ⟨held, action⟩ := h i rfl
      exact ⟨⟨fun _ => .inr action, fun _ h => absurd h other, fun _ h => absurd h other⟩, held⟩

end FieldRead

end Value

open Value

theorem Effect.names_fields (e : Effect) :
    ∀ f ∈ e.fields, f.1 ∉ "actions" :: singleActionFields := by
  cases e <;> simp [fields, singleActionFields]

theorem Effect.json_fields {e : Effect} (mapping : ∀ m, e.mapping? = some m → (Value.dict m).IsJson)
    (whole : ∀ productId q, e = .updateCartQuantity productId q → ∃ n, q = .int n) :
    ∀ f ∈ e.fields, f.2.IsJson := by
  cases e with
  | navigate screen params => simpa [fields, mapping?] using mapping
  | showModal modalId props => simpa [fields, mapping?] using mapping
  | trackEvent event properties => simpa [fields, mapping?] using mapping
  | updateCartQuantity productId quantity =>
      obtain ⟨n, rfl⟩ := whole productId quantity rfl
      simp [fields]
  | _ => simp [fields]

theorem Action.fields_read {kind : ActionKind} {es : Dict} {a : Action}
    (json : (Value.dict es).IsJson) (read : ofFields kind es = .ok a) :
    ∀ f ∈ a.fields, FieldRead a.kind.model f.1 f.2 := by
  have sendable := sendable_of_ofFields json read
  -- Whatever is nested was read from a part of the mapping, and that is JSON as well.
  have nested (i : Instruction) (member : i ∈ a.nested) : i.toValue.Held ∧ i.toValue.IsAction := by
    obtain ⟨k, v, u, entry, place, -, read⟩ := Instruction.exists_of_mem_nested read member
    have here : v.IsJson := json.entry entry
    rcases place with rfl | part
    · exact held_of_ofValue here read
    · exact held_of_ofValue (here.inside u part) read
  have option {o : Option Instruction} (inside : ∀ i, o = some i → i ∈ a.nested) {field : String}
      (other : field ≠ "actions") : FieldRead a.kind.model field (.ofOption (·.toValue) o) :=
    .instruction (fun i same => nested i (inside i same)) other
  have tag : FieldRead a.kind.model "type" (.str a.kind.name) :=
    .plain (by simp) (by decide)
  refine List.forall_mem_cons.mpr ⟨tag, ?_⟩
  cases a with
  | effect e =>
      intro f member
      have whole (p : String) (q : Value) (same : e = .updateCartQuantity p q) : ∃ n, q = .int n :=
        sendable.quantity p q (by rw [same])
      exact .plain (Effect.json_fields (fun m found => sendable.mapping found) whole f member)
        (e.names_fields f member)
  | apiCall endpoint method body onSuccess onError =>
      have mapping : (Value.ofOption .dict body).IsJson :=
        isJson_ofOption.mpr fun m => sendable.mapping
      have success : FieldRead ActionKind.apiCall.model "on_success"
          (.ofOption (·.toValue) onSuccess) :=
        option (by simp +contextual [Action.nested]) (by simp)
      have error : FieldRead ActionKind.apiCall.model "on_error" (.ofOption (·.toValue) onError) :=
        option (by simp +contextual [Action.nested]) (by simp)
      simp only [List.forall_mem_cons]
      exact ⟨.plain (by simp) (by decide), .plain (by simp) (by decide),
        .plain mapping (by decide), success, error, by simp⟩
  | sequence is =>
      simp only [List.forall_mem_cons]
      refine ⟨⟨⟨by simp [singleActionFields], fun _ _ => ⟨_, rfl, ?_⟩, ?_⟩, ?_⟩, by simp⟩
      · intro v member
        obtain ⟨i, inside, rfl⟩ := List.mem_map.mp member
        exact (nested i inside).2
      · simp [Action.kind, ActionKind.model]
      · refine held_of_parts rfl fun v member => ?_
        obtain ⟨i, inside, rfl⟩ := List.mem_map.mp member
        exact (nested i inside).1 _ (.inl rfl)
  | conditional condition onTrue onFalse =>
      have whenTrue : FieldRead ActionKind.conditional.model "on_true"
          (.ofOption (·.toValue) onTrue) :=
        option (by simp +contextual [Action.nested]) (by simp)
      have whenFalse : FieldRead ActionKind.conditional.model "on_false"
          (.ofOption (·.toValue) onFalse) :=
        option (by simp +contextual [Action.nested]) (by simp)
      simp only [List.forall_mem_cons]
      exact ⟨.plain (by simp) (by decide), whenTrue, whenFalse, by simp⟩
  | noop => simp

theorem Node.fields_read {es : Dict} {levels : Nat} {n : Node} (json : (Value.dict es).IsJson)
    (read : ofFields (within levels) es = .ok n) :
    ∀ f ∈ n.fields, FieldRead "ComponentDescriptor" f.1 f.2 := by
  have props : (Value.dict n.props).IsJson := .of_entries rfl fun e member => by
    obtain ⟨w, outer, inner⟩ := part_of_mem_props read member
    exact (json.inside w outer).inside e.2 inner
  have style : ∀ m, n.style = some m → (Value.dict m).IsJson := fun m same => by
    obtain ⟨-, -, -, -, -, -, style⟩ := ofFields_eq_ok.mp read
    obtain ⟨k, entry⟩ := Validate.optional_mapping_mem style same
    exact json.entry entry
  have actions : FieldRead "ComponentDescriptor" "actions"
      (.ofOption (fun as => .dict (as.map fun e => (e.1, e.2.toValue))) n.actions) := by
    have named (as : Entries Instruction) (given : n.actions = some as) :
        ∀ e ∈ as, e.2.toValue.Held ∧ e.2.toValue.IsAction := fun e member => by
      obtain ⟨w, outer, q, inner, made⟩ := part_of_mem_actions read given member
      exact held_of_ofValue ((json.inside w outer).inside q inner) made
    cases given : n.actions with
    | none =>
        exact ⟨⟨by simp [singleActionFields], by simp [ActionKind.model], fun _ _ => .inl rfl⟩,
          isJson_null.held⟩
    | some as =>
        refine ⟨⟨by simp [singleActionFields], by simp [ActionKind.model],
          fun _ _ => .inr ⟨_, rfl, fun e member => ?_⟩⟩, held_of_parts rfl fun v member => ?_⟩
        · obtain ⟨given', inside, rfl⟩ := List.mem_map.mp member
          exact (named as given given' inside).2
        · obtain ⟨_, listed, rfl⟩ := List.mem_map.mp member
          obtain ⟨e, inside, rfl⟩ := List.mem_map.mp listed
          exact (named as given e inside).1 _ (.inl rfl)
  have children : (Value.ofOption (fun ns => .list (ns.map .node)) n.children).Held := by
    cases given : n.children with
    | none => exact isJson_null.held
    | some ns =>
        refine held_of_parts rfl fun v member => ?_
        obtain ⟨m, inside, rfl⟩ := List.mem_map.mp member
        have child : m ∈ n.children.getD [] := by simpa [given] using inside
        obtain ⟨w, outer, q, inner, made⟩ := part_of_mem_children read child
        exact held_of_within ((json.inside w outer).inside q inner) made _ (.inl rfl)
  simp only [fields, List.forall_mem_cons]
  exact ⟨.plain (by simp) (by decide), .plain props (by decide), actions,
    .plain (by simp) (by decide), .other children (by decide), .plain (by simp) (by decide),
    .plain (isJson_ofOption.mpr style) (by decide), by simp⟩

theorem instruction_read {es : Dict} {f : Field} {o : Option Instruction}
    (json : (Value.dict es).IsJson) (h : f.withDefault none Validate.instruction? es = .ok o)
    {model field : String} (several : field ≠ "actions") :
    FieldRead model field (.ofOption (·.toValue) o) := by
  refine .instruction (fun i same => ?_) several
  obtain ⟨k, v, entry, read⟩ := Validate.exists_of_instruction? h same
  exact held_of_ofValue (json.entry entry) read

theorem Section.fields_read {es : Dict} {s : Section} (json : (Value.dict es).IsJson)
    (read : ofFields es = .ok s) : ∀ f ∈ s.fields, FieldRead "SectionDescriptor" f.1 f.2 := by
  obtain ⟨-, -, -, components, color, style, -, -, header, all⟩ := ofFields_eq_ok.mp read
  have mapping {f : Field} {o : Option Dict} (h : f.optional Validate.mapping es = .ok o) :
      (Value.ofOption .dict o).IsJson := by
    rw [isJson_ofOption]
    intro m same
    obtain ⟨k, entry⟩ := Validate.optional_mapping_mem h same
    exact json.entry entry
  have nodes : (Value.list (s.components.map .node)).Held := by
    obtain ⟨k, v, entry, listed⟩ := Field.exists_of_required components
    refine held_of_parts rfl fun u member => ?_
    obtain ⟨m, inside, rfl⟩ := List.mem_map.mp member
    obtain ⟨q, part, made⟩ :=
      Validate.exists_of_listOf (fun pair _ => Node.within_tuple_ne_ok _ pair) listed inside
    exact held_of_within ((json.entry entry).inside q part) made _ (.inl rfl)
  simp only [fields, List.forall_mem_cons]
  exact ⟨.plain (by simp) (by decide), .plain (by simp) (by decide), .plain (by simp) (by decide),
    .other nodes (by decide), .plain (mapping color) (by decide),
    .plain (mapping style) (by decide), .plain (by simp) (by decide), .plain (by simp) (by decide),
    instruction_read json header (by decide), instruction_read json all (by decide), by simp⟩

theorem Screen.fields_read {es : Dict} {s : Screen} (json : (Value.dict es).IsJson)
    (read : ofFields es = .ok s) : ∀ f ∈ s.fields, FieldRead "ScreenDescriptor" f.1 f.2 := by
  obtain ⟨-, -, sections, header, footer, refresh, background, -⟩ := ofFields_eq_ok.mp read
  have node {name : String} {o : Option Node}
      (h : (Field.named name).optional Node.ofPart es = .ok o) : (Value.ofOption .node o).Held := by
    cases o with
    | none => exact isJson_null.held
    | some n =>
        obtain ⟨k, v, entry, made⟩ := Field.exists_of_optional h
        exact held_of_within (json.entry entry) made
  have rows : (Value.list (s.sections.map .section)).Held := by
    obtain ⟨k, v, entry, listed⟩ := Field.exists_of_required sections
    refine held_of_parts rfl fun u member => ?_
    obtain ⟨t, inside, rfl⟩ := List.mem_map.mp member
    obtain ⟨q, part, made⟩ :=
      Validate.exists_of_listOf (by simp [Section.ofValue]) listed inside
    have plain : q.IsJson := (json.entry entry).inside q part
    cases q with
    | dict inner => exact .section plain made
    | «section» t => exact absurd plain.here (by simp [isPlain])
    | _ => simp [Section.ofValue] at made
  have behind : s.background.IsJson := by
    by_cases none : s.background = .null
    · simp [none]
    · obtain ⟨k, v, entry, same⟩ := Field.exists_of_withDefault background none
      obtain rfl : v = s.background := by simpa [Validate.any] using same
      exact json.entry entry
  simp only [fields, List.forall_mem_cons]
  exact ⟨.plain (by simp) (by decide), .plain (by simp) (by decide), .other rows (by decide),
    .other (node header) (by decide), .other (node footer) (by decide),
    instruction_read json refresh (by decide), .plain behind (by decide),
    .plain (by simp) (by decide), by simp⟩

namespace Value

theorem Read.fields {v : Value} (h : v.Read) {model : String} {fields : Dict}
    (same : v.model? = some (model, fields)) : ∀ f ∈ fields, FieldRead model f.1 f.2 := by
  cases h with
  | bare none => simp [none] at same
  | action json read =>
      cases same
      exact Action.fields_read json read
  | node json read =>
      cases same
      exact Node.fields_read json read
  | «section» json read =>
      cases same
      exact Section.fields_read json read
  | screen json read =>
      cases same
      exact Screen.fields_read json read

theorem Read.reaches {m u : Value} (h : m.Read) (reaches : m.Reaches u) : u.Read := by
  induction reaches with
  | root => exact h
  | field outer here held inside ih => exact (ih.fields here _ held).held _ inside

theorem Read.normal {m : Value} (h : m.Read) : m.Normal :=
  fun _ _ here _ _ held => (h.fields here _ held).normal

theorem IsJson.items {v : Value} (h : v.IsJson) {vs : List Value} (members : v.items? = some vs) :
    ∀ u ∈ vs, u.IsJson := by
  cases v with
  | str s | dict es =>
      cases members
      intro u member
      obtain ⟨e, -, rfl⟩ := List.mem_map.mp member
      exact isJson_str _
  | list vs =>
      cases members
      exact h.inside
  | null | bool | int | float => cases members
  | _ => exact absurd h.here (by simp [isPlain])

theorem isJson_of_mem_putPair {key value : Value} {pairs : List (Value × Value)}
    (json : value.IsJson) (h : ∀ p ∈ pairs, p.2.IsJson) :
    ∀ p ∈ putPair key value pairs, p.2.IsJson := by
  induction pairs with
  | nil => simpa [putPair] using json
  | cons p pairs ih =>
      obtain ⟨k, v⟩ := p
      obtain ⟨first, rest⟩ := List.forall_mem_cons.mp h
      rw [putPair]
      split
      · exact List.forall_mem_cons.mpr ⟨json, rest⟩
      · exact List.forall_mem_cons.mpr ⟨first, ih rest⟩

theorem isJson_of_mem_putPairs {vs : List Value} {pairs made : List (Value × Value)} {index : Nat}
    (json : ∀ v ∈ vs, v.IsJson) (h : ∀ p ∈ pairs, p.2.IsJson)
    (put : putPairs pairs index vs = .ok made) : ∀ p ∈ made, p.2.IsJson := by
  induction vs generalizing pairs index with
  | nil =>
      cases put
      exact h
  | cons v vs ih =>
      obtain ⟨first, rest⟩ := List.forall_mem_cons.mp json
      rw [putPairs] at put
      split at put
      · cases put
      · next key value members =>
          split at put
          · cases put
          · have inside : value.IsJson := first.items members value (by simp)
            exact ih rest (isJson_of_mem_putPair inside h) put
      · cases put

theorem IsJson.toDict {v : Value} (h : v.IsJson) {es : Dict} (read : v.toDict = .ok es) :
    (dict es).IsJson := by
  -- There are no models in JSON, so what is read is a mapping itself or made of pairs.
  unfold Value.toDict at read
  split at read
  · cases read
    exact h
  · split at read
    · next model =>
        have plain := h.here
        cases v <;> simp_all [isPlain, model?]
    · split at read
      · next items members =>
          cases made : putPairs [] 0 items with
          | error e => simp [made, Except.map] at read
          | ok pairs =>
              obtain rfl : ofPairs pairs = es := by simpa [made, Except.map] using read
              refine .of_entries rfl fun e member => ?_
              rcases Entries.mem_of_mem_merge member with none | inside
              · cases none
              · obtain ⟨p, there, rfl⟩ := List.mem_map.mp inside
                exact isJson_of_mem_putPairs (h.items members) (by simp) made p there
      · cases read

theorem ReadAs.read {shape : Shape} {v m : Value} (h : v.ReadAs shape m) (json : v.IsJson) :
    m.Read := by
  cases h with
  | action read =>
      rw [Action.parse] at read
      split at read
      · cases read
      · next es mapping =>
          obtain ⟨kind, -, made⟩ := Action.ofDict_eq_ok.mp (Failure.ofChecked_eq_ok.mp read)
          exact .action (json.toDict mapping) made
  | component read => exact held_of_within json read _ (.inl rfl)
  | «section» read =>
      cases v with
      | dict es => exact .section json read
      | «section» s => exact absurd json.here (by simp [isPlain])
      | _ => simp [Section.ofValue] at read
  | screen read =>
      cases v with
      | dict es => exact .screen json read
      | screen s => exact absurd json.here (by simp [isPlain])
      | _ => simp [Screen.ofValue] at read

/-- Whatever model is reached in what was read of JSON, each of its action positions holds what an
action position may hold. -/
theorem ReadAs.normal_of_reaches {shape : Shape} {v m u : Value} (read : v.ReadAs shape m)
    (json : v.IsJson) (reaches : m.Reaches u) : u.Normal :=
  ((read.read json).reaches reaches).normal

/-- A sequence that a child of a node is pressed for. -/
theorem ReadAs.normal_of_reaches_press :
    let warp : Dict := [("type", .str "WARP")]
    let press : Value := .dict [("type", .str "SEQUENCE"), ("actions", .list [.dict warp])]
    let child : Value := .dict [("type", .str "B"), ("actions", .dict [("onPress", press)])]
    let v : Value := .dict [("type", .str "A"), ("children", .list [child])]
    let a : Action := .sequence [.unknown warp]
    let n : Node := ⟨"B", [], some [("onPress", .known a)], none, none, none, none⟩
    let m : Node := ⟨"A", [], none, none, some [n], none, none⟩
    v.ReadAs .component (.node m) ∧ v.IsJson ∧ (Value.node m).Reaches (.action a) ∧
      Normal (.action a) := by
  intro warp press child v a n m
  have pressed : Instruction.ofValue press = .ok (.known a) := by
    apply Action.ofValue_sequence
    exact Instruction.listOfValues_cons_eq_ok.mpr ⟨_, _, Instruction.ofValue_unknown rfl,
      Instruction.listOfValues_nil, rfl⟩
  have inner : Node.within 254 child = .ok n := by
    rw [Node.within_action, pressed]
    rfl
  have read : v.ReadAs .component (.node m) := by
    have listed : Validate.listOf (Node.within 254) (.list [child]) = .ok [n] :=
      Checked.items_cons_eq_ok.mpr ⟨n, [], inner, rfl, rfl⟩
    exact .component (Node.ofFields_eq_ok.mpr ⟨rfl, rfl, rfl, rfl,
      Field.optional_eq_ok.mpr ⟨[n], listed, rfl⟩, rfl, rfl⟩)
  have json : v.IsJson := by simp [v, child, press, warp]
  have outer : (Value.node m).Reaches (.node n) := by
    have held : ("children", list [.node n]) ∈ m.fields := by simp [Node.fields, m, ofOption]
    exact .field .root rfl held (.inr List.mem_cons_self)
  have reaches : (Value.node m).Reaches (.action a) := by
    have held : ("actions", dict [("onPress", .action a)]) ∈ n.fields := by
      simp [Node.fields, n, ofOption, Instruction.toValue]
    exact .field outer rfl held (.inr List.mem_cons_self)
  exact ⟨read, json, reaches, read.normal_of_reaches json reaches⟩

end Value

end ServerUI
