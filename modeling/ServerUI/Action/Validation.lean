import ServerUI.Validation.Field
import ServerUI.Validation.Scalar
import ServerUI.Value.Shape

/-!
From wire mappings to actions. `Action.parse` demands an action of a known kind;
`Instruction.ofValue` also takes a mapping of an unknown kind and keeps it as it came. Nested
actions are read the second way, so an unknown kind deep inside a known one is no fault.
-/

set_option autoImplicit false

namespace ServerUI

theorem Validate.optional_mapping_eq_some {f : Field} {es m : Dict}
    (h : f.optional Validate.mapping es = .ok (some m)) : ∃ k, (k, .dict m) ∈ es := by
  obtain ⟨k, v, entry, read⟩ := Field.exists_of_optional h
  obtain rfl := Validate.mapping_eq_ok.mp read
  exact ⟨k, entry⟩

namespace Effect

def ofFields? (kind : ActionKind) (es : Dict) : Option (Checked Effect) :=
  let text (name : String) := (Field.named name).required Validate.text es
  let text? (name : String) := (Field.named name).optional Validate.text es
  let dict? (name : String) := (Field.named name).optional Validate.mapping es
  match kind with
  | .navigate => some (navigate <$> text "screen" <*> dict? "params")
  | .goBack => some (.ok goBack)
  | .openUrl =>
      some (openUrl <$> text "url" <*> (Field.named "external").optional Validate.truth es)
  | .addToCart =>
      some (addToCart <$> text "product_id" <*>
        (Field.named "quantity").optional Validate.whole es)
  | .updateCartQuantity =>
      some ((fun p q => updateCartQuantity p (.int q)) <$> text "product_id" <*>
        (Field.named "quantity").required Validate.whole es)
  | .removeFromCart => some (removeFromCart <$> text "product_id")
  | .toggleFavorite => some (toggleFavorite <$> text "product_id")
  | .showToast =>
      some (showToast <$> text "message" <*>
        (Field.named "status").optional (Validate.literal ToastStatus.ofName?) es <*>
        (Field.named "duration").optional Validate.number es)
  | .showModal => some (showModal <$> text "modal_id" <*> dict? "props")
  | .closeModal => some (closeModal <$> text? "modal_id")
  | .share => some (share <$> text? "title" <*> text? "message" <*> text? "url")
  | .trackEvent => some (trackEvent <$> text "event" <*> dict? "properties")
  | .refresh => some (refresh <$> text? "section_id")
  | .apiCall | .sequence | .conditional | .noop => none

def mapping? : Effect → Option Dict
  | navigate _ params => params
  | showModal _ props => props
  | trackEvent _ properties => properties
  | _ => none

theorem of_ofFields? {kind : ActionKind} {es : Dict} {e : Effect}
    (h : ofFields? kind es = some (.ok e)) :
    e.kind = kind ∧ (∀ m, e.mapping? = some m → ∃ k, (k, .dict m) ∈ es) ∧
      ∀ productId quantity, e = updateCartQuantity productId quantity → ∃ n, quantity = .int n := by
  cases kind <;>
    simp only [ofFields?, Option.some.injEq, Checked.seq_eq_ok, Checked.functorMap_eq_ok,
      reduceCtorEq] at h
  case navigate | showModal | trackEvent =>
    obtain ⟨_, mapping, ⟨_, -, rfl⟩, read, rfl⟩ := h
    refine ⟨rfl, fun m same => ?_, by simp⟩
    obtain rfl : mapping = some m := same
    exact Validate.optional_mapping_eq_some read
  case updateCartQuantity =>
    obtain ⟨_, n, ⟨_, -, rfl⟩, -, rfl⟩ := h
    simp [Effect.kind, mapping?]
  case goBack =>
    cases h
    simp [Effect.kind, mapping?]
  case openUrl | addToCart =>
    obtain ⟨_, _, ⟨_, -, rfl⟩, -, rfl⟩ := h
    simp [Effect.kind, mapping?]
  case showToast | share =>
    obtain ⟨_, _, ⟨_, _, ⟨_, -, rfl⟩, -, rfl⟩, -, rfl⟩ := h
    simp [Effect.kind, mapping?]
  all_goals
    obtain ⟨_, -, rfl⟩ := h
    simp [Effect.kind, mapping?]

end Effect

def Value.actionKind? (v : Value) : Option ActionKind := v.word?.bind ActionKind.ofName?

def Instruction.kindOf (es : Dict) : Except Rejection (Option ActionKind) :=
  match es.find? "type" with
  | none => .ok none
  | some v =>
      match v.unhashable? with
      | some t => .error (.unhashable t)
      | none => .ok v.actionKind?

theorem Instruction.kindOf_eq_some {es : Dict} {kind : ActionKind} :
    kindOf es = .ok (some kind) ↔ ∃ v, es.find? "type" = some v ∧ v.actionKind? = some kind := by
  rw [kindOf]
  cases es.find? "type" with
  | none => simp
  | some v =>
      cases v with
      | str s => simp [Value.unhashable?, Value.tree, Tree.unhashable?]
      | kind k => simp [Value.unhashable?, Value.tree, Tree.unhashable?]
      | _ =>
          simp only [Value.actionKind?, Value.word?, Option.bind_none]
          split <;> simp

mutual

/-- An action stays as it is, a mapping of a known kind is validated, and a mapping of an
unknown kind is kept. -/
def Instruction.ofValue (v : Value) : Except Rejection Instruction :=
  match v with
  | .action a => .ok (.known a)
  | .dict es =>
      match Instruction.kindOf es with
      | .error r => .error r
      | .ok none => .ok (.unknown es)
      | .ok (some kind) =>
          ((Action.ofFields kind es).under (.name kind.name)).toExcept.map Instruction.known
  | v => .error (.notAnAction (.mapping v.typeName))
termination_by (sizeOf v, 0)

def Action.ofFields (kind : ActionKind) (es : Dict) : Checked Action :=
  match Effect.ofFields? kind es with
  | some e => e.map .effect
  | none =>
      match kind with
      | .sequence =>
          .sequence <$> (Field.named "actions").readWith es (.ok []) fun v _ =>
            .ofExcept (Instruction.listOfValue v)
      | .apiCall =>
          .apiCall <$> (Field.named "endpoint").required Validate.text es <*>
            (Field.named "method").optional (Validate.literal RequestMethod.ofName?) es <*>
            (Field.named "body").optional Validate.mapping es <*>
            ((Field.named "on_success").readWith es (.ok none) fun v _ =>
              .ofExcept (Instruction.ofValue? v)) <*>
            ((Field.named "on_error").readWith es (.ok none) fun v _ =>
              .ofExcept (Instruction.ofValue? v))
      | .conditional =>
          .conditional <$> (Field.named "condition").required Validate.text es <*>
            ((Field.named "on_true").readWith es (Field.named "on_true").missing fun v _ =>
              .ofExcept (Instruction.ofValue? v)) <*>
            ((Field.named "on_false").readWith es (.ok none) fun v _ =>
              .ofExcept (Instruction.ofValue? v))
      | _ => .ok .noop
termination_by (sizeOf es, 2)

def Instruction.ofValue? (v : Value) : Except Rejection (Option Instruction) :=
  match v with
  | .null => .ok none
  | v => (Instruction.ofValue v).map some
termination_by (sizeOf v, 1)

def Instruction.listOfValue (v : Value) : Except Rejection (List Instruction) :=
  match v with
  | .list items => Instruction.listOfValues items
  | .tuple items => Instruction.listOfValues items
  | _ => .error (.notAnAction .list)
termination_by (sizeOf v, 0)

def Instruction.listOfValues (vs : List Value) : Except Rejection (List Instruction) :=
  -- The first item that is refused refuses the list.
  match vs with
  | [] => .ok []
  | v :: rest =>
      match Instruction.ofValue v with
      | .error r => .error r
      | .ok i => (Instruction.listOfValues rest).map (i :: ·)
termination_by (sizeOf vs, 0)

end

namespace Instruction

variable {v : Value} {es : Dict}

@[simp] theorem ofValue_action (a : Action) : ofValue (.action a) = .ok (.known a) := by
  rw [ofValue]

theorem ofValue_eq_ok {i : Instruction} :
    ofValue v = .ok i ↔
      (∃ a, v = .action a ∧ i = .known a) ∨
      (∃ es, v = .dict es ∧ kindOf es = .ok none ∧ i = .unknown es) ∨
      ∃ es kind a, v = .dict es ∧ kindOf es = .ok (some kind) ∧
        Action.ofFields kind es = .ok a ∧ i = .known a := by
  cases v with
  | action a => simp [eq_comm]
  | dict es =>
      rw [ofValue]
      cases hk : kindOf es with
      | error r => simp [hk]
      | ok k =>
          cases k with
          | none => simp [hk, eq_comm]
          | some kind =>
              cases h : Action.ofFields kind es <;>
                simp [hk, h, Checked.under, Checked.toExcept, Except.map, eq_comm]
  | _ => simp [ofValue]

theorem ofValue_unhashable {tag : Value} {type : String} (tagged : es.find? "type" = some tag)
    (unhashable : tag.unhashable? = some type) :
    ofValue (.dict es) = .error (.unhashable type) := by
  rw [ofValue, kindOf, tagged]
  simp only [unhashable]

theorem ofValue_unknown (strange : kindOf es = .ok none) : ofValue (.dict es) = .ok (.unknown es) :=
  ofValue_eq_ok.mpr (.inr (.inl ⟨es, rfl, strange, rfl⟩))

theorem ofValue_of_ofFields {kind : ActionKind} {a : Action} (hk : kindOf es = .ok (some kind))
    (read : Action.ofFields kind es = .ok a) : ofValue (.dict es) = .ok (.known a) :=
  ofValue_eq_ok.mpr (.inr (.inr ⟨es, kind, a, rfl, hk, read, rfl⟩))

/-- Induction along the reading of an instruction: what holds of all that is read from smaller
values than a mapping has to be shown of what is read from the mapping. -/
theorem ofValue_induction {motive : Value → Instruction → Prop}
    (action : ∀ a, motive (.action a) (.known a))
    (unknown : ∀ es, kindOf es = .ok none → motive (.dict es) (.unknown es))
    (known : ∀ es kind a, kindOf es = .ok (some kind) → Action.ofFields kind es = .ok a →
      (∀ v i, sizeOf v < sizeOf es → ofValue v = .ok i → motive v i) → motive (.dict es) (.known a))
    (v : Value) (i : Instruction) (h : ofValue v = .ok i) : motive v i := by
  rcases ofValue_eq_ok.mp h with
    ⟨a, same, rfl⟩ | ⟨es, same, kind, rfl⟩ | ⟨es, kind, a, same, hk, read, rfl⟩
  · exact same ▸ action a
  · exact same ▸ unknown es kind
  · rw [same]
    exact known es kind a hk read fun u j smaller => ofValue_induction action unknown known u j
termination_by sizeOf v
decreasing_by
  rw [same, Value.dict.sizeOf_spec]
  omega

@[simp] theorem ofValue?_null : ofValue? .null = .ok none := by
  rw [ofValue?]

theorem ofValue?_of_ne_null (h : v ≠ .null) : ofValue? v = (ofValue v).map some := by
  rw [ofValue?]
  exact h

theorem ofValue?_eq_ok {o : Option Instruction} :
    ofValue? v = .ok o ↔ v = .null ∧ o = none ∨ ∃ i, ofValue v = .ok i ∧ o = some i := by
  by_cases h : v = .null
  · subst h
    simp [ofValue, eq_comm]
  · rw [ofValue?_of_ne_null h]
    cases ofValue v <;> simp [Except.map, h, eq_comm]

@[simp] theorem listOfValues_nil : listOfValues [] = .ok [] := by
  rw [listOfValues]

theorem listOfValues_cons_eq_ok {vs : List Value} {is : List Instruction} :
    listOfValues (v :: vs) = .ok is ↔
      ∃ i js, ofValue v = .ok i ∧ listOfValues vs = .ok js ∧ is = i :: js := by
  rw [listOfValues]
  cases ofValue v <;> cases listOfValues vs <;> simp [Except.map, eq_comm]

theorem exists_of_mem_listOfValues {vs : List Value} {is : List Instruction}
    (h : listOfValues vs = .ok is) : ∀ i ∈ is, ∃ v ∈ vs, ofValue v = .ok i := by
  induction vs generalizing is with
  | nil => simp_all
  | cons v vs ih =>
      obtain ⟨i, js, hi, hjs, rfl⟩ := listOfValues_cons_eq_ok.mp h
      simp only [List.mem_cons, forall_eq_or_imp, exists_eq_or_imp]
      exact ⟨.inl hi, fun j hj => .inr (ih hjs j hj)⟩

theorem listOfValue_eq_ok {is : List Instruction} :
    listOfValue v = .ok is ↔
      ∃ items, (v = .list items ∨ v = .tuple items) ∧ listOfValues items = .ok is := by
  cases v <;> simp [listOfValue]

def inField (name : String) (absent : Checked (Option Instruction)) (es : Dict) :
    Checked (Option Instruction) :=
  (Field.named name).readWith es absent fun v _ => .ofExcept (ofValue? v)

theorem inField_eq_ok {name : String} {absent : Checked (Option Instruction)}
    {o : Option Instruction} :
    inField name absent es = .ok o ↔
      match (Field.named name).value? es with
      | none => absent = .ok o
      | some v => ofValue? v = .ok o := by
  rw [inField, Field.readWith_eq_ok]
  cases (Field.named name).value? es <;> simp

end Instruction

namespace Action

variable {es : Dict} {a : Action}

theorem ofFields_of_effect {kind : ActionKind} {e : Checked Effect}
    (h : Effect.ofFields? kind es = some e) : ofFields kind es = e.map .effect := by
  unfold ofFields
  rw [h]

theorem ofValue_effect {kind : ActionKind} {e : Effect}
    (known : Instruction.kindOf es = .ok (some kind))
    (read : Effect.ofFields? kind es = some (.ok e)) :
    Instruction.ofValue (.dict es) = .ok (.known (.effect e)) :=
  Instruction.ofValue_of_ofFields known (ofFields_of_effect read)

theorem ofFields_sequence_eq_ok :
    ofFields .sequence es = .ok a ↔
      ∃ is, a = .sequence is ∧
        match (Field.named "actions").value? es with
        | none => is = []
        | some v => Instruction.listOfValue v = .ok is := by
  rw [ofFields, Effect.ofFields?]
  simp only [Checked.functorMap_eq_ok, Field.readWith_eq_ok, and_comm, @eq_comm _ a]
  cases (Field.named "actions").value? es <;> simp [@eq_comm _ []]

theorem ofValue_sequence {items : List Value} {is : List Instruction}
    (read : Instruction.listOfValues items = .ok is) :
    Instruction.ofValue (.dict [("type", .str "SEQUENCE"), ("actions", .list items)]) =
      .ok (.known (.sequence is)) :=
  Instruction.ofValue_of_ofFields rfl (ofFields_sequence_eq_ok.mpr
    ⟨is, rfl, Instruction.listOfValue_eq_ok.mpr ⟨items, .inl rfl, read⟩⟩)

theorem ofFields_apiCall_eq_ok :
    ofFields .apiCall es = .ok a ↔
      ∃ endpoint method body onSuccess onError,
        a = .apiCall endpoint method body onSuccess onError ∧
        (Field.named "endpoint").required Validate.text es = .ok endpoint ∧
        (Field.named "method").optional (Validate.literal RequestMethod.ofName?) es = .ok method ∧
        (Field.named "body").optional Validate.mapping es = .ok body ∧
        Instruction.inField "on_success" (.ok none) es = .ok onSuccess ∧
        Instruction.inField "on_error" (.ok none) es = .ok onError := by
  rw [ofFields, Effect.ofFields?]
  simp only [Checked.seq_eq_ok, Checked.functorMap_eq_ok]
  constructor
  · rintro ⟨_, onError, ⟨_, onSuccess, ⟨_, body, ⟨_, method, ⟨endpoint, he, rfl⟩, hm, rfl⟩, hb,
      rfl⟩, hs, rfl⟩, hr, rfl⟩
    exact ⟨endpoint, method, body, onSuccess, onError, rfl, he, hm, hb, hs, hr⟩
  · rintro ⟨endpoint, method, body, onSuccess, onError, rfl, he, hm, hb, hs, hr⟩
    exact ⟨_, onError, ⟨_, onSuccess, ⟨_, body, ⟨_, method, ⟨endpoint, he, rfl⟩, hm, rfl⟩, hb, rfl⟩,
      hs, rfl⟩, hr, rfl⟩

theorem ofFields_conditional_eq_ok :
    ofFields .conditional es = .ok a ↔
      ∃ condition onTrue onFalse,
        a = .conditional condition onTrue onFalse ∧
        (Field.named "condition").required Validate.text es = .ok condition ∧
        Instruction.inField "on_true" (Field.named "on_true").missing es = .ok onTrue ∧
        Instruction.inField "on_false" (.ok none) es = .ok onFalse := by
  rw [ofFields, Effect.ofFields?]
  simp only [Checked.seq_eq_ok, Checked.functorMap_eq_ok]
  constructor
  · rintro ⟨_, onFalse, ⟨_, onTrue, ⟨condition, hc, rfl⟩, ht, rfl⟩, hf, rfl⟩
    exact ⟨condition, onTrue, onFalse, rfl, hc, ht, hf⟩
  · rintro ⟨condition, onTrue, onFalse, rfl, hc, ht, hf⟩
    exact ⟨_, onFalse, ⟨_, onTrue, ⟨condition, hc, rfl⟩, ht, rfl⟩, hf, rfl⟩

@[simp] theorem ofFields_noop : ofFields .noop es = .ok .noop := by
  simp [ofFields, Effect.ofFields?]

theorem kind_of_ofFields {kind : ActionKind} (h : ofFields kind es = .ok a) : a.kind = kind := by
  cases found : Effect.ofFields? kind es with
  | some checked =>
      rw [ofFields_of_effect found, Checked.map_eq_ok] at h
      obtain ⟨e, rfl, rfl⟩ := h
      exact (Effect.of_ofFields? found).1
  | none =>
      cases kind <;> simp only [Effect.ofFields?, reduceCtorEq] at found
      case apiCall =>
        obtain ⟨_, _, _, _, _, rfl, -⟩ := ofFields_apiCall_eq_ok.mp h
        rfl
      case sequence =>
        obtain ⟨_, rfl, -⟩ := ofFields_sequence_eq_ok.mp h
        rfl
      case conditional =>
        obtain ⟨_, _, _, rfl, -⟩ := ofFields_conditional_eq_ok.mp h
        rfl
      case noop =>
        obtain rfl : noop = a := by simpa using h
        rfl

end Action

def Instruction.mapOfEntries : Dict → Except Rejection (Entries Instruction)
  | [] => .ok []
  | (k, v) :: rest =>
      match Instruction.ofValue v with
      | .error r => .error r
      | .ok i => (Instruction.mapOfEntries rest).map ((k, i) :: ·)

def Instruction.mapOfValue? : Value → Except Rejection (Option (Entries Instruction))
  | .null => .ok none
  | .dict es => (Instruction.mapOfEntries es).map some
  | _ => .error (.notAnAction .mappingOfProps)

namespace Action

def ofDict (es : Dict) : Checked Action :=
  match es.find? "type" with
  | none => .fault .tagMissing
  | some v =>
      match v.actionKind? with
      | some kind => (ofFields kind es).under (.name kind.name)
      | none => .fault .tagUnknown

theorem ofDict_eq_ok {es : Dict} {a : Action} :
    ofDict es = .ok a ↔
      ∃ kind, Instruction.kindOf es = .ok (some kind) ∧ ofFields kind es = .ok a := by
  simp only [Instruction.kindOf_eq_some, ofDict]
  cases es.find? "type" with
  | none => simp
  | some v => cases named : v.actionKind? <;> simp [named]

end Action

end ServerUI
