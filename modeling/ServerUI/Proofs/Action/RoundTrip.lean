import ServerUI.Proofs.Action.ReadBack

/-!
Sending an action that was read from JSON and reading it again. What is sent is read as the same
action, unless there is a conditional without a branch for when its condition is true: such a
conditional may be written with a null branch, which is not sent, and is then missed.
-/

set_option autoImplicit false

namespace ServerUI

def Action.Branches : Action → Prop
  | .conditional _ onTrue _ => onTrue ≠ none
  | _ => True

namespace Instruction

def Complete (i : Instruction) : Prop := i.Everywhere Action.Branches fun _ => True

theorem complete_known {a : Action} :
    (known a).Complete ↔ a.Branches ∧ ∀ i ∈ a.nested, i.Complete := by
  constructor
  · rintro (⟨here, inside⟩ | -)
    exact ⟨here, inside⟩
  · exact fun h => .known h.1 h.2

theorem complete_finite {P : Action → Prop} {U : Dict → Prop} {i : Instruction}
    (h : i.Everywhere P U) : i.finite.Complete ↔ i.Complete := by
  induction h with
  | @known a _ _ ih =>
      have branches : a.finite.Branches ↔ a.Branches := by
        cases a with
        | conditional _ onTrue _ =>
            cases onTrue <;> simp [Action.finite, Action.Branches, finiteOption]
        | _ => simp [Action.finite, Action.Branches]
      rw [finite, complete_known, complete_known, branches, Action.nested_finite]
      simp only [List.forall_mem_map]
      exact and_congr_right fun _ => forall₂_congr ih
  | unknown =>
      rw [finite]
      exact iff_of_true (.unknown trivial) (.unknown trivial)

/-- What an instruction is sent as is read as the same, or not at all. -/
def ReadsBack (i : Instruction) : Prop := ∀ j, ofValue i.form = .ok j ↔ i.Complete ∧ j = i

theorem listOfValues_form {is : List Instruction} (h : ∀ i ∈ is, i.ReadsBack)
    (js : List Instruction) :
    listOfValues (formOfItems is) = .ok js ↔ (∀ i ∈ is, i.Complete) ∧ js = is := by
  induction is generalizing js with
  | nil => simp [formOfItems, eq_comm]
  | cons i is ih =>
      simp only [List.mem_cons, forall_eq_or_imp] at h ⊢
      rw [formOfItems, listOfValues_cons_eq_ok]
      constructor
      · rintro ⟨j, rest, first, others, rfl⟩
        obtain ⟨complete, rfl⟩ := (h.1 j).mp first
        obtain ⟨all, rfl⟩ := (ih h.2 rest).mp others
        exact ⟨⟨complete, all⟩, rfl⟩
      · rintro ⟨⟨complete, all⟩, rfl⟩
        exact ⟨i, is, (h.1 i).mpr ⟨complete, rfl⟩, (ih h.2 is).mpr ⟨all, rfl⟩, rfl⟩

theorem inField_form {a : Action} {name : String} {absent : Checked (Option Instruction)}
    {o : Option Instruction} (found : Entries.find? a.form name = some (formOfOption o))
    (h : ∀ i ∈ o.toList, i.ReadsBack) (nothing : ∀ p, absent = .ok p → p = none)
    (p : Option Instruction) :
    inField name absent (Wire.sent a.form) = .ok p ↔
      (o = none → absent = .ok none) ∧ (∀ i ∈ o.toList, i.Complete) ∧ p = o := by
  rw [inField_eq_ok, Action.value?_form found]
  cases o with
  | none =>
      simp only [formOfOption, Value.isNull, if_true, forall_const]
      constructor
      · intro read
        obtain rfl := nothing p read
        exact ⟨read, by simp, rfl⟩
      · rintro ⟨read, -, rfl⟩
        exact read
  | some i =>
      have back := h i (by simp)
      have given : i.form ≠ .null := fun null => by simpa [null, Value.isNull] using i.isNull_form
      simp only [formOfOption, isNull_form, Bool.false_eq_true, if_false, ofValue?_eq_ok, given,
        false_and, false_or, back _]
      constructor
      · rintro ⟨j, ⟨complete, rfl⟩, rfl⟩
        simpa using complete
      · rintro ⟨-, complete, rfl⟩
        exact ⟨i, ⟨complete i (by simp), rfl⟩, rfl⟩

end Instruction

namespace Action

theorem ofFields_form_apiCall {endpoint : String} {method : Option RequestMethod}
    {body : Option Dict} {onSuccess onError : Option Instruction}
    (hs : ∀ i ∈ onSuccess.toList, i.ReadsBack) (he : ∀ i ∈ onError.toList, i.ReadsBack)
    (b : Action) :
    ofFields .apiCall (Wire.sent (apiCall endpoint method body onSuccess onError).form) = .ok b ↔
      ((∀ i ∈ onSuccess.toList, i.Complete) ∧ ∀ i ∈ onError.toList, i.Complete) ∧
        b = apiCall endpoint method body onSuccess onError := by
  let fields := Wire.sent (apiCall endpoint method body onSuccess onError).form
  have endpointRead : (Field.named "endpoint").required Validate.text fields = .ok endpoint :=
    required_form rfl rfl rfl
  have methodRead :
      (Field.named "method").optional (Validate.literal RequestMethod.ofName?) fields =
        .ok method :=
    optional_form rfl (fun _ => rfl) fun m => Validate.literal_str m.ofName?_name
  have bodyRead : (Field.named "body").optional Validate.mapping fields = .ok body :=
    optional_form rfl (fun _ => rfl) fun _ => rfl
  have successRead (p : Option Instruction) :
      Instruction.inField "on_success" (.ok none) fields = .ok p ↔ _ :=
    Instruction.inField_form rfl hs (by simp [eq_comm]) p
  have errorRead (p : Option Instruction) :
      Instruction.inField "on_error" (.ok none) fields = .ok p ↔ _ :=
    Instruction.inField_form rfl he (by simp [eq_comm]) p
  rw [ofFields_apiCall_eq_ok]
  constructor
  · rintro ⟨_, _, _, _, _, rfl, endpointHere, methodHere, bodyHere, success, error⟩
    obtain ⟨-, completeSuccess, rfl⟩ := (successRead _).mp success
    obtain ⟨-, completeError, rfl⟩ := (errorRead _).mp error
    cases endpointRead.symm.trans endpointHere
    cases methodRead.symm.trans methodHere
    cases bodyRead.symm.trans bodyHere
    exact ⟨⟨completeSuccess, completeError⟩, rfl⟩
  · rintro ⟨⟨completeSuccess, completeError⟩, rfl⟩
    exact ⟨endpoint, method, body, onSuccess, onError, rfl, endpointRead, methodRead, bodyRead,
      (successRead _).mpr ⟨fun _ => rfl, completeSuccess, rfl⟩,
      (errorRead _).mpr ⟨fun _ => rfl, completeError, rfl⟩⟩

theorem ofFields_form_sequence {is : List Instruction} (h : ∀ i ∈ is, i.ReadsBack) (b : Action) :
    ofFields .sequence (Wire.sent (sequence is).form) = .ok b ↔
      (∀ i ∈ is, i.Complete) ∧ b = sequence is := by
  have found : (Field.named "actions").value? (Wire.sent (sequence is).form) =
      some (.list (Instruction.formOfItems is)) := value?_form_of_given rfl rfl
  have members (js : List Instruction) :
      Instruction.listOfValue (.list (Instruction.formOfItems is)) = .ok js ↔
        (∀ i ∈ is, i.Complete) ∧ js = is := by
    rw [Instruction.listOfValue, Instruction.listOfValues_form h]
  rw [ofFields_sequence_eq_ok, found]
  constructor
  · rintro ⟨js, rfl, read⟩
    obtain ⟨complete, rfl⟩ := (members js).mp read
    exact ⟨complete, rfl⟩
  · rintro ⟨complete, rfl⟩
    exact ⟨is, rfl, (members is).mpr ⟨complete, rfl⟩⟩

theorem ofFields_form_conditional {condition : String} {onTrue onFalse : Option Instruction}
    (ht : ∀ i ∈ onTrue.toList, i.ReadsBack) (hf : ∀ i ∈ onFalse.toList, i.ReadsBack) (b : Action) :
    ofFields .conditional (Wire.sent (conditional condition onTrue onFalse).form) = .ok b ↔
      onTrue ≠ none ∧ ((∀ i ∈ onTrue.toList, i.Complete) ∧ ∀ i ∈ onFalse.toList, i.Complete) ∧
        b = conditional condition onTrue onFalse := by
  let fields := Wire.sent (conditional condition onTrue onFalse).form
  have conditionRead : (Field.named "condition").required Validate.text fields = .ok condition :=
    required_form rfl rfl rfl
  have trueRead (p : Option Instruction) :
      Instruction.inField "on_true" (Field.named "on_true").missing fields = .ok p ↔ _ :=
    Instruction.inField_form rfl ht (by simp [Field.missing]) p
  have falseRead (p : Option Instruction) :
      Instruction.inField "on_false" (.ok none) fields = .ok p ↔ _ :=
    Instruction.inField_form rfl hf (by simp [eq_comm]) p
  rw [ofFields_conditional_eq_ok]
  constructor
  · rintro ⟨_, _, _, rfl, conditionHere, whenTrue, whenFalse⟩
    obtain ⟨there, completeTrue, rfl⟩ := (trueRead _).mp whenTrue
    obtain ⟨-, completeFalse, rfl⟩ := (falseRead _).mp whenFalse
    cases conditionRead.symm.trans conditionHere
    exact ⟨fun absent => by simpa [Field.missing] using there absent,
      ⟨completeTrue, completeFalse⟩, rfl⟩
  · rintro ⟨there, ⟨completeTrue, completeFalse⟩, rfl⟩
    exact ⟨condition, onTrue, onFalse, rfl, conditionRead,
      (trueRead _).mpr ⟨fun absent => absurd absent there, completeTrue, rfl⟩,
      (falseRead _).mpr ⟨fun _ => rfl, completeFalse, rfl⟩⟩

theorem ofFields_form {a : Action} (here : a.WholeQuantity) (inside : ∀ i ∈ a.nested, i.ReadsBack)
    (b : Action) :
    ofFields a.kind (Wire.sent a.form) = .ok b ↔
      a.Branches ∧ (∀ i ∈ a.nested, i.Complete) ∧ b = a := by
  cases a with
  | effect e =>
      have whole (p : String) (q : Value) (h : e = .updateCartQuantity p q) : ∃ n, q = .int n :=
        here p q (congrArg _ h)
      rw [show (effect e).kind = e.kind from rfl, ofFields_of_effect (Effect.ofFields?_form whole)]
      simp [Branches, nested, Checked.map, @eq_comm _ b]
  | apiCall endpoint method body onSuccess onError =>
      simp only [nested, List.mem_append, or_imp, forall_and] at inside ⊢
      simpa [Branches, kind] using ofFields_form_apiCall inside.1 inside.2 b
  | sequence is => simpa [Branches, nested, kind] using ofFields_form_sequence inside b
  | conditional condition onTrue onFalse =>
      simp only [nested, List.mem_append, or_imp, forall_and] at inside ⊢
      exact ofFields_form_conditional inside.1 inside.2 b
  | noop => simp [kind, Branches, nested, eq_comm]

end Action

namespace Instruction

theorem readsBack {i : Instruction}
    (h : i.Everywhere Action.WholeQuantity fun es => kindOf es = .ok none) : i.ReadsBack := by
  induction h with
  | @unknown es here =>
      intro j
      have complete : (unknown es).Complete := .unknown trivial
      simp [form, ofValue_eq_ok, here, complete]
  | @known a here _ ih =>
      intro j
      rw [form, ofValue_eq_ok, complete_known]
      simp only [reduceCtorEq, false_and, exists_false, Value.dict.injEq, false_or]
      constructor
      · rintro (⟨es, rfl, kind, -⟩ | ⟨es, kind, b, rfl, hk, read, rfl⟩)
        · simp [Action.kindOf_form] at kind
        · obtain rfl : a.kind = kind := by simpa [Action.kindOf_form] using hk
          obtain ⟨branches, complete, rfl⟩ := (Action.ofFields_form here ih b).mp read
          exact ⟨⟨branches, complete⟩, rfl⟩
      · rintro ⟨⟨branches, complete⟩, rfl⟩
        exact .inr ⟨_, a.kind, a, rfl, Action.kindOf_form,
          (Action.ofFields_form here ih a).mpr ⟨branches, complete, rfl⟩, rfl⟩

end Instruction

namespace Action

def Complete (a : Action) : Prop := (Instruction.known a).Complete

/-- An action that was read from JSON can be sent and read again just when all its conditionals say
what to do when their condition is true, and free values do not stand too deep in it. What is read
then is the action itself, but for numbers in its mappings that are not finite. -/
theorem parse_toWire_iff {es : Dict} (json : (Value.dict es).IsJson) {a : Action}
    (read : parse (.dict es) = .ok a) :
    ((∃ w b, a.toWire = .ok w ∧ parse w = .ok b) ↔ a.Complete ∧ a.nesting ≤ Wire.maxNesting) ∧
      ∀ w b, a.toWire = .ok w → parse w = .ok b → b = a.finite := by
  have sendable := Instruction.sendable_of_ofValue json (parse_dict_eq_ok.mp read)
  have needs :
      Wire.Needs a.nesting (fun room => a.wire room) (.dict (Wire.sent a.finite.form)) := by
    cases sendable.mono (fun _ h => h) (fun _ h => h.1) with
    | known here inside => exact needs here fun i member => Instruction.needs (inside i member)
  have complete : (Instruction.known a.finite).Complete ↔ a.Complete := by
    rw [Complete, ← Instruction.complete_finite sendable, Instruction.finite]
  have back : (Instruction.known a.finite).ReadsBack := by
    rw [← Instruction.finite]
    refine Instruction.readsBack (sendable.finite (fun _ h => h.quantity.finite) fun es h => ?_)
    rw [Instruction.kindOf_finiteEntries, h.2]
  -- There is one wire form at most, and it takes the room that the action needs.
  have sent {w : Value} (h : a.toWire = .ok w) :
      a.nesting ≤ Wire.maxNesting ∧ w = .dict (Wire.sent a.finite.form) := by
    have enough := needs.bound h
    exact ⟨enough, Except.ok.inj (h.symm.trans (needs.enough _ enough))⟩
  have again (b : Action) :
      parse (.dict (Wire.sent a.finite.form)) = .ok b ↔ a.Complete ∧ b = a.finite := by
    rw [parse_dict_eq_ok, ← Instruction.form, back (.known b), Instruction.known.injEq, complete]
  refine ⟨⟨?_, ?_⟩, ?_⟩
  · rintro ⟨w, b, hw, hb⟩
    obtain ⟨enough, rfl⟩ := sent hw
    exact ⟨((again b).mp hb).1, enough⟩
  · rintro ⟨complete, enough⟩
    exact ⟨_, a.finite, needs.enough _ enough, (again a.finite).mpr ⟨complete, rfl⟩⟩
  · intro w b hw hb
    obtain ⟨-, rfl⟩ := sent hw
    exact ((again b).mp hb).2

theorem parse_toWire_iff_addToCart :
    let data : Dict :=
      [("type", .str "ADD_TO_CART"), ("productId", .str "p1"), ("quantity", .int 2)]
    let a : Action := .effect (.addToCart "p1" (some 2))
    parse (.dict data) = .ok a ∧ ∃ w b, a.toWire = .ok w ∧ parse w = .ok b := by
  intro data a
  have json : (Value.dict data).IsJson := .of_leaves (by simp [data, Value.isPlain, Value.parts])
  have fields : ofFields .addToCart data = .ok a := by
    rw [ofFields_of_effect rfl]
    rfl
  have read : parse (.dict data) = .ok a :=
    parse_dict_eq_ok.mpr (Instruction.ofValue_of_ofFields rfl fields)
  have complete : a.Complete := .known trivial (by simp [a, nested])
  have enough : a.nesting ≤ Wire.maxNesting := by
    simp [a, nesting, Value.nestingOfMapping, Effect.mapping?]
  exact ⟨read, (parse_toWire_iff json read).1.mpr ⟨complete, enough⟩⟩

/-- A conditional with a null branch for when its condition is true is accepted, and what it is sent
as is not. -/
theorem parse_toWire_null_branch :
    let data : Dict := [("type", .str "CONDITIONAL"), ("condition", .str "c"), ("onTrue", .null)]
    let a : Action := .conditional "c" none none
    let sent : Dict := [("type", .str "CONDITIONAL"), ("condition", .str "c")]
    (Value.dict data).IsJson ∧ parse (.dict data) = .ok a ∧ a.toWire = .ok (.dict sent) ∧
      parse (.dict sent) =
        .error (.invalid none [⟨[.name "CONDITIONAL", .name "onTrue"], .missing⟩]) := by
  intro data a sent
  have json : (Value.dict data).IsJson := .of_leaves (by simp [data, Value.isPlain, Value.parts])
  have accepted : ofFields .conditional data = .ok a :=
    ofFields_conditional_eq_ok.mpr
      ⟨_, _, _, rfl, rfl, Instruction.inField_eq_ok.mpr Instruction.ofValue?_null, rfl⟩
  have refused : ofFields .conditional sent = .faults [⟨[.name "onTrue"], .missing⟩] := by
    rw [ofFields]
    rfl
  refine ⟨json, parse_dict_eq_ok.mpr (Instruction.ofValue_of_ofFields rfl accepted), rfl, ?_⟩
  change Failure.ofChecked none ((ofFields .conditional sent).under (.name "CONDITIONAL")) = _
  rw [refused]
  rfl

end Action

end ServerUI
