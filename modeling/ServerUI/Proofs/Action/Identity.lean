import ServerUI.Proofs.Action.RoundTrip

/-!
Sending an action that holds finite numbers only, and reading what was sent. Nothing gets lost on
the way: what is read, if anything is, is the action that was sent, with all the actions and the
mappings inside it.
-/

set_option autoImplicit false

namespace ServerUI

namespace Value

def FiniteFloats (v : Value) : Prop :=
  v.Everywhere fun u => ∀ x, u = .float x → x.isFinite = true

theorem finiteItems_eq_self {vs : List Value} (h : ∀ v ∈ vs, v.finite = v) :
    finiteItems vs = vs := by
  induction vs with
  | nil => simp [finiteItems]
  | cons v vs ih =>
      simp only [List.mem_cons, forall_eq_or_imp] at h
      rw [finiteItems, h.1, ih h.2]

theorem finiteEntries_eq_self {es : Dict} (h : ∀ e ∈ es, e.2.finite = e.2) :
    finiteEntries es = es := by
  induction es with
  | nil => simp [finiteEntries]
  | cons e es ih =>
      obtain ⟨k, v⟩ := e
      simp only [List.mem_cons, forall_eq_or_imp] at h
      rw [finiteEntries, h.1, ih h.2]

theorem FiniteFloats.finite_eq_self {v : Value} (h : v.FiniteFloats) : v.finite = v := by
  induction h with
  | @intro v here _ ih =>
      cases v with
      | float x => simp [finite, here x rfl]
      | list items =>
          have members : finiteItems items = items := finiteItems_eq_self ih
          rw [finite, members]
      | dict es =>
          have entries : finiteEntries es = es :=
            Value.finiteEntries_eq_self fun e member => ih e.2 (List.mem_map.mpr ⟨e, member, rfl⟩)
          rw [finite, entries]
      | _ => simp [finite]

theorem FiniteFloats.finiteEntries_eq_self {es : Dict} (h : (dict es).FiniteFloats) :
    finiteEntries es = es := by
  simpa [finite] using h.finite_eq_self

end Value

namespace Action

theorem mem_fields_of_mapping? {a : Action} {m : Dict} (h : a.mapping? = some m) :
    ∃ name, (name, .dict m) ∈ a.fields := by
  cases a with
  | effect e =>
      cases e <;> simp only [mapping?, Effect.mapping?, reduceCtorEq] at h <;> subst h
      case navigate => exact ⟨"params", by simp [fields, Effect.fields, Value.ofOption]⟩
      case showModal => exact ⟨"props", by simp [fields, Effect.fields, Value.ofOption]⟩
      case trackEvent => exact ⟨"properties", by simp [fields, Effect.fields, Value.ofOption]⟩
  | apiCall _ _ body =>
      obtain rfl : body = some m := h
      exact ⟨"body", by simp [fields, Value.ofOption]⟩
  | _ => simp [mapping?] at h

/-- Every number in the fields of the action, of the actions inside it and in the mappings that were
kept is finite. -/
def FiniteFloats (a : Action) : Prop :=
  (Instruction.known a).Everywhere (fun a => ∀ e ∈ a.fields, e.2.FiniteFloats) fun es =>
    (Value.dict es).FiniteFloats

end Action

theorem Effect.finite_eq_self {e : Effect}
    (h : ∀ m, e.mapping? = some m → Value.finiteEntries m = m) : e.finite = e := by
  cases e with
  | navigate _ o | showModal _ o | trackEvent _ o =>
      cases o with
      | none => rfl
      | some m => simp [finite, h m rfl]
  | _ => rfl

theorem Action.finite_eq_self {a : Action}
    (mapping : ∀ m, a.mapping? = some m → Value.finiteEntries m = m)
    (inside : ∀ i ∈ a.nested, i.finite = i) : a.finite = a := by
  have option {o : Option Instruction} (h : ∀ i ∈ o.toList, i.finite = i) :
      Instruction.finiteOption o = o := by
    cases o with
    | none => simp [Instruction.finiteOption]
    | some i => rw [Instruction.finiteOption, h i (by simp)]
  cases a with
  | effect e => rw [finite, Effect.finite_eq_self mapping]
  | apiCall endpoint method body onSuccess onError =>
      simp only [nested, List.mem_append, or_imp, forall_and] at inside
      have whole : body.map Value.finiteEntries = body := by
        cases body with
        | none => rfl
        | some m => simp [mapping m rfl]
      rw [finite, whole, option inside.1, option inside.2]
  | sequence is =>
      have members : is.map Instruction.finite = is.map id := List.map_congr_left inside
      rw [finite, Instruction.finiteItems_eq_map, members, List.map_id]
  | conditional condition onTrue onFalse =>
      simp only [nested, List.mem_append, or_imp, forall_and] at inside
      rw [finite, option inside.1, option inside.2]
  | noop => simp [finite]

theorem Instruction.finite_eq_self {i : Instruction}
    (h : i.Everywhere (fun a => ∀ e ∈ a.fields, e.2.FiniteFloats) fun es =>
      (Value.dict es).FiniteFloats) : i.finite = i := by
  induction h with
  | @known a here _ ih =>
      have mapping (m : Dict) (found : a.mapping? = some m) : Value.finiteEntries m = m := by
        obtain ⟨name, field⟩ := Action.mem_fields_of_mapping? found
        exact (here _ field).finiteEntries_eq_self
      rw [finite, Action.finite_eq_self mapping ih]
  | unknown here => rw [finite, here.finiteEntries_eq_self]

namespace Action

/-- An action that was read from JSON and holds finite numbers only is read as itself from what it
is sent as, unless that is refused because a conditional in it has no branch for when its condition
is true. -/
theorem parse_toWire_self {es : Dict} (json : (Value.dict es).IsJson) {a : Action}
    (read : parse (.dict es) = .ok a) (finite : a.FiniteFloats) {w : Value}
    (sent : a.toWire = .ok w) (b : Action) : parse w = .ok b ↔ a.Complete ∧ b = a := by
  have sendable := Instruction.sendable_of_ofValue json (parse_dict_eq_ok.mp read)
  have unchanged : a.finite = a := by
    simpa only [Instruction.finite, Instruction.known.injEq] using
      Instruction.finite_eq_self finite
  have needs :
      Wire.Needs a.nesting (fun room => a.wire room) (.dict (Wire.sent a.finite.form)) := by
    cases sendable.mono (fun _ h => h) (fun _ h => h.1) with
    | known here inside => exact needs here fun i member => Instruction.needs (inside i member)
  have form : w = .dict (Wire.sent a.form) := by
    rw [unchanged] at needs
    exact Except.ok.inj (sent.symm.trans (needs.enough _ (needs.bound sent)))
  have back : (Instruction.known a).ReadsBack :=
    Instruction.readsBack (sendable.mono (fun _ h => h.quantity) fun _ h => h.2)
  rw [form, parse_dict_eq_ok, ← Instruction.form, back (.known b), Instruction.known.injEq,
    Complete]

/-- A number given as text, a null inside a mapping of an unknown kind and the order of a sequence
come through. -/
theorem parse_toWire_self_sequence :
    let free : Dict := [("type", .str "CONFETTI"), ("colour", .null)]
    let add : Dict :=
      [("type", .str "ADD_TO_CART"), ("product_id", .str "p1"), ("quantity", .str "2")]
    let data : Dict := [("type", .str "SEQUENCE"), ("actions", .list [.dict free, .dict add])]
    let a : Action := .sequence [.unknown free, .known (.effect (.addToCart "p1" (some 2)))]
    parse (.dict data) = .ok a ∧ a.FiniteFloats ∧
      ∃ w, a.toWire = .ok w ∧ ∃ b, parse w = .ok b ∧ a.Complete ∧ b = a := by
  intro free add data a
  let sentAdd : Dict :=
    [("type", .str "ADD_TO_CART"), ("productId", .str "p1"), ("quantity", .int 2)]
  let w : Value :=
    .dict [("type", .str "SEQUENCE"), ("actions", .list [.dict free, .dict sentAdd])]
  have kept : Instruction.ofValue (.dict free) = .ok (.unknown free) :=
    Instruction.ofValue_unknown rfl
  have inOrder {u : Value} {e : Effect} (added : Instruction.ofValue u = .ok (.known (.effect e))) :
      parse (.dict [("type", .str "SEQUENCE"), ("actions", .list [.dict free, u])]) =
        .ok (.sequence [.unknown free, .known (.effect e)]) := by
    apply parse_dict_eq_ok.mpr (ofValue_sequence _)
    exact Instruction.listOfValues_cons_eq_ok.mpr ⟨_, _, kept,
      Instruction.listOfValues_cons_eq_ok.mpr ⟨_, _, added, Instruction.listOfValues_nil, rfl⟩, rfl⟩
  have read : parse (.dict data) = .ok a := inOrder (ofValue_effect rfl rfl)
  have sent : a.toWire = .ok w := rfl
  have again : parse w = .ok a := inOrder (ofValue_effect rfl rfl)
  have json : (Value.dict data).IsJson := by
    have tag : (Value.str "SEQUENCE").IsJson := .intro rfl (by simp [Value.parts])
    have freeJson : (Value.dict free).IsJson :=
      .of_leaves (by simp [free, Value.isPlain, Value.parts])
    have addJson : (Value.dict add).IsJson := .of_leaves (by simp [add, Value.isPlain, Value.parts])
    have members : (Value.list [.dict free, .dict add]).IsJson :=
      .intro rfl (by simpa [Value.parts, Value.IsJson] using ⟨freeJson, addJson⟩)
    exact .of_entries rfl (by simpa [data, Value.IsJson] using ⟨tag, members⟩)
  have finite : a.FiniteFloats := by
    have leaf {v : Value} (empty : v.parts = []) (other : ∀ x, v ≠ .float x) : v.FiniteFloats :=
      .intro (fun x same => absurd same (other x)) (by simp [empty])
    have freeFinite : (Value.dict free).FiniteFloats :=
      .of_leaves (by simp) (by simp [free, Value.parts])
    have addFinite : (effect (.addToCart "p1" (some 2))).FiniteFloats := by
      refine .known ?_ (by simp [nested])
      simp only [fields, Effect.fields, List.forall_mem_cons]
      exact ⟨leaf rfl (by simp), leaf rfl (by simp), leaf rfl (by simp [Value.ofOption]), by simp⟩
    have members : ∀ i ∈ a.nested, i.toValue.FiniteFloats := by
      simpa [a, nested, Instruction.toValue] using ⟨freeFinite, leaf rfl (by simp)⟩
    have inner : (Value.tuple (a.nested.map (·.toValue))).FiniteFloats :=
      .intro (by simp) (by simpa [Value.parts, Value.FiniteFloats] using members)
    refine .known ?_ ?_
    · simp only [a, fields, List.forall_mem_cons]
      exact ⟨leaf rfl (by simp), inner, by simp⟩
    · simp only [a, nested, List.forall_mem_cons]
      exact ⟨.unknown freeFinite, addFinite, by simp⟩
  exact ⟨read, finite, w, sent, a, again, (parse_toWire_self json read finite sent a).mp again⟩

end Action

end ServerUI
