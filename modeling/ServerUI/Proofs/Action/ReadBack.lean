import ServerUI.Proofs.Action.WireForm

/-!
Reading back what an action is sent as. Each field is found under its wire spelling, because the
names of the fields of a kind stay apart there, and its value is accepted and gives itself.
-/

set_option autoImplicit false

namespace ServerUI

def ActionKind.fieldNames : ActionKind → List String
  | navigate => ["type", "screen", "params"]
  | goBack => ["type"]
  | openUrl => ["type", "url", "external"]
  | addToCart => ["type", "product_id", "quantity"]
  | updateCartQuantity => ["type", "product_id", "quantity"]
  | removeFromCart => ["type", "product_id"]
  | toggleFavorite => ["type", "product_id"]
  | apiCall => ["type", "endpoint", "method", "body", "on_success", "on_error"]
  | showToast => ["type", "message", "status", "duration"]
  | showModal => ["type", "modal_id", "props"]
  | closeModal => ["type", "modal_id"]
  | share => ["type", "title", "message", "url"]
  | trackEvent => ["type", "event", "properties"]
  | refresh => ["type", "section_id"]
  | sequence => ["type", "actions"]
  | conditional => ["type", "condition", "on_true", "on_false"]
  | noop => ["type"]

def Field.Apart (names : List String) (name : String) : Prop :=
  ∀ k ∈ names, camelCase k = camelCase name ∨ camelCase k = name → k = name

instance (names : List String) (name : String) : Decidable (Field.Apart names name) :=
  inferInstanceAs (Decidable (∀ k ∈ names, _ → _))

theorem ActionKind.apart (kind : ActionKind) :
    kind.fieldNames.Nodup ∧ ∀ name ∈ kind.fieldNames, Field.Apart kind.fieldNames name := by
  cases kind <;> decide

theorem Action.keys_form (a : Action) : Entries.keys a.form = a.kind.fieldNames := by
  cases a with
  | effect e => cases e <;> rfl
  | _ => simp [form, Entries.keys, kind, ActionKind.fieldNames]

namespace Wire

-- A key that only `name` is spelled as finds what is there under `name`, unless it is null.
theorem find?_sent {name key : String} {fields : Dict} (nodup : (Entries.keys fields).Nodup)
    (spelling : Field.camelCase name = key)
    (apart : ∀ k ∈ Entries.keys fields, Field.camelCase k = key → k = name) :
    Entries.find? (sent fields) key = (Entries.find? fields name).filter (!·.isNull) := by
  induction fields with
  | nil => simp
  | cons e fields ih =>
      obtain ⟨k, v⟩ := e
      simp only [Entries.keys, List.map_cons, List.nodup_cons, List.mem_cons, forall_eq_or_imp]
        at nodup apart ih
      have ih := ih nodup.2 apart.2
      rw [sent_cons, Entries.find?_cons]
      by_cases same : k = name
      -- A null entry is dropped, and no later entry has its name.
      · subst same
        have others : Entries.find? fields k = none := Entries.find?_eq_none.mpr nodup.1
        rw [others] at ih
        cases null : v.isNull <;> simp [null, spelling, ih, Entries.find?_cons, Option.filter]
      · have different : Field.camelCase k ≠ key := fun h => same (apart.1 h)
        cases null : v.isNull <;> simp [same, different, ih, Entries.find?_cons]

theorem find?_sent_of_fresh {key : String} {fields : Dict}
    (fresh : ∀ k ∈ Entries.keys fields, Field.camelCase k ≠ key) :
    Entries.find? (sent fields) key = none := by
  rw [Entries.find?_eq_none]
  intro member
  simp only [Entries.keys, sent, List.map_map, List.mem_map, List.mem_filter] at member
  obtain ⟨e, ⟨inside, -⟩, same⟩ := member
  exact fresh e.1 (List.mem_map.mpr ⟨e, inside, rfl⟩) same

theorem value?_sent {name : String} {fields : Dict} (nodup : (Entries.keys fields).Nodup)
    (apart : Field.Apart (Entries.keys fields) name) :
    (Field.named name).value? (sent fields) = (Entries.find? fields name).filter (!·.isNull) := by
  -- The lookup under the name itself finds nothing new, whether the two spellings differ or not.
  have wire := find?_sent nodup rfl fun k member same => apart k member (.inl same)
  rw [Field.value?_eq]
  simp only [Field.named, wire]
  by_cases plain : Field.camelCase name = name
  · have own := find?_sent nodup plain fun k member same => apart k member (.inr same)
    rw [own, Option.or_self]
  · have none : Entries.find? (sent fields) name = none :=
      find?_sent_of_fresh fun k member same => plain (apart k member (.inr same) ▸ same)
    rw [none, Option.or_none]

end Wire

namespace Action

variable {a : Action} {name : String} {α : Type} {check : Value → Checked α}

theorem value?_form {v : Value} (found : Entries.find? a.form name = some v) :
    (Field.named name).value? (Wire.sent a.form) = if v.isNull then none else some v := by
  obtain ⟨nodup, apart⟩ := a.kind.apart
  have known : name ∈ Entries.keys a.form := Classical.byContradiction fun absent => by
    rw [Entries.find?_eq_none.mpr absent] at found
    cases found
  rw [← a.keys_form] at nodup apart
  rw [Wire.value?_sent nodup (apart name known), found]
  cases null : v.isNull <;> simp [Option.filter, null]

theorem value?_form_of_given {v : Value} (found : Entries.find? a.form name = some v)
    (given : v.isNull = false) : (Field.named name).value? (Wire.sent a.form) = some v := by
  simp [value?_form found, given]

theorem required_form {v : Value} (found : Entries.find? a.form name = some v)
    (given : v.isNull = false) {x : α} (accepted : check v = .ok x) :
    (Field.named name).required check (Wire.sent a.form) = .ok x := by
  rw [Field.required_eq_ok]
  exact ⟨v, value?_form_of_given found given, accepted⟩

theorem optional_form {form : α → Value} {o : Option α}
    (found : Entries.find? a.form name = some (.ofOption form o))
    (given : ∀ x, (form x).isNull = false) (accepted : ∀ x, check (form x) = .ok x) :
    (Field.named name).optional check (Wire.sent a.form) = .ok o := by
  rw [Field.optional_eq_ok, value?_form found]
  cases o with
  | none => simp [Value.ofOption, Value.isNull]
  | some x => simp [Value.ofOption, given, accepted]

theorem kindOf_form : Instruction.kindOf (Wire.sent a.form) = .ok (some a.kind) := by
  have first : Entries.find? (Wire.sent a.form) "type" = some (.str a.kind.name) := by
    rw [form.eq_def, Wire.sent_cons]
    rfl
  exact Instruction.kindOf_eq_some.mpr ⟨_, first, by simp [Value.actionKind?, Value.word?]⟩

end Action

namespace Validate

@[simp] theorem text_str (s : String) : text (.str s) = .ok s := rfl

@[simp] theorem whole_int (i : Int) : whole (.int i) = .ok i := rfl

@[simp] theorem truth_bool (b : Bool) : truth (.bool b) = .ok b := rfl

@[simp] theorem mapping_dict (es : Dict) : mapping (.dict es) = .ok es := rfl

@[simp] theorem number_ofNumber (n : Number) : number (.ofNumber n) = .ok n := by
  cases n <;> rfl

theorem literal_str {α : Type} {ofName? : String → Option α} {s : String} {a : α}
    (h : ofName? s = some a) : literal ofName? (.str s) = .ok a := by
  simp [literal, Value.word?, h]

end Validate

namespace Effect

theorem ofFields?_form {e : Effect}
    (whole : ∀ productId q, e = .updateCartQuantity productId q → ∃ n, q = .int n) :
    ofFields? e.kind (Wire.sent (Action.effect e).form) = some (.ok e) := by
  have text {e : Effect} {name : String} {s : String}
      (found : Entries.find? (Action.effect e).form name = some (.str s)) :
      (Field.named name).required Validate.text (Wire.sent (Action.effect e).form) = .ok s :=
    Action.required_form found rfl rfl
  have text? {e : Effect} {name : String} {o : Option String}
      (found : Entries.find? (Action.effect e).form name = some (.ofOption .str o)) :
      (Field.named name).optional Validate.text (Wire.sent (Action.effect e).form) = .ok o :=
    Action.optional_form found (fun _ => rfl) fun _ => rfl
  have dict? {e : Effect} {name : String} {o : Option Dict}
      (found : Entries.find? (Action.effect e).form name = some (.ofOption .dict o)) :
      (Field.named name).optional Validate.mapping (Wire.sent (Action.effect e).form) = .ok o :=
    Action.optional_form found (fun _ => rfl) fun _ => rfl
  cases e <;>
    simp only [kind, ofFields?, Option.some.injEq, Checked.seq_eq_ok, Checked.functorMap_eq_ok]
  case navigate screen params => exact ⟨_, params, ⟨screen, text rfl, rfl⟩, dict? rfl, rfl⟩
  case openUrl url external =>
    exact ⟨_, external, ⟨url, text rfl, rfl⟩,
      Action.optional_form rfl (fun _ => rfl) Validate.truth_bool, rfl⟩
  case addToCart productId quantity =>
    exact ⟨_, quantity, ⟨productId, text rfl, rfl⟩,
      Action.optional_form rfl (fun _ => rfl) Validate.whole_int, rfl⟩
  case updateCartQuantity productId quantity =>
    obtain ⟨n, rfl⟩ := whole productId quantity rfl
    exact ⟨_, n, ⟨productId, text rfl, rfl⟩,
      Action.required_form rfl rfl (Validate.whole_int n), rfl⟩
  case removeFromCart productId => exact ⟨productId, text rfl, rfl⟩
  case toggleFavorite productId => exact ⟨productId, text rfl, rfl⟩
  case showToast message status duration =>
    exact ⟨_, duration, ⟨_, status, ⟨message, text rfl, rfl⟩,
      Action.optional_form rfl (fun _ => rfl) fun t => Validate.literal_str t.ofName?_name, rfl⟩,
      Action.optional_form rfl (fun n => by cases n <;> rfl) Validate.number_ofNumber, rfl⟩
  case showModal modalId props => exact ⟨_, props, ⟨modalId, text rfl, rfl⟩, dict? rfl, rfl⟩
  case closeModal modalId => exact ⟨modalId, text? rfl, rfl⟩
  case share title message url =>
    exact ⟨_, url, ⟨_, message, ⟨title, text? rfl, rfl⟩, text? rfl, rfl⟩, text? rfl, rfl⟩
  case trackEvent event properties =>
    exact ⟨_, properties, ⟨event, text rfl, rfl⟩, dict? rfl, rfl⟩
  case refresh sectionId => exact ⟨sectionId, text? rfl, rfl⟩

end Effect

end ServerUI
