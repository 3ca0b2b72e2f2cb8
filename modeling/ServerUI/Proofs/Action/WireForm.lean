import ServerUI.Action.Wire
import ServerUI.Proofs.Action.Everywhere

/-!
What actions that were read from JSON are sent as. Their fields go in order without the null ones,
and their mappings go with null for numbers that are not finite; the only thing that can keep an
action from being sent is that free values stand too deep inside one another.
-/

set_option autoImplicit false

namespace ServerUI

def Value.nestingOfMapping : Option Dict → Nat
  | none => 0
  | some es => Value.nestingOfEntries es

mutual

def Action.nesting : Action → Nat
  | .effect e => Value.nestingOfMapping e.mapping?
  | .apiCall _ _ body onSuccess onError =>
      max (Value.nestingOfMapping body)
        (max (Instruction.nestingOfOption onSuccess) (Instruction.nestingOfOption onError))
  | .sequence actions => Instruction.nestingOfItems actions + 1
  | .conditional _ onTrue onFalse =>
      max (Instruction.nestingOfOption onTrue) (Instruction.nestingOfOption onFalse)
  | .noop => 0

def Instruction.nesting : Instruction → Nat
  | .known a => a.nesting + 1
  | .unknown entries => Value.nestingOfEntries entries + 1

def Instruction.nestingOfOption : Option Instruction → Nat
  | none => 0
  | some i => i.nesting

def Instruction.nestingOfItems : List Instruction → Nat
  | [] => 0
  | i :: is => max i.nesting (Instruction.nestingOfItems is)

end

mutual

/-- A value with null for the numbers in it that are not finite. -/
def Value.finite : Value → Value
  | .float x => if x.isFinite then .float x else .null
  | .list items => .list (Value.finiteItems items)
  | .dict entries => .dict (Value.finiteEntries entries)
  | v => v

def Value.finiteItems : List Value → List Value
  | [] => []
  | v :: vs => v.finite :: Value.finiteItems vs

def Value.finiteEntries : List (String × Value) → Dict
  | [] => []
  | (k, v) :: es => (k, v.finite) :: Value.finiteEntries es

end

def Effect.finite : Effect → Effect
  | .navigate screen params => .navigate screen (params.map Value.finiteEntries)
  | .showModal modalId props => .showModal modalId (props.map Value.finiteEntries)
  | .trackEvent event properties => .trackEvent event (properties.map Value.finiteEntries)
  | e => e

mutual

def Action.finite : Action → Action
  | .effect e => .effect e.finite
  | .apiCall endpoint method body onSuccess onError =>
      .apiCall endpoint method (body.map Value.finiteEntries) (Instruction.finiteOption onSuccess)
        (Instruction.finiteOption onError)
  | .sequence actions => .sequence (Instruction.finiteItems actions)
  | .conditional condition onTrue onFalse =>
      .conditional condition (Instruction.finiteOption onTrue) (Instruction.finiteOption onFalse)
  | .noop => .noop

def Instruction.finite : Instruction → Instruction
  | .known a => .known a.finite
  | .unknown entries => .unknown (Value.finiteEntries entries)

def Instruction.finiteOption : Option Instruction → Option Instruction
  | none => none
  | some i => some i.finite

def Instruction.finiteItems : List Instruction → List Instruction
  | [] => []
  | i :: is => i.finite :: Instruction.finiteItems is

end

@[simp] theorem Effect.kind_finite (e : Effect) : e.finite.kind = e.kind := by
  cases e <;> rfl

@[simp] theorem Action.kind_finite (a : Action) : a.finite.kind = a.kind := by
  cases a <;> simp [finite, kind]

theorem Instruction.finiteItems_eq_map (is : List Instruction) :
    finiteItems is = is.map finite := by
  induction is with
  | nil => simp [finiteItems]
  | cons i is ih => simp [finiteItems, ih]

theorem Action.nested_finite (a : Action) : a.finite.nested = a.nested.map Instruction.finite := by
  cases a with
  | apiCall _ _ _ onSuccess onError =>
      cases onSuccess <;> cases onError <;> simp [finite, nested, Instruction.finiteOption]
  | conditional _ onTrue onFalse =>
      cases onTrue <;> cases onFalse <;> simp [finite, nested, Instruction.finiteOption]
  | _ => simp [finite, nested, Instruction.finiteItems_eq_map]

theorem Value.find?_finiteEntries (es : Dict) (key : String) :
    Entries.find? (finiteEntries es) key = (Entries.find? es key).map finite := by
  induction es with
  | nil => simp [finiteEntries]
  | cons e es ih =>
      obtain ⟨k, v⟩ := e
      by_cases same : k = key <;> simp [finiteEntries, Entries.find?_cons, same, ih]

namespace Wire

def sent (fields : Dict) : Dict :=
  (fields.filter fun e => !e.2.isNull).map fun e => (Field.camelCase e.1, e.2)

@[simp] theorem sent_nil : sent [] = [] := rfl

theorem sent_cons (name : String) (v : Value) (fields : Dict) :
    sent ((name, v) :: fields) =
      (if v.isNull then [] else [(Field.camelCase name, v)]) ++ sent fields := by
  cases h : v.isNull <;> simp [sent, h]

end Wire

mutual

def Action.form (a : Action) : Dict :=
  ("type", .str a.kind.name) :: match a with
    | .effect e => e.fields
    | .apiCall endpoint method body onSuccess onError =>
        [("endpoint", .str endpoint), ("method", .ofOption (.str ·.name) method),
          ("body", .ofOption .dict body), ("on_success", Instruction.formOfOption onSuccess),
          ("on_error", Instruction.formOfOption onError)]
    | .sequence actions => [("actions", .list (Instruction.formOfItems actions))]
    | .conditional condition onTrue onFalse =>
        [("condition", .str condition), ("on_true", Instruction.formOfOption onTrue),
          ("on_false", Instruction.formOfOption onFalse)]
    | .noop => []

def Instruction.form : Instruction → Value
  | .known a => .dict (Wire.sent a.form)
  | .unknown entries => .dict entries

def Instruction.formOfOption : Option Instruction → Value
  | none => .null
  | some i => i.form

def Instruction.formOfItems : List Instruction → List Value
  | [] => []
  | i :: is => i.form :: Instruction.formOfItems is

end

@[simp] theorem Instruction.isNull_form (i : Instruction) : i.form.isNull = false := by
  cases i <;> simp [form, Value.isNull]

namespace Wire

variable {α β γ : Type}

/-- With room for `n` free values inside one another `f` gives `a`, and with less it fails. -/
structure Needs (n : Nat) (f : Nat → Except WireError α) (a : α) : Prop where
  enough (room : Nat) (h : n ≤ room) : f room = .ok a
  bound {room : Nat} {b : α} (h : f room = .ok b) : n ≤ room

namespace Needs

variable {n m : Nat} {f : Nat → Except WireError α} {g : Nat → Except WireError β} {a : α} {b : β}

theorem const (a : α) : Needs 0 (fun _ => .ok a) a where
  enough _ _ := rfl
  bound _ := Nat.zero_le _

theorem deeper (h : Needs n f a) : Needs (n + 1) (fun room => deeper room f) a where
  enough room le := by
    cases room with
    | zero => omega
    | succ room => exact h.enough room (by omega)
  bound {room _} read := by
    cases room with
    | zero => cases read
    | succ room => exact Nat.succ_le_succ (h.bound read)

-- What two need, the greater need of them is enough for.
theorem both (hf : Needs n f a) (hg : Needs m g b) (h : α → β → γ) :
    Needs (max n m) (fun room => do return h (← f room) (← g room)) (h a b) where
  enough room le := by
    rw [hf.enough room (by omega), hg.enough room (by omega)]
    rfl
  bound {room _} read := by
    cases left : f room with
    | error e => simp [left, bind, Except.bind] at read
    | ok x =>
        cases right : g room with
        | error e => simp [left, right, bind, Except.bind] at read
        | ok y =>
            have := hf.bound left
            have := hg.bound right
            omega

theorem map (h : Needs n f a) (g : α → γ) : Needs n (fun room => (f room).map g) (g a) where
  enough room le := by rw [h.enough room le]; rfl
  bound {room _} read := by
    cases left : f room with
    | error e => simp [left, Except.map] at read
    | ok x => exact h.bound left

end Needs

end Wire

open Wire

namespace Value

theorem needs_items {vs : List Value}
    (h : ∀ v ∈ vs, Needs v.nesting (fun room => v.wire room) v.finite) :
    Needs (nestingOfItems vs) (fun room => wireItems room vs) (finiteItems vs) := by
  induction vs with
  | nil => simpa only [wireItems, nestingOfItems, finiteItems] using Needs.const []
  | cons v vs ih =>
      simp only [List.mem_cons, forall_eq_or_imp] at h
      simpa only [wireItems, nestingOfItems, finiteItems] using h.1.both (ih h.2) List.cons

theorem needs_entries {es : Dict}
    (h : ∀ e ∈ es, Needs e.2.nesting (fun room => e.2.wire room) e.2.finite) :
    Needs (nestingOfEntries es) (fun room => wireEntries room es) (finiteEntries es) := by
  induction es with
  | nil => simpa only [wireEntries, nestingOfEntries, finiteEntries] using Needs.const []
  | cons e es ih =>
      obtain ⟨k, v⟩ := e
      simp only [List.mem_cons, forall_eq_or_imp] at h
      simpa only [wireEntries, nestingOfEntries, finiteEntries] using
        h.1.both (ih h.2) fun w ws => (k, w) :: ws

theorem IsJson.needs {v : Value} (h : v.IsJson) :
    Needs v.nesting (fun room => v.wire room) v.finite := by
  induction h with
  | @intro v plain inside ih =>
      cases v <;> simp only [isPlain, Bool.false_eq_true] at plain
      case list items =>
        have members : Needs (nestingOfItems items) _ (finiteItems items) := needs_items ih
        simpa only [wire, nesting, finite] using (members.map list).deeper
      case dict es =>
        have entries : Needs (nestingOfEntries es) _ (finiteEntries es) :=
          needs_entries fun e member => ih e.2 (List.mem_map.mpr ⟨e, member, rfl⟩)
        simpa only [wire, nesting, finite] using (entries.map dict).deeper
      all_goals simpa only [wire, nesting, finite] using Needs.const _

theorem IsJson.needs_entries {es : Dict} (h : (dict es).IsJson) :
    Needs (nestingOfEntries es) (fun room => wireEntries room es) (finiteEntries es) :=
  Value.needs_entries fun _ member => IsJson.needs (h.entry member)

end Value

theorem Instruction.kindOf_finiteEntries (es : Dict) :
    kindOf (Value.finiteEntries es) = kindOf es := by
  rw [kindOf, kindOf, Value.find?_finiteEntries]
  cases Entries.find? es "type" with
  | none => rfl
  | some v =>
      have same : v.finite.unhashable? = v.unhashable? ∧ v.finite.actionKind? = v.actionKind? := by
        cases v with
        | float x =>
            by_cases finite : x.isFinite <;>
              simp [Value.finite, finite, Value.unhashable?, Value.tree, Tree.unhashable?,
                Value.actionKind?, Value.word?]
        | _ =>
            simp [Value.finite, Value.unhashable?, Value.tree, Tree.unhashable?, Value.actionKind?,
              Value.word?]
      simp [same]

theorem Instruction.Everywhere.finite {P P' : Action → Prop} {U U' : Dict → Prop} {i : Instruction}
    (h : i.Everywhere P U) (known : ∀ a, P a → P' a.finite)
    (unknown : ∀ es, U es → U' (Value.finiteEntries es)) : i.finite.Everywhere P' U' := by
  induction h with
  | known here _ ih =>
      rw [Instruction.finite]
      refine .known (known _ here) fun j member => ?_
      rw [Action.nested_finite, List.mem_map] at member
      obtain ⟨i, inside, rfl⟩ := member
      exact ih i inside
  | unknown here =>
      rw [Instruction.finite]
      exact .unknown (unknown _ here)

def Action.mapping? : Action → Option Dict
  | effect e => e.mapping?
  | apiCall _ _ body _ _ => body
  | _ => none

def Action.WholeQuantity (a : Action) : Prop :=
  ∀ productId q, a = .effect (.updateCartQuantity productId q) → ∃ n, q = .int n

theorem Action.WholeQuantity.finite {a : Action} (h : a.WholeQuantity) :
    a.finite.WholeQuantity := by
  intro productId q same
  cases a with
  | effect e =>
      cases e <;> simp [Action.finite, Effect.finite] at same
      exact h productId q (by simp [same])
  | _ => simp [Action.finite] at same

structure Action.Sendable (a : Action) : Prop where
  mapping {m : Dict} (h : a.mapping? = some m) : (Value.dict m).IsJson
  quantity : a.WholeQuantity

theorem Action.sendable_of_ofFields {kind : ActionKind} {es : Dict} {a : Action}
    (json : (Value.dict es).IsJson) (h : ofFields kind es = .ok a) : a.Sendable := by
  cases effect : Effect.ofFields? kind es with
  | some checked =>
      rw [ofFields_of_effect effect] at h
      obtain ⟨e, rfl, rfl⟩ := Checked.map_eq_ok.mp h
      obtain ⟨-, entry, whole⟩ := Effect.of_ofFields? effect
      refine ⟨fun {m} found => ?_, fun p q same => ?_⟩
      · obtain ⟨k, member⟩ := entry m found
        exact json.entry member
      · exact whole p q (by simpa using same)
  | none =>
      cases kind <;> simp only [Effect.ofFields?, reduceCtorEq] at effect
      case apiCall =>
        obtain ⟨_, _, body, _, _, rfl, -, -, read, -, -⟩ := ofFields_apiCall_eq_ok.mp h
        refine ⟨fun {m} found => ?_, by simp [WholeQuantity]⟩
        obtain rfl : body = some m := found
        obtain ⟨k, member⟩ := Validate.optional_mapping_eq_some read
        exact json.entry member
      case sequence =>
        obtain ⟨_, rfl, -⟩ := ofFields_sequence_eq_ok.mp h
        constructor <;> simp [mapping?, WholeQuantity]
      case conditional =>
        obtain ⟨_, _, _, rfl, -⟩ := ofFields_conditional_eq_ok.mp h
        constructor <;> simp [mapping?, WholeQuantity]
      case noop =>
        simp only [ofFields_noop, Checked.ok.injEq] at h
        subst h
        constructor <;> simp [mapping?, WholeQuantity]

theorem Instruction.sendable_of_ofValue {v : Value} (json : v.IsJson) {i : Instruction}
    (h : ofValue v = .ok i) :
    i.Everywhere Action.Sendable fun es => (Value.dict es).IsJson ∧ kindOf es = .ok none :=
  everywhere_of_ofValue (V := fun u => u.isPlain = true)
    (fun _ plain => by simp [Value.isPlain] at plain)
    (fun _ inside kind => ⟨inside, kind⟩)
    (fun _ _ _ inside fields => Action.sendable_of_ofFields inside fields) json h

namespace Wire

theorem sent_append (es fs : Dict) : sent (es ++ fs) = sent es ++ sent fs := by
  simp [sent]

theorem needs_nil : Needs 0 (fun _ => inOrder []) (sent []) := .const []

theorem needs_cons {n m : Nat} {r : Nat → Except WireError Dict}
    {rest : Nat → List (Except WireError Dict)} {e : String × Value} {es : Dict}
    (first : Needs n r (sent [e])) (next : Needs m (fun room => inOrder (rest room)) (sent es)) :
    Needs (max n m) (fun room => inOrder (r room :: rest room)) (sent (e :: es)) := by
  rw [show e :: es = [e] ++ es from rfl, sent_append]
  exact first.both next (· ++ ·)

theorem needs_given (name : String) {v : Value} (h : v.isNull = false) :
    Needs 0 (fun _ => given name v) (sent [(name, v)]) := by
  simpa [sent_cons, h, given, field, Except.map] using Needs.const [(Field.camelCase name, v)]

theorem needs_plain {α : Type} (name : String) {form : α → Value} (o : Option α)
    (h : ∀ a, (form a).isNull = false) :
    Needs 0 (fun _ => plain name form o) (sent [(name, .ofOption form o)]) := by
  cases o with
  | none => exact .const []
  | some a => exact needs_given name (h a)

theorem needs_mapping (name : String) {o : Option Dict}
    (h : ∀ m, o = some m → (Value.dict m).IsJson) :
    Needs (Value.nestingOfMapping o) (fun room => Value.wireMapping room name o)
      (sent [(name, .ofOption .dict (o.map Value.finiteEntries))]) := by
  cases o with
  | none =>
      simp only [Value.wireMapping]
      exact .const []
  | some m =>
      simp only [Value.wireMapping]
      exact ((h m rfl).needs_entries.map Value.dict).map fun v => [(Field.camelCase name, v)]

theorem needs_instruction (name : String) {o : Option Instruction}
    (h : ∀ i ∈ o.toList, Needs i.nesting (fun room => i.wire room) i.finite.form) :
    Needs (Instruction.nestingOfOption o) (fun room => Instruction.wireField room name o)
      (sent [(name, Instruction.formOfOption (Instruction.finiteOption o))]) := by
  cases o with
  | none =>
      simp only [Instruction.wireField]
      exact .const []
  | some i =>
      simp only [Instruction.wireField, Instruction.finiteOption, Instruction.formOfOption,
        sent_cons, Instruction.isNull_form]
      exact (h i (by simp)).map fun v => [(Field.camelCase name, v)]

section

variable {n : Nat} {r : Nat → Except WireError Dict} {rest : Nat → List (Except WireError Dict)}
  {e : String × Value} {es : Dict}

theorem needs_free (first : Needs 0 r (sent [e]))
    (next : Needs n (fun room => inOrder (rest room)) (sent es)) :
    Needs n (fun room => inOrder (r room :: rest room)) (sent (e :: es)) := by
  simpa using needs_cons first next

theorem needs_last (h : Needs n r (sent [e])) :
    Needs n (fun room => inOrder [r room]) (sent [e]) := by
  simpa using needs_cons h needs_nil

end

end Wire

theorem Effect.needs {e : Effect} (json : ∀ m, e.mapping? = some m → (Value.dict m).IsJson)
    (whole : ∀ productId q, e = .updateCartQuantity productId q → ∃ n, q = .int n) :
    Needs (Value.nestingOfMapping e.mapping?) (fun room => inOrder (e.wireFields room))
      (sent e.finite.fields) := by
  cases e with
  | navigate screen params =>
      exact needs_free (needs_given "screen" rfl) (needs_last (needs_mapping "params" json))
  | goBack => exact needs_nil
  | openUrl url external =>
      exact needs_free (needs_given "url" rfl)
        (needs_last (needs_plain "external" external fun _ => rfl))
  | addToCart productId quantity =>
      exact needs_free (needs_given "product_id" rfl)
        (needs_last (needs_plain "quantity" quantity fun _ => rfl))
  | updateCartQuantity productId quantity =>
      -- The quantity may be any value, and a free one, unless the action was read.
      obtain ⟨n, rfl⟩ := whole productId quantity rfl
      simp only [wireFields, Value.wire]
      exact needs_free (needs_given "product_id" rfl) (needs_last (needs_given "quantity" rfl))
  | removeFromCart productId => exact needs_last (needs_given "product_id" rfl)
  | toggleFavorite productId => exact needs_last (needs_given "product_id" rfl)
  | showToast message status duration =>
      exact needs_free (needs_given "message" rfl)
        (needs_free (needs_plain "status" status fun _ => rfl)
          (needs_last (needs_plain "duration" duration fun n => by cases n <;> rfl)))
  | showModal modalId props =>
      exact needs_free (needs_given "modal_id" rfl) (needs_last (needs_mapping "props" json))
  | closeModal modalId => exact needs_last (needs_plain "modal_id" modalId fun _ => rfl)
  | share title message url =>
      exact needs_free (needs_plain "title" title fun _ => rfl)
        (needs_free (needs_plain "message" message fun _ => rfl)
          (needs_last (needs_plain "url" url fun _ => rfl)))
  | trackEvent event properties =>
      exact needs_free (needs_given "event" rfl) (needs_last (needs_mapping "properties" json))
  | refresh sectionId => exact needs_last (needs_plain "section_id" sectionId fun _ => rfl)

namespace Instruction

theorem needs_items {is : List Instruction}
    (h : ∀ i ∈ is, Needs i.nesting (fun room => i.wire room) i.finite.form) :
    Needs (nestingOfItems is) (fun room => wireItems room is) (formOfItems (finiteItems is)) := by
  induction is with
  | nil => simpa only [wireItems, nestingOfItems, finiteItems, formOfItems] using Needs.const []
  | cons i is ih =>
      simp only [List.mem_cons, forall_eq_or_imp] at h
      simpa only [wireItems, nestingOfItems, finiteItems, formOfItems] using
        h.1.both (ih h.2) List.cons

end Instruction

theorem Action.needs {a : Action} (here : a.Sendable)
    (inside : ∀ i ∈ a.nested, Needs i.nesting (fun room => i.wire room) i.finite.form) :
    Needs a.nesting (fun room => a.wire room) (.dict (sent a.finite.form)) := by
  cases a with
  | effect e =>
      have own := e.needs (fun m h => here.mapping h) fun p q h => here.quantity p q (congrArg _ h)
      simp only [wire, nesting, finite, form, kind, Effect.kind_finite]
      exact (needs_free (needs_given "type" rfl) own).map Value.dict
  | apiCall endpoint method body onSuccess onError =>
      simp only [nested, List.mem_append, or_imp, forall_and] at inside
      have followed := needs_cons (needs_instruction "on_success" inside.1)
        (needs_last (needs_instruction "on_error" inside.2))
      have called :=
        needs_cons (needs_mapping "body" (o := body) fun m h => here.mapping h) followed
      simp only [wire, nesting, finite, form]
      exact (needs_free (needs_given "type" rfl) (needs_free (needs_given "endpoint" rfl)
        (needs_free (needs_plain "method" method fun _ => rfl) called))).map Value.dict
  | sequence is =>
      have members := (Instruction.needs_items inside).map Value.list
      have field := members.deeper.map fun v => [(Field.camelCase "actions", v)]
      simp only [wire, nesting, finite, form]
      exact (needs_free (needs_given "type" rfl)
        (needs_last (e := ("actions", _)) field)).map Value.dict
  | conditional condition onTrue onFalse =>
      simp only [nested, List.mem_append, or_imp, forall_and] at inside
      have branches := needs_cons (needs_instruction "on_true" inside.1)
        (needs_last (needs_instruction "on_false" inside.2))
      simp only [wire, nesting, finite, form]
      exact (needs_free (needs_given "type" rfl)
        (needs_free (needs_given "condition" rfl) branches)).map Value.dict
  | noop =>
      simp only [wire, nesting, finite, form]
      exact (needs_last (needs_given "type" (v := .str ActionKind.noop.name) rfl)).map Value.dict

/-- What an action from JSON is sent as, and the room that it needs. -/
theorem Instruction.needs {i : Instruction}
    (h : i.Everywhere Action.Sendable fun es => (Value.dict es).IsJson) :
    Needs i.nesting (fun room => i.wire room) i.finite.form := by
  induction h with
  | known here _ ih =>
      simp only [wire, nesting, finite, form]
      exact (Action.needs here ih).deeper
  | unknown json =>
      simp only [wire, nesting, finite, form]
      exact (json.needs_entries.map Value.dict).deeper

end ServerUI
