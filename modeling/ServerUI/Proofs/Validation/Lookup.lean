import ServerUI.Descriptor.Validation
import ServerUI.Proofs.Action.Everywhere

/-!
When validation ends at once, without faults: where the kind of an action is looked up and its
`type` is nothing that can be looked up. What is said here of every way to put validators together
is that they end so only over a value that one of their parts ends over, and so a whole value is
validated to an end unless some mapping in it has such a `type`.
-/

set_option autoImplicit false

namespace ServerUI

namespace Checked

variable {α β : Type} {B : String → Prop}

/-- If validation ends at once, then over a value of a type that is to blame. -/
def Blames (B : String → Prop) (x : Checked α) : Prop := ∀ t, x = .unhashable t → B t

@[simp] theorem blames_ok (a : α) : (ok a).Blames B := by simp [Blames]

@[simp] theorem blames_faults (fs : List Fault) : (faults fs : Checked α).Blames B := by
  simp [Blames]

@[simp] theorem blames_fault (rule : Rule) : (fault rule : Checked α).Blames B :=
  blames_faults _

namespace Blames

variable {x : Checked α}

theorem map (h : x.Blames B) (f : α → β) : (x.map f).Blames B := by
  cases x <;> simp_all [Blames, Checked.map]

theorem under (h : x.Blames B) (step : PathStep) : (x.under step).Blames B := by
  cases x <;> simp_all [Blames, Checked.under]

theorem functorMap (h : x.Blames B) (f : α → β) : (f <$> x).Blames B := h.map f

theorem seq {f : Checked (α → β)} (hf : f.Blames B) (hx : x.Blames B) : (f <*> x).Blames B := by
  cases f <;> cases x <;> simp_all [Blames, Seq.seq, ap, Checked.map]

end Blames

theorem blames_items {check : α → Checked β} {as : List α} (h : ∀ a ∈ as, (check a).Blames B)
    (start : Nat) : (items check start as).Blames B := by
  induction as generalizing start with
  | nil => exact blames_ok []
  | cons a rest ih =>
      simp only [List.mem_cons, forall_eq_or_imp] at h
      exact ((h.1.under (.index start)).map List.cons).seq (ih h.2 (start + 1))

theorem blames_ofExcept {r : Except Rejection α} :
    (ofExcept r).Blames B ↔ ∀ t, r = .error (.unhashable t) → B t := by
  rcases r with (_ | _ | _) | _ <;> simp [ofExcept, Blames, fault]

theorem blames_toExcept {x : Checked α} (h : x.Blames B) :
    ∀ t, x.toExcept = .error (.unhashable t) → B t := by
  cases x <;> simp_all [Blames, toExcept]

theorem blames_ofExcept_map {r : Except Rejection α} (h : (ofExcept r).Blames B) (f : α → β) :
    (ofExcept (r.map f)).Blames B := by
  rcases r with (_ | _ | _) | _ <;> simp_all [ofExcept, Blames, fault, Except.map]

end Checked

namespace Field

variable {α : Type} {B : String → Prop} {f : Field} {es : Dict} {check : Value → Checked α}

theorem blames_missing (f : Field) : (f.missing : Checked α).Blames B :=
  (Checked.blames_fault .missing).under _

theorem blames_readWith {absent : Checked α} (missing : absent.Blames B)
    (found : ∀ e ∈ es, (check e.2).Blames B) :
    (f.readWith es absent fun v _ => check v).Blames B := by
  unfold readWith
  split
  · exact missing
  · next e inside _ => exact (found e inside).under _

theorem blames_required (found : ∀ e ∈ es, (check e.2).Blames B) :
    (f.required check es).Blames B :=
  blames_readWith (blames_missing f) found

theorem blames_withDefault {value : α} (found : ∀ e ∈ es, (check e.2).Blames B) :
    (f.withDefault value check es).Blames B :=
  blames_readWith (Checked.blames_ok value) found

theorem blames_optional (found : ∀ e ∈ es, (check e.2).Blames B) :
    (f.optional check es).Blames B := by
  unfold optional
  refine blames_readWith (Checked.blames_ok none) fun e inside => ?_
  split
  · exact Checked.blames_ok none
  · exact (found e inside).map some

end Field

namespace Validate

variable {B : String → Prop}

theorem blames_bySpelling {α : Type} {ofText : String → Checked α} {broken : Rule}
    {other : Value → Checked α} (text : ∀ s, (ofText s).Blames B)
    (others : ∀ v, (other v).Blames B) (v : Value) :
    (bySpelling ofText broken other v).Blames B := by
  unfold bySpelling
  split
  · exact text _
  · exact Checked.blames_fault broken
  · exact others v

theorem blames_text (v : Value) : (text v).Blames B :=
  blames_bySpelling Checked.blames_ok (fun _ => Checked.blames_fault .text) v

theorem blames_wholeOfReal (x : Binary64) : (wholeOfReal x).Blames B := by
  unfold wholeOfReal
  split
  · exact Checked.blames_fault _
  · split
    · exact Checked.blames_fault _
    · split
      · exact Checked.blames_ok _
      · exact Checked.blames_fault _

theorem blames_whole (v : Value) : (whole v).Blames B := by
  refine blames_bySpelling (fun s => ?_) (fun u => ?_) v
  · unfold wholeOfText
    split <;> simp
  · split
    · exact Checked.blames_ok _
    · exact Checked.blames_ok _
    · exact blames_wholeOfReal _
    · exact Checked.blames_fault _

theorem blames_real (v : Value) : (real v).Blames B := by
  refine blames_bySpelling (fun s => ?_) (fun u => ?_) v
  · unfold realOfText
    split <;> simp
  · split <;> simp

theorem blames_number (v : Value) : (number v).Blames B := by
  unfold number
  split
  · exact Checked.blames_ok _
  · split
    · exact Checked.blames_ok _
    · exact Checked.blames_ok _
    · exact (((blames_whole _).under _).functorMap _).seq ((blames_real _).under _)

theorem blames_key (v : Value) : (key v).Blames B := by
  unfold key
  split
  · exact Checked.blames_ok _
  · exact Checked.blames_ok _
  · exact (((blames_text _).under _).functorMap _).seq ((blames_whole _).under _)

theorem blames_truthOfWhole (i : Int) : (truthOfWhole i).Blames B := by
  unfold truthOfWhole
  split
  · exact Checked.blames_ok _
  · split <;> simp

theorem blames_truth (v : Value) : (truth v).Blames B := by
  refine blames_bySpelling (fun s => ?_) (fun u => ?_) v
  · unfold truthOfText
    split <;> simp
  · split
    · exact Checked.blames_ok _
    · split
      · exact blames_truthOfWhole _
      · exact Checked.blames_fault _
    · split
      · exact blames_truthOfWhole _
      · exact Checked.blames_fault _
    · exact Checked.blames_fault _

theorem blames_mapping (v : Value) : (mapping v).Blames B := by
  unfold mapping
  split <;> simp

theorem blames_literal {α : Type} (ofName? : String → Option α) (v : Value) :
    (literal ofName? v).Blames B := by
  unfold literal
  split <;> simp

end Validate

theorem Effect.blames_ofFields? {B : String → Prop} {kind : ActionKind} {es : Dict}
    {checked : Checked Effect} (h : ofFields? kind es = some checked) : checked.Blames B := by
  have text {name : String} : ((Field.named name).required Validate.text es).Blames B :=
    Field.blames_required fun _ _ => Validate.blames_text _
  have text? {name : String} : ((Field.named name).optional Validate.text es).Blames B :=
    Field.blames_optional fun _ _ => Validate.blames_text _
  have dict? {name : String} : ((Field.named name).optional Validate.mapping es).Blames B :=
    Field.blames_optional fun _ _ => Validate.blames_mapping _
  cases kind <;> simp only [ofFields?, Option.some.injEq, reduceCtorEq] at h <;> subst h
  case navigate | showModal | trackEvent => exact (text.functorMap _).seq dict?
  case goBack => exact Checked.blames_ok _
  case openUrl =>
    exact (text.functorMap _).seq (Field.blames_optional fun _ _ => Validate.blames_truth _)
  case addToCart =>
    exact (text.functorMap _).seq (Field.blames_optional fun _ _ => Validate.blames_whole _)
  case updateCartQuantity =>
    exact (text.functorMap _).seq (Field.blames_required fun _ _ => Validate.blames_whole _)
  case removeFromCart | toggleFavorite => exact text.functorMap _
  case showToast =>
    exact ((text.functorMap _).seq
      (Field.blames_optional fun _ _ => Validate.blames_literal _ _)).seq
        (Field.blames_optional fun _ _ => Validate.blames_number _)
  case closeModal | refresh => exact text?.functorMap _
  case share => exact ((text?.functorMap _).seq text?).seq text?

namespace Value

/-- The types to blame are those of a `type` in the value, at any depth, that cannot be looked
up. -/
def Blames (B : String → Prop) (v : Value) : Prop :=
  v.Everywhere fun u => ∀ es tag t, u = .dict es → Entries.find? es "type" = some tag →
    tag.unhashable? = some t → B t

/-- Whatever stands under `type` in the value can be looked up. -/
def Lookable (v : Value) : Prop :=
  v.Everywhere fun u => ∀ es tag, u = .dict es → Entries.find? es "type" = some tag →
    tag.unhashable? = none

theorem Lookable.blames {v : Value} (h : v.Lookable) : v.Blames fun _ => False :=
  h.mono fun u all es tag t same found unhashable => by
    simp [all es tag same found] at unhashable

end Value

namespace Instruction

variable {B : String → Prop} {v : Value} {es : Dict}

theorem kindOf_eq_error {r : Rejection} :
    kindOf es = .error r ↔
      ∃ tag t, Entries.find? es "type" = some tag ∧ tag.unhashable? = some t ∧
        r = .unhashable t := by
  rw [kindOf]
  cases Entries.find? es "type" with
  | none => simp
  | some tag => cases h : tag.unhashable? <;> simp [h, eq_comm]

theorem blames_ofValue? (h : (Checked.ofExcept (ofValue v)).Blames B) :
    (Checked.ofExcept (ofValue? v)).Blames B := by
  by_cases null : v = .null
  · simp [null, Checked.ofExcept]
  · rw [ofValue?_of_ne_null null]
    exact Checked.blames_ofExcept_map h some

theorem blames_listOfValues {vs : List Value}
    (h : ∀ v ∈ vs, (Checked.ofExcept (ofValue v)).Blames B) :
    (Checked.ofExcept (listOfValues vs)).Blames B := by
  induction vs with
  | nil => simp [Checked.ofExcept]
  | cons v vs ih =>
      simp only [List.mem_cons, forall_eq_or_imp] at h
      rw [listOfValues]
      cases first : ofValue v with
      | error r => simpa [first, Checked.blames_ofExcept] using h.1
      | ok i => exact Checked.blames_ofExcept_map (ih h.2) (i :: ·)

theorem blames_listOfValue (h : ∀ u ∈ v.parts, (Checked.ofExcept (ofValue u)).Blames B) :
    (Checked.ofExcept (listOfValue v)).Blames B := by
  unfold listOfValue
  split
  · exact blames_listOfValues h
  · exact blames_listOfValues h
  · exact Checked.blames_fault _

theorem blames_mapOfEntries {es : Dict}
    (h : ∀ e ∈ es, (Checked.ofExcept (ofValue e.2)).Blames B) :
    (Checked.ofExcept (mapOfEntries es)).Blames B := by
  induction es with
  | nil => simp [mapOfEntries, Checked.ofExcept]
  | cons e es ih =>
      obtain ⟨k, v⟩ := e
      simp only [List.mem_cons, forall_eq_or_imp] at h
      rw [mapOfEntries]
      cases first : ofValue v with
      | error r => simpa [first, Checked.blames_ofExcept] using h.1
      | ok i => exact Checked.blames_ofExcept_map (ih h.2) ((k, i) :: ·)

end Instruction

-- What is read from the values of a mapping, and from the members of those that are lists.
theorem Action.blames_ofFields {B : String → Prop} {kind : ActionKind} {es : Dict}
    (here : ∀ e ∈ es, (Checked.ofExcept (Instruction.ofValue e.2)).Blames B)
    (inside : ∀ e ∈ es, ∀ u ∈ e.2.parts, (Checked.ofExcept (Instruction.ofValue u)).Blames B) :
    (ofFields kind es).Blames B := by
  have text {name : String} : ((Field.named name).required Validate.text es).Blames B :=
    Field.blames_required fun _ _ => Validate.blames_text _
  have nested {name : String} {absent : Checked (Option Instruction)}
      (missing : absent.Blames B) : (Instruction.inField name absent es).Blames B :=
    Field.blames_readWith missing fun e member => Instruction.blames_ofValue? (here e member)
  cases effect : Effect.ofFields? kind es with
  | some checked =>
      rw [ofFields_of_effect effect]
      exact (Effect.blames_ofFields? effect).map _
  | none =>
      cases kind <;> simp only [Effect.ofFields?, reduceCtorEq] at effect
      case apiCall =>
        rw [ofFields, Effect.ofFields?]
        exact ((((text.functorMap _).seq
          (Field.blames_optional fun _ _ => Validate.blames_literal _ _)).seq
          (Field.blames_optional fun _ _ => Validate.blames_mapping _)).seq
          (nested (Checked.blames_ok none))).seq (nested (Checked.blames_ok none))
      case sequence =>
        rw [ofFields, Effect.ofFields?]
        exact (Field.blames_readWith (Checked.blames_ok []) fun e member =>
          Instruction.blames_listOfValue (inside e member)).functorMap _
      case conditional =>
        rw [ofFields, Effect.ofFields?]
        exact ((text.functorMap _).seq (nested (Field.blames_missing _))).seq
          (nested (Checked.blames_ok none))
      case noop => simp

namespace Instruction

variable {B : String → Prop} {v : Value}

theorem blames_ofValue (h : v.Blames B) : (Checked.ofExcept (ofValue v)).Blames B := by
  -- Members of a sequence are parts of a part, so both are carried along.
  suffices both : (Checked.ofExcept (ofValue v)).Blames B ∧
      ∀ u ∈ v.parts, (Checked.ofExcept (ofValue u)).Blames B from both.1
  induction h with
  | @intro v tag _ ih =>
      refine ⟨?_, fun u part => (ih u part).1⟩
      cases v with
      | dict es =>
          have entry (e : String × Value) (member : e ∈ es) : e.2 ∈ (Value.dict es).parts :=
            List.mem_map.mpr ⟨e, member, rfl⟩
          rw [ofValue]
          cases hk : kindOf es with
          | error r =>
              obtain ⟨found, t, there, unhashable, rfl⟩ := kindOf_eq_error.mp hk
              rw [Checked.blames_ofExcept]
              rintro _ ⟨⟩
              exact tag es found t rfl there unhashable
          | ok o =>
              cases o with
              | none => simp [Checked.ofExcept]
              | some kind =>
                  have fields : (Action.ofFields kind es).Blames B :=
                    Action.blames_ofFields (fun e member => (ih e.2 (entry e member)).1)
                      fun e member => (ih e.2 (entry e member)).2
                  refine Checked.blames_ofExcept_map ?_ known
                  rw [Checked.blames_ofExcept]
                  exact Checked.blames_toExcept (fields.under _)
      | _ => simp [ofValue, Checked.ofExcept, Checked.fault]

theorem blames_mapOfValue? (h : v.Blames B) : (Checked.ofExcept (mapOfValue? v)).Blames B := by
  cases v with
  | dict es =>
      rw [mapOfValue?]
      exact Checked.blames_ofExcept_map
        (blames_mapOfEntries fun e member => blames_ofValue (h.entry member)) some
  | _ => simp [mapOfValue?, Checked.ofExcept, Checked.fault]

end Instruction

namespace Validate

variable {α : Type} {B : String → Prop}

theorem blames_instruction? {v : Value} (h : v.Blames B) : (instruction? v).Blames B :=
  Instruction.blames_ofValue? (Instruction.blames_ofValue h)

-- A model that stands for a list has none but pairs as members, which no model is read from.
theorem blames_listOf {check : Value → Checked α} {v : Value}
    (parts : ∀ u ∈ v.parts, (check u).Blames B)
    (pairs : ∀ name u, (check (.tuple [.str name, u])).Blames B) :
    (listOf check v).Blames B := by
  unfold listOf
  split
  · next vs listed =>
      refine Checked.blames_items (fun u member => ?_) 0
      cases v <;> simp only [listed?, Option.some.injEq, Value.model?, Option.map_none,
        Option.map_some, reduceCtorEq] at listed <;> subst listed
      case list | tuple => exact parts u member
      all_goals
        obtain ⟨e, -, rfl⟩ := List.mem_map.mp member
        exact pairs e.1 e.2
  · exact Checked.blames_fault _

end Validate

namespace Node

variable {B : String → Prop} {v : Value}

theorem blames_ofFields {child : Value → Checked Node} {es : Dict} (h : (Value.dict es).Blames B)
    (children : ∀ e ∈ es, (Validate.listOf child e.2).Blames B) :
    (ofFields child es).Blames B := by
  have actions : ((Field.named "actions").withDefault none Validate.actionMap? es).Blames B :=
    Field.blames_withDefault fun e member => Instruction.blames_mapOfValue? (h.entry member)
  exact (((((((Field.blames_required fun _ _ => Validate.blames_text _).functorMap _).seq
    (Field.blames_withDefault fun _ _ => Validate.blames_mapping _)).seq actions).seq
    (Field.blames_optional fun _ _ => Validate.blames_key _)).seq
    (Field.blames_optional children)).seq
    (Field.blames_optional fun _ _ => Validate.blames_text _)).seq
    (Field.blames_optional fun _ _ => Validate.blames_mapping _)

theorem blames_within (levels : Nat) (h : v.Blames B) : (within levels v).Blames B := by
  induction levels generalizing v with
  | zero => exact Checked.blames_fault _
  | succ levels ih =>
      unfold within
      split
      · exact Checked.blames_ok _
      · next es =>
          refine blames_ofFields h fun e member => Validate.blames_listOf ?_ fun name u => ?_
          · exact fun u part => ih ((h.entry member).inside u part)
          · cases levels <;> simp [within]
      · exact Checked.blames_fault _

theorem blames_ofValue (h : v.Blames B) : (ofValue v).Blames B := blames_within maxLevels h

theorem blames_ofPart (h : v.Blames B) : (ofPart v).Blames B := blames_within (maxLevels - 1) h

-- A list of nodes inside a section.
theorem blames_listOf (h : v.Blames B) : (Validate.listOf ofPart v).Blames B :=
  Validate.blames_listOf (fun u part => blames_ofPart (h.inside u part)) fun name u => by
    simp [ofPart, within, maxLevels]

end Node

theorem Section.blames_ofValue {B : String → Prop} {v : Value} (h : v.Blames B) :
    (ofValue v).Blames B := by
  unfold ofValue
  split
  · exact Checked.blames_ok _
  · next es =>
      have text? {name : String} : ((Field.named name).optional Validate.text es).Blames B :=
        Field.blames_optional fun _ _ => Validate.blames_text _
      have dict? {name : String} : ((Field.named name).optional Validate.mapping es).Blames B :=
        Field.blames_optional fun _ _ => Validate.blames_mapping _
      have truth? {name : String} : ((Field.named name).optional Validate.truth es).Blames B :=
        Field.blames_optional fun _ _ => Validate.blames_truth _
      have instruction? {name : String} :
          ((Field.named name).withDefault none Validate.instruction? es).Blames B :=
        Field.blames_withDefault fun e member => Validate.blames_instruction? (h.entry member)
      have components :
          ((Field.named "components").required (Validate.listOf Node.ofPart) es).Blames B :=
        Field.blames_required fun e member => Node.blames_listOf (h.entry member)
      exact (((((((((text?.functorMap _).seq text?).seq text?).seq components).seq dict?).seq
        dict?).seq truth?).seq truth?).seq instruction?).seq instruction?
  · exact Checked.blames_fault _

theorem Screen.blames_ofValue {B : String → Prop} {v : Value} (h : v.Blames B) :
    (ofValue v).Blames B := by
  unfold ofValue
  split
  · exact Checked.blames_ok _
  · next es =>
      have text? {name : String} : ((Field.named name).optional Validate.text es).Blames B :=
        Field.blames_optional fun _ _ => Validate.blames_text _
      have node? {name : String} : ((Field.named name).optional Node.ofPart es).Blames B :=
        Field.blames_optional fun e member => Node.blames_ofPart (h.entry member)
      have sections :
          ((Field.named "sections").required (Validate.listOf Section.ofValue) es).Blames B :=
        Field.blames_required fun e member => Validate.blames_listOf
          (fun u part => Section.blames_ofValue ((h.entry member).inside u part))
          fun _ _ => Checked.blames_fault _
      have onRefresh :
          ((Field.named "on_refresh").withDefault none Validate.instruction? es).Blames B :=
        Field.blames_withDefault fun e member => Validate.blames_instruction? (h.entry member)
      exact ((((((((Field.blames_required fun _ _ => Validate.blames_text _).functorMap _).seq
        text?).seq sections).seq node?).seq node?).seq onRefresh).seq
        (Field.blames_withDefault fun _ _ => Checked.blames_ok _)).seq text?
  · exact Checked.blames_fault _

end ServerUI
