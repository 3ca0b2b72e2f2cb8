import Mathlib.Data.List.Forall2
import ServerUI.Proofs.Descriptor.Parts

/-!
How what is read of a mapping depends on its fields. The value of a field that holds actions or
descriptors decides what stands under that field in what is read, and nothing else of it.
-/

set_option autoImplicit false

namespace ServerUI

namespace Field

def Disjoint (f g : Field) : Prop :=
  f.wire ≠ g.wire ∧ f.wire ≠ g.name ∧ f.name ≠ g.wire ∧ f.name ≠ g.name

instance (f g : Field) : Decidable (f.Disjoint g) := inferInstanceAs (Decidable (_ ∧ _))

theorem Disjoint.symm {f g : Field} (h : f.Disjoint g) : g.Disjoint f :=
  ⟨h.1.symm, h.2.2.1.symm, h.2.1.symm, h.2.2.2.symm⟩

instance {α : Type} (name : α → String) :
    Std.Symm fun a b => (named (name a)).Disjoint (named (name b)) :=
  ⟨fun _ _ => Disjoint.symm⟩

/-- In the second of two mappings `v` is read for this field, and for each field that it has no
spelling in common with what is read in the first. -/
structure Changes (f : Field) (v : Value) (es es' : Dict) : Prop where
  own : f.value? es' = some v
  others : ∀ g, f.Disjoint g → g.value? es' = g.value? es

variable {f : Field} {es es' : Dict} {k : String} {v : Value}

theorem spelling_of_source? (found : f.source? es = some (k, v)) :
    es.find? k = some v ∧ (k = f.wire ∨ es.find? f.wire = none ∧ k = f.name) := by
  rw [source?_eq] at found
  cases wire : Entries.find? es f.wire with
  | none =>
      simp only [wire, Option.map_none, Option.none_or, Option.map_eq_some_iff,
        Prod.mk.injEq] at found
      obtain ⟨_, named, rfl, rfl⟩ := found
      exact ⟨named, .inr ⟨rfl, rfl⟩⟩
  | some w =>
      simp only [wire, Option.map_some, Option.some_or, Option.some.injEq, Prod.mk.injEq] at found
      obtain ⟨rfl, rfl⟩ := found
      exact ⟨wire, .inl rfl⟩

theorem value?_of_source? (found : f.source? es = some (k, v)) : f.value? es = some v := by
  rw [value?_eq_source?, found]
  rfl

theorem kindOf_of_value? (same : (named "type").value? es' = (named "type").value? es) :
    Instruction.kindOf es' = Instruction.kindOf es := by
  have plain : camelCase "type" = "type" := by decide
  simp only [value?_eq, named, plain, Option.or_self] at same
  rw [Instruction.kindOf, Instruction.kindOf, same]

theorem changes_insert (found : f.source? es = some (k, v)) (v' : Value) :
    f.Changes v' es (es.insert k v') := by
  obtain ⟨-, spelled⟩ := spelling_of_source? found
  refine ⟨?_, fun g apart => ?_⟩
  · rw [value?_eq]
    rcases spelled with rfl | ⟨absent, rfl⟩
    · simp
    · by_cases same : f.wire = f.name
      · simp [same]
      · simp [Entries.find?_insert_of_ne es v' same, absent]
  · obtain ⟨ww, wn, nw, nn⟩ := apart
    have away : g.wire ≠ k ∧ g.name ≠ k := by
      rcases spelled with rfl | ⟨-, rfl⟩
      · exact ⟨ww.symm, wn.symm⟩
      · exact ⟨nw.symm, nn.symm⟩
    rw [value?_eq, value?_eq, Entries.find?_insert_of_ne es v' away.1,
      Entries.find?_insert_of_ne es v' away.2]

theorem Changes.kindOf (h : f.Changes v es es') (apart : f.Disjoint (named "type")) :
    Instruction.kindOf es' = Instruction.kindOf es :=
  kindOf_of_value? (h.others _ apart)

end Field

namespace Shape

/-- The fields that hold actions or descriptors. -/
def fields (es : Dict) : Shape → List (String × Shape)
  | .action =>
      match Instruction.kindOf es with
      | .ok (some .apiCall) => [("on_success", .action), ("on_error", .action)]
      | .ok (some .sequence) => [("actions", .list true .action)]
      | .ok (some .conditional) => [("on_true", .action), ("on_false", .action)]
      | _ => []
  | .component => [("actions", .map .action), ("children", .list false .component)]
  | .section =>
      [("components", .list false .component), ("on_header_press", .action),
        ("see_all_action", .action)]
  | .screen =>
      [("sections", .list false .section), ("header", .component), ("footer", .component),
        ("on_refresh", .action)]
  | .list .. | .map _ => []

/-- What JSON has to hold for there to be actions in it where a shape is read. -/
def Suits : Shape → Value → Prop
  | .action, _ => True
  | .list .., v => ∃ vs, v = .list vs
  | _, v => ∃ es, v = .dict es

/-- What a part is read as, where nodes may be `levels` high. -/
def Reads (levels : Nat) : Shape → Value → Value → Prop
  | .action, v, u => ∃ i, Instruction.ofValue v = .ok i ∧ i.toValue = u
  | .component, v, u => ∃ n, Node.within levels v = .ok n ∧ .node n = u
  | .section, v, u => ∃ s, Section.ofValue v = .ok s ∧ .section s = u
  | .screen, v, u => ∃ s, Screen.ofValue v = .ok s ∧ .screen s = u
  | .list fixed item, v, u =>
      ∃ vs us, v = .list vs ∧ u = (if fixed then .tuple us else .list us) ∧
        List.Forall₂ (item.Reads levels) vs us
  | .map entry, v, u =>
      ∃ es fs, v = .dict es ∧ u = .dict fs ∧
        List.Forall₂ (fun e f => e.1 = f.1 ∧ entry.Reads levels e.2 f.2) es fs

end Shape

namespace Field

variable {f : Field} {es : Dict} {v : Value} {α : Type} {check : Value → Checked α}

theorem of_required {a : α} (read : f.required check es = .ok a) (found : f.value? es = some v) :
    check v = .ok a := by
  simpa [found] using read

theorem of_optional {o : Option α} (read : f.optional check es = .ok o)
    (found : f.value? es = some v) (given : v.isNull = false) :
    ∃ a, check v = .ok a ∧ o = some a := by
  simpa [found, given] using read

theorem of_withDefault {d a : α} (read : f.withDefault d check es = .ok a)
    (found : f.value? es = some v) : check v = .ok a := by
  simpa [withDefault_eq_ok, found] using read

end Field

theorem Field.readWith_congr {f : Field} {es es' : Dict} {α : Type} {check : Value → Checked α}
    {absent : Checked α} {a : α} (same : f.value? es' = f.value? es) :
    f.readWith es' absent (fun v _ => check v) = .ok a ↔
      f.readWith es absent (fun v _ => check v) = .ok a := by
  rw [readWith_eq_ok, readWith_eq_ok, same]

namespace Field.Changes

variable {f g : Field} {es es' : Dict} {v : Value} {α : Type} {check : Value → Checked α}

theorem readWith (h : f.Changes v es es') (apart : f.Disjoint g) {absent : Checked α} {a : α} :
    g.readWith es' absent (fun u _ => check u) = .ok a ↔
      g.readWith es absent (fun u _ => check u) = .ok a :=
  readWith_congr (h.others g apart)

theorem required (h : f.Changes v es es') (apart : f.Disjoint g) {a : α} :
    g.required check es' = .ok a ↔ g.required check es = .ok a :=
  h.readWith apart

theorem optional (h : f.Changes v es es') (apart : f.Disjoint g) {o : Option α} :
    g.optional check es' = .ok o ↔ g.optional check es = .ok o :=
  h.readWith apart

theorem withDefault (h : f.Changes v es es') (apart : f.Disjoint g) {d a : α} :
    g.withDefault d check es' = .ok a ↔ g.withDefault d check es = .ok a :=
  h.readWith apart

theorem inField {name : String} (h : f.Changes v es es') (apart : f.Disjoint (named name))
    {absent : Checked (Option Instruction)} {o : Option Instruction} :
    Instruction.inField name absent es' = .ok o ↔ Instruction.inField name absent es = .ok o :=
  h.readWith apart

theorem required_own (h : f.Changes v es es') {a : α} (made : check v = .ok a) :
    f.required check es' = .ok a :=
  required_eq_ok.mpr ⟨v, h.own, made⟩

theorem optional_own (h : f.Changes v es es') (given : v.isNull = false) {a : α}
    (made : check v = .ok a) : f.optional check es' = .ok (some a) := by
  rw [optional_eq_ok, h.own]
  simp [given, made]

theorem withDefault_own (h : f.Changes v es es') {d a : α} (made : check v = .ok a) :
    f.withDefault d check es' = .ok a := by
  rw [withDefault_eq_ok, h.own]
  exact made

theorem inField_own {name : String} (h : (named name).Changes v es es')
    {absent : Checked (Option Instruction)} {i : Instruction}
    (made : Instruction.ofValue v = .ok i) :
    Instruction.inField name absent es' = .ok (some i) := by
  rw [Instruction.inField_eq_ok, h.own]
  exact Instruction.ofValue?_eq_ok.mpr (.inr ⟨i, made, rfl⟩)

end Field.Changes

section Lists

variable {α β γ : Type} {R : α → β → Prop}

theorem forall₂_exists_iff {f : β → γ} {as : List α} {cs : List γ} :
    List.Forall₂ (fun a c => ∃ b, R a b ∧ f b = c) as cs ↔
      ∃ bs, List.Forall₂ R as bs ∧ bs.map f = cs := by
  constructor
  · intro h
    induction h with
    | nil => exact ⟨[], .nil, rfl⟩
    | cons first _ ih =>
        obtain ⟨b, related, rfl⟩ := first
        obtain ⟨bs, all, rfl⟩ := ih
        exact ⟨b :: bs, .cons related all, rfl⟩
  · rintro ⟨bs, all, rfl⟩
    exact List.forall₂_map_right_iff.mpr (all.imp fun _ b related => ⟨b, related, rfl⟩)

end Lists

theorem Checked.items_eq_ok_iff {α β : Type} {check : α → Checked β} (start : Nat) {as : List α}
    {bs : List β} :
    items check start as = .ok bs ↔ List.Forall₂ (fun a b => check a = .ok b) as bs := by
  induction as generalizing start bs with
  | nil => simp [items, eq_comm]
  | cons a as ih => simp [items_cons_eq_ok, List.forall₂_cons_left_iff, ih]

namespace Instruction

theorem listOfValues_eq_ok_iff {vs : List Value} {is : List Instruction} :
    listOfValues vs = .ok is ↔ List.Forall₂ (fun v i => ofValue v = .ok i) vs is := by
  induction vs generalizing is with
  | nil => simp [eq_comm]
  | cons v vs ih => simp [listOfValues_cons_eq_ok, List.forall₂_cons_left_iff, ih]

theorem mapOfEntries_eq_ok_iff {es : Dict} {is : Entries Instruction} :
    mapOfEntries es = .ok is ↔
      List.Forall₂ (fun e i => e.1 = i.1 ∧ ofValue e.2 = .ok i.2) es is := by
  induction es generalizing is with
  | nil => simp [mapOfEntries, eq_comm]
  | cons e es ih =>
      obtain ⟨k, v⟩ := e
      simp [mapOfEntries_cons_eq_ok, List.forall₂_cons_left_iff, ih]

end Instruction

namespace Shape

/-- What stands in a model under a field was read from the value of that field, unless that is null,
and what is read from another value there takes its place and no other. -/
def Isolates (shape inner : Shape) (levels : Nat) (es : Dict) (name : String) (v u : Value) :
    Prop :=
  ∃ below model fields w, u.model? = some (model, fields) ∧ fields.find? name = some w ∧
    (v = .null ∨ inner.Reads below v w) ∧
    ∀ v' w' es', (Field.named name).Changes v' es es' → inner.Reads below v' w' →
      ∃ u', shape.Reads levels (.dict es') u' ∧ u'.model? = some (model, fields.insert name w')

variable {levels : Nat} {v w : Value}

theorem reads_of_inField {name : String} {absent : Checked (Option Instruction)} {es : Dict}
    {o : Option Instruction} (read : Instruction.inField name absent es = .ok o)
    (found : (Field.named name).value? es = some v) :
    v = .null ∨ action.Reads levels v (.ofOption (·.toValue) o) := by
  rw [Instruction.inField_eq_ok, found] at read
  rcases Instruction.ofValue?_eq_ok.mp read with ⟨null, -⟩ | ⟨i, made, rfl⟩
  · exact .inl null
  · exact .inr ⟨i, made, rfl⟩

theorem reads_list_iff {α : Type} {check : Value → Checked α} {f : α → Value} {item : Shape}
    (h : ∀ v w, item.Reads levels v w ↔ ∃ a, check v = .ok a ∧ f a = w) :
    (list false item).Reads levels v w ↔
      ∃ vs as, v = .list vs ∧ Validate.listOf check v = .ok as ∧ .list (as.map f) = w := by
  have same : item.Reads levels = fun v w => ∃ a, check v = .ok a ∧ f a = w := by
    funext v w
    exact propext (h v w)
  rw [Reads, same]
  simp only [forall₂_exists_iff, ← Checked.items_eq_ok_iff 0]
  constructor
  · rintro ⟨vs, _, rfl, rfl, as, read, rfl⟩
    exact ⟨vs, as, rfl, read, rfl⟩
  · rintro ⟨vs, as, rfl, read, rfl⟩
    exact ⟨vs, _, rfl, rfl, as, read, rfl⟩

theorem reads_nodes_iff :
    (list false component).Reads levels v w ↔
      ∃ vs ns, v = .list vs ∧ Validate.listOf (Node.within levels) v = .ok ns ∧
        .list (ns.map .node) = w :=
  reads_list_iff fun _ _ => .rfl

theorem reads_sections_iff :
    (list false «section»).Reads levels v w ↔
      ∃ vs ss, v = .list vs ∧ Validate.listOf Section.ofValue v = .ok ss ∧
        .list (ss.map .section) = w :=
  reads_list_iff fun _ _ => .rfl

theorem reads_sequence_iff :
    (list true action).Reads levels v w ↔
      ∃ vs is, v = .list vs ∧ Instruction.listOfValue v = .ok is ∧
        .tuple (is.map (·.toValue)) = w := by
  have same : action.Reads levels = fun v w => ∃ i, Instruction.ofValue v = .ok i ∧ i.toValue = w :=
    rfl
  rw [Reads, same]
  simp only [forall₂_exists_iff, ← Instruction.listOfValues_eq_ok_iff]
  constructor
  · rintro ⟨vs, _, rfl, rfl, is, read, rfl⟩
    exact ⟨vs, is, rfl, by simpa [Instruction.listOfValue] using read, rfl⟩
  · rintro ⟨vs, is, rfl, read, rfl⟩
    exact ⟨vs, _, rfl, rfl, is, by simpa [Instruction.listOfValue] using read, rfl⟩

theorem reads_map_iff :
    (map action).Reads levels v w ↔
      ∃ is, Instruction.mapOfValue? v = .ok (some is) ∧
        .dict (is.map fun e => (e.1, e.2.toValue)) = w := by
  have same : (fun (e f : String × Value) => e.1 = f.1 ∧ action.Reads levels e.2 f.2) =
      fun e f => ∃ i : String × Instruction, (e.1 = i.1 ∧ Instruction.ofValue e.2 = .ok i.2) ∧
        (i.1, i.2.toValue) = f := by
    funext ⟨k, v⟩ ⟨k', w⟩
    simp [Reads, and_assoc, and_left_comm]
  rw [Reads, same]
  simp only [forall₂_exists_iff, ← Instruction.mapOfEntries_eq_ok_iff,
    Instruction.mapOfValue?_eq_ok, Option.some.injEq, reduceCtorEq, and_false, false_or]
  constructor
  · rintro ⟨es, _, rfl, rfl, is, read, rfl⟩
    exact ⟨is, ⟨es, is, rfl, read, rfl⟩, rfl⟩
  · rintro ⟨is, ⟨es, _, rfl, read, rfl⟩, rfl⟩
    exact ⟨es, _, rfl, rfl, is, read, rfl⟩

end Shape

theorem Action.isolates {es : Dict} {kind : ActionKind} {a : Action} {name : String} {v : Value}
    {inner : Shape} {levels : Nat}
    (hk : Instruction.kindOf es = .ok (some kind)) (read : ofFields kind es = .ok a)
    (holds : (name, inner) ∈ Shape.action.fields es)
    (found : (Field.named name).value? es = some v) (suits : inner.Suits v) :
    Shape.action.Isolates inner levels es name v (.action a) := by
  -- No field that holds actions is spelled as the tag, so the kind stays.
  have reads {es' : Dict} {v' : Value} {a' : Action} (h : (Field.named name).Changes v' es es')
      (apart : (Field.named name).Disjoint (Field.named "type"))
      (made : ofFields kind es' = .ok a') : Shape.action.Reads levels (.dict es') (.action a') :=
    ⟨.known a', Instruction.ofValue_of_ofFields ((h.kindOf apart).trans hk) made, rfl⟩
  rw [Shape.fields, hk] at holds
  cases kind <;> simp only [List.mem_cons, List.not_mem_nil, or_false, Prod.mk.injEq] at holds
  case apiCall =>
    obtain ⟨endpoint, method, body, onSuccess, onError, rfl, readEndpoint, readMethod, readBody,
      readSuccess, readError⟩ := ofFields_apiCall_eq_ok.mp read
    rcases holds with ⟨rfl, rfl⟩ | ⟨rfl, rfl⟩
    · refine ⟨levels, _, _, _, rfl, rfl, Shape.reads_of_inField readSuccess found, ?_⟩
      rintro v' _ es' h ⟨i, made, rfl⟩
      refine ⟨.action (.apiCall endpoint method body (some i) onError),
        reads h (by decide +kernel) (ofFields_apiCall_eq_ok.mpr ⟨_, _, _, _, _, rfl, ?_⟩), rfl⟩
      simp (disch := decide +kernel) only [h.required, h.optional, h.inField]
      exact ⟨readEndpoint, readMethod, readBody, h.inField_own made, readError⟩
    · refine ⟨levels, _, _, _, rfl, rfl, Shape.reads_of_inField readError found, ?_⟩
      rintro v' _ es' h ⟨i, made, rfl⟩
      refine ⟨.action (.apiCall endpoint method body onSuccess (some i)),
        reads h (by decide +kernel) (ofFields_apiCall_eq_ok.mpr ⟨_, _, _, _, _, rfl, ?_⟩), rfl⟩
      simp (disch := decide +kernel) only [h.required, h.optional, h.inField]
      exact ⟨readEndpoint, readMethod, readBody, readSuccess, h.inField_own made⟩
  case sequence =>
    obtain ⟨rfl, rfl⟩ := holds
    obtain ⟨is, rfl, listed⟩ := ofFields_sequence_eq_ok.mp read
    rw [found] at listed
    obtain ⟨vs, rfl⟩ := suits
    have given : Shape.Reads levels (.list true .action) (.list vs) (.tuple (is.map (·.toValue))) :=
      Shape.reads_sequence_iff.mpr ⟨vs, is, rfl, listed, rfl⟩
    refine ⟨levels, _, _, _, rfl, rfl, .inr given, fun v' w' es' h made => ?_⟩
    obtain ⟨vs', is', rfl, listed', rfl⟩ := Shape.reads_sequence_iff.mp made
    refine ⟨.action (.sequence is'),
      reads h (by decide +kernel) (ofFields_sequence_eq_ok.mpr ⟨is', rfl, ?_⟩), rfl⟩
    rw [h.own]
    exact listed'
  case conditional =>
    obtain ⟨condition, onTrue, onFalse, rfl, readCondition, readTrue, readFalse⟩ :=
      ofFields_conditional_eq_ok.mp read
    rcases holds with ⟨rfl, rfl⟩ | ⟨rfl, rfl⟩
    · refine ⟨levels, _, _, _, rfl, rfl, Shape.reads_of_inField readTrue found, ?_⟩
      rintro v' _ es' h ⟨i, made, rfl⟩
      refine ⟨.action (.conditional condition (some i) onFalse),
        reads h (by decide +kernel) (ofFields_conditional_eq_ok.mpr ⟨_, _, _, rfl, ?_⟩), rfl⟩
      simp (disch := decide +kernel) only [h.required, h.inField]
      exact ⟨readCondition, h.inField_own made, readFalse⟩
    · refine ⟨levels, _, _, _, rfl, rfl, Shape.reads_of_inField readFalse found, ?_⟩
      rintro v' _ es' h ⟨i, made, rfl⟩
      refine ⟨.action (.conditional condition onTrue (some i)),
        reads h (by decide +kernel) (ofFields_conditional_eq_ok.mpr ⟨_, _, _, rfl, ?_⟩), rfl⟩
      simp (disch := decide +kernel) only [h.required, h.inField]
      exact ⟨readCondition, readTrue, h.inField_own made⟩

theorem Node.isolates {es : Dict} {n : Node} {name : String} {v : Value} {inner : Shape}
    {levels : Nat} (read : ofFields (within levels) es = .ok n)
    (holds : (name, inner) ∈ Shape.component.fields es)
    (found : (Field.named name).value? es = some v) (suits : inner.Suits v) :
    Shape.component.Isolates inner (levels + 1) es name v (.node n) := by
  have reads {es' : Dict} {n' : Node} (made : ofFields (within levels) es' = .ok n') :
      Shape.component.Reads (levels + 1) (.dict es') (.node n') := ⟨n', made, rfl⟩
  obtain ⟨type, props, actions, key, children, condition, style⟩ := ofFields_eq_ok.mp read
  simp only [Shape.fields, List.mem_cons, List.not_mem_nil, or_false, Prod.mk.injEq] at holds
  rcases holds with ⟨rfl, rfl⟩ | ⟨rfl, rfl⟩
  · obtain ⟨given, rfl⟩ := suits
    have mapped := Checked.ofExcept_eq_ok.mp (Field.of_withDefault actions found)
    obtain ⟨is, same⟩ : ∃ is, n.actions = some is := by
      rcases Instruction.mapOfValue?_eq_ok.mp mapped with ⟨null, -⟩ | ⟨-, is, -, -, same⟩
      · cases null
      · exact ⟨is, same⟩
    rw [same] at mapped
    refine ⟨levels, _, _, .dict (is.map fun e => (e.1, e.2.toValue)), rfl,
      by simp [fields, Entries.find?_cons, same, Value.ofOption],
      .inr (Shape.reads_map_iff.mpr ⟨is, mapped, rfl⟩), fun v' w' es' h made => ?_⟩
    obtain ⟨is', mapped', rfl⟩ := Shape.reads_map_iff.mp made
    refine ⟨.node { n with actions := some is' }, reads (ofFields_eq_ok.mpr ?_), rfl⟩
    simp (disch := decide +kernel) only [h.required, h.optional, h.withDefault]
    exact ⟨type, props, h.withDefault_own (Checked.ofExcept_eq_ok.mpr mapped'), key, children,
      condition, style⟩
  · obtain ⟨vs, rfl⟩ := suits
    obtain ⟨ns, listed, same⟩ := Field.of_optional children found rfl
    refine ⟨levels, _, _, .list (ns.map .node), rfl,
      by simp [fields, Entries.find?_cons, same, Value.ofOption],
      .inr (Shape.reads_nodes_iff.mpr ⟨vs, ns, rfl, listed, rfl⟩), fun v' w' es' h made => ?_⟩
    obtain ⟨vs', ns', rfl, listed', rfl⟩ := Shape.reads_nodes_iff.mp made
    refine ⟨.node { n with children := some ns' }, reads (ofFields_eq_ok.mpr ?_), rfl⟩
    simp (disch := decide +kernel) only [h.required, h.optional, h.withDefault]
    exact ⟨type, props, actions, key, h.optional_own rfl listed', condition, style⟩

theorem Section.isolates {es : Dict} {s : Section} {name : String} {v : Value} {inner : Shape}
    {levels : Nat} (read : ofFields es = .ok s)
    (holds : (name, inner) ∈ Shape.section.fields es)
    (found : (Field.named name).value? es = some v) (suits : inner.Suits v) :
    Shape.section.Isolates inner levels es name v (.section s) := by
  have reads {es' : Dict} {s' : Section} (made : ofFields es' = .ok s') :
      Shape.section.Reads levels (.dict es') (.section s') := ⟨s', made, rfl⟩
  obtain ⟨id, type, title, components, color, style, collapsible, collapsed, header, all⟩ :=
    ofFields_eq_ok.mp read
  simp only [Shape.fields, List.mem_cons, List.not_mem_nil, or_false, Prod.mk.injEq] at holds
  rcases holds with ⟨rfl, rfl⟩ | ⟨rfl, rfl⟩ | ⟨rfl, rfl⟩
  · obtain ⟨vs, rfl⟩ := suits
    have listed := Field.of_required components found
    have given : (Shape.list false .component).Reads (Node.maxLevels - 1) (.list vs)
        (.list (s.components.map .node)) :=
      Shape.reads_nodes_iff.mpr ⟨vs, _, rfl, listed, rfl⟩
    refine ⟨Node.maxLevels - 1, _, _, _, rfl, rfl, .inr given, fun v' w' es' h made => ?_⟩
    obtain ⟨vs', ns', rfl, listed', rfl⟩ := Shape.reads_nodes_iff.mp made
    refine ⟨.section { s with components := ns' }, reads (ofFields_eq_ok.mpr ?_), rfl⟩
    simp (disch := decide +kernel) only [h.optional, h.withDefault]
    exact ⟨id, type, title, h.required_own listed', color, style, collapsible, collapsed, header,
      all⟩
  · refine ⟨levels, _, _, _, rfl, rfl, Shape.reads_of_inField header found, ?_⟩
    rintro v' _ es' h ⟨i, made, rfl⟩
    refine ⟨.section { s with onHeaderPress := some i }, reads (ofFields_eq_ok.mpr ?_), rfl⟩
    simp (disch := decide +kernel) only [h.required, h.optional, h.withDefault]
    exact ⟨id, type, title, components, color, style, collapsible, collapsed, h.inField_own made,
      all⟩
  · refine ⟨levels, _, _, _, rfl, rfl, Shape.reads_of_inField all found, ?_⟩
    rintro v' _ es' h ⟨i, made, rfl⟩
    refine ⟨.section { s with seeAllAction := some i }, reads (ofFields_eq_ok.mpr ?_), rfl⟩
    simp (disch := decide +kernel) only [h.required, h.optional, h.withDefault]
    exact ⟨id, type, title, components, color, style, collapsible, collapsed, header,
      h.inField_own made⟩

theorem Node.isNull_of_within {levels : Nat} {v : Value} {n : Node} (h : within levels v = .ok n) :
    v.isNull = false := by
  rcases within_eq_ok h with rfl | ⟨_, _, rfl, -⟩ <;> rfl

theorem Screen.isolates {es : Dict} {s : Screen} {name : String} {v : Value} {inner : Shape}
    {levels : Nat} (read : ofFields es = .ok s)
    (holds : (name, inner) ∈ Shape.screen.fields es)
    (found : (Field.named name).value? es = some v) (suits : inner.Suits v) :
    Shape.screen.Isolates inner levels es name v (.screen s) := by
  have reads {es' : Dict} {s' : Screen} (made : ofFields es' = .ok s') :
      Shape.screen.Reads levels (.dict es') (.screen s') := ⟨s', made, rfl⟩
  obtain ⟨id, title, sections, header, footer, refresh, background, analytics⟩ :=
    ofFields_eq_ok.mp read
  simp only [Shape.fields, List.mem_cons, List.not_mem_nil, or_false, Prod.mk.injEq] at holds
  rcases holds with ⟨rfl, rfl⟩ | ⟨rfl, rfl⟩ | ⟨rfl, rfl⟩ | ⟨rfl, rfl⟩
  · obtain ⟨vs, rfl⟩ := suits
    have listed := Field.of_required sections found
    have given : (Shape.list false .section).Reads levels (.list vs)
        (.list (s.sections.map .section)) :=
      Shape.reads_sections_iff.mpr ⟨vs, _, rfl, listed, rfl⟩
    refine ⟨levels, _, _, _, rfl, rfl, .inr given, fun v' w' es' h made => ?_⟩
    obtain ⟨vs', ss', rfl, listed', rfl⟩ := Shape.reads_sections_iff.mp made
    refine ⟨.screen { s with sections := ss' }, reads (ofFields_eq_ok.mpr ?_), rfl⟩
    simp (disch := decide +kernel) only [h.required, h.optional, h.withDefault]
    exact ⟨id, title, h.required_own listed', header, footer, refresh, background, analytics⟩
  · obtain ⟨given, rfl⟩ := suits
    obtain ⟨n, made, same⟩ := Field.of_optional header found rfl
    refine ⟨Node.maxLevels - 1, _, _, .node n, rfl,
      by simp [fields, Entries.find?_cons, same, Value.ofOption], .inr ⟨n, made, rfl⟩, ?_⟩
    rintro v' _ es' h ⟨n', made', rfl⟩
    refine ⟨.screen { s with header := some n' }, reads (ofFields_eq_ok.mpr ?_), rfl⟩
    simp (disch := decide +kernel) only [h.required, h.optional, h.withDefault]
    exact ⟨id, title, sections, h.optional_own (Node.isNull_of_within made') made', footer, refresh,
      background, analytics⟩
  · obtain ⟨given, rfl⟩ := suits
    obtain ⟨n, made, same⟩ := Field.of_optional footer found rfl
    refine ⟨Node.maxLevels - 1, _, _, .node n, rfl,
      by simp [fields, Entries.find?_cons, same, Value.ofOption], .inr ⟨n, made, rfl⟩, ?_⟩
    rintro v' _ es' h ⟨n', made', rfl⟩
    refine ⟨.screen { s with footer := some n' }, reads (ofFields_eq_ok.mpr ?_), rfl⟩
    simp (disch := decide +kernel) only [h.required, h.optional, h.withDefault]
    exact ⟨id, title, sections, header, h.optional_own (Node.isNull_of_within made') made', refresh,
      background, analytics⟩
  · refine ⟨levels, _, _, _, rfl, rfl, Shape.reads_of_inField refresh found, ?_⟩
    rintro v' _ es' h ⟨i, made, rfl⟩
    refine ⟨.screen { s with onRefresh := some i }, reads (ofFields_eq_ok.mpr ?_), rfl⟩
    simp (disch := decide +kernel) only [h.required, h.optional, h.withDefault]
    exact ⟨id, title, sections, header, footer, h.inField_own made, background, analytics⟩

namespace Shape

theorem isolates {shape inner : Shape} {es : Dict} {name : String} {v u : Value}
    {levels : Nat} (read : shape.Reads levels (.dict es) u)
    (holds : (name, inner) ∈ shape.fields es) (found : (Field.named name).value? es = some v)
    (suits : inner.Suits v) : shape.Isolates inner levels es name v u := by
  cases shape with
  | action =>
      obtain ⟨i, made, rfl⟩ := read
      rcases Instruction.ofValue_eq_ok.mp made with
        ⟨_, given, -⟩ | ⟨_, ⟨rfl⟩, unknown, -⟩ | ⟨_, kind, a, ⟨rfl⟩, known, readFields, rfl⟩
      · cases given
      · simp [fields, unknown] at holds
      · exact Action.isolates known readFields holds found suits
  | component =>
      obtain ⟨n, made, rfl⟩ := read
      cases levels with
      | zero => simp [Node.within] at made
      | succ levels => exact Node.isolates made holds found suits
  | «section» =>
      obtain ⟨s, made, rfl⟩ := read
      exact Section.isolates made holds found suits
  | screen =>
      obtain ⟨s, made, rfl⟩ := read
      exact Screen.isolates made holds found suits
  | list | map => simp [fields] at holds

end Shape

end ServerUI
