import ServerUI.Proofs.Descriptor.Levels
import ServerUI.Proofs.Json.Plain
import ServerUI.Proofs.Payload.Stages
import ServerUI.Proofs.Render.Parsed

/-!
What a loaded section has of its document. A document must name an id, but may name it null, and
then the section has none. The components are read one by one from the items of their list.
-/

set_option autoImplicit false

namespace ServerUI

namespace Validate

theorem listOf_list_eq_ok {α : Type} {check : Value → Checked α} {items : List Value}
    {as : List α} :
    listOf check (.list items) = .ok as ↔ List.Forall₂ (fun v a => check v = .ok a) items as :=
  Checked.items_eq_ok_iff 0

end Validate

namespace Node

theorem ofValue_of_ofPart {v : Value} {n : Node} (read : ofPart v = .ok n) : ofValue v = .ok n :=
  within_mono (Nat.sub_le maxLevels 1) read

end Node

namespace PayloadKind

variable {l : Limits} {d : Document} {es : Dict} {s : Section}

/-- The id that a section has is the text that the document has for it, and null stands for none. -/
theorem Admits.find?_id (admits : sectionOfComponents.Admits l d es s) :
    Entries.find? es "id" = some (.ofOption .str s.id) := by
  have json : (Value.dict es).IsJson :=
    Document.isJson_of_parse (Document.parse_eq_ok.mpr admits.decoded)
  obtain ⟨id, -⟩ := Section.ofFields_eq_ok.mp admits.valid
  have required : "id" ∈ Entries.keys es := admits.required "id" (by decide)
  cases found : Entries.find? es "id" with
  | none => exact absurd required (Entries.find?_eq_none.mp found)
  | some given =>
    have value : (Field.named "id").value? es = some given := by
      rw [Field.value?_eq, show (Field.named "id").wire = "id" by decide, found, Option.some_or]
    rw [Field.optional_eq_ok, value] at id
    cases null : given.isNull with
    | true =>
      obtain rfl : given = .null := by cases given <;> simp [Value.isNull] at null ⊢
      simp only [Value.isNull, if_true] at id
      rw [id, Value.ofOption]
    | false =>
      obtain ⟨text, spelled, there⟩ :
          ∃ text, Validate.text given = .ok text ∧ s.id = some text := by
        simpa [null] using id
      obtain rfl : given = .str text :=
        Value.str_of_text (json.entry (Entries.mem_of_find? found)).here spelled
      rw [there, Value.ofOption]

theorem Admits.components (admits : sectionOfComponents.Admits l d es s) :
    ∃ items, Entries.find? es "components" = some (.list items) ∧
      List.Forall₂ (fun v n => Node.ofValue v = .ok n) items s.components := by
  obtain ⟨-, -, -, components, -⟩ := Section.ofFields_eq_ok.mp admits.valid
  obtain ⟨given, value, read⟩ := Field.required_eq_ok.mp components
  have found : Entries.find? es "components" = some given := by
    rwa [Field.value?_eq, show (Field.named "components").wire = "components" by decide,
      show (Field.named "components").name = "components" from rfl, Option.or_self] at value
  rcases admits.listed "components" (by decide) given found with rfl | ⟨items, rfl⟩
  · exact absurd read Checked.fault_ne_ok
  · have read := Validate.listOf_list_eq_ok.mp read
    exact ⟨items, found, read.imp fun _ _ => Node.ofValue_of_ofPart⟩

end PayloadKind

namespace Payload

/-- A section that is loaded has what the document has: the id is the text that stands there, so
that there is one just when null does not stand there, and the components are read from the items of
their list, as many and in the same order. -/
theorem parseSection_identified_iff {l : Limits} {d : Document} {s : Section}
    (loaded : (parseSection l d).1 = .ok s) :
    ∃ es items, d.value? = some (.dict es) ∧
      Entries.find? es "id" = some (.ofOption .str s.id) ∧
      ((∃ id, s.id = some id) ↔ Entries.find? es "id" ≠ some .null) ∧
      Entries.find? es "components" = some (.list items) ∧
      List.Forall₂ (fun v n => Node.ofValue v = .ok n) items s.components := by
  obtain ⟨es, admits⟩ := PayloadKind.load_eq_ok_iff.mp loaded
  obtain ⟨items, found, read⟩ := admits.components
  have id := admits.find?_id
  refine ⟨es, items, admits.decoded, id, ?_, found, read⟩
  rw [id]
  cases s.id <;> simp [Value.ofOption]

/-- A section with an id and two components. -/
theorem parseSection_identified_iff_two :
    let d : Document := .text
      "\x7b\"id\":\"a\",\"components\":[\x7b\"type\":\"A\"\x7d,\x7b\"type\":\"B\"\x7d]\x7d"
    let n (type : String) : Node := ⟨type, [], none, none, none, none, none⟩
    let s : Section :=
      ⟨some "a", none, none, [n "A", n "B"], none, none, none, none, none, none⟩
    (parseSection {} d).1 = .ok s ∧ (∃ id, s.id = some id) ∧
      ∃ items, List.Forall₂ (fun v n => Node.ofValue v = .ok n) items s.components := by
  intro d n s
  let v : Value := .dict [("id", .str "a"),
    ("components", .list [.dict [("type", .str "A")], .dict [("type", .str "B")]])]
  have read : d.value? = some v := rfl
  have size : d.size = 100 := by decide +kernel
  have decoded : Limits.checkDecoded {} v PayloadKind.sectionOfComponents.required = .ok () := by
    rfl
  have valid : PayloadKind.sectionOfComponents.validate v = .ok s := rfl
  have loaded : (parseSection {} d).1 = .ok s :=
    PayloadKind.load_eq_ok.mpr
      ⟨by rw [size]; decide, v, Document.parse_eq_ok.mpr read, decoded, valid⟩
  obtain ⟨es, items, same, -, identified, -, components⟩ := parseSection_identified_iff loaded
  obtain rfl := Value.dict.inj (Option.some.inj (read.symm.trans same))
  exact ⟨loaded, identified.mpr (by simp [Entries.find?]), items, components⟩

/-- A document with null for the id is loaded as a section without one. -/
theorem parseSection_null_id :
    let s : Section := ⟨none, none, none, [], none, none, none, none, none, none⟩
    (parseSection {} (.text "\x7b\"id\":null,\"components\":[]\x7d")).1 = .ok s ∧
      ¬∃ id, s.id = some id := by
  intro s
  let d : Document := .text "\x7b\"id\":null,\"components\":[]\x7d"
  let v : Value := .dict [("id", .null), ("components", .list [])]
  have read : d.value? = some v := rfl
  have size : d.size = 76 := rfl
  have decoded : Limits.checkDecoded {} v PayloadKind.sectionOfComponents.required = .ok () := by
    rfl
  have valid : PayloadKind.sectionOfComponents.validate v = .ok s := rfl
  have loaded : (parseSection {} d).1 = .ok s :=
    PayloadKind.load_eq_ok.mpr
      ⟨by rw [size]; decide, v, Document.parse_eq_ok.mpr read, decoded, valid⟩
  exact ⟨loaded, by simp [s]⟩

end Payload

end ServerUI
