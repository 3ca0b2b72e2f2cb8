import ServerUI.Validation.Checked
import ServerUI.Value

/-!
Fields of models. A field has a name and a spelling on the wire, which is the name in camel
case; a mapping may use either, and the wire spelling wins.
-/

set_option autoImplicit false

namespace ServerUI

structure Field where
  name : String
  wire : String
deriving DecidableEq, Repr

namespace Field

def camelChars : List Char → List Char
  | '_' :: c :: rest => c.toUpper :: camelChars rest
  | c :: rest => c :: camelChars rest
  | [] => []

def camelCase (name : String) : String := String.ofList (camelChars name.toList)

def named (name : String) : Field := ⟨name, camelCase name⟩

def locate? (key : String) : (es : Dict) → Option { e : String × Value // e ∈ es }
  | [] => none
  | e :: rest =>
      if e.1 = key then some ⟨e, List.mem_cons_self⟩
      else (locate? key rest).map fun ⟨f, h⟩ => ⟨f, List.mem_cons_of_mem e h⟩

def find? (f : Field) (es : Dict) : Option { e : String × Value // e ∈ es } :=
  (locate? f.wire es).or (locate? f.name es)

theorem sizeOf_value_lt {es : Dict} {e : String × Value} (h : e ∈ es) :
    sizeOf e.2 < sizeOf es := by
  have := List.sizeOf_lt_of_mem h
  obtain ⟨k, v⟩ := e
  simp only [Prod.mk.sizeOf_spec] at this
  simp only
  omega

variable {α : Type}

/-- Validates the value of the field, which is smaller than the mapping that holds it; faults
are placed under the spelling that was found. -/
def readWith (f : Field) (es : Dict) (absent : Checked α)
    (check : (v : Value) → sizeOf v < sizeOf es → Checked α) : Checked α :=
  match f.find? es with
  | none => absent
  | some ⟨e, h⟩ => (check e.2 (sizeOf_value_lt h)).under (.name e.1)

def missing (f : Field) : Checked α := Checked.under (.name f.wire) (.fault .missing)

def required (f : Field) (check : Value → Checked α) (es : Dict) : Checked α :=
  f.readWith es f.missing fun v _ => check v

def optional (f : Field) (check : Value → Checked α) (es : Dict) : Checked (Option α) :=
  f.readWith es (.ok none) fun v _ => if v.isNull then .ok none else (check v).map some

def withDefault (f : Field) (value : α) (check : Value → Checked α) (es : Dict) : Checked α :=
  f.readWith es (.ok value) fun v _ => check v

def value? (f : Field) (es : Dict) : Option Value := (f.find? es).map fun e => e.1.2

/-- The entry that the field is read from. -/
def source? (f : Field) (es : Dict) : Option (String × Value) := (f.find? es).map (·.1)

theorem locate?_eq (key : String) (es : Dict) :
    (locate? key es).map (·.1) = (Entries.find? es key).map (key, ·) := by
  induction es with
  | nil => rfl
  | cons e es ih =>
      obtain ⟨k, v⟩ := e
      by_cases same : k = key
      · simp [locate?, Entries.find?_cons, same]
      · simpa [locate?, Entries.find?_cons, same, Option.map_map, Function.comp_def] using ih

theorem source?_eq (f : Field) (es : Dict) :
    f.source? es = ((Entries.find? es f.wire).map (f.wire, ·)).or
      ((Entries.find? es f.name).map (f.name, ·)) := by
  rw [source?, find?, Option.map_or, locate?_eq, locate?_eq]

theorem value?_eq_source? (f : Field) (es : Dict) : f.value? es = (f.source? es).map (·.2) := by
  rw [value?, source?, Option.map_map]
  rfl

theorem value?_eq (f : Field) (es : Dict) :
    f.value? es = (Entries.find? es f.wire).or (Entries.find? es f.name) := by
  rw [value?_eq_source?, source?_eq, Option.map_or, Option.map_map, Option.map_map]
  simp [Function.comp_def]

theorem mem_of_value? {f : Field} {es : Dict} {v : Value} (h : f.value? es = some v) :
    ∃ k, (k, v) ∈ es := by
  obtain ⟨⟨⟨k, u⟩, inside⟩, -, rfl⟩ := Option.map_eq_some_iff.mp h
  exact ⟨k, inside⟩

theorem readWith_eq_ok {f : Field} {es : Dict} {absent : Checked α} {check : Value → Checked α}
    {a : α} :
    f.readWith es absent (fun v _ => check v) = .ok a ↔
      match f.value? es with
      | none => absent = .ok a
      | some v => check v = .ok a := by
  unfold readWith value?
  cases f.find? es <;> simp

@[simp] theorem required_eq_ok {f : Field} {check : Value → Checked α} {es : Dict} {a : α} :
    f.required check es = .ok a ↔ ∃ v, f.value? es = some v ∧ check v = .ok a := by
  rw [required, readWith_eq_ok]
  cases f.value? es <;> simp [missing]

@[simp] theorem optional_eq_ok {f : Field} {check : Value → Checked α} {es : Dict} {o : Option α} :
    f.optional check es = .ok o ↔
      match f.value? es with
      | none => o = none
      | some v => if v.isNull then o = none else ∃ a, check v = .ok a ∧ o = some a := by
  rw [optional, readWith_eq_ok]
  cases f.value? es with
  | none => simp [eq_comm]
  | some v => cases h : v.isNull <;> simp [h, @eq_comm _ o]

theorem withDefault_eq_ok {f : Field} {value : α} {check : Value → Checked α} {es : Dict} {a : α} :
    f.withDefault value check es = .ok a ↔
      match f.value? es with
      | none => a = value
      | some v => check v = .ok a := by
  rw [withDefault, readWith_eq_ok]
  cases f.value? es <;> simp [eq_comm]

/-- What a field reads was read from the value of an entry, unless it was not there. -/
theorem exists_of_required {f : Field} {check : Value → Checked α} {es : Dict} {a : α}
    (h : f.required check es = .ok a) : ∃ k v, (k, v) ∈ es ∧ check v = .ok a := by
  obtain ⟨v, found, read⟩ := required_eq_ok.mp h
  obtain ⟨k, entry⟩ := mem_of_value? found
  exact ⟨k, v, entry, read⟩

theorem exists_of_optional {f : Field} {check : Value → Checked α} {es : Dict} {a : α}
    (h : f.optional check es = .ok (some a)) : ∃ k v, (k, v) ∈ es ∧ check v = .ok a := by
  rw [optional_eq_ok] at h
  split at h
  · cases h
  · next v found =>
      split at h
      · cases h
      · obtain ⟨_, read, ⟨⟩⟩ := h
        obtain ⟨k, entry⟩ := mem_of_value? found
        exact ⟨k, v, entry, read⟩

theorem exists_of_withDefault {f : Field} {value : α} {check : Value → Checked α} {es : Dict}
    {a : α} (h : f.withDefault value check es = .ok a) (other : a ≠ value) :
    ∃ k v, (k, v) ∈ es ∧ check v = .ok a := by
  rw [withDefault_eq_ok] at h
  split at h
  · exact absurd h other
  · next v found =>
      obtain ⟨k, entry⟩ := mem_of_value? found
      exact ⟨k, v, entry, h⟩

end Field

end ServerUI
