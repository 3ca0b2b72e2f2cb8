import Mathlib.Tactic.ByContra
import ServerUI.Proofs.Payload.Depth
import ServerUI.Proofs.Payload.Encoded

/-!
Loading as a row of stages, each with something of its own that it may have against a document.
A document loads just if no stage has anything against it, and otherwise it is refused by the first
one that has. The limits only let documents through or stop them.
-/

set_option autoImplicit false

namespace ServerUI

def Document.object? (d : Document) : Option Dict :=
  match d.value? with
  | some (.dict es) => some es
  | _ => none

theorem Document.parse_eq_ok {d : Document} {v : Value} : d.parse = .ok v ↔ d.value? = some v := by
  unfold parse
  cases d.value? <;> simp

inductive Stage where
  | size
  | decoding
  | depth
  | object
  | required (name : String)
  | listed (name : String)
  | schema

namespace PayloadKind

variable {α : Type} (k : PayloadKind α) (l : Limits) (d : Document)

def listedNames : List String := ["components", "sections", "children"]

def decodedStages : List Stage :=
  .depth :: .object :: (k.required.map .required ++ listedNames.map .listed)

/-- The stages in the order in which they are gone through. -/
def stages : List Stage := .size :: .decoding :: (k.decodedStages ++ [.schema])

/-- What a stage has against the document, whatever the other stages have. -/
def refusal? : Stage → Option Failure
  | .size =>
      if (d.size : Int) ≤ l.maxSize then none
      else some (.payload (.document (.tooLarge k.model d.size l.maxSize)))
  | .decoding =>
      match d.value? with
      | some _ => none
      | none => some (.payload (.document .malformed))
  | .depth => d.value?.bind fun v =>
      if (v.depth : Int) ≤ l.maxDepth then none
      else some (.payload (.document (.tooDeep (max 0 (l.maxDepth + 1)) l.maxDepth)))
  | .object => d.value?.bind fun
      | .dict _ => none
      | v => some (.payload (.notAnObject v.typeName))
  | .required name => d.object?.bind fun es =>
      if name ∈ Entries.keys es then none else some (.payload (.missingField name))
  | .listed name => d.object?.bind fun es =>
      match Entries.find? es name with
      | none | some .null | some (.list _) => none
      | some _ => some (.payload (.notAList name))
  | .schema => d.value?.bind fun v =>
      match k.validate v with
      | .ok _ => none
      | .unhashable t => some (.unhashable t)
      | .faults fs => some (.payload (.schema k.model fs))

end PayloadKind

/-- The first member that a test picks out is refused, and nothing if it picks out none. -/
theorem findSome?_eq_find? {α β : Type} {xs : List α} {f : α → Option β} {p : α → Bool} {g : α → β}
    (h : ∀ x, f x = if p x then some (g x) else none) : xs.findSome? f = (xs.find? p).map g := by
  induction xs with
  | nil => rfl
  | cons x xs ih => cases picked : p x <;> simp [h, picked, ih]

namespace PayloadKind

variable {α : Type} {k : PayloadKind α} {l : Limits} {d : Document} {es : Dict} {v : Value}

theorem findSome?_required (read : d.value? = some (.dict es)) :
    (k.required.map .required).findSome? (k.refusal? l d) =
      (k.required.find? fun name => !Entries.contains es name).map
        fun name => .payload (.missingField name) := by
  rw [List.findSome?_map]
  refine findSome?_eq_find? fun name => ?_
  cases found : Entries.find? es name with
  | none =>
      have missing : name ∉ Entries.keys es := Entries.find?_eq_none.mp found
      simp [refusal?, Document.object?, read, missing, Entries.contains, found]
  | some v =>
      have there : name ∈ Entries.keys es := by
        by_contra missing
        simp [Entries.find?_eq_none.mpr missing] at found
      simp [refusal?, Document.object?, read, there, Entries.contains, found]

theorem findSome?_listed (read : d.value? = some (.dict es)) :
    (listedNames.map .listed).findSome? (k.refusal? l d) =
      (Limits.listMembers.find? fun name => !Limits.isListOrNull (Entries.find? es name)).map
        fun name => .payload (.notAList name) := by
  rw [List.findSome?_map]
  refine findSome?_eq_find? fun name => ?_
  cases found : Entries.find? es name with
  | none => simp [refusal?, Document.object?, read, found, Limits.isListOrNull]
  | some v => cases v <;> simp [refusal?, Document.object?, read, found, Limits.isListOrNull]

/-- A check that refuses what it is told to refuse, if anything. -/
def refuse : Option Failure → Except Failure Unit
  | some f => .error f
  | none => .ok ()

theorem checkRaw_eq_refuse : l.checkRaw d k.model = refuse (k.refusal? l d .size) := by
  by_cases small : (d.size : Int) ≤ l.maxSize
  · simp [Limits.checkRaw_eq_ok.mpr small, refusal?, small, refuse]
  · simp [Limits.checkRaw, Document.checkSize, Except.mapError, refusal?, small,
      Int.not_le.mp small, refuse]

theorem checkMembers_eq_refuse (read : d.value? = some (.dict es)) :
    Limits.checkMembers k.required es =
      refuse ((k.required.map Stage.required ++ listedNames.map Stage.listed).findSome?
        (k.refusal? l d)) := by
  rw [List.findSome?_append, findSome?_required read, findSome?_listed read, Limits.checkMembers]
  cases k.required.find? fun name => !Entries.contains es name with
  | some name => rfl
  | none =>
      cases Limits.listMembers.find? fun name => !Limits.isListOrNull (Entries.find? es name) with
      | some name => rfl
      | none => rfl

theorem checkDecoded_eq_refuse (read : d.value? = some v) :
    l.checkDecoded v k.required = refuse (k.decodedStages.findSome? (k.refusal? l d)) := by
  unfold Limits.checkDecoded
  rw [decodedStages, List.findSome?_cons]
  by_cases shallow : (v.depth : Int) ≤ l.maxDepth
  · have within : v.checkDepth l.maxDepth 0 = .ok () := by
      rw [Value.checkDepth_eq_ok]
      omega
    have passed : k.refusal? l d .depth = none := by simp [refusal?, read, shallow]
    rw [within, passed, List.findSome?_cons]
    cases v with
    | dict es =>
        have passed : k.refusal? l d .object = none := by simp [refusal?, read]
        simp only [passed, checkMembers_eq_refuse (k := k) (l := l) read]
    | _ => simp [refusal?, read, refuse]
  · have deep : v.checkDepth l.maxDepth 0 =
        .error (.tooDeep (max 0 (l.maxDepth + 1)) l.maxDepth) := by
      rw [Value.checkDepth_eq_error]
      exact ⟨by omega, rfl⟩
    simp [deep, refusal?, read, shallow, refuse]

theorem refusal?_schema {f : Failure} (read : d.value? = some v) :
    k.refusal? l d .schema = some f ↔ (k.ofDecoded v).1 = .error f := by
  simp only [refusal?, read, Option.bind_some, ofDecoded]
  cases k.validate v <;> simp

/-- Loading is refused by the first stage that has something against the document. -/
theorem load_eq_error {f : Failure} :
    (k.load l d).1 = .error f ↔ k.stages.findSome? (k.refusal? l d) = some f := by
  rw [stages, load, checkRaw_eq_refuse, List.findSome?_cons, List.findSome?_cons]
  cases k.refusal? l d .size with
  | some f => simp [refuse]
  | none =>
      cases read : d.value? with
      | none => simp [refuse, refusal?, read, Document.parse]
      | some v =>
          have decoding : k.refusal? l d .decoding = none := by simp [refusal?, read]
          simp only [decoding, refuse, Document.parse_eq_ok.mpr read, checkDecoded_eq_refuse read,
            List.findSome?_append]
          cases k.decodedStages.findSome? (k.refusal? l d) with
          | some f => simp
          | none => simp [refusal?_schema read]

-- A list that is too deep, and no mapping, is refused for its depth.
example : (component.load { maxDepth := 0 } (.text "[[]]")).1 =
    .error (.payload (.document (.tooDeep 1 0))) := rfl

/-- What a document has to meet to load as `a`: its size, its decoding to the mapping `es`, the
depth of that, and what stands in it. -/
structure Admits (k : PayloadKind α) (l : Limits) (d : Document) (es : Dict) (a : α) : Prop where
  size : (d.size : Int) ≤ l.maxSize
  decoded : d.value? = some (.dict es)
  depth : ((Value.dict es).depth : Int) ≤ l.maxDepth
  required : ∀ name ∈ k.required, name ∈ Entries.keys es
  listed : ∀ name ∈ listedNames, ∀ v, Entries.find? es name = some v →
    v = .null ∨ ∃ items, v = .list items
  valid : k.validate (.dict es) = .ok a

theorem checkMembers_eq_ok {required : List String} :
    Limits.checkMembers required es = .ok () ↔
      (∀ name ∈ required, name ∈ Entries.keys es) ∧
      ∀ name ∈ listedNames, ∀ v, Entries.find? es name = some v →
        v = .null ∨ ∃ items, v = .list items := by
  have present (name : String) : Entries.contains es name = true ↔ name ∈ Entries.keys es := by
    rw [Entries.contains, Option.isSome_iff_ne_none, ne_eq, Entries.find?_eq_none, not_not]
  have listed (name : String) : Limits.isListOrNull (Entries.find? es name) = true ↔
      ∀ v, Entries.find? es name = some v → v = .null ∨ ∃ items, v = .list items := by
    cases Entries.find? es name with
    | none => simp [Limits.isListOrNull]
    | some v => cases v <;> simp [Limits.isListOrNull]
  have passed : Limits.checkMembers required es = .ok () ↔
      (required.find? fun name => !Entries.contains es name) = none ∧
      (Limits.listMembers.find? fun name =>
        !Limits.isListOrNull (Entries.find? es name)) = none := by
    unfold Limits.checkMembers
    cases required.find? fun name => !Entries.contains es name with
    | some name => simp
    | none =>
        cases Limits.listMembers.find? fun name =>
          !Limits.isListOrNull (Entries.find? es name) <;> simp
  simp only [passed, List.find?_eq_none, Bool.not_eq_true', Bool.not_eq_false, present, listed]
  rfl

theorem checkDecoded_eq_ok {required : List String} :
    l.checkDecoded v required = .ok () ↔
      (v.depth : Int) ≤ l.maxDepth ∧
        ∃ es, v = .dict es ∧ Limits.checkMembers required es = .ok () := by
  have within : v.checkDepth l.maxDepth 0 = .ok () ↔ (v.depth : Int) ≤ l.maxDepth := by
    rw [Value.checkDepth_eq_ok, Int.zero_add]
  unfold Limits.checkDecoded
  rw [← within]
  cases v.checkDepth l.maxDepth 0 with
  | error e => simp
  | ok _ => cases v <;> simp

/-- Loading gives just what a document that meets every condition holds. -/
theorem load_eq_ok_iff {a : α} : (k.load l d).1 = .ok a ↔ ∃ es, k.Admits l d es a := by
  rw [load_eq_ok]
  constructor
  · rintro ⟨size, v, read, decoded, valid⟩
    obtain ⟨depth, es, rfl, members⟩ := checkDecoded_eq_ok.mp decoded
    obtain ⟨required, listed⟩ := checkMembers_eq_ok.mp members
    exact ⟨es, size, Document.parse_eq_ok.mp read, depth, required, listed, valid⟩
  · rintro ⟨es, admits⟩
    have members := checkMembers_eq_ok.mpr ⟨admits.required, admits.listed⟩
    exact ⟨admits.size, .dict es, Document.parse_eq_ok.mpr admits.decoded,
      checkDecoded_eq_ok.mpr ⟨admits.depth, es, rfl, members⟩, admits.valid⟩

theorem Admits.raised {l' : Limits} {a : α} (h : k.Admits l d es a) (size : l.maxSize ≤ l'.maxSize)
    (depth : l.maxDepth ≤ l'.maxDepth) : k.Admits l' d es a :=
  { h with size := Int.le_trans h.size size, depth := Int.le_trans h.depth depth }

/-- A way to load that accepts just what meets every condition, that lets through what it let
through under lower limits, and that refuses anything else with what the first of the stages has
against it. -/
structure Exact (k : PayloadKind α) (load : Limits → Document → Except Failure α) : Prop where
  accepts (l : Limits) (d : Document) (a : α) : load l d = .ok a ↔ ∃ es, k.Admits l d es a
  raised {l l' : Limits} (size : l.maxSize ≤ l'.maxSize) (depth : l.maxDepth ≤ l'.maxDepth)
    (d : Document) (a : α) : load l d = .ok a → load l' d = .ok a
  refuses (l : Limits) (d : Document) (f : Failure) :
    load l d = .error f ↔ k.stages.findSome? (k.refusal? l d) = some f

theorem exact_load (k : PayloadKind α) : k.Exact fun l d => (k.load l d).1 where
  accepts l d a := load_eq_ok_iff
  raised size depth d a := by
    simp only [load_eq_ok_iff]
    rintro ⟨es, admits⟩
    exact ⟨es, admits.raised size depth⟩
  refuses l d f := load_eq_error

end PayloadKind

namespace Payload

/-- A node, a section and a screen are loaded from just the documents that are small enough, decode
to a mapping that is shallow enough, have the required members, have lists for the members that are
lists, and are valid. Higher limits change nothing for what has been loaded. What is refused is
refused by the first of the stages, in their order, that has something against it. -/
theorem parse_exact :
    PayloadKind.component.Exact (fun l d => (parseComponent l d).1) ∧
      PayloadKind.sectionOfComponents.Exact (fun l d => (parseSection l d).1) ∧
      PayloadKind.screen.Exact (fun l d => (parseScreen l d).1) := by
  refine ⟨PayloadKind.exact_load _, PayloadKind.exact_load _, ?_⟩
  simp only [parseScreen_result]
  exact PayloadKind.exact_load _

end Payload

end ServerUI
