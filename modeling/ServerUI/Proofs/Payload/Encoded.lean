import ServerUI.Payload
import ServerUI.Proofs.Payload.Failures

/-!
A payload as text and as the bytes that encode it. Both hold the same document, so they differ by
the check of their size alone: text is measured by the memory that it takes, and bytes by their
number.
-/

set_option autoImplicit false

namespace ServerUI

namespace Document

theorem text_encoded (s : String) : (Document.bytes s.toUTF8).text? = some s := by
  simp only [text?, String.fromUTF8?, String.toUTF8_eq_toByteArray, Option.dite_none_right_eq_some,
    Option.some.injEq]
  exact ⟨s.isValidUTF8, rfl⟩

theorem parse_encoded (s : String) : (Document.bytes s.toUTF8).parse = (Document.text s).parse := by
  have same : (Document.bytes s.toUTF8).value? = (Document.text s).value? := by
    simp only [value?, text_encoded]
    rfl
  simp only [parse, same]

theorem size_encoded (s : String) : (Document.bytes s.toUTF8).size = s.utf8ByteSize := by
  simp [size]

end Document

namespace Text

theorem foldl_max_le {cs : List Char} {bound widest : Nat} (start : widest ≤ bound)
    (narrow : ∀ c ∈ cs, c.toNat ≤ bound) :
    cs.foldl (fun m c => max m c.toNat) widest ≤ bound := by
  induction cs generalizing widest with
  | nil => exact start
  | cons c cs ih =>
    have head : c.toNat ≤ bound := narrow c (by simp)
    exact ih (Nat.max_le.mpr ⟨start, head⟩) fun d inside => narrow d (by simp [inside])

theorem utf8ByteSize_plain {cs : List Char} (plain : ∀ c ∈ cs, c.toNat < 0x80) :
    (String.ofList cs).utf8ByteSize = cs.length := by
  induction cs with
  | nil => rfl
  | cons c cs ih =>
    have head : c.utf8Size = 1 := by
      have small : c.toNat < 0x80 := plain c (by simp)
      rw [Char.utf8Size_eq_one_iff]
      exact Nat.lt_succ_iff.mp small
    have rest := ih fun d inside => plain d (by simp [inside])
    rw [String.ofList_cons, String.utf8ByteSize_append, String.utf8ByteSize_singleton, head, rest,
      List.length_cons]
    omega

/-- As text, plain characters take 49 bytes more than they do encoded. -/
theorem footprint_plain {s : String} (plain : ∀ c ∈ s.toList, c.toNat < 0x80) :
    footprint s = s.utf8ByteSize + 49 := by
  have widest : s.toList.foldl (fun m c => max m c.toNat) 0 < 0x80 :=
    Nat.lt_succ_of_le (foldl_max_le (Nat.zero_le _) fun c inside => Nat.le_of_lt_succ (plain c inside))
  have bytes : s.utf8ByteSize = s.toList.length := by
    simpa using utf8ByteSize_plain plain
  simp only [footprint, storage, widest, if_true, bytes]
  omega

end Text

namespace Limits

theorem checkRaw_eq_ok {l : Limits} {d : Document} {name : String} :
    l.checkRaw d name = .ok () ↔ (d.size : Int) ≤ l.maxSize := by
  by_cases tooLarge : l.maxSize < d.size
  · simp [checkRaw, Document.checkSize, tooLarge]
  · simp [checkRaw, Document.checkSize, tooLarge, Int.not_lt.mp tooLarge]

/-- A text and its encoding are both small enough, or both too large. -/
def MeasuresAlike (l : Limits) (s : String) : Prop :=
  (Text.footprint s : Int) ≤ l.maxSize ↔ (s.utf8ByteSize : Int) ≤ l.maxSize

theorem checkRaw_encoded {l : Limits} {s : String} {name : String} :
    (l.checkRaw (.text s) name = .ok () ↔ l.checkRaw (.bytes s.toUTF8) name = .ok ()) ↔
      l.MeasuresAlike s := by
  rw [checkRaw_eq_ok, checkRaw_eq_ok, Document.size_encoded]
  rfl

/-- Plain text is measured otherwise than its encoding just when the limit falls between the two
sizes. -/
theorem measuresAlike_plain {l : Limits} {s : String} (plain : ∀ c ∈ s.toList, c.toNat < 0x80) :
    l.MeasuresAlike s ↔ ¬ (s.utf8ByteSize ≤ l.maxSize ∧ l.maxSize < s.utf8ByteSize + 49) := by
  unfold MeasuresAlike
  rw [Text.footprint_plain plain]
  omega

end Limits

theorem Except.toOption_eq_iff {ε α : Type} {r r' : Except ε α} :
    r.toOption = r'.toOption ↔ ∀ a, r = .ok a ↔ r' = .ok a := by
  constructor
  · intro same a
    cases r <;> cases r' <;> simp_all [Except.toOption]
  · intro same
    cases r with
    | ok a => rw [(same a).mp rfl]
    | error f =>
      cases r' with
      | ok a => cases (same a).mpr rfl
      | error f' => rfl

namespace PayloadKind

variable {α : Type} {k : PayloadKind α} {l : Limits} {d : Document} {s : String}

theorem load_eq_ok {a : α} :
    (k.load l d).1 = .ok a ↔ (d.size : Int) ≤ l.maxSize ∧
      ∃ v, d.parse = .ok v ∧ l.checkDecoded v k.required = .ok () ∧ k.validate v = .ok a := by
  constructor
  · intro loaded
    refine ⟨?_, exists_of_load_eq_ok loaded⟩
    rw [← @Limits.checkRaw_eq_ok l d k.model]
    unfold load at loaded
    split at loaded
    · cases loaded
    · next raw => exact raw
  · rintro ⟨small, v, read, decoded, valid⟩
    rw [load_of_decoded (Limits.checkRaw_eq_ok.mpr small) read decoded, ofDecoded, valid]

/-- Under no limit of size does the text load. -/
def NeverLoads (k : PayloadKind α) (l : Limits) (s : String) : Prop :=
  ∀ maxSize a, (k.load { l with maxSize } (.text s)).1 ≠ .ok a

/-- A text and its encoding load alike just when they are measured alike, or no limit of size
lets them load. -/
theorem load_encoded : (k.load l (.text s)).1.toOption = (k.load l (.bytes s.toUTF8)).1.toOption ↔
    l.MeasuresAlike s ∨ k.NeverLoads l s := by
  have decoded : ∀ maxSize v, Limits.checkDecoded { l with maxSize } v k.required =
      l.checkDecoded v k.required := fun _ _ => rfl
  rw [Except.toOption_eq_iff]
  simp only [NeverLoads, ne_eq, load_eq_ok, Document.size_encoded, Document.parse_encoded, decoded]
  by_cases holds : ∃ a v, (Document.text s).parse = .ok v ∧
      l.checkDecoded v k.required = .ok () ∧ k.validate v = .ok a
  · obtain ⟨a, held⟩ := holds
    constructor
    · intro alike
      left
      have both := alike a
      simpa [held, Limits.MeasuresAlike, Document.size] using both
    · rintro (alike | never)
      · intro b
        rw [show ((Document.text s).size : Int) ≤ l.maxSize ↔ _ from alike]
      · exact absurd ⟨Int.le_refl _, held⟩ (never (Document.text s).size a)
  · have none : ∀ a, ¬ ∃ v, (Document.text s).parse = .ok v ∧
        l.checkDecoded v k.required = .ok () ∧ k.validate v = .ok a := not_exists.mp holds
    simp [none]

end PayloadKind

namespace Payload

/-- A text and the bytes that encode it pass the check of their size alike just when both are
small enough or both too large. Just then, or when the document loads under no limit of size, they
give equal descriptors or fail both, be it as a node, a section or a screen. -/
theorem parse_encoded_iff (l : Limits) (s : String) :
    (∀ name, (l.checkRaw (.text s) name = .ok () ↔ l.checkRaw (.bytes s.toUTF8) name = .ok ()) ↔
        l.MeasuresAlike s) ∧
      ((parseComponent l (.text s)).1.toOption = (parseComponent l (.bytes s.toUTF8)).1.toOption ↔
        l.MeasuresAlike s ∨ PayloadKind.component.NeverLoads l s) ∧
      ((parseSection l (.text s)).1.toOption = (parseSection l (.bytes s.toUTF8)).1.toOption ↔
        l.MeasuresAlike s ∨ PayloadKind.sectionOfComponents.NeverLoads l s) ∧
      ((parseScreen l (.text s)).1.toOption = (parseScreen l (.bytes s.toUTF8)).1.toOption ↔
        l.MeasuresAlike s ∨ PayloadKind.screen.NeverLoads l s) := by
  refine ⟨fun name => Limits.checkRaw_encoded, PayloadKind.load_encoded, PayloadKind.load_encoded,
    ?_⟩
  rw [parseScreen_result, parseScreen_result]
  exact PayloadKind.load_encoded

/-- Twelve plain characters are refused as text where forty bytes are allowed, and load as bytes. -/
theorem parseComponent_text_refused :
    let l : Limits := { maxSize := 40 }
    let s := "\x7b\"type\":\"A\"\x7d"
    l.checkRaw (.text s) "payload" ≠ .ok () ∧ l.checkRaw (.bytes s.toUTF8) "payload" = .ok () ∧
      (parseComponent l (.text s)).1.toOption = none ∧
      (parseComponent l (.bytes s.toUTF8)).1.toOption =
        some ⟨"A", [], none, none, none, none, none⟩ := by
  intro l s
  let v : Value := .dict [("type", .str "A")]
  have bytes : s.utf8ByteSize = 12 := rfl
  have encoded : ((Document.bytes s.toUTF8).size : Int) ≤ l.maxSize := by
    rw [Document.size_encoded, bytes]
    decide
  -- Forty falls between the twelve bytes and the memory that the text takes.
  have apart : ¬ l.MeasuresAlike s := by
    have plain : ∀ c ∈ s.toList, c.toNat < 0x80 := by simp [s]
    rw [Limits.measuresAlike_plain plain, bytes, Classical.not_not]
    decide
  have small : l.checkRaw (.bytes s.toUTF8) "payload" = .ok () := Limits.checkRaw_eq_ok.mpr encoded
  have large : l.checkRaw (.text s) "payload" ≠ .ok () := fun fits =>
    apart (Limits.checkRaw_encoded.mp (iff_of_true fits small))
  have read : (Document.text s).value? = some v := by
    change (Document.text "\x7b\"type\":\"A\"\x7d").value? = some v
    rfl
  have parsed : (Document.bytes s.toUTF8).parse = .ok v := by
    rw [Document.parse_encoded, Document.parse, read]
  have decoded : l.checkDecoded v PayloadKind.component.required = .ok () := rfl
  have valid : PayloadKind.component.validate v = .ok ⟨"A", [], none, none, none, none, none⟩ := by
    rfl
  refine ⟨large, small, ?_, ?_⟩
  · have refused : ∀ n, (parseComponent l (.text s)).1 ≠ .ok n := by
      intro n loaded
      have fits := (PayloadKind.load_eq_ok.mp loaded).1
      exact large (Limits.checkRaw_eq_ok.mpr fits)
    cases outcome : (parseComponent l (.text s)).1 with
    | error f => rfl
    | ok n => exact absurd outcome (refused n)
  · have loaded : (parseComponent l (.bytes s.toUTF8)).1 =
        .ok ⟨"A", [], none, none, none, none, none⟩ :=
      PayloadKind.load_eq_ok.mpr ⟨encoded, v, parsed, decoded, valid⟩
    rw [loaded]
    rfl

end Payload

end ServerUI
