import ServerUI.Identifier

/-!
Identifiers put together and read back. What a prefix is put in front of reads back just when the
prefix has no underscore, and what is read as valid may go on after a second underscore.
-/

set_option autoImplicit false

namespace ServerUI

namespace Ulid

variable {cs : List Char}

theorem digit?_of_mem (ulid : isUlid cs = true) {c : Char} (inside : c ∈ cs) :
    (digit? c).isSome = true := by
  simp only [isUlid, Bool.and_eq_true, List.all_eq_true] at ulid
  exact ulid.1.2 c inside

theorem underscore_not_mem (ulid : isUlid cs = true) : '_' ∉ cs := by
  intro inside
  have digit := digit?_of_mem ulid inside
  have none : digit? '_' = none := by decide
  simp [none] at digit

end Ulid

namespace Identifier

variable {s t p u : String}

theorem toList_withPrefix : (withPrefix p t).toList = p.toList ++ '_' :: t.toList := by
  simp [withPrefix]

theorem exists_eq_withPrefix (split : '_' ∈ s.toList) :
    ∃ p t, '_' ∉ p.toList ∧ s = withPrefix p t := by
  obtain ⟨front, back, same, plain⟩ := List.eq_append_cons_of_mem split
  refine ⟨String.ofList front, String.ofList back, by simpa using plain, ?_⟩
  apply String.toList_injective
  simpa [toList_withPrefix] using same

theorem parts_plain {cs : List Char} (plain : '_' ∉ cs) : parts cs = [cs] :=
  List.splitOn_eq_singleton plain

theorem parts_withPrefix (plain : '_' ∉ p.toList) :
    parts (withPrefix p t).toList = p.toList :: parts t.toList := by
  rw [toList_withPrefix]
  exact List.splitOn_append_cons_self_of_not_mem plain t.toList

theorem parts_ne_nil {cs : List Char} : parts cs ≠ [] := List.splitOn_ne_nil '_' cs

theorem body_plain (plain : '_' ∉ s.toList) : body s = s.toList := by
  simp [body, parts_plain plain]

theorem body_withPrefix (plain : '_' ∉ p.toList) :
    body (withPrefix p t) = (parts t.toList).headD [] := by
  rw [body, parts_withPrefix plain]
  cases found : parts t.toList with
  | nil => exact absurd found parts_ne_nil
  | cons first rest => rfl

theorem body_withPrefix_plain (plain : '_' ∉ p.toList) (whole : '_' ∉ t.toList) :
    body (withPrefix p t) = t.toList := by
  rw [body_withPrefix plain, parts_plain whole]
  rfl

theorem body_withPrefix_withPrefix (plain : '_' ∉ p.toList) (second : '_' ∉ u.toList) :
    body (withPrefix p (withPrefix u t)) = u.toList := by
  rw [body_withPrefix plain, parts_withPrefix second]
  rfl

theorem prefix?_withPrefix_plain (plain : '_' ∉ p.toList) (whole : '_' ∉ t.toList) :
    prefix? (withPrefix p t) = some p := by
  simp [prefix?, parts_withPrefix plain, parts_plain whole]

theorem prefix?_withPrefix_withPrefix (plain : '_' ∉ p.toList) (second : '_' ∉ u.toList) :
    prefix? (withPrefix p (withPrefix u t)) = none := by
  rw [prefix?, parts_withPrefix plain, parts_withPrefix second]
  cases found : parts t.toList with
  | nil => exact absurd found parts_ne_nil
  | cons first rest => rfl

theorem withPrefix_assoc : withPrefix (withPrefix p u) t = withPrefix p (withPrefix u t) := by
  simp [withPrefix, String.append_assoc]

/-- A text by as many of its underscores as reading looks at. -/
inductive Underscored : String → Prop where
  | none {s : String} (plain : '_' ∉ s.toList) : Underscored s
  | one {p t : String} (plain : '_' ∉ p.toList) (whole : '_' ∉ t.toList) :
      Underscored (withPrefix p t)
  | more {p u : String} (rest : String) (plain : '_' ∉ p.toList) (second : '_' ∉ u.toList) :
      Underscored (withPrefix p (withPrefix u rest))

theorem underscored (s : String) : Underscored s := by
  by_cases split : '_' ∈ s.toList
  next =>
    obtain ⟨p, t, plain, rfl⟩ := exists_eq_withPrefix split
    by_cases again : '_' ∈ t.toList
    next =>
      obtain ⟨u, rest, second, rfl⟩ := exists_eq_withPrefix again
      exact .more rest plain second
    next => exact .one plain again
  next => exact .none split

/-- Behind a prefix with an underscore nothing is seen of what it was put in front of. -/
theorem body_withPrefix_split (split : '_' ∈ p.toList) : body (withPrefix p t) = body p := by
  cases underscored p with
  | none plain => exact absurd split plain
  | one plain whole =>
    rw [withPrefix_assoc, body_withPrefix_withPrefix plain whole, body_withPrefix_plain plain whole]
  | more rest plain second =>
    rw [withPrefix_assoc, withPrefix_assoc, body_withPrefix_withPrefix plain second,
      body_withPrefix_withPrefix plain second]

theorem prefix?_withPrefix_split (split : '_' ∈ p.toList) : prefix? (withPrefix p t) = none := by
  cases underscored p with
  | none plain => exact absurd split plain
  | one plain whole => rw [withPrefix_assoc, prefix?_withPrefix_withPrefix plain whole]
  | more rest plain second =>
    rw [withPrefix_assoc, withPrefix_assoc, prefix?_withPrefix_withPrefix plain second]

theorem timestamp_congr (same : body s = body t) : timestamp s = timestamp t := by
  unfold timestamp isValid
  rw [same]

/-- What a prefix is put in front of a sortable identifier to is read back, as valid, with that
prefix and with its time, just when the prefix has no underscore. If it has one, the prefix is all
that is read. -/
theorem withPrefix_reads_back_iff (p : String) {u : String} (ulid : Ulid.isUlid u.toList = true) :
    ((isValid (withPrefix p u) = true ∧ prefix? (withPrefix p u) = some p ∧
        timestamp (withPrefix p u) = timestamp u) ↔ '_' ∉ p.toList) ∧
      ('_' ∈ p.toList → isValid (withPrefix p u) = isValid p ∧ prefix? (withPrefix p u) = none ∧
        timestamp (withPrefix p u) = timestamp p) := by
  have whole : '_' ∉ u.toList := Ulid.underscore_not_mem ulid
  refine ⟨⟨?_, ?_⟩, ?_⟩
  · rintro ⟨-, found, -⟩ split
    rw [prefix?_withPrefix_split split] at found
    cases found
  · intro plain
    have read : body (withPrefix p u) = u.toList := body_withPrefix_plain plain whole
    refine ⟨?_, prefix?_withPrefix_plain plain whole, timestamp_congr ?_⟩
    · rw [isValid, read, ulid]
    · rw [read, body_plain whole]
  · intro split
    have read : body (withPrefix p u) = body p := body_withPrefix_split split
    exact ⟨by rw [isValid, isValid, read], prefix?_withPrefix_split split, timestamp_congr read⟩

theorem withPrefix_reads_back_dispatch :
    let u := "01ARZ3NDEKTSV4RRFFQ69G5FAV"
    Ulid.isUlid u.toList = true ∧ '_' ∉ dispatchPrefix.toList ∧
      isValid (withPrefix dispatchPrefix u) = true ∧
      prefix? (withPrefix dispatchPrefix u) = some dispatchPrefix ∧
      timestamp (withPrefix dispatchPrefix u) = timestamp u := by
  intro u
  have ulid : Ulid.isUlid u.toList = true := by decide +kernel
  have plain : '_' ∉ dispatchPrefix.toList := by decide +kernel
  exact ⟨ulid, plain, (withPrefix_reads_back_iff dispatchPrefix ulid).1.mpr plain⟩

/-- With the prefix `a_b` nothing is read back: it is not valid, has no prefix and no time. -/
theorem withPrefix_underscore :
    let u := "01ARZ3NDEKTSV4RRFFQ69G5FAV"
    Ulid.isUlid u.toList = true ∧ isValid (withPrefix "a_b" u) = false ∧
      prefix? (withPrefix "a_b" u) = none ∧
      timestamp u = 1469922850259 ∧ timestamp (withPrefix "a_b" u) = 0 := by
  decide +kernel

/-- A sortable identifier, alone or behind the prefix that is read off it and an underscore. -/
def OptionallyPrefixed (s : String) : Prop :=
  Ulid.isUlid s.toList = true ∨
    ∃ p u, prefix? s = some p ∧ s = withPrefix p u ∧ Ulid.isUlid u.toList = true

/-- Valid is what is a sortable identifier, alone, behind a prefix, or behind a prefix and before
whatever else comes after a second underscore. -/
theorem isValid_iff :
    isValid s = true ↔ Ulid.isUlid s.toList = true ∨
      ∃ p u, '_' ∉ p.toList ∧ Ulid.isUlid u.toList = true ∧
        (s = withPrefix p u ∨ ∃ rest, s = withPrefix p (withPrefix u rest)) := by
  constructor
  · intro valid
    rw [isValid] at valid
    cases underscored s with
    | none plain =>
      rw [body_plain plain] at valid
      exact .inl valid
    | one plain whole =>
      rw [body_withPrefix_plain plain whole] at valid
      exact .inr ⟨_, _, plain, valid, .inl rfl⟩
    | more rest plain second =>
      rw [body_withPrefix_withPrefix plain second] at valid
      exact .inr ⟨_, _, plain, valid, .inr ⟨rest, rfl⟩⟩
  · rintro (ulid | ⟨p, u, plain, ulid, rfl | ⟨rest, rfl⟩⟩)
    · rw [isValid, body_plain (Ulid.underscore_not_mem ulid), ulid]
    · rw [isValid, body_withPrefix_plain plain (Ulid.underscore_not_mem ulid), ulid]
    · rw [isValid, body_withPrefix_withPrefix plain (Ulid.underscore_not_mem ulid), ulid]

theorem count_withPrefix :
    (withPrefix p t).toList.count '_' = p.toList.count '_' + t.toList.count '_' + 1 := by
  simp [toList_withPrefix, List.count_append, Nat.add_assoc]

/-- What is read as valid is an optionally prefixed sortable identifier just when it has no second
underscore. -/
theorem optionallyPrefixed_iff {s : String} (valid : isValid s = true) :
    OptionallyPrefixed s ↔ s.toList.count '_' ≤ 1 := by
  constructor
  · rintro (ulid | ⟨p, u, found, rfl, ulid⟩)
    · have none : s.toList.count '_' = 0 := List.count_eq_zero.mpr (Ulid.underscore_not_mem ulid)
      omega
    · have plain : '_' ∉ p.toList := by
        intro split
        rw [prefix?_withPrefix_split split] at found
        cases found
      have front : p.toList.count '_' = 0 := List.count_eq_zero.mpr plain
      have back : u.toList.count '_' = 0 :=
        List.count_eq_zero.mpr (Ulid.underscore_not_mem ulid)
      rw [count_withPrefix]
      omega
  · intro once
    rcases isValid_iff.mp valid with ulid | ⟨p, u, plain, ulid, rfl | ⟨rest, rfl⟩⟩
    · exact .inl ulid
    · have whole : '_' ∉ u.toList := Ulid.underscore_not_mem ulid
      exact .inr ⟨p, u, prefix?_withPrefix_plain plain whole, rfl, ulid⟩
    · simp only [count_withPrefix] at once
      omega

theorem optionallyPrefixed_render :
    let s := withPrefix renderPrefix "01ARZ3NDEKTSV4RRFFQ69G5FAV"
    isValid s = true ∧ OptionallyPrefixed s := by
  intro s
  have valid : isValid s = true := by decide +kernel
  exact ⟨valid, (optionallyPrefixed_iff valid).mpr (by decide +kernel)⟩

/-- What comes after a second underscore is not looked at. -/
theorem isValid_trailing :
    let s := "a_01ARZ3NDEKTSV4RRFFQ69G5FAV_b"
    isValid s = true ∧ ¬ OptionallyPrefixed s := by
  intro s
  have valid : isValid s = true := by decide +kernel
  refine ⟨valid, ?_⟩
  rintro (ulid | ⟨p, u, found, -, -⟩)
  · have other : Ulid.isUlid s.toList = false := by decide +kernel
    rw [other] at ulid
    cases ulid
  · have none : prefix? s = none := by decide +kernel
    rw [none] at found
    cases found

end Identifier

end ServerUI
