/-!
Finite maps with text keys, kept as lists of pairs in the order in which their keys were first
put in. Putting a key again changes its value and not its place.
-/

set_option autoImplicit false

namespace ServerUI

abbrev Entries (α : Type) := List (String × α)

namespace Entries

variable {α : Type}

def find? (es : Entries α) (key : String) : Option α :=
  match es with
  | [] => none
  | (k, v) :: rest => if k = key then some v else find? rest key

def keys (es : Entries α) : List String := es.map (·.1)

def contains (es : Entries α) (key : String) : Bool := (es.find? key).isSome

def insert (es : Entries α) (key : String) (value : α) : Entries α :=
  match es with
  | [] => [(key, value)]
  | (k, v) :: rest => if k = key then (key, value) :: rest else (k, v) :: insert rest key value

def erase (es : Entries α) (key : String) : Entries α :=
  match es with
  | [] => []
  | (k, v) :: rest => if k = key then rest else (k, v) :: erase rest key

def merge (es later : Entries α) : Entries α :=
  later.foldl (fun acc e => acc.insert e.1 e.2) es

def ofList (es : List (String × α)) : Entries α := merge [] es

def mapValues {β : Type} (f : α → β) (es : Entries α) : Entries β :=
  es.map fun (k, v) => (k, f v)

@[simp] theorem find?_nil (key : String) : find? ([] : Entries α) key = none := rfl

theorem find?_cons (k : String) (v : α) (es : Entries α) (key : String) :
    find? ((k, v) :: es) key = if k = key then some v else find? es key := rfl

theorem find?_singleton_eq_some {k key : String} {v w : α} :
    find? [(k, v)] key = some w ↔ k = key ∧ v = w := by
  simp [find?_cons]

theorem find?_eq_none {es : Entries α} {key : String} : find? es key = none ↔ key ∉ keys es := by
  induction es with
  | nil => simp [keys]
  | cons e es ih =>
      obtain ⟨k, v⟩ := e
      by_cases h : k = key
      · simp [find?_cons, keys, h]
      · simpa [find?_cons, keys, h, Ne.symm h] using ih

@[simp] theorem find?_insert_self (es : Entries α) (key : String) (value : α) :
    (es.insert key value).find? key = some value := by
  induction es with
  | nil => simp [insert, find?_cons]
  | cons e rest ih =>
      obtain ⟨k, v⟩ := e
      by_cases h : k = key <;> simp [insert, find?_cons, h, ih]

theorem find?_insert_of_ne (es : Entries α) {key other : String} (value : α) (h : other ≠ key) :
    (es.insert key value).find? other = es.find? other := by
  induction es with
  | nil => simp [insert, find?_cons, Ne.symm h]
  | cons e rest ih =>
      obtain ⟨k, v⟩ := e
      by_cases hk : k = key
      · subst hk; simp [insert, find?_cons, Ne.symm h]
      · simp only [insert, hk, if_false, find?_cons, ih]

theorem mem_of_mem_insert {es : Entries α} {key : String} {value : α} {e : String × α}
    (h : e ∈ es.insert key value) : e = (key, value) ∨ e ∈ es := by
  induction es with
  | nil => simpa [insert] using h
  | cons first rest ih =>
      obtain ⟨k, v⟩ := first
      by_cases same : k = key
      · simp only [insert, same, if_true, List.mem_cons] at h ⊢
        exact h.imp_right .inr
      · simp only [insert, same, if_false, List.mem_cons] at h ⊢
        rcases h with h | h
        · exact .inr (.inl h)
        · exact (ih h).imp_right .inr

theorem mem_of_mem_merge {es later : Entries α} {e : String × α} (h : e ∈ es.merge later) :
    e ∈ es ∨ e ∈ later := by
  induction later generalizing es with
  | nil => exact .inl h
  | cons first rest ih =>
      have merged : e ∈ (es.insert first.1 first.2).merge rest := h
      rcases ih merged with inside | inside
      · rcases mem_of_mem_insert inside with rfl | old
        · exact .inr List.mem_cons_self
        · exact .inl old
      · exact .inr (List.mem_cons_of_mem first inside)

theorem find?_merge_eq_some {es later : Entries α} {key : String} {value : α}
    (h : (es.merge later).find? key = some value) :
    (key, value) ∈ later ∨ es.find? key = some value := by
  induction later generalizing es with
  | nil => exact .inr h
  | cons e rest ih =>
      have later : ((es.insert e.1 e.2).merge rest).find? key = some value := h
      rcases ih later with inside | found
      · exact .inl (List.mem_cons_of_mem e inside)
      · by_cases same : key = e.1
        · rw [same, find?_insert_self] at found
          cases found
          exact .inl (same ▸ List.mem_cons_self)
        · rw [find?_insert_of_ne es e.2 same] at found
          exact .inr found

theorem mem_of_find? {es : Entries α} {key : String} {value : α}
    (h : es.find? key = some value) : (key, value) ∈ es := by
  induction es with
  | nil => simp at h
  | cons e rest ih =>
      obtain ⟨k, v⟩ := e
      rw [find?_cons] at h
      split at h
      · next same =>
          cases h
          exact same ▸ List.mem_cons_self
      · exact List.mem_cons_of_mem _ (ih h)

theorem find?_of_mem {es : Entries α} {e : String × α} (once : (keys es).Nodup) (member : e ∈ es) :
    es.find? e.1 = some e.2 := by
  induction es with
  | nil => simp at member
  | cons first rest ih =>
    obtain ⟨k, v⟩ := first
    simp only [keys, List.map_cons, List.nodup_cons] at once
    rw [find?_cons]
    cases member with
    | head => exact if_pos rfl
    | tail _ behind =>
      have apart : k ≠ e.1 := by
        intro same
        exact once.1 (same ▸ List.mem_map_of_mem behind)
      rw [if_neg apart]
      exact ih once.2 behind

theorem insert_insert_self (es : Entries α) (key : String) (first value : α) :
    (es.insert key first).insert key value = es.insert key value := by
  induction es with
  | nil => simp [insert]
  | cons e rest ih =>
      obtain ⟨k, v⟩ := e
      by_cases h : k = key <;> simp [insert, h, ih]

theorem mem_keys_insert {es : Entries α} {key other : String} {value : α} :
    other ∈ keys (es.insert key value) ↔ other = key ∨ other ∈ keys es := by
  induction es with
  | nil => simp [insert, keys]
  | cons e rest ih =>
      obtain ⟨k, v⟩ := e
      simp only [keys] at ih ⊢
      by_cases h : k = key
      · simp [insert, h]
      · simp only [insert, h, if_false, List.map_cons, List.mem_cons, ih]
        exact or_left_comm

-- A key that is there keeps its place, so its value may as well be put in first.
theorem insert_comm {es : Entries α} {key other : String} (value x : α) (there : key ∈ keys es)
    (h : other ≠ key) :
    (es.insert other x).insert key value = (es.insert key value).insert other x := by
  induction es with
  | nil => simp [keys] at there
  | cons e rest ih =>
      obtain ⟨k, v⟩ := e
      by_cases same : k = key
      · subst same
        simp [insert, Ne.symm h]
      · have behind : key ∈ keys rest := by simpa [keys, Ne.symm same] using there
        by_cases first : k = other <;> simp [insert, first, same, h, ih behind]

theorem insert_merge {es later : Entries α} {key : String} (value : α) (there : key ∈ keys es)
    (fresh : key ∉ keys later) :
    (es.merge later).insert key value = (es.insert key value).merge later := by
  induction later generalizing es with
  | nil => rfl
  | cons e rest ih =>
      obtain ⟨k, x⟩ := e
      simp only [keys, List.map_cons, List.mem_cons, not_or] at fresh
      calc ((es.insert k x).merge rest).insert key value
          = ((es.insert k x).insert key value).merge rest :=
            ih (mem_keys_insert.mpr (.inr there)) fresh.2
        _ = ((es.insert key value).insert k x).merge rest := by
            rw [insert_comm value x there (Ne.symm fresh.1)]

theorem merge_insert {es later : Entries α} (once : (keys later).Nodup) (key : String)
    (value : α) : es.merge (later.insert key value) = (es.merge later).insert key value := by
  induction later generalizing es with
  | nil => rfl
  | cons e rest ih =>
      obtain ⟨k, x⟩ := e
      simp only [keys, List.map_cons, List.nodup_cons] at once
      by_cases same : k = key
      · subst same
        have there : k ∈ keys (es.insert k x) := mem_keys_insert.mpr (.inl rfl)
        calc es.merge (insert ((k, x) :: rest) k value)
            = (es.insert k value).merge rest := by simp [insert, merge]
          _ = ((es.insert k x).merge rest).insert k value := by
              rw [insert_merge value there once.1, insert_insert_self]
      · calc es.merge (insert ((k, x) :: rest) key value)
            = (es.insert k x).merge (insert rest key value) := by simp [insert, same, merge]
          _ = ((es.insert k x).merge rest).insert key value := ih once.2

theorem keys_insert_of_mem {es : Entries α} {key : String} (value : α) (there : key ∈ keys es) :
    keys (es.insert key value) = keys es := by
  induction es with
  | nil => simp [keys] at there
  | cons e rest ih =>
      obtain ⟨k, v⟩ := e
      by_cases same : k = key
      · simp [insert, keys, same]
      · have behind : key ∈ keys rest := by simpa [keys, Ne.symm same] using there
        simpa [insert, keys, same] using ih behind

theorem insert_of_not_mem {es : Entries α} {key : String} (value : α) (missing : key ∉ keys es) :
    es.insert key value = es ++ [(key, value)] := by
  induction es with
  | nil => rfl
  | cons e rest ih =>
      obtain ⟨k, v⟩ := e
      simp only [keys, List.map_cons, List.mem_cons, not_or] at missing
      simpa [insert, Ne.symm missing.1] using ih missing.2

theorem keys_insert_of_not_mem {es : Entries α} {key : String} (value : α)
    (missing : key ∉ keys es) : keys (es.insert key value) = keys es ++ [key] := by
  simp [insert_of_not_mem value missing, keys]

theorem keys_erase (es : Entries α) (key : String) :
    keys (es.erase key) = (keys es).erase key := by
  induction es with
  | nil => rfl
  | cons e rest ih =>
      obtain ⟨k, v⟩ := e
      by_cases same : k = key
      · simp [erase, keys, same]
      · simpa [erase, keys, same, List.erase_cons] using ih

theorem find?_erase_of_ne (es : Entries α) {key other : String} (apart : other ≠ key) :
    (es.erase key).find? other = es.find? other := by
  induction es with
  | nil => rfl
  | cons e rest ih =>
      obtain ⟨k, v⟩ := e
      by_cases same : k = key
      · subst same
        simp [erase, find?_cons, Ne.symm apart]
      · simp [erase, find?_cons, same, ih]

theorem find?_erase_self {es : Entries α} {key : String} (once : (keys es).Nodup) :
    (es.erase key).find? key = none := by
  rw [find?_eq_none, keys_erase]
  exact once.not_mem_erase

theorem keys_mapValues {β : Type} (f : α → β) (es : Entries α) :
    keys (mapValues f es) = keys es := by
  simp [keys, mapValues]

theorem find?_mapValues {β : Type} (f : α → β) (es : Entries α) (key : String) :
    (mapValues f es).find? key = (es.find? key).map f := by
  induction es with
  | nil => rfl
  | cons e rest ih =>
      obtain ⟨k, v⟩ := e
      by_cases same : k = key
      · simp [mapValues, find?_cons, same]
      · simpa [mapValues, find?_cons, same] using ih

theorem find?_filter (p : String → Bool) (es : Entries α) (key : String) :
    find? (es.filter fun e => p e.1) key = if p key then es.find? key else none := by
  induction es with
  | nil => simp
  | cons e rest ih =>
      obtain ⟨k, v⟩ := e
      by_cases same : k = key
      · subst same
        cases kept : p k <;> simp [find?_cons, kept, ih]
      · cases kept : p k <;> simp [find?_cons, kept, same, ih]

section Laws

variable {es later : Entries α} {key : String} {value : α}

theorem erase_of_not_mem (missing : key ∉ keys es) : es.erase key = es := by
  induction es with
  | nil => rfl
  | cons e rest ih =>
      obtain ⟨k, v⟩ := e
      simp only [keys, List.map_cons, List.mem_cons, not_or] at missing
      simp [erase, Ne.symm missing.1, ih missing.2]

theorem insert_of_find? (there : es.find? key = some value) : es.insert key value = es := by
  induction es with
  | nil => cases there
  | cons e rest ih =>
    obtain ⟨k, v⟩ := e
    by_cases same : k = key
    · subst same
      simp only [find?_cons, if_true, Option.some.injEq] at there
      simp [insert, there]
    · simp only [find?_cons, same, if_false] at there
      simp [insert, same, ih there]

theorem erase_insert_self (missing : key ∉ keys es) : (es.insert key value).erase key = es := by
  induction es with
  | nil => simp [insert, erase]
  | cons e rest ih =>
    obtain ⟨k, v⟩ := e
    simp only [keys, List.map_cons, List.mem_cons, not_or] at missing
    have other : k ≠ key := Ne.symm missing.1
    simp [insert, erase, other, ih missing.2]

theorem erase_insert {other : String} (apart : other ≠ key) :
    (es.insert other value).erase key = (es.erase key).insert other value := by
  induction es with
  | nil => simp [insert, erase, apart]
  | cons e rest ih =>
    obtain ⟨k, v⟩ := e
    by_cases first : k = key
    · subst first
      simp [insert, erase, Ne.symm apart]
    · by_cases same : k = other
      · subst same
        simp [insert, erase, apart]
      · simp [insert, erase, first, same, ih]

theorem erase_merge (fresh : key ∉ keys later) :
    (es.merge later).erase key = (es.erase key).merge later := by
  induction later generalizing es with
  | nil => rfl
  | cons e rest ih =>
    obtain ⟨k, v⟩ := e
    simp only [keys, List.map_cons, List.mem_cons, not_or] at fresh
    calc (es.merge ((k, v) :: rest)).erase key
        = ((es.insert k v).erase key).merge rest := ih fresh.2
      _ = (es.erase key).merge ((k, v) :: rest) := by
          rw [erase_insert (Ne.symm fresh.1)]
          rfl

theorem find?_merge_of_not_mem (fresh : key ∉ keys later) :
    (es.merge later).find? key = es.find? key := by
  induction later generalizing es with
  | nil => rfl
  | cons e rest ih =>
    obtain ⟨k, v⟩ := e
    simp only [keys, List.map_cons, List.mem_cons, not_or] at fresh
    calc (es.merge ((k, v) :: rest)).find? key
        = (es.insert k v).find? key := ih fresh.2
      _ = es.find? key := find?_insert_of_ne es v fresh.1

theorem find?_merge (once : (keys later).Nodup) :
    (es.merge later).find? key = (later.find? key).or (es.find? key) := by
  induction later generalizing es with
  | nil => rfl
  | cons e rest ih =>
    obtain ⟨k, v⟩ := e
    simp only [keys, List.map_cons, List.nodup_cons] at once
    have behind : find? (merge es ((k, v) :: rest)) key =
        (find? rest key).or (find? (insert es k v) key) := ih once.2
    rw [behind, find?_cons]
    by_cases same : k = key
    · subst same
      have missing : find? rest k = none := find?_eq_none.mpr once.1
      simp [missing]
    · rw [if_neg same, find?_insert_of_ne es v (Ne.symm same)]

end Laws

end Entries

end ServerUI
