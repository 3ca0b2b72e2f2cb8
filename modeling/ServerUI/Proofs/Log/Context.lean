import ServerUI.Log.Context

/-!
What a scope binds, and that its end puts back the context that it began with.
-/

set_option autoImplicit false

namespace ServerUI

namespace Log.Context

variable {context bindings : Dict}

-- One name is put back whatever was bound after it.
theorem putBack_merge {name : String} {value : Value} (fresh : name ∉ Entries.keys bindings) :
    putBack (Entries.merge (Entries.insert context name value) bindings) name
      (Entries.find? context name) = Entries.merge context bindings := by
  cases before : Entries.find? context name with
  | none =>
    have missing : name ∉ Entries.keys context := Entries.find?_eq_none.mp before
    rw [putBack, Entries.erase_merge fresh, Entries.erase_insert_self missing]
  | some old =>
    have there : name ∈ Entries.keys (Entries.insert context name value) :=
      Entries.mem_keys_insert.mpr (.inl rfl)
    rw [putBack, Entries.insert_merge old there fresh, Entries.insert_insert_self,
      Entries.insert_of_find? before]

theorem restore_bind (once : (Entries.keys bindings).Nodup) :
    restore (bind context bindings) (save context bindings) = context := by
  induction bindings with
  | nil => rfl
  | cons binding rest ih =>
    obtain ⟨name, value⟩ := binding
    simp only [Entries.keys, List.map_cons, List.nodup_cons] at once
    calc restore (bind context ((name, value) :: rest)) (save context ((name, value) :: rest))
        = restore (putBack (Entries.merge (Entries.insert context name value) rest) name
            (Entries.find? context name)) (save context rest) := rfl
      _ = restore (bind context rest) (save context rest) := by
          rw [putBack_merge once.1]
          rfl
      _ = context := ih once.2

end Log.Context

end ServerUI
