import ServerUI.Engine.Dispatch

/-!
The table of effects against the models of actions. Each effect has a row that names the handler for
its kind and all its fields besides the type, in the order in which its model declares them, so that
dispatching it asks that handler and fails to find neither the handler nor a field.
-/

set_option autoImplicit false

namespace ServerUI

variable {ι σ : Type}

/-- The fields of an action besides its type, in the order in which its model declares them. -/
def Action.untagged (a : Action) : Dict := a.fields.filter fun field => field.1 ≠ "type"

namespace Effect

def arguments (e : Effect) : List Value := (Action.effect e).untagged.map (·.2)

def row (e : Effect) : EffectRow :=
  ⟨e.kind.handlerName, Entries.keys (Action.effect e).untagged⟩

theorem find?_effectTable (e : Effect) : Entries.find? effectTable e.kind.name = some e.row := by
  cases e <;> rfl

theorem ofHandlerName_row (e : Effect) : ActionKind.ofHandlerName e.row.handler = .ok e.kind := by
  cases e <;> rfl

theorem fields_once (e : Effect) : (Entries.keys (Action.effect e).fields).Nodup := by
  cases e <;> simp [Action.fields, Effect.fields, Entries.keys]

end Effect

/-- Attributes that a model has are found, each with its own value. -/
theorem Action.mapM_field {a : Action} (once : (Entries.keys a.fields).Nodup) {fields : Dict}
    (own : ∀ field ∈ fields, field ∈ a.fields) :
    (Entries.keys fields).mapM a.field = .ok (fields.map (·.2)) := by
  induction fields with
  | nil => rfl
  | cons field rest ih =>
    have first : a.field field.1 = .ok field.2 := by
      rw [Action.field, Entries.find?_of_mem once (own field (.head _))]
    have others := ih fun field member => own field (.tail _ member)
    simp only [Entries.keys, List.map_cons, List.mapM_cons] at others ⊢
    rw [first, others]
    rfl

theorem Effect.mapM_field (e : Effect) :
    e.row.fields.mapM (Action.effect e).field = .ok e.arguments :=
  Action.mapM_field e.fields_once fun _ member => (List.mem_filter.mp member).1

/-- An effect asks the handler for its kind, with all its fields besides the type. -/
theorem Dispatch.runEffect_eq (ask : Ask ι σ) (dispatcher : Nat) (e : Effect) :
    runEffect ask dispatcher e = (do
      let h ← handlers dispatcher
      match h.effects e.kind with
      | none =>
          Run.log .debug "effect_handler_missing"
            [("action_type", .str e.kind.name), ("handler", .str e.kind.handlerName)]
          count dispatcher e.kind.name .unhandled
      | some part =>
          let _ ← ask part (.effect e.kind e.arguments)
          count dispatcher e.kind.name .handled) := by
  rw [runEffect, e.find?_effectTable]
  simp only [e.ofHandlerName_row, e.mapM_field, Run.ofExcept_ok_bind]
  rfl

end ServerUI
