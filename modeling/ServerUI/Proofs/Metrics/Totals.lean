import ServerUI.Engine.World

/-!
What metrics come to: each counter is the number of its measurements.
-/

set_option autoImplicit false

namespace ServerUI

def Measurement.isNode : Measurement → Bool
  | node _ => true
  | _ => false

namespace Metrics

variable {κ α : Type} [DecidableEq κ]

def held (start : α) (key : κ) : List (κ × α) → α
  | [] => start
  | (k, a) :: rest => if k = key then a else held start key rest

theorem held_adjust (start : α) (f : α → α) (key other : κ) (l : List (κ × α)) :
    held start other (adjust start f key l) =
      if other = key then f (held start other l) else held start other l := by
  induction l with
  | nil => by_cases same : other = key <;> simp [adjust, held, same, Ne.symm]
  | cons e l ih =>
      obtain ⟨k, a⟩ := e
      rw [adjust]
      by_cases first : k = key <;> by_cases mine : k = other
      · simp [held, first, ← mine]
      · have apart : other ≠ key := fun same => mine (first.trans same.symm)
        simp [held, first, apart, apart.symm]
      · have apart : other ≠ key := fun same => first (mine.trans same)
        simp [held, mine, apart]
      · simpa [held, first, mine] using ih

/-- How often the actions counter was incremented under these two labels. -/
def actionCount (m : Metrics) (type outcome : String) : Nat := held 0 (type, outcome) m.actions

theorem recordAll_actionCount (m : Metrics) (ms : List Measurement) (type outcome : String) :
    (m.recordAll ms).actionCount type outcome =
      m.actionCount type outcome + ms.count (.action type outcome) := by
  induction ms generalizing m with
  | nil => simp [recordAll]
  | cons one ms ih =>
      have first : (m.record one).actionCount type outcome =
          m.actionCount type outcome + if one = .action type outcome then 1 else 0 := by
        cases one with
        | action t o =>
            simp only [record, actionCount, held_adjust, Measurement.action.injEq, Prod.mk.injEq]
            by_cases same : type = t ∧ outcome = o
            · simp [same]
            · have other : ¬(t = type ∧ o = outcome) := fun h => same ⟨h.1.symm, h.2.symm⟩
              simp [same, other]
        | _ => simp [record, actionCount]
      have rest := ih (m.record one)
      rw [List.count_cons, ← Nat.add_assoc, Nat.add_right_comm]
      simpa [recordAll, first, beq_iff_eq] using rest

theorem recordAll_apiFailures (m : Metrics) (ms : List Measurement) :
    (m.recordAll ms).apiFailures = m.apiFailures + ms.count .apiFailure := by
  induction ms generalizing m with
  | nil => simp [recordAll]
  | cons one ms ih =>
      have rest := ih (m.record one)
      rw [List.count_cons, ← Nat.add_assoc, Nat.add_right_comm]
      cases one <;> simpa [recordAll, record] using rest

def total : List (κ × Nat) → Nat
  | [] => 0
  | (_, n) :: rest => n + total rest

theorem total_adjust (key : κ) (l : List (κ × Nat)) :
    total (adjust 0 (· + 1) key l) = total l + 1 := by
  induction l with
  | nil => rfl
  | cons e l ih =>
      obtain ⟨k, n⟩ := e
      rw [adjust]
      split
      · simp only [total]
        omega
      · simp only [total, ih]
        omega

/-- How many nodes were counted, under whatever status. -/
def nodeTotal (m : Metrics) : Nat := total m.nodes

theorem recordAll_nodeTotal (m : Metrics) (ms : List Measurement) :
    (m.recordAll ms).nodeTotal = m.nodeTotal + ms.countP Measurement.isNode := by
  induction ms generalizing m with
  | nil => simp [recordAll]
  | cons one ms ih =>
      have first : (m.record one).nodeTotal =
          m.nodeTotal + if one.isNode then 1 else 0 := by
        cases one with
        | node status => exact total_adjust status m.nodes
        | _ => rfl
      have rest := ih (m.record one)
      rw [List.countP_cons, ← Nat.add_assoc, Nat.add_right_comm]
      simpa [recordAll, first] using rest

end Metrics

def Event.measurement? {ι : Type} : Event ι → Option Measurement
  | .measured m => some m
  | _ => none

/-- The totals of what was measured among events, counted from zero. -/
def Metrics.ofEvents {ι : Type} (es : List (Event ι)) : Metrics :=
  Metrics.recordAll {} (es.filterMap Event.measurement?)

namespace Event

variable {ι : Type}

def isApiFailure : Event ι → Bool
  | measured .apiFailure => true
  | _ => false

def isCount (type outcome : String) : Event ι → Bool
  | measured (.action t o) => t == type && o == outcome
  | _ => false

def isNodeCount : Event ι → Bool
  | measured m => m.isNode
  | _ => false

end Event

namespace Metrics

variable {ι : Type}

theorem actionCount_ofEvents (es : List (Event ι)) (type outcome : String) :
    (ofEvents es).actionCount type outcome = es.countP (Event.isCount type outcome) := by
  rw [ofEvents, recordAll_actionCount, List.count, List.countP_filterMap]
  simp only [actionCount, held, Nat.zero_add]
  refine List.countP_congr fun e _ => ?_
  cases e with
  | measured m => cases m <;> simp [Event.measurement?, Event.isCount]
  | _ => simp [Event.measurement?, Event.isCount]

theorem apiFailures_ofEvents (es : List (Event ι)) :
    (ofEvents es).apiFailures = es.countP Event.isApiFailure := by
  rw [ofEvents, recordAll_apiFailures, List.count, List.countP_filterMap, Nat.zero_add]
  refine List.countP_congr fun e _ => ?_
  cases e with
  | measured m => cases m <;> simp [Event.measurement?, Event.isApiFailure]
  | _ => simp [Event.measurement?, Event.isApiFailure]

theorem nodeTotal_ofEvents (es : List (Event ι)) :
    (ofEvents es).nodeTotal = es.countP Event.isNodeCount := by
  rw [ofEvents, recordAll_nodeTotal, List.countP_filterMap]
  refine (Nat.zero_add _).trans (List.countP_congr fun e _ => ?_)
  cases e <;> simp [Event.measurement?, Event.isNodeCount]

end Metrics

end ServerUI
