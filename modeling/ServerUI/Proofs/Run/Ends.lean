import ServerUI.Engine.Trace

/-!
How runs end: with a value of some kind, or with a failure of some kind. What is said of the value
of a run carries over to the runs that are put together from it, whatever these log, count, time
and trace on the way.
-/

set_option autoImplicit false

namespace ServerUI

variable {ι σ α β : Type}

namespace Run

variable {F G : Failure → Prop} {P : α → Prop} {Q : β → Prop} {x : Run ι σ α}

/-- In any world, the run ends with a value as in `P` or with a failure as in `F`. -/
def Ends (F : Failure → Prop) (P : α → Prop) (x : Run ι σ α) : Prop :=
  ∀ w, match (exec x w).1 with
    | .ok a => P a
    | .error f => F f

/-- The same of a result that a run has come to. -/
def Result (F : Failure → Prop) (P : α → Prop) : Except Failure α → Prop
  | .ok a => P a
  | .error f => F f

/-- In no world does the run end with a value. -/
abbrev Fails (x : Run ι σ α) : Prop := Ends (fun _ => True) (fun _ => False) x

theorem ends_pure {a : α} (h : P a) : Ends F P (pure a : Run ι σ α) := fun _ => h

theorem ends_throw {f : Failure} (h : F f) : Ends F P (throw f : Run ι σ α) := fun _ => h

theorem ends_ofExcept {r : Except Failure α} (h : Result F P r) :
    Ends F P (ofExcept r : Run ι σ α) := fun _ => h

theorem ends_log (level : Log.Level) (event : String) (fields : Dict) :
    Ends F (fun _ => True) (log level event fields : Run ι σ Unit) := fun _ => trivial

theorem ends_measure (metered : Bool) (m : Measurement) :
    Ends F (fun _ => True) (measure metered m : Run ι σ Unit) := fun w => by
  rw [exec_measure]
  trivial

theorem ends_now : Ends F (fun _ => True) (now : Run ι σ Binary64) := fun _ => trivial

theorem ends_newId (sequence : Nat) (pre : String) :
    Ends F (fun _ => True) (newId sequence pre : Run ι σ String) := fun _ => trivial

theorem ends_somehow (x : Run ι σ α) : Ends (fun _ => True) (fun _ => True) x := fun w => by
  cases (exec x w).1 <;> trivial

namespace Ends

theorem bind {f : α → Run ι σ β} (first : Ends F P x) (next : ∀ a, P a → Ends F Q (f a)) :
    Ends F Q (x >>= f) := by
  intro w
  have here := first w
  rw [exec_bind]
  cases ran : exec x w with
  | mk result w' =>
      rw [ran] at here
      cases result with
      | ok a => exact next a here w'
      | error f => exact here

theorem map {f : α → β} (h : Ends F P x) (image : ∀ a, P a → Q (f a)) : Ends F Q (f <$> x) := by
  rw [map_eq_pure_bind]
  exact h.bind fun a ha => ends_pure (image a ha)

theorem mono {P' : α → Prop} (h : Ends F P x) (failure : ∀ f, F f → G f)
    (value : ∀ a, P a → P' a) : Ends G P' x := by
  intro w
  have here := h w
  cases ran : (exec x w).1 with
  | ok a => exact value a (by simpa [ran] using here)
  | error f => exact failure f (by simpa [ran] using here)

theorem attempt (h : Ends F P x) : Ends G (Result F P) (attempt x) := h

theorem within (bindings : Dict) (h : Ends F P x) : Ends F P (within bindings x) := by
  intro w
  rw [exec_within]
  exact h _

theorem failure {w w' : World ι σ} {f : Failure} (h : Ends F P x)
    (ran : exec x w = (.error f, w')) : F f := by
  simpa [ran] using h w

theorem value {w w' : World ι σ} {a : α} (h : Ends F P x) (ran : exec x w = (.ok a, w')) :
    P a := by
  simpa [ran] using h w

theorem returns (h : Ends (fun _ => False) P x) (w : World ι σ) :
    ∃ a w', exec x w = (.ok a, w') := by
  have here := h w
  cases ran : exec x w with
  | mk result w' =>
      cases result with
      | ok a => exact ⟨a, w', rfl⟩
      | error f => simp [ran] at here

theorem reaches (h : Ends (fun _ => False) P x) (w : World ι σ) :
    ∃ a w', exec x w = (.ok a, w') ∧ P a := by
  obtain ⟨a, w', ran⟩ := h.returns w
  exact ⟨a, w', ran, h.value ran⟩

end Ends

namespace Fails

theorem first (h : x.Fails) (f : α → Run ι σ β) : (x >>= f).Fails := h.bind fun _ => False.elim

theorem later (x : Run ι σ α) {f : α → Run ι σ β} (h : ∀ a, (f a).Fails) : (x >>= f).Fails :=
  (ends_somehow x).bind fun a _ => h a

theorem map (h : x.Fails) (f : α → β) : (f <$> x).Fails := Ends.map h fun _ => False.elim

theorem exists_error (h : x.Fails) (w : World ι σ) : ∃ f w', exec x w = (.error f, w') := by
  have here := h w
  cases ran : exec x w with
  | mk result w' =>
      cases result with
      | ok a => simp [ran] at here
      | error f => exact ⟨f, w', rfl⟩

end Fails

theorem ends_logAll (records : List Log.Record) :
    Ends F (fun _ => True) (logAll records : Run ι σ Unit) := by
  induction records with
  | nil => exact ends_pure trivial
  | cons record rest ih => exact (ends_log _ _ _).bind fun _ _ => ih

end Run

namespace Trace

variable {P : α → Prop} {body : Run ι σ α}

theorem ends_scope {F : Failure → Prop} (name : String) (h : Run.Ends F P body) :
    Run.Ends F P (scope name body) :=
  (Run.ends_measure _ _).bind fun _ _ => Run.ends_now.bind fun _ _ => h.attempt.bind fun _ ended =>
    Run.ends_now.bind fun _ _ => (Run.ends_measure _ _).bind fun _ _ => Run.ends_ofExcept ended

theorem clash?_eq_none {own fields : Dict} :
    clash? own fields = none ↔ ∀ key ∈ Entries.keys fields, key ∉ Entries.keys own := by
  simp [clash?, Entries.contains, Entries.find?_eq_none]

/-- The fields of a traced operation are not those of its records. -/
def Fresh (fields : Dict) : Prop :=
  Log.hasReserved fields = false ∧
    ∀ key ∈ Entries.keys fields, key ∉ ["operation", "error", "duration_ms"]

theorem Fresh.clash?_end {fields : Dict} (fresh : Fresh fields) (name duration : Value) :
    clash? [("operation", name), ("duration_ms", duration)] fields = none :=
  clash?_eq_none.mpr fun key member => by
    have := fresh.2 key member
    simp_all [Entries.keys]

theorem Fresh.clash?_failure {fields : Dict} (fresh : Fresh fields) (name error duration : Value) :
    clash? [("operation", name), ("error", error), ("duration_ms", duration)] fields = none :=
  clash?_eq_none.mpr fresh.2

theorem ends_operation {F : Failure → Prop} (name : Value) {fields : Dict} (fresh : Fresh fields)
    (h : Run.Ends F P body) : Run.Ends F P (operation name fields body) := by
  have logEnd (start : Binary64) :
      Run.Ends F (fun _ => True) (logEnd name fields start : Run ι σ Unit) := by
    refine Run.ends_now.bind fun stop _ => ?_
    simp only [fresh.clash?_end]
    split <;> exact Run.ends_log _ _ _
  have logFailure (start : Binary64) (f : Failure) :
      Run.Ends F (fun _ => True) (logFailure name fields start f : Run ι σ Unit) := by
    refine Run.ends_now.bind fun stop _ => ?_
    simp only [fresh.clash?_failure]
    exact Run.ends_log _ _ _
  refine Run.ends_now.bind fun start _ => ?_
  simp only [fresh.1, Bool.false_eq_true, if_false]
  refine (Run.ends_log _ _ _).bind fun _ _ => h.attempt.bind fun r ended => ?_
  cases r with
  | error f =>
      dsimp only
      split
      · exact (logFailure start f).bind fun _ _ => Run.ends_throw ended
      · exact Run.ends_throw ended
  | ok a => exact (logEnd start).bind fun _ _ => Run.ends_pure ended

end Trace

end ServerUI
