import ServerUI.Proofs.Run.Ends
import ServerUI.Proofs.Run.Requests

/-!
Runs that take one course whatever world they start in: they end in one way, and ask the client for
the same on the way. The course of what is put together from such runs is put together from theirs.
-/

set_option autoImplicit false

namespace ServerUI

variable {ι σ α β : Type}

structure Course (ι α : Type) where
  result : Except Failure α
  requests : List (ι × Request)

namespace Course

instance : Monad (Course ι) where
  pure a := ⟨.ok a, []⟩
  bind c next :=
    match c.result with
    | .ok a => ⟨(next a).result, c.requests ++ (next a).requests⟩
    | .error f => ⟨.error f, c.requests⟩

theorem ok_bind (a : α) (cs : List (ι × Request)) (next : α → Course ι β) :
    ((⟨.ok a, cs⟩ : Course ι α) >>= next) = ⟨(next a).result, cs ++ (next a).requests⟩ := rfl

end Course

namespace Run

def Takes (x : Run ι σ α) (c : Course ι α) : Prop :=
  ∀ w, (exec x w).1 = c.result ∧
    ∃ es, (exec x w).2.journal = w.journal ++ es ∧ requests es = c.requests

/-- The run takes some course. -/
def Determinate : Property ι σ := fun _ x => ∃ c, Takes x c

/-- The run returns, and asks for nothing. -/
def Silent (x : Run ι σ α) : Prop :=
  ∀ w, ∃ a w' es, exec x w = (.ok a, w') ∧ w'.journal = w.journal ++ es ∧ requests es = []

namespace Takes

variable {x : Run ι σ α} {c : Course ι α}

theorem ofExcept (r : Except Failure α) : Takes (ofExcept r : Run ι σ α) ⟨r, []⟩ :=
  fun _ => ⟨rfl, [], by simp, rfl⟩

theorem pure (a : α) : Takes (pure a : Run ι σ α) (pure a) := ofExcept (.ok a)

theorem throw (f : Failure) : Takes (throw f : Run ι σ α) ⟨.error f, []⟩ := ofExcept (.error f)

theorem bind {g : α → Run ι σ β} {k : α → Course ι β} (first : Takes x c)
    (next : ∀ a, Takes (g a) (k a)) : Takes (x >>= g) (c >>= k) := by
  intro w
  obtain ⟨result, es, added, asked⟩ := first w
  obtain ⟨r, cs⟩ := c
  rw [exec_bind]
  cases ran : exec x w with
  | mk r' w' =>
      simp only [ran] at result added
      subst result
      cases r' with
      | error f => exact ⟨rfl, es, added, asked⟩
      | ok a =>
          obtain ⟨result, es', added', asked'⟩ := next a w'
          refine ⟨result, es ++ es', ?_, ?_⟩
          · simp only [added', added, List.append_assoc]
          · rw [requests_append, asked, asked', Course.ok_bind]

theorem map (f : α → β) (h : Takes x c) : Takes (f <$> x) (f <$> c) := by
  rw [map_eq_pure_bind]
  exact h.bind fun a => pure (f a)

theorem attempt {g : Except Failure α → Run ι σ α} (h : Takes x c)
    (next : ∀ r, Takes (g r) ⟨r, []⟩) : Takes (attempt x >>= g) c := by
  have attempted : Takes (Run.attempt x) ⟨.ok c.result, c.requests⟩ := by
    intro w
    obtain ⟨result, asked⟩ := h w
    exact ⟨congrArg Except.ok result, asked⟩
  have all := attempted.bind next
  rwa [Course.ok_bind, List.append_nil] at all

theorem ends {F : Failure → Prop} {P : α → Prop} (h : Takes x c) (ended : Result F P c.result) :
    Ends F P x := by
  intro w
  rw [(h w).1]
  exact ended

end Takes

namespace Silent

theorem of_after {x : Run ι σ α}
    (h : ∀ w, ∃ a es, exec x w = (.ok a, w.after es) ∧ requests es = []) : Silent x := by
  intro w
  obtain ⟨a, es, ran, nothing⟩ := h w
  exact ⟨a, _, es, ran, rfl, nothing⟩

theorem log (level : Log.Level) (event : String) (fields : Dict) :
    Silent (log level event fields : Run ι σ Unit) :=
  of_after fun w => ⟨_, _, exec_log level event fields w, rfl⟩

theorem measure (metered : Bool) (m : Measurement) : Silent (measure metered m : Run ι σ Unit) :=
  of_after fun w => ⟨_, _, exec_measure metered m w, by cases metered <;> rfl⟩

theorem now : Silent (now : Run ι σ Binary64) := fun w => ⟨_, _, [], exec_now w, by simp, rfl⟩

variable {x : Run ι σ α} {g : α → Run ι σ β}

theorem bind (first : Silent x) (next : ∀ a, Silent (g a)) : Silent (x >>= g) := by
  intro w
  obtain ⟨a, w₁, es, ran, added, nothing⟩ := first w
  obtain ⟨b, w₂, es', ran', added', nothing'⟩ := next a w₁
  refine ⟨b, w₂, es ++ es', by simp [exec_bind, ran, ran'], by simp [added, added'], ?_⟩
  simp [nothing, nothing']

theorem before {c : Course ι β} (first : Silent x) (next : ∀ a, Takes (g a) c) :
    Takes (x >>= g) c := by
  intro w
  obtain ⟨a, w', es, ran, added, nothing⟩ := first w
  obtain ⟨result, es', added', asked⟩ := next a w'
  simp only [exec_bind, ran]
  exact ⟨result, es ++ es', by simp [added, added'], by simp [nothing, asked]⟩

theorem takes {x : Run ι σ Unit} (silent : Silent x) : Takes x (Pure.pure ()) := by
  have alone := silent.before fun _ => Takes.pure ()
  rwa [bind_pure_unit] at alone

end Silent

theorem Determinate.drawing :
    Renderer.Drawing (fun _ => True) (Determinate (ι := ι) (σ := σ)) where
  pure a := ⟨_, .pure a⟩
  bind first next := by
    obtain ⟨c, first⟩ := first
    obtain ⟨k, next⟩ := Classical.skolem.mp next
    exact ⟨c >>= k, first.bind next⟩
  log level event _ _ := ⟨_, (Silent.log level event _).takes⟩
  measure metered _ _ := ⟨_, (Silent.measure metered _).takes⟩
  ordinary _ _ := trivial
  throw f _ := ⟨_, .throw f⟩

end Run

namespace Trace

variable {body : Run ι σ α} {c : Course ι α}

theorem takes_scope (name : String) (h : Run.Takes body c) : Run.Takes (scope name body) c := by
  refine (Run.Silent.measure _ _).before fun _ => Run.Silent.now.before fun start => ?_
  refine h.attempt fun r => Run.Silent.now.before fun stop => ?_
  exact (Run.Silent.measure _ _).before fun _ => .ofExcept r

theorem takes_operation (name : Value) {fields : Dict} (fresh : Fresh fields)
    (h : Run.Takes body c) : Run.Takes (operation name fields body) c := by
  have logEnd (start : Binary64) : Run.Silent (logEnd name fields start : Run ι σ Unit) := by
    refine Run.Silent.now.bind fun stop => ?_
    simp only [fresh.clash?_end]
    split <;> exact Run.Silent.log _ _ _
  have logFailure (start : Binary64) (f : Failure) :
      Run.Silent (logFailure name fields start f : Run ι σ Unit) := by
    refine Run.Silent.now.bind fun stop => ?_
    simp only [fresh.clash?_failure]
    exact Run.Silent.log _ _ _
  refine Run.Silent.now.before fun start => ?_
  simp only [fresh.1, Bool.false_eq_true, if_false]
  refine (Run.Silent.log _ _ _).before fun _ => h.attempt fun r => ?_
  cases r with
  | error f =>
      dsimp only
      split
      · exact (logFailure start f).before fun _ => .throw f
      · exact .throw f
  | ok a => exact (logEnd start).before fun _ => .pure a

end Trace

end ServerUI
