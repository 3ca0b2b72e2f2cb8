import ServerUI.Json.Limits
import ServerUI.Proofs.Action.Everywhere

/-!
What a document decodes to is a plain value: the reader keeps nothing but plain values on its
stack, and puts them together to lists and mappings.
-/

set_option autoImplicit false

namespace ServerUI

namespace Json

def Frame.IsJson : Frame → Prop
  | .array items => ∀ v ∈ items, v.IsJson
  | .object entries _ => ∀ e ∈ entries, e.2.IsJson

namespace Machine

structure IsJson (m : Machine) : Prop where
  stack : ∀ f ∈ m.stack, f.IsJson
  result : ∀ v, m.expect = .nothing v → v.IsJson

variable {m m' : Machine} {t : Token} {stack : List Frame}

theorem isJson_deliver {v : Value} (hv : v.IsJson) (h : ∀ f ∈ stack, f.IsJson) :
    (deliver v stack).IsJson := by
  cases stack with
  | nil => exact ⟨by simp [deliver], by simp [deliver, hv]⟩
  | cons frame rest =>
      simp only [List.mem_cons, forall_eq_or_imp] at h
      cases frame with
      | array items =>
          refine ⟨?_, by simp [deliver]⟩
          simp only [deliver, List.mem_cons, forall_eq_or_imp]
          exact ⟨by simpa [Frame.IsJson, hv] using h.1, h.2⟩
      | object entries key =>
          refine ⟨?_, by simp [deliver]⟩
          simp only [deliver, List.mem_cons, forall_eq_or_imp]
          refine ⟨fun e member => ?_, h.2⟩
          rcases Entries.mem_of_mem_insert member with rfl | old
          · exact hv
          · exact h.1 e old

theorem isJson_openFrame {expect : Expect} {frame : Frame} (h : ∀ f ∈ stack, f.IsJson)
    (hf : frame.IsJson) (waiting : ∀ v, expect ≠ .nothing v)
    (opened : openFrame expect frame stack = some m) : m.IsJson := by
  unfold openFrame at opened
  split at opened <;> cases opened
  exact ⟨by simpa [hf] using h, fun v same => absurd same (waiting v)⟩

theorem isJson_begin (h : ∀ f ∈ stack, f.IsJson) (begun : begin t stack = some m) : m.IsJson := by
  have leaf {v : Value} (plain : v.isPlain = true) (empty : v.parts = []) : v.IsJson :=
    .intro plain (by simp [empty])
  cases t <;> simp only [begin, Option.some.injEq, reduceCtorEq] at begun
  case arrayOpen => exact isJson_openFrame h (by simp [Frame.IsJson]) (by simp) begun
  case objectOpen => exact isJson_openFrame h (by simp [Frame.IsJson]) (by simp) begun
  all_goals
    subst begun
    exact isJson_deliver (leaf rfl rfl) h

theorem isJson_close (h : ∀ f ∈ stack, f.IsJson) (closed : close t stack = some m) : m.IsJson := by
  unfold close at closed
  split at closed <;> cases closed
  · next items rest =>
      simp only [List.mem_cons, forall_eq_or_imp] at h
      refine isJson_deliver (.intro rfl fun v member => h.1 v ?_) h.2
      simpa [Value.parts] using member
  · next entries key rest =>
      simp only [List.mem_cons, forall_eq_or_imp] at h
      exact isJson_deliver (.of_entries rfl h.1) h.2

theorem isJson_name (h : ∀ f ∈ stack, f.IsJson) (named : name t stack = some m) : m.IsJson := by
  unfold name at named
  split at named <;> cases named
  exact ⟨by simpa [Frame.IsJson] using h, by simp⟩

theorem isJson_step (h : m.IsJson) (stepped : m.step t = some m') : m'.IsJson := by
  have still {expect : Expect} (waiting : ∀ v, expect ≠ .nothing v) :
      Machine.IsJson ⟨expect, m.stack⟩ := ⟨h.stack, fun v same => absurd same (waiting v)⟩
  unfold step at stepped
  split at stepped
  · exact isJson_begin h.stack stepped
  · split at stepped
    · exact isJson_close h.stack stepped
    · exact isJson_begin h.stack stepped
  · split at stepped
    · exact isJson_close h.stack stepped
    · exact isJson_name h.stack stepped
  · exact isJson_name h.stack stepped
  · split at stepped <;> cases stepped
    exact still (by simp)
  · split at stepped
    · split at stepped <;> cases stepped
      · exact still (by simp)
      · exact still (by simp)
    · exact isJson_close h.stack stepped
  · cases stepped

theorem isJson_run {ts : List Token} (h : m.IsJson) (ran : m.run ts = some m') : m'.IsJson := by
  induction ts generalizing m with
  | nil =>
      cases ran
      exact h
  | cons t ts ih =>
      obtain ⟨next, stepped, ran⟩ := Option.bind_eq_some_iff.mp ran
      exact ih (isJson_step h stepped) ran

end Machine

theorem isJson_of_ofTokens? {ts : List Token} {v : Value} (h : ofTokens? ts = some v) :
    v.IsJson := by
  obtain ⟨m, ran, result⟩ := Option.bind_eq_some_iff.mp h
  have start : Machine.start.IsJson := ⟨by simp [Machine.start], by simp [Machine.start]⟩
  unfold Machine.result? at result
  split at result <;> cases result
  next same => exact (Machine.isJson_run start ran).result v same

end Json

theorem Document.isJson_of_parse {d : Document} {v : Value} (h : d.parse = .ok v) : v.IsJson := by
  unfold parse at h
  split at h <;> cases h
  next found =>
    obtain ⟨s, -, read⟩ := Option.bind_eq_some_iff.mp found
    obtain ⟨ts, -, tokens⟩ := Option.bind_eq_some_iff.mp read
    exact Json.isJson_of_ofTokens? tokens

end ServerUI
