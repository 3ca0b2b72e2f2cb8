import ServerUI.Proofs.Metrics.Totals

/-!
Reading a journal step by step. Each step stands between the events that it began and that it ended,
so whatever is written down belongs to the innermost step that is running.
-/

set_option autoImplicit false

namespace ServerUI

variable {ι : Type}

namespace Event

def isBracket : Event ι → Bool
  | began .. | ended .. => true
  | _ => false

def step? : Event ι → Option (List Nat × Instruction)
  | began path i => some (path, i)
  | _ => none

end Event

namespace Dispatch

/-- The steps that are begun among events, with their places. -/
def begun (es : List (Event ι)) : List (List Nat × Instruction) := es.filterMap Event.step?

@[simp] theorem begun_nil : begun (ι := ι) [] = [] := rfl

@[simp] theorem begun_cons (e : Event ι) (es : List (Event ι)) :
    begun (e :: es) = e.step?.toList ++ begun es := by
  rw [begun, List.filterMap_cons]
  cases e.step? <;> rfl

@[simp] theorem begun_append (es es' : List (Event ι)) :
    begun (es ++ es') = begun es ++ begun es' :=
  List.filterMap_append

structure Step (ι : Type) where
  path : List Nat
  action : Instruction
  -- What was written down during the step, but not during a step inside it.
  own : List (Event ι)
  why : Option Failure

structure Ledger (ι : Type) where
  own : List (Event ι) := []
  -- The steps that have not ended, the innermost first, with what was written down around each.
  running : List (List Nat × Instruction × List (Event ι)) := []
  ended : List (Step ι) := []

namespace Ledger

def read (l : Ledger ι) : Event ι → Ledger ι
  | .began path i => { l with own := [], running := (path, i, l.own) :: l.running }
  | .ended path why =>
      match l.running with
      | (began, i, around) :: outer => ⟨around, outer, l.ended ++ [⟨began, i, l.own, why⟩]⟩
      | [] => { l with own := l.own ++ [.ended path why] }
  | e => { l with own := l.own ++ [e] }

def readAll (l : Ledger ι) (es : List (Event ι)) : Ledger ι := es.foldl read l

def of (es : List (Event ι)) : Ledger ι := readAll {} es

def events (l : Ledger ι) : List (Event ι) :=
  l.ended.flatMap Step.own ++ l.running.flatMap (fun r => r.2.2) ++ l.own

def steps (l : Ledger ι) : List (List Nat × Instruction) :=
  l.ended.map (fun s => (s.path, s.action)) ++ l.running.map (fun r => (r.1, r.2.1))

theorem read_of_not_bracket (l : Ledger ι) {e : Event ι} (h : e.isBracket = false) :
    l.read e = { l with own := l.own ++ [e] } := by
  cases e <;> simp_all [read, Event.isBracket]

/-- Every event is kept where it belongs, so what is counted among the events is the sum of what is
counted in the steps and outside them. -/
theorem countP_events_readAll {p : Event ι → Bool} (bracket : ∀ e, e.isBracket = true → p e = false)
    (l : Ledger ι) (es : List (Event ι)) :
    (l.readAll es).events.countP p = l.events.countP p + es.countP p := by
  induction es generalizing l with
  | nil => simp [readAll]
  | cons e es ih =>
      have first : (l.read e).events.countP p = l.events.countP p + if p e then 1 else 0 := by
        by_cases h : e.isBracket
        · rw [bracket e h]
          cases e with
          | began path i => simp [read, events, Nat.add_comm]
          | ended path why =>
              cases running : l.running with
              | nil => simp [read, running, events, bracket _ h]
              | cons r outer =>
                  obtain ⟨path, i, around⟩ := r
                  simp only [read, running, events, List.flatMap_append, List.flatMap_cons,
                    List.flatMap_nil, List.append_nil, List.countP_append, Bool.false_eq_true,
                    if_false]
                  omega
          | _ => simp [Event.isBracket] at h
        · rw [read_of_not_bracket l (by simpa using h)]
          simp [events, List.countP_append, List.countP_singleton, Nat.add_assoc]
      rw [List.countP_cons, ← Nat.add_assoc, Nat.add_right_comm, ← first]
      exact ih (l.read e)

/-- No step that began is lost. -/
theorem steps_readAll (l : Ledger ι) (es : List (Event ι)) :
    (l.readAll es).steps.Perm (l.steps ++ begun es) := by
  induction es generalizing l with
  | nil => simp [readAll]
  | cons e es ih =>
      have first : (l.read e).steps.Perm (l.steps ++ e.step?.toList) := by
        cases e with
        | began path i =>
            simp only [read, steps, Event.step?, Option.toList_some, List.map_cons,
              List.append_assoc]
            exact List.Perm.append_left _ (List.perm_append_singleton _ _).symm
        | ended path why =>
            cases running : l.running with
            | nil => simp [read, running, steps, Event.step?]
            | cons r outer => simp [read, running, steps, Event.step?]
        | _ => simp [read, steps, Event.step?]
      rw [begun_cons, ← List.append_assoc]
      exact (ih (l.read e)).trans (first.append_right _)

end Ledger

/-- The events are those of the steps, which all ended, and besides them those that stand by
themselves. -/
def Books (own : List (Event ι)) (steps : List (Step ι)) (es : List (Event ι)) : Prop :=
  ∀ l : Ledger ι, l.readAll es = { l with own := l.own ++ own, ended := l.ended ++ steps }

namespace Books

variable {own own' es es' : List (Event ι)} {steps steps' : List (Step ι)}

theorem nil : Books (ι := ι) [] [] [] := fun l => by simp [Ledger.readAll]

theorem event {e : Event ι} (h : e.isBracket = false) : Books [e] [] [e] := fun l => by
  simp [Ledger.readAll, Ledger.read_of_not_bracket l h]

theorem append (first : Books own steps es) (next : Books own' steps' es') :
    Books (own ++ own') (steps ++ steps') (es ++ es') := fun l => by
  have both : l.readAll (es ++ es') = (l.readAll es).readAll es' := List.foldl_append
  rw [both, first l, next]
  simp

theorem events (h : ∀ e ∈ es, e.isBracket = false) : Books es [] es := by
  induction es with
  | nil => exact nil
  | cons e es ih =>
      exact (event (h e List.mem_cons_self)).append
        (ih fun e member => h e (List.mem_cons_of_mem _ member))

theorem before {e : Event ι} (h : e.isBracket = false) (next : Books own steps es) :
    Books (e :: own) steps (e :: es) := (event h).append next

theorem after (first : Books own steps es) (h : ∀ e ∈ es', e.isBracket = false) :
    Books (own ++ es') steps (es ++ es') := by
  simpa using first.append (events h)

theorem step (inside : Books own steps es) (path : List Nat) (i : Instruction)
    (why : Option Failure) :
    Books [] (steps ++ [⟨path, i, own, why⟩]) (.began path i :: es ++ [.ended path why]) :=
  fun l => by
    let began : Ledger ι := { l with own := [], running := (path, i, l.own) :: l.running }
    have whole : l.readAll (.began path i :: es ++ [.ended path why]) =
        (began.readAll es).read (.ended path why) := by
      simp [Ledger.readAll, Ledger.read, began]
    rw [whole, inside began]
    simp [began, Ledger.read]

theorem ledger (h : Books own steps es) : Ledger.of es = ⟨own, [], steps⟩ := by
  rw [Ledger.of, h {}]
  rfl

theorem countP {p : Event ι → Bool} (bracket : ∀ e, e.isBracket = true → p e = false)
    (h : Books own steps es) : es.countP p = (steps.flatMap Step.own).countP p + own.countP p := by
  have total := Ledger.countP_events_readAll bracket {} es
  rw [h {}] at total
  simpa [Ledger.events] using total.symm

theorem perm_steps (h : Books own steps es) :
    (steps.map fun s => (s.path, s.action)).Perm (begun es) := by
  have all := Ledger.steps_readAll {} es
  rw [h {}] at all
  simpa [Ledger.steps] using all

end Books

end Dispatch

end ServerUI
