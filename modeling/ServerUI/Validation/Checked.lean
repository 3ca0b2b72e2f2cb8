import ServerUI.Validation.Fault

/-!
The outcome of validating a value. Parts are validated side by side: where several are wrong
the faults of all are kept, in the order of the parts. A value that cannot be looked up at all
ends validation at once.
-/

set_option autoImplicit false

namespace ServerUI

inductive Checked (α : Type) where
  | ok (value : α)
  | faults (fs : List Fault)
  | unhashable (type : String)
deriving Repr

namespace Checked

variable {α β : Type}

def fault (rule : Rule) : Checked α := .faults [⟨[], rule⟩]

def map (f : α → β) : Checked α → Checked β
  | ok a => ok (f a)
  | faults fs => faults fs
  | unhashable t => unhashable t

/-- Applies one outcome to another, keeping the faults of both. -/
def ap (f : Checked (α → β)) (x : Checked α) : Checked β :=
  match f, x with
  | ok f, x => x.map f
  | unhashable t, _ => unhashable t
  | faults fs, ok _ => faults fs
  | faults fs, faults gs => faults (fs ++ gs)
  | faults _, unhashable t => unhashable t

instance : Functor Checked where
  map f x := x.map f

instance : Applicative Checked where
  pure := ok
  seq f x := ap f (x ())

def under (step : PathStep) : Checked α → Checked α
  | ok a => ok a
  | faults fs => faults (fs.map (Fault.under step))
  | unhashable t => unhashable t

@[simp] theorem map_eq_ok {f : α → β} {x : Checked α} {b : β} :
    x.map f = ok b ↔ ∃ a, x = ok a ∧ f a = b := by
  cases x <;> simp [map]

@[simp] theorem functorMap_eq_ok {f : α → β} {x : Checked α} {b : β} :
    f <$> x = ok b ↔ ∃ a, x = ok a ∧ f a = b := map_eq_ok

@[simp] theorem seq_eq_ok {f : Checked (α → β)} {x : Checked α} {b : β} :
    f <*> x = ok b ↔ ∃ g a, f = ok g ∧ x = ok a ∧ g a = b := by
  cases f <;> cases x <;> simp [Seq.seq, ap, map]

@[simp] theorem under_eq_ok {step : PathStep} {x : Checked α} {a : α} :
    x.under step = ok a ↔ x = ok a := by
  cases x <;> simp [under]

@[simp] theorem fault_ne_ok {rule : Rule} {a : α} : fault rule ≠ ok a := by
  simp [fault]

def items (check : α → Checked β) (start : Nat) : List α → Checked (List β)
  | [] => ok []
  | a :: rest => ap ((check a |>.under (.index start)).map List.cons) (items check (start + 1) rest)

theorem items_cons_eq_ok {check : α → Checked β} {start : Nat} {a : α} {rest : List α}
    {bs : List β} :
    items check start (a :: rest) = ok bs ↔
      ∃ b others, check a = ok b ∧ items check (start + 1) rest = ok others ∧ bs = b :: others := by
  rw [items]
  cases check a <;> cases items check (start + 1) rest <;> simp [ap, map, under, eq_comm]

theorem exists_of_mem_items {check : α → Checked β} {start : Nat} {as : List α} {bs : List β}
    (h : items check start as = ok bs) : ∀ b ∈ bs, ∃ a ∈ as, check a = ok b := by
  induction as generalizing start bs with
  | nil => simp_all [items]
  | cons a rest ih =>
      obtain ⟨b, others, hb, hothers, rfl⟩ := items_cons_eq_ok.mp h
      simp only [List.mem_cons, forall_eq_or_imp, exists_eq_or_imp]
      exact ⟨.inl hb, fun c hc => .inr (ih hothers c hc)⟩

end Checked

/-- Why a value is not accepted: validation found faults, it is no mapping where an action must
be one, or a part of it cannot be looked up. -/
inductive Rejection where
  | faults (fs : List Fault)
  | notAnAction (rule : ActionRule)
  | unhashable (type : String)
deriving DecidableEq, Repr

namespace Except

variable {α ε ε' : Type} {f : ε → ε'} {x : Except ε α}

@[simp] theorem mapError_eq_ok {a : α} : x.mapError f = .ok a ↔ x = .ok a := by
  cases x <;> constructor <;> rintro ⟨⟩ <;> rfl

theorem mapError_eq_error {e' : ε'} : x.mapError f = .error e' ↔ ∃ e, x = .error e ∧ f e = e' := by
  cases x with
  | ok b => constructor <;> rintro ⟨_, ⟨⟩, _⟩
  | error e =>
      constructor
      · rintro ⟨⟩
        exact ⟨e, rfl, rfl⟩
      · rintro ⟨_, ⟨⟩, rfl⟩
        rfl

end Except

namespace Checked

variable {α : Type}

def toExcept : Checked α → Except Rejection α
  | ok a => .ok a
  | faults fs => .error (.faults fs)
  | unhashable t => .error (.unhashable t)

def ofExcept : Except Rejection α → Checked α
  | .ok a => ok a
  | .error (.faults fs) => faults fs
  | .error (.notAnAction rule) => fault (.action rule)
  | .error (.unhashable t) => unhashable t

@[simp] theorem toExcept_eq_ok {x : Checked α} {a : α} : x.toExcept = .ok a ↔ x = ok a := by
  cases x <;> simp [toExcept]

@[simp] theorem ofExcept_eq_ok {r : Except Rejection α} {a : α} :
    ofExcept r = ok a ↔ r = .ok a := by
  rcases r with (_ | _ | _) | _ <;> simp [ofExcept]

end Checked

end ServerUI
