import Mathlib.Data.List.Induction
import Mathlib.Order.Bounds.Basic
import Mathlib.Order.WellFounded
import ServerUI.Registry

/-!
A registry as the record of the calls that have built it. The latest call on a name decides what
the name is bound to, and the names stand in the order in which they were first registered after
they were last taken back.
-/

set_option autoImplicit false

namespace ServerUI

variable {κ : Type}

/-- The entry holds what a registration was told: the defaults and the slots it was given, if any,
and the actions that it was given, or those that stand in where it was given none. -/
structure Entry.Reflects (e : Entry κ) (component : κ) (o : Registration) : Prop where
  component : e.component = component
  inferActionProps : e.inferActionProps = o.inferActionProps
  defaults : o.defaultProps.isPresent = true → o.defaultProps.toDict = .ok e.defaultProps
  noDefaults : o.defaultProps.isPresent = false → e.defaultProps = []
  slots : o.childrenProps.isPresent = true → o.childrenProps.items? = some e.childrenProps
  noSlots : o.childrenProps.isPresent = false → e.childrenProps = []
  actions : o.actionProps.isNull = false → o.actionProps.items? = some e.actionProps
  inferred : o.actionProps.isNull = true → o.inferActionProps.isPresent = true →
    e.actionProps = []
  common : o.actionProps.isNull = true → o.inferActionProps.isPresent = false →
    e.actionProps = Entry.commonActionProps.map .str

namespace Entry

variable {component : κ} {o : Registration} {e : Entry κ}

theorem membersOf_eq_ok {v : Value} {items : List Value} :
    membersOf v = .ok items ↔ v.items? = some items := by
  unfold membersOf
  cases v.items? <;> simp

theorem resolveActionProps_eq_ok {names : List Value} :
    resolveActionProps o = .ok names ↔
      (o.actionProps.isNull = false → o.actionProps.items? = some names) ∧
      (o.actionProps.isNull = true → o.inferActionProps.isPresent = true → names = []) ∧
      (o.actionProps.isNull = true → o.inferActionProps.isPresent = false →
        names = commonActionProps.map .str) := by
  unfold resolveActionProps
  cases o.actionProps.isNull with
  | false => simp [membersOf_eq_ok]
  | true => cases o.inferActionProps.isPresent <;> simp [eq_comm]

theorem resolveDefaultProps_eq_ok {defaults : Dict} :
    resolveDefaultProps o = .ok defaults ↔
      (o.defaultProps.isPresent = true → o.defaultProps.toDict = .ok defaults) ∧
      (o.defaultProps.isPresent = false → defaults = []) := by
  unfold resolveDefaultProps
  cases o.defaultProps.isPresent with
  | true => simp
  | false => simp [eq_comm]

theorem resolveChildrenProps_eq_ok {slots : List Value} :
    resolveChildrenProps o = .ok slots ↔
      (o.childrenProps.isPresent = true → o.childrenProps.items? = some slots) ∧
      (o.childrenProps.isPresent = false → slots = []) := by
  unfold resolveChildrenProps
  cases o.childrenProps.isPresent with
  | true => simp [membersOf_eq_ok]
  | false => simp [eq_comm]

theorem ofRegistration_eq_ok : ofRegistration component o = .ok e ↔ e.Reflects component o := by
  have whole : ofRegistration component o = .ok e ↔
      e.component = component ∧ e.inferActionProps = o.inferActionProps ∧
        resolveActionProps o = .ok e.actionProps ∧ resolveDefaultProps o = .ok e.defaultProps ∧
        resolveChildrenProps o = .ok e.childrenProps := by
    obtain ⟨own, defaults, actions, slots, infer⟩ := e
    unfold ofRegistration
    cases resolveActionProps o <;> cases resolveDefaultProps o <;>
      cases resolveChildrenProps o <;> simp [bind, Except.bind, pure, Except.pure]
    grind
  rw [whole, resolveActionProps_eq_ok, resolveDefaultProps_eq_ok, resolveChildrenProps_eq_ok]
  constructor
  · rintro ⟨own, infer, ⟨actions, inferred, common⟩, ⟨defaults, noDefaults⟩, slots, noSlots⟩
    exact ⟨own, infer, defaults, noDefaults, slots, noSlots, actions, inferred, common⟩
  · intro reflects
    exact ⟨reflects.component, reflects.inferActionProps,
      ⟨reflects.actions, reflects.inferred, reflects.common⟩,
      ⟨reflects.defaults, reflects.noDefaults⟩, reflects.slots, reflects.noSlots⟩

end Entry

namespace Registry

inductive Call (κ : Type) where
  | register (type : String) (component : κ) (options : Registration)
  | unregister (type : String)

namespace Call

/-- The name that a call is on, and what the name is bound to from then on. A registration that is
refused changes nothing. -/
def change : Call κ → Option (String × Option (Entry κ))
  | register type component options =>
      (Entry.ofRegistration component options).toOption.map fun e => (type, some e)
  | unregister type => some (type, none)

def concerns (name : String) (c : Call κ) : Bool := c.change.map (·.1) == some name

/-- What a call makes of its name. A registration binds it to the entry that holds what it was told,
and to nothing if there is no such entry; the other call takes the name back. -/
inductive Sets : Call κ → String → Option (Entry κ) → Prop
  | registers {type : String} {component : κ} {options : Registration} {e : Entry κ}
      (reflects : e.Reflects component options) :
      Sets (.register type component options) type (some e)
  | takesBack (type : String) : Sets (.unregister type) type none

variable {c : Call κ} {name : String} {bound : Option (Entry κ)}

theorem change_eq_some : c.change = some (name, bound) ↔ c.Sets name bound := by
  constructor
  · intro changed
    cases c with
    | unregister type =>
        cases changed
        exact .takesBack name
    | register type component options =>
        rw [change] at changed
        cases made : Entry.ofRegistration component options with
        | error f => simp [made, Except.toOption] at changed
        | ok e =>
            obtain ⟨rfl, rfl⟩ : type = name ∧ some e = bound := by
              simpa [made, Except.toOption] using changed
            exact .registers (Entry.ofRegistration_eq_ok.mp made)
  · rintro (reflects | _)
    · rw [change, Entry.ofRegistration_eq_ok.mpr reflects]
      rfl
    · rfl

theorem concerns_iff : c.concerns name = true ↔ ∃ bound, c.Sets name bound := by
  simp [concerns, ← change_eq_some]

end Call

def apply (r : Registry κ) : Call κ → Registry κ
  | .register type component options =>
      match (r.register type component options).1 with
      | .ok bound => bound
      | .error _ => r
  | .unregister type => (r.unregister type).1

def ofCalls (calls : List (Call κ)) : Registry κ := calls.foldl apply []

/-- The latest call on the name that was not refused. -/
def latest? (calls : List (Call κ)) (name : String) : Option (Call κ) :=
  calls.reverse.find? (·.concerns name)

/-- What the latest call on the name has bound it to. -/
def bound? (calls : List (Call κ)) (name : String) : Option (Entry κ) :=
  (latest? calls name).bind fun c => c.change.bind (·.2)

/-- The call is the latest that sets the name. -/
def Latest (calls : List (Call κ)) (name : String) (c : Call κ) : Prop :=
  ∃ before after, calls = before ++ c :: after ∧ (∃ bound, c.Sets name bound) ∧
    ∀ later ∈ after, ∀ bound, ¬ later.Sets name bound

/-- The places of the calls that register the name after all that take it back. -/
def standing (calls : List (Call κ)) (name : String) : Set Nat :=
  { i | (∃ c e, calls[i]? = some c ∧ c.Sets name (some e)) ∧
    ∀ c ∈ calls.drop i, ¬ c.Sets name none }

variable {calls : List (Call κ)} {c : Call κ} {r : Registry κ} {name : String} {e : Entry κ}

theorem apply_eq (r : Registry κ) (c : Call κ) :
    r.apply c = match c.change with
      | some (name, some e) => Entries.insert r name e
      | some (name, none) => Entries.erase r name
      | none => r := by
  cases c with
  | register type component options =>
      simp only [apply, register, Call.change]
      cases Entry.ofRegistration component options <;> rfl
  | unregister type =>
      simp only [apply, unregister, Call.change]
      split
      · rfl
      · next missing =>
          have absent : type ∉ Entries.keys r := by
            rw [← Entries.find?_eq_none]
            simpa [Entries.contains] using missing
          rw [Entries.erase_of_not_mem absent]

theorem ofCalls_append (calls : List (Call κ)) (c : Call κ) :
    ofCalls (calls ++ [c]) = (ofCalls calls).apply c := by
  simp [ofCalls]

theorem latest?_append (calls : List (Call κ)) (c : Call κ) (name : String) :
    latest? (calls ++ [c]) name = if c.concerns name then some c else latest? calls name := by
  simp only [latest?, List.reverse_append, List.reverse_singleton, List.singleton_append,
    List.find?_cons]
  cases c.concerns name <;> rfl

theorem bound?_append (calls : List (Call κ)) (c : Call κ) (name : String) :
    bound? (calls ++ [c]) name =
      if c.concerns name then c.change.bind (·.2) else bound? calls name := by
  unfold bound?
  rw [latest?_append]
  split <;> rfl

theorem latest?_eq_some : latest? calls name = some c ↔ Latest calls name c := by
  simp only [latest?, List.find?_eq_some_iff_append, Call.concerns_iff, Bool.not_eq_true',
    ← Bool.not_eq_true, not_exists]
  constructor
  · rintro ⟨sets, after, before, whole, unset⟩
    rw [List.reverse_eq_iff] at whole
    exact ⟨before.reverse, after.reverse, by simpa using whole, sets,
      fun later member => unset later (List.mem_reverse.mp member)⟩
  · rintro ⟨before, after, rfl, sets, unset⟩
    exact ⟨sets, after.reverse, before.reverse, by simp,
      fun later member => unset later (List.mem_reverse.mp member)⟩

theorem bound?_eq_some : bound? calls name = some e ↔
    ∃ component options, Latest calls name (.register name component options) ∧
      e.Reflects component options := by
  simp only [bound?, Option.bind_eq_some_iff, latest?_eq_some]
  constructor
  · rintro ⟨c, latest, ⟨changedName, _⟩, changed, rfl⟩
    obtain ⟨-, -, -, ⟨_, own⟩, -⟩ := id latest
    cases Call.change_eq_some.mp changed with
    | @registers _ component options _ reflects =>
        cases own
        exact ⟨component, options, latest, reflects⟩
  · rintro ⟨component, options, latest, reflects⟩
    exact ⟨_, latest, _, Call.change_eq_some.mpr (.registers reflects), rfl⟩

theorem lt_length_of_mem_standing {i : Nat} (h : i ∈ standing calls name) : i < calls.length := by
  obtain ⟨⟨c, e, there, -⟩, -⟩ := h
  exact (List.getElem?_eq_some_iff.mp there).1

theorem mem_standing_append {i : Nat} :
    i ∈ standing (calls ++ [c]) name ↔ c.change ≠ some (name, none) ∧
      (i ∈ standing calls name ∨ i = calls.length ∧ ∃ e, c.change = some (name, some e)) := by
  rcases Nat.lt_trichotomy i calls.length with before | rfl | after
  · have apart : i ≠ calls.length := Nat.ne_of_lt before
    simp only [standing, Set.mem_ofPred_eq, List.getElem?_append_left before,
      List.drop_append_of_le_length before.le, List.forall_mem_append, List.forall_mem_singleton,
      apart, false_and, or_false, ne_eq, Call.change_eq_some]
    tauto
  · have missing : calls.length ∉ standing calls name := fun h =>
      Nat.lt_irrefl _ (lt_length_of_mem_standing h)
    simp only [missing, false_or, true_and]
    simp [standing, Call.change_eq_some, and_comm]
  · have missing : i ∉ standing calls name := fun h =>
      Nat.lt_asymm after (lt_length_of_mem_standing h)
    have beyond : i ∉ standing (calls ++ [c]) name := fun h => by
      have := lt_length_of_mem_standing h
      simp only [List.length_append, List.length_singleton] at this
      omega
    simp [missing, beyond, Nat.ne_of_gt after]

theorem standing_nonempty_iff : (standing calls name).Nonempty ↔ (bound? calls name).isSome := by
  induction calls using List.reverseRecOn with
  | nil => simp [standing, bound?, latest?, Set.Nonempty]
  | append_singleton calls c ih =>
      rw [bound?_append]
      simp only [Set.Nonempty, mem_standing_append] at ih ⊢
      unfold Call.concerns
      rcases c.change with _ | ⟨own, _ | e⟩
      · simpa using ih
      · by_cases same : own = name
        · simp [same]
        · simpa [same] using ih
      · by_cases same : own = name
        · simp [same]
        · simpa [same] using ih

/-- One name stands before another: its first registration that is still standing is earlier. -/
def Before (calls : List (Call κ)) (a b : String) : Prop :=
  ∃ i j, IsLeast (standing calls a) i ∧ IsLeast (standing calls b) j ∧ i < j

theorem Before.ne {a b : String} (h : Before calls a b) : a ≠ b := by
  rintro rfl
  obtain ⟨i, j, first, second, earlier⟩ := h
  exact absurd (first.unique second) (Nat.ne_of_lt earlier)

theorem exists_isLeast (h : (standing calls name).Nonempty) :
    ∃ i, IsLeast (standing calls name) i := by
  obtain ⟨i, there, least⟩ := Nat.lt_wfRel.wf.has_min _ h
  exact ⟨i, there, fun j other => Nat.le_of_not_lt (least j other)⟩

/-- The registry binds what the calls have bound, in the order of its first standing
registrations. -/
structure Follows (r : Registry κ) (calls : List (Call κ)) : Prop where
  bound (name : String) : Entries.find? r name = bound? calls name
  order : (Entries.keys r).Pairwise (Before calls)

theorem Follows.once (h : r.Follows calls) : (Entries.keys r).Nodup := h.order.imp Before.ne

theorem Follows.standing (h : r.Follows calls) (there : name ∈ Entries.keys r) :
    (standing calls name).Nonempty := by
  rw [standing_nonempty_iff, ← h.bound, Option.isSome_iff_ne_none, ne_eq, Entries.find?_eq_none,
    not_not]
  exact there

theorem isLeast_append {i : Nat} (kept : c.change ≠ some (name, none))
    (h : IsLeast (standing calls name) i) : IsLeast (standing (calls ++ [c]) name) i := by
  refine ⟨mem_standing_append.mpr ⟨kept, .inl h.1⟩, fun j there => ?_⟩
  rcases (mem_standing_append.mp there).2 with old | ⟨rfl, -⟩
  · exact h.2 old
  · exact (lt_length_of_mem_standing h.1).le

theorem Before.append {a b : String} (h : Before calls a b) (first : c.change ≠ some (a, none))
    (second : c.change ≠ some (b, none)) : Before (calls ++ [c]) a b := by
  obtain ⟨i, j, least, other, earlier⟩ := h
  exact ⟨i, j, isLeast_append first least, isLeast_append second other, earlier⟩

theorem isLeast_append_self (bound : c.change = some (name, some e))
    (fresh : ¬ (standing calls name).Nonempty) :
    IsLeast (standing (calls ++ [c]) name) calls.length := by
  refine ⟨mem_standing_append.mpr ⟨by simp [bound], .inr ⟨rfl, e, bound⟩⟩, fun j there => ?_⟩
  rcases (mem_standing_append.mp there).2 with old | ⟨rfl, -⟩
  · exact absurd ⟨j, old⟩ fresh
  · exact Nat.le_refl _

theorem Follows.find?_apply (h : r.Follows calls) (c : Call κ) (name : String) :
    Entries.find? (r.apply c) name = bound? (calls ++ [c]) name := by
  rw [apply_eq, bound?_append, ← h.bound, Call.concerns]
  rcases c.change with _ | ⟨own, _ | e⟩
  · rfl
  · by_cases same : own = name
    · simp [same, Entries.find?_erase_self h.once]
    · simp [same, Entries.find?_erase_of_ne r (Ne.symm same)]
  · by_cases same : own = name
    · simp [same]
    · simp [same, Entries.find?_insert_of_ne r e (Ne.symm same)]

theorem Follows.keys_apply (h : r.Follows calls) (c : Call κ) :
    (Entries.keys (r.apply c)).Pairwise (Before (calls ++ [c])) := by
  rw [apply_eq]
  rcases change : c.change with _ | ⟨own, _ | e⟩
  · exact h.order.imp fun before => before.append (by simp [change]) (by simp [change])
  · -- Whoever is left keeps its place.
    rw [Entries.keys_erase]
    refine (h.order.erase own).imp_of_mem fun {a b} first second before => ?_
    have left {name : String} (there : name ∈ (Entries.keys r).erase own) :
        c.change ≠ some (name, none) := by
      have apart : name ≠ own := (h.once.mem_erase_iff.mp there).1
      simp [change, Ne.symm apart]
    exact before.append (left first) (left second)
  · have order : (Entries.keys r).Pairwise (Before (calls ++ [c])) :=
      h.order.imp fun before => before.append (by simp [change]) (by simp [change])
    by_cases there : own ∈ Entries.keys r
    · rwa [Entries.keys_insert_of_mem e there]
    · -- A new name comes last, for all others have been registered before.
      rw [Entries.keys_insert_of_not_mem e there, List.pairwise_append]
      refine ⟨order, List.pairwise_singleton _ _, fun a member b last => ?_⟩
      obtain rfl : b = own := by simpa using last
      have fresh : ¬ (Registry.standing calls b).Nonempty := by
        rw [standing_nonempty_iff, ← h.bound, Entries.find?_eq_none.mpr there]
        simp
      obtain ⟨i, least⟩ := exists_isLeast (h.standing member)
      exact ⟨i, calls.length, isLeast_append (by simp [change]) least,
        isLeast_append_self change fresh, lt_length_of_mem_standing least.1⟩

theorem Follows.apply (h : r.Follows calls) (c : Call κ) :
    (r.apply c).Follows (calls ++ [c]) where
  bound := h.find?_apply c
  order := h.keys_apply c

/-- Whatever the calls were, the registry that they have built follows them. -/
theorem ofCalls_follows (calls : List (Call κ)) : (ofCalls calls).Follows calls := by
  induction calls using List.reverseRecOn with
  | nil => exact ⟨fun name => rfl, .nil⟩
  | append_singleton calls c ih =>
      rw [ofCalls_append]
      exact ih.apply c

theorem bound?_append_calls (calls later : List (Call κ)) (name : String) :
    bound? (calls ++ later) name =
      ((latest? later name).map fun c => c.change.bind (·.2)).getD (bound? calls name) := by
  unfold bound? latest?
  rw [List.reverse_append, List.find?_append]
  cases later.reverse.find? (·.concerns name) <;> rfl

/-- Later calls leave every binding as it was just if the latest of them on a name binds it to what
it was bound to. -/
theorem find?_ofCalls_append_iff {later : List (Call κ)} :
    (∀ name, Entries.find? (ofCalls (calls ++ later)) name = Entries.find? (ofCalls calls) name) ↔
      ∀ name c, latest? later name = some c → c.change.bind (·.2) = bound? calls name := by
  refine forall_congr' fun name => ?_
  rw [(ofCalls_follows _).bound, (ofCalls_follows _).bound, bound?_append_calls]
  cases latest? later name <;> simp

/-- The last call on each name is the one that counts: bound are the names whose latest call is a
registration, each as that call says, and in the order of their first standing registrations. -/
structure LastWritten (r : Registry κ) (calls : List (Call κ)) : Prop where
  names (name : String) : name ∈ Entries.keys r ↔
    ∃ component options, Latest calls name (.register name component options)
  bound {name : String} {component : κ} {options : Registration} :
    Latest calls name (.register name component options) →
      ∃ e, Entries.find? r name = some e ∧ e.Reflects component options
  order : (Entries.keys r).Pairwise (Before calls)

theorem Latest.reflected {component : κ} {options : Registration}
    (latest : Latest calls name (.register name component options)) :
    ∃ e : Entry κ, e.Reflects component options := by
  obtain ⟨-, -, -, ⟨_, registers⟩, -⟩ := latest
  cases registers with
  | registers reflects => exact ⟨_, reflects⟩

theorem Follows.lastWritten (h : r.Follows calls) : r.LastWritten calls where
  names name := by
    rw [← not_iff_not, ← Entries.find?_eq_none, h.bound, Option.eq_none_iff_forall_ne_some]
    simp only [ne_eq, bound?_eq_some, not_exists, not_and]
    constructor
    · intro none component options latest
      obtain ⟨e, reflects⟩ := latest.reflected
      exact none e component options latest reflects
    · intro none e component options latest
      exact absurd latest (none component options)
  bound {name component options} latest := by
    obtain ⟨e, reflects⟩ := latest.reflected
    rw [h.bound]
    exact ⟨e, bound?_eq_some.mpr ⟨component, options, latest, reflects⟩, reflects⟩
  order := h.order

theorem LastWritten.find?_eq_some {component : κ} {options : Registration}
    (h : r.LastWritten calls) (latest : Latest calls name (.register name component options))
    (reflects : e.Reflects component options) : Entries.find? r name = some e := by
  obtain ⟨other, there, also⟩ := h.bound latest
  have same : (.ok e : Except Failure (Entry κ)) = .ok other := by
    rw [← Entry.ofRegistration_eq_ok.mpr reflects, Entry.ofRegistration_eq_ok.mpr also]
  rw [there, Except.ok.inj same]

end Registry

end ServerUI
