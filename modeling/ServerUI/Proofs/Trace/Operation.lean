import ServerUI.Proofs.Run.Ends

/-!
One traced operation. Between the record of its start and the record of its end stands what it runs,
and it ends as that does, as long as none of its fields has a name that these records need for
themselves. Otherwise a record is missing.
-/

set_option autoImplicit false

namespace ServerUI

namespace Trace

variable {ι σ α : Type}

/-- The fields of an operation beside its name. A field called `operation` would be the name. -/
structure Fields where
  entries : Dict
  once : (Entries.keys entries).Nodup
  unnamed : "operation" ∉ Entries.keys entries

def kept (fields : Dict) : Dict := fields.filter fun e => e.1 ≠ "level"

def record (level : Log.Level) (event : String) (own fields context : Dict) : Log.Record :=
  (⟨level, event, own ++ kept fields⟩ : Log.Record).within context

@[simp] theorem exec_log (level : Log.Level) (event : String) (own fields : Dict)
    (w : World ι σ) :
    Run.exec (log level event own fields) w =
      (.ok (), w.after [.logged (record level event own fields w.context)]) := rfl

/-- The record carries the name of its operation and the fields, but for a level among them. -/
def Carries (name : Value) (fields : Fields) (r : Log.Record) : Prop :=
  ∀ e ∈ ("operation", name) :: kept fields.entries, Entries.find? r.fields e.1 = some e.2

section Record

variable {own : Dict} {fields : Fields} {e : String × Value} (level : Log.Level) (event : String)
  (context : Dict) (once : (Entries.keys own).Nodup) (apart : clash? own fields.entries = none)

include once apart

theorem find?_record (member : e ∈ own ++ kept fields.entries) :
    Entries.find? (record level event own fields.entries context).fields e.1 = some e.2 := by
  have all_once : (Entries.keys (own ++ kept fields.entries)).Nodup := by
    have kept_once : (Entries.keys (kept fields.entries)).Nodup :=
      fields.once.sublist (List.filter_sublist.map _)
    have fresh : ∀ key ∈ Entries.keys (kept fields.entries), key ∉ Entries.keys own := by
      intro key inside
      exact clash?_eq_none.mp apart key ((List.filter_sublist.map _).subset inside)
    rw [Entries.keys, List.map_append, List.nodup_append]
    exact ⟨once, kept_once, fun key first other second same => fresh other second (same ▸ first)⟩
  have found : Entries.find? (own ++ kept fields.entries) e.1 = some e.2 :=
    Entries.find?_of_mem all_once member
  rw [record, Log.Record.within, Entries.find?_merge all_once, found]
  rfl

theorem carries_record {name : Value} (named : ("operation", name) ∈ own) :
    Carries name fields (record level event own fields.entries context) := by
  intro e member
  apply find?_record level event context once apart
  cases member with
  | head => exact List.mem_append_left _ named
  | tail _ given => exact List.mem_append_right _ given

end Record

/-- The world in which an operation begins what it runs. -/
def begun (name : Value) (fields : Dict) (w : World ι σ) : World ι σ :=
  let started := record .debug "operation_start" [("operation", name)] fields w.context
  { w with clock := w.clock.tick }.after [.logged started]

/-- What is left to do when an operation has run. -/
def conclude (name : Value) (fields : Dict) (start : Binary64) : Except Failure α → Run ι σ α
  | .ok a => do
      logEnd name fields start
      return a
  | .error f => do
      if f.isOrdinary then logFailure name fields start f
      throw f

theorem exec_operation (name : Value) {fields : Dict} (body : Run ι σ α) (w : World ι σ)
    (clear : Log.hasReserved fields = false) :
    Run.exec (operation name fields body) w =
      Run.exec (conclude name fields w.clock.now (Run.exec body (begun name fields w)).1)
        (Run.exec body (begun name fields w)).2 := by
  simp only [operation, Run.exec_bind, Run.exec_now, clear, Bool.false_eq_true, if_false, exec_log,
    Run.exec_attempt, begun]
  split <;> simp_all [conclude]

theorem exec_operation_reserved (name : Value) {fields : Dict} (body : Run ι σ α) (w : World ι σ)
    (reserved : Log.hasReserved fields = true) :
    Run.exec (operation name fields body) w =
      (.error .unsupported, { w with clock := w.clock.tick }) := by
  simp [operation, Run.exec_bind, reserved]

/-- The names that the records of an operation with this outcome need for themselves. -/
def ownNames : Option Failure → List String
  | none => "duration_ms" :: Log.reservedNames
  | some _ => "error" :: "duration_ms" :: Log.reservedNames

/-- The operation can tell of this outcome. -/
structure Fits (fields : Fields) (outcome : Option Failure) : Prop where
  apart : ∀ key ∈ Entries.keys fields.entries, key ∉ ownNames outcome
  ordinary : ∀ f ∈ outcome, f.isOrdinary = true

structure Opening (name : Value) (fields : Fields) (r : Log.Record) : Prop where
  event : r.event = "operation_start"
  carries : Carries name fields r

def closingEvents : Option Failure → List String
  | none => ["operation_slow", "operation_end"]
  | some _ => ["operation_error"]

structure Closing (name : Value) (fields : Fields) (outcome : Option Failure) (r : Log.Record) :
    Prop where
  event : r.event ∈ closingEvents outcome
  error : ∀ f ∈ outcome, Entries.find? r.fields "error" = some (.str f.message)
  carries : Carries name fields r

theorem hasReserved_eq_false {fields : Dict} :
    Log.hasReserved fields = false ↔
      ∀ key ∈ Entries.keys fields, key ∉ Log.reservedNames := by
  simp [Log.hasReserved, Entries.keys]

theorem Fits.clear {fields : Fields} {outcome : Option Failure} (fits : Fits fields outcome) :
    Log.hasReserved fields.entries = false := by
  rw [hasReserved_eq_false]
  intro key member
  have apart := fits.apart key member
  cases outcome <;> simp_all [ownNames]

theorem Fresh.fits {fields : Fields} {outcome : Option Failure} (fresh : Fresh fields.entries)
    (ordinary : ∀ f ∈ outcome, f.isOrdinary = true) : Fits fields outcome := by
  refine ⟨fun key member => ?_, ordinary⟩
  have free := hasReserved_eq_false.mp fresh.1 key member
  have apart := fresh.2 key member
  cases outcome <;> simp_all [ownNames]

theorem clash?_named {fields : Fields} {name : Value} {own : Dict} :
    clash? (("operation", name) :: own) fields.entries = none ↔
      ∀ key ∈ Entries.keys fields.entries, key ∉ Entries.keys own := by
  have other : ∀ key ∈ Entries.keys fields.entries, key ≠ "operation" :=
    fun key member same => fields.unnamed (same ▸ member)
  rw [clash?_eq_none]
  constructor
  next =>
    intro apart key member inside
    exact apart key member (.tail _ inside)
  next =>
    intro apart key member inside
    cases inside with
    | head => exact other "operation" member rfl
    | tail _ inside => exact apart key member inside

theorem fits_none_iff {fields : Fields} (clear : Log.hasReserved fields.entries = false)
    (name time : Value) :
    Fits fields none ↔
      clash? [("operation", name), ("duration_ms", time)] fields.entries = none := by
  rw [clash?_named]
  rw [hasReserved_eq_false] at clear
  constructor
  next =>
    intro fits key member
    have apart := fits.apart key member
    simp_all [ownNames, Entries.keys]
  next =>
    intro apart
    refine ⟨fun key member => ?_, by simp⟩
    have timed := apart key member
    have free := clear key member
    simp_all [ownNames, Entries.keys]

theorem fits_some_iff {fields : Fields} {f : Failure}
    (clear : Log.hasReserved fields.entries = false) (name error time : Value) :
    Fits fields (some f) ↔ f.isOrdinary = true ∧
      clash? [("operation", name), ("error", error), ("duration_ms", time)] fields.entries =
        none := by
  rw [clash?_named]
  rw [hasReserved_eq_false] at clear
  constructor
  next =>
    intro fits
    refine ⟨fits.ordinary f rfl, fun key member => ?_⟩
    have apart := fits.apart key member
    simp_all [ownNames, Entries.keys]
  next =>
    intro apart
    refine ⟨fun key member => ?_, by simp [apart.1]⟩
    have told := apart.2 key member
    have free := clear key member
    simp_all [ownNames, Entries.keys]

theorem exec_logEnd (name : Value) {fields : Fields} (start : Binary64) (w : World ι σ)
    (fits : Fits fields none) :
    ∃ stop, Closing name fields none stop ∧
      Run.exec (logEnd name fields.entries start) w =
        (.ok (), { w with clock := w.clock.tick }.after [.logged stop]) := by
  let own : Dict := [("operation", name), ("duration_ms", duration start w.clock.now)]
  have once : (Entries.keys own).Nodup := by simp [own, Entries.keys]
  have apart : clash? own fields.entries = none := (fits_none_iff fits.clear _ _).mp fits
  by_cases slow : slowSeconds.lt (w.clock.now.sub start) = true
  next =>
    have carried := carries_record .warning "operation_slow" w.context once apart (.head _)
    refine ⟨_, ⟨.head _, by simp, carried⟩, ?_⟩
    simp only [logEnd, Run.exec_bind, Run.exec_now]
    simp [own, apart, slow]
  next =>
    have carried := carries_record .debug "operation_end" w.context once apart (.head _)
    refine ⟨_, ⟨.tail _ (.head _), by simp, carried⟩, ?_⟩
    simp only [logEnd, Run.exec_bind, Run.exec_now]
    simp [own, apart, slow]

theorem exec_logFailure (name : Value) {fields : Fields} {f : Failure} (start : Binary64)
    (w : World ι σ) (fits : Fits fields (some f)) :
    ∃ stop, Closing name fields (some f) stop ∧
      Run.exec (logFailure name fields.entries start f) w =
        (.ok (), { w with clock := w.clock.tick }.after [.logged stop]) := by
  let own : Dict := [("operation", name), ("error", .str f.message),
    ("duration_ms", duration start w.clock.now)]
  have once : (Entries.keys own).Nodup := by simp [own, Entries.keys]
  have apart : clash? own fields.entries = none := ((fits_some_iff fits.clear _ _ _).mp fits).2
  have carried := carries_record .error "operation_error" w.context once apart (.head _)
  have error := find?_record .error "operation_error" w.context once apart
    (List.mem_append_left _ (.tail _ (.head _)))
  refine ⟨_, ⟨.head _, by simpa using error, carried⟩, ?_⟩
  simp only [logFailure, Run.exec_bind, Run.exec_now]
  simp [own, apart]

/-- An operation that can tell of what it ran leaves one record more, and ends as that did. -/
theorem exec_conclude {name : Value} {fields : Fields} {r : Except Failure α} (start : Binary64)
    (w : World ι σ) (fits : Fits fields (Run.failure? r)) :
    ∃ stop, Closing name fields (Run.failure? r) stop ∧
      Run.exec (conclude name fields.entries start r) w =
        (r, { w with clock := w.clock.tick }.after [.logged stop]) := by
  cases r with
  | ok a =>
    obtain ⟨stop, closing, ran⟩ := exec_logEnd name start w fits
    refine ⟨stop, closing, ?_⟩
    rw [conclude, Run.exec_bind, ran]
    rfl
  | error f =>
    obtain ⟨stop, closing, ran⟩ := exec_logFailure name start w fits
    refine ⟨stop, closing, ?_⟩
    have ordinary : f.isOrdinary = true := fits.ordinary f rfl
    simp only [conclude, ordinary, if_true, Run.exec_bind, ran, Run.exec_throw]

/-- An operation that cannot leaves none. -/
theorem journal_conclude {name : Value} {fields : Fields} {r : Except Failure α}
    (start : Binary64) (w : World ι σ) (clear : Log.hasReserved fields.entries = false)
    (unfit : ¬ Fits fields (Run.failure? r)) :
    (Run.exec (conclude name fields.entries start r) w).2.journal = w.journal := by
  cases r with
  | ok a =>
    rw [Run.failure?_ok, fits_none_iff clear name (duration start w.clock.now)] at unfit
    cases clash : clash? [("operation", name), ("duration_ms", duration start w.clock.now)]
        fields.entries with
    | none => exact absurd clash unfit
    | some key => simp [conclude, logEnd, Run.exec_bind, clash]
  | error f =>
    rw [Run.failure?_error, fits_some_iff clear name (.str f.message)
      (duration start w.clock.now)] at unfit
    by_cases ordinary : f.isOrdinary = true
    next =>
      cases clash : clash? [("operation", name), ("error", .str f.message),
          ("duration_ms", duration start w.clock.now)] fields.entries with
      | none => exact absurd ⟨ordinary, clash⟩ unfit
      | some key => simp [conclude, logFailure, Run.exec_bind, ordinary, clash]
    next => simp [conclude, ordinary]

section Around

variable {name : Value} {fields : Fields} {body : Run ι σ α} {w inner : World ι σ}
  {r : Except Failure α} {es : List (Event ι)}

theorem opening_begun (name : Value) (fields : Fields) (w : World ι σ) :
    ∃ start, Opening name fields start ∧
      (begun name fields.entries w).journal = w.journal ++ [.logged start] := by
  have once : (Entries.keys ([("operation", name)] : Dict)).Nodup := by simp [Entries.keys]
  have apart : clash? [("operation", name)] fields.entries = none :=
    clash?_named.mpr (by simp [Entries.keys])
  have carried := carries_record .debug "operation_start" w.context once apart (.head _)
  exact ⟨_, ⟨rfl, carried⟩, rfl⟩

variable (ran : Run.exec body (begun name fields.entries w) = (r, inner))
  (added : inner.journal = (begun name fields.entries w).journal ++ es)

include ran added

/-- All that an operation runs stands between the record of its start and that of its end, and the
operation ends as it does. -/
theorem operation_brackets (fits : Fits fields (Run.failure? r)) :
    ∃ start stop outside, Opening name fields start ∧ Closing name fields (Run.failure? r) stop ∧
      Run.exec (operation name fields.entries body) w = (r, outside) ∧
      outside.journal = w.journal ++ (.logged start :: es ++ [.logged stop]) := by
  obtain ⟨start, opening, first⟩ := opening_begun name fields w
  obtain ⟨stop, closing, concluded⟩ := exec_conclude w.clock.now inner fits
  have around : Run.exec (operation name fields.entries body) w =
      Run.exec (conclude name fields.entries w.clock.now r) inner := by
    rw [exec_operation name body w fits.clear, ran]
  refine ⟨start, stop, _, opening, closing, around.trans concluded, ?_⟩
  simp [added, first]

theorem operation_loses (clear : Log.hasReserved fields.entries = false)
    (unfit : ¬ Fits fields (Run.failure? r)) :
    ∃ start, (Run.exec (operation name fields.entries body) w).2.journal =
      w.journal ++ ([.logged start] ++ es) := by
  obtain ⟨start, opening, first⟩ := opening_begun name fields w
  refine ⟨start, ?_⟩
  rw [exec_operation name body w clear, ran, journal_conclude w.clock.now inner clear unfit, added,
    first, List.append_assoc]

end Around

end Trace

end ServerUI
