import ServerUI.Registry

/-!
Snapshots whose entries can be changed in place. Two names of one snapshot may share an entry;
a change under one name then shows under the other. Snapshots are compared with what one
registration has put into both of them counted as shared.
-/

set_option autoImplicit false

namespace ServerUI

structure Registered (κ : Type) where
  component : κ
  moment : Nat

-- An entry of a snapshot. Entries of one number are one and the same; the defaults that were
-- changed in place are listed with the moment of the change.
structure SharedEntry (κ : Type) where
  number : Nat
  entry : Entry (Registered κ)
  changed : Entries Nat := []

namespace SharedEntry

variable {κ : Type}

def setDefault (e : SharedEntry κ) (moment : Nat) (key : String) (value : Value) :
    SharedEntry κ where
  number := e.number
  entry := { e.entry with defaultProps := Entries.insert e.entry.defaultProps key value }
  changed := Entries.insert e.changed key moment

def haveOneOrigin (d e : SharedEntry κ) : Bool :=
  d.entry.component.moment == e.entry.component.moment

def shareDefault (d e : SharedEntry κ) (key : String) : Bool :=
  match Entries.find? d.changed key, Entries.find? e.changed key with
  | none, none => d.haveOneOrigin e
  | m, n => m == n

def sameDefaults (d e : SharedEntry κ) : Bool :=
  d.entry.defaultProps.length == e.entry.defaultProps.length &&
    d.entry.defaultProps.all fun (key, v) =>
      match Entries.find? e.entry.defaultProps key with
      | some w => v.same (d.shareDefault e key) w
      | none => false

def same [BEq κ] (d e : SharedEntry κ) : Bool :=
  let agree (v w : Value) : Bool := v.same (d.haveOneOrigin e) w
  d.entry.component.component == e.entry.component.component && d.sameDefaults e &&
    agree (.tuple d.entry.actionProps) (.tuple e.entry.actionProps) &&
    agree (.tuple d.entry.childrenProps) (.tuple e.entry.childrenProps) &&
    agree d.entry.inferActionProps e.entry.inferActionProps

end SharedEntry

abbrev SharedRegistry (κ : Type) := Entries (SharedEntry κ)

namespace SharedRegistry

variable {κ : Type}

def ofRegistry (r : Registry (Registered κ)) : SharedRegistry κ :=
  r.zipIdx.map fun (e, i) => (e.1, ⟨i, e.2, []⟩)

def get (r : SharedRegistry κ) (name : String) : Except Failure (SharedEntry κ) :=
  match Entries.find? r name with
  | some e => .ok e
  | none => .error (.missingKey (.str name))

def setDefault (r : SharedRegistry κ) (moment : Nat) (name key : String) (value : Value) :
    Except Failure (SharedRegistry κ) := do
  let e ← r.get name
  let changed := e.setDefault moment key value
  return Entries.mapValues (fun d => if d.number = e.number then changed else d) r

def copyEntry (r : SharedRegistry κ) (name target : String) : Except Failure (SharedRegistry κ) := do
  let e ← r.get name
  return Entries.insert r target e

def drop (r : SharedRegistry κ) (name : String) : Except Failure (SharedRegistry κ) := do
  let _ ← r.get name
  return Entries.erase r name

def same [BEq κ] (r s : SharedRegistry κ) : Bool :=
  r.length == s.length && r.all fun (name, d) =>
    match Entries.find? s name with
    | some e => d.same e
    | none => false

end SharedRegistry

end ServerUI
