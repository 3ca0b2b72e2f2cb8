import ServerUI.Registry.Shared
import ServerUI.Scenario.Place

/-!
A registry builder in use: registrations are made and taken back, snapshots are taken, and
snapshots are looked into and changed on their own.
-/

set_option autoImplicit false

namespace ServerUI.Scenario

inductive CatalogCommand where
  | register (type : Value) (label : String) (options : Registration)
  | unregister (type : Value)
  | build
  | stats
  | contains (type : Value)
  | size
  | show (snapshot : Int)
  | get (snapshot : Int) (type : Value)
  | setDefault (snapshot : Int) (type : Value) (key : String) (value : Value)
  | copyEntry (snapshot : Int) (type : Value) (target : String)
  | drop (snapshot : Int) (type : Value)
  | equal (snapshot other : Int)
  | accepts (snapshot : Int) (type prop : Value) (isActionProp : PropRule)

structure Catalog where
  builder : Registry (Registered String) := []
  snapshots : List (SharedRegistry String) := []
  moment : Nat := 0

namespace Catalog

def entryValue (e : Entry (Registered String)) : Value :=
  .dict [("component", .str e.component.component), ("default_props", .dict e.defaultProps),
    ("action_props", .list e.actionProps), ("children_props", .list e.childrenProps),
    ("infer_action_props", e.inferActionProps)]

def statsValue (s : Registry.Stats) : Value :=
  .dict [("total_components", .int s.components), ("with_defaults", .int s.withDefaults),
    ("with_action_props", .int s.withActionProps), ("type_names", .list (s.types.map .str))]

def snapshot (c : Catalog) (number : Int) : Except Failure (SharedRegistry String) :=
  match nth? c.snapshots number with
  | some s => .ok s
  | none => .error .missingItem

def change (c : Catalog) (number : Int)
    (f : SharedRegistry String → Except Failure (SharedRegistry String)) :
    Except Failure Value × Catalog :=
  match (c.snapshot number).bind f with
  | .error why => (.error why, c)
  | .ok s =>
      let n := (place? c.snapshots.length number).getD 0
      (.ok .null, { c with snapshots := c.snapshots.set n s })

def typeOf? (v : Value) : Except Failure (Option String) :=
  match v.unhashable? with
  | some t => .error (.unhashable t)
  | none => .ok v.word?

def withType {α : Type} (type : Value) (f : String → Except Failure α) : Except Failure α := do
  match ← typeOf? type with
  | none => throw (.missingKey type)
  | some word =>
      match f word with
      | .error (.missingKey _) => throw (.missingKey type)
      | r => r

def contains (c : Catalog) (type : Value) : Except Failure Value :=
  (typeOf? type).map fun word => .bool (word.any (Entries.contains c.builder))

def look (c : Catalog) : CatalogCommand → Except Failure Value
  | .stats => .ok (statsValue c.builder.stats)
  | .contains type => c.contains type
  | .size => .ok (.int c.builder.length)
  | .show n => do
      let s ← c.snapshot n
      return .list (s.map fun e => .list [.str e.1, entryValue e.2.entry])
  | .get n type => do
      let s ← c.snapshot n
      let word ← typeOf? type
      return .ofOption (fun e => entryValue e.entry) (word.bind (Entries.find? s))
  | .equal n other => do
      let s ← c.snapshot n
      return .bool (s.same (← c.snapshot other))
  | .accepts n type prop isActionProp => do
      let s ← c.snapshot n
      let e ← withType type s.get
      e.entry.acceptanceOf isActionProp prop
  | _ => .ok .null

def alter (c : Catalog) : CatalogCommand → Except Failure Value × Catalog
  | .setDefault n type key value => c.change n fun s => withType type (s.setDefault c.moment · key value)
  | .copyEntry n type target => c.change n fun s => withType type (s.copyEntry · target)
  | .drop n type => c.change n fun s => withType type s.drop
  | command => (c.look command, c)

def register (c : Catalog) (type : Value) (label : String) (options : Registration) :
    (Except Failure Value × List Log.Record) × Catalog :=
  match typeOf? type with
  | .error f => ((.error f, []), c)
  | .ok none => ((.error .unsupported, []), c)
  | .ok (some word) =>
      match c.builder.register word ⟨label, c.moment⟩ options with
      | (.ok builder, logs) => ((.ok (.bool true), logs), { c with builder })
      | (.error f, logs) => ((.error f, logs), c)

def unregister (c : Catalog) (type : Value) :
    (Except Failure Value × List Log.Record) × Catalog :=
  -- Nothing is looked up where there are no registrations.
  match (if c.builder.isEmpty then .ok none else typeOf? type) with
  | .error f => ((.error f, []), c)
  | .ok none => ((.ok (.bool true), []), c)
  | .ok (some word) =>
      let (builder, logs) := c.builder.unregister word
      ((.ok (.bool true), logs), { c with builder })

def carryOut (c : Catalog) : CatalogCommand → (Except Failure Value × List Log.Record) × Catalog
  | .register type label options => c.register type label options
  | .unregister type => c.unregister type
  | .build =>
      let (s, logs) := c.builder.build
      ((.ok (.list ((Entries.keys s).map .str)), logs),
        { c with snapshots := c.snapshots ++ [SharedRegistry.ofRegistry s] })
  | command =>
      let (r, c) := c.alter command
      ((r, []), c)

def next (c : Catalog) : Catalog := { c with moment := c.moment + 1 }

def carryOutAll (c : Catalog) : List CatalogCommand → List (Except Failure Value × List Log.Record)
  | [] => []
  | x :: rest =>
      let (r, c) := c.carryOut x
      r :: c.next.carryOutAll rest

end Catalog

end ServerUI.Scenario
