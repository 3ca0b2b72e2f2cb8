import ServerUI.Proofs.Registry.History
import ServerUI.Scenario.Catalog

/-!
Snapshots of a registry builder in use. A snapshot holds what the calls on the builder have left
bound, in the order in which they did. It stays as it is until somebody changes it in place, and
what is done to snapshots in place is not seen by the builder.
-/

set_option autoImplicit false

namespace ServerUI

namespace SharedRegistry

variable {κ : Type} (s : SharedRegistry κ)

/-- The entries that can be read from a snapshot. -/
def contents : Registry (Registered κ) := Entries.mapValues (·.entry) s

/-- A snapshot counted through: its names, and how many entries have defaults and actions. -/
def stats : Registry.Stats where
  components := s.length
  withDefaults := s.countP fun e => !e.2.entry.defaultProps.isEmpty
  withActionProps := s.countP fun e => !e.2.entry.actionProps.isEmpty
  types := Entries.keys s

@[simp] theorem contents_ofRegistry (r : Registry (Registered κ)) :
    (ofRegistry r).contents = r := by
  simp only [contents, ofRegistry, Entries.mapValues, List.map_map]
  exact List.zipIdx_map_fst 0 r

theorem keys_contents : Entries.keys s.contents = Entries.keys s := Entries.keys_mapValues _ s

theorem stats_contents : s.contents.stats = s.stats := by
  rw [Registry.stats, keys_contents]
  simp only [stats, contents, Entries.mapValues, List.length_map, List.countP_map,
    Function.comp_def]

end SharedRegistry

namespace Scenario

namespace CatalogCommand

/-- The call on the builder that a command makes at a moment, if it makes one. -/
def call? (moment : Nat) : CatalogCommand → Option (Registry.Call (Registered String))
  | .register type label options =>
      type.word?.map fun name => .register name ⟨label, moment⟩ options
  | .unregister type => type.word?.map .unregister
  | _ => none

def editsSnapshot : CatalogCommand → Bool
  | .setDefault .. | .copyEntry .. | .drop .. => true
  | _ => false

end CatalogCommand

namespace Catalog

def after (history : List CatalogCommand) : Catalog :=
  history.foldl (fun c x => (c.carryOut x).2.next) {}

/-- The calls on the builder in a history, each with the moment at which it was made. -/
def calls (history : List CatalogCommand) : List (Registry.Call (Registered String)) :=
  history.zipIdx.filterMap fun (x, moment) => x.call? moment

variable {c : Catalog} {x : CatalogCommand} {history : List CatalogCommand}

theorem after_append (history : List CatalogCommand) (x : CatalogCommand) :
    after (history ++ [x]) = ((after history).carryOut x).2.next := by
  simp [after]

theorem typeOf?_of_word {v : Value} {name : String} (word : v.word? = some name) :
    typeOf? v = .ok (some name) := by
  cases v <;> simp only [Value.word?, Option.some.injEq, reduceCtorEq] at word
  all_goals
    subst word
    rfl

theorem typeOf?_ne_name {v : Value} (nameless : v.word? = none) (name : String) :
    typeOf? v ≠ .ok (some name) := by
  unfold typeOf?
  split
  · simp
  · simp [nameless]

/-! What a command leaves of the catalog. -/

theorem register_of_word {type : Value} {name : String} (c : Catalog) (label : String)
    (options : Registration) (word : type.word? = some name) :
    (c.register type label options).2 =
      { c with builder := c.builder.apply (.register name ⟨label, c.moment⟩ options) } := by
  simp only [register, typeOf?_of_word word, Registry.apply]
  cases c.builder.register name ⟨label, c.moment⟩ options with
  | mk r logs => cases r <;> rfl

theorem unregister_of_word {type : Value} {name : String} (c : Catalog)
    (word : type.word? = some name) :
    (c.unregister type).2 = { c with builder := c.builder.apply (.unregister name) } := by
  unfold unregister
  cases empty : c.builder.isEmpty with
  | true =>
      have none : c.builder = [] := List.isEmpty_iff.mp empty
      obtain ⟨builder, snapshots, moment⟩ := c
      obtain rfl : builder = [] := none
      rfl
  | false => simp only [Bool.false_eq_true, if_false, typeOf?_of_word word, Registry.apply]

theorem register_of_no_word {type : Value} (c : Catalog) (label : String) (options : Registration)
    (nameless : type.word? = none) : (c.register type label options).2 = c := by
  unfold register
  split
  · rfl
  · rfl
  · next name named => exact absurd named (typeOf?_ne_name nameless name)

theorem unregister_of_no_word {type : Value} (c : Catalog) (nameless : type.word? = none) :
    (c.unregister type).2 = c := by
  unfold unregister
  split
  · rfl
  · rfl
  · next name named =>
      split at named
      · cases named
      · exact absurd named (typeOf?_ne_name nameless name)

/-- What a command may leave of a catalog. A call on the builder leaves the snapshots, and
everything else leaves the builder. -/
inductive Leaves (c : Catalog) (x : CatalogCommand) : Catalog → Prop
  | builder {call : Registry.Call (Registered String)} (called : x.call? c.moment = some call) :
      Leaves c x { c with builder := c.builder.apply call }
  | snapshots {snapshots : List (SharedRegistry String)} (silent : x.call? c.moment = none)
      (kept : x.editsSnapshot = false → c.snapshots <+: snapshots) : Leaves c x { c with snapshots }

theorem Leaves.still (silent : x.call? c.moment = none) : Leaves c x c :=
  .snapshots silent fun _ => List.prefix_rfl

theorem leaves_change {number : Int}
    {f : SharedRegistry String → Except Failure (SharedRegistry String)}
    (silent : x.call? c.moment = none) (edits : x.editsSnapshot = true) :
    Leaves c x (c.change number f).2 := by
  unfold change
  split
  · exact .still silent
  · exact .snapshots silent (by simp [edits])

theorem leaves_carryOut (c : Catalog) (x : CatalogCommand) : Leaves c x (c.carryOut x).2 := by
  cases x with
  | register type label options =>
      change Leaves c _ (c.register type label options).2
      cases word : type.word? with
      | none =>
          rw [register_of_no_word c label options word]
          exact .still (by simp [CatalogCommand.call?, word])
      | some name =>
          rw [register_of_word c label options word]
          exact .builder (by simp [CatalogCommand.call?, word])
  | unregister type =>
      change Leaves c _ (c.unregister type).2
      cases word : type.word? with
      | none =>
          rw [unregister_of_no_word c word]
          exact .still (by simp [CatalogCommand.call?, word])
      | some name =>
          rw [unregister_of_word c word]
          exact .builder (by simp [CatalogCommand.call?, word])
  | build => exact .snapshots rfl fun _ => List.prefix_append _ _
  | setDefault => exact leaves_change rfl rfl
  | copyEntry => exact leaves_change rfl rfl
  | drop => exact leaves_change rfl rfl
  | _ => exact .still rfl

variable {d : Catalog}

theorem Leaves.moment (h : Leaves c x d) : d.moment = c.moment := by cases h <;> rfl

theorem Leaves.builder_eq (h : Leaves c x d) :
    d.builder = (x.call? c.moment).toList.foldl Registry.apply c.builder := by
  cases h with
  | builder called => simp [called]
  | snapshots silent => simp [silent]

theorem Leaves.prefix_snapshots (h : Leaves c x d) (untouched : x.editsSnapshot = false) :
    c.snapshots <+: d.snapshots := by
  cases h with
  | builder => exact List.prefix_rfl
  | snapshots silent kept => exact kept untouched

/-! What a whole history leaves of it. -/

theorem moment_after (history : List CatalogCommand) : (after history).moment = history.length := by
  induction history using List.reverseRecOn with
  | nil => rfl
  | append_singleton history x ih =>
      rw [after_append, List.length_append, List.length_singleton, ← ih]
      exact congrArg (· + 1) (leaves_carryOut _ x).moment

theorem calls_append (history : List CatalogCommand) (x : CatalogCommand) :
    calls (history ++ [x]) = calls history ++ (x.call? history.length).toList := by
  simp only [calls, List.zipIdx_append, List.filterMap_append]
  cases called : x.call? history.length <;> simp [called]

/-- The builder holds what the calls on it have built, whatever was done to snapshots. -/
theorem builder_after (history : List CatalogCommand) :
    (after history).builder = Registry.ofCalls (calls history) := by
  induction history using List.reverseRecOn with
  | nil => rfl
  | append_singleton history x ih =>
      rw [after_append, calls_append, Registry.ofCalls, List.foldl_append, ← moment_after]
      exact (leaves_carryOut _ x).builder_eq.trans (by rw [ih, Registry.ofCalls])

theorem snapshots_after (history : List CatalogCommand) {later : List CatalogCommand}
    (untouched : ∀ x ∈ later, x.editsSnapshot = false) :
    (after history).snapshots <+: (after (history ++ later)).snapshots := by
  induction later using List.reverseRecOn with
  | nil => simp
  | append_singleton later x ih =>
      simp only [List.forall_mem_append, List.forall_mem_singleton] at untouched
      rw [← List.append_assoc, after_append]
      exact (ih untouched.1).trans ((leaves_carryOut _ x).prefix_snapshots untouched.2)

/-- A snapshot that is built after a history binds just the names whose latest call on the builder
is a registration, each as this call says, in the order of their first registrations since they were
last taken back. The statistics of the builder are those of the snapshot. It stays what it is
whatever is done later, as long as nobody changes snapshots in place. -/
theorem build_lastWritten (history : List CatalogCommand) :
    let c := after history
    ∃ s : SharedRegistry String,
      (c.carryOut .build).1.1 = .ok (.list ((Entries.keys s).map .str)) ∧
      (c.carryOut .build).2 = { c with snapshots := c.snapshots ++ [s] } ∧
      s.contents.LastWritten (calls history) ∧
      c.carryOut .stats = ((.ok (statsValue s.stats), []), c) ∧
      ∀ later, (∀ x ∈ later, x.editsSnapshot = false) →
        (after (history ++ .build :: later)).snapshots[c.snapshots.length]? = some s := by
  intro c
  let s := SharedRegistry.ofRegistry c.builder
  have written : s.contents.LastWritten (calls history) := by
    rw [SharedRegistry.contents_ofRegistry, builder_after]
    exact (Registry.ofCalls_follows _).lastWritten
  have keys : Entries.keys s = Entries.keys c.builder := by
    rw [← s.keys_contents, SharedRegistry.contents_ofRegistry]
  have stats : s.stats = c.builder.stats := by
    rw [← s.stats_contents, SharedRegistry.contents_ofRegistry]
  refine ⟨s, by rw [keys]; rfl, rfl, written, by rw [stats]; rfl, fun later untouched => ?_⟩
  have built : (after (history ++ [.build])).snapshots = c.snapshots ++ [s] := by
    rw [after_append]
    rfl
  obtain ⟨newer, kept⟩ := snapshots_after (history ++ [.build]) untouched
  rw [List.append_assoc, List.singleton_append, built] at kept
  simp [← kept]

/-- A component that is registered anew keeps its place, one that was taken back before comes last,
and a registration that is refused changes nothing. -/
theorem build_lastWritten_moved :
    let sized : Registration := { defaultProps := .dict [("size", .int 1)] }
    let refused : Registration := { childrenProps := .int 1 }
    let first : List CatalogCommand :=
      [.register (.str "A") "a" {}, .register (.str "B") "b" {}, .register (.str "A") "new" sized]
    let second := first ++ .build ::
      [.unregister (.str "A"), .register (.str "B") "bad" refused, .register (.str "A") "last" {}]
    let later : List CatalogCommand := [.unregister (.str "B"), .register (.str "A") "late" sized]
    let snapshots := (after (second ++ .build :: later)).snapshots
    ∃ s s' : SharedRegistry String, snapshots[0]? = some s ∧ snapshots[1]? = some s' ∧
      Entries.keys s = ["A", "B"] ∧ Entries.keys s' = ["B", "A"] ∧
      Entries.find? s.contents "A" =
        some ⟨⟨"new", 2⟩, [("size", .int 1)], [], [], .bool true⟩ ∧
      Entries.find? s'.contents "A" = some ⟨⟨"last", 6⟩, [], [], [], .bool true⟩ ∧
      Entries.find? s'.contents "B" = some ⟨⟨"b", 1⟩, [], [], [], .bool true⟩ := by
  intro sized refused first second later snapshots
  obtain ⟨s, listed, -, written, -, kept⟩ := build_lastWritten first
  obtain ⟨s', listed', -, written', -, kept'⟩ := build_lastWritten second
  have keys {t : SharedRegistry String} (names : List String)
      (listed : (.ok (.list (names.map .str)) : Except Failure Value) =
        .ok (.list ((Entries.keys t).map .str))) : Entries.keys t = names := by
    rw [eq_comm, ← List.map_inj_right fun _ _ => Value.str.inj]
    exact Value.list.inj (Except.ok.inj listed)
  have early : ∀ x ∈ second.drop 4 ++ .build :: later, x.editsSnapshot = false := by
    simp [second, first, later, CatalogCommand.editsSnapshot]
  have late : ∀ x ∈ later, x.editsSnapshot = false := by
    simp [later, CatalogCommand.editsSnapshot]
  refine ⟨s, s', kept _ early, kept' later late, keys ["A", "B"] listed, keys ["B", "A"] listed',
    ?_, ?_, ?_⟩
  · exact written.find?_eq_some (Registry.latest?_eq_some.mp rfl)
      (Entry.ofRegistration_eq_ok.mp rfl)
  · exact written'.find?_eq_some (Registry.latest?_eq_some.mp rfl)
      (Entry.ofRegistration_eq_ok.mp rfl)
  · exact written'.find?_eq_some (Registry.latest?_eq_some.mp rfl)
      (Entry.ofRegistration_eq_ok.mp rfl)

end Catalog

end Scenario

end ServerUI
