import ServerUI.Proofs.Render.Parsed

/-!
Lists that are rendered without being told what their items are. The first item decides, and of it
nothing but whether it has a key `components`. Whatever is read as a section has one; a node may
have one too, since the keys that are no fields of it count for nothing, and then its list is taken
for sections and the node is left out.
-/

set_option autoImplicit false

namespace ServerUI

variable {ι σ : Type}

theorem Value.hasComponents_dict (es : Dict) :
    (Value.dict es).hasComponents = true ↔ "components" ∈ Entries.keys es := by
  simp [hasComponents, Entries.contains, Option.isSome_iff_ne_none, Entries.find?_eq_none]

theorem Section.hasComponents_of_read {v : Value} {s : Section} (read : ofValue v = .ok s) :
    v.hasComponents = true := by
  cases v with
  | «section» s => rfl
  | dict es =>
      obtain ⟨-, -, -, components, -⟩ := ofFields_eq_ok.mp read
      obtain ⟨w, found, -⟩ := Field.required_eq_ok.mp components
      have plain : Field.camelCase "components" = "components" := by decide
      rw [Field.value?_eq, Field.named, plain, Option.or_self] at found
      exact (Value.hasComponents_dict es).mpr
        (List.mem_map.mpr ⟨_, Entries.mem_of_find? found, rfl⟩)
  | _ => simp [ofValue] at read

namespace Renderer

variable {ask : Ask ι σ} {r : Renderer ι} {levels : Nat} {F : Failure → Prop}

theorem screen_untold (ask : Ask ι σ) (r : Renderer ι) (levels : Nat) (v : Value)
    (rest : List Value) :
    r.screen ask levels (.list (v :: rest)) .null =
      r.screen ask levels (.list (v :: rest)) (.bool v.hasComponents) := rfl

theorem ends_no_section {v : Value} (refused : ∀ s, Section.ofValue v ≠ .ok s)
    (unhashable : ∀ type, Section.ofValue v = .unhashable type → F (.unhashable type)) :
    Run.Ends F (fun output => output.isNull = true) (r.sectionOf ask levels v) := by
  unfold sectionOf
  cases read : Section.ofValue v with
  | ok s => exact absurd read (refused s)
  | faults fs => exact (Run.ends_log _ _ _).bind fun _ _ => Run.ends_pure rfl
  | unhashable type => exact Run.ends_throw (unhashable type read)

/-- An item that is left out has no key among those of its list. -/
theorem ends_keyed_dropped {one : Value → Run ι σ Value} {P : List Value → Prop} {name : String}
    {v : Value} {rest : List Value} {index : Nat}
    (dropped : Run.Ends F (fun output => output.isNull = true) (one v))
    (others : Run.Ends F P (keyed name one (index + 1) rest)) :
    Run.Ends F P (keyed name one index (v :: rest)) :=
  dropped.bind fun _ null => others.bind fun _ h => Run.ends_pure (by simpa [null] using h)

theorem ends_screen_no_section {v : Value} {rest : List Value}
    (refused : ∀ s, Section.ofValue v ≠ .ok s) :
    Run.Ends (fun _ => True) (fun outputs => (keysOf outputs).length ≤ rest.length)
      (r.screen ask levels (.list (v :: rest)) (.bool true)) := by
  have others : Run.Ends (fun _ => True) (fun outputs => (keysOf outputs).length ≤ rest.length)
      (keyed "id" (r.sectionOf ask levels) 1 rest) :=
    ends_keysAt.mono (fun _ _ => trivial) fun outputs keys => by
      simpa [keysAt] using keys.length_le
  exact ends_screen (by simp)
    (ends_keyed_dropped (ends_no_section refused fun _ _ => trivial) others)

/-- A list of nodes that begins with a mapping which is no section is rendered untold as it is
rendered when told that these are nodes, as long as that mapping has no key `components`, and no
longer: otherwise there is a renderer that tells them apart. A list of sections is always rendered
untold as it is rendered when told that these are sections. -/
theorem screen_untold_iff {es : Dict} {rest : List Value} {v : Value} {sections : List Value}
    (nodes : ∀ item ∈ Value.dict es :: rest, ∃ n, Node.ofValue item = .ok n)
    (refused : ∀ s, Section.ofValue (.dict es) ≠ .ok s)
    (read : ∀ item ∈ v :: sections, ∃ s, Section.ofValue item = .ok s) :
    ((∀ (ι σ : Type) (ask : Ask ι σ) (r : Renderer ι) (levels : Nat),
      r.screen ask levels (.list (.dict es :: rest)) .null =
        r.screen ask levels (.list (.dict es :: rest)) (.bool false)) ↔
      "components" ∉ Entries.keys es) ∧
    ∀ (ι σ : Type) (ask : Ask ι σ) (r : Renderer ι) (levels : Nat),
      r.screen ask levels (.list (v :: sections)) .null =
        r.screen ask levels (.list (v :: sections)) (.bool true) := by
  refine ⟨⟨fun same there => ?_, fun absent ι σ ask r levels => ?_⟩, fun ι σ ask r levels => ?_⟩
  · obtain ⟨outputs, w, ran, keys⟩ := (ends_screen_drawn nodes 0).reaches { client := () }
    have all : (keysOf outputs).length = rest.length + 1 := by simp [keys, keysAt]
    have untold := same Unit Unit drawn drawing 1
    rw [screen_untold, (Value.hasComponents_dict es).mpr there] at untold
    rw [← untold] at ran
    have fewer := (ends_screen_no_section refused).value ran
    omega
  · have plain : (Value.dict es).hasComponents = false := by
      rwa [← Bool.not_eq_true, Value.hasComponents_dict]
    rw [screen_untold, plain]
  · obtain ⟨s, first⟩ := read v List.mem_cons_self
    rw [screen_untold, Section.hasComponents_of_read first]

/-- A node and a section, neither of which could be the other. -/
theorem screen_untold_apart :
    let es : Dict := [("type", .str "A")]
    let bare : Dict := [("components", .list [])]
    (∀ item ∈ [Value.dict es], ∃ n, Node.ofValue item = .ok n) ∧
    (∀ s, Section.ofValue (.dict es) ≠ .ok s) ∧
    (∀ item ∈ [Value.dict bare], ∃ s, Section.ofValue item = .ok s) ∧
    "components" ∉ Entries.keys es ∧
    drawing.screen drawn 1000 (.list [.dict es]) .null =
      drawing.screen drawn 1000 (.list [.dict es]) (.bool false) ∧
    drawing.screen drawn 1000 (.list [.dict bare]) .null =
      drawing.screen drawn 1000 (.list [.dict bare]) (.bool true) := by
  intro es bare
  have nodes : ∀ item ∈ [Value.dict es], ∃ n, Node.ofValue item = .ok n := by
    have first : Node.ofValue (.dict es) = .ok ⟨"A", [], none, none, none, none, none⟩ := rfl
    simp [first]
  have refused : ∀ s, Section.ofValue (.dict es) ≠ .ok s := by
    have faults : Section.ofValue (.dict es) = .faults [⟨[.name "components"], .missing⟩] := rfl
    simp [faults]
  have read : ∀ item ∈ [Value.dict bare], ∃ s, Section.ofValue item = .ok s := by
    have first : Section.ofValue (.dict bare) =
        .ok ⟨none, none, none, [], none, none, none, none, none, none⟩ := rfl
    simp [first]
  have absent : "components" ∉ Entries.keys es := by decide
  have untold := screen_untold_iff nodes refused read
  exact ⟨nodes, refused, read, absent, untold.1.mpr absent Unit Unit drawn drawing 1000,
    untold.2 Unit Unit drawn drawing 1000⟩

/-- A node with a key `components` that holds no list is left out, unless its list is told that
these are nodes. -/
theorem screen_untold_stray :
    let es : Dict := [("type", .str "A"), ("components", .int 5)]
    (∃ n, Node.ofValue (.dict es) = .ok n) ∧ (∀ s, Section.ofValue (.dict es) ≠ .ok s) ∧
    (∃ outputs w, Run.exec (drawing.screen drawn 1000 (.list [.dict es]) .null) { client := () } =
      (.ok outputs, w) ∧ keysOf outputs = []) ∧
    ∃ outputs w, Run.exec (drawing.screen drawn 1000 (.list [.dict es]) (.bool false))
      { client := () } = (.ok outputs, w) ∧ keysOf outputs = [.int 0] := by
  intro es
  have read : Node.ofValue (.dict es) = .ok ⟨"A", [], none, none, none, none, none⟩ := rfl
  have faults : Section.ofValue (.dict es) = .faults [⟨[.name "components"], .list⟩] := rfl
  have refused : ∀ s, Section.ofValue (.dict es) ≠ .ok s := by simp [faults]
  have nodes : ∀ item ∈ [Value.dict es], ∃ n, Node.ofValue item = .ok n := by simp [read]
  have dropped : Run.Ends (fun _ => False) (fun outputs => keysOf outputs = [])
      (drawing.screen drawn 1000 (.list [.dict es]) (.bool true)) :=
    ends_screen (by simp) (ends_keyed_dropped (ends_no_section refused (by simp [faults]))
      (Run.ends_pure rfl))
  exact ⟨⟨_, read⟩, refused, dropped.reaches { client := () },
    (ends_screen_drawn nodes 999).reaches { client := () }⟩

end Renderer

end ServerUI
