import Mathlib.Data.List.Forall2
import ServerUI.Proofs.Action.ReadBack
import ServerUI.Proofs.Render.Keys

/-!
Lists of mappings against lists of what is read from them. An item is rendered from what is read,
but its key is taken from the item as it came. A node has text or a whole number for its key, and
what comes as a truth value or as a real number only becomes one as it is read; the id of a section
comes as the text that it is. So sections are rendered alike, and nodes unless such a key is among
theirs.
-/

set_option autoImplicit false

namespace ServerUI

variable {ι σ : Type}

namespace Value

/-- A key as a node has it. -/
def isKey : Value → Bool
  | str _ | int _ => true
  | _ => false

theorem eq_ofKey_iff {v : Value} {k : Key} (valid : Validate.key v = .ok k) :
    v = ofKey k ↔ v.isKey = true := by
  constructor
  · rintro rfl
    cases k <;> rfl
  · intro kept
    cases v with
    | str s =>
        obtain rfl : Key.text s = k := by simpa [Validate.key, Validate.text, Validate.bySpelling,
          Validate.spelled?] using valid
        rfl
    | int i =>
        obtain rfl : Key.number i = k := by simpa [Validate.key, Validate.text, Validate.whole,
          Validate.bySpelling, Validate.spelled?] using valid
        rfl
    | _ => simp [isKey] at kept

theorem str_of_text {v : Value} {s : String} (plain : v.isPlain = true)
    (valid : Validate.text v = .ok s) : v = str s := by
  cases v <;> simp_all [isPlain, Validate.text, Validate.bySpelling, Validate.spelled?]

end Value

namespace Renderer

variable {ask : Ask ι σ} {r : Renderer ι} {one : Value → Run ι σ Value} {levels : Nat}

/-- The keys come as nodes have them. -/
def KeysKept (raws : List Dict) : Prop :=
  ∀ es ∈ raws, ∀ v, givenKey "key" (.dict es) = some v → v.isKey = true

theorem givenKey_node (n : Node) : givenKey "key" (.node n) = n.key.map .ofKey := by
  have field : fieldOf? "key" (.node n) = some (.ofOption .ofKey n.key) := rfl
  rcases own : n.key with _ | ⟨s | i⟩ <;>
    simp [givenKey, field, own, Value.ofOption, Value.ofKey, Value.isNull, Option.filter]

-- The key of a mapping is what its field is read from, unless the field has another spelling too.
theorem givenKey_read {α : Type} {name : String} {check : Value → Checked α} {es : Dict}
    {o : Option α} (plain : Field.camelCase name = name)
    (read : (Field.named name).optional check es = .ok o) :
    match givenKey name (.dict es) with
    | none => o = none
    | some v => (name, v) ∈ es ∧ ∃ a, check v = .ok a ∧ o = some a := by
  have own : givenKey name (.dict es) = (Entries.find? es name).filter (!·.isNull) := rfl
  rw [Field.optional_eq_ok, Field.value?_eq, Field.named, plain, Option.or_self] at read
  rw [own]
  cases found : Entries.find? es name with
  | none => simpa [found, eq_comm] using read
  | some v =>
      simp only [found] at read
      cases null : v.isNull with
      | true => simpa [null, Option.filter] using read
      | false =>
          have valid : ∃ a, check v = .ok a ∧ o = some a := by simpa [null] using read
          simpa [null, Option.filter] using ⟨Entries.mem_of_find? found, valid⟩

theorem keyOf_node_iff {es : Dict} {n : Node} (read : Node.ofValue (.dict es) = .ok n)
    (index : Nat) :
    keyOf "key" (.dict es) index = keyOf "key" (.node n) index ↔
      ∀ v, givenKey "key" (.dict es) = some v → v.isKey = true := by
  obtain ⟨es, below, ⟨⟩, fields⟩ := (Node.within_eq_ok read).resolve_left (by simp)
  obtain ⟨-, -, -, key, -⟩ := Node.ofFields_eq_ok.mp fields
  have given := givenKey_read (by decide) key
  rw [keyOf_eq, keyOf_eq, givenKey_node]
  split at given
  · next none => simp [none, given]
  · next v own =>
      obtain ⟨-, k, valid, there⟩ := given
      simp [own, there, Value.eq_ofKey_iff valid]

theorem keyOf_section_eq {es : Dict} {s : Section} (plain : (Value.dict es).IsJson)
    (read : Section.ofValue (.dict es) = .ok s) (index : Nat) :
    keyOf "id" (.dict es) index = keyOf "id" (.section s) index := by
  obtain ⟨id, -⟩ := Section.ofFields_eq_ok.mp read
  have given := givenKey_read (by decide) id
  rw [keyOf_eq, keyOf_eq, givenKey_section]
  split at given
  · next none => simp [none, given]
  · next v own =>
      obtain ⟨member, text, valid, there⟩ := given
      obtain rfl := Value.str_of_text (plain.entry member).here valid
      simp [own, there]

theorem node_of_read {v : Value} {n : Node} (read : Node.ofValue v = .ok n) :
    r.node ask levels v = r.node ask levels (.node n) := by
  cases levels with
  | zero => rfl
  | succ levels => simp only [node, read, Node.ofValue_node]

theorem sectionOf_of_read {v : Value} {s : Section} (read : Section.ofValue v = .ok s) :
    r.sectionOf ask levels v = r.sectionOf ask levels (.section s) := by
  have own : Section.ofValue (.section s) = .ok s := rfl
  simp only [sectionOf, read, own]

theorem keyed_alike {name : String} {index : Nat} {items items' : List Value}
    (alike : List.Forall₂ (fun u u' => one u = one u') items items')
    (keys : keysAt name index items = keysAt name index items') :
    keyed name one index items = keyed name one index items' := by
  induction alike generalizing index with
  | nil => rfl
  | cons same _ ih =>
      rw [keysAt_cons, keysAt_cons, List.cons.injEq] at keys
      rw [keyed, keyed, same, keys.1, ih keys.2]

theorem screen_alike {items items' : List Value} {sections : Bool}
    (length : items.length = items'.length)
    (alike : r.screenList ask levels sections items = r.screenList ask levels sections items') :
    r.screen ask levels (.list items) (.bool sections) =
      r.screen ask levels (.list items') (.bool sections) := by
  have empty : items.isEmpty = items'.isEmpty := by
    cases items <;> cases items' <;> simp_all
  rw [screen_list, screen_list, empty, length, alike]

theorem keysAt_nodes_iff {raws : List Dict} {ns : List Node} {index : Nat}
    (read : List.Forall₂ (fun es n => Node.ofValue (.dict es) = .ok n) raws ns) :
    keysAt "key" index (raws.map .dict) = keysAt "key" index (ns.map .node) ↔ KeysKept raws := by
  induction read generalizing index with
  | nil => simp [KeysKept, keysAt]
  | cons read _ ih => simp [keyOf_node_iff read, ih, KeysKept]

theorem keysAt_sections {raws : List Dict} {ss : List Section} {index : Nat}
    (plain : ∀ es ∈ raws, (Value.dict es).IsJson)
    (read : List.Forall₂ (fun es s => Section.ofValue (.dict es) = .ok s) raws ss) :
    keysAt "id" index (raws.map .dict) = keysAt "id" index (ss.map .section) := by
  induction read generalizing index with
  | nil => rfl
  | cons read _ ih =>
      simp only [List.mem_cons, forall_eq_or_imp] at plain
      simp [keyOf_section_eq plain.1 read, ih plain.2]

theorem nodes_alike {raws : List Dict} {ns : List Node}
    (read : List.Forall₂ (fun es n => Node.ofValue (.dict es) = .ok n) raws ns)
    (kept : KeysKept raws) :
    nodes (r.node ask levels) (raws.map .dict) = nodes (r.node ask levels) (ns.map .node) := by
  apply keyed_alike _ ((keysAt_nodes_iff read).mpr kept)
  rw [List.forall₂_map_left_iff, List.forall₂_map_right_iff]
  exact read.imp fun es n read => node_of_read read

-- What is rendered before the slot leaves it alone, and what is rendered later finds it rendered.
theorem slots_alike {names : List Value} {props : Dict} {word : String} {v v' : Value}
    (alike : slot one v = slot one v') (listed : word ∈ names.filterMap Value.word?) :
    slots one names (Entries.insert props word v) =
      slots one names (Entries.insert props word v') := by
  induction names generalizing props with
  | nil => simp at listed
  | cons name rest ih =>
      unfold slots
      split
      · rfl
      · cases spelled : name.word? with
        | none =>
            simp only [List.filterMap_cons, spelled] at listed
            exact ih listed
        | some other =>
            simp only [List.filterMap_cons, spelled, List.mem_cons] at listed
            simp only [Option.bind_some]
            by_cases same : other = word
            · subst same
              simp only [Entries.find?_insert_self, Option.map_some, alike,
                Entries.insert_insert_self]
            · have behind := listed.resolve_left (Ne.symm same)
              rw [Entries.find?_insert_of_ne _ _ same, Entries.find?_insert_of_ne _ _ same]
              cases found : Entries.find? props other with
              | none => exact ih behind
              | some u =>
                  have there : other ∈ Entries.keys props :=
                    List.mem_map.mpr ⟨_, Entries.mem_of_find? found, rfl⟩
                  simp only [Option.map_some,
                    Entries.insert_comm _ _ there (Ne.symm same), ih behind]

theorem node_slot_alike {n : Node} {word : String} {v v' : Value}
    (alike : ∀ levels, slot (r.node ask levels) v = slot (r.node ask levels) v')
    (once : (Entries.keys n.props).Nodup)
    (listed : ∀ e, Entries.find? r.registry n.type = some e → word ∈ e.slots) :
    r.node ask levels (.node { n with props := Entries.insert n.props word v }) =
      r.node ask levels (.node { n with props := Entries.insert n.props word v' }) := by
  cases levels with
  | zero => rfl
  | succ levels =>
      simp only [node, Node.ofValue_node]
      cases found : Entries.find? r.registry n.type with
      | none => rfl
      | some e =>
          have props : r.buildProps (r.node ask levels)
              { n with props := Entries.insert n.props word v } e =
            r.buildProps (r.node ask levels)
              { n with props := Entries.insert n.props word v' } e := by
            simp only [buildProps, Entries.merge_insert once,
              slots_alike (alike levels) (listed e found)]
          simp only [registered, props]
          rfl

/-- Mappings are rendered as the nodes that are read from them: as a screen of nodes and in a slot
of a node. -/
structure RendersAlike (ask : Ask ι σ) (r : Renderer ι) (levels : Nat) (raws : List Dict)
    (ns : List Node) : Prop where
  screen : r.screen ask levels (.list (raws.map .dict)) (.bool false) =
    r.screen ask levels (.list (ns.map .node)) (.bool false)
  slot (n : Node) (word : String) (once : (Entries.keys n.props).Nodup)
    (listed : ∀ e, Entries.find? r.registry n.type = some e → word ∈ e.slots) :
    r.node ask levels
        (.node { n with props := Entries.insert n.props word (.list (raws.map .dict)) }) =
      r.node ask levels
        (.node { n with props := Entries.insert n.props word (.list (ns.map .node)) })

theorem rendersAlike {raws : List Dict} {ns : List Node}
    (read : List.Forall₂ (fun es n => Node.ofValue (.dict es) = .ok n) raws ns)
    (kept : KeysKept raws) : RendersAlike ask r levels raws ns where
  screen := screen_alike (by simpa using read.length_eq) (nodes_alike read kept)
  slot n word once listed := by
    apply node_slot_alike _ once listed
    intro levels
    simp only [slot, nodes_alike read kept]

theorem ends_screen_drawn {items : List Value}
    (read : ∀ item ∈ items, ∃ n, Node.ofValue item = .ok n) (levels : Nat) :
    Run.Ends (fun _ => False) (fun outputs => keysOf outputs = keysAt "key" 0 items)
      (drawing.screen drawn (levels + 1) (.list items) (.bool false)) :=
  ends_screen (fun none => by rw [none]; rfl) (ends_nodes_drawn read levels)

theorem readable_dicts {raws : List Dict} {ns : List Node}
    (read : List.Forall₂ (fun es n => Node.ofValue (.dict es) = .ok n) raws ns) :
    ∀ item ∈ raws.map .dict, ∃ n, Node.ofValue item = .ok n := by
  induction read with
  | nil => simp
  | cons read _ ih => simpa using ⟨⟨_, read⟩, by simpa using ih⟩

/-- A list of mappings is rendered as the list of what is read from them: always if they are
sections, and if they are nodes as long as none has a truth value or a real number for its key, and
no longer. -/
theorem render_parsed_iff {raws sections : List Dict} {ns : List Node} {ss : List Section}
    (nodes : List.Forall₂ (fun es n => Node.ofValue (.dict es) = .ok n) raws ns)
    (plain : ∀ es ∈ sections, (Value.dict es).IsJson)
    (read : List.Forall₂ (fun es s => Section.ofValue (.dict es) = .ok s) sections ss) :
    ((∀ (ι σ : Type) (ask : Ask ι σ) (r : Renderer ι) (levels : Nat),
      RendersAlike ask r levels raws ns) ↔ KeysKept raws) ∧
    ∀ (ι σ : Type) (ask : Ask ι σ) (r : Renderer ι) (levels : Nat),
      r.screen ask levels (.list (sections.map .dict)) (.bool true) =
        r.screen ask levels (.list (ss.map .section)) (.bool true) := by
  refine ⟨⟨fun alike => ?_, fun kept ι σ ask r levels => rendersAlike nodes kept⟩, ?_⟩
  · obtain ⟨outputs, w, ran, raw⟩ :=
      (ends_screen_drawn (readable_dicts nodes) 0).reaches { client := () }
    rw [(alike Unit Unit drawn drawing 1).screen] at ran
    have parsed : keysOf outputs = keysAt "key" 0 (ns.map .node) :=
      (ends_screen_drawn (readable_nodes ns) 0).value ran
    exact (keysAt_nodes_iff nodes).mp (raw.symm.trans parsed)
  · intro ι σ ask r levels
    apply screen_alike (by simpa using read.length_eq)
    apply keyed_alike _ (keysAt_sections plain read)
    rw [List.forall₂_map_left_iff, List.forall₂_map_right_iff]
    exact read.imp fun es s read => sectionOf_of_read read

/-- Text for a key and no key at all are rendered as they are read, and so is a section. -/
theorem render_parsed_text :
    let node (own : Dict) : Dict := ("type", .str "A") :: own
    let raws : List Dict := [node [("key", .str "a")], node []]
    let n : Node := ⟨"A", [], none, none, none, none, none⟩
    let ns : List Node := [{ n with key := some (.text "a") }, n]
    let raw : Dict := [("id", .str "s"), ("components", .list [])]
    let s : Section := ⟨some "s", none, none, [], none, none, none, none, none, none⟩
    let r : Renderer Unit := { registry := [("A", ⟨(), [], [], [.str "header"], .bool true⟩)] }
    List.Forall₂ (fun es n => Node.ofValue (.dict es) = .ok n) raws ns ∧
    Section.ofValue (.dict raw) = .ok s ∧ (Value.dict raw).IsJson ∧
    RendersAlike drawn r 1000 raws ns ∧
      r.screen drawn 1000 (.list [.dict raw]) (.bool true) =
        r.screen drawn 1000 (.list [.section s]) (.bool true) := by
  intro node raws n ns raw s r
  have nodes : List.Forall₂ (fun es n => Node.ofValue (.dict es) = .ok n) raws ns := by
    have first : Node.ofValue (.dict (node [("key", .str "a")])) =
        .ok { n with key := some (.text "a") } := rfl
    have second : Node.ofValue (.dict (node [])) = .ok n := rfl
    exact .cons first (.cons second .nil)
  have kept : KeysKept raws := by
    have first : givenKey "key" (.dict (node [("key", .str "a")])) = some (.str "a") := rfl
    have second : givenKey "key" (.dict (node [])) = none := rfl
    simp [KeysKept, raws, first, second, Value.isKey]
  have read : Section.ofValue (.dict raw) = .ok s := rfl
  have plain : (Value.dict raw).IsJson :=
    Value.IsJson.of_leaves (by simp [raw, Value.isPlain, Value.parts])
  have alike := render_parsed_iff nodes (by simpa using plain) (.cons read .nil)
  exact ⟨nodes, read, plain, alike.1.mpr kept Unit Unit drawn r 1000,
    alike.2 Unit Unit drawn r 1000⟩

/-- A truth value for a key stays one if it is rendered as it came, and is a number if it is
read. -/
theorem render_parsed_truth :
    let raw : Dict := [("type", .str "A"), ("key", .bool true)]
    let n : Node := ⟨"A", [], none, some (.number 1), none, none, none⟩
    (Value.dict raw).IsJson ∧ Node.ofValue (.dict raw) = .ok n ∧
    (∃ outputs w, Run.exec (drawing.screen drawn 1000 (.list [.dict raw]) (.bool false))
      { client := () } = (.ok outputs, w) ∧ keysOf outputs = [.bool true]) ∧
    ∃ outputs w, Run.exec (drawing.screen drawn 1000 (.list [.node n]) (.bool false))
      { client := () } = (.ok outputs, w) ∧ keysOf outputs = [.int 1] := by
  intro raw n
  have plain : (Value.dict raw).IsJson :=
    Value.IsJson.of_leaves (by simp [raw, Value.isPlain, Value.parts])
  have read : Node.ofValue (.dict raw) = .ok n := rfl
  have keyed {v : Value} (read : Node.ofValue v = .ok n) :
      ∃ outputs w, Run.exec (drawing.screen drawn 1000 (.list [v]) (.bool false))
        { client := () } = (.ok outputs, w) ∧ keysOf outputs = keysAt "key" 0 [v] := by
    have readable : ∀ item ∈ [v], ∃ n, Node.ofValue item = .ok n := by simpa using ⟨n, read⟩
    exact (ends_screen_drawn readable 999).reaches { client := () }
  exact ⟨plain, read, keyed read, keyed (Node.ofValue_node n)⟩

end Renderer

end ServerUI
