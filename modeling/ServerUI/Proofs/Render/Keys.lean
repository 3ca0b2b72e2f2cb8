import ServerUI.Proofs.Render.Total

/-!
The keys of rendered lists. An item is rendered under the key that it has of its own, or under its
place in the list if it has none, and what is left out takes its key with it. So two outputs share a
key only where an item has the place of another one for its own key. On a screen a place is never
the id of a section, which is text; there it is the header and the footer that a section may clash
with.
-/

set_option autoImplicit false

namespace ServerUI

variable {ι σ : Type}

namespace Renderer

variable {ask : Ask ι σ} {r : Renderer ι} {one : Value → Run ι σ Value} {F : Failure → Prop}
  {name : String} {items : List Value} {index : Nat}

def keysOf (outputs : List Value) : List Value :=
  outputs.filterMap fun
    | .keyed key _ => some key
    | _ => none

theorem keysOf_append (outputs more : List Value) :
    keysOf (outputs ++ more) = keysOf outputs ++ keysOf more :=
  List.filterMap_append

def fieldOf? (name : String) : Value → Option Value
  | .dict es => Entries.find? es name
  | item => item.model?.bind fun m => Entries.find? m.2 name

/-- The key that an item has of its own. -/
def givenKey (name : String) (item : Value) : Option Value :=
  (fieldOf? name item).filter (!·.isNull)

def keysAt (name : String) (index : Nat) (items : List Value) : List Value :=
  (items.zipIdx index).map fun (item, i) => keyOf name item i

/-- No two keys are the same. -/
def Apart (keys : List Value) : Prop := keys.Pairwise fun k l => k.same false l = false

/-- No item has the place of an item without a key for its own key. -/
def PlacesFree (name : String) (items : List Value) : Prop :=
  ∀ (i j : Nat) (a b k : Value), items[i]? = some a → items[j]? = some b →
    givenKey name a = some k → givenKey name b = none → k.same false (.int j) = false

theorem keyOf_eq (name : String) (item : Value) (index : Nat) :
    keyOf name item index = (givenKey name item).getD (.int index) := by
  unfold keyOf
  dsimp only
  split
  · next missing =>
      have missing : fieldOf? name item = none := missing
      simp [givenKey, missing]
  · next null =>
      have null : fieldOf? name item = some .null := null
      simp [givenKey, null, Option.filter, Value.isNull]
  · next key nonnull found =>
      have found : fieldOf? name item = some key := found
      have given : key.isNull = false := by cases key <;> simp_all [Value.isNull]
      simp [givenKey, found, Option.filter, given]

@[simp] theorem keysAt_cons (name : String) (index : Nat) (item : Value) (rest : List Value) :
    keysAt name index (item :: rest) = keyOf name item index :: keysAt name (index + 1) rest := by
  simp [keysAt, List.zipIdx_cons]

theorem apart_keysAt_iff (given : Apart (items.filterMap (givenKey name))) :
    Apart (keysAt name 0 items) ↔ PlacesFree name items := by
  have length : (keysAt name 0 items).length = items.length := by simp [keysAt]
  rw [Apart, List.pairwise_filterMap, List.pairwise_iff_getElem] at given
  rw [Apart, List.pairwise_iff_getElem]
  constructor
  · intro apart i j a b k first second own none
    obtain ⟨hi, rfl⟩ := List.getElem?_eq_some_iff.mp first
    obtain ⟨hj, rfl⟩ := List.getElem?_eq_some_iff.mp second
    rcases Nat.lt_trichotomy i j with less | rfl | less
    · have := apart i j (by omega) (by omega) less
      simpa [keysAt, keyOf_eq, own, none] using this
    · simp [own] at none
    · have := apart j i (by omega) (by omega) less
      simpa [keysAt, keyOf_eq, own, none, Value.same_int_comm] using this
  · intro free i j hi hj less
    rw [length] at hi hj
    have first := List.getElem?_eq_getElem hi
    have second := List.getElem?_eq_getElem hj
    simp only [keysAt, List.getElem_map, List.getElem_zipIdx, Nat.zero_add, keyOf_eq]
    cases own : givenKey name items[i] with
    | some k =>
        cases other : givenKey name items[j] with
        | some l => exact given i j hi hj less k own l other
        | none => exact free i j _ _ k first second own other
    | none =>
        cases other : givenKey name items[j] with
        | some l =>
            have := free j i _ _ l second first other own
            simpa [Value.same_int_comm] using this
        | none =>
            have different : (i : Int) ≠ j := by omega
            simpa using different

theorem ends_keysAt :
    Run.Ends (fun _ => True) (fun outputs => (keysOf outputs).Sublist (keysAt name index items))
      (keyed name one index items) := by
  induction items generalizing index with
  | nil => exact Run.ends_pure (List.Sublist.refl _)
  | cons item rest ih =>
      apply (Run.ends_somehow (one item)).bind
      intro output _
      apply ih.bind
      intro others keys
      apply Run.ends_pure
      rw [keysAt_cons]
      split
      · exact keys.cons _
      · exact keys.cons_cons _

theorem ends_keysAt_kept
    (kept : ∀ u ∈ items, Run.Ends F (fun o => o.isNull = false) (one u)) :
    Run.Ends F (fun outputs => keysOf outputs = keysAt name index items)
      (keyed name one index items) := by
  induction items generalizing index with
  | nil => exact Run.ends_pure rfl
  | cons item rest ih =>
      simp only [List.mem_cons, forall_eq_or_imp] at kept
      apply kept.1.bind
      intro output nonnull
      apply (ih kept.2).bind
      intro others keys
      apply Run.ends_pure
      rw [keysAt_cons, ← keys, if_neg (by simp [nonnull])]
      rfl

def screenList (ask : Ask ι σ) (r : Renderer ι) (levels : Nat) (sections : Bool)
    (items : List Value) : Run ι σ (List Value) :=
  if sections then keyed "id" (r.sectionOf ask levels) 0 items else nodes (r.node ask levels) items

theorem screen_list (ask : Ask ι σ) (r : Renderer ι) (levels : Nat) (items : List Value)
    (sections : Bool) :
    r.screen ask levels (.list items) (.bool sections) =
      if items.isEmpty then pure []
      else
        let body := Trace.operation (.str "render_screen")
          [("items", .int items.length), ("sections", .bool sections)]
          (r.screenList ask levels sections items)
        if r.metered then Trace.scope "screen" body else body := by
  cases items <;> rfl

/-- Wherever nodes are rendered as a list, no two keys of the list are the same. -/
structure ListsApart (ask : Ask ι σ) (r : Renderer ι) (levels : Nat) (items : List Value) :
    Prop where
  -- This is the list that a wrapper of sections is given, too.
  nodes : Run.Ends (fun _ => True) (fun outputs => Apart (keysOf outputs))
    (nodes (r.node ask levels) items)
  slot : Run.Ends (fun _ => True) (fun output => Apart (keysOf output.parts))
    (slot (r.node ask levels) (.list items))
  children {n : Node} (h : (n.children.getD []).map .node = items) :
    Run.Ends (fun _ => True) (fun outputs => Apart (keysOf (outputs.getD [])))
      (children (r.node ask levels) n)
  components {s : Section} (h : s.components.map .node = items) (unwrapped : r.wrapper = none) :
    Run.Ends (fun _ => True) (fun output => Apart (keysOf output.parts))
      (r.sectionOf ask levels (.section s))
  screen : Run.Ends (fun _ => True) (fun outputs => Apart (keysOf outputs))
    (r.screen ask levels (.list items) (.bool false))

theorem ends_screen {P : List Value → Prop} {levels : Nat} {sections : Bool}
    (empty : items = [] → P []) (h : Run.Ends F P (r.screenList ask levels sections items)) :
    Run.Ends F P (r.screen ask levels (.list items) (.bool sections)) := by
  have traced (size : Int) : Run.Ends F P (Trace.operation (.str "render_screen")
      [("items", .int size), ("sections", .bool sections)]
      (r.screenList ask levels sections items)) :=
    Trace.ends_operation _ ⟨rfl, by simp [Entries.keys]⟩ h
  rw [screen_list]
  split
  · next none => exact Run.ends_pure (empty (by simpa using none))
  · dsimp only
    split
    · exact Trace.ends_scope "screen" (traced _)
    · exact traced _

theorem lists_apart {levels : Nat} (apart : Apart (keysAt "key" 0 items)) :
    ListsApart ask r levels items := by
  have nodes : Run.Ends (fun _ => True) (fun outputs => Apart (keysOf outputs))
      (Renderer.nodes (r.node ask levels) items) :=
    ends_keysAt.mono (fun _ _ => trivial) fun outputs keys => apart.sublist keys
  refine ⟨nodes, nodes.map fun _ h => h, fun {n} there => ?_, fun {s} there unwrapped => ?_,
    ends_screen (fun _ => .nil) nodes⟩
  · unfold children
    split
    · exact Run.ends_pure .nil
    · exact Run.ends_pure .nil
    · next ns _ given =>
        simp only [given, Option.getD_some] at there
        rw [there]
        exact nodes.map fun _ h => h
  · simp only [sectionOf, Section.ofValue, there, unwrapped]
    exact nodes.bind fun _ h => Run.ends_pure h

def drawn : Ask Unit Unit := fun _ _ => pure (.str "drawn")

/-- A renderer that leaves nothing out. -/
def drawing : Renderer Unit := { registry := [], fallback := some () }

theorem ends_drawn {v : Value} {n : Node} (read : Node.ofValue v = .ok n) (levels : Nat) :
    Run.Ends (fun _ => False) (fun o => o.isNull = false) (drawing.node drawn (levels + 1) v) := by
  have missing : Entries.find? drawing.registry n.type = none := rfl
  simp only [node, read, missing]
  exact (Run.ends_log _ _ _).bind fun _ _ => (Run.ends_measure _ _).bind fun _ _ =>
    Run.ends_pure rfl

theorem ends_nodes_drawn (read : ∀ item ∈ items, ∃ n, Node.ofValue item = .ok n) (levels : Nat) :
    Run.Ends (fun _ => False) (fun outputs => keysOf outputs = keysAt "key" 0 items)
      (Renderer.nodes (drawing.node drawn (levels + 1)) items) :=
  ends_keysAt_kept fun u member => by
    obtain ⟨n, read⟩ := read u member
    exact ends_drawn read levels

/-- The keys of a list of nodes stay apart whatever is left out, as long as no node has the place of
another one for its own key, and no longer: otherwise there is a renderer that they clash in. -/
theorem nodes_keys_apart_iff (read : ∀ item ∈ items, ∃ n, Node.ofValue item = .ok n)
    (given : Apart (items.filterMap (givenKey "key"))) :
    (∀ (ι σ : Type) (ask : Ask ι σ) (r : Renderer ι) (levels : Nat),
      ListsApart ask r levels items) ↔ PlacesFree "key" items := by
  rw [← apart_keysAt_iff given]
  constructor
  · intro apart
    obtain ⟨outputs, w, ran, keys⟩ := (ends_nodes_drawn read 0).reaches { client := () }
    rw [← keys]
    exact (apart Unit Unit drawn drawing 1).nodes.value ran
  · exact fun apart ι σ ask r levels => lists_apart apart

/-- Text, a number that is no place and no key at all stay apart in one list. -/
theorem nodes_keys_apart_mixed :
    let node (own : Dict) : Value := .dict (("type", .str "A") :: own)
    let items : List Value := [node [("key", .str "a")], node [], node [("key", .int 7)]]
    (∀ item ∈ items, ∃ n, Node.ofValue item = .ok n) ∧
    Apart (items.filterMap (givenKey "key")) ∧ PlacesFree "key" items ∧
    ListsApart drawn drawing 1000 items := by
  intro node items
  have read : ∀ item ∈ items, ∃ n, Node.ofValue item = .ok n := by
    have first : Node.ofValue (node [("key", .str "a")]) =
        .ok ⟨"A", [], none, some (.text "a"), none, none, none⟩ := rfl
    have second : Node.ofValue (node []) = .ok ⟨"A", [], none, none, none, none, none⟩ := rfl
    have third : Node.ofValue (node [("key", .int 7)]) =
        .ok ⟨"A", [], none, some (.number 7), none, none, none⟩ := rfl
    simp [items, first, second, third]
  have own : items.filterMap (givenKey "key") = [.str "a", .int 7] := rfl
  have given : Apart (items.filterMap (givenKey "key")) := by simp [own, Apart]
  have keys : keysAt "key" 0 items = [.str "a", .int 1, .int 7] := rfl
  have free : PlacesFree "key" items :=
    (apart_keysAt_iff given).mp (by simp [keys, Apart])
  exact ⟨read, given, free, (nodes_keys_apart_iff read given).mpr free Unit Unit drawn drawing 1000⟩

/-- A node with the place of the next one for its own key clashes with it. -/
theorem nodes_keys_clash :
    let node (own : Dict) : Value := .dict (("type", .str "A") :: own)
    let items : List Value := [node [("key", .int 1)], node []]
    (∀ item ∈ items, ∃ n, Node.ofValue item = .ok n) ∧
    Apart (items.filterMap (givenKey "key")) ∧
    ∃ outputs w, Run.exec (Renderer.nodes (drawing.node drawn 1000) items) { client := () } =
      (.ok outputs, w) ∧ keysOf outputs = [.int 1, .int 1] := by
  intro node items
  have read : ∀ item ∈ items, ∃ n, Node.ofValue item = .ok n := by
    have first : Node.ofValue (node [("key", .int 1)]) =
        .ok ⟨"A", [], none, some (.number 1), none, none, none⟩ := rfl
    have second : Node.ofValue (node []) = .ok ⟨"A", [], none, none, none, none, none⟩ := rfl
    simp [items, first, second]
  have own : items.filterMap (givenKey "key") = [.int 1] := rfl
  have given : Apart (items.filterMap (givenKey "key")) := by simp [own, Apart]
  have places : keysAt "key" 0 items = [.int 1, .int 1] := rfl
  obtain ⟨outputs, w, ran, keys⟩ := (ends_nodes_drawn read 999).reaches { client := () }
  exact ⟨read, given, outputs, w, ran, keys.trans places⟩

/-- The key under which the node at an edge of a screen stands, if there is one. -/
def edgeKeys (key : String) (n : Option Node) : List Value := (n.map fun _ => .str key).toList

def screenKeys (s : Screen) : List Value :=
  edgeKeys "header" s.header ++ keysAt "id" 0 (s.sections.map .section) ++
    edgeKeys "footer" s.footer

theorem mem_edgeKeys {key : String} {n : Option Node} {k : Value} :
    k ∈ edgeKeys key n ↔ n.isSome ∧ k = .str key := by
  cases n <;> simp [edgeKeys]

theorem givenKey_section (s : Section) : givenKey "id" (.section s) = s.id.map .str := by
  have field : fieldOf? "id" (.section s) = some (.ofOption .str s.id) := rfl
  cases id : s.id <;> simp [givenKey, field, id, Value.ofOption, Value.isNull, Option.filter]

theorem keyOf_section (s : Section) (index : Nat) :
    keyOf "id" (.section s) index = (s.id.map .str).getD (.int index) := by
  rw [keyOf_eq, givenKey_section]

theorem mem_keysAt_sections {sections : List Section} {k : Value} :
    k ∈ keysAt "id" 0 (sections.map .section) ↔
      ∃ (s : Section) (i : Nat), sections[i]? = some s ∧ k = (s.id.map .str).getD (.int i) := by
  simp only [keysAt, List.zipIdx_map, List.map_map, List.mem_map]
  constructor
  · rintro ⟨⟨s, i⟩, member, rfl⟩
    exact ⟨s, i, List.mk_mem_zipIdx_iff_getElem?.mp member, keyOf_section s i⟩
  · rintro ⟨s, i, there, rfl⟩
    exact ⟨(s, i), List.mk_mem_zipIdx_iff_getElem?.mpr there, keyOf_section s i⟩

-- The place of a section is no text, so an edge can only clash with an id.
theorem edge_apart_iff {sections : List Section} {key : String} :
    (∀ k ∈ keysAt "id" 0 (sections.map .section), (Value.str key).same false k = false) ↔
      key ∉ sections.filterMap (·.id) := by
  constructor
  · intro apart member
    obtain ⟨s, member, own⟩ := List.mem_filterMap.mp member
    obtain ⟨i, there⟩ := List.mem_iff_getElem?.mp member
    have := apart (.str key) (mem_keysAt_sections.mpr ⟨s, i, there, by simp [own]⟩)
    simp at this
  · intro absent k member
    obtain ⟨s, i, there, rfl⟩ := mem_keysAt_sections.mp member
    cases own : s.id with
    | none => simp
    | some id =>
        have inside : id ∈ sections.filterMap (·.id) :=
          List.mem_filterMap.mpr ⟨s, List.mem_of_getElem? there, own⟩
        have different : key ≠ id := by
          rintro rfl
          exact absent inside
        simpa using different

theorem apart_keysAt_sections {sections : List Section} (ids : (sections.filterMap (·.id)).Nodup) :
    Apart (keysAt "id" 0 (sections.map .section)) := by
  have own : (sections.map .section).filterMap (givenKey "id") =
      (sections.filterMap (·.id)).map .str := by
    simp only [List.filterMap_map, List.map_filterMap, Function.comp_def, givenKey_section]
  have given : Apart ((sections.map .section).filterMap (givenKey "id")) := by
    rw [own, Apart, List.pairwise_map]
    exact ids.imp fun different => by simpa using different
  apply (apart_keysAt_iff given).mpr
  intro i j a b k first _ own _
  obtain ⟨s, -, rfl⟩ := List.mem_map.mp (List.mem_of_getElem? first)
  rw [givenKey_section] at own
  obtain ⟨id, -, rfl⟩ := Option.map_eq_some_iff.mp own
  simp

theorem apart_screenKeys_iff {s : Screen} (ids : (s.sections.filterMap (·.id)).Nodup) :
    Apart (screenKeys s) ↔
      (s.header.isSome → "header" ∉ s.sections.filterMap (·.id)) ∧
      (s.footer.isSome → "footer" ∉ s.sections.filterMap (·.id)) := by
  have edge (key : String) (n : Option Node) : Apart (edgeKeys key n) := by
    cases n <;> simp [edgeKeys, Apart]
  rw [Apart, screenKeys, List.pairwise_append, List.pairwise_append]
  constructor
  · rintro ⟨⟨-, -, before⟩, -, behind⟩
    constructor
    · intro there
      exact edge_apart_iff.mp (before _ (mem_edgeKeys.mpr ⟨there, rfl⟩))
    · intro there
      apply edge_apart_iff.mp
      intro k member
      rw [Value.same_str_comm]
      exact behind k (List.mem_append_right _ member) _ (mem_edgeKeys.mpr ⟨there, rfl⟩)
  · rintro ⟨header, footer⟩
    refine ⟨⟨edge _ _, apart_keysAt_sections ids, fun a first b middle => ?_⟩, edge _ _,
      fun a earlier b last => ?_⟩
    · obtain ⟨there, rfl⟩ := mem_edgeKeys.mp first
      exact edge_apart_iff.mpr (header there) b middle
    · obtain ⟨there, rfl⟩ := mem_edgeKeys.mp last
      rcases List.mem_append.mp earlier with first | middle
      · obtain ⟨-, rfl⟩ := mem_edgeKeys.mp first
        simp
      · rw [← Value.same_str_comm]
        exact edge_apart_iff.mpr (footer there) a middle

theorem ends_edge {levels : Nat} (key : String) (n : Option Node) :
    Run.Ends (fun _ => True) (fun outputs => (keysOf outputs).Sublist (edgeKeys key n))
      (r.edge ask levels key n) := by
  cases n with
  | none => exact Run.ends_pure (List.Sublist.refl _)
  | some n =>
      apply (Run.ends_somehow (r.node ask levels (.node n))).bind
      intro output _
      apply Run.ends_pure
      split <;> simp [keysOf, edgeKeys]

theorem readable_nodes (ns : List Node) :
    ∀ item ∈ ns.map .node, ∃ n, Node.ofValue item = .ok n := by
  intro item member
  obtain ⟨n, -, rfl⟩ := List.mem_map.mp member
  exact ⟨n, Node.ofValue_node n⟩

theorem ends_edge_drawn (key : String) (n : Option Node) (levels : Nat) :
    Run.Ends (fun _ => False) (fun outputs => keysOf outputs = edgeKeys key n)
      (drawing.edge drawn (levels + 1) key n) := by
  cases n with
  | none => exact Run.ends_pure rfl
  | some n =>
      apply (ends_drawn (Node.ofValue_node n) levels).bind
      intro output nonnull
      apply Run.ends_pure
      simp [nonnull, keysOf, edgeKeys]

theorem ends_sections_drawn (sections : List Section) (levels : Nat) :
    Run.Ends (fun _ => False)
      (fun outputs => keysOf outputs = keysAt "id" 0 (sections.map .section))
      (drawing.screen drawn (levels + 1) (.list (sections.map .section)) (.bool true)) := by
  apply ends_screen
  · intro none
    rw [none]
    rfl
  apply ends_keysAt_kept
  intro u member
  obtain ⟨s, -, rfl⟩ := List.mem_map.mp member
  exact (ends_nodes_drawn (readable_nodes s.components) levels).bind fun outputs _ =>
    Run.ends_pure rfl

theorem ends_fullScreen {v : Value} {s : Screen} {levels : Nat} {H S T P : List Value → Prop}
    (read : Screen.ofValue v = .ok s)
    (header : Run.Ends F H (r.edge ask levels "header" s.header))
    (sections : Run.Ends F S
      (r.screen ask levels (.list (s.sections.map .section)) (.bool true)))
    (footer : Run.Ends F T (r.edge ask levels "footer" s.footer))
    (joined : ∀ first, H first → ∀ middle, S middle → ∀ last, T last →
      P (first ++ middle ++ last)) :
    Run.Ends F P (r.fullScreen ask levels v) := by
  have valid : Failure.ofChecked (some "ScreenDescriptor") (Screen.ofValue v) = .ok s := by
    rw [read]
    rfl
  rw [fullScreen, valid, Run.ofExcept_ok_bind]
  refine (Run.ends_newId _ _).bind fun id _ => Run.Ends.within _ ?_
  exact (Run.ends_log _ _ _).bind fun _ _ => header.bind fun first h =>
    sections.bind fun middle m => footer.bind fun last t =>
      Run.ends_pure (joined first h middle m last t)

theorem ends_fullScreen_drawn {v : Value} {s : Screen} (read : Screen.ofValue v = .ok s)
    (levels : Nat) :
    Run.Ends (fun _ => False) (fun outputs => keysOf outputs = screenKeys s)
      (drawing.fullScreen drawn (levels + 1) v) :=
  ends_fullScreen read (ends_edge_drawn _ _ _) (ends_sections_drawn _ _) (ends_edge_drawn _ _ _)
    fun first h middle m last t => by
      rw [keysOf_append, keysOf_append, h, m, t, screenKeys]

/-- The keys of a full screen stay apart whatever is left out and whatever wraps the sections, as
long as no section is called like the header or the footer of the screen, and no longer. -/
theorem fullScreen_keys_apart_iff {v : Value} {s : Screen} (read : Screen.ofValue v = .ok s)
    (ids : (s.sections.filterMap (·.id)).Nodup) :
    (∀ (ι σ : Type) (ask : Ask ι σ) (r : Renderer ι) (levels : Nat),
      Run.Ends (fun _ => True) (fun outputs => Apart (keysOf outputs))
        (r.fullScreen ask levels v)) ↔
    (s.header.isSome → "header" ∉ s.sections.filterMap (·.id)) ∧
      (s.footer.isSome → "footer" ∉ s.sections.filterMap (·.id)) := by
  rw [← apart_screenKeys_iff ids]
  constructor
  · intro apart
    obtain ⟨outputs, w, ran, keys⟩ := (ends_fullScreen_drawn read 0).reaches { client := () }
    rw [← keys]
    exact (apart Unit Unit drawn drawing 1).value ran
  · intro apart ι σ ask r levels
    have sections : Run.Ends (fun _ => True)
        (fun outputs => (keysOf outputs).Sublist (keysAt "id" 0 (s.sections.map .section)))
        (r.screen ask levels (.list (s.sections.map .section)) (.bool true)) :=
      ends_screen (fun _ => List.nil_sublist _) ends_keysAt
    apply ends_fullScreen read (ends_edge _ _) sections (ends_edge _ _)
    intro first h middle m last t
    have keys : (keysOf (first ++ middle ++ last)).Sublist (screenKeys s) := by
      rw [keysOf_append, keysOf_append]
      exact (h.append m).append t
    exact apart.sublist keys

/-- A section may be called like the footer as long as the screen has none. -/
theorem fullScreen_keys_apart_headed :
    let n : Node := ⟨"A", [], none, none, none, none, none⟩
    let s : Section := ⟨some "footer", none, none, [n], none, none, none, none, none, none⟩
    let bare : Section := { s with id := none }
    let screen : Screen := ⟨"s", none, [bare, s], some n, none, none, .null, none⟩
    (screen.sections.filterMap (·.id)).Nodup ∧
    Run.Ends (fun _ => True) (fun outputs => Apart (keysOf outputs))
      (drawing.fullScreen drawn 1000 (.screen screen)) := by
  intro n s bare screen
  have read : Screen.ofValue (.screen screen) = .ok screen := rfl
  have own : screen.sections.filterMap (·.id) = ["footer"] := rfl
  have ids : (screen.sections.filterMap (·.id)).Nodup := by simp [own]
  exact ⟨ids, (fullScreen_keys_apart_iff read ids).mpr (by simp [own, screen])
    Unit Unit drawn drawing 1000⟩

/-- A section that is called like the header of its screen clashes with it. -/
theorem fullScreen_keys_clash :
    let v : Value := .dict
      [("id", .str "s"), ("header", .dict [("type", .str "A")]),
        ("sections", .list [.dict [("id", .str "header"), ("components", .list [])]])]
    ∃ s, Screen.ofValue v = .ok s ∧ (s.sections.filterMap (·.id)).Nodup ∧
      ∃ outputs w, Run.exec (drawing.fullScreen drawn 1000 v) { client := () } = (.ok outputs, w) ∧
        keysOf outputs = [.str "header", .str "header"] := by
  intro v
  let s : Section := ⟨some "header", none, none, [], none, none, none, none, none, none⟩
  let screen : Screen := ⟨"s", none, [s], some ⟨"A", [], none, none, none, none, none⟩, none, none,
    .null, none⟩
  have read : Screen.ofValue v = .ok screen := rfl
  have ids : (screen.sections.filterMap (·.id)).Nodup := by simp [screen, s]
  have places : screenKeys screen = [.str "header", .str "header"] := rfl
  obtain ⟨outputs, w, ran, keys⟩ := (ends_fullScreen_drawn read 999).reaches { client := () }
  exact ⟨screen, read, ids, outputs, w, ran, keys.trans places⟩

end Renderer

end ServerUI
