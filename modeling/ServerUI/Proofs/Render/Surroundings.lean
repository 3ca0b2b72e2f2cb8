import ServerUI.Proofs.Render.Parsed
import ServerUI.Proofs.Run.Course

/-!
A node and what stands around it. Where components answer by their props and children alone, a tree
is rendered as any node in it is, put into a frame for each of its ancestors; and a frame has room
for no more of the node than one entry under its key. A node of a type without component gives none.
-/

set_option autoImplicit false

namespace ServerUI

variable {ι σ α β : Type}

namespace Node

/-- The node at a place in a tree: which child to go to, one after the other. -/
def at? (n : Node) : List Nat → Option Node
  | [] => some n
  | i :: path => n.children.bind fun ns => ns[i]?.bind fun child => child.at? path

def replaceAt (m : Node) : List Nat → Node → Node
  | [], _ => m
  | i :: path, n => { n with children := n.children.map fun ns => ns.modify i (m.replaceAt path) }

theorem exists_child {n m : Node} {i : Nat} {path : List Nat} (there : n.at? (i :: path) = some m) :
    ∃ before child after, n.children = some (before ++ child :: after) ∧ before.length = i ∧
      child.at? path = some m := by
  obtain ⟨ns, children, inside⟩ := Option.bind_eq_some_iff.mp there
  obtain ⟨child, found, inside⟩ := Option.bind_eq_some_iff.mp inside
  obtain ⟨here, rfl⟩ := List.getElem?_eq_some_iff.mp found
  refine ⟨ns.take i, ns[i], ns.drop (i + 1), ?_, by simp; omega, inside⟩
  rw [children, ← List.drop_eq_getElem_cons here, List.take_append_drop]

theorem replaceAt_child {n child : Node} {before after : List Node} (m : Node) (path : List Nat)
    (children : n.children = some (before ++ child :: after)) :
    m.replaceAt (before.length :: path) n =
      { n with children := some (before ++ m.replaceAt path child :: after) } := by
  simp [replaceAt, children, List.modify_eq_take_cons_drop]

theorem replaceAt_self {n m : Node} {path : List Nat} (there : n.at? path = some m) :
    m.replaceAt path n = n := by
  induction path generalizing n with
  | nil =>
      obtain rfl : n = m := by simpa [at?] using there
      rfl
  | cons i path ih =>
      obtain ⟨before, child, after, children, rfl, inside⟩ := exists_child there
      rw [replaceAt_child m path children, ih inside, ← children]
      cases n
      rfl

theorem key_replaceAt {n m m' : Node} {path : List Nat} (there : n.at? path = some m)
    (same : m'.key = m.key) : (m'.replaceAt path n).key = n.key := by
  cases path with
  | nil =>
      obtain rfl : n = m := by simpa [at?] using there
      exact same
  | cons i path => rfl

end Node

/-- What components answer, by their props and children. -/
abbrev Components (ι : Type) := ι → Dict → Option (List Value) → Except Failure Value

def Components.call (f : Components ι) (part : ι) (props : Dict) (children : Option (List Value)) :
    Course ι Value :=
  ⟨f part props children, [(part, .component props children)]⟩

def Reaction.answer : Except Failure Value → Reaction ι
  | .ok v => finish v
  | .error f => fail f

namespace Renderer

/-- The components of the renderer do nothing but answer, and in any state the same. -/
def PureIn (r : Renderer ι) (c : Client ι σ) (f : Components ι) : Prop :=
  ∀ type e, Entries.find? r.registry type = some e → ∀ props children state,
    (c.respond e.component (.component props children) state).1 =
      .answer (f e.component props children)

end Renderer

theorem Client.answering_pure (r : Renderer (Except Failure Value)) :
    r.PureIn .answering fun part _ _ => part := by
  intro type e found props children state
  cases e.component <;> simp [answering, Reaction.answer]

namespace Renderer

/-- Asking components takes the course of a call. -/
def Draws (ask : Ask ι σ) (r : Renderer ι) (f : Components ι) : Prop :=
  ∀ type e, Entries.find? r.registry type = some e → ∀ props children,
    Run.Takes (ask e.component (.component props children)) (f.call e.component props children)

/-- What an output comes to in a list. -/
def entry (key output : Value) : List Value := if output.isNull then [] else [.keyed key output]

end Renderer

theorem Client.takes_request {c : Client ι σ} {dispatch : Nat → Value → Run ι σ Value}
    {renderScreen : Renderer ι → Value → Run ι σ Value} {part : ι} {what : Request}
    {r : Except Failure Value} (answers : ∀ state, (c.respond part what state).1 = .answer r) :
    Run.Takes (c.request dispatch renderScreen part what) ⟨r, [(part, what)]⟩ := by
  intro w
  rw [exec_request]
  cases responded : c.respond part what w.client with
  | mk reaction state =>
      obtain rfl : reaction = .answer r := by simpa [responded] using answers w.client
      cases r with
      | ok v => exact ⟨rfl, [_], rfl, requests_asked part what w.context⟩
      | error f =>
          refine ⟨rfl, [.asked part what w.context, .refused part what f], ?_, rfl⟩
          simp [Reaction.answer, Reaction.carryOut]

theorem Engine.draws {e : Engine ι σ} {r : Renderer ι} {f : Components ι}
    (pure : r.PureIn e.client f) : r.Draws e.ask f := by
  intro type entry found props children
  have answers := pure type entry found props children
  unfold ask
  cases e.nesting <;> exact Client.takes_request answers

namespace Renderer

/-- The rest of a list in which one place is left. -/
structure Row (ι : Type) where
  earlier : Course ι (List Value)
  later : Course ι (List Value)

def Row.fill (row : Row ι) (key : Value) (c : Course ι Value) : Course ι (List Value) := do
  let before ← row.earlier
  let output ← c
  let after ← row.later
  return before ++ entry key output ++ after

/-- The rest is rendered from what stands before the place and from what stands after it. -/
structure Row.Beside (one : Value → Run ι σ Value) (before after : List Value) (row : Row ι) :
    Prop where
  earlier : Run.Takes (keyed "key" one 0 before) row.earlier
  later : Run.Takes (keyed "key" one (before.length + 1) after) row.later

variable {ask : Ask ι σ} {r : Renderer ι} {f : Components ι} {one : Value → Run ι σ Value}

theorem keyed_cons (name : String) (index : Nat) (item : Value) (rest : List Value) :
    keyed name one index (item :: rest) = (do
      let output ← one item
      let others ← keyed name one (index + 1) rest
      return entry (keyOf name item index) output ++ others) := by
  rw [keyed]
  congr
  funext output
  congr
  funext others
  unfold entry
  split <;> rfl

theorem keyed_append (name : String) (index : Nat) (items more : List Value) :
    keyed name one index (items ++ more) = (do
      let outputs ← keyed name one index items
      let others ← keyed name one (index + items.length) more
      return outputs ++ others) := by
  induction items generalizing index with
  | nil => simp [keyed]
  | cons item rest ih =>
      simp only [List.cons_append, keyed_cons, ih, bind_assoc, pure_bind, List.append_assoc,
        List.length_cons, Nat.add_assoc, Nat.add_comm 1]

theorem Row.Beside.nodes {before after : List Value} {row : Row ι}
    (beside : Row.Beside one before after row) {item : Value} {c : Course ι Value}
    (here : Run.Takes (one item) c) :
    Run.Takes (nodes one (before ++ item :: after))
      (row.fill (keyOf "key" item before.length) c) := by
  have placed : Renderer.nodes one (before ++ item :: after) = (do
      let outputs ← keyed "key" one 0 before
      let output ← one item
      let others ← keyed "key" one (before.length + 1) after
      return outputs ++ entry (keyOf "key" item before.length) output ++ others) := by
    simp only [Renderer.nodes, keyed_append, keyed_cons, bind_assoc, pure_bind, Nat.zero_add,
      List.append_assoc]
  rw [placed]
  exact beside.earlier.bind fun _ => here.bind fun _ => beside.later.bind fun _ => .pure _

/-- An ancestor around one of its children. -/
structure Frame (ι : Type) where
  part : ι
  props : Course ι Dict
  key : Value
  row : Row ι

def Frame.fill (f : Components ι) (frame : Frame ι) (c : Course ι Value) : Course ι Value := do
  let props ← frame.props
  let children ← frame.row.fill frame.key c
  f.call frame.part props (some children)

structure Frame.Around (ask : Ask ι σ) (r : Renderer ι) (levels : Nat) (n : Node)
    (before : List Node) (child : Node) (after : List Node) (frame : Frame ι) : Prop where
  entry : ∃ e, Entries.find? r.registry n.type = some e ∧ frame.part = e.component ∧
    Run.Takes (r.buildProps (r.node ask levels) n e) frame.props
  key : frame.key = keyOf "key" (.node child) before.length
  row : frame.row.Beside (r.node ask levels) (before.map .node) (after.map .node)

theorem children_of_some {n : Node} {ns : List Node} (there : n.children = some ns)
    (nonempty : ns ≠ []) : children one n = some <$> nodes one (ns.map .node) := by
  cases ns with
  | nil => exact absurd rfl nonempty
  | cons child rest => simp only [children, there]

theorem Frame.Around.node (draws : r.Draws ask f) {levels : Nat} {n : Node}
    {before after : List Node} {child child' : Node} {frame : Frame ι}
    (around : frame.Around ask r levels n before child after) (same : child'.key = child.key)
    {c : Course ι Value} (here : Run.Takes (r.node ask levels (.node child')) c) :
    Run.Takes (r.node ask (levels + 1)
      (.node { n with children := some (before ++ child' :: after) })) (frame.fill f c) := by
  obtain ⟨e, found, part, props⟩ := around.entry
  have key : keyOf "key" (.node child') before.length = frame.key := by
    rw [around.key, keyOf_eq, keyOf_eq, givenKey_node, givenKey_node, same]
  have listed := around.row.nodes here
  rw [List.length_map, key] at listed
  have inner :
      children (r.node ask levels) { n with children := some (before ++ child' :: after) } =
      some <$> nodes (r.node ask levels) (before.map .node ++ .node child' :: after.map .node) := by
    rw [children_of_some rfl (by simp)]
    simp
  simp only [Renderer.node, Node.ofValue_node, found]
  unfold registered
  rw [inner]
  refine props.bind fun props => ?_
  rw [bind_map_left, part]
  exact listed.bind fun children => (Run.Silent.measure _ _).before fun _ =>
    draws n.type e found props (some children)

/-- What stands around a place in a tree, from the root down to it. Nothing of the place is rendered
where an ancestor is not. -/
inductive Surroundings (ι : Type)
  | here
  | inside (frame : Frame ι) (inner : Surroundings ι)
  | unseen (result : Except Failure Value)

namespace Surroundings

def fill (f : Components ι) : Surroundings ι → Course ι Value → Course ι Value
  | here, c => c
  | inside frame inner, c => frame.fill f (inner.fill f c)
  | unseen result, _ => ⟨result, []⟩

inductive Around (ask : Ask ι σ) (r : Renderer ι) : Nat → Node → List Nat → Surroundings ι → Prop
  | here {levels : Nat} {n : Node} : Around ask r (levels + 1) n [] here
  | inside {levels : Nat} {n child : Node} {before after : List Node} {path : List Nat}
      {frame : Frame ι} {inner : Surroundings ι}
      (children : n.children = some (before ++ child :: after))
      (outer : frame.Around ask r levels n before child after)
      (within : Around ask r levels child path inner) :
      Around ask r (levels + 1) n (before.length :: path) (inside frame inner)
  | missing {levels : Nat} {n : Node} {i : Nat} {path : List Nat}
      (missing : Entries.find? r.registry n.type = none) :
      Around ask r (levels + 1) n (i :: path) (unseen (.ok .null))
  | limit {n : Node} {path : List Nat} : Around ask r 0 n path (unseen (.error .nestingLimit))

end Surroundings

section

variable (draws : r.Draws ask f) (alone : r.fallback = none)

include draws alone

theorem determinate_node (levels : Nat) (v : Value) :
    Run.Determinate Value (r.node ask levels v) := by
  apply Run.Determinate.drawing.node
  rintro part what (⟨type, e, props, children, found, rfl, rfl⟩ | ⟨type, fallback, -⟩)
  · exact ⟨_, draws type e found props children⟩
  · simp [alone] at fallback

theorem exists_beside (levels : Nat) (before after : List Value) :
    ∃ row : Row ι, row.Beside (r.node ask levels) before after := by
  have each := determinate_node draws alone levels
  obtain ⟨earlier, first⟩ := Run.Determinate.drawing.keyed each "key" 0 before
  obtain ⟨later, last⟩ := Run.Determinate.drawing.keyed each "key" (before.length + 1) after
  exact ⟨⟨earlier, later⟩, first, last⟩

theorem exists_around (levels : Nat) {n m : Node} {path : List Nat}
    (there : n.at? path = some m) : ∃ s : Surroundings ι, s.Around ask r levels n path := by
  induction path generalizing levels n with
  | nil =>
      cases levels with
      | zero => exact ⟨_, .limit⟩
      | succ levels => exact ⟨_, .here⟩
  | cons i path ih =>
      cases levels with
      | zero => exact ⟨_, .limit⟩
      | succ levels =>
          cases found : Entries.find? r.registry n.type with
          | none => exact ⟨_, .missing found⟩
          | some e =>
              obtain ⟨before, child, after, children, rfl, inside⟩ := Node.exists_child there
              obtain ⟨inner, within⟩ := ih levels inside
              obtain ⟨props, built⟩ := Run.Determinate.drawing.buildProps
                (determinate_node draws alone levels) n e
              obtain ⟨row, beside⟩ :=
                exists_beside draws alone levels (before.map .node) (after.map .node)
              exact ⟨.inside ⟨e.component, props, _, row⟩ inner,
                .inside children ⟨⟨e, found, rfl, built⟩, rfl, beside⟩ within⟩

end

theorem takes_missing (alone : r.fallback = none) {levels : Nat} {n : Node}
    (missing : Entries.find? r.registry n.type = none) :
    Run.Takes (r.node ask (levels + 1) (.node n)) (pure .null) := by
  simp only [Renderer.node, Node.ofValue_node, missing, unregistered, alone]
  exact (Run.Silent.log _ _ _).before fun _ => (Run.Silent.measure _ _).before fun _ => .pure _

-- Nothing is asked before the slots are rendered.
theorem takes_failed_slots {n : Node} {a : Entry ι} {g : Failure}
    (stops : slots one a.childrenProps (Entries.merge a.defaultProps n.props) = throw g) :
    Run.Takes (r.registered ask one n a) ⟨.error g, []⟩ := by
  intro w
  have ran : Run.exec (r.registered ask one n a) w = (.error g, w) := by
    simp only [registered, buildProps, stops, Run.exec_bind, Run.exec_throw]
  rw [ran]
  exact ⟨rfl, [], by simp, rfl⟩

/-- A node in a tree may be exchanged for another one under the same key. -/
theorem Surroundings.Around.node (draws : r.Draws ask f) (alone : r.fallback = none) {levels : Nat}
    {n : Node} {path : List Nat} {s : Surroundings ι} (around : s.Around ask r levels n path)
    {m m' : Node} (there : n.at? path = some m) (same : m'.key = m.key) {c : Course ι Value}
    (here : path.length < levels →
      Run.Takes (r.node ask (levels - path.length) (.node m')) c) :
    Run.Takes (r.node ask levels (.node (m'.replaceAt path n))) (s.fill f c) := by
  induction around with
  | here => exact here (by simp)
  | @inside levels n child before after path frame inner children outer within ih =>
      have inside : child.at? path = some m := by simpa [Node.at?, children] using there
      rw [Node.replaceAt_child m' path children]
      apply outer.node draws (Node.key_replaceAt inside same)
      apply ih inside
      intro enough
      simpa using here (by simpa using enough)
  | missing missing => exact takes_missing alone missing
  | limit => exact .throw _

theorem takes_screen {levels : Nat} {items : List Value} {c : Course ι (List Value)}
    (nonempty : items ≠ []) (h : Run.Takes (nodes (r.node ask levels) items) c) :
    Run.Takes (r.screen ask levels (.list items) (.bool false)) c := by
  have traced (size : Int) : Run.Takes (Trace.operation (.str "render_screen")
      [("items", .int size), ("sections", .bool false)]
      (r.screenList ask levels false items)) c :=
    Trace.takes_operation _ ⟨rfl, by simp [Entries.keys]⟩ h
  rw [screen_list, if_neg (by simpa using nonempty)]
  dsimp only
  split
  · exact Trace.takes_scope "screen" (traced _)
  · exact traced _

end Renderer

namespace Engine

/-- A node whose type is changed to one without component takes away no more than itself. Its parent
is called with the same props and the same children but for the entry of the node, the ancestors
above it with what comes of that, and nothing else is asked differently. On a screen of nodes, too,
any item stands beside the same entries. The screen fails where the item fails by itself, and as
long as what is rendered inside the item can be looked up, that is at the limit of nesting alone. -/
theorem render_surroundings (e : Engine ι σ) {r : Renderer ι} {f : Components ι}
    (pure : r.PureIn e.client f) (alone : r.fallback = none) :
    (∀ (n m : Node) (path : List Nat) (type : String), n.at? path = some m →
      Entries.find? r.registry type = none →
      ∃ s c, Renderer.Surroundings.Around e.ask r e.levels n path s ∧
        Run.Takes (r.node e.ask (e.levels - path.length) (.node m)) c ∧
        Run.Takes (e.render r (.node n)) (s.fill f c) ∧
        Run.Takes (e.render r (.node ({ m with type := type }.replaceAt path n)))
          (s.fill f (Pure.pure .null))) ∧
    ∀ before after : List Value, ∃ row : Renderer.Row ι,
      row.Beside (r.node e.ask e.levels) before after ∧
      ∀ item, ∃ c, Run.Takes (e.render r item) c ∧
        Run.Takes (e.renderScreen r (.list (before ++ item :: after)) (.bool false))
          (Value.list <$> row.fill (Renderer.keyOf "key" item before.length) c) ∧
        (Renderer.Answers e.ask r r.Answerable → r.SlotsNamed →
          (r.Readable item → Run.Ends (· = .nestingLimit) (fun _ => True) (e.render r item)) ∧
          (r.SlotsOnce → r.SlotsBare → item.IsJson → item.Lookable → item.depth < 2 * e.levels →
            Run.Ends (fun _ => False) (fun _ => True) (e.render r item))) := by
  have draws := e.draws pure
  refine ⟨fun n m path type there missing => ?_, fun before after => ?_⟩
  · obtain ⟨s, around⟩ := Renderer.exists_around draws alone e.levels there
    obtain ⟨c, course⟩ :=
      Renderer.determinate_node draws alone (e.levels - path.length) (.node m)
    have original := around.node draws alone there rfl fun _ => course
    rw [Node.replaceAt_self there] at original
    refine ⟨s, c, around, course, original, ?_⟩
    have same : ({ m with type := type } : Node).key = m.key := rfl
    apply around.node draws alone there same
    intro enough
    obtain ⟨below, levels⟩ := Nat.exists_eq_add_of_lt enough
    rw [levels, show path.length + below + 1 - path.length = below + 1 by omega]
    exact Renderer.takes_missing alone missing
  · obtain ⟨row, beside⟩ := Renderer.exists_beside draws alone e.levels before after
    refine ⟨row, beside, fun item => ?_⟩
    obtain ⟨c, here⟩ := Renderer.determinate_node draws alone e.levels item
    refine ⟨c, here, (Renderer.takes_screen (by simp) (beside.nodes here)).map _, ?_⟩
    intro answers named
    refine ⟨fun readable => ?_, fun once bare plain lookable enough => ?_⟩
    · exact (Renderer.ends_of_readable answers named readable e.levels).mono (fun _ h => h)
        fun _ _ => trivial
    · exact (Renderer.ends_of_depth_lt answers named once bare plain lookable .self enough).mono
        (fun _ h => h) fun _ _ => trivial

/-- The second of three children is taken from its parent, and an item of a screen is replaced. -/
theorem render_surroundings_siblings :
    let e : Engine (Except Failure Value) Unit := { client := .answering }
    let r : Renderer (Except Failure Value) :=
      { registry := [("A", ⟨.ok (.str "drawn"), [], [], [.str "header"], .bool true⟩)] }
    let m : Node := ⟨"A", [], none, none, none, none, none⟩
    let n : Node := { m with children := some [{ m with key := some (.text "a") }, m, m] }
    let item : Value := .dict [("type", .str "A")]
    r.PureIn e.client (fun part _ _ => part) ∧ r.fallback = none ∧ n.at? [1] = some m ∧
    Entries.find? r.registry "B" = none ∧ r.Readable item ∧
    (∃ s c, Renderer.Surroundings.Around e.ask r e.levels n [1] s ∧
      Run.Takes (e.render r (.node n)) (s.fill (fun part _ _ => part) c) ∧
      Run.Takes (e.render r (.node ({ m with type := "B" }.replaceAt [1] n)))
        (s.fill (fun part _ _ => part) (Pure.pure .null))) ∧
    ∃ (row : Renderer.Row (Except Failure Value)) (c : _),
      Run.Takes (e.renderScreen r (.list [item, item, item]) (.bool false))
        (Value.list <$> row.fill (.int 1) c) ∧
      Run.Ends (fun _ => False) (fun _ => True) (e.render r item) := by
  intro e r m n item
  have pure := Client.answering_pure r
  have missing : Entries.find? r.registry "B" = none := rfl
  have there : n.at? [1] = some m := by simp [n, Node.at?]
  have entry {type : String} {a : Entry _} (h : Entries.find? r.registry type = some a) :
      a = ⟨.ok (.str "drawn"), [], [], [.str "header"], .bool true⟩ := by
    obtain ⟨-, rfl⟩ := Entries.find?_singleton_eq_some.mp h
    rfl
  have once : r.SlotsOnce := fun type a h => by simp [entry h, Entry.slots, Value.word?]
  have bare : r.SlotsBare := fun type a h word _ => by simp [entry h]
  have named : r.SlotsNamed := fun type a h name member => by
    obtain rfl : name = .str "header" := by simpa [entry h] using member
    rfl
  have answers : Renderer.Answers e.ask r r.Answerable :=
    ⟨fun {_ _} h props children => (e.draws pure _ _ h props children).ends (by
      rw [entry h]
      exact .inl once), fun h => by cases h⟩
  have plain : item.IsJson := .of_leaves (by simp [Value.isPlain, Value.parts])
  have lookable : item.Lookable := .of_leaves (by
    rintro _ tag ⟨⟩ found
    obtain ⟨-, rfl⟩ := Entries.find?_singleton_eq_some.mp found
    rfl) (by simp [Value.parts])
  have readable : r.Readable item := Value.StandsFor.self.readable bare plain lookable
  obtain ⟨inTree, onScreen⟩ := render_surroundings e pure rfl
  obtain ⟨s, c, around, -, original, changed⟩ := inTree n m [1] "B" there missing
  obtain ⟨row, -, each⟩ := onScreen [item] [item]
  obtain ⟨c', -, screen, returns⟩ := each item
  have shallow : item.depth = 1 := rfl
  have enough : item.depth < 2 * e.levels := by
    rw [shallow]
    decide
  exact ⟨pure, rfl, there, missing, readable, ⟨s, c, around, original, changed⟩, row, c', screen,
    (returns answers named).2 once bare plain lookable enough⟩

/-- An item that is a component by itself but holds one in a slot with a `type` that is a list ends
the rendering of the whole screen, though no component ever fails. -/
theorem renderScreen_slot_listed_tag :
    let e : Engine (Except Failure Value) Unit := { client := .answering }
    let r : Renderer (Except Failure Value) :=
      { registry := [("A", ⟨.ok (.str "drawn"), [], [], [.str "header"], .bool true⟩)] }
    let component (own : Dict) : Value := .dict (("type", .str "A") :: own)
    let unread : Value := component [("actions", .dict [("onPress", .dict [("type", .list [])])])]
    let item : Value := component [("props", .dict [("header", unread)])]
    let screen (item : Value) : Value :=
      .list [component [("key", .str "a")], item, component [("key", .str "b")]]
    r.PureIn e.client (fun part _ _ => part) ∧ r.fallback = none ∧
    (∃ n, Node.ofValue item = .ok n) ∧
    ∀ w, (Run.exec (e.renderScreen r (screen (component [])) (.bool false)) w).1 =
        .ok (.list [.keyed (.str "a") (.str "drawn"), .keyed (.int 1) (.str "drawn"),
          .keyed (.str "b") (.str "drawn")]) ∧
      (Run.exec (e.renderScreen r (screen item) (.bool false)) w).1 =
        .error (.unhashable "list") := by
  intro e r component unread item screen
  have pure := Client.answering_pure r
  have draws := e.draws pure
  let n (key : Option Key) : Node := ⟨"A", [], none, key, none, none, none⟩
  have read :
      Node.ofValue item = .ok ⟨"A", [("header", unread)], none, none, none, none, none⟩ := rfl
  have stopped : Node.ofValue unread = .unhashable "list" :=
    Node.ofValue_action_unhashable (Instruction.ofValue_unhashable rfl rfl)
  have drawn {own : Dict} {key : Option Key} (read : Node.ofValue (component own) = .ok (n key)) :
      Run.Takes (r.node e.ask e.levels (component own))
        ⟨.ok (.str "drawn"), [(.ok (.str "drawn"), .component [] none)]⟩ := by
    have bare (levels : Nat) : r.node e.ask (levels + 1) (.node (n key)) = (do
        r.count .rendered
        e.ask (.ok (.str "drawn")) (.component [] none)) := by
      simp only [Renderer.node, Node.ofValue_node]
      rfl
    have levels : e.levels = 99999 + 1 := rfl
    rw [Renderer.node_of_read read, levels, bare]
    exact (Run.Silent.measure _ _).before fun _ => draws "A" _ rfl [] none
  have keyed {key : String} {index : Nat}
      (read : Node.ofValue (component [("key", .str key)]) = .ok (n (some (.text key)))) :
      Run.Takes (Renderer.keyed "key" (r.node e.ask e.levels) index [component [("key", .str key)]])
        ⟨.ok [.keyed (.str key) (.str "drawn")],
          [(.ok (.str "drawn"), .component [] none)]⟩ :=
    (drawn read).bind fun _ => (Run.Takes.pure []).bind fun _ => .pure _
  have beside : Renderer.Row.Beside (r.node e.ask e.levels) [component [("key", .str "a")]]
      [component [("key", .str "b")]] ⟨_, _⟩ := ⟨keyed rfl, keyed rfl⟩
  have unread_slot (levels : Nat) : Renderer.slots (r.node e.ask (levels + 1)) [.str "header"]
      (Entries.merge [] [("header", unread)]) = throw (.unhashable "list") := by
    show (r.node e.ask (levels + 1) unread >>= _) = _
    rw [Renderer.node, stopped]
    rfl
  have fails (levels : Nat) :
      Run.Takes (r.node e.ask (levels + 2) item) ⟨.error (.unhashable "list"), []⟩ := by
    rw [Renderer.node, read]
    exact Renderer.takes_failed_slots (unread_slot levels)
  have drawnBeside := beside.nodes (@drawn [] none rfl)
  have failsBeside := beside.nodes (fails 99998)
  exact ⟨pure, rfl, ⟨_, read⟩, fun w => ⟨((Renderer.takes_screen (by simp) drawnBeside).map _ w).1,
    ((Renderer.takes_screen (by simp) failsBeside).map _ w).1⟩⟩

end Engine

end ServerUI
