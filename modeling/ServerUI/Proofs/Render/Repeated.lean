import Mathlib.Data.List.Perm.Subperm
import ServerUI.Proofs.Render.Agreement
import ServerUI.Proofs.Render.Props

/-!
Slots that are listed more than once. The slots of a node are filled in place, one name after the
other, so a name that is listed again renders what has come of its slot before. Where components
answer by what they are asked alone, this comes to one question: what becomes of the props, once
every slot has been filled, when the names that are listed too often fill theirs again.
-/

set_option autoImplicit false

namespace ServerUI

variable {ι σ : Type}

/-- A slot leaves the value as it is. -/
def Value.isResting : Value → Bool
  | .node _ | .tuple _ | .keyed .. => false
  | .dict es => !Entries.contains es "type"
  | .list items => items.isEmpty
  | _ => true

namespace Renderer

variable {w : World ι σ} {one one' : Value → Run ι σ Value} {names more : List Value}
  {props q : Dict}

/-- The slots that are listed later are filled over the props that the others have filled. -/
theorem slots_append :
    slots one (names ++ more) props = slots one names props >>= slots one more := by
  induction names generalizing props with
  | nil => rfl
  | cons name rest ih =>
    rw [List.cons_append, slots, slots]
    cases name.unhashable? with
    | some type => rfl
    | none =>
      cases name.word?.bind fun word => (Entries.find? props word).map (word, ·) with
      | none => exact ih
      | some found =>
        simp only [bind_assoc]
        exact congrArg (slot one found.2 >>= ·) (funext fun _ => ih)

section Steady

variable (steady : ∀ v, Run.Determinate Value (one v))

include steady

theorem gives_slots_cons {word : String} :
    Run.Gives w (slots one (.str word :: names) props) q ↔
      match Entries.find? props word with
      | none => Run.Gives w (slots one names props) q
      | some v => ∃ o, Run.Gives w (slot one v) o ∧
          Run.Gives w (slots one names (Entries.insert props word o)) q := by
  cases found : Entries.find? props word with
  | none => rw [slots_cons_of_none rfl (by simp [Value.word?, found])]
  | some v =>
    rw [slots_cons_of_some rfl rfl found]
    exact Run.gives_bind fun o => Run.Determinate.drawing.slots steady names _

/-- In which order slots are filled does not matter. -/
theorem gives_slots_perm {words words' : List String} (same : words.Perm words') :
    Run.Gives w (slots one (words.map .str) props) q ↔
      Run.Gives w (slots one (words'.map .str) props) q := by
  induction same generalizing props with
  | nil => rfl
  | cons word _ ih =>
    rw [List.map_cons, List.map_cons, gives_slots_cons steady, gives_slots_cons steady]
    cases Entries.find? props word <;> simp only [ih]
  | swap first second rest =>
    by_cases same : first = second
    · rw [same]
    · simp only [List.map_cons, gives_slots_cons steady]
      cases there : Entries.find? props first with
      | none =>
        cases there' : Entries.find? props second with
        | none => simp
        | some v => simp [there, Entries.find?_insert_of_ne props _ same]
      | some v =>
        cases there' : Entries.find? props second with
        | none => simp [there', Entries.find?_insert_of_ne props _ (Ne.symm same)]
        | some v' =>
          -- Both are there, so each output takes the place of what was in its own slot.
          have key : first ∈ Entries.keys props := by
            by_contra missing
            simp [Entries.find?_eq_none.mpr missing] at there
          have swapped (o o' : Value) := Entries.insert_comm o o' key (Ne.symm same)
          simp only [Entries.find?_insert_of_ne props _ same,
            Entries.find?_insert_of_ne props _ (Ne.symm same), there, there', swapped]
          constructor
          · rintro ⟨o', filled', o, filled, rest⟩
            exact ⟨o, filled, o', filled', rest⟩
          · rintro ⟨o, filled, o', filled', rest⟩
            exact ⟨o', filled', o, filled, rest⟩
  | trans _ _ ih ih' => exact ih.trans ih'

end Steady

/-- Slots that are listed again change nothing about a bag, if and only if they change nothing when
they are filled over what the others have filled. -/
theorem same_buildProps_iff (steady : ∀ v, Run.Determinate Value (one v))
    (steady' : ∀ v, Run.Determinate Value (one' v)) {words repeated listing : List String}
    (split : (words ++ repeated).Perm listing) {r : Renderer ι} {n : Node} {e : Entry ι}
    (each : ∀ u, Fills w one (words.map .str) (Entries.merge e.defaultProps n.props) u →
      Run.Same w (one u) (one' u)) :
    Run.Same w (r.buildProps one n { e with childrenProps := words.map .str })
        (r.buildProps one' n { e with childrenProps := listing.map .str }) ↔
      ∀ q, Run.Gives w (slots one (words.map .str) (Entries.merge e.defaultProps n.props)) q →
        ∃ q', Run.Gives w (slots one' (repeated.map .str) q) q' ∧
          r.finish n e q' = r.finish n e q := by
  have first := same_slots steady steady' each
  -- In any order, so the names that are listed again may as well come last.
  have bag (p : Dict) :
      Run.Gives w (r.buildProps one' n { e with childrenProps := listing.map .str }) p ↔
        ∃ q, Run.Gives w (slots one (words.map .str) (Entries.merge e.defaultProps n.props)) q ∧
          ∃ q', Run.Gives w (slots one' (repeated.map .str) q) q' ∧ r.finish n e q' = .ok p := by
    rw [gives_buildProps]
    simp only [← gives_slots_perm steady' split, List.map_append, slots_append, ← first _,
      Run.gives_bind fun _ => Run.Determinate.drawing.slots steady' _ _]
    constructor
    · rintro ⟨q', ⟨q, filled, again⟩, finished⟩
      exact ⟨q, filled, q', again, finished⟩
    · rintro ⟨q, filled, q', again, finished⟩
      exact ⟨q', ⟨q, filled, again⟩, finished⟩
  have finishes (q : Dict) : ∃ p, r.finish n e q = .ok p := by
    obtain ⟨bound, made⟩ := r.exists_callbacks e n.actions
    exact ⟨_, by rw [finish, made]; rfl⟩
  constructor
  · intro same q filled
    obtain ⟨p, finished⟩ := finishes q
    obtain ⟨q₁, filled₁, q', again, finished'⟩ :=
      (bag p).mp ((same p).mp (gives_buildProps.mpr ⟨q, filled, finished⟩))
    obtain rfl := filled.unique filled₁
    exact ⟨q', again, finished'.trans finished.symm⟩
  · intro settled p
    rw [bag, gives_buildProps]
    refine exists_congr fun q => and_congr_right fun filled => ?_
    obtain ⟨q', again, unchanged⟩ := settled q filled
    constructor
    · intro finished
      exact ⟨q', again, unchanged.trans finished⟩
    · rintro ⟨q₁, again₁, finished⟩
      obtain rfl := again.unique again₁
      exact unchanged.symm.trans finished

/-- What is rendered inside a value, in the slots that are filled one after the other and among the
children. -/
def Inside (w : World ι σ) (ask : Ask ι σ) (r : Renderer ι) (levels : Nat) (v u : Value) : Prop :=
  ∃ n e, Node.ofValue v = .ok n ∧ Entries.find? r.registry n.type = some e ∧
    (Fills w (r.node ask levels) e.childrenProps (Entries.merge e.defaultProps n.props) u ∨
      u ∈ (n.children.getD []).map .node)

/-- It holds of the value and of everything that is rendered inside it, with the levels that are
left there. -/
def Throughout (w : World ι σ) (ask : Ask ι σ) (r : Renderer ι) (P : Nat → Value → Prop) :
    Nat → Value → Prop
  | 0, _ => True
  | levels + 1, v =>
      P levels v ∧ ∀ u, r.Inside w ask levels v u → r.Throughout w ask P levels u

/-- When the slots of a node of the type have been filled, then for another renderer to fill some of
them again changes nothing about the props. -/
def Settled (w : World ι σ) (ask : Ask ι σ) (r again : Renderer ι) (type : String)
    (repeated : List String) (levels : Nat) (v : Value) : Prop :=
  ∀ n e, Node.ofValue v = .ok n → n.type = type → Entries.find? r.registry type = some e → ∀ q,
    Run.Gives w (slots (r.node ask levels) e.childrenProps
      (Entries.merge e.defaultProps n.props)) q →
    ∃ q', Run.Gives w (slots (again.node ask levels) (repeated.map .str) q) q' ∧
      r.finish n e q' = r.finish n e q

/-- Two renderers that differ in nothing but the slots that are listed for a type. -/
structure Relisted (r r' : Renderer ι) (type : String) (words listing : List String) : Prop where
  rest : r' = { r with registry := r'.registry }
  others : ∀ other, other ≠ type →
    Entries.find? r'.registry other = Entries.find? r.registry other
  entry : ∃ e : Entry ι,
    Entries.find? r.registry type = some { e with childrenProps := words.map .str } ∧
      Entries.find? r'.registry type = some { e with childrenProps := listing.map .str }

namespace Relisted

variable {ask : Ask ι σ} {r r' : Renderer ι} {type : String} {words listing repeated : List String}
  {levels : Nat} {v : Value} (relisted : Relisted r r' type words listing)

include relisted

theorem find?_eq (name : String) :
    (Entries.find? r.registry name = none ∧ Entries.find? r'.registry name = none) ∨
      ∃ a a', Entries.find? r.registry name = some a ∧ Entries.find? r'.registry name = some a' ∧
        a'.component = a.component := by
  by_cases same : name = type
  · subst same
    obtain ⟨e, found, found'⟩ := relisted.entry
    exact .inr ⟨_, _, found, found', rfl⟩
  · have apart := relisted.others name same
    cases found : Entries.find? r.registry name with
    | none => exact .inl ⟨rfl, apart.trans found⟩
    | some a => exact .inr ⟨a, a, rfl, apart.trans found, rfl⟩

theorem asks {part : ι} {what : Request} (asks : r'.Asks part what) : r.Asks part what := by
  rcases asks with ⟨name, a', props, children, found', rfl, rfl⟩ | ⟨name, fallback, rfl⟩
  · rcases relisted.find?_eq name with ⟨-, missing⟩ | ⟨a, b, found, found'', part⟩
    · cases missing.symm.trans found'
    · cases found'.symm.trans found''
      exact .inl ⟨name, a, props, children, found, part, rfl⟩
  · rw [relisted.rest] at fallback
    exact .inr ⟨name, fallback, rfl⟩

theorem buildProps_eq (n : Node) (e : Entry ι) :
    r'.buildProps one n e = r.buildProps one n e := by
  rw [relisted.rest]
  rfl

theorem registered_eq (n : Node) (e : Entry ι) :
    r'.registered ask one n e = r.registered ask one n e := by
  rw [relisted.rest]
  rfl

theorem unregistered_eq (type : String) : r'.unregistered ask type = r.unregistered ask type := by
  rw [relisted.rest]
  rfl

variable (steady : ∀ part what, r.Asks part what → Run.Determinate Value (ask part what))

include steady

theorem determinate (levels : Nat) (v : Value) :
    Run.Determinate Value (r'.node ask levels v) :=
  Run.Determinate.drawing.node (fun part what asks => steady part what (relisted.asks asks))
    levels v

theorem same_resolveProps_iff (split : (words ++ repeated).Perm listing)
    (inner : ∀ u, r.Inside w ask levels v u →
      Run.Same w (r.node ask levels u) (r'.node ask levels u)) :
    Run.Same w (r.resolveProps ask levels v) (r'.resolveProps ask levels v) ↔
      Settled w ask r r' type repeated levels v := by
  have once : ∀ u, Run.Determinate Value (r.node ask levels u) :=
    Run.Determinate.drawing.node steady levels
  have again := relisted.determinate steady levels
  cases read : Node.ofValue v with
  | unhashable name | faults fs =>
    refine iff_of_true ?_ fun n e read' => by simp [read] at read'
    simp only [resolveProps, read]
    exact .refl _
  | ok n =>
    have inSlots {a : Entry ι} (found : Entries.find? r.registry n.type = some a) (u : Value)
        (fills : Fills w (r.node ask levels) a.childrenProps
          (Entries.merge a.defaultProps n.props) u) :
        Run.Same w (r.node ask levels u) (r'.node ask levels u) :=
      inner u ⟨n, a, read, found, .inl fills⟩
    simp only [resolveProps, read]
    by_cases here : n.type = type
    · subst here
      obtain ⟨e, found, found'⟩ := relisted.entry
      simp only [found, found', relisted.buildProps_eq]
      rw [Run.same_map_iff fun _ _ => Value.dict.inj]
      refine (same_buildProps_iff once again split (inSlots found)).trans ?_
      constructor
      · rintro settled m a read' - found' q filled
        cases read.symm.trans read'
        cases found.symm.trans found'
        exact settled q filled
      · intro settled q filled
        exact settled n _ read rfl found q filled
    · refine iff_of_true ?_ fun m _ read' type => by
        cases read.symm.trans read'
        exact absurd type here
      rw [relisted.others n.type here]
      cases found : Entries.find? r.registry n.type with
      | none => exact .refl _
      | some a =>
        simp only [relisted.buildProps_eq]
        exact (same_buildProps once again (inSlots found)).map _

theorem same_node
    (inner : ∀ u, r.Inside w ask levels v u →
      Run.Same w (r.node ask levels u) (r'.node ask levels u))
    (bag : Run.Same w (r.resolveProps ask levels v) (r'.resolveProps ask levels v)) :
    Run.Same w (r.node ask (levels + 1) v) (r'.node ask (levels + 1) v) := by
  have once : ∀ u, Run.Determinate Value (r.node ask levels u) :=
    Run.Determinate.drawing.node steady levels
  have again := relisted.determinate steady levels
  unfold node
  unfold resolveProps at bag
  cases read : Node.ofValue v with
  | unhashable name => exact .refl _
  | faults fs =>
    rw [relisted.rest]
    exact .refl _
  | ok n =>
    simp only [read] at bag
    rcases relisted.find?_eq n.type with ⟨missing, missing'⟩ | ⟨a, a', found, found', part⟩
    · simp only [missing, missing', relisted.unregistered_eq]
      exact .refl _
    · simp only [found, found', relisted.buildProps_eq] at bag
      rw [Run.same_map_iff fun _ _ => Value.dict.inj] at bag
      simp only [found, found', relisted.registered_eq]
      refine same_registered once again part (fun props inside => ?_) bag ?_
      · exact steady _ _ (.inl ⟨n.type, a, props, inside, found, rfl, rfl⟩)
      · exact same_children once again fun u child => inner u ⟨n, a, read, found, .inr child⟩

theorem same_node_of_throughout (levels : Nat) (v : Value)
    (bags : r.Throughout w ask (fun levels u =>
      Run.Same w (r.resolveProps ask levels u) (r'.resolveProps ask levels u)) levels v) :
    Run.Same w (r.node ask levels v) (r'.node ask levels v) := by
  induction levels generalizing v with
  | zero => exact .refl _
  | succ levels ih =>
    exact relisted.same_node steady (fun u inside => ih u (bags.2 u inside)) bags.1

/-- The bags are the same everywhere, if and only if everywhere the slots that are listed again have
settled. -/
theorem throughout_iff (split : (words ++ repeated).Perm listing) (levels : Nat) (v : Value) :
    r.Throughout w ask (fun levels u =>
        Run.Same w (r.resolveProps ask levels u) (r'.resolveProps ask levels u)) levels v ↔
      r.Throughout w ask (Settled w ask r r' type repeated) levels v := by
  induction levels generalizing v with
  | zero => exact Iff.rfl
  | succ levels ih =>
    unfold Throughout
    simp only [ih]
    -- What is inside is rendered alike by induction, so it is the node's own slots that decide.
    refine and_congr_left fun inside => ?_
    refine relisted.same_resolveProps_iff steady split fun u below => ?_
    exact relisted.same_node_of_throughout steady levels u ((ih u).mpr (inside u below))

end Relisted

theorem slot_of_isResting {v : Value} (rests : v.isResting = true) : slot one v = pure v := by
  cases v with
  | node n | tuple items | keyed key output => cases rests
  | dict es =>
    have untyped : Entries.contains es "type" = false := by simpa [Value.isResting] using rests
    simp [slot, untyped]
  | list items =>
    obtain rfl : items = [] := by simpa [Value.isResting] using rests
    simp [slot, nodes, keyed]
  | _ => rfl

/-- Under these names there is nothing but what slots leave as it is. -/
def Resting (words : List String) (props : Dict) : Prop :=
  ∀ word ∈ words, ∀ v, Entries.find? props word = some v → v.isResting = true

theorem slots_of_resting {words : List String} (rests : Resting words props) :
    slots one (words.map .str) props = pure props := by
  induction words with
  | nil => rfl
  | cons word rest ih =>
    simp only [Resting, List.mem_cons, forall_eq_or_imp] at rests
    rw [List.map_cons]
    cases found : Entries.find? props word with
    | none =>
      rw [slots_cons_of_none rfl (by simp [Value.word?, found])]
      exact ih rests.2
    | some v =>
      rw [slots_cons_of_some rfl rfl found, slot_of_isResting (rests.1 v found), pure_bind,
        Entries.insert_of_find? found]
      exact ih rests.2

theorem resting_of_gives (steady : ∀ v, Run.Determinate Value (one v)) {words : List String}
    (rests : Resting words props) (filled : Run.Gives w (slots one names props) q) :
    Resting words q := by
  induction names generalizing props with
  | nil =>
    obtain rfl : props = q := by simpa [slots] using filled
    exact rests
  | cons name rest ih =>
    unfold slots at filled
    split at filled
    · exact absurd filled Run.not_gives_throw
    · split at filled
      · exact ih rests filled
      · next word v found =>
        rw [Run.gives_bind fun _ => Run.Determinate.drawing.slots steady _ _] at filled
        obtain ⟨o, given, later⟩ := filled
        refine ih (fun other listed u there => ?_) later
        by_cases same : other = word
        · subst same
          obtain ⟨_, -, found⟩ := Option.bind_eq_some_iff.mp found
          obtain ⟨_, held, same⟩ := Option.map_eq_some_iff.mp found
          cases same
          have still := rests _ listed v held
          rw [slot_of_isResting still, Run.gives_pure] at given
          rw [Entries.find?_insert_self, ← given] at there
          exact Option.some.inj there ▸ still
        · rw [Entries.find?_insert_of_ne _ _ same] at there
          exact rests other listed u there

end Renderer

theorem Entry.exists_ofRegistration (part : ι) (options : Registration) :
    ∃ made : Except Failure (Entry ι), ∀ words : List String,
      ofRegistration part { options with childrenProps := .list (words.map .str) } =
        made.map fun e => { e with childrenProps := words.map .str } := by
  refine ⟨do
    let actionProps ← resolveActionProps options
    let defaultProps ← resolveDefaultProps options
    return ⟨part, defaultProps, actionProps, [], options.inferActionProps⟩, fun words => ?_⟩
  have actions : resolveActionProps { options with childrenProps := .list (words.map .str) } =
    resolveActionProps options := rfl
  have defaults : resolveDefaultProps { options with childrenProps := .list (words.map .str) } =
    resolveDefaultProps options := rfl
  have named : resolveChildrenProps { options with childrenProps := .list (words.map .str) } =
      .ok (words.map .str) := by
    cases words <;> rfl
  unfold ofRegistration
  rw [actions, defaults, named]
  cases resolveActionProps options with
  | error f => rfl
  | ok actionProps => cases resolveDefaultProps options <;> rfl

/-- What slots are registered makes no difference to a registration but for the slots. -/
theorem Registry.exists_register (reg : Registry ι) (type : String) (part : ι)
    (options : Registration) :
    ∃ made : Except Failure (Entry ι), ∀ words : List String,
      (reg.register type part { options with childrenProps := .list (words.map .str) }).1 =
        made.map fun e => Entries.insert reg type { e with childrenProps := words.map .str } := by
  obtain ⟨made, same⟩ := Entry.exists_ofRegistration part options
  refine ⟨made, fun words => ?_⟩
  unfold register
  rw [same]
  cases made <;> rfl

/-- What a renderer asks for is answered in any state the same, and nothing else is done. -/
def Client.PureFor (c : Client ι σ) (r : Renderer ι) : Prop :=
  ∀ part what, r.Asks part what → ∃ a, ∀ state, (c.respond part what state).1 = .answer a

theorem Client.PureFor.determinate {e : Engine ι σ} {r : Renderer ι} (pure : e.client.PureFor r)
    (part : ι) (what : Request) (asks : r.Asks part what) :
    Run.Determinate Value (e.ask part what) := by
  obtain ⟨a, answers⟩ := pure part what asks
  unfold Engine.ask
  cases e.nesting <;> exact ⟨_, Client.takes_request answers⟩

theorem Client.answering_pureFor (r : Renderer (Except Failure Value)) :
    Client.answering.PureFor r :=
  fun part _ _ => ⟨part, fun _ => by cases part <;> rfl⟩

namespace Engine

/-- Names that are listed again as the slots of a type make no difference to the props of any node
that is come to, if and only if at each of them, once the slots have been filled, to fill those that
are listed again changes nothing. Then what is rendered is the same, too. What slots leave as it is
does not change either way. -/
theorem render_repeated (e : Engine ι σ) (r : Renderer ι) {type : String} {part : ι}
    {options : Registration} {listing words : List String} (unique : words.Nodup)
    (members : ∀ word, word ∈ words ↔ word ∈ listing) {listed once : Registry ι}
    (registered : (r.registry.register type part
      { options with childrenProps := .list (listing.map .str) }).1 = .ok listed)
    (registeredOnce : (r.registry.register type part
      { options with childrenProps := .list (words.map .str) }).1 = .ok once)
    (pure : e.client.PureFor { r with registry := once }) (w : World ι σ) :
    let r₁ : Renderer ι := { r with registry := once }
    let r₂ : Renderer ι := { r with registry := listed }
    let settled := Renderer.Settled w e.ask r₁ r₂ type (listing.diff words)
    (∀ levels v,
      r₁.Throughout w e.ask (fun levels u =>
          Run.Same w (r₁.resolveProps e.ask levels u) (r₂.resolveProps e.ask levels u)) levels v ↔
        r₁.Throughout w e.ask settled levels v) ∧
    (∀ v, r₁.Throughout w e.ask settled e.levels v →
      Run.Same w (e.render r₁ v) (e.render r₂ v)) ∧
    (∀ v, r₁.Throughout w e.ask settled (e.levels + 1) v →
      Run.Same w (e.resolveProps r₁ v) (e.resolveProps r₂ v)) ∧
    ∀ levels v,
      (∀ n a, Node.ofValue v = .ok n → n.type = type → Entries.find? once type = some a →
        Renderer.Resting (listing.diff words) (Entries.merge a.defaultProps n.props)) →
      settled levels v := by
  obtain ⟨made, same⟩ := r.registry.exists_register type part options
  rw [same] at registered registeredOnce
  obtain ⟨a, rfl⟩ : ∃ a, made = .ok a := by
    cases made with
    | error f => cases registered
    | ok a => exact ⟨a, rfl⟩
  cases registered
  cases registeredOnce
  intro r₁ r₂ settled
  have relisted : r₁.Relisted r₂ type words listing := by
    refine ⟨rfl, fun other apart => ?_, a, Entries.find?_insert_self _ _ _,
      Entries.find?_insert_self _ _ _⟩
    exact (Entries.find?_insert_of_ne _ _ apart).trans (Entries.find?_insert_of_ne _ _ apart).symm
  have split : (words ++ listing.diff words).Perm listing :=
    List.subperm_append_diff_self_of_count_le (List.subperm_ext_iff.mp
      (unique.subperm fun word listed => (members word).mp listed))
  have steady := pure.determinate
  have bags (levels : Nat) (v : Value) :=
    relisted.throughout_iff (w := w) steady split levels v
  refine ⟨bags, fun v settles => ?_, fun v settles => ?_, ?_⟩
  · exact relisted.same_node_of_throughout steady e.levels v ((bags e.levels v).mpr settles)
  · exact ((bags (e.levels + 1) v).mpr settles).1
  · intro levels v rests n b read here found q filled
    have still := Renderer.resting_of_gives
      (Run.Determinate.drawing.node steady levels) (rests n b read here found) filled
    exact ⟨q, by rw [Renderer.slots_of_resting still, Run.gives_pure], rfl⟩

/-- A text under a name that is listed again is left as it is, and what the header is rendered to is
not rendered again. -/
theorem render_repeated_title :
    let e : Engine (Except Failure Value) Unit := { client := .answering }
    let entry (output : String) (words : List String) : Entry (Except Failure Value) :=
      ⟨.ok (.str output), [], [], words.map .str, .bool true⟩
    let bare : Registry (Except Failure Value) := [("B", entry "drawn" [])]
    let register (words : List String) :=
      (bare.register "A" (.ok (.str "framed")) { childrenProps := .list (words.map .str) }).1
    let r (words : List String) : Renderer (Except Failure Value) :=
      { registry := [("B", entry "drawn" []), ("A", entry "framed" words)] }
    let listing := ["title", "header", "title"]
    let words := ["title", "header"]
    let b : Node := ⟨"B", [], none, none, none, none, none⟩
    let a : Node := { b with type := "A", props := [("title", .str "t"), ("header", .node b)] }
    register listing = .ok (r listing).registry ∧ register words = .ok (r words).registry ∧
      e.client.PureFor (r words) ∧
      ∀ w, Run.Gives w (e.resolveProps (r words) (.node a))
          (.dict [("title", .str "t"), ("header", .str "drawn")]) ∧
        Run.Same w (e.resolveProps (r words) (.node a)) (e.resolveProps (r listing) (.node a)) ∧
        Run.Gives w (e.render (r words) (.node a)) (.str "framed") ∧
        Run.Same w (e.render (r words) (.node a)) (e.render (r listing) (.node a)) := by
  intro e entry bare register r listing words b a
  have pure := Client.answering_pureFor (r words)
  refine ⟨rfl, rfl, pure, fun w => ?_⟩
  obtain ⟨-, render, resolve, rests⟩ :=
    @render_repeated _ _ e { registry := bare } "A" (.ok (.str "framed")) {} listing words
      (by decide) (by grind) (r listing).registry (r words).registry rfl rfl pure w
  let settled := Renderer.Settled w e.ask (r words) (r listing) "A" (listing.diff words)
  have foundA : Entries.find? (r words).registry "A" = some (entry "framed" words) := rfl
  have foundB : Entries.find? (r words).registry "B" = some (entry "drawn" []) := rfl
  have inner (levels : Nat) : (r words).Throughout w e.ask settled levels (.node b) := by
    cases levels with
    | zero => trivial
    | succ levels =>
      refine ⟨rests levels _ fun n _ read type => ?_, fun u inside => ?_⟩
      · cases (Node.ofValue_node b).symm.trans read
        exact absurd type (by decide)
      · obtain ⟨n, a, read, found, inside⟩ := inside
        cases (Node.ofValue_node b).symm.trans read
        cases foundB.symm.trans found
        exact inside.elim False.elim (by simp [b])
  have outer (levels : Nat) : (r words).Throughout w e.ask settled levels (.node a) := by
    cases levels with
    | zero => trivial
    | succ levels =>
      refine ⟨rests levels _ fun n _ read _ found word listed v held => ?_, fun u inside => ?_⟩
      · cases (Node.ofValue_node a).symm.trans read
        cases foundA.symm.trans found
        obtain rfl : word = "title" := by simpa [listing, words] using listed
        have title : Entries.find? (Entries.merge [] a.props) "title" = some (.str "t") := rfl
        cases title.symm.trans held
        rfl
      · obtain ⟨n, _, read, found, inside⟩ := inside
        cases (Node.ofValue_node a).symm.trans read
        cases foundA.symm.trans found
        obtain rfl : u = .node b := by
          simpa [Renderer.Fills, Value.word?, Value.inSlot, entry, words, a, b, Entries.merge,
            Entries.insert, Entries.find?_cons, Renderer.slot] using inside
        exact inner levels
  exact ⟨rfl, resolve _ (outer _), rfl, render _ (outer _)⟩

/-- What a list is rendered to is no list of nodes any more, so that a header that is listed twice
loses all of its items. -/
theorem resolveProps_header_twice :
    let e : Engine (Except Failure Value) Unit := { client := .answering }
    let entry (output : String) (words : List String) : Entry (Except Failure Value) :=
      ⟨.ok (.str output), [], [], words.map .str, .bool true⟩
    let bare : Registry (Except Failure Value) := [("B", entry "drawn" [])]
    let register (words : List String) :=
      (bare.register "A" (.ok (.str "framed")) { childrenProps := .list (words.map .str) }).1
    let r (words : List String) : Renderer (Except Failure Value) :=
      { registry := [("B", entry "drawn" []), ("A", entry "framed" words)] }
    let b : Node := ⟨"B", [], none, none, none, none, none⟩
    let a : Node := { b with type := "A", props := [("header", .list [.node b])] }
    let header (items : List Value) : Value := .dict [("header", .list items)]
    register ["header", "header"] = .ok (r ["header", "header"]).registry ∧
      register ["header"] = .ok (r ["header"]).registry ∧ e.client.PureFor (r ["header"]) ∧
      ∀ w, Run.Gives w (e.resolveProps (r ["header"]) (.node a))
          (header [.keyed (.int 0) (.str "drawn")]) ∧
        Run.Gives w (e.resolveProps (r ["header", "header"]) (.node a)) (header []) := by
  intro e entry bare register r b a header
  refine ⟨rfl, rfl, Client.answering_pureFor _, fun w => ⟨?_, ?_⟩⟩
  · rfl
  · rfl

end Engine

end ServerUI
