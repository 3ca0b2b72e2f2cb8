import Mathlib.Data.List.Basic
import Mathlib.Tactic.Push
import ServerUI.Proofs.Render.Total

/-!
The props that a component gets, name by name. Under each name stands the callback of an action
that the component takes, or else what has been rendered in a slot, or else what the node has there,
or else the default. The style of a node is laid over whatever mapping then stands under its name.
-/

set_option autoImplicit false

namespace ServerUI

variable {ι σ : Type}

/-- What a mapping that is laid over another one has under a key. -/
def Entries.layered {α : Type} (upper lower : Entries α) (key : String) : Option α :=
  (upper.find? key).or (lower.find? key)

theorem Entry.accepts_iff {e : Entry ι} {isActionProp : String → Bool} {name : String} :
    e.accepts isActionProp name = true ↔
      e.listsAction name = true ∨
        e.inferActionProps.isPresent = true ∧ isActionProp name = true := by
  unfold accepts acceptance
  cases e.listsAction name with
  | true => simp [Value.isPresent]
  | false =>
      cases infers : e.inferActionProps.isPresent with
      | true => simp [Value.isPresent]
      | false => simp [infers]

namespace Callback

variable {listener : Listener} {withArguments : Bool} {es bound : Dict}

theorem ofEntries_cons_eq_ok {prop : String} {action : Value} :
    ofEntries listener withArguments ((prop, action) :: es) = .ok bound ↔
      ∃ callback later, ofAction listener prop action withArguments = .ok callback ∧
        ofEntries listener withArguments es = .ok later ∧ bound = (prop, callback) :: later := by
  rw [ofEntries]
  cases ofAction listener prop action withArguments with
  | error f => simp
  | ok callback =>
      cases ofEntries listener withArguments es with
      | error f => simp [Except.map]
      | ok later => simp [Except.map, eq_comm]

theorem find?_ofEntries (h : ofEntries listener withArguments es = .ok bound) (key : String) :
    Entries.find? bound key = (Entries.find? es key).bind fun action =>
      (ofAction listener key action withArguments).toOption := by
  induction es generalizing bound with
  | nil =>
      obtain rfl : [] = bound := by simpa [ofEntries] using h
      rfl
  | cons e rest ih =>
      obtain ⟨prop, action⟩ := e
      obtain ⟨callback, later, made, others, rfl⟩ := ofEntries_cons_eq_ok.mp h
      by_cases same : prop = key
      · subst same
        simp [Entries.find?_cons, made, Except.toOption]
      · simp [Entries.find?_cons, same, ih others]

theorem keys_ofEntries (h : ofEntries listener withArguments es = .ok bound) :
    Entries.keys bound = Entries.keys es := by
  induction es generalizing bound with
  | nil =>
      obtain rfl : [] = bound := by simpa [ofEntries] using h
      rfl
  | cons e rest ih =>
      obtain ⟨prop, action⟩ := e
      obtain ⟨callback, later, -, others, rfl⟩ := ofEntries_cons_eq_ok.mp h
      simpa [Entries.keys] using ih others

end Callback

/-- The mappings of a node name each key once, as mappings do. -/
structure Node.KeysOnce (n : Node) : Prop where
  props : (Entries.keys n.props).Nodup
  actions : (Entries.keys (n.actions.getD [])).Nodup
  style : (Entries.keys (n.style.getD [])).Nodup

namespace Renderer

/-- What there is to fill slots with, in the order of the slots. -/
def fillings (words : List String) (props : String → Option Value) : Dict :=
  words.filterMap fun word => (props word).map (word, ·)

/-- Renders what fills slots, one after the other. -/
def fill (one : Value → Run ι σ Value) : Dict → Run ι σ Dict
  | [] => pure []
  | (word, v) :: rest => do
      let output ← slot one v
      let others ← fill one rest
      return (word, output) :: others

variable (r : Renderer ι) (n : Node) (e : Entry ι) (outputs : Dict)

/-- The callback of the action that the node has under a name, if somebody listens and the component
takes the action: it lists the name, or it infers from the name that it stands for an action. -/
def bound? (key : String) : Option Value :=
  if e.listsAction key ∨ e.inferActionProps.isPresent ∧ r.isActionProp key then do
    let listener ← r.onAction
    let action ← Entries.find? (n.actions.getD []) key
    (Callback.ofAction listener key action.toValue true).toOption
  else none

/-- What stands under a name, whatever the style, when the slots have been rendered to `outputs`. -/
def layers (key : String) : Option Value :=
  (r.bound? n e key).or
    ((Entries.find? outputs key).or (Entries.layered n.props e.defaultProps key))

def mappingOf : Option Value → Dict
  | some (.dict es) => es
  | _ => []

/-- The props are the layers, and a style that is not empty lies over the mapping that the layers
have for it, if they have one. -/
structure LaidOver (props : Dict) : Prop where
  layers (key : String) (apart : key ≠ "style" ∨ n.style.getD [] = []) :
    Entries.find? props key = r.layers n e outputs key
  style (given : n.style.getD [] ≠ []) :
    ∃ style, Entries.find? props "style" = some (.dict style) ∧
      ∀ key, Entries.find? style key =
        Entries.layered (n.style.getD []) (mappingOf (r.layers n e outputs "style")) key

variable {r n e outputs} {one : Value → Run ι σ Value}

theorem fillings_cons (word : String) (words : List String) (props : String → Option Value) :
    fillings (word :: words) props =
      ((props word).map (word, ·)).toList ++ fillings words props := by
  cases held : props word <;> simp [fillings, held]

theorem keys_fillings (words : List String) (props : String → Option Value) :
    Entries.keys (fillings words props) = words.filter fun word => (props word).isSome := by
  induction words with
  | nil => rfl
  | cons word rest ih =>
      rw [fillings_cons]
      cases held : props word with
      | none => simpa [held] using ih
      | some v => simpa [held, Entries.keys] using ih

theorem fillings_insert {words : List String} {word : String} {props : Dict} {v : Value}
    (fresh : word ∉ words) :
    fillings words (Entries.find? (Entries.insert props word v)) =
      fillings words (Entries.find? props) := by
  refine List.filterMap_congr fun other listed => ?_
  have apart : other ≠ word := fun same => fresh (same ▸ listed)
  rw [Entries.find?_insert_of_ne props v apart]

theorem ends_fill (filling : Dict) :
    Run.Ends (fun _ => True) (Entries.keys · = Entries.keys filling) (fill one filling) := by
  induction filling with
  | nil => exact Run.ends_pure rfl
  | cons first rest ih =>
      obtain ⟨word, v⟩ := first
      exact (Run.ends_somehow _).bind fun output _ => ih.bind fun others same =>
        Run.ends_pure (by simpa [Entries.keys] using same)

theorem slots_cons_of_none {name : Value} {names : List Value} {props : Dict}
    (hashed : name.unhashable? = none) (empty : name.word?.bind (Entries.find? props) = none) :
    slots one (name :: names) props = slots one names props := by
  cases spelled : name.word? with
  | none => simp only [slots, hashed, spelled, Option.bind_none]
  | some word =>
      have missing : Entries.find? props word = none := by simpa [spelled] using empty
      simp only [slots, hashed, spelled, Option.bind_some, missing, Option.map_none]

theorem slots_cons_of_some {name : Value} {names : List Value} {props : Dict} {word : String}
    {v : Value} (hashed : name.unhashable? = none) (spelled : name.word? = some word)
    (found : Entries.find? props word = some v) :
    slots one (name :: names) props = (do
      let output ← slot one v
      slots one names (Entries.insert props word output)) := by
  simp only [slots, hashed, spelled, Option.bind_some, found, Option.map_some]

/-- What is rendered in slots is laid over the props. No slot looks at what was rendered in another
one, for none is there twice. -/
theorem slots_eq_fill {names : List Value} {props : Dict}
    (hashed : ∀ name ∈ names, name.unhashable? = none)
    (once : (names.filterMap Value.word?).Nodup) :
    slots one names props = (do
      let outputs ← fill one (fillings (names.filterMap Value.word?) (Entries.find? props))
      return Entries.merge props outputs) := by
  induction names generalizing props with
  | nil => simp [slots, fillings, fill, Entries.merge]
  | cons name rest ih =>
      simp only [List.forall_mem_cons] at hashed
      cases spelled : name.word? with
      | none =>
          rw [slots_cons_of_none hashed.1 (by simp [spelled])]
          simp only [List.filterMap_cons, spelled] at once ⊢
          exact ih hashed.2 once
      | some word =>
          simp only [List.filterMap_cons, spelled, List.nodup_cons] at once
          simp only [List.filterMap_cons, spelled, fillings_cons]
          cases found : Entries.find? props word with
          | none =>
              rw [slots_cons_of_none hashed.1 (by simp [spelled, found])]
              exact ih hashed.2 once.2
          | some v =>
              rw [slots_cons_of_some hashed.1 spelled found]
              simp only [Option.map_some, Option.toList_some, List.singleton_append, fill,
                bind_assoc, pure_bind]
              refine bind_congr fun output => ?_
              rw [ih hashed.2 once.2, fillings_insert once.1]
              rfl

theorem fails_slots_of_unhashable {names : List Value} {props : Dict} {name : Value} {type : String}
    (listed : name ∈ names) (unhashable : name.unhashable? = some type) :
    (slots one names props).Fails := by
  induction names generalizing props with
  | nil => simp at listed
  | cons first rest ih =>
      unfold slots
      split
      · exact Run.ends_throw trivial
      · next hashed =>
          have behind : name ∈ rest := (List.mem_cons.mp listed).resolve_left fun same => by
            simp [same, hashed] at unhashable
          split
          · exact ih behind
          · exact .later _ fun output => ih behind

theorem callbacks_eq (listener : Listener) (listens : r.onAction = some listener) (e : Entry ι)
    (actions : Option (Entries Instruction)) :
    r.callbacks e actions = Callback.ofEntries listener true (Entries.mapValues Instruction.toValue
      ((actions.getD []).filter fun x => e.accepts r.isActionProp x.1)) := by
  unfold callbacks
  rw [listens]
  cases actions <;> rfl

theorem callbacks_eq_nil (silent : r.onAction = none) (e : Entry ι)
    (actions : Option (Entries Instruction)) : r.callbacks e actions = .ok [] := by
  unfold callbacks
  rw [silent]

theorem find?_callbacks {bound : Dict} (h : r.callbacks e n.actions = .ok bound) (key : String) :
    Entries.find? bound key = r.bound? n e key := by
  unfold bound?
  cases listens : r.onAction with
  | none =>
      obtain rfl : [] = bound := by simpa [callbacks_eq_nil listens] using h
      simp
  | some listener =>
      rw [callbacks_eq listener listens] at h
      rw [Callback.find?_ofEntries h, Entries.find?_mapValues, Entries.find?_filter]
      simp only [Entry.accepts_iff]
      split <;> cases Entries.find? (n.actions.getD []) key <;> rfl

theorem keys_callbacks_sublist {bound : Dict} (h : r.callbacks e n.actions = .ok bound) :
    (Entries.keys bound).Sublist (Entries.keys (n.actions.getD [])) := by
  cases listens : r.onAction with
  | none =>
      obtain rfl : [] = bound := by simpa [callbacks_eq_nil listens] using h
      exact List.nil_sublist _
  | some listener =>
      rw [callbacks_eq listener listens] at h
      rw [Callback.keys_ofEntries h, Entries.keys_mapValues]
      exact List.filter_sublist.map _

theorem withStyle_eq (props : Dict) (style : Option Dict) :
    withStyle props style =
      if style.getD [] = [] then props
      else Entries.insert props "style"
        (.dict (Entries.merge (mappingOf (Entries.find? props "style")) (style.getD []))) := by
  unfold withStyle
  split
  · rfl
  · rfl
  · next es given =>
      cases es with
      | nil => exact absurd rfl given
      | cons first rest => rfl

/-- Props that hold the layers under every name are laid over with a style. -/
theorem laidOver_withStyle {props : Dict} (once : (Entries.keys (n.style.getD [])).Nodup)
    (under : ∀ key, Entries.find? props key = r.layers n e outputs key) :
    r.LaidOver n e outputs (withStyle props n.style) := by
  rw [withStyle_eq]
  constructor
  · intro key apart
    split
    · exact under key
    · next given =>
        rw [Entries.find?_insert_of_ne _ _ (apart.resolve_right given), under]
  · intro given
    rw [if_neg given]
    refine ⟨_, Entries.find?_insert_self _ _ _, fun key => ?_⟩
    rw [Entries.find?_merge once, under]
    rfl

/-- The props of a node when its slots have been rendered to `outputs`. -/
def propsAfter (n : Node) (e : Entry ι) (outputs bound : Dict) : Dict :=
  withStyle
    (Entries.merge (Entries.merge (Entries.merge e.defaultProps n.props) outputs) bound) n.style

theorem buildProps_eq_fill {bound : Dict} (keys : n.KeysOnce)
    (hashed : ∀ name ∈ e.childrenProps, name.unhashable? = none) (once : e.slots.Nodup)
    (made : r.callbacks e n.actions = .ok bound) :
    r.buildProps one n e = (do
      let outputs ← fill one (fillings e.slots (Entries.layered n.props e.defaultProps))
      return propsAfter n e outputs bound) := by
  have merged : Entries.find? (Entries.merge e.defaultProps n.props) =
      Entries.layered n.props e.defaultProps := funext fun _ => Entries.find?_merge keys.props
  rw [buildProps, slots_eq_fill hashed once, merged, made, bind_assoc]
  rfl

theorem laidOver_of_fill {bound : Dict} (keys : n.KeysOnce) (rendered : (Entries.keys outputs).Nodup)
    (made : r.callbacks e n.actions = .ok bound) :
    r.LaidOver n e outputs (propsAfter n e outputs bound) := by
  refine laidOver_withStyle keys.style fun key => ?_
  have bound_once := keys.actions.sublist (keys_callbacks_sublist made)
  rw [Entries.find?_merge bound_once, find?_callbacks made, Entries.find?_merge rendered,
    Entries.find?_merge keys.props]
  rfl

/-- The props of a node are laid over one another in one order, under every name at once, and the
component gets just the props that are told when they are asked for. They cannot be had only where a
slot cannot be rendered or cannot be looked up. -/
theorem props_laidOver {v : Value} (read : Node.ofValue v = .ok n)
    (registered : Entries.find? r.registry n.type = some e) (once : e.slots.Nodup)
    (keys : n.KeysOnce) (ask : Ask ι σ) (levels : Nat) (w : World ι σ) :
    let one := r.node ask levels
    let filling := fillings e.slots (Entries.layered n.props e.defaultProps)
    (∃ f w', Run.exec (r.resolveProps ask levels v) w = (.error f, w') ∧
      Run.exec (r.node ask (levels + 1) v) w = (.error f, w') ∧
      (Run.exec (fill one filling) w = (.error f, w') ∨
        ∃ name ∈ e.childrenProps, name.unhashable? ≠ none)) ∨
    ∃ outputs props w', Run.exec (fill one filling) w = (.ok outputs, w') ∧
      Entries.keys outputs =
        e.slots.filter (fun word => (Entries.layered n.props e.defaultProps word).isSome) ∧
      r.LaidOver n e outputs props ∧
      Run.exec (r.resolveProps ask levels v) w = (.ok (.dict props), w') ∧
      Run.exec (r.node ask (levels + 1) v) w = Run.exec (do
        let inner ← children one n
        r.count .rendered
        ask e.component (.component props inner)) w' := by
  intro one filling
  have told : r.resolveProps ask levels v = Value.dict <$> r.buildProps one n e := by
    simp only [resolveProps, read, registered, one]
  have drawn : r.node ask (levels + 1) v = r.registered ask one n e := by
    simp only [node, read, registered, one]
  rw [told, drawn, Renderer.registered, map_eq_pure_bind, Run.exec_bind, Run.exec_bind]
  by_cases hashed : ∀ name ∈ e.childrenProps, name.unhashable? = none
  · obtain ⟨bound, made⟩ := r.exists_callbacks e n.actions
    rw [buildProps_eq_fill keys hashed once made, Run.exec_bind]
    cases ran : Run.exec (fill one filling) w with
    | mk result w' =>
        cases result with
        | error f => exact .inl ⟨f, w', rfl, rfl, .inl rfl⟩
        | ok outputs =>
            have words := (ends_fill filling).value ran
            rw [keys_fillings] at words
            have rendered : (Entries.keys outputs).Nodup := words ▸ once.filter _
            exact .inr ⟨outputs, _, w', rfl, words, laidOver_of_fill keys rendered made, rfl, rfl⟩
  · push Not at hashed
    obtain ⟨name, listed, unhashable⟩ := hashed
    obtain ⟨type, unnamed⟩ := Option.ne_none_iff_exists'.mp unhashable
    have fails : (r.buildProps one n e).Fails :=
      (fails_slots_of_unhashable listed unnamed).first _
    obtain ⟨f, w', failed⟩ := fails.exists_error w
    exact .inl ⟨f, w', by rw [failed], by rw [failed], .inr ⟨name, listed, unhashable⟩⟩

/-- A slot with an action of its name, another slot, a default that the node overrides and one that it
does not, and a style over the default style. -/
theorem props_laidOver_overlapping :
    let ask : Ask String Unit := fun part _ => pure (.str part)
    let e : Entry String := ⟨"outer",
      [("title", .str "untitled"), ("size", .int 1),
        ("style", .dict [("color", .str "red"), ("width", .int 2)])],
      [], [.str "header", .str "onPress"], .bool true⟩
    let r : Renderer String := {
      registry := [("A", e), ("B", ⟨"inner", [], [], [], .bool true⟩)]
      onAction := some (.host 0) }
    let inner : Value := .node ⟨"B", [], none, none, none, none, none⟩
    let n : Node := ⟨"A", [("header", inner), ("onPress", inner), ("title", .str "titled")],
      some [("onPress", .unknown [])], none, none, none, some [("color", .str "blue")]⟩
    Node.ofValue (.node n) = .ok n ∧ Entries.find? r.registry n.type = some e ∧ e.slots.Nodup ∧
      n.KeysOnce ∧
      ∃ props w', Run.exec (r.resolveProps ask 1 (.node n)) { client := () } =
          (.ok (.dict props), w') ∧
        Entries.find? props "header" = some (.str "inner") ∧
        Entries.find? props "onPress" = some (.callback (.host 0) (.dict []) none) ∧
        Entries.find? props "title" = some (.str "titled") ∧
        Entries.find? props "size" = some (.int 1) ∧
        ∃ style, Entries.find? props "style" = some (.dict style) ∧
          Entries.find? style "color" = some (.str "blue") ∧
          Entries.find? style "width" = some (.int 2) := by
  intro ask e r inner n
  have once : e.slots.Nodup := by decide
  have keys : n.KeysOnce := ⟨by decide, by decide, by decide⟩
  refine ⟨Node.ofValue_node n, rfl, once, keys, ?_⟩
  rcases props_laidOver (Node.ofValue_node n) (r := r) (e := e) rfl once keys ask 1
    { client := () } with ⟨f, w', failed, -⟩ | ⟨outputs, props, w', filled, -, laid, told, -⟩
  · cases failed
  · obtain ⟨rfl, -⟩ : [("header", .str "inner"), ("onPress", .str "inner")] = outputs ∧ _ = w' :=
      Prod.mk.inj filled |>.imp_left Except.ok.inj
    obtain ⟨style, there, laid_style⟩ := laid.style (by decide)
    refine ⟨props, w', told, ?_, ?_, ?_, ?_, style, there, ?_, ?_⟩
    · rw [laid.layers "header" (.inl (by decide))]; rfl
    · rw [laid.layers "onPress" (.inl (by decide))]; rfl
    · rw [laid.layers "title" (.inl (by decide))]; rfl
    · rw [laid.layers "size" (.inl (by decide))]; rfl
    · rw [laid_style]; rfl
    · rw [laid_style]; rfl

end Renderer

end ServerUI
