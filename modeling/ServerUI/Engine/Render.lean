import ServerUI.Callback
import ServerUI.Descriptor.Validation
import ServerUI.Engine.Trace

/-!
Rendering. A node becomes what its component makes of its props and its rendered children. The
props are laid over one another: the defaults of the component, the props of the node, the
callbacks of its actions, its style. A node that cannot be rendered is left out, and nothing
else with it.
-/

set_option autoImplicit false

namespace ServerUI.Renderer

variable {ι σ : Type} (ask : Ask ι σ) (r : Renderer ι)

def count (status : NodeStatus) : Run ι σ Unit := Run.measure r.metered (.node status.name)

def keyOf (name : String) (item : Value) (index : Nat) : Value :=
  let found : Option Value := match item with
    | .dict es => Entries.find? es name
    | item => item.model?.bind fun m => Entries.find? m.2 name
  match found with
  | none | some .null => .int index
  | some key => key

-- Renders the items of a list in order. Those that come to nothing are left out; the others keep
-- their keys.
def keyed (name : String) (one : Value → Run ι σ Value) (index : Nat) :
    List Value → Run ι σ (List Value)
  | [] => pure []
  | item :: rest => do
      let output ← one item
      let others ← keyed name one (index + 1) rest
      return if output.isNull then others else .keyed (keyOf name item index) output :: others

def nodes (one : Value → Run ι σ Value) (items : List Value) : Run ι σ (List Value) :=
  keyed "key" one 0 items

def slot (one : Value → Run ι σ Value) (v : Value) : Run ι σ Value :=
  match v with
  | .node _ => one v
  | .dict es => if Entries.contains es "type" then one v else pure v
  | .list items => Value.list <$> nodes one items
  | .tuple items => Value.list <$> nodes one items
  | .keyed key output => Value.list <$> nodes one [key, output]
  | v => pure v

def slots (one : Value → Run ι σ Value) : List Value → Dict → Run ι σ Dict
  | [], props => pure props
  | name :: rest, props =>
      match name.unhashable? with
      | some type => throw (.unhashable type)
      | none =>
          match name.word?.bind fun word => (Entries.find? props word).map (word, ·) with
          | none => slots one rest props
          | some (word, v) => do
              let output ← slot one v
              slots one rest (Entries.insert props word output)

def callbacks (e : Entry ι) (actions : Option (Entries Instruction)) : Except Failure Dict :=
  match r.onAction, actions with
  | some listener, some es =>
      Callback.ofEntries listener true
        ((es.filter fun (name, _) => e.accepts r.isActionProp name).map fun (name, i) =>
          (name, i.toValue))
  | _, _ => .ok []

def withStyle (props : Dict) (style : Option Dict) : Dict :=
  -- The style that the props have counts only if it is a mapping.
  match style with
  | none | some [] => props
  | some es =>
      let base := match Entries.find? props "style" with
        | some (.dict under) => under
        | _ => []
      Entries.insert props "style" (.dict (Entries.merge base es))

def buildProps (one : Value → Run ι σ Value) (n : Node) (e : Entry ι) : Run ι σ Dict := do
  let props ← slots one e.childrenProps (Entries.merge e.defaultProps n.props)
  let bound ← Run.ofExcept (r.callbacks e n.actions)
  return withStyle (Entries.merge props bound) n.style

def unregistered (type : String) : Run ι σ Value := do
  Run.log .warning "unknown_component_type" [("type", .str type)]
  match r.fallback with
  | some part =>
      r.count .fallback
      ask part (.fallback type)
  | none =>
      r.count .omitted
      return .null

def children (one : Value → Run ι σ Value) (n : Node) : Run ι σ (Option (List Value)) :=
  match n.children with
  | none | some [] => pure none
  | some ns => some <$> nodes one (ns.map .node)

def registered (one : Value → Run ι σ Value) (n : Node) (e : Entry ι) : Run ι σ Value := do
  let props ← r.buildProps one n e
  let inner ← children one n
  r.count .rendered
  ask e.component (.component props inner)

def malformed (event : String) (faults : List Fault) : Run ι σ Unit :=
  Run.log .warning event [("error_count", .int faults.length)]

/-- Renders one node, with at most `levels` nodes inside one another. -/
def node (levels : Nat) (v : Value) : Run ι σ Value :=
  match levels with
  | 0 => throw .nestingLimit
  | levels + 1 =>
      match Node.ofValue v with
      | .unhashable type => throw (.unhashable type)
      | .faults fs => do
          malformed "malformed_component" fs
          r.count .malformed
          return .null
      | .ok n =>
          match Entries.find? r.registry n.type with
          | none => r.unregistered ask n.type
          | some e => r.registered ask (node levels) n e

def resolveProps (levels : Nat) (v : Value) : Run ι σ Value :=
  match Node.ofValue v with
  | .unhashable type => throw (.unhashable type)
  | .faults fs => do
      malformed "malformed_component" fs
      return .null
  | .ok n =>
      match Entries.find? r.registry n.type with
      | none => return .null
      | some e => Value.dict <$> r.buildProps (r.node ask levels) n e

def sectionOf (levels : Nat) (v : Value) : Run ι σ Value :=
  match Section.ofValue v with
  | .unhashable type => throw (.unhashable type)
  | .faults fs => do
      malformed "malformed_section" fs
      return .null
  | .ok s => do
      let items ← nodes (r.node ask levels) (s.components.map .node)
      match r.wrapper with
      | some part => ask part (.wrap s items)
      | none => return .list items

def first (v : Value) : Except Failure Value :=
  match v with
  | .dict _ => .error (.missingKey (.int 0))
  | v =>
      match v.length?, v.items? with
      | some _, some (item :: _) => .ok item
      | _, _ => .error .unsupported

def ofSections (v told : Value) : Except Failure Value :=
  if told.isNull then (first v).map fun item => .bool item.hasComponents else .ok told

def screenItems (levels : Nat) (v asSections : Value) : Run ι σ (List Value) := do
  match v.length?, v.items? with
  | some size, some items =>
      Trace.operation (.str "render_screen") [("items", .int size), ("sections", asSections)] (
        if asSections.isPresent then keyed "id" (r.sectionOf ask levels) 0 items
        else nodes (r.node ask levels) items)
  | _, _ => throw .unsupported

def screen (levels : Nat) (v told : Value) : Run ι σ (List Value) :=
  if v.isPresent then do
    let asSections ← Run.ofExcept (ofSections v told)
    let body := r.screenItems ask levels v asSections
    if r.metered then Trace.scope "screen" body else body
  else pure []

def edge (levels : Nat) (key : String) : Option Node → Run ι σ (List Value)
  | none => pure []
  | some n => do
      let output ← r.node ask levels (.node n)
      return if output.isNull then [] else [.keyed (.str key) output]

def fullScreen (levels : Nat) (v : Value) : Run ι σ (List Value) := do
  let s ← Run.ofExcept (Failure.ofChecked (some "ScreenDescriptor") (Screen.ofValue v))
  let id ← Run.newId 0 Identifier.renderPrefix
  Run.within [("render_id", .str id), ("screen_id", .str s.id)] (do
    Run.log .info "render_screen_descriptor" [("sections", .int s.sections.length)]
    let header ← r.edge ask levels "header" s.header
    let sections ← r.screen ask levels (.list (s.sections.map .section)) (.bool true)
    let footer ← r.edge ask levels "footer" s.footer
    return header ++ sections ++ footer)

end ServerUI.Renderer
