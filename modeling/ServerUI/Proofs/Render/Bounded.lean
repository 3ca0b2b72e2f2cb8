import Mathlib.Data.List.Chain
import ServerUI.Proofs.Json.Plain
import ServerUI.Proofs.Payload.Failures
import ServerUI.Proofs.Render.Nested

/-!
The limit of the nesting of a document is one of rendering too. Each node that is rendered inside
another takes up two levels of the document at least, so the nodes that are rendered inside one
another are half as many as the levels that the limit admits, and the one to begin with.
-/

set_option autoImplicit false

namespace ServerUI.Renderer

variable {ι σ : Type} {ask : Ask ι σ} {r : Renderer ι} {part v : Value}

theorem length_le_of_chain (bare : r.SlotsBare) (plain : part.IsJson) (stands : part.StandsFor v)
    {chain : List Value} (nested : List.IsChain (fun v u => u ∈ r.calls v) (v :: chain)) :
    2 * chain.length ≤ part.depth := by
  induction chain generalizing part v with
  | nil => simp
  | cons u rest ih =>
      obtain ⟨call, nested⟩ := List.isChain_cons_cons.mp nested
      obtain ⟨q, occurs, deeper, stands⟩ := exists_part_of_mem_calls bare plain stands call
      have := ih (plain.occurring occurs) stands nested
      simp only [List.length_cons]
      omega

theorem node_eq_of_depth_lt (once : r.SlotsOnce) (bare : r.SlotsBare) (plain : part.IsJson)
    (stands : part.StandsFor v) {levels levels' : Nat} (enough : part.depth < 2 * levels)
    (enough' : part.depth < 2 * levels') : r.node ask levels v = r.node ask levels' v := by
  induction levels generalizing part v levels' with
  | zero => omega
  | succ levels ih =>
      cases levels' with
      | zero => omega
      | succ levels' =>
          refine node_congr once fun u call => ?_
          obtain ⟨q, occurs, deeper, stands⟩ := exists_part_of_mem_calls bare plain stands call
          exact ih (plain.occurring occurs) stands (by omega) (by omega)

/-- A node that was loaded within a limit of nesting starts no chain of renderings inside one
another that is longer than half the limit and one; so any bound on the levels of rendering beyond
half the limit is never met, whatever it is. -/
theorem loaded_nesting (r : Renderer ι) (once : r.SlotsOnce) (bare : r.SlotsBare) {l : Limits}
    {d : Document} {n : Node} (loaded : (Payload.parseComponent l d).1 = .ok n) :
    (∀ chain : List Value, List.IsChain (fun v u => u ∈ r.calls v) (.node n :: chain) →
      ((Value.node n :: chain).length : Int) ≤ l.maxDepth / 2 + 1) ∧
    ∀ (ask : Ask ι σ) (levels levels' : Nat), l.maxDepth / 2 < levels → l.maxDepth / 2 < levels' →
      r.node ask levels (.node n) = r.node ask levels' (.node n) := by
  obtain ⟨v, read, decoded, valid⟩ := PayloadKind.exists_of_load_eq_ok loaded
  have plain : v.IsJson := Document.isJson_of_parse read
  have stands : v.StandsFor (.node n) := .node valid
  have depth : (v.depth : Int) ≤ l.maxDepth := by
    have shallow := Limits.checkDepth_of_checkDecoded decoded
    rw [Value.checkDepth_eq_ok] at shallow
    omega
  constructor
  · intro chain nested
    have := length_le_of_chain bare plain stands nested
    simp only [List.length_cons]
    omega
  · intro ask levels levels' enough enough'
    exact node_eq_of_depth_lt once bare plain stands (by omega) (by omega)

/-- The limit is met: a node with a child is two nodes inside one another on three levels. -/
theorem loaded_nesting_child :
    let child : Node := ⟨"A", [], none, none, none, none, none⟩
    let n : Node := { child with children := some [child] }
    let d : Document := .text "\x7b\"type\":\"A\",\"children\":[\x7b\"type\":\"A\"\x7d]\x7d"
    let l : Limits := { maxDepth := 3 }
    let r : Renderer Unit := { registry := [("A", ⟨(), [], [], [.str "header"], .bool true⟩)] }
    (Payload.parseComponent l d).1 = .ok n ∧ r.SlotsOnce ∧ r.SlotsBare ∧
      r.calls (.node n) = [.node child] ∧
      ([Value.node n, .node child].length : Int) ≤ l.maxDepth / 2 + 1 := by
  intro child n d l r
  let v : Value :=
    .dict [("type", .str "A"), ("children", .list [.dict [("type", .str "A")]])]
  have read : d.value? = some v := rfl
  have parsed : d.parse = .ok v := by simp [Document.parse, read]
  have size : d.size = 87 := rfl
  have raw : l.checkRaw d PayloadKind.component.model = .ok () := by
    simp [l, Limits.checkRaw, Document.checkSize, size]
  have decoded : l.checkDecoded v PayloadKind.component.required = .ok () := rfl
  have valid : PayloadKind.component.validate v = .ok n := rfl
  have loaded : (Payload.parseComponent l d).1 = .ok n := by
    change (PayloadKind.component.load l d).1 = _
    rw [PayloadKind.load_of_decoded raw parsed decoded, PayloadKind.ofDecoded, valid]
  have entry {type : String} {e : Entry Unit} (h : Entries.find? r.registry type = some e) :
      e.slots = ["header"] ∧ e.defaultProps = [] := by
    obtain ⟨-, rfl⟩ := Entries.find?_singleton_eq_some.mp h
    exact ⟨rfl, rfl⟩
  have once : r.SlotsOnce := fun type e h => by simp [(entry h).1]
  have bare : r.SlotsBare := fun type e h word _ => by simp [(entry h).2]
  have calls : r.calls (.node n) = [.node child] := rfl
  have nested : List.IsChain (fun v u => u ∈ r.calls v) [.node n, .node child] := by simp [calls]
  exact ⟨loaded, once, bare, calls, (loaded_nesting (σ := Unit) r once bare loaded).1 _ nested⟩

end ServerUI.Renderer
