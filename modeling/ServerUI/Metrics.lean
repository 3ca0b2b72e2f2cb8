import ServerUI.Binary64
import ServerUI.Entries
import ServerUI.Value

/-!
What is counted while an engine runs. Measurements are facts in the order in which they happen;
the metrics are the totals that a list of measurements comes to.
-/

set_option autoImplicit false

namespace ServerUI

inductive Outcome where
  | custom
  | unknown
  | unhandled
  | handled
  | failed
  | skipped
deriving DecidableEq, Repr

def Outcome.name : Outcome → String
  | custom => "custom"
  | unknown => "unknown"
  | unhandled => "unhandled"
  | handled => "handled"
  | failed => "failed"
  | skipped => "skipped"

inductive NodeStatus where
  | rendered
  | fallback
  | omitted
  | malformed
deriving DecidableEq, Repr

def NodeStatus.name : NodeStatus → String
  | rendered => "rendered"
  | fallback => "fallback"
  | omitted => "omitted"
  | malformed => "malformed"

inductive Measurement where
  | action (type outcome : String)
  | apiFailure
  | node (status : String)
  | scope (name : String)
  | duration (scope : String) (seconds : Binary64)
  | registrySize (size : Binary64)
deriving DecidableEq, Repr

structure Durations where
  sum : Binary64
  counts : List Nat
deriving DecidableEq, Repr

namespace Durations

def bounds : List Binary64 :=
  [.ofDecimal false 1 (-3), .ofDecimal false 5 (-3), .ofDecimal false 1 (-2),
    .ofDecimal false 5 (-2), .ofDecimal false 1 (-1), .ofDecimal false 5 (-1), .ofNat 1,
    .infinity false]

def empty : Durations := ⟨.zero, bounds.map fun _ => 0⟩

-- Adds one to the first bucket that reaches up to the duration.
def place (seconds : Binary64) : List Binary64 → List Nat → List Nat
  | b :: bs, n :: ns => if seconds.le b then (n + 1) :: ns else n :: place seconds bs ns
  | _, ns => ns

def observe (d : Durations) (seconds : Binary64) : Durations :=
  ⟨d.sum.add seconds, place seconds bounds d.counts⟩

def count (d : Durations) : Nat := d.counts.foldl (· + ·) 0

end Durations

structure Metrics where
  actions : List ((String × String) × Nat) := []
  apiFailures : Nat := 0
  nodes : List (String × Nat) := []
  durations : List (String × Durations) := []
  registrySize : Binary64 := .zero
deriving DecidableEq, Repr

namespace Metrics

-- Changes what a list holds under a key; a key that is not there is put at the end with the changed
-- `start`.
def adjust {κ α : Type} [DecidableEq κ] (start : α) (f : α → α) (key : κ) :
    List (κ × α) → List (κ × α)
  | [] => [(key, f start)]
  | (k, a) :: rest => if k = key then (k, f a) :: rest else (k, a) :: adjust start f key rest

def record (m : Metrics) : Measurement → Metrics
  | .action type outcome => { m with actions := adjust 0 (· + 1) (type, outcome) m.actions }
  | .apiFailure => { m with apiFailures := m.apiFailures + 1 }
  | .node status => { m with nodes := adjust 0 (· + 1) status m.nodes }
  | .scope name => { m with durations := adjust .empty id name m.durations }
  | .duration scope seconds =>
      { m with durations := adjust .empty (·.observe seconds) scope m.durations }
  | .registrySize size => { m with registrySize := size }

def recordAll (m : Metrics) (ms : List Measurement) : Metrics := ms.foldl record m

end Metrics

structure Sample where
  name : String
  labels : Entries String
  value : Number
deriving DecidableEq, Repr

namespace Sample

def isZero (s : Sample) : Bool :=
  match s.value with
  | .integer i => i == 0
  | .real x => x.isZero

def equal (s t : Sample) : Bool :=
  -- A NaN has no value in common with itself.
  match s.value, t.value with
  | .integer i, .integer j => i == j
  | .real x, .real y => x.same y
  | _, _ => false

end Sample

namespace Metrics

def actionsName : String := "sdui_actions_dispatched_total"
def apiFailuresName : String := "sdui_api_call_failures_total"
def nodesName : String := "sdui_nodes_rendered_total"
def durationsName : String := "sdui_render_duration_seconds"
def registrySizeName : String := "sdui_registry_components"

def wholeOr (x : Binary64) : Number :=
  match x.toInt? with
  | some i => .integer i
  | none => .real x

def samples (m : Metrics) : List Sample :=
  m.actions.map (fun ((type, outcome), n) =>
      ⟨actionsName, [("action_type", type), ("outcome", outcome)], .integer n⟩) ++
    [⟨apiFailuresName, [], .integer m.apiFailures⟩] ++
    m.nodes.map (fun (status, n) => ⟨nodesName, [("status", status)], .integer n⟩) ++
    m.durations.flatMap (fun (scope, d) =>
      [⟨durationsName ++ "_count", [("scope", scope)], .integer d.count⟩,
        ⟨durationsName ++ "_sum", [("scope", scope)], .real d.sum⟩]) ++
    [⟨registrySizeName, [], wholeOr m.registrySize⟩]

def changes (before now : Metrics) : List Sample :=
  -- What was not there before was zero.
  let old := before.samples
  now.samples.filter fun s =>
    match old.find? fun t => t.name = s.name ∧ t.labels = s.labels with
    | some t => !s.equal t
    | none => !s.isZero

end Metrics

end ServerUI
