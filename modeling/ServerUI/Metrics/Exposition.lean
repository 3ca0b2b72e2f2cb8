import ServerUI.Binary64.Decimal
import ServerUI.Metrics
import ServerUI.Text.Lines

/-!
Metrics as text: for each metric a row of help, a row of its type and a row for each sample.
Numbers are written as floats, and positive ones from ten to the sixth on with an exponent.
-/

set_option autoImplicit false

namespace ServerUI.Exposition

def dropZeros (cs : List Char) : List Char :=
  (cs.reverse.dropWhile fun c => c = '0' || c = '.').reverse

def number (x : Binary64) : String :=
  match x with
  | .nan => "NaN"
  | .infinity false => "+Inf"
  | .infinity true => "-Inf"
  | x =>
      let cs := (FloatFormat.display.render x).toList
      let whole := cs.takeWhile (· ≠ '.')
      if Binary64.zero.lt x && whole.length < cs.length && decide (6 < whole.length) then
        let mantissa := whole.take 1 ++ ['.'] ++ whole.drop 1 ++ cs.drop (whole.length + 1)
        String.ofList (dropZeros mantissa) ++ FloatFormat.display.exponentText (whole.length - 1)
      else String.ofList cs

def numberOf : Number → String
  | .integer i => number (.ofInt i)
  | .real x => number x

def escape (s : String) : String :=
  String.join (s.toList.map fun c =>
    if c = '\\' then "\\\\" else if c = '\n' then "\\n" else if c = '"' then "\\\""
    else String.singleton c)

def label (e : String × String) : String := e.1 ++ "=\"" ++ escape e.2 ++ "\""

def row (s : Sample) : String :=
  s.name ++
    (if s.labels.isEmpty then ""
    else "\x7b" ++ ",".intercalate (s.labels.map label) ++ "\x7d") ++
    " " ++ numberOf s.value

def heading (name help type : String) : List String :=
  ["# HELP " ++ name ++ " " ++ help, "# TYPE " ++ name ++ " " ++ type]

def cumulative (total : Nat) : List Nat → List Nat
  | [] => []
  | n :: ns => (total + n) :: cumulative (total + n) ns

def durationSamples (scope : String) (d : Durations) : List Sample :=
  List.zipWith (fun bound n =>
      ⟨Metrics.durationsName ++ "_bucket", [("le", number bound), ("scope", scope)],
        .integer (n : Nat)⟩)
    Durations.bounds (cumulative 0 d.counts) ++
  [⟨Metrics.durationsName ++ "_count", [("scope", scope)], .integer d.count⟩,
    ⟨Metrics.durationsName ++ "_sum", [("scope", scope)], .real d.sum⟩]

def named (name : String) (m : Metrics) : List Sample := m.samples.filter fun s => s.name = name

def rows (m : Metrics) : List String :=
  heading Metrics.actionsName "Total number of dispatched actions" "counter" ++
    (named Metrics.actionsName m).map row ++
    heading Metrics.apiFailuresName "API_CALL network effects that raised" "counter" ++
    (named Metrics.apiFailuresName m).map row ++
    heading Metrics.nodesName "Component descriptors processed by the renderer" "counter" ++
    (named Metrics.nodesName m).map row ++
    heading Metrics.durationsName "Render pass duration in seconds" "histogram" ++
    (m.durations.flatMap fun (scope, d) => durationSamples scope d).map row ++
    heading Metrics.registrySizeName "Component types in the last built registry" "gauge" ++
    (named Metrics.registrySizeName m).map row

-- The text as lines. A row is one line, unless there are line breaks in its labels.
def lines (m : Metrics) : List String := (rows m).flatMap Text.lines

end ServerUI.Exposition
