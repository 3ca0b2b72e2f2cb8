import ServerUI.Failure
import ServerUI.Log.Context
import ServerUI.Log.Record
import ServerUI.Settings

/-!
Where log records go: a line for each record that is at least as severe as the configured
threshold, in JSON with everything that the record carries, or for people to read.
-/

set_option autoImplicit false

namespace ServerUI.Log

namespace Level

def severity : Level → Nat
  | debug => 10
  | info => 20
  | warning => 30
  | error => 40
  | critical => 50

def title : Level → String
  | debug => "DEBUG"
  | info => "INFO"
  | warning => "WARNING"
  | error => "ERROR"
  | critical => "CRITICAL"

end Level

def thresholds : List (String × Nat) :=
  [("CRITICAL", 50), ("FATAL", 50), ("ERROR", 40), ("WARNING", 30), ("WARN", 30), ("INFO", 20),
    ("DEBUG", 10), ("NOTSET", 0)]

def upperChar (c : Char) : Char :=
  if c = 'ı' then 'I' else if c = 'ſ' then 'S' else c.toUpper

def upper (s : String) : String := String.ofList (s.toList.map upperChar)

-- Reserved words that are no thresholds: a layout of lines, and the table of layouts.
def basicFormat : String := "%(levelname)s:%(name)s:%(message)s"

def threshold (name : String) : Except Failure Nat :=
  match thresholds.lookup (upper name) with
  | some n => .ok n
  | none =>
      if upper name = "BASIC_FORMAT" then .error (.notALevel basicFormat)
      else if upper name = "_STYLES" then .error .unsupported
      else .ok Level.info.severity

structure Configuration where
  threshold : Nat
  json : Bool
deriving DecidableEq, Repr

namespace Configuration

def make (level : String := "INFO") (json : Bool := false) : Except Failure Configuration :=
  (Log.threshold level).map (⟨·, json⟩)

def nameOf (v : Value) : Except Failure String :=
  match v.word?, v with
  | some name, _ => .ok name
  | none, .bytes _ => .error .unsupported
  | none, _ => .error .noAttribute

def ofSettings (s : Settings) : Except Failure Configuration := make s.logLevel s.jsonLogs

end Configuration

def Level.ofMethod? (name : String) : Option Level :=
  match name with
  | "debug" => some .debug
  | "info" | "msg" => some .info
  | "warning" | "warn" => some .warning
  | "error" | "exception" => some .error
  | "critical" | "fatal" => some .critical
  | _ => none

def deferringMethods : List String :=
  ["adebug", "ainfo", "amsg", "awarning", "awarn", "aerror", "aexception", "acritical", "afatal"]

/-- A call of a named logger inside a scope that binds `context`. An event may be any value, and
null stands for none. -/
structure Call where
  logger : String
  method : String
  event : Value
  context : Dict
  fields : Dict

structure Line where
  level : String
  logger : String
  message : Option (Entries Tree)

mutual

-- What JSON text has no form for is the value's display.
def plain : Tree → Tree
  | .kind k => .str k.name
  | .tuple items => .list (plainItems items)
  | .list items => .list (plainItems items)
  | .dict entries => .dict (plainEntries entries)
  | .keyed key output => .list [plain key, plain output]
  | .bytes bs => .str (Tree.bytes bs).inner
  | .model name fields => .str (Tree.model name fields).inner
  | t => t

def plainItems : List Tree → List Tree
  | [] => []
  | t :: ts => plain t :: plainItems ts

def plainEntries : List (String × Tree) → List (String × Tree)
  | [] => []
  | (k, t) :: es => (k, plain t) :: plainEntries es

end

def fieldForm (v : Value) : Tree :=
  match v with
  | .bytes bs => .str (Text.decodeMarked bs)
  | v => plain v.tree

def rootName : String := "root"

-- Whether an event without places for arguments bears them: it is not to be given text or a fixed
-- number of them, unless the only one is a mapping.
def bearsArguments : Value → Bool
  | .tuple [.dict (_ :: _)] => true
  | .list _ | .bytes _ | .dict _ => true
  | _ => false

def takeArguments (es : Dict) : Except Failure Dict :=
  let name := "positional_args"
  match Entries.find? es name with
  | none | some .null => .ok es
  | some (.dict [_]) => .error (.missingKey (.int 0))
  | some v =>
      if !v.isPresent || bearsArguments v then .ok (Entries.erase es name) else .error .unsupported

-- Fields that say what else to put on the line; the line itself does not show them.
def hiddenNames : List String := ["timestamp", "exc_info", "stack_info"]

namespace Call

def loggerName (c : Call) : String := if c.logger.isEmpty then rootName else c.logger

def aside (c : Call) : Except Failure Unit :=
  if deferringMethods.contains c.method then
    if c.fields.any fun e => ["self", "event"].contains e.1 then .error .unsupported else .ok ()
  else if ["log", "alog", "bind", "new", "get_effective_level"].contains c.method then
    .error .unsupported
  else if ["try_unbind", "unbind", "is_enabled_for"].contains c.method && !c.fields.isEmpty then
    .error .unsupported
  else if c.method = "try_unbind" then .ok ()
  else if c.method = "unbind" then
    match c.event.unhashable? with
    | some type => .error (.unhashable type)
    | none => .error (.missingKey c.event)
  else if c.method = "is_enabled_for" then
    if c.event.tree.number?.isSome then .ok () else .error .unsupported
  else .error .noAttribute

def level? (c : Call) : Except Failure (Option Level) :=
  if !Context.canBind c.context then .error .unsupported
  else
    match Level.ofMethod? c.method with
    | some level => if hasReserved c.fields then .error .unsupported else .ok (some level)
    | none => c.aside.map fun _ => none

def carried (c : Call) (level : Level) : Dict :=
  -- The names of the record itself win.
  let given := Entries.merge c.context c.fields
  let given := if c.event.isNull then given else Entries.insert given "event" c.event
  Entries.merge given [("logger", .str c.loggerName), ("level", .str level.name)]

def message (c : Call) (level : Level) : Except Failure (Entries Tree) := do
  let es ← takeArguments (c.carried level)
  return Entries.mapValues fieldForm (es.filter fun e => !hiddenNames.contains e.1)

def line? (c : Call) (output : Configuration) : Except Failure (Option Line) := do
  match ← c.level? with
  | none => return none
  | some level =>
      if level.severity < output.threshold then return none
      let message ← c.message level
      return some ⟨level.title, c.loggerName, if output.json then some message else none⟩

end Call

def lines (output : Configuration) (calls : List Call) : Except Failure (List Line) := do
  let found ← calls.mapM fun c => Call.line? c output
  return found.filterMap id

end ServerUI.Log
