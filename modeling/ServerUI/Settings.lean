import ServerUI.Payload
import ServerUI.Validation.Scalar

/-!
Settings of the engine. Each comes from an argument of its name, else from the environment
variable of its name after the prefix `SDUI_`, else it has a default. Names of both kinds are
read without regard to case.
-/

set_option autoImplicit false

namespace ServerUI

structure Settings where
  logLevel : String := "INFO"
  jsonLogs : Bool := false
  actionPropPrefix : String := "on"
  maxPayloadSize : Int := 512 * 1024
  maxPayloadDepth : Int := 40
  enableMetrics : Bool := true
deriving DecidableEq, Repr

namespace Settings

def lower (s : String) : String := String.ofList (s.toList.map Char.toLower)

def lookup {α : Type} (name : String) (es : Entries α) : Option α :=
  -- The last entry with the name counts, in any case.
  (es.reverse.find? fun e => lower e.1 = name).map (·.2)

def source (environment : Entries String) (arguments : Dict) (name : String) : Option Value :=
  (lookup name arguments).or ((lookup ("sdui_" ++ name) environment).map .str)

def nonempty (v : Value) : Checked String :=
  match Validate.text v with
  | .ok s => if s.isEmpty then .fault .textLength else .ok s
  | failed => failed

def positive (v : Value) : Checked Int :=
  match Validate.whole v with
  | .ok i => if 0 < i then .ok i else .fault .positive
  | failed => failed

def read {α : Type} (find? : String → Option Value) (name : String) (default : α)
    (check : Value → Checked α) : Checked α :=
  match find? name with
  | none => .ok default
  | some v => (check v).under (.name name)

def load (environment : Entries String) (arguments : Dict) : Checked Settings :=
  let find? := source environment arguments
  let d : Settings := {}
  Settings.mk <$> read find? "log_level" d.logLevel Validate.text <*>
    read find? "json_logs" d.jsonLogs Validate.truth <*>
    read find? "action_prop_prefix" d.actionPropPrefix nonempty <*>
    read find? "max_payload_size" d.maxPayloadSize positive <*>
    read find? "max_payload_depth" d.maxPayloadDepth positive <*>
    read find? "enable_metrics" d.enableMetrics Validate.truth

def limits (s : Settings) : Limits := ⟨s.maxPayloadSize, s.maxPayloadDepth⟩

def fields (s : Settings) : Dict :=
  [("log_level", .str s.logLevel), ("json_logs", .bool s.jsonLogs),
    ("action_prop_prefix", .str s.actionPropPrefix), ("max_payload_size", .int s.maxPayloadSize),
    ("max_payload_depth", .int s.maxPayloadDepth), ("enable_metrics", .bool s.enableMetrics)]

end Settings

end ServerUI
