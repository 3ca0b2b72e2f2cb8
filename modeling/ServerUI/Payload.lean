import ServerUI.Descriptor.Validation
import ServerUI.Failure
import ServerUI.Log.Record

/-!
Loading payloads: documents of limited size and nesting that hold one node, section or screen.
The checks run in a fixed order and the first that fails decides.
-/

set_option autoImplicit false

namespace ServerUI

structure Limits where
  maxSize : Int := 512 * 1024
  maxDepth : Int := 40
deriving DecidableEq, Repr

namespace Limits

def checkRaw (l : Limits) (d : Document) (name : String) : Except Failure Unit :=
  (d.checkSize l.maxSize name).mapError fun e => .payload (.document e)

def listMembers : List String := ["components", "sections", "children"]

def isListOrNull : Option Value → Bool
  | none => true
  | some .null => true
  | some (.list _) => true
  | _ => false

def checkMembers (required : List String) (es : Dict) : Except Failure Unit :=
  match required.find? fun name => !es.contains name with
  | some name => .error (.payload (.missingField name))
  | none =>
      match listMembers.find? fun name => !isListOrNull (es.find? name) with
      | some name => .error (.payload (.notAList name))
      | none => .ok ()

def checkDecoded (l : Limits) (v : Value) (required : List String) : Except Failure Unit :=
  match v.checkDepth l.maxDepth 0 with
  | .error e => .error (.payload (.document e))
  | .ok () =>
      match v with
      | .dict es => checkMembers required es
      | v => .error (.payload (.notAnObject v.typeName))

end Limits

structure PayloadKind (α : Type) where
  model : String
  required : List String
  validate : Value → Checked α

namespace PayloadKind

def component : PayloadKind Node := ⟨"ComponentDescriptor", ["type"], Node.ofValue⟩

def sectionOfComponents : PayloadKind Section :=
  ⟨"SectionDescriptor", ["id", "components"], Section.ofValue⟩

def screen : PayloadKind Screen := ⟨"ScreenDescriptor", ["id", "sections"], Screen.ofValue⟩

variable {α : Type}

def ofDecoded (k : PayloadKind α) (v : Value) : Except Failure α × List Log.Record :=
  match k.validate v with
  | .ok a => (.ok a, [])
  | .unhashable t => (.error (.unhashable t), [])
  | .faults fs =>
      (.error (.payload (.schema k.model fs)),
        [⟨.error, "payload_invalid", [("model", .str k.model), ("errors", .int fs.length)]⟩])

def load (k : PayloadKind α) (l : Limits) (d : Document) : Except Failure α × List Log.Record :=
  match l.checkRaw d k.model with
  | .error e => (.error e, [])
  | .ok () =>
      match d.parse with
      | .error e =>
          (.error (.payload (.document e)),
            [⟨.error, "json_parse_failed", [("model", .str k.model), ("error", .str e.message)]⟩])
      | .ok v =>
          match l.checkDecoded v k.required with
          | .error e => (.error e, [])
          | .ok () => k.ofDecoded v

end PayloadKind

namespace Payload

def parseComponent (l : Limits) (d : Document) : Except Failure Node × List Log.Record :=
  PayloadKind.component.load l d

def parseSection (l : Limits) (d : Document) : Except Failure Section × List Log.Record :=
  PayloadKind.sectionOfComponents.load l d

def parseScreen (l : Limits) (d : Document) : Except Failure Screen × List Log.Record :=
  match PayloadKind.screen.load l d with
  | (.ok s, logs) =>
      (.ok s, logs ++ [⟨.debug, "screen_parsed",
        [("screen_id", .str s.id), ("sections", .int s.sections.length)]⟩])
  | failed => failed

structure Refusal where
  message : String
  field : Option String := none
  value : Option Value := none

def recover {α : Type} : Except Failure α → Except Failure (Except Refusal α)
  | .ok a => .ok (.ok a)
  | .error (.payload e) => .ok (.error { message := e.message })
  | .error e => .error e

def loadScreen (l : Limits) (d : Document) :
    Except Failure (Except Refusal Screen) × List Log.Record :=
  let (result, logs) := parseScreen l d
  (recover result, logs)

end Payload

end ServerUI
