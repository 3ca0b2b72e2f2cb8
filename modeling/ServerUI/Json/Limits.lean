import ServerUI.Json.Reader
import ServerUI.Text.Footprint
import ServerUI.Value.Shape

set_option autoImplicit false

namespace ServerUI

inductive DocumentError where
  | malformed
  | notAnObject (found : String)
  | tooLarge (name : String) (size limit : Int)
  | tooDeep (depth limit : Int)
deriving DecidableEq, Repr

namespace DocumentError

def message : DocumentError → String
  | malformed => "Invalid JSON"
  | notAnObject found => "Expected object, got " ++ found
  | tooLarge name size limit =>
      name ++ " size " ++ toString size ++ " bytes exceeds maximum " ++ toString limit ++ " bytes"
  | tooDeep depth limit =>
      "JSON nesting depth " ++ toString depth ++ " exceeds maximum " ++ toString limit

end DocumentError

namespace Document

-- Bytes are measured by their number, text by the memory that it takes.
def size : Document → Nat
  | text s => Text.footprint s
  | bytes bs => bs.size

def checkSize (d : Document) (limit : Int) (name : String) : Except DocumentError Unit :=
  if limit < d.size then .error (.tooLarge name d.size limit) else .ok ()

def parse (d : Document) : Except DocumentError Value :=
  match d.value? with
  | some v => .ok v
  | none => .error .malformed

def parseObject (d : Document) : Except DocumentError Dict :=
  match d.parse with
  | .error e => .error e
  | .ok (.dict es) => .ok es
  | .ok v => .error (.notAnObject v.typeName)

end Document

namespace Value

mutual

def checkDepth (limit depth : Int) (v : Value) : Except DocumentError Unit :=
  if limit < depth then .error (.tooDeep depth limit)
  else
    match v with
    | .dict entries => checkDepthOfEntries limit (depth + 1) entries
    | .list items => checkDepthOfItems limit (depth + 1) items
    | _ => .ok ()

def checkDepthOfItems (limit depth : Int) : List Value → Except DocumentError Unit
  | [] => .ok ()
  | v :: vs =>
      match checkDepth limit depth v with
      | .error e => .error e
      | .ok () => checkDepthOfItems limit depth vs

def checkDepthOfEntries (limit depth : Int) : List (String × Value) → Except DocumentError Unit
  | [] => .ok ()
  | (_, v) :: es =>
      match checkDepth limit depth v with
      | .error e => .error e
      | .ok () => checkDepthOfEntries limit depth es

end

end Value

end ServerUI
