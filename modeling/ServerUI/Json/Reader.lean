import ServerUI.Json.Token
import ServerUI.Value

/-!
Reading a JSON document: a machine with a stack of open containers runs over the tokens. Of
two members of one object with the same name the last gives the value and the first the place.
-/

set_option autoImplicit false

namespace ServerUI.Json

/-- A container that is open: the items of an array, last first, or the members of an object
and the name of the member whose value comes next. -/
inductive Frame where
  | array (items : List Value)
  | object (entries : Dict) (key : String)

inductive Expect where
  | value
  | itemOrClose
  | keyOrClose
  | key
  | colon
  | separator
  | nothing (v : Value)

structure Machine where
  expect : Expect
  stack : List Frame

def maxNesting : Nat := 1024

namespace Machine

def start : Machine := ⟨.value, []⟩

def deliver (v : Value) : List Frame → Machine
  | [] => ⟨.nothing v, []⟩
  | .array items :: stack => ⟨.separator, .array (v :: items) :: stack⟩
  | .object entries key :: stack => ⟨.separator, .object (entries.insert key v) key :: stack⟩

def openFrame (expect : Expect) (frame : Frame) (stack : List Frame) : Option Machine :=
  if stack.length < maxNesting then some ⟨expect, frame :: stack⟩ else none

def begin (t : Token) (stack : List Frame) : Option Machine :=
  match t with
  | .null => some (deliver .null stack)
  | .bool b => some (deliver (.bool b) stack)
  | .int i => some (deliver (.int i) stack)
  | .float x => some (deliver (.float x) stack)
  | .str s => some (deliver (.str s) stack)
  | .arrayOpen => openFrame .itemOrClose (.array []) stack
  | .objectOpen => openFrame .keyOrClose (.object [] "") stack
  | _ => none

def close (t : Token) (stack : List Frame) : Option Machine :=
  match t, stack with
  | .arrayClose, .array items :: stack => some (deliver (.list items.reverse) stack)
  | .objectClose, .object entries _ :: stack => some (deliver (.dict entries) stack)
  | _, _ => none

def name (t : Token) (stack : List Frame) : Option Machine :=
  -- The name of a member; the open object keeps it.
  match t, stack with
  | .str s, .object entries _ :: stack => some ⟨.colon, .object entries s :: stack⟩
  | _, _ => none

def step (m : Machine) (t : Token) : Option Machine :=
  match m.expect with
  | .value => begin t m.stack
  | .itemOrClose => if t = .arrayClose then close t m.stack else begin t m.stack
  | .keyOrClose => if t = .objectClose then close t m.stack else name t m.stack
  | .key => name t m.stack
  | .colon => if t = .colon then some ⟨.value, m.stack⟩ else none
  | .separator =>
      if t = .comma then
        match m.stack with
        | .array _ :: _ => some ⟨.value, m.stack⟩
        | .object .. :: _ => some ⟨.key, m.stack⟩
        | [] => none
      else close t m.stack
  | .nothing _ => none

def run (m : Machine) : List Token → Option Machine
  | [] => some m
  | t :: ts => (m.step t).bind fun m => m.run ts

def result? (m : Machine) : Option Value :=
  match m.expect with
  | .nothing v => some v
  | _ => none

end Machine

def ofTokens? (ts : List Token) : Option Value :=
  (Machine.start.run ts).bind Machine.result?

def ofText? (s : String) : Option Value := (tokens? s.toList).bind ofTokens?

end ServerUI.Json

namespace ServerUI

inductive Document where
  | text (s : String)
  | bytes (bs : ByteArray)

namespace Document

def text? : Document → Option String
  | text s => some s
  | bytes bs => String.fromUTF8? bs

def value? (d : Document) : Option Value := d.text?.bind Json.ofText?

end Document

end ServerUI
