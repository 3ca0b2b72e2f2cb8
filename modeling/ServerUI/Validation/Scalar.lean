import ServerUI.Text.Numeral.Real
import ServerUI.Text.Numeral.Whole
import ServerUI.Text.Truth
import ServerUI.Text.Utf8
import ServerUI.Validation.Checked
import ServerUI.Value.Shape

/-!
Validation of single values. Numbers and truth values may also come as text or as a number of
another type that says the same, and bytes stand for the text that they encode.
-/

set_option autoImplicit false

namespace ServerUI.Validate

-- Bytes spell a text too, but may fail to encode any.
def spelled? : Value → Option (Option String)
  | .str s => some s
  | .kind k => some k.name
  | .bytes bs => some (Text.decode? bs)
  | _ => none

def bySpelling {α : Type} (ofText : String → Checked α) (broken : Rule)
    (other : Value → Checked α) (v : Value) : Checked α :=
  match spelled? v with
  | some (some s) => ofText s
  | some none => .fault broken
  | none => other v

def text : Value → Checked String := bySpelling .ok .textBytes fun _ => .fault .text

-- Bound of the whole numbers that fit into a word: one more than the largest.
def word : Nat := Nat.pow 2 63

def wholeOfReal (x : Binary64) : Checked Int :=
  if !x.isFinite then .fault .finite
  else
    match x.toInt? with
    | none => .fault .integerFraction
    | some i => if i.natAbs < word then .ok i else .fault .integerSize

def wholeOfText (s : String) : Checked Int :=
  match Text.readWhole s with
  | .value i => .ok i
  | .tooLong => .fault .integerSize
  | .malformed => .fault .integerText

def whole : Value → Checked Int :=
  bySpelling wholeOfText .integerText fun
    | .int i => .ok i
    | .bool b => .ok (if b then 1 else 0)
    | .float x => wholeOfReal x
    | _ => .fault .integer

def realOfText (s : String) : Checked Binary64 :=
  match Text.readSeparated s with
  | some x => .ok x
  | none => .fault .numberText

def real : Value → Checked Binary64 :=
  bySpelling realOfText .numberText fun
    | .float x => .ok x
    | _ => .fault .number

def number (v : Value) : Checked Number :=
  -- The faults of both readings are kept if neither succeeds.
  match v with
  | .float x => .ok (.real x)
  | v =>
      match whole v, real v with
      | .ok i, _ => .ok (.integer i)
      | _, .ok x => .ok (.real x)
      | i, x =>
          (fun (_ : Int) y => Number.real y) <$> i.under (.name "int") <*> x.under (.name "float")

def key (v : Value) : Checked Key :=
  -- Text stays text; anything else must be a whole number.
  match text v, whole v with
  | .ok s, _ => .ok (.text s)
  | _, .ok i => .ok (.number i)
  | s, i => (fun (_ : String) i => Key.number i) <$> s.under (.name "str") <*> i.under (.name "int")

def truthOfWhole (i : Int) : Checked Bool :=
  if i = 0 then .ok false else if i = 1 then .ok true else .fault .truthText

def truthOfText (s : String) : Checked Bool :=
  match Text.readTruth s with
  | some b => .ok b
  | none => .fault .truthText

def truth : Value → Checked Bool :=
  bySpelling truthOfText .truthText fun
    | .bool b => .ok b
    | .int i => if -(word : Int) ≤ i ∧ i < word then truthOfWhole i else .fault .truth
    | .float x =>
        match wholeOfReal x with
        | .ok i => truthOfWhole i
        | _ => .fault .truth
    | _ => .fault .truth

def mapping : Value → Checked Dict
  | .dict es => .ok es
  | _ => .fault .mapping

theorem mapping_eq_ok {v : Value} {es : Dict} : mapping v = .ok es ↔ v = .dict es := by
  cases v <;> simp [mapping]

def literal {α : Type} (ofName? : String → Option α) (v : Value) : Checked α :=
  -- Bytes spell none of the words.
  match v.word?.bind ofName? with
  | some a => .ok a
  | none => .fault .literal

def any (v : Value) : Checked Value := .ok v

end ServerUI.Validate
