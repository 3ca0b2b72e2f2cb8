/-!
What validation finds wrong with a value: a fault is a broken rule and the path to the part
that breaks it.
-/

set_option autoImplicit false

namespace ServerUI

inductive PathStep where
  | name (s : String)
  | index (n : Nat)
deriving DecidableEq, Repr

inductive ActionRule where
  | mapping (found : String)
  | list
  | mappingOfProps
deriving DecidableEq, Repr

namespace ActionRule

def message : ActionRule → String
  | mapping found => "Action must be a mapping, got " ++ found
  | list => "actions must be a list"
  | mappingOfProps => "actions must be a mapping of prop name to action"

end ActionRule

inductive Rule where
  | missing
  | text
  | textBytes
  | textLength
  | integer
  | integerText
  | integerSize
  | integerFraction
  | finite
  | positive
  | number
  | numberText
  | truth
  | truthText
  | mapping
  | list
  | literal
  | model
  | nesting
  | tagMissing
  | tagUnknown
  | frozen
  | action (rule : ActionRule)
deriving DecidableEq, Repr

namespace Rule

def code : Rule → String
  | missing => "missing"
  | text => "string_type"
  | textBytes => "string_unicode"
  | textLength => "string_too_short"
  | integer => "int_type"
  | integerText => "int_parsing"
  | integerSize => "int_parsing_size"
  | integerFraction => "int_from_float"
  | finite => "finite_number"
  | positive => "greater_than"
  | number => "float_type"
  | numberText => "float_parsing"
  | truth => "bool_type"
  | truthText => "bool_parsing"
  | mapping => "dict_type"
  | list => "list_type"
  | literal => "literal_error"
  | model => "model_type"
  | nesting => "recursion_depth_exceeded"
  | tagMissing => "union_tag_not_found"
  | tagUnknown => "union_tag_invalid"
  | frozen => "frozen_instance"
  | action _ => "value_error"

def message? : Rule → Option String
  | action rule => some ("Value error, " ++ rule.message)
  | _ => none

end Rule

structure Fault where
  path : List PathStep
  rule : Rule
deriving DecidableEq, Repr

namespace Fault

def under (step : PathStep) (f : Fault) : Fault := { f with path := step :: f.path }

end Fault

end ServerUI
