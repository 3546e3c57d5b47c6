import Archetype.Text.Order
import Archetype.Text.Quoted

namespace Archetype

inductive Step
  | name (text : String)
  | number (position : Int)
deriving DecidableEq, Repr

def Step.toText : Step → String
  | name text => text
  | number position => toString position

inductive Flaw
  | notText
  | notUtf8
  | missing
  | unknownEntry
  | notRecord
  | notList
  | notMap
  | notPair
  | tooLong
  | unknownFlag
  | nameNotText
  | rule (text : String)
deriving DecidableEq, Repr

def Flaw.name : Flaw → String
  | notText => "string_type"
  | notUtf8 => "string_unicode"
  | missing => "missing"
  | unknownEntry => "extra_forbidden"
  | notRecord => "model_type"
  | notList => "list_type"
  | notMap => "dict_type"
  | notPair => "tuple_type"
  | tooLong => "too_long"
  | unknownFlag => "literal_error"
  | nameNotText => "invalid_key"
  | rule _ => "value_error"

structure Violation where
  steps : List Step
  flaw : Flaw
deriving DecidableEq, Repr

namespace Violation

def under (step : Step) (violation : Violation) : Violation :=
  { violation with steps := step :: violation.steps }

def order (violation : Violation) : List String :=
  [".".intercalate (violation.steps.map Step.toText), violation.flaw.name]

def report (violations : List Violation) : List Violation :=
  (violations.eraseDups).mergeSort fun first second =>
    Text.rowPrecedes first.order second.order

end Violation

end Archetype
