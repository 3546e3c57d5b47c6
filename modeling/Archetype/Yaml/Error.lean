import Archetype.Calendar

namespace Archetype

inductive ReadingError
  | calendar (error : CalendarError)
  | notInteger (base : Nat) (text : String)
  | notNumber (text : String)
  | tooManyDigits (count : Nat)
  | noNumeral
  | notTruth (text : String)
  | notMoment
  | noCharacter
deriving DecidableEq, Repr

def ReadingError.message : ReadingError → String
  | calendar error => error.message
  | notInteger base text =>
    "invalid literal for int() with base " ++ toString base ++ ": " ++ Text.quoted text
  | notNumber text => "could not convert string to float: " ++ Text.quoted text
  | tooManyDigits count =>
    "Exceeds the limit (4300 digits) for integer string conversion: value has " ++ toString count ++
      " digits; use sys.set_int_max_str_digits() to increase the limit"
  | noNumeral => "string index out of range"
  | notTruth text => Text.quoted text
  | notMoment => "'NoneType' object has no attribute 'groupdict'"
  | noCharacter => "chr() arg not in range(0x110000)"

inductive Yaml.Error
  | malformed
  | reading (error : ReadingError)
deriving DecidableEq, Repr

end Archetype
