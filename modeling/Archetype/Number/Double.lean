import Archetype.Text.Cases
import Archetype.Text.Digits

namespace Archetype

structure Double where
  bits : UInt64
deriving DecidableEq, Repr

namespace Double

def implicitBit : Nat := 0x10000000000000

def isNegative (number : Double) : Bool :=
  number.bits.toNat ≥ 0x8000000000000000

def exponentField (number : Double) : Nat :=
  number.bits.toNat / implicitBit % 0x800

def fractionField (number : Double) : Nat :=
  number.bits.toNat % implicitBit

def isFinite (number : Double) : Bool :=
  number.exponentField < 2047

def isNaN (number : Double) : Bool :=
  !number.isFinite && number.fractionField != 0

def isZero (number : Double) : Bool :=
  number.exponentField == 0 && number.fractionField == 0

def significand (number : Double) : Nat :=
  if number.exponentField = 0 then number.fractionField else implicitBit + number.fractionField

def exponent (number : Double) : Int :=
  if number.exponentField = 0 then -1074 else number.exponentField - 1075

def toInt? (number : Double) : Option Int :=
  if !number.isFinite then none
  else
    let magnitude? : Option Nat :=
      if 0 ≤ number.exponent then some (number.significand * Nat.pow 2 number.exponent.toNat)
      else
        let divisor := Nat.pow 2 (-number.exponent).toNat
        if number.significand % divisor = 0 then some (number.significand / divisor) else none
    magnitude?.map fun magnitude => if number.isNegative then -(magnitude : Int) else magnitude

def ofFloat (number : Float) : Double :=
  if number.isNaN then ⟨0x7FF8000000000000⟩ else ⟨number.toBits⟩

def toFloat (number : Double) : Float :=
  Float.ofBits number.bits

def nan : Double := ⟨0x7FF8000000000000⟩

def infinity (negative : Bool) : Double :=
  if negative then ⟨0xFFF0000000000000⟩ else ⟨0x7FF0000000000000⟩

def negate (number : Double) : Double :=
  if number.isNaN then number
  else if number.isNegative then ⟨number.bits - 0x8000000000000000⟩
  else ⟨number.bits + 0x8000000000000000⟩

/-- The double nearest to `digits * 10 ^ power`. Beyond the range of doubles it is zero or
infinity, which the number of digits and the power tell. -/
def ofDecimal (digits : Nat) (power : Int) : Double :=
  let size : Int := (Nat.toDigits 10 digits).length + power
  if digits = 0 ∨ size < -400 then ⟨0⟩
  else if size > 400 then infinity false
  else ofFloat (OfScientific.ofScientific digits (power < 0) power.natAbs)

def add (left right : Double) : Double :=
  ofFloat (left.toFloat + right.toFloat)

def mul (left right : Double) : Double :=
  ofFloat (left.toFloat * right.toFloat)

def startsWithDigit : List Char → Bool
  | [] => false
  | character :: _ => (Text.digitOf? character).isSome

/-- The digits at the start, each underscore between two of them left out, and the rest; the flag
tells whether a digit stands in front. -/
def takeDigits (afterDigit : Bool) : List Char → List Nat × List Char
  | [] => ([], [])
  | character :: rest =>
    match Text.digitOf? character with
    | some digit =>
      let (digits, remaining) := takeDigits true rest
      (digit :: digits, remaining)
    | none =>
      if character = '_' && afterDigit && startsWithDigit rest then takeDigits false rest
      else ([], character :: rest)

def numberOf (digits : List Nat) : Nat :=
  digits.foldl (fun total digit => total * 10 + digit) 0

def readPower? : List Char → Option Int
  | [] => some 0
  | mark :: rest =>
    if mark = 'e' ∨ mark = 'E' then
      let (negative, digits) := match rest with
        | '-' :: further => (true, further)
        | '+' :: further => (false, further)
        | _ => (false, rest)
      match takeDigits false digits with
      | (first :: others, []) =>
        let power := numberOf (first :: others)
        some (if negative then -(power : Int) else power)
      | _ => none
    else none

def readUnsigned? (characters : List Char) : Option Double :=
  let name := Text.lower (String.ofList characters)
  if name = "inf" ∨ name = "infinity" then some (infinity false)
  else if name = "nan" then some nan
  else
    let (whole, rest) := takeDigits false characters
    let (fraction, rest) := match rest with
      | '.' :: further => takeDigits false further
      | _ => ([], rest)
    if whole.isEmpty ∧ fraction.isEmpty then none
    else (readPower? rest).map fun power =>
      ofDecimal (numberOf (whole ++ fraction)) (power - fraction.length)

def read? (text : String) : Option Double :=
  match Text.trim Text.isBlank text.toList with
  | '-' :: rest => (readUnsigned? rest).map negate
  | '+' :: rest => readUnsigned? rest
  | characters => readUnsigned? characters

end Double

end Archetype
