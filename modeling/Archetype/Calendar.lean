import Archetype.Text.Quoted

namespace Archetype

structure Date where
  year : Nat
  month : Nat
  day : Nat
deriving DecidableEq, Repr

structure Moment where
  date : Date
  hour : Nat
  minute : Nat
  second : Nat
  microsecond : Nat
  offset? : Option Int
deriving DecidableEq, Repr

inductive CalendarError
  | year (value : Nat)
  | month
  | day
  | hour
  | minute
  | second
  | offset (minutes : Int)
deriving DecidableEq, Repr

def isLeap (year : Nat) : Bool :=
  (year % 4 == 0 && year % 100 != 0) || year % 400 == 0

def daysIn (year month : Nat) : Nat :=
  if month = 2 then (if isLeap year then 29 else 28)
  else if month = 4 ∨ month = 6 ∨ month = 9 ∨ month = 11 then 30
  else 31

def Date.check (date : Date) : Except CalendarError Date :=
  if date.year = 0 ∨ 9999 < date.year then .error (.year date.year)
  else if date.month = 0 ∨ 12 < date.month then .error .month
  else if date.day = 0 ∨ daysIn date.year date.month < date.day then .error .day
  else .ok date

def Moment.check (moment : Moment) : Except CalendarError Moment := do
  if let some offset := moment.offset? then
    if 24 * 60 ≤ offset.natAbs then throw (.offset offset)
  let _ ← moment.date.check
  if 24 ≤ moment.hour then throw .hour
  if 60 ≤ moment.minute then throw .minute
  if 60 ≤ moment.second then throw .second
  return moment

def Date.toText (date : Date) : String :=
  Text.padded 4 date.year ++ "-" ++ Text.padded 2 date.month ++ "-" ++ Text.padded 2 date.day

def offsetText (offset : Int) : String :=
  (if offset < 0 then "-" else "+") ++ Text.padded 2 (offset.natAbs / 60) ++ ":" ++
    Text.padded 2 (offset.natAbs % 60)

def Moment.toTextWith (separator : String) (moment : Moment) : String :=
  moment.date.toText ++ separator ++ Text.padded 2 moment.hour ++ ":" ++
    Text.padded 2 moment.minute ++ ":" ++ Text.padded 2 moment.second ++
    (if moment.microsecond = 0 then "" else "." ++ Text.padded 6 moment.microsecond) ++
    (moment.offset?.map offsetText).getD ""

def Moment.toSortable (moment : Moment) : String :=
  moment.toTextWith "T"

def Moment.toText (moment : Moment) : String :=
  moment.toTextWith " "

def call (name : String) (arguments : List String) : String :=
  name ++ "(" ++ ", ".intercalate arguments ++ ")"

def Date.toCall (date : Date) : String :=
  call "datetime.date" [toString date.year, toString date.month, toString date.day]

def spanCall (minutes : Int) : String :=
  let days := minutes.fdiv (24 * 60)
  let seconds := minutes.fmod (24 * 60) * 60
  call "datetime.timedelta"
    (if minutes = 0 then ["0"]
      else (if days = 0 then [] else ["days=" ++ toString days]) ++
        (if seconds = 0 then [] else ["seconds=" ++ toString seconds]))

def Moment.toCall (moment : Moment) : String :=
  let small :=
    if moment.microsecond ≠ 0 then [toString moment.second, toString moment.microsecond]
    else if moment.second ≠ 0 then [toString moment.second]
    else []
  let zone := match moment.offset? with
    | none => []
    | some offset =>
      ["tzinfo=" ++ (if offset = 0 then "datetime.timezone.utc"
        else call "datetime.timezone" [spanCall offset])]
  call "datetime.datetime" ([toString moment.date.year, toString moment.date.month,
    toString moment.date.day, toString moment.hour, toString moment.minute] ++ small ++ zone)

def CalendarError.message : CalendarError → String
  | .year value => "year " ++ toString value ++ " is out of range"
  | .month => "month must be in 1..12"
  | .day => "day is out of range for month"
  | .hour => "hour must be in 0..23"
  | .minute => "minute must be in 0..59"
  | .second => "second must be in 0..59"
  | .offset minutes =>
    "offset must be a timedelta strictly between -timedelta(hours=24) and timedelta(hours=24), not "
      ++ spanCall minutes ++ "."

end Archetype
