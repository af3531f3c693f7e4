import FlatExports.Yaml.Fault

/-!
Dates and times of day.

`parts?` takes a written moment apart, `ofParts` checks the ranges of its
fields, and `shown` writes a moment as a call of its constructor.
-/

namespace FlatExports.Yaml

structure TimeOfDay where
  hour : Nat
  minute : Nat
  second : Nat
  microsecond : Nat
  offset : Option Int
  deriving DecidableEq, Repr

structure Moment where
  year : Nat
  month : Nat
  day : Nat
  time : Option TimeOfDay
  deriving DecidableEq, Repr

namespace Moment

def isDigit (c : Char) : Bool := '0' ≤ c && c ≤ '9'

def numberOf (digits : List Char) : Nat :=
  digits.foldl (fun n c => 10 * n + (c.toNat - '0'.toNat)) 0

/-- Takes between `least` and `most` digits, as many as there are. -/
def takeDigits? (least most : Nat) (text : List Char) : Option (Nat × List Char) :=
  let digits := (text.take most).takeWhile isDigit
  if digits.length < least then none else some (numberOf digits, text.drop digits.length)

def takeChar? (c : Char) : List Char → Option (List Char)
  | [] => none
  | first :: rest => if first = c then some rest else none

def isGap (c : Char) : Bool := c = ' ' || c = '\t'

def takeSeparator? : List Char → Option (List Char)
  | [] => none
  | c :: rest =>
      if c = 'T' ∨ c = 't' then some rest
      else if isGap c then some (rest.dropWhile isGap)
      else none

/-- The fraction of a second in microseconds; further digits are dropped. -/
def takeFraction : List Char → Nat × List Char
  | '.' :: rest =>
      let digits := rest.takeWhile isDigit
      let kept := digits.take 6
      (numberOf kept * Nat.pow 10 (6 - kept.length), rest.drop digits.length)
  | rest => (0, rest)

def offset? (text : List Char) : Option (Option Int) :=
  match text, text.dropWhile isGap with
  | [], _ => some none
  | _, ['Z'] => some (some 0)
  | _, sign :: rest =>
      if sign = '+' ∨ sign = '-' then do
        let (hours, rest) ← takeDigits? 1 2 rest
        let minutes ←
          match rest with
          | [] => some 0
          | _ => do
              let (minutes, rest) ← takeDigits? 2 2 (← takeChar? ':' rest)
              if rest.isEmpty then some minutes else none
        let size : Int := (hours * 3600 + minutes * 60 : Nat)
        return some (if sign = '-' then -size else size)
      else none
  | _, [] => none

def time? (text : List Char) : Option TimeOfDay := do
  let (hour, rest) ← takeDigits? 1 2 text
  let (minute, rest) ← takeDigits? 2 2 (← takeChar? ':' rest)
  let (second, rest) ← takeDigits? 2 2 (← takeChar? ':' rest)
  let (microsecond, rest) := takeFraction rest
  return ⟨hour, minute, second, microsecond, ← offset? rest⟩

def parts? (text : List Char) : Option Moment := do
  let (year, rest) ← takeDigits? 4 4 text
  let (month, rest) ← takeDigits? 1 2 (← takeChar? '-' rest)
  let (day, rest) ← takeDigits? 1 2 (← takeChar? '-' rest)
  match rest with
  | [] => return ⟨year, month, day, none⟩
  | _ => return ⟨year, month, day, some (← time? (← takeSeparator? rest))⟩

/-- Whether a plain scalar is a moment: a date alone has all its digits. -/
def isWritten (text : List Char) : Bool :=
  match parts? text with
  | some moment => moment.time.isSome || text.length = 10
  | none => false

/-! ## Ranges -/

def isLeapYear (year : Nat) : Bool :=
  year % 4 = 0 && (year % 100 ≠ 0 || year % 400 = 0)

def daysIn (year month : Nat) : Nat :=
  if month = 2 then if isLeapYear year then 29 else 28
  else if month = 4 ∨ month = 6 ∨ month = 9 ∨ month = 11 then 30
  else 31

def secondsOfDay : Nat := 86400

def spanShown (seconds : Int) : String :=
  let days := seconds / secondsOfDay
  let rest := seconds % secondsOfDay
  let fields :=
    (if days = 0 then [] else ["days=" ++ toString days]) ++
      (if rest = 0 then [] else ["seconds=" ++ toString rest])
  "datetime.timedelta(" ++
    (if fields.isEmpty then "0" else ", ".intercalate fields) ++ ")"

def checkTime (time : TimeOfDay) : Except ScalarFault Unit :=
  if 23 < time.hour then throw .hour
  else if 59 < time.minute then throw .minute
  else if 59 < time.second then throw .second
  else return ()

def checkOffset (time : TimeOfDay) : Except ScalarFault Unit :=
  match time.offset with
  | some seconds =>
      if secondsOfDay ≤ seconds.natAbs then throw (.offset (spanShown seconds)) else return ()
  | none => return ()

def checkDate (moment : Moment) : Except ScalarFault Unit :=
  if moment.year = 0 then throw (.year 0)
  else if moment.month = 0 ∨ 12 < moment.month then throw .month
  else if moment.day = 0 ∨ daysIn moment.year moment.month < moment.day then throw .day
  else return ()

def read (text : List Char) : Except ScalarFault Moment :=
  match parts? text with
  | none => throw .notMoment
  | some moment => do
      moment.time.forM checkOffset
      moment.checkDate
      moment.time.forM checkTime
      return moment

/-! ## Writing -/

def offsetShown (seconds : Int) : String :=
  if seconds = 0 then "datetime.timezone.utc"
  else "datetime.timezone(" ++ spanShown seconds ++ ")"

def shown (moment : Moment) : String :=
  let date := [moment.year, moment.month, moment.day]
  let call (name : String) (fields : List String) : String :=
    name ++ "(" ++ ", ".intercalate fields ++ ")"
  match moment.time with
  | none => call "datetime.date" (date.map toString)
  | some time =>
      let small :=
        if time.microsecond ≠ 0 then [time.second, time.microsecond]
        else if time.second ≠ 0 then [time.second]
        else []
      let zone :=
        match time.offset with
        | some seconds => ["tzinfo=" ++ offsetShown seconds]
        | none => []
      call "datetime.datetime"
        ((date ++ [time.hour, time.minute] ++ small).map toString ++ zone)

end Moment

end FlatExports.Yaml
