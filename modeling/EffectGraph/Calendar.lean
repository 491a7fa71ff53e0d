/-!
# Days and moments

Days of the Gregorian calendar, and moments of a day, which may say how far
their clock is ahead of Greenwich. Two moments that both say so are the same
when they are the same instant.
-/

namespace EffectGraph

/-- The decimal digits of a number, with zeros before them up to a width. -/
def padded (width n : Nat) : String :=
  let ds := Nat.toDigits 10 n
  String.ofList (List.replicate (width - ds.length) '0' ++ ds)

/-- A calendar day. -/
structure Date where
  year : Nat
  month : Nat
  day : Nat
  deriving DecidableEq, Repr

namespace Date

/-- Whether a year has a day more. -/
def isLeap (year : Nat) : Bool := (year % 4 == 0 && year % 100 != 0) || year % 400 == 0

/-- The number of days of a month. -/
def daysIn (year month : Nat) : Nat :=
  if month == 2 then if isLeap year then 29 else 28
  else if [4, 6, 9, 11].contains month then 30
  else 31

/-- Whether there is such a day; years have at most four digits. -/
def isValid (d : Date) : Bool :=
  1 ≤ d.year && d.year ≤ 9999 && 1 ≤ d.month && d.month ≤ 12 && 1 ≤ d.day
    && d.day ≤ daysIn d.year d.month

/-- The number of days before a year. -/
def daysBeforeYear (year : Nat) : Nat :=
  let y := year - 1
  y * 365 + y / 4 - y / 100 + y / 400

/-- The number of days up to a day. -/
def ordinal (d : Date) : Nat :=
  let months := (List.range (d.month - 1)).map fun m => daysIn d.year (m + 1)
  daysBeforeYear d.year + months.foldl (· + ·) 0 + d.day

/-- A day as year, month and day. -/
def iso (d : Date) : String :=
  padded 4 d.year ++ "-" ++ padded 2 d.month ++ "-" ++ padded 2 d.day

/-- Shows a day. -/
def inspect (d : Date) : String :=
  "datetime.date(" ++ toString d.year ++ ", " ++ toString d.month ++ ", " ++ toString d.day ++ ")"

end Date

/-- A moment of a day. Its clock is so many seconds ahead of Greenwich, if that
is known. -/
structure Moment where
  date : Date
  hour : Nat
  minute : Nat
  second : Nat
  micro : Nat := 0
  ahead : Option Int := none
  deriving DecidableEq, Repr

namespace Moment

/-- The number of seconds of a day. -/
def daySeconds : Nat := 86400

/-- Whether there is such a moment; a clock is less than a day ahead or
behind. -/
def isValid (m : Moment) : Bool :=
  m.date.isValid && m.hour < 24 && m.minute < 60 && m.second < 60 && m.micro < 1000000
    && m.ahead.all fun s => s.natAbs < daySeconds

/-- The microseconds that have passed on the clock of a moment. -/
def clock (m : Moment) : Nat :=
  (m.date.ordinal * daySeconds + m.hour * 3600 + m.minute * 60 + m.second) * 1000000 + m.micro

/-- Whether two moments are the same: the same instant if both say how far
their clocks are ahead, the same on the clock if neither does. -/
def same (m n : Moment) : Bool :=
  match m.ahead, n.ahead with
  | none, none => m.clock == n.clock
  | some a, some b => (m.clock : Int) - a * 1000000 == (n.clock : Int) - b * 1000000
  | _, _ => false

/-- The time of day, with a fraction if there is one. -/
def timeText (m : Moment) : String :=
  padded 2 m.hour ++ ":" ++ padded 2 m.minute ++ ":" ++ padded 2 m.second
    ++ (if m.micro = 0 then "" else "." ++ padded 6 m.micro)

/-- How far a clock is ahead, in hours and minutes. -/
def aheadText (s : Int) : String :=
  (if s < 0 then "-" else "+") ++ padded 2 (s.natAbs / 3600) ++ ":"
    ++ padded 2 (s.natAbs % 3600 / 60)

/-- A moment as day and time. -/
def iso (m : Moment) : String :=
  m.date.iso ++ " " ++ m.timeText ++ (m.ahead.map aheadText).getD ""

/-- Shows how far a clock is ahead: as whole days, if it is behind, and
seconds. -/
def inspectAhead (s : Int) : String :=
  if s = 0 then "datetime.timezone.utc"
  else
    let span :=
      if s < 0 then "days=-1, seconds=" ++ toString (s + daySeconds) else "seconds=" ++ toString s
    "datetime.timezone(datetime.timedelta(" ++ span ++ "))"

/-- Shows a moment; seconds and microseconds that are zero are left out from
the end. -/
def inspect (m : Moment) : String :=
  let small :=
    if m.micro ≠ 0 then [m.second, m.micro] else if m.second ≠ 0 then [m.second] else []
  let parts := [m.date.year, m.date.month, m.date.day, m.hour, m.minute] ++ small
  let zone := match m.ahead with
    | some s => ["tzinfo=" ++ inspectAhead s]
    | none => []
  "datetime.datetime(" ++ String.intercalate ", " (parts.map toString ++ zone) ++ ")"

end Moment

end EffectGraph
