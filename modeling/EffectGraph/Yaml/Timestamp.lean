import EffectGraph.Number.Reading
import EffectGraph.Yaml.Cursor

/-!
# Time stamps

A time stamp is a day, `2001-12-14`, or a day and a time, `2001-12-14
21:59:43.10 -5:00`: the time may have a fraction of a second, and may say how
far its clock is ahead of Greenwich.
-/

namespace EffectGraph.Yaml

/-- The time of a stamp: hour, minute and second, the digits of a fraction, and
how many seconds the clock is ahead. -/
structure StampTime where
  hour : Nat
  minute : Nat
  second : Nat
  fraction : List Char
  ahead : Option Int

/-- A stamp. Its day is wide when month and day have two digits each. -/
structure Stamp where
  date : Date
  wide : Bool
  time : Option StampTime

namespace Stamp

/-- Takes as many digits as there are, which must be from `least` to `most`. -/
def digits (least most : Nat) (cs : List Char) : Option (List Char × List Char) :=
  let ds := cs.takeWhile Char.isDigit
  if least ≤ ds.length && ds.length ≤ most then some (ds, cs.drop ds.length) else none

/-- Takes a given character. -/
def mark (c : Char) : List Char → Option (List Char)
  | x :: cs => if x = c then some cs else none
  | [] => none

/-- Drops blanks and tabs. -/
def skipBlanks (cs : List Char) : List Char := cs.dropWhile fun c => c == ' ' || c == '\t'

/-- Reads to the end how far a clock is ahead, if anything is left. -/
def ahead? (cs : List Char) : Option (Option Int) :=
  if cs.isEmpty then some none
  else
    match skipBlanks cs with
    | ['Z'] => some (some 0)
    | sign :: cs => do
      if sign != '+' && sign != '-' then failure
      let (hours, cs) ← digits 1 2 cs
      let minutes ←
        if cs.isEmpty then pure []
        else do
          let (minutes, cs) ← digits 2 2 (← mark ':' cs)
          if cs.isEmpty then pure minutes else failure
      let seconds := Reading.digitsValue hours * 3600 + Reading.digitsValue minutes * 60
      return some (Binary64.signed (sign == '-') seconds)
    | [] => none

/-- Reads a time to the end. -/
def time? (cs : List Char) : Option StampTime := do
  let (hour, cs) ← digits 1 2 cs
  let (minute, cs) ← digits 2 2 (← mark ':' cs)
  let (second, cs) ← digits 2 2 (← mark ':' cs)
  let (fraction, cs) := match cs with
    | '.' :: cs => (cs.takeWhile Char.isDigit, cs.dropWhile Char.isDigit)
    | cs => ([], cs)
  return ⟨Reading.digitsValue hour, Reading.digitsValue minute, Reading.digitsValue second,
    fraction, ← ahead? cs⟩

/-- What separates a day from a time is dropped. -/
def separator? : List Char → Option (List Char)
  | c :: cs =>
    if c == 'T' || c == 't' then some cs
    else if c == ' ' || c == '\t' then some (skipBlanks cs)
    else none
  | [] => none

/-- Reads a stamp. -/
def read? (cs : List Char) : Option Stamp := do
  let (year, cs) ← digits 4 4 cs
  let (month, cs) ← digits 1 2 (← mark '-' cs)
  let (day, cs) ← digits 1 2 (← mark '-' cs)
  let date : Date :=
    ⟨Reading.digitsValue year, Reading.digitsValue month, Reading.digitsValue day⟩
  let wide := month.length == 2 && day.length == 2
  if cs.isEmpty then return ⟨date, wide, none⟩
  else return ⟨date, wide, some (← time? (← separator? cs))⟩

/-- The microseconds that the digits of a fraction stand for; further digits
are dropped. -/
def micros (fraction : List Char) : Nat :=
  let ds := fraction.take 6
  Reading.digitsValue ds * Nat.pow 10 (6 - ds.length)

/-- The day or the moment of a stamp, which must exist. -/
def toData (s : Stamp) : Except Fault Data :=
  match s.time with
  | none => if s.date.isValid then .ok (.date s.date) else .error .badScalar
  | some t =>
    let m : Moment := ⟨s.date, t.hour, t.minute, t.second, micros t.fraction, t.ahead⟩
    if m.isValid then .ok (.moment m) else .error .badScalar

end Stamp

end EffectGraph.Yaml
