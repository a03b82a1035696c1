/-!
# Instants

Moments on the common time line, with nanoseconds. They are read from and written in
calendar form; the Gregorian calendar is used for all years. Any minute may end in a leap
second, which is read and written as its second 60.
-/

namespace CodeIndex

/-- A moment in universal time. -/
structure Instant where
  /-- Whole seconds since the start of 1970, leap seconds not counted. -/
  seconds : Int
  /-- Nanoseconds in the second. A leap second has no number of its own: its nanoseconds go
  on from those of the second before it. -/
  nanos : Nat
  deriving Repr, DecidableEq, Inhabited

namespace Instant

def perSecond : Nat := 1000000000

/-- The instant lies in a leap second. -/
def isLeap (t : Instant) : Bool :=
  perSecond ≤ t.nanos

/-- The instant comes before another; a leap second comes between the seconds around it. -/
def isBefore (a b : Instant) : Bool :=
  a.seconds < b.seconds || (a.seconds == b.seconds && a.nanos < b.nanos)

/-- The instant on a clock that knows no leap seconds and shows the next second instead. -/
def withoutLeap (t : Instant) : Instant :=
  ⟨t.seconds + t.nanos / perSecond, t.nanos % perSecond⟩

/-- Days since the start of 1970 of a calendar day. The year starts in March, so that a
leap day comes last. -/
def daysOfDate (year : Int) (month day : Nat) : Int :=
  let y : Int := if month ≤ 2 then year - 1 else year
  let era := y.fdiv 400
  let yearOfEra := y - era * 400
  let m : Int := if 2 < month then month - 3 else month + 9
  let dayOfYear := (153 * m + 2).fdiv 5 + day - 1
  let dayOfEra := yearOfEra * 365 + yearOfEra.fdiv 4 - yearOfEra.fdiv 100 + dayOfYear
  era * 146097 + dayOfEra - 719468

/-- The calendar day of a number of days since the start of 1970. -/
def dateOfDays (days : Int) : Int × Nat × Nat :=
  let z := days + 719468
  let era := z.fdiv 146097
  let dayOfEra := z - era * 146097
  let yearOfEra :=
    (dayOfEra - dayOfEra.fdiv 1460 + dayOfEra.fdiv 36524 - dayOfEra.fdiv 146096).fdiv 365
  let dayOfYear := dayOfEra - (365 * yearOfEra + yearOfEra.fdiv 4 - yearOfEra.fdiv 100)
  let m := (5 * dayOfYear + 2).fdiv 153
  let day := dayOfYear - (153 * m + 2).fdiv 5 + 1
  let month := if m < 10 then m + 3 else m - 9
  let year := yearOfEra + era * 400 + (if month ≤ 2 then 1 else 0)
  (year, month.toNat, day.toNat)

def daysInMonth (year : Int) (month : Nat) : Nat :=
  match month with
  | 2 =>
    if year.fmod 4 == 0 && (year.fmod 100 != 0 || year.fmod 400 == 0) then 29 else 28
  | 4 | 6 | 9 | 11 => 30
  | _ => 31

/-- A number in exactly `width` decimal digits, and what follows. -/
def readDigits (width : Nat) (cs : List Char) : Option (Nat × List Char) :=
  let ds := cs.take width
  if ds.length == width && ds.all Char.isDigit then
    some (ds.foldl (fun n c => n * 10 + (c.toNat - 48)) 0, cs.drop width)
  else none

def readChar (p : Char → Bool) : List Char → Option (List Char)
  | c :: cs => if p c then some cs else none
  | [] => none

/-- A fraction of a second as nanoseconds; digits past the ninth are skipped. -/
def readFraction (cs : List Char) : Option (Nat × List Char) :=
  match cs with
  | '.' :: cs =>
    let ds := cs.takeWhile Char.isDigit
    if ds.isEmpty then none
    else
      let nine := (ds ++ List.replicate 9 '0').take 9
      some (nine.foldl (fun n c => n * 10 + (c.toNat - 48)) 0, cs.dropWhile Char.isDigit)
  | cs => some (0, cs)

/-- Hours and minutes with a colon between them as minutes, and what follows. -/
def readHours (cs : List Char) : Option (Nat × List Char) := do
  let (h, cs) ← readDigits 2 cs
  let cs ← readChar (· == ':') cs
  let (m, cs) ← readDigits 2 cs
  if h < 24 && m < 60 then some (h * 60 + m, cs) else none

/-- An offset from universal time in minutes, and what follows. -/
def readOffset : List Char → Option (Int × List Char)
  | 'Z' :: cs | 'z' :: cs => some (0, cs)
  | '+' :: cs => (readHours cs).map fun (m, cs) => ((m : Int), cs)
  | '-' :: cs | '\u2212' :: cs => (readHours cs).map fun (m, cs) => (-(m : Int), cs)
  | _ => none

/-- Reads a date, a time and an offset, as in `2001-09-09T01:46:40.5+02:00`. -/
def read? (s : String) : Option Instant := do
  let (year, cs) ← readDigits 4 s.toList
  let cs ← readChar (· == '-') cs
  let (month, cs) ← readDigits 2 cs
  let cs ← readChar (· == '-') cs
  let (day, cs) ← readDigits 2 cs
  let cs ← readChar (fun c => c == 'T' || c == 't' || c == ' ') cs
  let (hour, cs) ← readDigits 2 cs
  let cs ← readChar (· == ':') cs
  let (minute, cs) ← readDigits 2 cs
  let cs ← readChar (· == ':') cs
  let (second, cs) ← readDigits 2 cs
  let (fraction, cs) ← readFraction cs
  let (offset, cs) ← readOffset cs
  if !cs.isEmpty || month == 0 || 12 < month || day == 0 || daysInMonth year month < day
      || 23 < hour || 59 < minute || 60 < second then none
  let minutes := daysOfDate year month day * 1440 + hour * 60 + minute - offset
  let (second, start) := if second == 60 then (59, perSecond) else (second, 0)
  return ⟨minutes * 60 + second, start + fraction⟩

/-- A number in at least `width` decimal digits. -/
def padded (width n : Nat) : String :=
  let ds := Nat.toDigits 10 n
  String.ofList (List.replicate (width - ds.length) '0' ++ ds)

/-- The fraction of a second in three, six or nine digits, or nothing when it is zero. -/
def fractionText (nanos : Nat) : String :=
  if nanos == 0 then ""
  else if nanos % 1000000 == 0 then "." ++ padded 3 (nanos / 1000000)
  else if nanos % 1000 == 0 then "." ++ padded 6 (nanos / 1000)
  else "." ++ padded 9 nanos

/-- The instant in universal time, as in `2001-09-09T01:46:40Z`. -/
def text (t : Instant) : String :=
  let days := t.seconds.fdiv 86400
  let rest := (t.seconds.fmod 86400).toNat
  let (year, month, day) := dateOfDays days
  let yearText :=
    if 0 ≤ year && year ≤ 9999 then padded 4 year.toNat
    else (if year < 0 then "-" else "+") ++ padded 4 year.natAbs
  yearText ++ "-" ++ padded 2 month ++ "-" ++ padded 2 day ++ "T"
    ++ padded 2 (rest / 3600) ++ ":" ++ padded 2 (rest / 60 % 60) ++ ":"
    ++ padded 2 (rest % 60 + t.nanos / perSecond) ++ fractionText (t.nanos % perSecond) ++ "Z"

def secondOfDay (t : Instant) : Int :=
  t.seconds.fmod 86400

/-- The leap seconds that lie between the two instants by the time of day alone: the one in
which the earlier time of day lies. -/
def leapBetween (t earlier : Instant) : Int :=
  if earlier.secondOfDay < t.secondOfDay then (if earlier.isLeap then 1 else 0)
  else if t.secondOfDay < earlier.secondOfDay then (if t.isLeap then -1 else 0)
  else 0

/-- The time from `earlier` to `t` in nanoseconds. Only leap seconds in which one of the two
lies are counted. -/
def nanosSince (t earlier : Instant) : Int :=
  (t.seconds - earlier.seconds + leapBetween t earlier) * perSecond + (t.nanos - earlier.nanos)

/-- The time from `earlier` to `t` in whole milliseconds, cut toward zero. -/
def millisSince (t earlier : Instant) : Int :=
  (t.nanosSince earlier).tdiv 1000000

def minusMillis (t : Instant) (ms : Int) : Instant :=
  let seconds := (-ms).tdiv 1000
  let nanos := (-ms).tmod 1000 * 1000000
  let total := (t.nanos : Int) + nanos
  if t.isLeap && seconds == 0 && total < 2 * perSecond then ⟨t.seconds, total.toNat⟩
  else
    let isPast := seconds < 0
    let total := if t.isLeap && !isPast then total - perSecond else total
    ⟨t.seconds + seconds + total.fdiv perSecond, (total.fmod perSecond).toNat⟩

end Instant

end CodeIndex
