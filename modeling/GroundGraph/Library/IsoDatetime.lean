import GroundGraph.Library.FixedDigits
import Mathlib.Order.Basic

/-! Datetimes with a UTC offset and their ISO 8601 text: a fraction is written only when it
is not zero, and so are the seconds of the offset.
-/

set_option autoImplicit false

namespace IsoDatetime

/-- A time of day or an offset, up to microseconds. -/
structure Clock where
  hour : Nat
  minute : Nat
  second : Nat
  microsecond : Nat
  hour_lt : hour < 24
  minute_lt : minute < 60
  second_lt : second < 60
  microsecond_lt : microsecond < 1000000
  deriving DecidableEq

def Clock.zero : Clock :=
  ⟨0, 0, 0, 0, Nat.succ_pos _, Nat.succ_pos _, Nat.succ_pos _, Nat.succ_pos _⟩

def Clock.microseconds (c : Clock) : Nat :=
  ((c.hour * 60 + c.minute) * 60 + c.second) * 1000000 + c.microsecond

def daysInMonth (year month : Nat) : Nat :=
  if month = 2 then
    if year % 4 = 0 ∧ (year % 100 ≠ 0 ∨ year % 400 = 0) then 29 else 28
  else if month = 4 ∨ month = 6 ∨ month = 9 ∨ month = 11 then 30
  else 31

structure Date where
  year : Nat
  month : Nat
  day : Nat
  year_pos : 0 < year
  year_lt : year < 10000
  month_pos : 0 < month
  month_le : month ≤ 12
  day_pos : 0 < day
  day_le : day ≤ daysInMonth year month
  deriving DecidableEq

structure Datetime where
  date : Date
  time : Clock
  /-- Whether the offset is west of Greenwich. -/
  west : Bool
  offset : Clock
  deriving DecidableEq

theorem epoch_year_lt : 1970 < 10000 := by decide

def Date.epoch : Date :=
  ⟨1970, 1, 1, Nat.succ_pos _, epoch_year_lt, Nat.one_pos, Nat.succ_pos _, Nat.one_pos,
    Nat.succ_pos _⟩

/-- Days since 1970-01-01; the year of the computation starts in March. -/
def Date.days (d : Date) : Int :=
  let y : Int := if d.month ≤ 2 then (d.year : Int) - 1 else d.year
  let era := y / 400
  let yoe := y % 400
  let doy : Int := (153 * (if d.month ≤ 2 then (d.month : Int) + 9 else (d.month : Int) - 3) + 2) / 5
    + (d.day : Int) - 1
  let doe := yoe * 365 + yoe / 4 - yoe / 100 + doy
  era * 146097 + doe - 719468

/-- Microseconds since the epoch. -/
def Datetime.instant (d : Datetime) : Int :=
  d.date.days * 86400000000 + d.time.microseconds -
    (if d.west then -(d.offset.microseconds : Int) else d.offset.microseconds)

def Datetime.wholeMinutes (d : Datetime) : Bool :=
  decide (d.offset.second = 0) && decide (d.offset.microsecond = 0)

def digitChar (n : Nat) : Char := Char.ofNat (48 + n)

def digitValue (c : Char) : Option Nat :=
  if '0' ≤ c ∧ c ≤ '9' then some (c.toNat - 48) else none

def padded (k n : Nat) : List Char := (FixedDigits.toDigits 10 k n).map digitChar

def fraction (microsecond : Nat) : List Char :=
  if microsecond = 0 then [] else '.' :: padded 6 microsecond

def offsetSeconds (c : Clock) : List Char :=
  if c.second = 0 ∧ c.microsecond = 0 then []
  else ':' :: (padded 2 c.second ++ fraction c.microsecond)

/-- `datetime.isoformat()`. -/
def isoformat (d : Datetime) : List Char :=
  padded 4 d.date.year ++ '-' :: (padded 2 d.date.month ++ '-' :: (padded 2 d.date.day ++
    'T' :: (padded 2 d.time.hour ++ ':' :: (padded 2 d.time.minute ++ ':' ::
      (padded 2 d.time.second ++ (fraction d.time.microsecond ++
        (if d.west then '-' else '+') :: (padded 2 d.offset.hour ++ ':' ::
          (padded 2 d.offset.minute ++ offsetSeconds d.offset))))))))

def number (k : Nat) (text : List Char) : Option (Nat × List Char) :=
  FixedDigits.read digitValue 10 k text

def literal (c : Char) : List Char → Option (List Char)
  | [] => none
  | x :: rest => if x = c then some rest else none

def readFraction : List Char → Option (Nat × List Char)
  | '.' :: rest => number 6 rest
  | text => some (0, text)

def readSign : List Char → Option (Bool × List Char)
  | '+' :: rest => some (false, rest)
  | '-' :: rest => some (true, rest)
  | _ => none

def clock? (hour minute second microsecond : Nat) : Option Clock :=
  if h : hour < 24 ∧ minute < 60 ∧ second < 60 ∧ microsecond < 1000000 then
    some ⟨hour, minute, second, microsecond, h.1, h.2.1, h.2.2.1, h.2.2.2⟩
  else none

def readTime (text : List Char) : Option (Clock × List Char) := do
  let (hour, text) ← number 2 text
  let text ← literal ':' text
  let (minute, text) ← number 2 text
  let text ← literal ':' text
  let (second, text) ← number 2 text
  let (microsecond, text) ← readFraction text
  let clock ← clock? hour minute second microsecond
  pure (clock, text)

/-- The seconds of an offset, if there are any. -/
def readOffsetSeconds : List Char → Option (Nat × Nat × List Char)
  | ':' :: text => do
    let (second, text) ← number 2 text
    let (microsecond, text) ← readFraction text
    pure (second, microsecond, text)
  | text => some (0, 0, text)

def date? (year month day : Nat) : Option Date :=
  if h : (0 < year ∧ year < 10000) ∧ (0 < month ∧ month ≤ 12) ∧
      0 < day ∧ day ≤ daysInMonth year month then
    some ⟨year, month, day, h.1.1, h.1.2, h.2.1.1, h.2.1.2, h.2.2.1, h.2.2.2⟩
  else none

/-- A datetime with hours and minutes of offset, and what is left of the text. -/
def readMinutes (text : List Char) : Option (Datetime × List Char) := do
  let (year, text) ← number 4 text
  let text ← literal '-' text
  let (month, text) ← number 2 text
  let text ← literal '-' text
  let (day, text) ← number 2 text
  let date ← date? year month day
  let text ← literal 'T' text
  let (time, text) ← readTime text
  let (west, text) ← readSign text
  let (offHour, text) ← number 2 text
  let text ← literal ':' text
  let (offMinute, text) ← number 2 text
  let offset ← clock? offHour offMinute 0 0
  pure (⟨date, time, west, offset⟩, text)

/-- The inverse of `isoformat`. -/
def fromisoformat (text : List Char) : Option Datetime := do
  let (d, text) ← readMinutes text
  let (second, microsecond, text) ← readOffsetSeconds text
  let offset ← clock? d.offset.hour d.offset.minute second microsecond
  if text = [] then some { d with offset := offset } else none

/-- A reader that knows no seconds of an offset: the text must end after its minutes. -/
def readRfc3339 (text : List Char) : Option Datetime := do
  let (d, text) ← readMinutes text
  if text = [] then some d else none

theorem digitValue_digitChar : ∀ d < 10, digitValue (digitChar d) = some d := by decide

@[simp] theorem number_padded {k n : Nat} (h : n < 10 ^ k) (rest : List Char) :
    number k (padded k n ++ rest) = some (n, rest) :=
  FixedDigits.read_append digitValue_digitChar (by decide) h rest

@[simp] theorem literal_cons (c : Char) (rest : List Char) : literal c (c :: rest) = some rest := by
  simp [literal]

theorem readFraction_fraction {microsecond : Nat} (h : microsecond < 1000000) {rest : List Char}
    (hrest : rest.head? ≠ some '.') :
    readFraction (fraction microsecond ++ rest) = some (microsecond, rest) := by
  unfold fraction
  split
  · rename_i hzero
    rw [hzero, List.nil_append]
    unfold readFraction
    split
    · exact absurd rfl hrest
    · rfl
  · exact number_padded h rest

theorem clock?_self (c : Clock) : clock? c.hour c.minute c.second c.microsecond = some c := by
  rw [clock?, dif_pos ⟨c.hour_lt, c.minute_lt, c.second_lt, c.microsecond_lt⟩]

theorem readTime_text (c : Clock) {rest : List Char} (hrest : rest.head? ≠ some '.') :
    readTime (padded 2 c.hour ++ ':' :: (padded 2 c.minute ++ ':' ::
      (padded 2 c.second ++ (fraction c.microsecond ++ rest)))) = some (c, rest) := by
  have hhour : c.hour < 10 ^ 2 := Nat.lt_of_lt_of_le c.hour_lt (by decide)
  have hminute : c.minute < 10 ^ 2 := Nat.lt_of_lt_of_le c.minute_lt (by decide)
  have hsecond : c.second < 10 ^ 2 := Nat.lt_of_lt_of_le c.second_lt (by decide)
  simp [readTime, number_padded hhour, number_padded hminute, number_padded hsecond,
    readFraction_fraction c.microsecond_lt hrest, clock?_self]

@[simp] theorem readSign_sign (west : Bool) (rest : List Char) :
    readSign ((if west then '-' else '+') :: rest) = some (west, rest) := by
  cases west <;> rfl

def Clock.minutes (c : Clock) : Clock where
  hour := c.hour
  minute := c.minute
  second := 0
  microsecond := 0
  hour_lt := c.hour_lt
  minute_lt := c.minute_lt
  second_lt := Nat.succ_pos _
  microsecond_lt := Nat.succ_pos _

theorem daysInMonth_le (year month : Nat) : daysInMonth year month ≤ 31 := by
  unfold daysInMonth
  split
  · split <;> omega
  · split <;> omega

theorem date?_self (d : Date) : date? d.year d.month d.day = some d := by
  rw [date?, dif_pos ⟨⟨d.year_pos, d.year_lt⟩, ⟨d.month_pos, d.month_le⟩, d.day_pos, d.day_le⟩]

theorem readMinutes_isoformat (d : Datetime) :
    readMinutes (isoformat d) = some ({ d with offset := d.offset.minutes },
      offsetSeconds d.offset) := by
  have hyear : d.date.year < 10 ^ 4 := d.date.year_lt
  have hmonth : d.date.month < 10 ^ 2 := by
    have := d.date.month_le
    omega
  have hday : d.date.day < 10 ^ 2 := by
    have := d.date.day_le
    have := daysInMonth_le d.date.year d.date.month
    omega
  have hhour : d.offset.hour < 10 ^ 2 := Nat.lt_of_lt_of_le d.offset.hour_lt (by decide)
  have hminute : d.offset.minute < 10 ^ 2 := Nat.lt_of_lt_of_le d.offset.minute_lt (by decide)
  have hclock := clock?_self d.offset.minutes
  simp only [Clock.minutes] at hclock
  have hsign : ∀ rest : List Char,
      ((if d.west then '-' else '+') :: rest).head? ≠ some '.' := by
    intro rest
    cases d.west <;> simp
  simp only [readMinutes, isoformat, literal_cons, readSign_sign, number_padded hyear,
    number_padded hmonth, number_padded hday, number_padded hhour, number_padded hminute,
    readTime_text d.time (hsign _), hclock, date?_self, Clock.minutes, Option.pure_def,
    Option.bind_eq_bind, Option.bind_some]

theorem readOffsetSeconds_text (c : Clock) :
    readOffsetSeconds (offsetSeconds c) = some (c.second, c.microsecond, []) := by
  unfold offsetSeconds
  split
  · rename_i hzero
    rw [hzero.1, hzero.2]
    rfl
  · have hsecond : c.second < 10 ^ 2 := Nat.lt_of_lt_of_le c.second_lt (by decide)
    have hfraction : readFraction (fraction c.microsecond ++ []) = some (c.microsecond, []) :=
      readFraction_fraction c.microsecond_lt (by simp)
    rw [List.append_nil] at hfraction
    simp [readOffsetSeconds, number_padded hsecond, hfraction]

theorem fromisoformat_isoformat (d : Datetime) : fromisoformat (isoformat d) = some d := by
  simp [fromisoformat, readMinutes_isoformat, readOffsetSeconds_text, Clock.minutes, clock?_self]

theorem offsetSeconds_eq_nil_iff {c : Clock} :
    offsetSeconds c = [] ↔ c.second = 0 ∧ c.microsecond = 0 := by
  unfold offsetSeconds
  split
  · rename_i h
    simp [h]
  · rename_i h
    simp [h]

/-- Such a reader gets exactly the offsets of whole minutes back. -/
theorem readRfc3339_isoformat (d : Datetime) :
    readRfc3339 (isoformat d) = if d.wholeMinutes then some d else none := by
  have hiff : d.wholeMinutes = true ↔ offsetSeconds d.offset = [] := by
    rw [offsetSeconds_eq_nil_iff]
    simp [Datetime.wholeMinutes]
  have hread : readRfc3339 (isoformat d) = if offsetSeconds d.offset = [] then
      some { d with offset := d.offset.minutes } else none := by
    simp [readRfc3339, readMinutes_isoformat]
  rw [hread]
  by_cases hwhole : d.wholeMinutes = true
  · rw [if_pos (hiff.mp hwhole), if_pos hwhole]
    have hzero := offsetSeconds_eq_nil_iff.mp (hiff.mp hwhole)
    obtain ⟨date, time, west, ⟨hour, minute, second, microsecond, _, _, _, _⟩⟩ := d
    obtain ⟨rfl, rfl⟩ : second = 0 ∧ microsecond = 0 := hzero
    rfl
  · rw [if_neg fun h => hwhole (hiff.mpr h), if_neg hwhole]

theorem isoformat_ne_nil (d : Datetime) : isoformat d ≠ [] := by
  simp [isoformat]

end IsoDatetime
