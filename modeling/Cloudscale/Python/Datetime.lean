import Cloudscale.Lib.Digits
import Cloudscale.Python.Text
import Mathlib.Order.Basic
import Mathlib.Data.List.GetD
import Mathlib.Data.List.Lex

/-!
# `datetime.datetime`

A `Datetime` is the seven fields of a `datetime`, validated by its constructor
(`Datetime.ofFields`).  Clock readings in this development are aware and UTC,
so the fields are the whole value; `fromisoformat` also returns the offset the
text names.

`isoformat` writes the text that is stored, `fromisoformat` is CPython 3.12's
parser with every form it accepts, and `fromisoformat_isoformat` is the round
trip.  `Datetime`s compare field by field, as Python compares them, and
`isoformat_le_iff` says the texts compare the same way, with or without a
fraction: `+` sorts before `.`, and a text without a fraction has microsecond
zero.
-/

namespace Python

open Digits

/-! ### Calendar -/

def isLeap (year : Nat) : Bool := year % 4 = 0 && (year % 100 ≠ 0 || year % 400 = 0)

def daysInMonthTable : List Nat := [0, 31, 28, 31, 30, 31, 30, 31, 31, 30, 31, 30, 31]

def daysBeforeMonthTable : List Nat := [0, 0, 31, 59, 90, 120, 151, 181, 212, 243, 273, 304, 334]

def daysInMonth (year month : Nat) : Nat :=
  if month = 2 ∧ isLeap year then 29 else daysInMonthTable.getD month 0

def daysBeforeYear (year : Nat) : Nat :=
  let y := year - 1
  y * 365 + y / 4 - y / 100 + y / 400

def daysBeforeMonth (year month : Nat) : Nat :=
  daysBeforeMonthTable.getD month 0 + (if month > 2 ∧ isLeap year then 1 else 0)

/-- `_ymd2ord`: 0001-01-01 is day one. -/
def ymd2ord (year month day : Nat) : Nat :=
  daysBeforeYear year + daysBeforeMonth year month + day

def ord2ymd (ordinal : Nat) : Nat × Nat × Nat :=
  let n := ordinal - 1
  let n400 := n / 146097
  let n := n % 146097
  let n100 := n / 36524
  let n := n % 36524
  let n4 := n / 1461
  let n := n % 1461
  let n1 := n / 365
  let n := n % 365
  let year := n400 * 400 + 1 + n100 * 100 + n4 * 4 + n1
  if n1 = 4 ∨ n100 = 4 then (year - 1, 12, 31)
  else
    let month := (n + 50) / 32
    let month := if daysBeforeMonth year month > n then month - 1 else month
    (year, month, n - daysBeforeMonth year month + 1)

/-- `_MAXORDINAL`: 9999-12-31. -/
def maxOrdinal : Nat := 3652059

/-- `_isoweek_to_gregorian`; `none` is the `ValueError`. -/
def isoweekToGregorian (year week day : Nat) : Option (Nat × Nat × Nat) :=
  let firstday := ymd2ord year 1 1
  let longYear := firstday % 7 = 4 ∨ (firstday % 7 = 3 ∧ isLeap year)
  if ¬ (1 ≤ year ∧ year ≤ 9999) then none
  else if ¬ (0 < week ∧ week < 53) ∧ ¬ (week = 53 ∧ longYear) then none
  else if ¬ (0 < day ∧ day < 8) then none
  else
    let firstweekday := (firstday + 6) % 7
    let week1monday := firstday - firstweekday + (if firstweekday > 3 then 7 else 0)
    some (ord2ymd (week1monday + (week - 1) * 7 + (day - 1)))

/-! ### The value -/

/-- The fields of a `datetime`. -/
structure Datetime where
  year : Nat
  month : Nat
  day : Nat
  hour : Nat
  minute : Nat
  second : Nat
  microsecond : Nat
  date_ok : (1 ≤ year ∧ year ≤ 9999) ∧ (1 ≤ month ∧ month ≤ 12) ∧
    (1 ≤ day ∧ day ≤ daysInMonth year month)
  time_ok : hour < 24 ∧ minute < 60 ∧ second < 60 ∧ microsecond < 1000000
  deriving DecidableEq

namespace Datetime

def epoch : Datetime := ⟨1970, 1, 1, 0, 0, 0, 0, by decide, by decide⟩

/-- The constructor; `none` is the `ValueError` of a field out of range. -/
def ofFields (year month day hour minute second microsecond : Nat) : Option Datetime :=
  if hd : (1 ≤ year ∧ year ≤ 9999) ∧ (1 ≤ month ∧ month ≤ 12) ∧
      (1 ≤ day ∧ day ≤ daysInMonth year month) then
    if ht : hour < 24 ∧ minute < 60 ∧ second < 60 ∧ microsecond < 1000000 then
      some ⟨year, month, day, hour, minute, second, microsecond, hd, ht⟩
    else none
  else none

theorem ofFields_self (t : Datetime) :
    ofFields t.year t.month t.day t.hour t.minute t.second t.microsecond = some t := by
  rw [ofFields, dif_pos t.date_ok, dif_pos t.time_ok]

def key (t : Datetime) : List Nat :=
  [t.year, t.month, t.day, t.hour, t.minute, t.second, t.microsecond]

theorem key_injective : Function.Injective key := by
  rintro ⟨y, mo, d, h, mi, s, u, hd, ht⟩ ⟨y', mo', d', h', mi', s', u', hd', ht'⟩ he
  simp only [key, List.cons.injEq, and_true] at he
  obtain ⟨rfl, rfl, rfl, rfl, rfl, rfl, rfl⟩ := he
  rfl

instance : LinearOrder Datetime := LinearOrder.lift' key key_injective

theorem lt_iff {s t : Datetime} : s < t ↔ s.key < t.key := Iff.rfl

/-- `t + timedelta(seconds=seconds)`; `none` is the `OverflowError`, of the
`timedelta` or of the sum. -/
def addSeconds (t : Datetime) (seconds : Int) : Option Datetime :=
  if seconds / 86400 < -999999999 ∨ 999999999 < seconds / 86400 then none
  else
    let total : Int := (ymd2ord t.year t.month t.day : Int) * 86400
      + (t.hour * 3600 + t.minute * 60 + t.second : Nat) + seconds
    let days := total / 86400
    let rem := (total % 86400).toNat
    if 0 < days ∧ days ≤ maxOrdinal then
      let (year, month, day) := ord2ymd days.toNat
      ofFields year month day (rem / 3600) (rem % 3600 / 60) (rem % 60) t.microsecond
    else none

/-! ### Writing -/

def dateChars (t : Datetime) : List Char :=
  fixedDigits 10 4 t.year ++ '-' :: (fixedDigits 10 2 t.month ++ '-' :: fixedDigits 10 2 t.day)

def clockChars (t : Datetime) : List Char :=
  fixedDigits 10 2 t.hour ++ ':' :: (fixedDigits 10 2 t.minute ++ ':' :: fixedDigits 10 2 t.second)

/-- The fraction, left out when it is zero. -/
def fractionChars (t : Datetime) : List Char :=
  if t.microsecond = 0 then [] else '.' :: fixedDigits 10 6 t.microsecond

/-- `+00:00`. -/
def utcOffsetChars : List Char := ['+', '0', '0', ':', '0', '0']

/-- `t.isoformat()` of an aware UTC time. -/
def isoformat (t : Datetime) : String :=
  String.ofList (t.dateChars ++ 'T' :: (t.clockChars ++ (t.fractionChars ++ utcOffsetChars)))

/-- `t.isoformat(timespec="microseconds")`. -/
def isoformatMicroseconds (t : Datetime) : String :=
  String.ofList (t.dateChars ++
    'T' :: (t.clockChars ++ ('.' :: fixedDigits 10 6 t.microsecond ++ utcOffsetChars)))

/-! ### Reading -/

def isDigit (c : Char) : Bool := '0' ≤ c && c ≤ '9'

/-- Exactly `n` decimal digits from the front. -/
def parseInt (n : Nat) (cs : List Char) : Option Nat :=
  if (cs.take n).length = n then parseDigits 10 (cs.take n) else none

/-- `_find_isoformat_datetime_separator`, for a text of at least seven characters. -/
def findSeparator (s : List Char) : Option Nat :=
  if s.length = 7 then some 7
  else if s[4]? = some '-' then
    if s[5]? = some 'W' then
      if s[8]? = some '-' then
        if s.length = 9 then none
        else if (s[10]?).any isDigit then some 8 else some 10
      else some 8
    else some 10
  else if s[4]? = some 'W' then
    let idx := 7 + ((s.drop 7).takeWhile isDigit).length
    if idx < 9 then some idx else if idx % 2 = 0 then some 7 else some 8
  else some 8

/-- `_parse_isoformat_date`, for a text of 7, 8 or 10 characters. -/
def parseDate (s : List Char) : Option (Nat × Nat × Nat) := do
  let year ← parseInt 4 s
  let hasSep := s[4]? = some '-'
  let rest := s.drop (if hasSep then 5 else 4)
  if rest.head? = some 'W' then
    let week ← parseInt 2 (rest.drop 1)
    let rest := rest.drop 3
    if rest = [] then isoweekToGregorian year week 1
    else if (rest.head? = some '-') ≠ hasSep then none
    else
      let day ← parseInt 1 (if hasSep then rest.drop 1 else rest)
      isoweekToGregorian year week day
  else
    let month ← parseInt 2 rest
    let rest := rest.drop 2
    if (rest.head? = some '-') ≠ hasSep then none
    else
      let day ← parseInt 2 (if hasSep then rest.drop 1 else rest)
      some (year, month, day)

/-- The fraction after the seconds, as microseconds: six digits count. -/
def parseFraction : List Char → Option Nat
  | [] => some 0
  | mark :: digits =>
    if mark = '.' ∨ mark = ',' then
      let counted := digits.take 6
      if counted = [] then none
      else if (digits.drop 6).all isDigit then
        (parseDigits 10 counted).map (· * 10 ^ (6 - counted.length))
      else none
    else none

/-- `_parse_hh_mm_ss_ff`. -/
def parseClock (s : List Char) : Option (Nat × Nat × Nat × Nat) := do
  let hour ← parseInt 2 s
  match s.drop 2 with
  | [] => some (hour, 0, 0, 0)
  | next :: rest =>
    let hasSep := next = ':'
    let s := if hasSep then rest else next :: rest
    let minute ← parseInt 2 s
    match s.drop 2 with
    | [] => some (hour, minute, 0, 0)
    | next :: rest =>
      if hasSep ∧ next ≠ ':' then none
      else
        let s := if hasSep then rest else next :: rest
        let second ← parseInt 2 s
        let microsecond ← parseFraction (s.drop 2)
        some (hour, minute, second, microsecond)

/-- The offset a time zone suffix names, in microseconds; `none` is malformed. -/
def parseOffset (sign : Char) (s : List Char) : Option Int :=
  if s.length = 0 ∨ s.length = 1 ∨ s.length = 3 then none
  else do
    let (hour, minute, second, microsecond) ← parseClock s
    let offset := ((hour * 60 + minute) * 60 + second) * 1000000 + microsecond
    if offset < 86400000000 then
      some (if sign = '-' then -(offset : Int) else (offset : Int))
    else none

/-- `_parse_isoformat_time`: the clock and the offset, if one is named. -/
def parseTime (s : List Char) : Option ((Nat × Nat × Nat × Nat) × Option Int) :=
  if s.length < 2 then none
  else
    match (s.idxOf? '-').or ((s.idxOf? '+').or (s.idxOf? 'Z')) with
    | none => (parseClock s).map (·, none)
    | some i => do
      let clock ← parseClock (s.take i)
      let sign := s.getD i ' '
      if i + 1 = s.length ∧ sign = 'Z' then some (clock, some 0)
      else
        let offset ← parseOffset sign (s.drop (i + 1))
        some (clock, some offset)

/-- `datetime.fromisoformat`: the fields and the offset in microseconds, if the
text names one; `none` is the `ValueError`. -/
def fromisoformat (text : String) : Option (Datetime × Option Int) := do
  let s := text.toList
  if s.length < 7 then none
  else
    let separator ← findSeparator s
    let (year, month, day) ← parseDate (s.take separator)
    let rest := s.drop (separator + 1)
    let ((hour, minute, second, microsecond), offset) ←
      if rest = [] then some ((0, 0, 0, 0), none) else parseTime rest
    let t ← ofFields year month day hour minute second microsecond
    some (t, offset)

/-! ### Its fields read back -/

theorem daysInMonth_le (year month : Nat) : daysInMonth year month ≤ 31 := by
  unfold daysInMonth
  split
  · decide
  · rcases Nat.lt_or_ge month 13 with h | h
    · interval_cases month <;> decide
    · rw [List.getD_eq_default _ _ (by simpa [daysInMonthTable] using h)]
      decide

theorem parseInt_fixedDigits {k n : Nat} (h : n < 10 ^ k) (cs : List Char) :
    parseInt k (fixedDigits 10 k n ++ cs) = some n := by
  have htake : (fixedDigits 10 k n ++ cs).take k = fixedDigits 10 k n :=
    List.take_left' (length_fixedDigits 10 k n)
  rw [parseInt, htake, if_pos (length_fixedDigits 10 k n),
    parseDigits_fixedDigits (by decide) (by decide) h]

theorem drop_fixedDigits (b k n : Nat) (cs : List Char) :
    (fixedDigits b k n ++ cs).drop k = cs :=
  List.drop_left' (length_fixedDigits b k n)

/-- A decimal digit is none of the marks of the format. -/
theorem mark_not_mem_fixedDigits {c : Char} (hc : isDigit c = false) (k n : Nat) :
    c ∉ fixedDigits 10 k n := by
  intro h
  obtain ⟨d, hd, rfl⟩ := mem_fixedDigits (by decide) h
  have : ∀ d < 10, isDigit (Nat.digitChar d) = true := by decide
  rw [this d hd] at hc
  cases hc

theorem head_fixedDigits {k : Nat} (hk : 0 < k) (n : Nat) (cs : List Char) :
    ∃ c rest, fixedDigits 10 k n ++ cs = c :: rest ∧ isDigit c = true := by
  cases he : fixedDigits 10 k n with
  | nil => have := congrArg List.length he; simp at this; omega
  | cons c rest =>
    refine ⟨c, rest ++ cs, rfl, ?_⟩
    by_contra hc
    exact mark_not_mem_fixedDigits (by simpa using hc) k n (he ▸ List.mem_cons_self)

@[simp] theorem length_dateChars (t : Datetime) : t.dateChars.length = 10 := by
  simp [dateChars]

@[simp] theorem length_clockChars (t : Datetime) : t.clockChars.length = 8 := by
  simp [clockChars]

theorem year_lt (t : Datetime) : t.year < 10 ^ 4 := by have := t.date_ok.1; omega

theorem month_lt (t : Datetime) : t.month < 10 ^ 2 := by have := t.date_ok.2.1; omega

theorem day_lt (t : Datetime) : t.day < 10 ^ 2 := by
  have := t.date_ok.2.2
  have := daysInMonth_le t.year t.month
  omega

theorem parseDate_dateChars (t : Datetime) :
    parseDate t.dateChars = some (t.year, t.month, t.day) := by
  have h4 : t.dateChars[4]? = some '-' := by
    rw [dateChars, List.getElem?_append_right (by simp)]
    simp
  have hdrop : t.dateChars.drop 5 =
      fixedDigits 10 2 t.month ++ '-' :: fixedDigits 10 2 t.day := by
    have := drop_fixedDigits 10 4 t.year ('-' :: (fixedDigits 10 2 t.month ++
      '-' :: fixedDigits 10 2 t.day))
    rw [dateChars, show 5 = 4 + 1 from rfl, ← List.drop_drop, this]
    rfl
  obtain ⟨c, rest, hc, hdigit⟩ := head_fixedDigits (by decide : 0 < 2) t.month
    ('-' :: fixedDigits 10 2 t.day)
  have hW : c ≠ 'W' := by rintro rfl; exact absurd hdigit (by decide)
  have hyear := parseInt_fixedDigits t.year_lt ('-' :: (fixedDigits 10 2 t.month ++
      '-' :: fixedDigits 10 2 t.day))
  have hmonth := parseInt_fixedDigits t.month_lt ('-' :: fixedDigits 10 2 t.day)
  have hday := parseInt_fixedDigits t.day_lt []
  have hhead : (fixedDigits 10 2 t.month ++ '-' :: fixedDigits 10 2 t.day).head? ≠ some 'W' := by
    rw [hc]; simpa using hW
  rw [List.append_nil] at hday
  rw [← dateChars] at hyear
  simp only [parseDate, hyear, Option.bind_eq_bind, Option.bind_some, h4, if_true, hdrop,
    if_neg hhead, hmonth, drop_fixedDigits, List.head?_cons, ne_eq, not_true_eq_false, if_false,
    List.drop_succ_cons, List.drop_zero, hday]

theorem hour_lt (t : Datetime) : t.hour < 10 ^ 2 := by have := t.time_ok; omega

theorem minute_lt (t : Datetime) : t.minute < 10 ^ 2 := by have := t.time_ok; omega

theorem second_lt (t : Datetime) : t.second < 10 ^ 2 := by have := t.time_ok; omega

theorem parseClock_clockChars (t : Datetime) (fraction : List Char) :
    parseClock (t.clockChars ++ fraction) =
      (parseFraction fraction).map (fun us => (t.hour, t.minute, t.second, us)) := by
  have hhour := parseInt_fixedDigits t.hour_lt
    (':' :: (fixedDigits 10 2 t.minute ++ ':' :: (fixedDigits 10 2 t.second ++ fraction)))
  have hminute := parseInt_fixedDigits t.minute_lt
    (':' :: (fixedDigits 10 2 t.second ++ fraction))
  have hsecond := parseInt_fixedDigits t.second_lt fraction
  simp only [clockChars, List.append_assoc, List.cons_append, parseClock, hhour,
    drop_fixedDigits, hminute, hsecond, Option.bind_eq_bind, Option.bind_some, if_true]
  cases parseFraction fraction <;> simp

/-! ### The round trip -/

/-- The texts of a fraction of a second. -/
def IsFraction (us : Nat) (cs : List Char) : Prop :=
  parseFraction cs = some us ∧ '-' ∉ cs ∧ '+' ∉ cs

theorem isFraction_dot {us : Nat} (h : us < 1000000) :
    IsFraction us ('.' :: fixedDigits 10 6 us) := by
  have htake : (fixedDigits 10 6 us).take 6 = fixedDigits 10 6 us :=
    List.take_of_length_le (by simp)
  have hdrop : (fixedDigits 10 6 us).drop 6 = [] := List.drop_of_length_le (by simp)
  have hne : fixedDigits 10 6 us ≠ [] := by
    intro he
    simpa using congrArg List.length he
  have hparse := parseDigits_fixedDigits (b := 10) (k := 6) (n := us) (by decide) (by decide) h
  refine ⟨?_, ?_, ?_⟩
  · simp [parseFraction, htake, hdrop, hne, hparse]
  · simpa using mark_not_mem_fixedDigits (c := '-') (by decide) 6 us
  · simpa using mark_not_mem_fixedDigits (c := '+') (by decide) 6 us

theorem isFraction_fractionChars (t : Datetime) : IsFraction t.microsecond t.fractionChars := by
  rw [fractionChars]
  split
  case isTrue h => rw [h]; exact ⟨rfl, by decide, by decide⟩
  case isFalse h => exact isFraction_dot t.time_ok.2.2.2

theorem mark_not_mem_clockChars {c : Char} (hc : isDigit c = false) (hcolon : c ≠ ':')
    (t : Datetime) : c ∉ t.clockChars := by
  simp [clockChars, mark_not_mem_fixedDigits hc, hcolon]

theorem parseTime_utc (t : Datetime) {fraction : List Char}
    (hf : IsFraction t.microsecond fraction) :
    parseTime (t.clockChars ++ (fraction ++ utcOffsetChars)) =
      some ((t.hour, t.minute, t.second, t.microsecond), some 0) := by
  obtain ⟨hparse, hminus, hplus⟩ := hf
  set clock := t.clockChars ++ fraction with hclock
  have hminus' : '-' ∉ clock ++ utcOffsetChars := by
    simp [hclock, mark_not_mem_clockChars (c := '-') (by decide) (by decide) t, hminus,
      utcOffsetChars]
  have hplus' : '+' ∉ clock := by
    simp [hclock, mark_not_mem_clockChars (c := '+') (by decide) (by decide) t, hplus]
  have hidx : (clock ++ utcOffsetChars).idxOf? '+' = some clock.length := by
    have hnone := List.idxOf?_eq_none_iff.mpr hplus'
    rw [List.idxOf?] at hnone
    rw [List.idxOf?, List.findIdx?_append, hnone]
    simp [utcOffsetChars, List.findIdx?_cons]
  have hget : (clock ++ utcOffsetChars).getD clock.length ' ' = '+' := by
    rw [List.getD_eq_getElem?_getD, List.getElem?_append_right le_rfl]
    simp [utcOffsetChars]
  have hdrop : (clock ++ utcOffsetChars).drop (clock.length + 1) = ['0', '0', ':', '0', '0'] := by
    rw [← List.drop_drop, List.drop_left' rfl]
    rfl
  have hoffset : parseOffset '+' ['0', '0', ':', '0', '0'] = some 0 := by decide
  rw [← List.append_assoc, ← hclock, parseTime, if_neg (by simp [utcOffsetChars]),
    List.idxOf?_eq_none_iff.mpr hminus', hidx]
  simp only [Option.none_or, Option.some_or, List.take_left' rfl, hget, hdrop, hoffset]
  rw [hclock, parseClock_clockChars, hparse]
  simp

/-- The text of a UTC time with any writing of its fraction reads back. -/
theorem fromisoformat_utc (t : Datetime) {fraction : List Char}
    (hf : IsFraction t.microsecond fraction) :
    fromisoformat (String.ofList (t.dateChars ++
      'T' :: (t.clockChars ++ (fraction ++ utcOffsetChars)))) = some (t, some 0) := by
  set rest := t.clockChars ++ (fraction ++ utcOffsetChars) with hrest
  have hsep : findSeparator (t.dateChars ++ 'T' :: rest) = some 10 := by
    obtain ⟨c, cs, hc, hdigit⟩ := head_fixedDigits (by decide : 0 < 2) t.month
      ('-' :: (fixedDigits 10 2 t.day ++ 'T' :: rest))
    have hW : c ≠ 'W' := by rintro rfl; exact absurd hdigit (by decide)
    have htext : t.dateChars ++ 'T' :: rest = fixedDigits 10 4 t.year ++ '-' :: c :: cs := by
      rw [← hc, dateChars]; simp
    have h4 : (t.dateChars ++ 'T' :: rest)[4]? = some '-' := by
      rw [htext, List.getElem?_append_right (by simp)]; simp
    have h5 : (t.dateChars ++ 'T' :: rest)[5]? = some c := by
      rw [htext, List.getElem?_append_right (by simp)]; simp
    rw [findSeparator, if_neg (by simp; omega), if_pos h4, h5, if_neg (by simpa using hW)]
  have htake : (t.dateChars ++ 'T' :: rest).take 10 = t.dateChars := List.take_left' (by simp)
  have hdrop : (t.dateChars ++ 'T' :: rest).drop (10 + 1) = rest := by
    rw [← List.drop_drop, List.drop_left' (by simp)]; rfl
  have hne : rest ≠ [] := by
    intro he
    have := congrArg List.length he
    simp [hrest] at this
  simp only [fromisoformat, String.toList_ofList]
  rw [if_neg (by simp; omega), hsep]
  simp only [Option.bind_eq_bind, Option.bind_some, htake, parseDate_dateChars, hdrop, if_neg hne]
  rw [hrest, parseTime_utc t hf]
  simp [ofFields_self]

/-- **`fromisoformat(t.isoformat())` is `t`, in UTC.** -/
@[simp] theorem fromisoformat_isoformat (t : Datetime) :
    fromisoformat t.isoformat = some (t, some 0) :=
  fromisoformat_utc t (isFraction_fractionChars t)

@[simp] theorem fromisoformat_isoformatMicroseconds (t : Datetime) :
    fromisoformat t.isoformatMicroseconds = some (t, some 0) :=
  fromisoformat_utc t (isFraction_dot t.time_ok.2.2.2)

theorem isoformat_ne_empty (t : Datetime) : t.isoformat ≠ "" := by
  intro h
  have := congrArg (fun s => s.toList.length) h
  simp [isoformat] at this

theorem mark_not_mem_dateChars {c : Char} (hc : isDigit c = false) (hminus : c ≠ '-')
    (t : Datetime) : c ∉ t.dateChars := by
  simp [dateChars, mark_not_mem_fixedDigits hc, hminus]

theorem replace_isoformat (t : Datetime) : replace t.isoformat "Z" "+00:00" = t.isoformat := by
  have hZ : isDigit 'Z' = false := by decide
  have hfraction : 'Z' ∉ t.fractionChars := by
    rw [fractionChars]
    split
    · simp
    · simpa using mark_not_mem_fixedDigits hZ 6 t.microsecond
  have hmem : 'Z' ∉ t.dateChars ++ 'T' :: (t.clockChars ++ (t.fractionChars ++ utcOffsetChars)) := by
    simp [mark_not_mem_dateChars hZ (by decide) t, mark_not_mem_clockChars hZ (by decide) t,
      hfraction, utcOffsetChars]
  have hpat : "Z".toList = ['Z'] := by decide
  rw [replace, hpat, isoformat]
  simp only [String.toList_ofList]
  rw [replaceAll_of_not_mem hmem]

/-- The text with microseconds ends in the only plus sign it has. -/
theorem isoformatMicroseconds_eq (t : Datetime) : ∃ body,
    t.isoformatMicroseconds = String.ofList (body ++ '+' :: ['0', '0', ':', '0', '0']) ∧
      '+' ∉ body := by
  have hplus : isDigit '+' = false := by decide
  refine ⟨t.dateChars ++ 'T' :: (t.clockChars ++ '.' :: fixedDigits 10 6 t.microsecond), ?_, ?_⟩
  · simp [isoformatMicroseconds, utcOffsetChars]
  · simp [mark_not_mem_dateChars hplus (by decide) t, mark_not_mem_clockChars hplus (by decide) t,
      mark_not_mem_fixedDigits hplus]

/-! ### The order of the texts -/

theorem fixedDigits_append_lt_iff {k m n : Nat} (hm : m < 10 ^ k) (hn : n < 10 ^ k)
    {u v : List Char} :
    fixedDigits 10 k m ++ u < fixedDigits 10 k n ++ v ↔ m < n ∨ m = n ∧ u < v := by
  have heq : fixedDigits 10 k m = fixedDigits 10 k n ↔ m = n :=
    ⟨fixedDigits_injective (by decide) (by decide) hm hn, fun h => by rw [h]⟩
  rw [append_lt_append_iff (by simp), fixedDigits_lt_iff hm hn, heq]

theorem cons_lt_cons_same {c : Char} {u v : List Char} : c :: u < c :: v ↔ u < v := by
  rw [List.cons_lt_cons_iff]
  simp

theorem fraction_lt_iff (s t : Datetime) :
    s.fractionChars ++ utcOffsetChars < t.fractionChars ++ utcOffsetChars ↔
      s.microsecond < t.microsecond := by
  have hs := s.time_ok.2.2.2
  have ht := t.time_ok.2.2.2
  have hmark : ('+' : Char) < '.' := by decide
  rw [fractionChars, fractionChars]
  split <;> split
  case isTrue.isTrue h h' => simp [h, h']
  case isTrue.isFalse h h' =>
    simp only [utcOffsetChars, List.nil_append, List.cons_append, List.cons_lt_cons_iff, hmark,
      true_or, true_iff]
    omega
  case isFalse.isTrue h h' =>
    simp only [utcOffsetChars, List.nil_append, List.cons_append, List.cons_lt_cons_iff]
    simp [h', hmark.not_gt, hmark.ne']
  case isFalse.isFalse h h' =>
    rw [List.cons_append, List.cons_append, cons_lt_cons_same, fixedDigits_append_lt_iff hs ht]
    simp

theorem isoformat_lt_iff {s t : Datetime} : s.isoformat < t.isoformat ↔ s < t := by
  rw [lt_iff, String.lt_iff]
  simp only [isoformat, String.toList_ofList, dateChars, clockChars, List.append_assoc,
    List.cons_append, fixedDigits_append_lt_iff s.year_lt t.year_lt,
    fixedDigits_append_lt_iff s.month_lt t.month_lt, fixedDigits_append_lt_iff s.day_lt t.day_lt,
    fixedDigits_append_lt_iff s.hour_lt t.hour_lt, fixedDigits_append_lt_iff s.minute_lt t.minute_lt,
    fixedDigits_append_lt_iff s.second_lt t.second_lt, cons_lt_cons_same, fraction_lt_iff]
  simp [key, List.cons_lt_cons_iff]

/-- **Stored times compare as texts the way they compare as times.** -/
theorem isoformat_le_iff {s t : Datetime} : s.isoformat ≤ t.isoformat ↔ s ≤ t :=
  (not_congr isoformat_lt_iff).trans not_lt

end Datetime

end Python
