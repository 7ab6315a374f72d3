import CtMapReduce.Go.Bytes

/-!
# `time`: instants, locations and the `"2006-01-02"` layout

The storage package names every shard by `notAfter.Format("2006-01-02")`
(`kExpirationFormat`), parses those names back with `time.Parse` when it lists them, and
compares instants with `Before`. A `Time` here is the instant (Unix seconds and nanoseconds)
with the `Location` it is read in; `Year`, `Month` and `Day` are the proleptic Gregorian date
of the instant shifted by the location's offset, as `Time.date` computes. The monotonic clock
reading of `time.Now()` is not modelled: `Before` compares wall-clock instants.

`civilFromDays` and `daysFromCivil` are the usual era-based conversions between days since
1970-01-01 and (year, month, day); Go's `absDate` and `Date` compute the same calendar.
`formatDate` is `Format` with layout `"2006-01-02"` (`appendInt` with widths 4, 2, 2), and
`parseDate` is `Parse` with that layout: four digits, `-`, two digits, `-`, two digits, a
month in 1..12 and a day within the month, nothing after; the result is midnight UTC.
-/

namespace CtMapReduce.Go

/-- Go `*time.Location`: the offsets east of UTC, in seconds, of its zones, with the
    transitions `tx` (instant, offset from then on) in increasing order; `first` is in force
    before the first transition (`lookupFirstZone`). -/
structure Location where
  first : Int
  tx : List (Int × Int)
  deriving DecidableEq, Repr

/-- The offset in force at Unix second `sec`: that of the last transition at or before it. -/
def Location.offset (l : Location) (sec : Int) : Int :=
  ((l.tx.filter (·.1 ≤ sec)).getLast?.map (·.2)).getD l.first

/-- `time.UTC`. -/
def Location.utc : Location := ⟨0, []⟩

/-- `time.FixedZone(name, offset)`. -/
def fixedZone (offset : Int) : Location := ⟨offset, []⟩

/-- Go `time.Time`: an instant and the location it is displayed in. -/
structure Time where
  sec : Int
  nsec : Fin 1000000000
  loc : Location
  deriving DecidableEq, Repr

/-- The zero `time.Time{}`: January 1 of year 1, 00:00:00 UTC. -/
def Time.zero : Time := ⟨-62135596800, 0, .utc⟩

/-- `t.Before(u)`: the instant of `t` is strictly earlier than that of `u`. -/
def Time.before (t u : Time) : Bool := t.sec < u.sec || (t.sec == u.sec && t.nsec < u.nsec)

/-- Days since 1970-01-01 to the proleptic Gregorian (year, month, day). -/
def civilFromDays (z : Int) : Int × Nat × Nat :=
  let z := z + 719468
  let era := z / 146097
  let doe := z % 146097
  let yoe := (doe - doe / 1460 + doe / 36524 - doe / 146096) / 365
  let doy := doe - (365 * yoe + yoe / 4 - yoe / 100)
  let mp := (5 * doy + 2) / 153
  let d := doy - (153 * mp + 2) / 5 + 1
  let m := if mp < 10 then mp + 3 else mp - 9
  (if m ≤ 2 then yoe + era * 400 + 1 else yoe + era * 400, m.toNat, d.toNat)

/-- (year, month, day), month in 1..12, to days since 1970-01-01. -/
def daysFromCivil (y : Int) (m d : Nat) : Int :=
  let y := if m ≤ 2 then y - 1 else y
  let era := y / 400
  let yoe := y % 400
  let mp : Int := if 2 < m then m - 3 else m + 9
  let doy := (153 * mp + 2) / 5 + d - 1
  era * 146097 + yoe * 365 + yoe / 4 - yoe / 100 + doy - 719468

/-- `t.Year()`, `t.Month()`, `t.Day()`: the calendar date of `t` in its own location. -/
def Time.date (t : Time) : Int × Nat × Nat :=
  civilFromDays ((t.sec + t.loc.offset t.sec) / 86400)

/-- `time.Date(y, m, d, 0, 0, 0, 0, time.UTC)`. -/
def midnightUTC (y : Int) (m d : Nat) : Time := ⟨daysFromCivil y m d * 86400, 0, .utc⟩

/-- `t.UTC()`: the same instant, read in UTC. -/
def Time.utc (t : Time) : Time := { t with loc := .utc }

/-- The decimal digits of `n`, most significant first, as `appendInt` assembles them. -/
def decimalDigits : Nat → Nat → Bytes
  | 0, _ => []
  | fuel + 1, n =>
    (if 10 ≤ n then decimalDigits fuel (n / 10) else []) ++ [Fin.ofNat (48 + n % 10)]

/-- The time package's `appendInt(b, x, width)`: a `-` for negative `x`, then the decimal
    digits of `|x|` left-padded with `0` to `width`. -/
def appendInt (x : Int) (width : Nat) : Bytes :=
  let digits := decimalDigits (x.natAbs + 1) x.natAbs
  (if x < 0 then [45] else []) ++ List.replicate (width - digits.length) 48 ++ digits

/-- `t.Format("2006-01-02")`. -/
def formatDate (t : Time) : Bytes :=
  let (y, m, d) := t.date
  appendInt y 4 ++ [45] ++ appendInt m 2 ++ [45] ++ appendInt d 2

/-- Go's `isLeap`. -/
def isLeap (y : Int) : Bool := y % 4 == 0 && (y % 100 != 0 || y % 400 == 0)

/-- Go's `daysIn(m, year)`. -/
def daysIn (m : Nat) (y : Int) : Nat :=
  if m = 2 then (if isLeap y then 29 else 28)
  else if m = 4 ∨ m = 6 ∨ m = 9 ∨ m = 11 then 30 else 31

/-- A byte `'0'..'9'`. -/
def isDigit (c : Fin 256) : Bool := 48 ≤ c.val && c.val ≤ 57

/-- The value of the decimal digits `ds`. -/
def digitsValue (ds : Bytes) : Nat := ds.foldl (fun n c => 10 * n + (c.val - 48)) 0

/-- `time.Parse("2006-01-02", value)`, `none` for every `*ParseError`. -/
def parseDate (value : Bytes) : Option Time :=
  match value with
  | [y0, y1, y2, y3, s1, m0, m1, s2, d0, d1] =>
    if [y0, y1, y2, y3, m0, m1, d0, d1].all isDigit ∧ s1 = 45 ∧ s2 = 45 then
      let year : Int := digitsValue [y0, y1, y2, y3]
      let month := digitsValue [m0, m1]
      let day := digitsValue [d0, d1]
      if 1 ≤ month ∧ month ≤ 12 ∧ 1 ≤ day ∧ day ≤ daysIn month year then
        some (midnightUTC year month day)
      else none
    else none
  | _ => none

theorem decimalDigits_isDigit : ∀ fuel n, ∀ c ∈ decimalDigits fuel n, isDigit c = true := by
  intro fuel
  induction fuel with
  | zero => simp [decimalDigits]
  | succ fuel ih =>
    intro n c hc
    simp only [decimalDigits, List.mem_append, List.mem_singleton] at hc
    rcases hc with hc | rfl
    · split at hc
      · exact ih _ c hc
      · simp at hc
    · simp only [isDigit, Fin.ofNat, Fin.val_ofNat', Bool.and_eq_true, decide_eq_true_eq]
      omega

theorem appendInt_digit_or_dash (x : Int) (w : Nat) :
    ∀ c ∈ appendInt x w, isDigit c = true ∨ c = 45 := by
  intro c hc
  simp only [appendInt, List.mem_append, List.mem_replicate] at hc
  rcases hc with (hc | ⟨-, rfl⟩) | hc
  · split at hc <;> simp_all
  · exact .inl rfl
  · exact .inl (decimalDigits_isDigit _ _ c hc)

/-- Every byte of a formatted date is a digit or `-`: in particular none is `:`, the
    separator of the remote-cache keys. -/
theorem formatDate_digit_or_dash (t : Time) :
    ∀ c ∈ formatDate t, isDigit c = true ∨ c = 45 := by
  intro c hc
  simp only [formatDate, List.mem_append, List.mem_singleton] at hc
  rcases hc with (((hc | rfl) | hc) | rfl) | hc <;>
    first | exact .inr rfl | exact appendInt_digit_or_dash _ _ c hc

/-! ## The RFC 3339 layout -/

/-- `t.Format(time.RFC3339)`, layout `"2006-01-02T15:04:05Z07:00"`: the date as `formatDate`
    writes it, `T`, the clock of the instant shifted by the location's offset (`absClock`), and
    `Z` for a zero offset, or else the offset's sign, hours and minutes, the minutes
    truncated toward zero as Go's `offset / 60` is. -/
def formatRFC3339 (t : Time) : Bytes :=
  let offset := t.loc.offset t.sec
  let clock := ((t.sec + offset) % 86400).toNat
  let zone := offset.tdiv 60
  formatDate t ++ [84] ++ appendInt (clock / 3600 : Nat) 2 ++ [58] ++
    appendInt (clock % 3600 / 60 : Nat) 2 ++ [58] ++ appendInt (clock % 60 : Nat) 2 ++
    (if offset = 0 then [90]
    else (if zone < 0 then [45] else [43]) ++ appendInt (zone.natAbs / 60 : Nat) 2 ++ [58] ++
      appendInt (zone.natAbs % 60 : Nat) 2)

/-- The bytes of an RFC 3339 time are digits and `-`, `T`, `:`, `Z` and `+`. -/
theorem formatRFC3339_char (t : Time) :
    ∀ c ∈ formatRFC3339 t,
      isDigit c = true ∨ c = 45 ∨ c = 84 ∨ c = 58 ∨ c = 90 ∨ c = 43 := by
  intro c hc
  simp only [formatRFC3339, List.mem_append, List.mem_singleton] at hc
  have hint : ∀ x w, c ∈ appendInt x w →
      isDigit c = true ∨ c = 45 ∨ c = 84 ∨ c = 58 ∨ c = 90 ∨ c = 43 :=
    fun x w h => (appendInt_digit_or_dash x w c h).imp_right .inl
  rcases hc with (((((((hc | rfl) | hc) | rfl) | hc) | rfl) | hc) | hc)
  · exact (formatDate_digit_or_dash t c hc).imp_right .inl
  all_goals first | decide | exact hint _ _ hc | skip
  split_ifs at hc
  · rw [List.mem_singleton.1 hc]
    decide
  all_goals
    simp only [List.mem_append, List.mem_singleton] at hc
    rcases hc with ((rfl | hc) | rfl) | hc <;> first | decide | exact hint _ _ hc

end CtMapReduce.Go
