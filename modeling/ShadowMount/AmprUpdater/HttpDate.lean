import ShadowMount.Foundation.Calendar
import ShadowMount.Scanf

/-!
# AMPR updater - the date of a response

{lit}`parse_http_modified_time` of {lit}`sm_ampr_updater.c` and the day count it uses.

The C language leaves open what {lit}`%u` stores for a number that no {lit}`unsigned` holds, so
that value is a parameter; {lit}`lowBits` is what libraries do.

Main results:

- Theorem {lit}`http_date_conversion`: what is accepted is a moment exactly when no number of the
  text that is outside of the range is taken for one inside.
-/

namespace ShadowMount.AmprUpdater

open Foundation.Calendar
open PkgServer

def isLeapYear (year : Nat) : Bool :=
  year % 4 = 0 && (year % 100 ≠ 0 || year % 400 = 0)

/-- `months`. -/
def months : List Text :=
  ["Jan", "Feb", "Mar", "Apr", "May", "Jun", "Jul", "Aug", "Sep", "Oct", "Nov", "Dec"].map
    String.toList

/-- `month_number`; zero for no month. -/
def monthNumber (name : Text) : Nat :=
  match months.findIdx? (sameNoCase name) with
  | some i => i + 1
  | none => 0

/-- A value of the type `unsigned`. -/
def unsigned (n : Int) : Nat := (n % 2 ^ 32).toNat

/-- `days_from_civil`. -/
def daysFromCivil (year : Int) (month day : Nat) : Int :=
  let year := year - if month ≤ 2 then 1 else 0
  let era := (if 0 ≤ year then year else year - 399).tdiv 400
  let yearOfEra := unsigned (year - era * 400)
  let adjustedMonth := unsigned (month + if 2 < month then -3 else 9)
  let dayOfYear := unsigned (unsigned (153 * adjustedMonth + 2) / 5 + day - 1)
  let dayOfEra := unsigned (yearOfEra * 365 + yearOfEra / 4 - yearOfEra / 100 + dayOfYear)
  era * 146097 + dayOfEra - 719468

/-- The format of `parse_http_modified_time`: `%4s %u %3s %u %u:%u:%u %3s %c`. -/
def modifiedTimeFormat : List Directive :=
  [.field 4, .blank, .number, .blank, .field 3, .blank, .number, .blank, .number, .literal ':',
    .number, .literal ':', .number, .blank, .field 3, .blank, .char]

/-- The fields of a date, its numbers as they are written. -/
structure Fields where
  weekday : Text
  day : Int
  monthName : Text
  year : Int
  hour : Int
  minute : Int
  second : Int
  zone : Text
deriving DecidableEq

/-- The fields of a text of which `sscanf` converts eight. -/
def scanFields (value : Text) : Option Fields :=
  match sscanf modifiedTimeFormat value with
  | [.field weekday, .number day, .field monthName, .number year, .number hour, .number minute,
      .number second, .field zone] =>
      some ⟨weekday, day, monthName, year, hour, minute, second, zone⟩
  | _ => none

/-- Does an `unsigned` hold the number? -/
def Representable (n : Int) : Prop := 0 ≤ n ∧ n < 2 ^ 32

instance : DecidablePred Representable := fun n =>
  inferInstanceAs (Decidable (0 ≤ n ∧ n < 2 ^ 32))

variable (overflow : Int → UInt32)

/-- What `%u` stores for a number. -/
def stored (n : Int) : Nat := if Representable n then n.toNat else (overflow n).toNat

/-- `days_per_month`. -/
def daysPerMonth : List Nat := [31, 28, 31, 30, 31, 30, 31, 31, 30, 31, 30, 31]

/-- The checks and the result of `parse_http_modified_time` for the values that are stored;
`time_t` has 64 bits. -/
def convertFields (weekday monthName zone : Text) (day year hour minute second : Nat) :
    Option Int :=
  let month := monthNumber monthName
  if weekday.length ≠ 4 ∨ weekday[3]? ≠ some ',' ∨ zone ≠ "GMT".toList ∨ year < 1970 ∨
      9999 < year ∨ month = 0 ∨ 23 < hour ∨ 59 < minute ∨ 59 < second then none
  else
    let maxDay := daysPerMonth.getD (month - 1) 0 +
      if month = 2 ∧ isLeapYear year = true then 1 else 0
    if day = 0 ∨ maxDay < day then none
    else some (daysFromCivil year month day * 86400 + hour * 3600 + minute * 60 + second)

/-- `parse_http_modified_time`. -/
def parseHttpModifiedTime (value : Text) : Option Int :=
  match scanFields value with
  | none => none
  | some f =>
    convertFields f.weekday f.monthName f.zone (stored overflow f.day) (stored overflow f.year)
      (stored overflow f.hour) (stored overflow f.minute) (stored overflow f.second)

/-- What libraries store for a number that does not fit: its low 32 bits, and the largest number
when 64 bits do not hold it either. -/
def lowBits (n : Int) : UInt32 := if n.natAbs < 2 ^ 64 then UInt32.ofInt n else 4294967295

/-- The form of a date in a header: `Sun, 06 Nov 1994 08:49:37 GMT`. -/
def dateText (weekday monthName : Text) (day year hour minute second : Nat) : Text :=
  weekday ++ [','] ++ ' ' :: (padded 2 day ++ ' ' :: (monthName ++ ' ' :: (padded 4 year ++
    ' ' :: (padded 2 hour ++ ':' :: (padded 2 minute ++ ':' :: (padded 2 second ++
      " GMT".toList))))))

/-- The form of a moment. -/
def httpDate (weekday : Text) (m : Moment) : Text :=
  dateText weekday (months.getD (m.month - 1) []) m.day m.year m.hour m.minute m.second

/-- The years that are converted. -/
def InRange (m : Moment) : Prop := 1970 ≤ m.year ∧ m.year ≤ 9999

/-- The fields are those of a moment. -/
def Fields.Valid (f : Fields) : Prop :=
  ∃ m : Moment, InRange m ∧ f.day = m.day ∧ monthNumber f.monthName = m.month ∧
    f.year = m.year ∧ f.hour = m.hour ∧ f.minute = m.minute ∧ f.second = m.second

/-- The numbers of the fields that an `unsigned` should hold. -/
def Fields.numbers (f : Fields) : List Int := [f.day, f.year, f.hour, f.minute, f.second]

/-- The fields with the numbers that are stored. -/
def Fields.stored (f : Fields) : Fields where
  weekday := f.weekday
  day := AmprUpdater.stored overflow f.day
  monthName := f.monthName
  year := AmprUpdater.stored overflow f.year
  hour := AmprUpdater.stored overflow f.hour
  minute := AmprUpdater.stored overflow f.minute
  second := AmprUpdater.stored overflow f.second
  zone := f.zone

/-- A weekday with its comma, and the zone. -/
def Fields.Framed (f : Fields) : Prop :=
  f.weekday.length = 4 ∧ f.weekday[3]? = some ',' ∧ f.zone = "GMT".toList

/-- No number of the text that does not fit is stored as a part of a moment. -/
def Faithful (value : Text) : Prop :=
  ∀ f, scanFields value = some f → f.Framed → (f.stored overflow).Valid →
    ∀ n ∈ f.numbers, Representable n

theorem isLeapYear_iff {year : Nat} : isLeapYear year = true ↔ IsLeap year := by
  simp [isLeapYear, IsLeap]

theorem unsigned_of_lt {n : Int} (hpos : 0 ≤ n) (h : n < 2 ^ 32) : (unsigned n : Int) = n := by
  unfold unsigned
  rw [Int.emod_eq_of_lt hpos h, Int.toNat_of_nonneg hpos]

/-- The formula for a year that begins in March: whole eras of 400 years, the years of the last
one and the days from its first of March. -/
theorem daysFromCivil_march (year : Int) {month day : Nat} (hyear : 1970 ≤ year)
    (hlast : year ≤ 9999) (hmonth : 1 ≤ month) (hmonth' : month ≤ 12) (hday : 1 ≤ day)
    (hday' : day ≤ 31) :
    let march := year - if month ≤ 2 then 1 else 0
    let adjusted : Int := month + if 2 < month then -3 else 9
    daysFromCivil year month day =
      365 * march + march / 4 - march / 100 + march / 400 + ((153 * adjusted + 2) / 5 + day - 1) -
        719468 := by
  intro march adjusted
  have hmarch : 1969 ≤ march ∧ march ≤ 9999 := by
    simp only [march]
    split <;> omega
  have hadjusted : 0 ≤ adjusted ∧ adjusted ≤ 11 := by
    simp only [adjusted]
    split <;> omega
  have hera : (if 0 ≤ march then march else march - 399).tdiv 400 = march / 400 := by
    rw [if_pos (by omega), Int.tdiv_eq_ediv_of_nonneg (by omega)]
  have hyearOfEra : (unsigned (march - march / 400 * 400) : Int) = march - march / 400 * 400 :=
    unsigned_of_lt (by omega) (by omega)
  have hadjusted' : (unsigned adjusted : Int) = adjusted :=
    unsigned_of_lt hadjusted.1 (by omega)
  have hdays : (unsigned (153 * adjusted + 2) : Int) = 153 * adjusted + 2 :=
    unsigned_of_lt (by omega) (by omega)
  have hdayOfYear : (unsigned ((153 * adjusted + 2) / 5 + day - 1) : Int) =
      (153 * adjusted + 2) / 5 + day - 1 :=
    unsigned_of_lt (by omega) (by omega)
  unfold daysFromCivil
  simp only [hera, hyearOfEra, hadjusted', hdays, hdayOfYear, march, adjusted] at *
  rw [unsigned_of_lt (by omega) (by omega)]
  omega

/-- The formula counts the days year by year. -/
theorem daysFromCivil_eq (d : Date) (hyear : 1970 ≤ d.year) (hlast : d.year ≤ 9999) :
    daysFromCivil d.year d.month d.day = d.days 1970 := by
  have hday := d.day_pos
  have hday' := d.day_le_31
  obtain ⟨before, hbefore⟩ : ∃ n, d.year = n + 1 := ⟨d.year - 1, by omega⟩
  have hepoch := daysBeforeYear_add (by decide : 1 ≤ 1970) hyear
  have hfirst : daysBeforeYear 1 1970 = 719162 := daysBeforeYear_one 1969
  have hyears := daysBeforeYear_one before
  have hleaps := leapsThrough_succ before
  rw [← hbefore] at hyears hleaps
  have hpos := d.month_pos
  rw [daysFromCivil_march d.year (by omega) (by omega) hpos d.month_le hday hday']
  simp only [Date.days, Date.dayOfYear, daysBeforeMonth_eq d.year hpos d.month_le]
  split
  next hearly =>
    have hcast := leapsThrough_cast before
    have hmarch : (d.year : Int) - 1 = before := by omega
    rw [hmarch, if_neg (by omega)]
    omega
  next hlate =>
    have hcast := leapsThrough_cast d.year
    rw [if_pos (by omega), Int.sub_zero]
    generalize (if IsLeap d.year then 1 else 0) = leap at *
    omega

/-- Every conversion finds its part of the form. -/
theorem scanFields_dateText {weekday monthName : Text} (hweekday : weekday.length = 3)
    (hsolid : Solid weekday) (hmonth : monthName.length = 3) (hmonthSolid : Solid monthName)
    (day year hour minute second : Nat) :
    scanFields (dateText weekday monthName day year hour minute second) =
      some ⟨weekday ++ [','], day, monthName, year, hour, minute, second, "GMT".toList⟩ := by
  have hblank : ∀ c ∈ [' '], isSpace c = true := by simp [isSpace]
  have hnone : ∀ c ∈ ([] : Text), isSpace c = true := by simp
  have hstops : ∀ {c : Char} (rest : Text), c.isDigit = false → Stops (c :: rest) := by
    intro c rest hc d hd
    simp only [List.head?_cons, Option.mem_some] at hd
    rw [← hd, hc]
  have hcomma : Solid (weekday ++ [',']) := by
    intro c hc
    rcases List.mem_append.mp hc with hc | hc
    · exact hsolid c hc
    · rw [List.mem_singleton.mp hc]
      rfl
  have hlong : (weekday ++ [',']).length = 4 := by simp [hweekday]
  have hmonthNe : monthName ≠ [] := by
    rintro rfl
    cases hmonth
  have hweekdayField : ∀ rest, scanField 4 (weekday ++ ',' :: ' ' :: rest) =
      some (weekday ++ [','], ' ' :: rest) := by
    intro rest
    have hscan := scanField_solid 4 (by decide) (by simp) hcomma ' ' rfl [] rest hnone
    rw [List.take_of_length_le hlong.le, List.drop_of_length_le hlong.le] at hscan
    simpa using hscan
  have hmonthField : ∀ rest, scanField 3 (' ' :: (monthName ++ ' ' :: rest)) =
      some (monthName, ' ' :: rest) := by
    intro rest
    have hscan := scanField_solid 3 (by decide) hmonthNe hmonthSolid ' ' rfl [' '] rest hblank
    rw [List.take_of_length_le hmonth.le, List.drop_of_length_le hmonth.le] at hscan
    simpa using hscan
  have hnumber : ∀ width n rest, scanNumber (' ' :: (padded width n ++ ' ' :: rest)) =
      some ((n : Int), ' ' :: rest) := by
    intro width n rest
    simpa using scanNumber_padded hblank (hstops rest (rfl : ' '.isDigit = false)) width n
  have hhour : ∀ n rest, scanNumber (' ' :: (padded 2 n ++ ':' :: rest)) =
      some ((n : Int), ':' :: rest) := by
    intro n rest
    simpa using scanNumber_padded hblank (hstops rest (rfl : ':'.isDigit = false)) 2 n
  have hminute : ∀ n rest, scanNumber (padded 2 n ++ ':' :: rest) =
      some ((n : Int), ':' :: rest) := by
    intro n rest
    simpa using scanNumber_padded hnone (hstops rest (rfl : ':'.isDigit = false)) 2 n
  have hsecond : ∀ n, scanNumber (padded 2 n ++ " GMT".toList) =
      some ((n : Int), " GMT".toList) := by
    intro n
    exact scanNumber_padded hnone (hstops "GMT".toList (rfl : ' '.isDigit = false)) 2 n
  have hzone : scanField 3 " GMT".toList = some ("GMT".toList, []) := by decide
  unfold scanFields dateText modifiedTimeFormat
  simp only [sscanf, scanNumber_dropWhile, scanField_dropWhile, List.append_assoc,
    List.singleton_append, hweekdayField, hnumber, hmonthField, hhour, hminute, hsecond, hzone,
    if_true, List.dropWhile_nil]

theorem months_spec : ∀ i < 12, monthNumber (months.getD i []) = i + 1 ∧
    (months.getD i []).length = 3 ∧ Solid (months.getD i []) := by
  decide +kernel

theorem monthNumber_le (name : Text) : monthNumber name ≤ 12 := by
  unfold monthNumber
  split
  next i hfind =>
    have hlt := (List.findIdx?_eq_some_iff_getElem.mp hfind).1
    exact Nat.succ_le_of_lt hlt
  next => exact Nat.zero_le 12

theorem maxDay_eq (year : Nat) {month : Nat} (hpos : 1 ≤ month) (hle : month ≤ 12) :
    (daysPerMonth.getD (month - 1) 0 + if month = 2 ∧ isLeapYear year = true then 1 else 0) =
      daysInMonth year month := by
  simp only [isLeapYear_iff]
  interval_cases month
  all_goals simp [daysPerMonth, daysInMonth]
  by_cases hleap : IsLeap year
  · simp [hleap]
  · simp [hleap]

/-- The fields that are converted are those of a moment in range. -/
theorem convertFields_eq_some_iff {weekday monthName zone : Text}
    {day year hour minute second : Nat} {t : Int} :
    convertFields weekday monthName zone day year hour minute second = some t ↔
      (weekday.length = 4 ∧ weekday[3]? = some ',' ∧ zone = "GMT".toList) ∧
      ∃ m : Moment, InRange m ∧ day = m.day ∧ monthNumber monthName = m.month ∧ year = m.year ∧
        hour = m.hour ∧ minute = m.minute ∧ second = m.second ∧ t = m.seconds 1970 := by
  have hmonth := monthNumber_le monthName
  unfold convertFields
  dsimp only
  constructor
  · intro h
    split at h
    next => cases h
    next hfields =>
      simp only [not_or, ne_eq, not_not, Nat.not_lt] at hfields
      obtain ⟨hlength, hcomma, hzone, hfirst, hlast, hne, hhour, hminute, hsecond⟩ := hfields
      have hpos : 1 ≤ monthNumber monthName := Nat.one_le_iff_ne_zero.mpr hne
      rw [maxDay_eq year hpos hmonth] at h
      split at h
      next => cases h
      next hday =>
        simp only [not_or, Nat.not_lt] at hday
        let m : Moment := ⟨⟨year, monthNumber monthName, day, hpos, hmonth,
          Nat.one_le_iff_ne_zero.mpr hday.1, hday.2⟩, hour, minute, second, by omega, by omega,
          by omega⟩
        refine ⟨⟨hlength, hcomma, hzone⟩, m, ⟨hfirst, hlast⟩, rfl, rfl, rfl, rfl, rfl, rfl, ?_⟩
        have hdays := daysFromCivil_eq m.toDate hfirst hlast
        simp only [m] at hdays
        simp only [Option.some.injEq] at h
        rw [← h, hdays]
        simp only [Moment.seconds, m]
        omega
  · rintro ⟨⟨hlength, hcomma, hzone⟩, m, ⟨hfirst, hlast⟩, rfl, hname, rfl, rfl, rfl, rfl, rfl⟩
    have hpos := m.month_pos
    have hhour := m.hour_lt
    have hminute := m.minute_lt
    have hsecond := m.second_lt
    have hday := m.day_pos
    have hday' := m.day_le
    rw [hname, maxDay_eq m.year m.month_pos m.month_le, if_neg, if_neg,
      daysFromCivil_eq m.toDate hfirst hlast]
    · simp only [Moment.seconds, Option.some.injEq]
      omega
    · omega
    · simp only [hlength, hcomma, hzone, ne_eq, not_true_eq_false, false_or]
      omega

theorem stored_of_representable {n : Int} (h : Representable n) :
    (stored overflow n : Int) = n := by
  unfold stored
  rw [if_pos h, Int.toNat_of_nonneg h.1]

theorem stored_natCast {n : Nat} (h : n < 2 ^ 32) : stored overflow (n : Int) = n := by
  have hfits : Representable (n : Int) := ⟨Int.natCast_nonneg n, by exact_mod_cast h⟩
  exact_mod_cast stored_of_representable overflow hfits

/-- What is accepted, in terms of the stored fields. -/
theorem parseHttpModifiedTime_eq_some_iff {value : Text} {t : Int} :
    parseHttpModifiedTime overflow value = some t ↔
      ∃ f, scanFields value = some f ∧ f.Framed ∧
        ∃ m : Moment, InRange m ∧ stored overflow f.day = m.day ∧
          monthNumber f.monthName = m.month ∧ stored overflow f.year = m.year ∧
          stored overflow f.hour = m.hour ∧ stored overflow f.minute = m.minute ∧
          stored overflow f.second = m.second ∧ t = m.seconds 1970 := by
  unfold parseHttpModifiedTime
  cases hscan : scanFields value with
  | none => simp
  | some f =>
    dsimp only
    rw [convertFields_eq_some_iff]
    simp [Fields.Framed]

/-- The form of a moment is read as its seconds. -/
theorem parseHttpModifiedTime_httpDate {weekday : Text} (hweekday : weekday.length = 3)
    (hsolid : Solid weekday) {m : Moment} (hrange : InRange m) :
    parseHttpModifiedTime overflow (httpDate weekday m) = some (m.seconds 1970 : Int) := by
  have hpos := m.month_pos
  have hle := m.month_le
  have hday := m.day_le_31
  have hhour := m.hour_lt
  have hminute := m.minute_lt
  have hsecond := m.second_lt
  have hlast := hrange.2
  obtain ⟨hnumber, hlength, hmonthSolid⟩ := months_spec (m.month - 1) (by omega)
  rw [parseHttpModifiedTime_eq_some_iff]
  refine ⟨_, scanFields_dateText hweekday hsolid hlength hmonthSolid _ _ _ _ _, ?_, m, hrange,
    stored_natCast overflow (by omega), ?_, stored_natCast overflow (by omega),
    stored_natCast overflow (by omega), stored_natCast overflow (by omega),
    stored_natCast overflow (by omega), rfl⟩
  · refine ⟨by simp [hweekday], ?_, rfl⟩
    rw [List.getElem?_append_right hweekday.le, hweekday]
    rfl
  · dsimp only
    rw [hnumber]
    omega

theorem Fields.Valid.numbers {f : Fields} (h : f.Valid) : ∀ n ∈ f.numbers, Representable n := by
  obtain ⟨m, hrange, hday, -, hyear, hhour, hminute, hsecond⟩ := h
  have hlast := hrange.2
  have hhour' := m.hour_lt
  have hminute' := m.minute_lt
  have hsecond' := m.second_lt
  have hday' := m.day_le_31
  intro n hn
  simp only [Fields.numbers, List.mem_cons, List.not_mem_nil, or_false] at hn
  unfold Representable
  rcases hn with rfl | rfl | rfl | rfl | rfl
  all_goals omega

theorem Fields.stored_eq {f : Fields} (h : ∀ n ∈ f.numbers, Representable n) :
    f.stored overflow = f := by
  have hstored : ∀ n ∈ f.numbers, (AmprUpdater.stored overflow n : Int) = n :=
    fun n hn => stored_of_representable overflow (h n hn)
  simp only [Fields.numbers, List.forall_mem_cons] at hstored
  obtain ⟨hday, hyear, hhour, hminute, hsecond, -⟩ := hstored
  simp only [Fields.stored, hday, hyear, hhour, hminute, hsecond]

/-- The form of every moment of the years 1970 to 9999 is read as the seconds that are counted up
to it, so that later moments are read as larger numbers; and a text that is accepted has the
fields of a moment exactly if no number that does not fit is stored as a part of one. -/
theorem http_date_conversion (value : Text) :
    (∀ (weekday : Text) (m : Moment), weekday.length = 3 → Solid weekday → InRange m →
      parseHttpModifiedTime overflow (httpDate weekday m) = some (m.seconds 1970 : Int)) ∧
    (∀ m m' : Moment, InRange m → m.parts < m'.parts → m.seconds 1970 < m'.seconds 1970) ∧
    ((∀ t, parseHttpModifiedTime overflow value = some t →
        ∃ f, scanFields value = some f ∧ f.Valid) ↔
      Faithful overflow value) := by
  refine ⟨fun weekday m hweekday hsolid hrange =>
    parseHttpModifiedTime_httpDate overflow hweekday hsolid hrange, fun m m' hrange hlater =>
    Moment.seconds_lt hrange.1 hlater, ?_, ?_⟩
  · intro hvalid f hscan hframed hstored
    obtain ⟨m, hrange, hday, hmonth, hyear, hhour, hminute, hsecond⟩ := hstored
    simp only [Fields.stored, Nat.cast_inj] at hday hmonth hyear hhour hminute hsecond
    obtain ⟨f', hscan', hfields⟩ :=
      hvalid (m.seconds 1970) ((parseHttpModifiedTime_eq_some_iff overflow).mpr
        ⟨f, hscan, hframed, m, hrange, hday, hmonth, hyear, hhour, hminute, hsecond, rfl⟩)
    rw [hscan, Option.some.injEq] at hscan'
    rw [hscan']
    exact hfields.numbers
  · intro hfaithful t hparse
    obtain ⟨f, hscan, hframed, m, hrange, hday, hmonth, hyear, hhour, hminute, hsecond, -⟩ :=
      (parseHttpModifiedTime_eq_some_iff overflow).mp hparse
    have hstored : (f.stored overflow).Valid := by
      refine ⟨m, hrange, ?_, hmonth, ?_, ?_, ?_, ?_⟩
      all_goals simp only [Fields.stored, hday, hyear, hhour, hminute, hsecond]
    have hfits := hfaithful f hscan hframed hstored
    refine ⟨f, hscan, ?_⟩
    rwa [Fields.stored_eq overflow hfits] at hstored

/-- A number of ten digits is stored as the day six. -/
theorem overflowing_day_accepted :
    ¬ ∀ value t, parseHttpModifiedTime lowBits value = some t →
      ∃ f, scanFields value = some f ∧ f.Valid := by
  intro h
  have hparse : parseHttpModifiedTime lowBits "Sun, 4294967302 Nov 1994 08:49:37 GMT".toList =
      some 784111777 := by
    decide +kernel
  obtain ⟨f, hscan, hvalid⟩ := h _ _ hparse
  have hscan' : scanFields "Sun, 4294967302 Nov 1994 08:49:37 GMT".toList =
      some ⟨"Sun,".toList, 4294967302, "Nov".toList, 1994, 8, 49, 37, "GMT".toList⟩ := by
    decide +kernel
  rw [hscan', Option.some.injEq] at hscan
  have hday := hvalid.numbers f.day (List.mem_cons_self ..)
  rw [← hscan] at hday
  exact absurd hday (by decide)

end ShadowMount.AmprUpdater
