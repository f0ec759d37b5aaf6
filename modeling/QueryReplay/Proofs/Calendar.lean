import Mathlib.Tactic.IntervalCases
import Mathlib.Tactic.NormNum
import Mathlib.Tactic.Ring
import QueryReplay.Calendar.Civil

/-! # The calendar — days and seconds one after another

    The proleptic Gregorian calendar says what follows: a day of the month the next one,
    the last day of a month the first of the next month, the last day of a year New
    Year's Day, where February has a 29th day in every fourth year but three of each
    four centuries.  With one day given, that is all there is to say (`IsClock.unique`,
    which counts seconds).  `CivilDate.ofDays` computes a date at once, from the cycle of
    400 years and the years and months counted from March.  The route:

    * a day of the cycle has a year, a month and a day of the month, each within its
      bounds (`exists_place`), and they are what `ofDays` finds (`ofDays_place`);
    * so the date of the next day is found by one more step of the calendar
      (`ofDays_succ`), and the same for seconds (`isClock_civilTime`). -/

namespace QueryReplay

namespace CivilDate

/-! ## What follows a day -/

/-- Whether February has a 29th day. -/
def isLeap (year : Int) : Bool :=
  decide (year % 4 = 0) && (decide (year % 100 ≠ 0) || decide (year % 400 = 0))

/-- The number of the days of a month. -/
def monthLength (year : Int) : Nat → Nat
  | 2 => if isLeap year then 29 else 28
  | 4 => 30
  | 6 => 30
  | 9 => 30
  | 11 => 30
  | _ => 31

/-- A date that the calendar has. -/
structure IsDate (d : CivilDate) : Prop where
  month_pos : 1 ≤ d.month
  month_le : d.month ≤ 12
  day_pos : 1 ≤ d.day
  day_le : d.day ≤ monthLength d.year d.month

/-- The next day. -/
def next (d : CivilDate) : CivilDate :=
  if d.day < monthLength d.year d.month then { d with day := d.day + 1 }
  else if d.month < 12 then ⟨d.year, d.month + 1, 1⟩
  else ⟨d.year + 1, 1, 1⟩

/-- The leap years of all cycles are the same. -/
theorem isLeap_cycle (cycle year : Int) : isLeap (cycle * 400 + year) = isLeap year := by
  have h4 : (cycle * 400 + year) % 4 = year % 4 := by omega
  have h100 : (cycle * 400 + year) % 100 = year % 100 := by omega
  have h400 : (cycle * 400 + year) % 400 = year % 400 := by omega
  rw [isLeap, h4, h100, h400, isLeap]

theorem monthLength_cycle (cycle year : Int) (month : Nat) :
    monthLength (cycle * 400 + year) month = monthLength year month := by
  unfold monthLength
  rw [isLeap_cycle]

theorem monthLength_pos (year : Int) (month : Nat) : 0 < monthLength year month := by
  unfold monthLength
  repeat' split
  all_goals decide

/-- The three things that can follow a day. -/
theorem next_cases (d : CivilDate) :
    (d.day < monthLength d.year d.month ∧ d.next = { d with day := d.day + 1 })
      ∨ (monthLength d.year d.month ≤ d.day ∧ d.month < 12 ∧ d.next = ⟨d.year, d.month + 1, 1⟩)
      ∨ (monthLength d.year d.month ≤ d.day ∧ 12 ≤ d.month ∧ d.next = ⟨d.year + 1, 1, 1⟩) := by
  by_cases hday : d.day < monthLength d.year d.month
  · exact .inl ⟨hday, by rw [next, if_pos hday]⟩
  · by_cases hmonth : d.month < 12
    · exact .inr (.inl ⟨by omega, hmonth, by rw [next, if_neg hday, if_pos hmonth]⟩)
    · exact .inr (.inr ⟨by omega, by omega, by rw [next, if_neg hday, if_neg hmonth]⟩)

theorem IsDate.next {d : CivilDate} (h : d.IsDate) : d.next.IsDate := by
  obtain ⟨h₁, h₂, h₃, h₄⟩ := h
  rcases next_cases d with ⟨hday, heq⟩ | ⟨-, hmonth, heq⟩ | ⟨-, -, heq⟩
  · rw [heq]
    exact ⟨h₁, h₂, Nat.le_add_left 1 _, hday⟩
  · rw [heq]
    exact ⟨Nat.le_add_left 1 _, hmonth, le_rfl, monthLength_pos _ _⟩
  · rw [heq]
    exact ⟨le_rfl, by simp, le_rfl, monthLength_pos _ _⟩

/-- No two days have one next day: a first of a month tells the month before, and the
    length of that the day. -/
theorem next_injective {a b : CivilDate} (ha : a.IsDate) (hb : b.IsDate) (h : a.next = b.next) :
    a = b := by
  obtain ⟨ay, am, ad⟩ := a
  obtain ⟨y, bm, bd⟩ := b
  obtain ⟨ha₁, ha₂, ha₃, ha₄⟩ := ha
  obtain ⟨hb₁, hb₂, hb₃, hb₄⟩ := hb
  rcases next_cases ⟨ay, am, ad⟩ with ⟨-, heqa⟩ | ⟨hda, hma, heqa⟩ | ⟨hda, hma, heqa⟩ <;>
  rcases next_cases ⟨y, bm, bd⟩ with ⟨-, heqb⟩ | ⟨hdb, hmb, heqb⟩ | ⟨hdb, hmb, heqb⟩ <;>
  rw [heqa, heqb] at h <;>
  obtain ⟨hyear, hmonth, hday⟩ := mk.inj h <;>
  dsimp only at *
  case inl.inl =>
    simp only [mk.injEq]
    omega
  case inr.inl.inr.inl =>
    obtain rfl : am = bm := by omega
    subst hyear
    simp only [mk.injEq, true_and]
    omega
  case inr.inr.inr.inr =>
    obtain rfl : ay = y := by omega
    obtain rfl : am = 12 := by omega
    obtain rfl : bm = 12 := by omega
    have hlast : monthLength ay 12 = 31 := rfl
    simp only [mk.injEq, true_and]
    omega
  all_goals omega

/-! ## Years and months that begin in March -/

/-- The number of the days of a year of the cycle that begins in March. -/
def yearLength (year : Nat) : Nat := if isLeap ((year : Int) + 1) then 366 else 365

/-- The civil month of a month counted from March. -/
def civilMonth (month : Nat) : Nat := if month < 10 then month + 3 else month - 9

/-- The civil year in which a month, counted from March, of a year falls. -/
def civilYear (year : Int) (month : Nat) : Int := year + if month < 10 then 0 else 1

/-- How far the years of the cycle have come, for all but the length of a year. -/
theorem startOfYear_succ {year : Nat} (h : year < 399) :
    startOfYear (year + 1) = startOfYear year + yearLength year := by
  have hleap : isLeap ((year : Int) + 1)
      = decide ((year + 1) % 4 = 0 ∧ (year + 1) % 100 ≠ 0) := by
    unfold isLeap
    rw [Bool.eq_iff_iff]
    simp only [Bool.and_eq_true, Bool.or_eq_true, decide_eq_true_eq]
    omega
  unfold yearLength startOfYear
  rw [hleap]
  by_cases hdays : (year + 1) % 4 = 0 ∧ (year + 1) % 100 ≠ 0
  · rw [if_pos (decide_eq_true hdays)]
    omega
  · rw [if_neg (by simpa using hdays)]
    omega

/-- The last year of the cycle is a leap year. -/
theorem startOfYear_last : startOfYear 399 + yearLength 399 = cycleDays := by decide

theorem yearOfCycle_mono {a b : Nat} (h : a ≤ b) : yearOfCycle a ≤ yearOfCycle b := by
  refine Nat.div_le_div_right ?_
  induction b, h using Nat.le_induction with
  | base => exact le_rfl
  | succ n _ ih => omega

/-- At both ends of a year; the years are few. -/
theorem yearOfCycle_ends : ∀ year < 400, yearOfCycle (startOfYear year) = year
    ∧ yearOfCycle (startOfYear year + (yearLength year - 1)) = year := by
  decide +kernel

theorem yearOfCycle_place {year day : Nat} (hyear : year < 400) (hday : day < yearLength year) :
    yearOfCycle (startOfYear year + day) = year := by
  obtain ⟨hfirst, hlast⟩ := yearOfCycle_ends year hyear
  refine le_antisymm ?_ ?_
  · calc yearOfCycle (startOfYear year + day)
        ≤ yearOfCycle (startOfYear year + (yearLength year - 1)) := yearOfCycle_mono (by omega)
      _ = year := hlast
  · calc year = yearOfCycle (startOfYear year) := hfirst.symm
      _ ≤ yearOfCycle (startOfYear year + day) := yearOfCycle_mono (by omega)

/-- Every day of the cycle falls in a year. -/
theorem exists_year {day : Nat} (h : day < cycleDays) :
    ∃ year < 400, ∃ dayOfYear < yearLength year, day = startOfYear year + dayOfYear := by
  have hbelow : ∀ year ≤ 399, day < startOfYear year + yearLength year →
      ∃ y < 400, ∃ dayOfYear < yearLength y, day = startOfYear y + dayOfYear := by
    intro year hyear hday
    induction year with
    | zero => exact ⟨0, by omega, day, by simpa [startOfYear] using hday, by simp [startOfYear]⟩
    | succ year ih =>
        by_cases hbefore : day < startOfYear year + yearLength year
        · exact ih (by omega) hbefore
        · rw [← startOfYear_succ (by omega)] at hbefore
          exact ⟨year + 1, by omega, day - startOfYear (year + 1), by omega, by omega⟩
  exact hbelow 399 le_rfl (startOfYear_last ▸ h)

/-- A month is as long as it is until the next one, and the last one lasts to the end of
    the year. -/
theorem startOfMonth_succ (year : Nat) {month : Nat} (h : month < 12) :
    startOfMonth month + monthLength (civilYear year month) (civilMonth month)
      = if month = 11 then yearLength year else startOfMonth (month + 1) := by
  interval_cases month
  case «11» =>
    simp only [civilYear, civilMonth, monthLength, yearLength, startOfMonth]
    norm_num
    split <;> rfl
  all_goals rfl

theorem monthOfYear_place (year : Nat) {month day : Nat} (hmonth : month < 12)
    (hday : day < monthLength (civilYear year month) (civilMonth month)) :
    monthOfYear (startOfMonth month + day) = month := by
  have hend := startOfMonth_succ year hmonth
  have hlength : yearLength year ≤ 366 := by
    unfold yearLength
    split <;> omega
  unfold startOfMonth at hend
  unfold monthOfYear startOfMonth
  split at hend <;> omega

theorem startOfMonth_le (dayOfYear : Nat) : startOfMonth (monthOfYear dayOfYear) ≤ dayOfYear := by
  unfold startOfMonth monthOfYear
  omega

/-- Every day of a year falls in a month. -/
theorem exists_month {year dayOfYear : Nat} (h : dayOfYear < yearLength year) :
    ∃ month < 12, ∃ day < monthLength (civilYear year month) (civilMonth month),
      dayOfYear = startOfMonth month + day := by
  have hlength : yearLength year ≤ 366 := by
    unfold yearLength
    split <;> omega
  have hmonth : monthOfYear dayOfYear < 12 := by
    unfold monthOfYear
    omega
  have hbegin := startOfMonth_le dayOfYear
  have hend := startOfMonth_succ year hmonth
  refine ⟨monthOfYear dayOfYear, hmonth, dayOfYear - startOfMonth (monthOfYear dayOfYear), ?_,
    by omega⟩
  have hnext : monthOfYear dayOfYear ≠ 11 →
      dayOfYear < startOfMonth (monthOfYear dayOfYear + 1) := by
    intro _
    unfold startOfMonth monthOfYear
    omega
  split at hend
  · omega
  · next hne =>
      have := hnext hne
      omega

/-! ## The date of a number of days -/

/-- The place of a day: its cycle, the year and the month, counted from March, and the
    day of the month, counted from 0. -/
structure Place where
  cycle : Int
  year : Nat
  month : Nat
  day : Nat

namespace Place

/-- Each part is within its bounds. -/
structure IsValid (p : Place) : Prop where
  year_lt : p.year < 400
  month_lt : p.month < 12
  day_lt : p.day < monthLength (civilYear p.year p.month) (civilMonth p.month)

/-- The days from the beginning of 1970. -/
def days (p : Place) : Int :=
  p.cycle * cycleDays + (startOfYear p.year + (startOfMonth p.month + p.day) : Nat) - epochOffset

def date (p : Place) : CivilDate :=
  ⟨civilYear (p.cycle * 400 + p.year) p.month, civilMonth p.month, p.day + 1⟩

theorem lengthOfMonth (p : Place) :
    monthLength p.date.year p.date.month
      = monthLength (civilYear p.year p.month) (civilMonth p.month) := by
  have hyear : p.date.year = p.cycle * 400 + civilYear p.year p.month := by
    simp only [date, civilYear]
    omega
  rw [hyear, monthLength_cycle]
  rfl

theorem IsValid.dayOfYear_lt {p : Place} (h : p.IsValid) :
    startOfMonth p.month + p.day < yearLength p.year := by
  have hend := startOfMonth_succ p.year h.month_lt
  have hday := h.day_lt
  have hyear : 365 ≤ yearLength p.year := by
    unfold yearLength
    split <;> omega
  have hmonth := h.month_lt
  split at hend
  · omega
  · unfold startOfMonth at hend ⊢
    omega

theorem IsValid.isDate {p : Place} (h : p.IsValid) : p.date.IsDate := by
  have hmonth := h.month_lt
  have hday := h.day_lt
  have hcivil : 1 ≤ civilMonth p.month ∧ civilMonth p.month ≤ 12 := by
    unfold civilMonth
    split <;> omega
  refine ⟨hcivil.1, hcivil.2, by simp [date], ?_⟩
  rw [p.lengthOfMonth]
  exact hday

end Place

/-- Every day has a place. -/
theorem exists_place (days : Int) : ∃ p : Place, p.IsValid ∧ p.days = days := by
  have hpos : (0 : Int) < cycleDays := by decide
  have hday : ((days + epochOffset) % cycleDays).toNat < cycleDays := by
    have := Int.emod_nonneg (days + epochOffset) hpos.ne'
    have := Int.emod_lt_of_pos (days + epochOffset) hpos
    omega
  obtain ⟨year, hyear, dayOfYear, hdays, hplace⟩ := exists_year hday
  obtain ⟨month, hmonth, day, hlength, rfl⟩ := exists_month hdays
  refine ⟨⟨(days + epochOffset) / cycleDays, year, month, day⟩, ⟨hyear, hmonth, hlength⟩, ?_⟩
  have hsplit := Int.mul_ediv_add_emod (days + epochOffset) cycleDays
  have hrest := Int.emod_nonneg (days + epochOffset) hpos.ne'
  simp only [Place.days, ← hplace]
  rw [Int.toNat_of_nonneg hrest, mul_comm]
  omega

/-- The cycle of a day is the quotient by its length, and the day of the cycle the rest. -/
theorem Place.IsValid.split {p : Place} (h : p.IsValid) :
    (p.days + epochOffset) / cycleDays = p.cycle
      ∧ (p.days + epochOffset) % cycleDays
        = (startOfYear p.year + (startOfMonth p.month + p.day) : Nat) := by
  have hpos : (0 : Int) < cycleDays := by decide
  have hdayOfYear := h.dayOfYear_lt
  have hcycle : startOfYear p.year + (startOfMonth p.month + p.day) < cycleDays := by
    have hyear := h.year_lt
    by_cases hlast : p.year = 399
    · rw [hlast] at hdayOfYear ⊢
      have := startOfYear_last
      omega
    · have hnext := startOfYear_succ (show p.year < 399 by omega)
      have hend : startOfYear (p.year + 1) ≤ cycleDays := by
        unfold startOfYear cycleDays
        omega
      omega
  have hz : p.days + epochOffset
      = ((startOfYear p.year + (startOfMonth p.month + p.day) : Nat) : Int)
        + cycleDays * p.cycle := by
    simp only [Place.days]
    rw [mul_comm]
    omega
  constructor
  · rw [hz, Int.add_mul_ediv_left _ _ hpos.ne', Int.ediv_eq_zero_of_lt (by omega) (by omega),
      zero_add]
  · rw [hz, Int.add_mul_emod_self_left, Int.emod_eq_of_lt (by omega) (by omega)]

/-- What is computed for a day is told by its place. -/
theorem ofDays_place {p : Place} (h : p.IsValid) : ofDays p.days = p.date := by
  have hpos : (0 : Int) < cycleDays := by decide
  obtain ⟨hcycle, hday⟩ := h.split
  rw [← Int.fdiv_eq_ediv_of_nonneg _ hpos.le] at hcycle
  rw [← Int.fmod_eq_emod_of_nonneg _ hpos.le] at hday
  simp only [ofDays, hcycle, hday, Int.toNat_natCast, yearOfCycle_place h.year_lt h.dayOfYear_lt,
    Nat.add_sub_cancel_left, monthOfYear_place p.year h.month_lt h.day_lt]
  simp only [Place.date, civilYear, civilMonth]

theorem isDate_ofDays (days : Int) : (ofDays days).IsDate := by
  obtain ⟨p, hp, rfl⟩ := exists_place days
  rw [ofDays_place hp]
  exact hp.isDate

/-- The first of the month behind a month of the year, counted from March. -/
theorem civil_succ {month : Nat} (h : month < 11) (year : Int) :
    (if civilMonth month < 12 then ⟨civilYear year month, civilMonth month + 1, 1⟩
      else ⟨civilYear year month + 1, 1, 1⟩ : CivilDate)
      = ⟨civilYear year (month + 1), civilMonth (month + 1), 1⟩ := by
  interval_cases month <;> simp [civilMonth, civilYear]

/-- The first of March, behind February. -/
theorem civil_last (year : Int) :
    (if civilMonth 11 < 12 then ⟨civilYear year 11, civilMonth 11 + 1, 1⟩
      else ⟨civilYear year 11 + 1, 1, 1⟩ : CivilDate)
      = ⟨civilYear (year + 1) 0, civilMonth 0, 1⟩ := by
  simp [civilMonth, civilYear]

/-- The next day within the month, the next month, the next year or the next cycle. -/
theorem exists_next {p : Place} (h : p.IsValid) :
    ∃ q : Place, q.IsValid ∧ q.days = p.days + 1 ∧ q.date = p.date.next := by
  obtain ⟨cycle, year, month, day⟩ := p
  have hlength := Place.lengthOfMonth ⟨cycle, year, month, day⟩
  obtain ⟨hyear, hmonth, hday⟩ := h
  dsimp only [Place.date] at hyear hmonth hday hlength ⊢
  have hend := startOfMonth_succ year hmonth
  -- inside of the month, at the end of the year, which may end the cycle, or at that of a month
  by_cases hin : day + 1 < monthLength (civilYear year month) (civilMonth month)
  · refine ⟨⟨cycle, year, month, day + 1⟩, ⟨hyear, hmonth, hin⟩, ?_, ?_⟩
    · simp only [Place.days]
      omega
    · rw [next, if_pos (by rw [hlength]; exact hin)]
  have hout : ¬day + 1 < monthLength (civilYear (cycle * 400 + year) month) (civilMonth month) := by
    rwa [hlength]
  rw [next, if_neg hout]
  by_cases hlast : month = 11
  · subst hlast
    rw [if_pos rfl] at hend
    rw [civil_last]
    by_cases hcycle : year = 399
    · subst hcycle
      refine ⟨⟨cycle + 1, 0, 0, 0⟩, ⟨by simp, by simp, monthLength_pos _ _⟩, ?_, ?_⟩
      · have hwhole := startOfYear_last
        have hzero : startOfYear 0 + (startOfMonth 0 + 0) = 0 := by decide
        have hnext : (cycle + 1) * (cycleDays : Int) = cycle * cycleDays + cycleDays := by ring
        simp only [Place.days, hzero]
        omega
      · have hnext : (cycle + 1) * 400 + ((0 : Nat) : Int) = cycle * 400 + (399 : Nat) + 1 := by
          push_cast
          ring
        rw [hnext]
    · have hnext := startOfYear_succ (show year < 399 by omega)
      have hyear' : year + 1 < 400 := by omega
      refine ⟨⟨cycle, year + 1, 0, 0⟩, ⟨hyear', by simp, monthLength_pos _ _⟩, ?_, ?_⟩
      · have hzero : startOfMonth 0 = 0 := by decide
        simp only [Place.days, hnext, hzero]
        omega
      · push_cast
        rw [← add_assoc]
  · have hmonth' : month + 1 < 12 := by omega
    rw [if_neg hlast] at hend
    rw [civil_succ (by omega)]
    refine ⟨⟨cycle, year, month + 1, 0⟩, ⟨hyear, hmonth', monthLength_pos _ _⟩, ?_, rfl⟩
    simp only [Place.days]
    omega

/-- One more day is the next date. -/
theorem ofDays_succ (days : Int) : ofDays (days + 1) = (ofDays days).next := by
  obtain ⟨p, hp, rfl⟩ := exists_place days
  obtain ⟨q, hq, hdays, hdate⟩ := exists_next hp
  rw [← hdays, ofDays_place hq, ofDays_place hp, hdate]

/-- The cycle of a day bounds its year. -/
theorem year_ofDays (days : Int) :
    (days + epochOffset) / cycleDays * 400 ≤ (ofDays days).year
      ∧ (ofDays days).year ≤ (days + epochOffset) / cycleDays * 400 + 400 := by
  obtain ⟨p, hp, rfl⟩ := exists_place days
  have hyear := hp.year_lt
  rw [ofDays_place hp, hp.split.1]
  simp only [Place.date, civilYear]
  constructor <;> split <;> omega

end CivilDate

/-! ## Seconds -/

/-- A date and a time of day. -/
structure CivilTime where
  date : CivilDate
  hour : Nat
  minute : Nat
  second : Nat

namespace CivilTime

/-- A time that clocks show. -/
structure IsTime (t : CivilTime) : Prop where
  date : t.date.IsDate
  hour_lt : t.hour < 24
  minute_lt : t.minute < 60
  second_lt : t.second < 60

/-- The next second. -/
def tick (t : CivilTime) : CivilTime :=
  if t.second < 59 then { t with second := t.second + 1 }
  else if t.minute < 59 then { t with minute := t.minute + 1, second := 0 }
  else if t.hour < 23 then ⟨t.date, t.hour + 1, 0, 0⟩
  else ⟨t.date.next, 0, 0, 0⟩

/-- The beginning of 1970. -/
def epoch : CivilTime := ⟨⟨1970, 1, 1⟩, 0, 0, 0⟩

/-- Date and time as text. -/
def render (t : CivilTime) : String :=
  t.date.render ++ " " ++ padded 2 t.hour ++ ":" ++ padded 2 t.minute ++ ":" ++ padded 2 t.second

/-- The seconds since midnight. -/
def daySecond (t : CivilTime) : Nat := t.hour * 3600 + t.minute * 60 + t.second

/-- The seconds since midnight tell the time of day. -/
theorem ext_daySecond {a b : CivilTime} (ha : a.IsTime) (hb : b.IsTime) (hdate : a.date = b.date)
    (hsecond : a.daySecond = b.daySecond) : a = b := by
  obtain ⟨ad, ah, am, as⟩ := a
  obtain ⟨bd, bh, bm, bs⟩ := b
  obtain ⟨-, ha₁, ha₂, ha₃⟩ := ha
  obtain ⟨-, hb₁, hb₂, hb₃⟩ := hb
  dsimp only [daySecond] at *
  subst hdate
  simp only [mk.injEq, true_and]
  omega

/-- A day has 86400 seconds. -/
theorem tick_cases {t : CivilTime} (h : t.IsTime) :
    (t.daySecond < 86399 ∧ t.tick.date = t.date ∧ t.tick.daySecond = t.daySecond + 1)
      ∨ (t.daySecond = 86399 ∧ t.tick.date = t.date.next ∧ t.tick.daySecond = 0) := by
  obtain ⟨date, hour, minute, second⟩ := t
  obtain ⟨-, hhour, hminute, hsecond⟩ := h
  dsimp only [daySecond, tick] at *
  split
  · exact .inl ⟨by omega, rfl, by dsimp only; omega⟩
  · split
    · exact .inl ⟨by omega, rfl, by dsimp only; omega⟩
    · split
      · exact .inl ⟨by omega, rfl, by dsimp only; omega⟩
      · exact .inr ⟨by omega, rfl, by simp⟩

theorem IsTime.tick {t : CivilTime} (h : t.IsTime) : t.tick.IsTime := by
  obtain ⟨hdate, hhour, hminute, hsecond⟩ := h
  unfold CivilTime.tick
  split
  · exact ⟨hdate, hhour, hminute, by dsimp only; omega⟩
  · split
    · exact ⟨hdate, hhour, by dsimp only; omega, by dsimp only; omega⟩
    · split
      · exact ⟨hdate, by dsimp only; omega, by dsimp only; omega, by dsimp only; omega⟩
      · exact ⟨hdate.next, by dsimp only; omega, by dsimp only; omega, by dsimp only; omega⟩

theorem tick_injective {a b : CivilTime} (ha : a.IsTime) (hb : b.IsTime) (h : a.tick = b.tick) :
    a = b := by
  rcases tick_cases ha with ⟨hka, hda, hsa⟩ | ⟨hka, hda, hsa⟩ <;>
  rcases tick_cases hb with ⟨hkb, hdb, hsb⟩ | ⟨hkb, hdb, hsb⟩ <;>
  rw [h] at hda hsa
  · exact ext_daySecond ha hb (hda.symm.trans hdb) (by omega)
  · omega
  · omega
  · exact ext_daySecond ha hb (CivilDate.next_injective ha.date hb.date (hda.symm.trans hdb))
      (by omega)

end CivilTime

/-- Shows, for each number of seconds from the beginning of 1970, the date and the time of day
    at which they have passed. -/
structure IsClock (clock : Int → CivilTime) : Prop where
  epoch : clock 0 = CivilTime.epoch
  isTime : ∀ s, (clock s).IsTime
  tick : ∀ s, clock (s + 1) = (clock s).tick

/-- The time of day that is computed for a number of seconds. -/
def civilTime (seconds : Int) : CivilTime :=
  let time := (seconds % 86400).toNat
  ⟨CivilDate.ofDays (seconds / 86400), time / 3600, time / 60 % 60, time % 60⟩

theorem isTime_civilTime (seconds : Int) : (civilTime seconds).IsTime := by
  refine ⟨CivilDate.isDate_ofDays _, ?_, ?_, ?_⟩ <;> dsimp only [civilTime] <;> omega

theorem daySecond_civilTime (seconds : Int) :
    ((civilTime seconds).daySecond : Int) = seconds % 86400 := by
  dsimp only [civilTime, CivilTime.daySecond]
  omega

theorem isClock_civilTime : IsClock civilTime := by
  refine ⟨?_, isTime_civilTime, fun s => ?_⟩
  · have hdate : CivilDate.ofDays 0 = ⟨1970, 1, 1⟩ := by decide
    simp [civilTime, CivilTime.epoch, hdate]
  · have htime := isTime_civilTime s
    have hdaySecond := daySecond_civilTime s
    have hnext := daySecond_civilTime (s + 1)
    refine CivilTime.ext_daySecond (isTime_civilTime (s + 1)) htime.tick ?_ ?_
    · rcases CivilTime.tick_cases htime with ⟨hlt, hdate, -⟩ | ⟨hlast, hdate, -⟩
      · have hday : (s + 1) / 86400 = s / 86400 := by omega
        rw [hdate, civilTime, hday, civilTime]
      · have hday : (s + 1) / 86400 = s / 86400 + 1 := by omega
        rw [hdate, civilTime, hday, CivilDate.ofDays_succ, civilTime]
    · rcases CivilTime.tick_cases htime with ⟨hlt, -, hsecond⟩ | ⟨hlast, -, hsecond⟩ <;> omega

/-- All clocks show the same. -/
theorem IsClock.unique {clock other : Int → CivilTime} (h : IsClock clock) (h' : IsClock other) :
    clock = other := by
  funext s
  induction s using Int.induction_on with
  | zero => rw [h.epoch, h'.epoch]
  | succ n ih => rw [h.tick, h'.tick, ih]
  | pred n ih =>
      refine CivilTime.tick_injective (h.isTime _) (h'.isTime _) ?_
      rw [← h.tick, ← h'.tick, sub_add_cancel]
      exact ih

end QueryReplay
