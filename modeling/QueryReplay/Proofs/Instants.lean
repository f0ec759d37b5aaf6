import QueryReplay.Engine.Cell
import QueryReplay.Proofs.Calendar

/-! # Instants — one second, one text

    An instant comes as a number of seconds, milliseconds, microseconds or nanoseconds,
    and is shown as the civil time of its whole second.  All units go through
    microseconds, which 64 bits may not hold; where they do not, the instant is far
    outside the years that are shown (`inRange_far`).  Nanoseconds are cut towards 1970
    on the way, and all else is rounded down; so an instant before 1970 in the last
    microsecond of its second is shown as the next one (`RoundsUp`), and that is the only
    way for the texts of one second to differ (`toJson_timestamp`). -/

namespace QueryReplay

namespace TimeUnit

/-- How many of the unit make a second. -/
def perSecond : TimeUnit → Int
  | second => 1
  | millisecond => 1000
  | microsecond => 1000000
  | nanosecond => 1000000000

/-- The whole second of an instant, rounded down. -/
def wholeSeconds (unit : TimeUnit) (count : Int) : Int := count / unit.perSecond

/-- The instant is counted in nanoseconds, and before 1970 in the last microsecond of a
    second, behind the beginning of that microsecond. -/
def RoundsUp (unit : TimeUnit) (count : Int) : Prop :=
  unit = nanosecond ∧ count < 0 ∧ 999999000 < count % 1000000000

instance (unit : TimeUnit) (count : Int) : Decidable (unit.RoundsUp count) :=
  inferInstanceAs (Decidable (_ ∧ _))

end TimeUnit

theorem inInt64_iff {n : Int} :
    Json.inInt64 n = true ↔ -9223372036854775808 ≤ n ∧ n < 9223372036854775808 := by
  simp [Json.inInt64]

/-! ## Years that are shown -/

/-- The years that are shown end where 64 bits would no longer hold the microseconds. -/
theorem inRange_far {s : Int} (h : s < -9223372036854 ∨ 9223372036854 ≤ s) :
    (civilTime s).date.inRange = false := by
  obtain ⟨hlow, hhigh⟩ := CivilDate.year_ofDays (s / 86400)
  dsimp only [civilTime, CivilDate.inRange]
  simp only [CivilDate.epochOffset, CivilDate.cycleDays] at hlow hhigh
  simp only [Bool.and_eq_false_iff, decide_eq_false_iff_not]
  omega

/-- Three centuries around 1970 are shown. -/
theorem inRange_near {s : Int} (h : -9223372037 ≤ s ∧ s ≤ 9223372037) :
    (civilTime s).date.inRange = true := by
  obtain ⟨hlow, hhigh⟩ := CivilDate.year_ofDays (s / 86400)
  dsimp only [civilTime, CivilDate.inRange]
  simp only [CivilDate.epochOffset, CivilDate.cycleDays] at hlow hhigh
  simp only [Bool.and_eq_true, decide_eq_true_eq]
  omega

/-! ## Microseconds -/

/-- Where 64 bits hold the microseconds, they fall in the whole second or, rounded up, in
    the next one; where they do not, the second is not shown. -/
theorem microseconds?_cases (unit : TimeUnit) {count : Int} (hcount : Json.inInt64 count = true) :
    (unit.microseconds? count = none
        ∧ (civilTime (unit.wholeSeconds count)).date.inRange = false)
      ∨ ∃ micros, unit.microseconds? count = some micros
        ∧ micros / 1000000
          = unit.wholeSeconds count + if unit.RoundsUp count then 1 else 0 := by
  have hbounds := inInt64_iff.mp hcount
  cases unit with
  | second =>
      by_cases hfits : Json.inInt64 (count * 1000000) = true
      · refine .inr ⟨count * 1000000, by simp [TimeUnit.microseconds?, hfits], ?_⟩
        rw [if_neg (by simp [TimeUnit.RoundsUp])]
        simp [TimeUnit.wholeSeconds, TimeUnit.perSecond]
      · refine .inl ⟨by simp [TimeUnit.microseconds?, hfits], inRange_far ?_⟩
        rw [inInt64_iff] at hfits
        simp only [TimeUnit.wholeSeconds, TimeUnit.perSecond]
        omega
  | millisecond =>
      by_cases hfits : Json.inInt64 (count * 1000) = true
      · refine .inr ⟨count * 1000, by simp [TimeUnit.microseconds?, hfits], ?_⟩
        rw [if_neg (by simp [TimeUnit.RoundsUp])]
        simp only [TimeUnit.wholeSeconds, TimeUnit.perSecond]
        omega
      · refine .inl ⟨by simp [TimeUnit.microseconds?, hfits], inRange_far ?_⟩
        rw [inInt64_iff] at hfits
        simp only [TimeUnit.wholeSeconds, TimeUnit.perSecond]
        omega
  | microsecond =>
      refine .inr ⟨count, rfl, ?_⟩
      rw [if_neg (by simp [TimeUnit.RoundsUp])]
      simp only [TimeUnit.wholeSeconds, TimeUnit.perSecond]
      omega
  | nanosecond =>
      refine .inr ⟨count.tdiv 1000, rfl, ?_⟩
      -- a quotient that is cut towards zero is rounded up below zero
      have hcut : count.tdiv 1000 = if count < 0 then -(-count / 1000) else count / 1000 := by
        split
        · rw [← Int.neg_neg count, Int.neg_tdiv, Int.neg_neg, Int.tdiv_eq_ediv_of_nonneg (by omega)]
        · exact Int.tdiv_eq_ediv_of_nonneg (by omega)
      simp only [TimeUnit.wholeSeconds, TimeUnit.perSecond, TimeUnit.RoundsUp, true_and, hcut]
      split <;> split <;> omega

/-! ## Texts -/

theorem renderInstant_eq (s : Int) : renderInstant s = (civilTime s).render := by
  rw [renderInstant, Int.fdiv_eq_ediv_of_nonneg _ (by decide),
    Int.fmod_eq_emod_of_nonneg _ (by decide)]
  rfl

theorem toList_padded_two : ∀ n < 60,
    (padded 2 n).toList = [Nat.digitChar (n / 10), Nat.digitChar (n % 10)] := by
  decide +kernel

/-- Two digits tell a number below sixty. -/
theorem padded_two_injective {a b : Nat} (ha : a < 60) (hb : b < 60)
    (h : (padded 2 a).toList = (padded 2 b).toList) : a = b := by
  have hvalue : ∀ n < 10, (Nat.digitChar n).toNat = 48 + n := by decide
  rw [toList_padded_two a ha, toList_padded_two b hb] at h
  simp only [List.cons.injEq, and_true] at h
  have htens := congrArg Char.toNat h.1
  have hones := congrArg Char.toNat h.2
  rw [hvalue _ (by omega), hvalue _ (by omega)] at htens hones
  omega

namespace CivilTime

/-- A text ends in the digits of the second. -/
theorem second_of_render {a b : CivilTime} (ha : a.IsTime) (hb : b.IsTime)
    (h : a.render = b.render) : a.second = b.second := by
  have hlength : (padded 2 a.second).toList.length = (padded 2 b.second).toList.length := by
    rw [toList_padded_two _ ha.second_lt, toList_padded_two _ hb.second_lt]
    rfl
  have hsplit (t : CivilTime) : t.render.toList
      = (t.date.render ++ " " ++ padded 2 t.hour ++ ":" ++ padded 2 t.minute ++ ":").toList
        ++ (padded 2 t.second).toList := String.toList_append
  have hchars := congrArg String.toList h
  rw [hsplit a, hsplit b] at hchars
  exact padded_two_injective ha.second_lt hb.second_lt (List.append_inj' hchars hlength).2

theorem tick_second_ne (t : CivilTime) : t.tick.second ≠ t.second := by
  unfold tick
  split
  · simp
  · split
    · dsimp only
      omega
    · split <;> dsimp only <;> omega

/-- One second later the text is another. -/
theorem render_tick_ne {t : CivilTime} (h : t.IsTime) : t.tick.render ≠ t.render := fun heq =>
  t.tick_second_ne (second_of_render h.tick h heq)

end CivilTime

/-! ## What is shown -/

/-- What is shown of an instant whose second is not shown, and of one whose second is. -/
theorem toJson_timestamp_cases (unit : TimeUnit) {count : Int}
    (hcount : Json.inInt64 count = true) :
    ((civilTime (unit.wholeSeconds count)).date.inRange = false
        ∧ (Cell.timestamp unit count).toJson = .int count)
      ∨ ((civilTime (unit.wholeSeconds count)).date.inRange = true
        ∧ (Cell.timestamp unit count).toJson = .string
          (civilTime (unit.wholeSeconds count + if unit.RoundsUp count then 1 else 0)).render) := by
  show (_ ∧ Cell.showInstant unit count = _) ∨ (_ ∧ Cell.showInstant unit count = _)
  rcases microseconds?_cases unit hcount with ⟨hnone, hrange⟩ | ⟨micros, hsome, hseconds⟩
  · exact .inl ⟨hrange, by rw [Cell.showInstant, hnone]⟩
  · -- nanoseconds do not reach the ends of the range, so a second rounded up is no other case
    have hrange : (civilTime (micros / 1000000)).date.inRange
        = (civilTime (unit.wholeSeconds count)).date.inRange := by
      rw [hseconds]
      split
      · next hup =>
          obtain ⟨rfl, -, -⟩ := hup
          have hbounds := inInt64_iff.mp hcount
          rw [inRange_near, inRange_near] <;>
            simp only [TimeUnit.wholeSeconds, TimeUnit.perSecond] <;> omega
      · rw [add_zero]
    have hshown : Cell.showInstant unit count
        = if (civilTime (micros / 1000000)).date.inRange
          then .string (civilTime (micros / 1000000)).render else .int count := by
      rw [Cell.showInstant, hsome]
      dsimp only
      rw [renderInstant_eq, Int.fdiv_eq_ediv_of_nonneg micros (by decide),
        Int.fdiv_eq_ediv_of_nonneg _ (by decide)]
      rfl
    rw [hshown, hrange, ← hseconds]
    cases (civilTime (unit.wholeSeconds count)).date.inRange with
    | false => exact .inl ⟨rfl, rfl⟩
    | true => exact .inr ⟨rfl, rfl⟩

/-- **INSTANTS**: for every clock of the calendar, every unit and every count of 64 bits,
    an instant whose second lies in no year that is shown is its number.  Any other is the
    date and the time of day of its second, rounded down, exactly if it does not round up;
    if it does, it is those of the next second.  So two instants of one second, in
    whatever units, have one text exactly if both round up or neither does. -/
theorem toJson_timestamp {clock : Int → CivilTime} (hclock : IsClock clock) (unit : TimeUnit)
    {count : Int} (hcount : Json.inInt64 count = true) :
    let s := unit.wholeSeconds count
    let shown := (Cell.timestamp unit count).toJson
    ((clock s).date.inRange = false → shown = .int count)
      ∧ ((clock s).date.inRange = true →
        (shown = .string (clock s).render ↔ ¬unit.RoundsUp count)
          ∧ (unit.RoundsUp count → shown = .string (clock (s + 1)).render)
          ∧ ∀ (unit' : TimeUnit) (count' : Int), Json.inInt64 count' = true →
            unit'.wholeSeconds count' = s →
            (shown = (Cell.timestamp unit' count').toJson
              ↔ (unit.RoundsUp count ↔ unit'.RoundsUp count'))) := by
  intro s shown
  obtain rfl : clock = civilTime := hclock.unique isClock_civilTime
  -- any clock is the computed one, and two seconds that follow each other look different
  have hne : (civilTime (s + 1)).render ≠ (civilTime s).render := by
    rw [hclock.tick]
    exact CivilTime.render_tick_ne (hclock.isTime s)
  have hshown := toJson_timestamp_cases unit hcount
  constructor
  · intro hrange
    rcases hshown with ⟨-, hint⟩ | ⟨hin, -⟩
    · exact hint
    · exact absurd (hin.symm.trans hrange) Bool.noConfusion
  · intro hrange
    rcases hshown with ⟨hout, -⟩ | ⟨-, htext⟩
    · exact absurd (hout.symm.trans hrange) Bool.noConfusion
    have htext : shown = .string (civilTime (s + if unit.RoundsUp count then 1 else 0)).render :=
      htext
    refine ⟨?_, ?_, ?_⟩
    · rw [htext, Json.string.injEq]
      by_cases hup : unit.RoundsUp count
      · rw [if_pos hup]
        exact iff_of_false hne (not_not_intro hup)
      · rw [if_neg hup, add_zero]
        exact iff_of_true rfl hup
    · intro hup
      rw [htext, if_pos hup]
    · intro unit' count' hcount' hsame
      rcases toJson_timestamp_cases unit' hcount' with ⟨hout, -⟩ | ⟨-, htext'⟩
      · rw [hsame] at hout
        exact absurd (hout.symm.trans hrange) Bool.noConfusion
      rw [hsame] at htext'
      rw [htext, htext', Json.string.injEq]
      by_cases hup : unit.RoundsUp count <;> by_cases hup' : unit'.RoundsUp count' <;>
        simp [hup, hup', hne, hne.symm]

/-- The last millisecond before 1970, and the microsecond in its middle. -/
theorem toJson_timestamp_before :
    (Cell.timestamp .millisecond (-1)).toJson = .string (civilTime (-1)).render
      ∧ (Cell.timestamp .millisecond (-1)).toJson
        = (Cell.timestamp .microsecond (-500)).toJson := by
  have hrange : (civilTime (TimeUnit.millisecond.wholeSeconds (-1))).date.inRange = true := by
    decide
  have hcount : Json.inInt64 (-1) = true := by decide
  have hshown := (toJson_timestamp isClock_civilTime .millisecond hcount).2 hrange
  exact ⟨hshown.1.mpr (by decide), (hshown.2.2 .microsecond (-500) (by decide) rfl).mpr (by decide)⟩

/-- The last nanosecond before 1970 falls in the last second of 1969, and is shown as the first
    second of 1970; the last microsecond is shown as it should be. -/
theorem toJson_timestamp_nanosecond :
    (civilTime (TimeUnit.nanosecond.wholeSeconds (-1))).render = "1969-12-31 23:59:59"
      ∧ TimeUnit.nanosecond.wholeSeconds (-1) = TimeUnit.microsecond.wholeSeconds (-1)
      ∧ (Cell.timestamp .nanosecond (-1)).toJson = .string "1970-01-01 00:00:00"
      ∧ (Cell.timestamp .microsecond (-1)).toJson = .string "1969-12-31 23:59:59" := by
  refine ⟨?_, rfl, ?_, ?_⟩ <;> rfl

end QueryReplay
