import QueryReplay.Proofs.Rounding
import QueryReplay.Proofs.Representatives

/-! # Numbers by magnitude — equality after rounding

    Two numbers are compared as doubles, so an integer that no double holds is taken for its
    neighbour.  The route:

    * a double holds an integer if the integer is a multiple of a power of two by less than
      `2^53` (`Double.holds_iff`), so all integers below `2^53` are held (`isHeld_of_lt`);
    * numbers are equal if one double is nearest to both (`valuesEqual_iff`), which is
      equality of magnitude where they are held (`valuesEqual_iff_of_isHeld`);
    * rounding does not cross `2^53` (`le_abs_toDouble`), so it is also equality of magnitude
      where one of them is below (`valuesEqual_iff_of_lt`);
    * an integer that is not held equals the double next to it, so from `2^53` on integers
      that differ are merged (`exists_valuesEqual_of_not_isHeld`). -/

namespace QueryReplay

namespace Double

/-! ## Integers that doubles hold -/

/-- Some finite double stands for the number. -/
def Holds (q : ℚ) : Prop := ∃ x : Double, x.isFinite = true ∧ x.value = q

theorem Holds.neg {q : ℚ} (h : Holds q) : Holds (-q) := by
  obtain ⟨x, hfinite, hvalue⟩ := h
  have hplace := isFinite_iff.mp hfinite
  have hmirrored : (ofOrdinal (-x.ordinal)).ordinal = -x.ordinal := ordinal_ofOrdinal (by omega)
  refine ⟨ofOrdinal (-x.ordinal), isFinite_iff.mpr (by omega), ?_⟩
  rw [value_eq, hmirrored, scaled_neg, ← hvalue, value_eq, Int.cast_neg, neg_mul]

/-- A double stands for an integer if its units are those of the integer. -/
theorem value_eq_intCast_iff {x : Double} {n : Int} :
    x.value = n ↔ scaled x.ordinal = n * 2 ^ 1074 := by
  rw [← sub_eq_zero, ← abs_eq_zero, abs_value_sub,
    mul_eq_zero_iff_right (zpow_ne_zero _ two_ne_zero), Nat.cast_eq_zero, Int.natAbs_eq_zero,
    sub_eq_zero]

/-- The bits of a multiple of a power of two. -/
theorem exists_units {m k : Nat} (hm : m < 2 ^ 53) (hk : k < 200) :
    ∃ b < 2047 * 2 ^ 52, units b = m * 2 ^ k * 2 ^ 1074 := by
  by_cases hzero : m = 0
  · exact ⟨0, by omega, by rw [hzero, Nat.zero_mul, Nat.zero_mul]; rfl⟩
  have hlog : m.log2 < 53 := (Nat.log2_lt hzero).mpr hm
  have hpow : 2 ^ m.log2 * 2 ^ (52 - m.log2) = 2 ^ 52 := by
    rw [← Nat.pow_add]
    exact congrArg (2 ^ ·) (by omega)
  have hlow : 2 ^ 52 ≤ m * 2 ^ (52 - m.log2) := by
    rw [← hpow]
    exact Nat.mul_le_mul_right _ (Nat.log2_self_le hzero)
  have hhigh : m * 2 ^ (52 - m.log2) < 2 ^ 52 + 2 ^ 52 := by
    have hlt := (Nat.mul_lt_mul_right (Nat.two_pow_pos (52 - m.log2))).mpr
      (Nat.lt_log2_self (n := m))
    rw [Nat.pow_succ, Nat.mul_right_comm, hpow] at hlt
    omega
  refine ⟨(m.log2 + k + 1022 + 1) * 2 ^ 52 + (m * 2 ^ (52 - m.log2) - 2 ^ 52), by omega, ?_⟩
  rw [units_carry _ (by omega), Nat.add_sub_cancel' hlow, Nat.mul_assoc, Nat.mul_assoc,
    ← Nat.pow_add, ← Nat.pow_add]
  exact congrArg (m * 2 ^ ·) (by omega)

theorem holds_natCast {m k : Nat} (hm : m < 2 ^ 53) (hk : k < 200) :
    Holds ((m * 2 ^ k : Nat) : Int) := by
  obtain ⟨b, hb, hunits⟩ := exists_units hm hk
  have hplace : (ofOrdinal b).ordinal = b := ordinal_ofOrdinal (by omega)
  refine ⟨ofOrdinal b, isFinite_iff.mpr (by omega), value_eq_intCast_iff.mpr ?_⟩
  rw [hplace, scaled_natCast, hunits, Int.natCast_mul, Int.natCast_pow]
  rfl

theorem natAbs_scaled (k : Int) : (scaled k).natAbs = units k.natAbs := by
  rcases Int.natAbs_eq k with hk | hk
  · rw [hk, scaled_natCast, Int.natAbs_natCast, Int.natAbs_natCast]
  · rw [hk, scaled_neg, scaled_natCast, Int.natAbs_neg, Int.natAbs_neg, Int.natAbs_natCast,
      Int.natAbs_natCast]

theorem natAbs_mul_two_pow (n : Int) (p : Nat) : (n * 2 ^ p).natAbs = n.natAbs * 2 ^ p := by
  rw [Int.natAbs_mul, Int.natAbs_pow]
  rfl

/-- What a power of two divides of the units is less than `2^53` times a power of two. -/
theorem exists_mantissa {b n p : Nat} (h : units b = n * 2 ^ p) :
    ∃ m k, n = m * 2 ^ k ∧ m < 2 ^ 53 := by
  have hfraction : b % 2 ^ 52 < 2 ^ 52 := Nat.mod_lt _ (Nat.two_pow_pos 52)
  by_cases hfield : b / 2 ^ 52 = 0
  · refine ⟨n, 0, (Nat.mul_one n).symm, ?_⟩
    have hle : n ≤ n * 2 ^ p := Nat.le_mul_of_pos_right n (Nat.two_pow_pos p)
    rw [units, if_pos hfield] at h
    omega
  rw [units, if_neg hfield] at h
  rcases Nat.le_total p (b / 2 ^ 52 - 1) with hlarge | hsmall
  · refine ⟨2 ^ 52 + b % 2 ^ 52, b / 2 ^ 52 - 1 - p, ?_, by omega⟩
    refine Nat.eq_of_mul_eq_mul_right (Nat.two_pow_pos p) ?_
    rw [← h, Nat.mul_assoc, ← Nat.pow_add, Nat.sub_add_cancel hlarge]
  · refine ⟨n, 0, (Nat.mul_one n).symm, ?_⟩
    have hcancel : 2 ^ 52 + b % 2 ^ 52 = n * 2 ^ (p - (b / 2 ^ 52 - 1)) := by
      refine Nat.eq_of_mul_eq_mul_right (Nat.two_pow_pos (b / 2 ^ 52 - 1)) ?_
      rw [h, Nat.mul_assoc, ← Nat.pow_add, Nat.sub_add_cancel hsmall]
    have hle := Nat.le_mul_of_pos_right n (Nat.two_pow_pos (p - (b / 2 ^ 52 - 1)))
    omega

/-- Doubles hold the multiples of powers of two by less than `2^53`. -/
theorem holds_iff {n : Int} (hn : n.natAbs < 2 ^ 200) :
    Holds n ↔ ∃ m k, n.natAbs = m * 2 ^ k ∧ m < 2 ^ 53 := by
  constructor
  · rintro ⟨x, -, hvalue⟩
    have hunits := congrArg Int.natAbs (value_eq_intCast_iff.mp hvalue)
    rw [natAbs_scaled, natAbs_mul_two_pow] at hunits
    exact exists_mantissa hunits
  · rintro ⟨m, k, hmultiple, hm⟩
    have habs : Holds (n.natAbs : Int) := by
      by_cases hk : k < 200
      · rw [hmultiple]
        exact holds_natCast hm hk
      · -- only zero is such a multiple of a power so large
        have hlarge : 2 ^ 200 ≤ 2 ^ k := Nat.pow_le_pow_right Nat.two_pos (by omega)
        have hzero : m = 0 := by
          by_contra hne
          have hle := Nat.le_mul_of_pos_left (2 ^ k) (Nat.pos_of_ne_zero hne)
          omega
        have hnone : n.natAbs = 0 * 2 ^ 0 := by rw [hmultiple, hzero, Nat.zero_mul, Nat.zero_mul]
        rw [hnone]
        exact holds_natCast (by omega) (by omega)
    rcases Int.natAbs_eq n with hn | hn
    · rwa [← hn] at habs
    · rw [hn, Int.cast_neg]
      exact habs.neg

end Double

namespace Json.Number

/-! ## Numbers of documents -/

/-- The number that is denoted. -/
def value : Json.Number → ℚ
  | .int n => n
  | .float x => x.value

/-- A double stands for the number. -/
abbrev IsHeld (a : Json.Number) : Prop := Double.Holds a.value

variable {a b : Json.Number}

theorem natAbs_lt_of_inRange {n : Int} (h : (Json.Number.int n).inRange = true) :
    n.natAbs < 2 ^ 200 := by
  simp only [inRange, Bool.and_eq_true, decide_eq_true_eq] at h
  omega

theorem isNearest_toDouble (h : a.inRange = true) : Double.IsNearest a.value a.toDouble := by
  cases a with
  | float x => exact Double.isNearest_value h
  | int n => exact Double.ofInt_isNearest (natAbs_lt_of_inRange h)

theorem valuesEqual_iff_toDouble (ha : a.inRange = true) (hb : b.inRange = true) :
    valuesEqual (.number a) (.number b) = true ↔ a.toDouble.value = b.toDouble.value :=
  Double.equals_iff_value (toDouble_isFinite ha) (toDouble_isFinite hb)

/-- Numbers are equal if one double is nearest to both. -/
theorem valuesEqual_iff (ha : a.inRange = true) (hb : b.inRange = true) :
    valuesEqual (.number a) (.number b) = true
      ↔ ∃ x, Double.IsNearest a.value x ∧ Double.IsNearest b.value x := by
  refine (valuesEqual_iff_toDouble ha hb).trans ⟨fun hvalue => ?_, fun ⟨x, hax, hbx⟩ => ?_⟩
  · exact ⟨a.toDouble, isNearest_toDouble ha,
      (isNearest_toDouble hb).congr (toDouble_isFinite ha) hvalue.symm⟩
  · exact ((isNearest_toDouble ha).value_eq hax).trans (hbx.value_eq (isNearest_toDouble hb))

/-- A number that is held is not rounded. -/
theorem value_toDouble (ha : a.inRange = true) (h : a.IsHeld) : a.toDouble.value = a.value := by
  obtain ⟨x, hfinite, hvalue⟩ := h
  rw [← hvalue]
  exact (isNearest_toDouble ha).value_eq (hvalue ▸ Double.isNearest_value hfinite)

/-- Equality of numbers that are held is equality of magnitude. -/
theorem valuesEqual_iff_of_isHeld (ha : a.inRange = true) (hb : b.inRange = true)
    (hheld : a.IsHeld) (hheld' : b.IsHeld) :
    valuesEqual (.number a) (.number b) = true ↔ a.value = b.value := by
  rw [valuesEqual_iff_toDouble ha hb, value_toDouble ha hheld, value_toDouble hb hheld']

theorem valuesEqual_of_value (ha : a.inRange = true) (hb : b.inRange = true)
    (h : a.value = b.value) : valuesEqual (.number a) (.number b) = true :=
  (valuesEqual_iff ha hb).mpr ⟨a.toDouble, isNearest_toDouble ha, h ▸ isNearest_toDouble ha⟩

/-- A number that is rounded equals the double next to it. -/
theorem exists_valuesEqual_of_not_isHeld (ha : a.inRange = true) (h : ¬a.IsHeld) :
    ∃ x, x.isFinite = true ∧ valuesEqual (.number a) (.number (.float x)) = true
      ∧ x.value ≠ a.value := by
  have hfinite := toDouble_isFinite ha
  refine ⟨a.toDouble, hfinite, (valuesEqual_iff_toDouble ha (b := .float _) hfinite).mpr rfl, ?_⟩
  exact fun hvalue => h ⟨a.toDouble, hfinite, hvalue⟩

/-- Numbers below `2^53` are held. -/
theorem isHeld_of_lt (ha : a.inRange = true) (h : |a.value| < 2 ^ 53) : a.IsHeld := by
  cases a with
  | float x => exact ⟨x, ha, rfl⟩
  | int n =>
      refine (Double.holds_iff (natAbs_lt_of_inRange ha)).mpr
        ⟨n.natAbs, 0, (Nat.mul_one _).symm, ?_⟩
      rw [value, ← Int.cast_abs, ← Nat.cast_natAbs] at h
      exact_mod_cast h

/-- A number from `2^53` on is not rounded to a double below. -/
theorem le_abs_toDouble (ha : a.inRange = true) (h : 2 ^ 53 ≤ |a.value|) :
    2 ^ 53 ≤ |a.toDouble.value| := by
  have hheld : Double.Holds (2 ^ 53) := by
    have hpower := Double.holds_natCast (m := 1) (k := 53) (by omega) (by omega)
    exact_mod_cast hpower
  obtain ⟨z, hz, hvalue'⟩ := hheld.neg
  obtain ⟨y, hy, hvalue⟩ := hheld
  have hneary := (isNearest_toDouble ha).nearest y hy
  have hnearz := (isNearest_toDouble ha).nearest z hz
  by_contra hbelow
  obtain ⟨hlow, hhigh⟩ := abs_lt.mp (not_le.mp hbelow)
  rw [hvalue] at hneary
  rw [hvalue'] at hnearz
  rcases le_abs.mp h with hpos | hneg
  · rw [abs_of_nonpos (by linarith), abs_of_nonpos (by linarith)] at hneary
    linarith
  · rw [abs_of_nonneg (by linarith), abs_of_nonneg (by linarith)] at hnearz
    linarith

/-- Where a number is below `2^53`, equality to it is equality of magnitude. -/
theorem valuesEqual_iff_of_lt (ha : a.inRange = true) (hb : b.inRange = true)
    (h : |a.value| < 2 ^ 53) :
    valuesEqual (.number a) (.number b) = true ↔ a.value = b.value := by
  have hheld := isHeld_of_lt ha h
  by_cases hsmall : |b.value| < 2 ^ 53
  · exact valuesEqual_iff_of_isHeld ha hb hheld (isHeld_of_lt hb hsmall)
  · have hlarge := le_abs_toDouble hb (not_lt.mp hsmall)
    rw [valuesEqual_iff_toDouble ha hb, value_toDouble ha hheld]
    refine iff_of_false (fun heq => ?_) fun heq => hsmall (heq ▸ h)
    exact absurd h (not_lt.mpr (heq ▸ hlarge))

theorem valuesEqual_comm :
    valuesEqual (.number a) (.number b) = valuesEqual (.number b) (.number a) :=
  Bool.eq_iff_iff.mpr ⟨Double.equals_symm, Double.equals_symm⟩

end Json.Number

/-! ## Equality of numbers -/

/-- What equality of two numbers of documents says.  They are equal if one double is nearest
    to both, so numbers of one magnitude are equal in whatever way they are written.  Where
    doubles hold both, or one is below `2^53`, they are equal only if they are of one
    magnitude.  A number that no double holds equals a double of another magnitude, and the
    integers that are held are the multiples of powers of two by less than `2^53`. -/
theorem valuesEqual_numbers {a b : Json.Number} (ha : a.inRange = true) (hb : b.inRange = true) :
    (valuesEqual (.number a) (.number b) = true
        ↔ ∃ x, Double.IsNearest a.value x ∧ Double.IsNearest b.value x)
      ∧ (a.value = b.value → valuesEqual (.number a) (.number b) = true)
      ∧ (a.IsHeld ∧ b.IsHeld ∨ |a.value| < 2 ^ 53 ∨ |b.value| < 2 ^ 53 →
        (valuesEqual (.number a) (.number b) = true ↔ a.value = b.value))
      ∧ (¬a.IsHeld → ∃ x, x.isFinite = true
        ∧ valuesEqual (.number a) (.number (.float x)) = true ∧ x.value ≠ a.value)
      ∧ ∀ n, a = .int n → (a.IsHeld ↔ ∃ m k, n.natAbs = m * 2 ^ k ∧ m < 2 ^ 53) := by
  refine ⟨Json.Number.valuesEqual_iff ha hb, Json.Number.valuesEqual_of_value ha hb, ?_,
    Json.Number.exists_valuesEqual_of_not_isHeld ha, ?_⟩
  · rintro (⟨hheld, hheld'⟩ | hsmall | hsmall)
    · exact Json.Number.valuesEqual_iff_of_isHeld ha hb hheld hheld'
    · exact Json.Number.valuesEqual_iff_of_lt ha hb hsmall
    · rw [Json.Number.valuesEqual_comm]
      exact (Json.Number.valuesEqual_iff_of_lt hb ha hsmall).trans eq_comm
  · rintro n rfl
    exact Double.holds_iff (Json.Number.natAbs_lt_of_inRange ha)

/-- The integer four and the double four are of one magnitude. -/
theorem valuesEqual_numbers_four :
    let a : Json.Number := .int 4
    let b : Json.Number := .float (.ofInt 4)
    a.inRange = true ∧ b.inRange = true ∧ |a.value| < 2 ^ 53
      ∧ valuesEqual (.number a) (.number b) = true ∧ a.value = b.value := by
  intro a b
  have ha : a.inRange = true := by decide
  have hb : b.inRange = true := by decide +kernel
  have hsmall : |a.value| < 2 ^ 53 := by norm_num [a, Json.Number.value]
  have hequal : valuesEqual (.number a) (.number b) = true := by decide +kernel
  exact ⟨ha, hb, hsmall, hequal,
    ((valuesEqual_numbers ha hb).2.2.1 (Or.inr (Or.inl hsmall))).mp hequal⟩

/-- The least natural number that no double holds is taken for the one before it: the two are
    equal, a join pairs rows with them, and DISTINCT keeps one of two rows. -/
theorem neighbours_valuesEqual :
    let m : Json.Number := .int 9007199254740992
    let n : Json.Number := .int 9007199254740993
    m.inRange = true ∧ n.inRange = true ∧ m.value ≠ n.value
      ∧ valuesEqual (.number m) (.number n) = true
      ∧ (JoinRule.equal "id" "id").meets [("id", .number m)] [("id", .number n)] = true
      ∧ (Snapshot.ofCells "t" ["id"] [[.number m], [.number n]]).distinct.size = 1 := by
  intro m n
  refine ⟨by decide, by decide, ?_, by decide +kernel, by decide +kernel, by decide +kernel⟩
  norm_num [m, n, Json.Number.value]

end QueryReplay
