import Mathlib.Algebra.Order.Ring.Abs
import Mathlib.Tactic.Linarith
import Mathlib.Tactic.Ring
import QueryReplay.Proofs.Equality
import QueryReplay.Proofs.StepDocuments

/-! # Rounding — the double that stands for an integer

    The bits of a double below its sign count the doubles from zero on, so that neighbours
    differ by one in them.  The route:

    * in units of `2^-1074` the absolute values are integers, and one more in the bits adds
      a power of two (`units_succ`); so doubles are ordered as their bits are
      (`scaled_lt_iff`), and doubles that are equal are equal as numbers
      (`equals_iff_value`);
    * a number has one nearest double, the even one of two (`IsNearest.value_eq`), because
      of two neighbours only one has even bits;
    * rounding an integer to 53 bits gives a double between whose neighbours' midpoints the
      integer lies (`cell_round`), which is therefore its nearest (`ofInt_isNearest`). -/

namespace QueryReplay

namespace Double

/-! ## Absolute values in units -/

/-- The number that the bits below the sign stand for, in units of `2^-1074`. -/
def units (b : Nat) : Nat :=
  if b / 2 ^ 52 = 0 then b else (2 ^ 52 + b % 2 ^ 52) * 2 ^ (b / 2 ^ 52 - 1)

/-- Below the first exponent the bits are the number. -/
theorem units_of_le {b : Nat} (h : b ≤ 2 ^ 52) : units b = b := by
  rcases Nat.lt_or_eq_of_le h with hlt | rfl
  · rw [units, if_pos (Nat.div_eq_of_lt hlt)]
  · rfl

/-- A fraction that is full carries into the exponent. -/
theorem units_carry (f : Nat) {r : Nat} (h : r ≤ 2 ^ 52) :
    units ((f + 1) * 2 ^ 52 + r) = (2 ^ 52 + r) * 2 ^ f := by
  rcases Nat.lt_or_eq_of_le h with hlt | rfl
  · have hfield : ((f + 1) * 2 ^ 52 + r) / 2 ^ 52 = f + 1 := by omega
    have hfraction : ((f + 1) * 2 ^ 52 + r) % 2 ^ 52 = r := by omega
    rw [units, hfield, hfraction, if_neg (Nat.succ_ne_zero f), Nat.add_sub_cancel]
  · have hfield : ((f + 1) * 2 ^ 52 + 2 ^ 52) / 2 ^ 52 = f + 2 := by omega
    have hfraction : ((f + 1) * 2 ^ 52 + 2 ^ 52) % 2 ^ 52 = 0 := by omega
    rw [units, hfield, hfraction, if_neg (Nat.succ_ne_zero _)]
    show (2 ^ 52 + 0) * 2 ^ (f + 1) = _
    rw [Nat.pow_succ]
    omega

/-- From one double to the next it is one unit of the exponent. -/
theorem units_succ (b : Nat) : units (b + 1) = units b + 2 ^ (b / 2 ^ 52 - 1) := by
  have hlt : b % 2 ^ 52 < 2 ^ 52 := Nat.mod_lt _ (Nat.two_pow_pos 52)
  have hb : b / 2 ^ 52 * 2 ^ 52 + b % 2 ^ 52 = b := Nat.div_add_mod' b _
  generalize b / 2 ^ 52 = f at hb ⊢
  generalize b % 2 ^ 52 = r at hb hlt
  cases f with
  | zero =>
      rw [units_of_le (by omega), units_of_le (by omega)]
      rfl
  | succ f =>
      rw [← hb, Nat.add_assoc, units_carry f hlt, units_carry f (Nat.le_of_lt hlt),
        Nat.add_succ, Nat.succ_mul, Nat.add_sub_cancel]

/-- Behind each place comes a larger number. -/
theorem units_strictMono : StrictMono units :=
  strictMono_nat_of_lt_succ fun b => by
    rw [units_succ]
    exact Nat.lt_add_of_pos_right (Nat.two_pow_pos _)

/-- The number of units at a place in the order of the doubles. -/
def scaled (k : Int) : Int := k.sign * units k.natAbs

theorem scaled_natCast (n : Nat) : scaled n = units n := by
  cases n with
  | zero => rfl
  | succ n => rw [scaled, Int.sign_natCast_of_ne_zero n.succ_ne_zero, Int.one_mul,
      Int.natAbs_natCast]

/-- The two signs mirror each other. -/
theorem scaled_neg (k : Int) : scaled (-k) = -scaled k := by
  rw [scaled, scaled, Int.sign_neg, Int.natAbs_neg, Int.neg_mul]

/-- Behind each place comes a larger number, below zero as well. -/
theorem scaled_succ (k : Int) : scaled k < scaled (k + 1) := by
  cases k with
  | ofNat n =>
      have hlt : units n < units (n + 1) := units_strictMono (Nat.lt_succ_self n)
      have hnext : Int.ofNat n + 1 = ((n + 1 : Nat) : Int) := rfl
      rw [hnext, Int.ofNat_eq_natCast, scaled_natCast, scaled_natCast]
      exact Int.ofNat_lt.mpr hlt
  | negSucc n =>
      have hlt : units n < units (n + 1) := units_strictMono (Nat.lt_succ_self n)
      have hnext : Int.negSucc n + 1 = -(n : Int) := by omega
      rw [hnext, Int.negSucc_eq, ← Int.natCast_succ, scaled_neg, scaled_neg, scaled_natCast,
        scaled_natCast]
      exact Int.neg_lt_neg (Int.ofNat_lt.mpr hlt)

/-- So the order of places is the order of numbers. -/
theorem scaled_lt_iff {k m : Int} : scaled k < scaled m ↔ k < m :=
  (strictMono_int_of_lt_succ scaled_succ).lt_iff_lt

/-- No number has two places. -/
theorem scaled_eq_iff {k m : Int} : scaled k = scaled m ↔ k = m :=
  (strictMono_int_of_lt_succ scaled_succ).injective.eq_iff

/-! ## Doubles as numbers -/

/-- The bits below the sign. -/
def absolute (x : Double) : Nat := x.bits.toNat % 2 ^ 63

/-- The place of a double in the order of the doubles, zero being at zero. -/
def ordinal (x : Double) : Int := if x.isNegative then -x.absolute else x.absolute

/-- The number that a finite double stands for. -/
def value (x : Double) : ℚ :=
  (if x.isNegative then -1 else 1) * (x.magnitude.mantissa * 2 ^ x.magnitude.exponent)

/-- Mantissa and exponent, counted in the smallest unit. -/
theorem magnitude_eq (x : Double) : (x.magnitude.mantissa : ℚ) * 2 ^ x.magnitude.exponent
    = units x.absolute * 2 ^ (-1074 : Int) := by
  have hfield : x.absolute / 2 ^ 52 = x.exponentField := by
    rw [absolute, exponentField]
    omega
  have hfraction : x.absolute % 2 ^ 52 = x.fraction := by
    rw [absolute, fraction]
    omega
  rw [magnitude, units, hfield, hfraction]
  by_cases hzero : x.exponentField = 0
  · have hsmall : x.absolute = x.fraction := by omega
    rw [if_pos hzero, if_pos hzero, hsmall]
  · rw [if_neg hzero, if_neg hzero]
    have hexponent : (x.exponentField : Int) - 1075 = (x.exponentField - 1 : Nat) + -1074 := by
      omega
    rw [hexponent, zpow_add₀ two_ne_zero, zpow_natCast, ← mul_assoc, Nat.cast_mul, Nat.cast_pow,
      Nat.cast_ofNat]

/-- The value of a double is told by its place. -/
theorem value_eq (x : Double) : x.value = scaled x.ordinal * 2 ^ (-1074 : Int) := by
  rw [value, magnitude_eq, ordinal]
  cases x.isNegative with
  | false => rw [if_neg Bool.false_ne_true, if_neg Bool.false_ne_true, scaled_natCast]; simp
  | true => rw [if_pos rfl, if_pos rfl, scaled_neg, scaled_natCast]; simp

/-- Doubles are in the order of their places. -/
theorem value_lt_iff {x y : Double} : x.value < y.value ↔ x.ordinal < y.ordinal := by
  rw [value_eq, value_eq, mul_lt_mul_iff_left₀ (zpow_pos two_pos _), Int.cast_lt,
    scaled_lt_iff]

/-- The two zeros share a place, and no other two doubles do. -/
theorem value_eq_iff {x y : Double} : x.value = y.value ↔ x.ordinal = y.ordinal := by
  rw [value_eq, value_eq, mul_left_inj' (zpow_ne_zero _ two_ne_zero), Int.cast_inj,
    scaled_eq_iff]

theorem isZero_iff {x : Double} : x.isZero = true ↔ x.absolute = 0 := beq_iff_eq

/-- Doubles have one place if their bits are the same or both are zero. -/
theorem ordinal_eq_iff {x y : Double} : x.ordinal = y.ordinal
    ↔ x.bits = y.bits ∨ x.isZero = true ∧ y.isZero = true := by
  rw [isZero_iff, isZero_iff, ← UInt64.toNat_inj]
  have hx := x.bits.toNat_lt
  have hy := y.bits.toNat_lt
  simp only [ordinal, absolute, isNegative, beq_iff_eq]
  omega

/-- Finite doubles that are equal are equal as numbers. -/
theorem equals_iff_value {x y : Double} (hx : x.isFinite = true) (hy : y.isFinite = true) :
    x.equals y = true ↔ x.value = y.value := by
  rw [equals_iff, value_eq_iff, ordinal_eq_iff]
  exact ⟨fun h => h.2.2, fun h => ⟨isNaN_of_isFinite hx, isNaN_of_isFinite hy, h⟩⟩

/-- The double at a place. -/
def ofOrdinal (k : Int) : Double := ofParts (k < 0) k.natAbs

theorem toNat_ofParts (negative : Bool) {a : Nat} (h : a < 2 ^ 63) :
    (ofParts negative a).bits.toNat = (if negative then 2 ^ 63 else 0) + a := by
  rw [ofParts, UInt64.toNat_ofNat', Nat.mod_eq_of_lt]
  split <;> omega

theorem absolute_ofParts (negative : Bool) {a : Nat} (h : a < 2 ^ 63) :
    (ofParts negative a).absolute = a := by
  rw [absolute, toNat_ofParts negative h]
  split <;> omega

theorem isNegative_ofParts (negative : Bool) {a : Nat} (h : a < 2 ^ 63) :
    (ofParts negative a).isNegative = negative := by
  rw [isNegative, toNat_ofParts negative h, Bool.eq_iff_iff, beq_iff_eq]
  cases negative with
  | false =>
      rw [if_neg Bool.false_ne_true]
      exact iff_of_false (by omega) Bool.false_ne_true
  | true =>
      rw [if_pos rfl]
      exact iff_of_true (by omega) rfl

theorem ordinal_ofParts (negative : Bool) {a : Nat} (h : a < 2 ^ 63) :
    (ofParts negative a).ordinal = if negative then -(a : Int) else a := by
  rw [ordinal, isNegative_ofParts negative h, absolute_ofParts negative h]

/-- A double is finite if its place is below that of infinity. -/
theorem isFinite_iff {x : Double} : x.isFinite = true ↔ x.ordinal.natAbs < 2047 * 2 ^ 52 := by
  simp only [isFinite, exponentField, bne_iff_ne, ordinal, absolute]
  split <;> omega

/-- Each place within range has a double. -/
theorem ordinal_ofOrdinal {k : Int} (h : k.natAbs < 2 ^ 63) : (ofOrdinal k).ordinal = k := by
  rw [ofOrdinal, ordinal_ofParts _ h]
  simp only [decide_eq_true_eq]
  omega

/-- An even place is an even mantissa. -/
theorem bits_even_iff (x : Double) : x.bits.toNat % 2 = 0 ↔ x.ordinal % 2 = 0 := by
  simp only [ordinal, absolute]
  split <;> omega

/-! ## The nearest double -/

/-- A finite double than which none is nearer to a number; of two that are equally near, it
    is the one with even bits. -/
structure IsNearest (q : ℚ) (x : Double) : Prop where
  finite : x.isFinite = true
  nearest : ∀ y : Double, y.isFinite = true → |x.value - q| ≤ |y.value - q|
  even : ∀ y : Double, y.isFinite = true → |y.value - q| = |x.value - q| → y.value ≠ x.value →
    x.bits.toNat % 2 = 0

/-- Of two nearest doubles none is below the other: between neighbours a tie goes to the even one.
-/
theorem IsNearest.not_value_lt {q : ℚ} {x y : Double} (hx : IsNearest q x) (hy : IsNearest q y) :
    ¬x.value < y.value := by
  intro hlt
  have hdist : |x.value - q| = |y.value - q| :=
    le_antisymm (hx.nearest y hy.finite) (hy.nearest x hx.finite)
  have hevenx := (bits_even_iff x).mp (hx.even y hy.finite hdist.symm hlt.ne')
  have heveny := (bits_even_iff y).mp (hy.even x hx.finite hdist hlt.ne)
  -- both places are even, so there is one between them, and it is nearer
  have hplaces := value_lt_iff.mp hlt
  have hfinitex := isFinite_iff.mp hx.finite
  have hfinitey := isFinite_iff.mp hy.finite
  have hbetween : (ofOrdinal (x.ordinal + 1)).ordinal = x.ordinal + 1 :=
    ordinal_ofOrdinal (by omega)
  have hfinite : (ofOrdinal (x.ordinal + 1)).isFinite = true := isFinite_iff.mpr (by omega)
  have hlow : x.value < (ofOrdinal (x.ordinal + 1)).value := value_lt_iff.mpr (by omega)
  have hhigh : (ofOrdinal (x.ordinal + 1)).value < y.value := value_lt_iff.mpr (by omega)
  have hmirrored : x.value - q = -(y.value - q) :=
    (abs_eq_abs.mp hdist).resolve_left fun h => hlt.ne (sub_left_inj.mp h)
  have hpos : 0 < y.value - q := by linarith
  have hnear : |(ofOrdinal (x.ordinal + 1)).value - q| < |x.value - q| := by
    rw [hmirrored, abs_neg, abs_of_pos hpos]
    exact abs_lt.mpr ⟨by linarith, by linarith⟩
  exact absurd (hx.nearest _ hfinite) (not_le.mpr hnear)

/-- A number has one nearest double. -/
theorem IsNearest.value_eq {q : ℚ} {x y : Double} (hx : IsNearest q x) (hy : IsNearest q y) :
    x.value = y.value :=
  le_antisymm (not_lt.mp (hy.not_value_lt hx)) (not_lt.mp (hx.not_value_lt hy))

/-- Whether a double is the nearest one depends on the number it stands for. -/
theorem IsNearest.congr {q : ℚ} {x y : Double} (hx : IsNearest q x) (hy : y.isFinite = true)
    (h : x.value = y.value) : IsNearest q y where
  finite := hy
  nearest z hz := h ▸ hx.nearest z hz
  even z hz hdist hne := by
    rw [bits_even_iff, ← value_eq_iff.mp h, ← bits_even_iff]
    rw [← h] at hdist hne
    exact hx.even z hz hdist hne

/-- A finite double is the nearest one to the number it stands for. -/
theorem isNearest_value {x : Double} (h : x.isFinite = true) : IsNearest x.value x where
  finite := h
  nearest y _ := by
    rw [sub_self, abs_zero]
    exact abs_nonneg _
  even y _ hdist hne := by
    rw [sub_self, abs_zero, abs_eq_zero, sub_eq_zero] at hdist
    exact absurd hdist hne

/-! ## The cell of a double -/

/-- A number of units between the midpoints around a place; on a midpoint, the place is even. -/
structure Cell (k u : Int) : Prop where
  low : scaled (k - 1) + scaled k ≤ 2 * u
  high : 2 * u ≤ scaled k + scaled (k + 1)
  even : scaled (k - 1) + scaled k = 2 * u ∨ 2 * u = scaled k + scaled (k + 1) → k % 2 = 0

namespace Cell

variable {k u : Int}

/-- Cells mirror each other. -/
theorem neg (h : Cell k u) : Cell (-k) (-u) := by
  have hbefore : scaled (-k - 1) = -scaled (k + 1) := by
    rw [← scaled_neg]
    exact congrArg scaled (by omega)
  have hbehind : scaled (-k + 1) = -scaled (k - 1) := by
    rw [← scaled_neg]
    exact congrArg scaled (by omega)
  obtain ⟨hlow, hhigh, heven⟩ := h
  refine ⟨?_, ?_, ?_⟩
  · rw [hbefore, scaled_neg]
    omega
  · rw [hbehind, scaled_neg]
    omega
  · rw [hbefore, hbehind, scaled_neg]
    omega

/-- A cell on the positive side, told by its two neighbours. -/
theorem natCast {b u : Nat} (hb : 0 < b) (low : units (b - 1) + units b ≤ 2 * u)
    (high : 2 * u ≤ units b + units (b + 1))
    (even : units (b - 1) + units b = 2 * u ∨ 2 * u = units b + units (b + 1) → b % 2 = 0) :
    Cell b u := by
  have hbefore : scaled ((b : Int) - 1) = units (b - 1) := by
    rw [← Int.natCast_pred_of_pos hb, scaled_natCast]
  have hbehind : scaled ((b : Int) + 1) = units (b + 1) := scaled_natCast (b + 1)
  refine ⟨?_, ?_, ?_⟩
  · rw [hbefore, scaled_natCast]
    omega
  · rw [hbehind, scaled_natCast]
    omega
  · rw [hbefore, hbehind, scaled_natCast]
    omega

/-- No place behind is nearer to what is in the cell, and one as near only if the place is even. -/
theorem nearest_of_lt (h : Cell k u) {m : Int} (hlt : k < m) :
    (scaled k - u).natAbs ≤ (scaled m - u).natAbs
      ∧ ((scaled m - u).natAbs = (scaled k - u).natAbs → k % 2 = 0) := by
  have hhigh := h.high
  have heven := h.even
  have hnext : scaled (k + 1) ≤ scaled m := Int.not_lt.mp (mt scaled_lt_iff.mp (Int.not_lt.mpr hlt))
  have hself : scaled k < scaled m := scaled_lt_iff.mpr hlt
  exact ⟨by omega, fun _ => heven (Or.inr (by omega))⟩

/-- In its cell a number is nearest to the double of the cell, and as near to another only if the
double is even. -/
theorem nearest (h : Cell k u) {m : Int} (hne : m ≠ k) :
    (scaled k - u).natAbs ≤ (scaled m - u).natAbs
      ∧ ((scaled m - u).natAbs = (scaled k - u).natAbs → k % 2 = 0) := by
  rcases lt_or_gt_of_ne hne with hlt | hlt
  · have hmirrored := h.neg.nearest_of_lt (Int.neg_lt_neg hlt)
    rw [scaled_neg, scaled_neg] at hmirrored
    omega
  · exact h.nearest_of_lt hlt

end Cell

/-- Distances, counted in the smallest unit. -/
theorem abs_value_sub (x : Double) (n : Int) : |x.value - n|
    = ((scaled x.ordinal - n * 2 ^ 1074).natAbs : ℚ) * 2 ^ (-1074 : Int) := by
  have hpos : (0 : ℚ) < 2 ^ (-1074 : Int) := zpow_pos two_pos _
  have hunits : (n : ℚ) = (n * 2 ^ 1074 : Int) * 2 ^ (-1074 : Int) := by
    rw [Int.cast_mul, Int.cast_pow, Int.cast_ofNat, mul_assoc, ← zpow_natCast,
      ← zpow_add₀ two_ne_zero]
    exact (mul_one _).symm
  rw [x.value_eq, hunits, ← sub_mul, abs_mul, abs_of_pos hpos, ← Int.cast_sub,
    Nat.cast_natAbs, Int.cast_abs]

/-- What rounds into the cell of a double has it for the nearest. -/
theorem isNearest_of_cell {x : Double} {n : Int} (hfinite : x.isFinite = true)
    (h : Cell x.ordinal (n * 2 ^ 1074)) : IsNearest n x := by
  have hpos : (0 : ℚ) < 2 ^ (-1074 : Int) := zpow_pos two_pos _
  refine ⟨hfinite, fun y _ => ?_, fun y _ hdist hne => ?_⟩
  · rw [abs_value_sub, abs_value_sub, mul_le_mul_iff_left₀ hpos, Nat.cast_le]
    by_cases hsame : y.ordinal = x.ordinal
    · rw [hsame]
    · exact (h.nearest hsame).1
  · rw [abs_value_sub, abs_value_sub, mul_left_inj' hpos.ne', Nat.cast_inj] at hdist
    exact (bits_even_iff x).mpr ((h.nearest (mt value_eq_iff.mpr hne)).2 hdist)

end Double

/-! ## Rounding an integer -/

/-- The nearest natural is at most a half away, and is even where it is a half away. -/
theorem divNearestEven_spec (n : Nat) {d : Nat} (hd : 0 < d) :
    2 * (divNearestEven n d * d) ≤ 2 * n + d
      ∧ 2 * n ≤ 2 * (divNearestEven n d * d) + d
      ∧ (2 * (divNearestEven n d * d) = 2 * n + d ∨ 2 * n = 2 * (divNearestEven n d * d) + d →
        divNearestEven n d % 2 = 0) := by
  have hn : n / d * d + n % d = n := Nat.div_add_mod' n d
  have hr : n % d < d := Nat.mod_lt n hd
  have hnext : (n / d + 1) * d = n / d * d + d := Nat.succ_mul ..
  simp only [divNearestEven]
  split
  · omega
  split
  · rw [hnext]
    omega
  split
  · omega
  · rw [hnext]
    omega

theorem le_divNearestEven (n d : Nat) : n / d ≤ divNearestEven n d := by
  simp only [divNearestEven]
  split <;> [skip; split <;> [skip; split]] <;> omega

/-- A ratio over `2 ^ (p - q)`, with no division in it. -/
theorem scaleRatio_mul (n : Nat) {e : Int} {p q : Nat} (h : (p : Int) = q + e) :
    (scaleRatio n 1 e).1 * 2 ^ p = n * (scaleRatio n 1 e).2 * 2 ^ q
      ∧ 0 < (scaleRatio n 1 e).2 := by
  match e with
  | .ofNat j =>
      obtain rfl : p = j + q := by simp only [Int.ofNat_eq_natCast] at h; omega
      refine ⟨?_, Nat.mul_pos Nat.one_pos (Nat.two_pow_pos j)⟩
      simp only [scaleRatio]
      rw [Nat.one_mul, Nat.pow_add, Nat.mul_assoc]
  | .negSucc j =>
      obtain rfl : q = j + 1 + p := by omega
      refine ⟨?_, Nat.one_pos⟩
      simp only [scaleRatio]
      rw [Nat.mul_one, Nat.pow_add 2 (j + 1) p, Nat.mul_assoc]

/-- An integer has 53 bits before the point when it is counted in the units of its exponent. -/
theorem scaleRatio_bounds {n : Nat} (hn : n ≠ 0) :
    let r := scaleRatio n 1 ((n.log2 : Int) - 52)
    2 ^ 52 * r.2 ≤ r.1 ∧ r.1 < 2 ^ 53 * r.2 := by
  intro r
  obtain ⟨hmul, hpos⟩ := scaleRatio_mul n (e := (n.log2 : Int) - 52) (p := n.log2) (q := 52)
    (by omega)
  have hlog : 0 < 2 ^ n.log2 := Nat.two_pow_pos _
  constructor
  · refine Nat.le_of_mul_le_mul_right ?_ hlog
    calc 2 ^ 52 * r.2 * 2 ^ n.log2 = 2 ^ n.log2 * r.2 * 2 ^ 52 := by ring
      _ ≤ n * r.2 * 2 ^ 52 :=
          Nat.mul_le_mul_right _ (Nat.mul_le_mul_right _ (Nat.log2_self_le hn))
      _ = r.1 * 2 ^ n.log2 := hmul.symm
  · refine Nat.lt_of_mul_lt_mul_right (a := 2 ^ n.log2) ?_
    calc r.1 * 2 ^ n.log2 = n * r.2 * 2 ^ 52 := hmul
      _ < 2 ^ (n.log2 + 1) * r.2 * 2 ^ 52 :=
          (Nat.mul_lt_mul_right (Nat.two_pow_pos 52)).mpr
            ((Nat.mul_lt_mul_right hpos).mpr Nat.lt_log2_self)
      _ = 2 ^ 53 * r.2 * 2 ^ n.log2 := by rw [Nat.pow_succ]; ring

/-- The unit in the last place of an integer. -/
theorem unitExponent_natCast {n : Nat} (hn : n ≠ 0) :
    FloatFormat.double.unitExponent n 1 = (n.log2 : Int) - 52 := by
  obtain ⟨hlow, -⟩ := scaleRatio_bounds hn
  have hpos := (scaleRatio_mul n (e := (n.log2 : Int) - 52) (p := n.log2) (q := 52) (by omega)).2
  have hguess : (n.log2 : Int) - (Nat.log2 1 : Int) - (53 : Nat) + 1 = n.log2 - 52 := by
    have hone : Nat.log2 1 = 0 := by decide
    omega
  have hwide := Nat.not_lt.mpr ((Nat.le_div_iff_mul_le hpos).mpr hlow)
  simp only [FloatFormat.unitExponent, FloatFormat.double, hguess]
  rw [if_neg hwide]
  omega

/-- The mantissa that an integer is rounded to: of 53 bits or one too many, and at most half a
    unit away from the integer. -/
theorem mantissa_round {n : Nat} (hn : n ≠ 0) :
    let m := (FloatFormat.double.round n 1).mantissa
    let unit := 2 ^ (n.log2 + 1022)
    (2 ^ 52 ≤ m ∧ m ≤ 2 ^ 53) ∧ 2 ^ 52 * unit ≤ n * 2 ^ 1074
      ∧ 2 * (m * unit) ≤ 2 * (n * 2 ^ 1074) + unit ∧ 2 * (n * 2 ^ 1074) ≤ 2 * (m * unit) + unit
      ∧ (2 * (m * unit) = 2 * (n * 2 ^ 1074) + unit ∨ 2 * (n * 2 ^ 1074) = 2 * (m * unit) + unit →
        m % 2 = 0) := by
  intro m unit
  have hm : m = divNearestEven (scaleRatio n 1 ((n.log2 : Int) - 52)).1
      (scaleRatio n 1 ((n.log2 : Int) - 52)).2 := by
    rw [← unitExponent_natCast hn]
    rfl
  obtain ⟨hlow, hhigh⟩ := scaleRatio_bounds hn
  obtain ⟨hmul, hpos⟩ := scaleRatio_mul n (e := (n.log2 : Int) - 52) (p := n.log2 + 1022)
    (q := 1074) (by omega)
  rw [Nat.mul_right_comm] at hmul
  generalize (scaleRatio n 1 ((n.log2 : Int) - 52)).1 = num at hm hlow hhigh hmul
  generalize (scaleRatio n 1 ((n.log2 : Int) - 52)).2 = den at hm hlow hhigh hmul hpos
  obtain ⟨habove, hbelow, heven⟩ := divNearestEven_spec num hpos
  rw [← hm] at habove hbelow heven
  generalize n * 2 ^ 1074 = u at *
  have hunit : 0 < unit := Nat.two_pow_pos _
  -- all are multiplied by the denominator
  have hbits : 2 ^ 52 * unit * den = 2 ^ 52 * den * unit := Nat.mul_right_comm ..
  have hmantissa : m * unit * den = m * den * unit := Nat.mul_right_comm ..
  have hscale : ∀ {a b c d : Nat}, a * den = c * unit → b * den = d * unit →
      (a ≤ b ↔ c ≤ d) ∧ (a = b ↔ c = d) := by
    intro a b c d hac hbd
    constructor
    · rw [← Nat.mul_le_mul_right_iff hpos, hac, hbd, Nat.mul_le_mul_right_iff hunit]
    · rw [← Nat.mul_left_inj hpos.ne', hac, hbd, Nat.mul_left_inj hunit.ne']
  have hrounded : 2 * (m * unit) * den = 2 * (m * den) * unit := by
    rw [Nat.mul_assoc, hmantissa, ← Nat.mul_assoc]
  have hnumber : 2 * u * den = 2 * num * unit := by
    rw [Nat.mul_assoc, ← hmul, Nat.mul_assoc]
  have hrounded' : (2 * (m * unit) + unit) * den = (2 * (m * den) + den) * unit := by
    rw [Nat.add_mul, hrounded, Nat.add_mul, Nat.mul_comm unit den]
  have hnumber' : (2 * u + unit) * den = (2 * num + den) * unit := by
    rw [Nat.add_mul, hnumber, Nat.add_mul, Nat.mul_comm unit den]
  refine ⟨⟨?_, ?_⟩, (hscale hbits hmul.symm).1.mpr hlow, (hscale hrounded hnumber').1.mpr habove,
    (hscale hnumber hrounded').1.mpr hbelow, fun h => heven ?_⟩
  · rw [hm]
    exact ((Nat.le_div_iff_mul_le hpos).mpr hlow).trans (le_divNearestEven num den)
  · rw [hm]
    exact (divNearestEven_le num den).trans ((Nat.div_lt_iff_lt_mul hpos).mpr hhigh)
  · exact h.imp (hscale hrounded hnumber').2.mp (hscale hnumber hrounded').2.mp

namespace Double

/-- The bits of a mantissa of 53 bits, or one too many, over the unit of an integer. -/
theorem encodeMagnitude_eq {m log : Nat} (hlow : 2 ^ 52 ≤ m) (hhigh : m ≤ 2 ^ 53)
    (hlog : log < 200) :
    encodeMagnitude ⟨m, (log : Int) - 52⟩ = (log + 1022 + 1) * 2 ^ 52 + (m - 2 ^ 52) := by
  have hfield : ((log : Int) - 52 + 1075).toNat = log + 1022 + 1 := by omega
  simp only [encodeMagnitude, hfield]
  rw [if_neg (Nat.not_lt.mpr hlow)]
  omega

/-- An integer is in the cell of the double that it is rounded to. -/
theorem cell_round {n : Nat} (h : n < 2 ^ 200) :
    Cell (encodeMagnitude (FloatFormat.double.round n 1)) ((n : Int) * 2 ^ 1074) := by
  by_cases hn : n = 0
  · subst hn
    rw [Int.natCast_zero, Int.zero_mul]
    exact ⟨by decide, by decide, fun _ => rfl⟩
  have hlog : n.log2 < 200 := (Nat.log2_lt hn).mpr h
  obtain ⟨⟨hlow, hhigh⟩, hbottom, habove, hbelow, heven⟩ := mantissa_round hn
  have hround : FloatFormat.double.round n 1
      = ⟨(FloatFormat.double.round n 1).mantissa, (n.log2 : Int) - 52⟩ := by
    rw [← unitExponent_natCast hn]
    rfl
  rw [hround, encodeMagnitude_eq hlow hhigh hlog]
  generalize (FloatFormat.double.round n 1).mantissa = m at *
  obtain ⟨r, rfl⟩ : ∃ r, m = 2 ^ 52 + r := ⟨m - 2 ^ 52, by omega⟩
  rw [Nat.add_sub_cancel_left]
  have hr : r ≤ 2 ^ 52 := by omega
  have hparity : ((n.log2 + 1022 + 1) * 2 ^ 52 + r) % 2 = (2 ^ 52 + r) % 2 := by omega
  have hself := units_carry (n.log2 + 1022) hr
  have hnext : (2 ^ 52 + r) * 2 ^ (n.log2 + 1022) + 2 ^ (n.log2 + 1022)
      ≤ units ((n.log2 + 1022 + 1) * 2 ^ 52 + r + 1) := by
    rw [units_succ, hself]
    exact Nat.add_le_add_left (Nat.pow_le_pow_right Nat.two_pos (by omega)) _
  -- the double before has the same unit, or it is the largest one with half of it
  have hprev : units ((n.log2 + 1022 + 1) * 2 ^ 52 + r - 1) + 2 ^ (n.log2 + 1022)
        = (2 ^ 52 + r) * 2 ^ (n.log2 + 1022)
      ∨ r = 0 ∧ units ((n.log2 + 1022 + 1) * 2 ^ 52 + r - 1)
        < (2 ^ 52 + r) * 2 ^ (n.log2 + 1022) := by
    cases r with
    | zero =>
        refine Or.inr ⟨rfl, ?_⟩
        rw [← hself]
        exact units_strictMono (by omega)
    | succ r =>
        refine Or.inl ?_
        have hmore : (2 ^ 52 + (r + 1)) * 2 ^ (n.log2 + 1022)
            = (2 ^ 52 + r) * 2 ^ (n.log2 + 1022) + 2 ^ (n.log2 + 1022) := Nat.succ_mul ..
        rw [← Nat.add_assoc, Nat.add_sub_cancel, units_carry _ (by omega), hmore]
  have hu : (n : Int) * 2 ^ 1074 = (n * 2 ^ 1074 : Nat) := by
    rw [Int.natCast_mul, Int.natCast_pow]
    rfl
  rw [hu]
  clear hround hu
  generalize n * 2 ^ 1074 = u at *
  generalize hunit : 2 ^ (n.log2 + 1022) = unit at *
  refine Cell.natCast (by omega) ?_ ?_ ?_
  · rw [hself]
    rcases hprev with hprev | ⟨rfl, hprev⟩ <;> omega
  · rw [hself]
    omega
  · rw [hself]
    intro hmiddle
    rw [hparity]
    refine heven ?_
    rcases hprev with hprev | ⟨rfl, hprev⟩ <;> omega

/-- An integer is rounded to its nearest double. -/
theorem ofInt_isNearest {n : Int} (h : n.natAbs < 2 ^ 200) : IsNearest n (ofInt n) := by
  refine isNearest_of_cell (ofInt_isFinite h) ?_
  have hcell := cell_round h
  have hbits : encodeMagnitude (FloatFormat.double.round n.natAbs 1) < 2 ^ 63 := by
    have hmax : encodeMagnitude (FloatFormat.double.round n.natAbs 1) ≤ 2047 * 2 ^ 52 :=
      Nat.min_le_right ..
    omega
  rw [ofInt, ofRatio, ordinal_ofParts _ hbits]
  by_cases hneg : n < 0
  · have hu : n * 2 ^ 1074 = -((n.natAbs : Int) * 2 ^ 1074) := by
      rw [← Int.neg_mul, Int.ofNat_natAbs_of_nonpos hneg.le, Int.neg_neg]
    rw [if_pos (decide_eq_true hneg), hu]
    exact hcell.neg
  · rw [Int.natAbs_of_nonneg (not_lt.mp hneg)] at hcell
    rw [decide_eq_false hneg, if_neg Bool.false_ne_true]
    exact hcell

end Double

end QueryReplay
