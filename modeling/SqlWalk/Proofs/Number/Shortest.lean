import SqlWalk.Proofs.Number.Interval

namespace SqlWalk

variable {f : BinaryFormat} {b : Binary} {d : Decimal} {power : ℤ} {k n : ℕ}

theorem ten_zpow_pos (e : ℤ) : (0 : ℚ) < 10 ^ e :=
  zpow_pos (by norm_num) e

def Decimal.value (d : Decimal) : ℚ :=
  d.digits * 10 ^ d.exponent

/-- A power of two and one of ten, in a common unit. -/
def binaryUnits (e power : ℤ) : ℕ :=
  Nat.pow 2 e.toNat * Nat.pow 10 (-power).toNat

def decimalUnits (e power : ℤ) : ℕ :=
  Nat.pow 2 (-e).toNat * Nat.pow 10 power.toNat

theorem exists_commonUnit (e power : ℤ) : ∃ c : ℚ, 0 < c ∧
    (binaryUnits e power : ℚ) = c * 2 ^ e ∧ (decimalUnits e power : ℚ) = c * 10 ^ power := by
  refine ⟨2 ^ (-e).toNat * 10 ^ (-power).toNat, by positivity, ?_, ?_⟩
  · rw [binaryUnits, two_zpow_eq_div]
    simp only [Nat.pow_eq]
    push_cast
    field_simp
  · rw [decimalUnits, ten_zpow_eq_div]
    simp only [Nat.pow_eq]
    push_cast
    field_simp

namespace BinaryFormat

/-- A quarter of the unit of a magnitude and a step of a grid, in a common unit. -/
def quarterUnits (b : Binary) (power : ℤ) : ℕ :=
  binaryUnits (b.exponent - 2) power

def stepUnits (b : Binary) (power : ℤ) : ℕ :=
  Nat.pow 2 (2 - b.exponent).toNat * Nat.pow 10 power.toNat

theorem stepUnits_eq (b : Binary) (power : ℤ) :
    stepUnits b power = decimalUnits (b.exponent - 2) power := by
  rw [stepUnits, decimalUnits, neg_sub]

theorem stepUnits_pos (b : Binary) (power : ℤ) : 0 < stepUnits b power :=
  Nat.mul_pos (Nat.pow_pos two_pos) (Nat.pow_pos (by norm_num))

theorem mul_units_le_iff (k n : ℕ) :
    (k * quarterUnits b power ≤ n * stepUnits b power ↔
      (k : ℚ) * 2 ^ (b.exponent - 2) ≤ n * 10 ^ power) ∧
    (n * stepUnits b power ≤ k * quarterUnits b power ↔
      (n : ℚ) * 10 ^ power ≤ k * 2 ^ (b.exponent - 2)) := by
  obtain ⟨c, hc, hq, hs⟩ := exists_commonUnit (b.exponent - 2) power
  rw [← stepUnits_eq] at hs
  change (quarterUnits b power : ℚ) = _ at hq
  have hk : ((k * quarterUnits b power : ℕ) : ℚ) = c * (k * 2 ^ (b.exponent - 2)) := by
    rw [Nat.cast_mul, hq]
    ring
  have hn : ((n * stepUnits b power : ℕ) : ℚ) = c * (n * 10 ^ power) := by
    rw [Nat.cast_mul, hs]
    ring
  rw [← Nat.cast_le (α := ℚ), ← Nat.cast_le (α := ℚ), hk, hn]
  exact ⟨mul_le_mul_iff_of_pos_left hc, mul_le_mul_iff_of_pos_left hc⟩

def withinOnGrid (f : BinaryFormat) (b : Binary) (power : ℤ) (n : ℕ) : Bool :=
  if b.mantissa % 2 = 0 then
    (f.interval b).1 * quarterUnits b power ≤ n * stepUnits b power &&
      n * stepUnits b power ≤ (f.interval b).2 * quarterUnits b power
  else
    (f.interval b).1 * quarterUnits b power < n * stepUnits b power &&
      n * stepUnits b power < (f.interval b).2 * quarterUnits b power

theorem withinOnGrid_iff : f.withinOnGrid b power n = true ↔ f.Within b (n * 10 ^ power) := by
  have hlow := @mul_units_le_iff b power (f.interval b).1 n
  have hhigh := @mul_units_le_iff b power (f.interval b).2 n
  rw [withinOnGrid, Within]
  split
  · rw [Bool.and_eq_true, decide_eq_true_eq, decide_eq_true_eq, hlow.1, hhigh.2]
    rfl
  · rw [Bool.and_eq_true, decide_eq_true_eq, decide_eq_true_eq, ← not_le, ← not_le, hlow.2,
      hhigh.1, not_le, not_le]
    rfl

theorem onGrid?_eq (f : BinaryFormat) (b : Binary) (power : ℤ) :
    let value := 4 * b.mantissa * quarterUnits b power
    let step := stepUnits b power
    let n := value / step
    f.onGrid? b power =
      match f.withinOnGrid b power n, f.withinOnGrid b power (n + 1) with
      | true, true =>
        if 2 * value < (2 * n + 1) * step || 2 * value == (2 * n + 1) * step && n % 2 == 0
        then some n else some (n + 1)
      | true, false => some n
      | false, true => some (n + 1)
      | false, false => none :=
  rfl

theorem exists_gridPoint (b : Binary) (power : ℤ) :
    let n := 4 * b.mantissa * quarterUnits b power / stepUnits b power
    n * 10 ^ power ≤ b.value ∧ b.value < (n + 1 : ℕ) * 10 ^ power := by
  intro n
  have hb : b.value = (4 * b.mantissa : ℕ) * 2 ^ (b.exponent - 2) := by
    rw [two_zpow_sub_two, Binary.value]
    push_cast
    ring
  constructor
  · rw [hb]
    exact (mul_units_le_iff _ _).2.1 (Nat.div_mul_le_self _ _)
  · rw [hb, ← not_le, ← (mul_units_le_iff _ _).2, not_le]
    exact Nat.lt_mul_of_div_lt (Nat.lt_succ_self n) (stepUnits_pos b power)

theorem two_mul_value_le_iff (n : ℕ) :
    (2 * (4 * b.mantissa * quarterUnits b power) ≤ (2 * n + 1) * stepUnits b power ↔
      2 * b.value ≤ (2 * n + 1) * 10 ^ power) ∧
    ((2 * n + 1) * stepUnits b power ≤ 2 * (4 * b.mantissa * quarterUnits b power) ↔
      (2 * n + 1) * 10 ^ power ≤ 2 * b.value) := by
  have hb : 2 * b.value = (2 * (4 * b.mantissa) : ℕ) * 2 ^ (b.exponent - 2) := by
    rw [two_zpow_sub_two, Binary.value]
    push_cast
    ring
  have h := @mul_units_le_iff b power (2 * (4 * b.mantissa)) (2 * n + 1)
  rw [hb, ← mul_assoc]
  push_cast at h ⊢
  exact h

/-- Of the two points next to a magnitude the nearer one within its interval is taken. -/
theorem onGrid?_cases (f : BinaryFormat) (b : Binary) (power : ℤ) :
    ∃ n : ℕ, n * 10 ^ power ≤ b.value ∧ b.value < (n + 1 : ℕ) * 10 ^ power ∧
      (f.onGrid? b power = some n ∧ f.Within b (n * 10 ^ power) ∧
          (f.Within b ((n + 1 : ℕ) * 10 ^ power) → 2 * b.value ≤ (2 * n + 1) * 10 ^ power) ∨
        f.onGrid? b power = some (n + 1) ∧ f.Within b ((n + 1 : ℕ) * 10 ^ power) ∧
          (f.Within b (n * 10 ^ power) → (2 * n + 1) * 10 ^ power ≤ 2 * b.value) ∨
        f.onGrid? b power = none ∧ ¬f.Within b (n * 10 ^ power) ∧
          ¬f.Within b ((n + 1 : ℕ) * 10 ^ power)) := by
  obtain ⟨hle, hlt⟩ := exists_gridPoint b power
  have heq := onGrid?_eq f b power
  simp only at hle hlt heq
  generalize 4 * b.mantissa * quarterUnits b power / stepUnits b power = n at hle hlt heq
  refine ⟨n, hle, hlt, ?_⟩
  rw [heq, ← withinOnGrid_iff, ← withinOnGrid_iff, ← (two_mul_value_le_iff n).1,
    ← (two_mul_value_le_iff n).2]
  cases f.withinOnGrid b power n <;> cases f.withinOnGrid b power (n + 1)
  · simp
  · simp
  · simp
  · simp only [Bool.or_eq_true, decide_eq_true_eq, Bool.and_eq_true, beq_iff_eq]
    split
    · next hlow => exact .inl ⟨rfl, trivial, fun _ => by omega⟩
    · next hhigh => exact .inr (.inl ⟨rfl, trivial, fun _ => by omega⟩)

theorem lower_lt_value (f : BinaryFormat) (hb : 0 < b.mantissa) : f.lower b < b.value := by
  linarith [(lower_bounds f hb).2, two_zpow_pos b.exponent]

theorem value_lt_upper (f : BinaryFormat) (b : Binary) : b.value < f.upper b := by
  linarith [upper_eq f b, two_zpow_pos b.exponent]

theorem within_value (f : BinaryFormat) (hb : 0 < b.mantissa) : f.Within b b.value :=
  .of_lt (lower_lt_value f hb) (value_lt_upper f b)

theorem le_lower_of_not_within {x : ℚ} (h : ¬f.Within b x) (hx : x ≤ b.value) :
    x ≤ f.lower b := by
  by_contra hlt
  exact h (.of_lt (not_le.1 hlt) (hx.trans_lt (value_lt_upper f b)))

theorem upper_le_of_not_within {x : ℚ} (h : ¬f.Within b x) (hb : 0 < b.mantissa)
    (hx : b.value ≤ x) : f.upper b ≤ x := by
  by_contra hlt
  exact h (.of_lt ((lower_lt_value f hb).trans_le hx) (not_le.1 hlt))

theorem upper_sub_lower_le (hb : 0 < b.mantissa) (h : f.onGrid? b power = none) :
    f.upper b - f.lower b ≤ 10 ^ power := by
  obtain ⟨n, hle, hlt, hcases⟩ := onGrid?_cases f b power
  obtain ⟨heq, -⟩ | ⟨heq, -⟩ | ⟨-, hn, hn'⟩ := hcases
  · simp [heq] at h
  · simp [heq] at h
  · have hlo := le_lower_of_not_within hn hle
    have hhi := upper_le_of_not_within hn' hb hlt.le
    push_cast at hhi
    linarith

/-- A point that is taken lies within the interval. Near an end it does so only if the steps of its
grid are not short, else there would be a point nearer to the magnitude. -/
theorem onGrid?_some (hb : 0 < b.mantissa) (h : f.onGrid? b power = some k) :
    f.Within b (k * 10 ^ power) ∧
      2 * (b.value - f.lower b) ≤ 10 ^ power + 2 * |k * 10 ^ power - f.lower b| ∧
      2 * (b.value - f.lower b) ≤ 10 ^ power + 2 * |k * 10 ^ power - f.upper b| := by
  have hg := ten_zpow_pos power
  have hlo := (lower_bounds f hb).1
  have hhi := upper_eq f b
  have hu := two_zpow_pos b.exponent
  obtain ⟨n, hle, hlt, hcases⟩ := onGrid?_cases f b power
  push_cast at hlt hcases
  obtain ⟨heq, hk, hnear⟩ | ⟨heq, hk, hnear⟩ | ⟨heq, -⟩ := hcases
  · obtain rfl : n = k := by simpa [heq] using h
    refine ⟨hk, ?_, ?_⟩
    · have habs := le_abs_self (n * 10 ^ power - f.lower b)
      by_cases hw : f.Within b ((n + 1) * 10 ^ power)
      · linarith [hnear hw]
      · linarith [upper_le_of_not_within hw hb hlt.le, hk.bounds.1]
    · linarith [neg_abs_le (n * 10 ^ power - f.upper b)]
  · obtain rfl : n + 1 = k := by simpa [heq] using h
    push_cast
    refine ⟨hk, ?_, ?_⟩
    · linarith [le_abs_self ((n + 1) * 10 ^ power - f.lower b)]
    · have habs := neg_abs_le ((n + 1) * 10 ^ power - f.upper b)
      by_cases hw : f.Within b (n * 10 ^ power)
      · linarith [hnear hw]
      · linarith [le_lower_of_not_within hw hle, hk.bounds.2]
  · simp [heq] at h

theorem value_searchGrids_zero (f : BinaryFormat) (b : Binary) :
    (f.searchGrids b (min b.exponent 0) 0).value = b.value := by
  have hten (e : ℤ) : (10 : ℚ) ^ e = 2 ^ e * 5 ^ e := by
    rw [← mul_zpow]
    norm_num
  rw [searchGrids, Decimal.value, Binary.value]
  simp only [Nat.pow_eq]
  push_cast
  rcases le_total 0 b.exponent with h | h
  · obtain ⟨e, he⟩ := Int.eq_ofNat_of_zero_le h
    rw [min_eq_right h, he]
    simp
  · obtain ⟨e, he⟩ : ∃ e : ℕ, b.exponent = -e := ⟨(-b.exponent).toNat, by omega⟩
    have hzero : (-(e : ℤ)).toNat = 0 := by omega
    rw [min_eq_left h, he, hten, hzero, neg_neg, Int.toNat_natCast, zpow_neg, zpow_neg,
      zpow_natCast, zpow_natCast]
    field_simp

/-- What a search finds is the magnitude itself or a point taken on a grid, and the grid is the
coarsest one or the next one gives no point. -/
theorem searchGrids_spec (f : BinaryFormat) (b : Binary) (steps : ℕ) :
    let d := f.searchGrids b (min b.exponent 0) steps
    (d.value = b.value ∨ f.onGrid? b d.exponent = some d.digits) ∧
      (d.exponent = min b.exponent 0 + steps ∨ f.onGrid? b (d.exponent + 1) = none) := by
  induction steps with
  | zero => exact ⟨.inl (value_searchGrids_zero f b), .inl (by simp [searchGrids])⟩
  | succ steps ih =>
    rw [searchGrids]
    split
    · next n h => exact ⟨.inr h, .inl (by simp)⟩
    · next h =>
      refine ⟨ih.1, .inr ?_⟩
      obtain heq | hnone := ih.2
      · rw [heq, add_assoc]
        exact h
      · exact hnone

theorem two_zpow_le_ten_zpow (top : ℤ) :
    (2 : ℚ) ^ top ≤ 10 ^ ((if 0 ≤ top then top * 31 / 100 else top * 3 / 10) + 1) := by
  split
  · next h =>
    obtain ⟨t, rfl⟩ := Int.eq_ofNat_of_zero_le h
    obtain ⟨k, hk⟩ : ∃ k : ℕ, (t : ℤ) * 31 / 100 + 1 = k :=
      ⟨_, (Int.toNat_of_nonneg (by omega)).symm⟩
    rw [hk, zpow_natCast, zpow_natCast, ← pow_le_pow_iff_left₀ (by positivity) (by positivity)
      (by norm_num : 100 ≠ 0)]
    calc ((2 : ℚ) ^ t) ^ 100 = (2 ^ 100) ^ t := by rw [← pow_mul, ← pow_mul, mul_comm]
      _ ≤ (10 ^ 31) ^ t := pow_le_pow_left₀ (by norm_num) (by norm_num) t
      _ = 10 ^ (31 * t) := by rw [← pow_mul]
      _ ≤ 10 ^ (k * 100) := pow_le_pow_right₀ (by norm_num) (by omega)
      _ = (10 ^ k) ^ 100 := by rw [pow_mul]
  · next h =>
    obtain ⟨t, rfl⟩ : ∃ t : ℕ, top = -t := ⟨(-top).toNat, by omega⟩
    obtain ⟨k, hk⟩ : ∃ k : ℕ, -(t : ℤ) * 3 / 10 + 1 = -k :=
      ⟨(-(-(t : ℤ) * 3 / 10 + 1)).toNat, by omega⟩
    rw [hk, zpow_neg, zpow_neg, zpow_natCast, zpow_natCast]
    apply inv_anti₀ (by positivity)
    rw [← pow_le_pow_iff_left₀ (by positivity) (by positivity) (by norm_num : 10 ≠ 0)]
    calc ((10 : ℚ) ^ k) ^ 10 = 10 ^ (k * 10) := by rw [pow_mul]
      _ ≤ 10 ^ (3 * t) := pow_le_pow_right₀ (by norm_num) (by omega)
      _ = (10 ^ 3) ^ t := by rw [pow_mul]
      _ ≤ (2 ^ 10) ^ t := pow_le_pow_left₀ (by norm_num) (by norm_num) t
      _ = (2 ^ t) ^ 10 := by rw [← pow_mul, ← pow_mul, mul_comm]

theorem shortest_spec (f : BinaryFormat) (b : Binary) :
    let d := f.shortest b
    (d.value = b.value ∨ f.onGrid? b d.exponent = some d.digits) ∧
      ((2 : ℚ) ^ (b.mantissa.log2 + 1 + b.exponent : ℤ) ≤ 10 ^ d.exponent ∨
        f.onGrid? b (d.exponent + 1) = none) := by
  let top : ℤ := b.mantissa.log2 + 1 + b.exponent
  let coarsest := (if 0 ≤ top then top * 31 / 100 else top * 3 / 10) + 1
  obtain ⟨hfound, heq | hnone⟩ :=
    searchGrids_spec f b (coarsest - min b.exponent 0).toNat
  · refine ⟨hfound, .inl ((two_zpow_le_ten_zpow top).trans ?_)⟩
    apply zpow_le_zpow_right₀ (by norm_num)
    rw [shortest, heq]
    exact (sub_le_iff_le_add'.1 (Int.self_le_toNat _))
  · exact ⟨hfound, .inr hnone⟩

theorem within_shortest (hb : 0 < b.mantissa) : f.Within b (f.shortest b).value := by
  obtain ⟨heq | hgrid, -⟩ := shortest_spec f b
  · rw [heq]
    exact within_value f hb
  · exact (onGrid?_some hb hgrid).1

theorem lower_pos (f : BinaryFormat) (hb : 0 < b.mantissa) : 0 < f.lower b := by
  have hlow : 0 < (f.interval b).1 := by
    simp only [interval]
    split <;> omega
  exact mul_pos (by exact_mod_cast hlow) (two_zpow_pos _)

theorem digits_shortest_pos (hb : 0 < b.mantissa) : 0 < (f.shortest b).digits := by
  have hpos := (lower_pos f hb).trans_le (within_shortest hb).bounds.1
  rw [Decimal.value] at hpos
  exact_mod_cast pos_of_mul_pos_left hpos (ten_zpow_pos _).le

theorem le_ten_zpow_shortest (hb : 0 < b.mantissa) :
    3 * (2 : ℚ) ^ b.exponent ≤ 40 * 10 ^ (f.shortest b).exponent := by
  have hu := two_zpow_pos b.exponent
  obtain ⟨-, hcoarsest | hnone⟩ := shortest_spec f b
  · have hmono : (2 : ℚ) ^ b.exponent ≤ 2 ^ (b.mantissa.log2 + 1 + b.exponent : ℤ) :=
      zpow_le_zpow_right₀ one_le_two (by omega)
    linarith
  · have hlen := upper_sub_lower_le hb hnone
    rw [zpow_add_one₀ (by norm_num)] at hlen
    linarith [(lower_bounds f hb).2, upper_eq f b]

theorem upper_lt (hb : b.mantissa < 2 ^ f.precision) :
    f.upper b < 2 ^ f.precision * 2 ^ b.exponent := by
  have hm : (b.mantissa : ℚ) + 1 ≤ 2 ^ f.precision := by exact_mod_cast hb
  rw [upper_eq, Binary.value]
  nlinarith [two_zpow_pos b.exponent]

theorem digits_shortest_lt (hb : 0 < b.mantissa) (hlt : b.mantissa < 2 ^ f.precision) :
    (f.shortest b).digits < 14 * 2 ^ f.precision := by
  have hgrid := le_ten_zpow_shortest (f := f) hb
  have hd := (within_shortest (f := f) hb).bounds.2.trans_lt (upper_lt hlt)
  have hp : (0 : ℚ) < 2 ^ f.precision := by positivity
  have hg := ten_zpow_pos (f.shortest b).exponent
  rw [Decimal.value] at hd
  have h : ((f.shortest b).digits : ℚ) < 14 * 2 ^ f.precision := by
    rw [← mul_lt_mul_iff_left₀ hg]
    nlinarith
  exact_mod_cast h

theorem two_mul_sub_le_shortest {x : ℚ} (hb : 0 < b.mantissa)
    (hx : x = f.lower b ∨ x = f.upper b) :
    2 * (b.value - f.lower b) ≤ 10 ^ (f.shortest b).exponent + 2 * |(f.shortest b).value - x| := by
  obtain ⟨heq | hgrid, -⟩ := shortest_spec f b
  · have hg := ten_zpow_pos (f.shortest b).exponent
    rw [heq]
    rcases hx with rfl | rfl
    · linarith [le_abs_self (b.value - f.lower b)]
    · linarith [neg_abs_le (b.value - f.upper b), (lower_bounds f hb).1, upper_eq f b]
  · obtain ⟨-, hlow, hhigh⟩ := onGrid?_some hb hgrid
    rcases hx with rfl | rfl
    · exact hlow
    · exact hhigh

/-- Near an end of its interval the shortest decimal has no more digits than the format. -/
theorem digits_shortest_le {x : ℚ} (hb : 0 < b.mantissa) (hlt : b.mantissa < 2 ^ f.precision)
    (hx : x = f.lower b ∨ x = f.upper b)
    (hnear : |(f.shortest b).value - x| < 2 ^ b.exponent / (8 * 2 ^ f.precision)) :
    (f.shortest b).digits ≤ 2 ^ f.precision + 1 := by
  have hstep := two_mul_sub_le_shortest hb hx
  have hd := (within_shortest (f := f) hb).bounds.2
  have hp : f.precision ≠ 0 := by
    rintro heq
    rw [heq] at hlt
    omega
  have hm : (b.mantissa : ℚ) + 1 ≤ 2 ^ f.precision := by exact_mod_cast hlt
  have hq : (2 : ℚ) ≤ 2 ^ f.precision := by
    calc (2 : ℚ) = 2 ^ 1 := (pow_one 2).symm
      _ ≤ 2 ^ f.precision := pow_le_pow_right₀ one_le_two (Nat.one_le_iff_ne_zero.2 hp)
  by_contra hmany
  have hmany' : (2 : ℚ) ^ f.precision + 2 ≤ (f.shortest b).digits := by
    exact_mod_cast not_le.1 hmany
  have hu := two_zpow_pos b.exponent
  rw [Decimal.value] at hd hnear hstep
  rw [upper_eq, Binary.value] at hd
  rw [lt_div_iff₀ (by positivity)] at hnear
  rw [lower_eq f hb, sub_sub_cancel] at hstep
  have hg := ten_zpow_pos (f.shortest b).exponent
  have ha := abs_nonneg ((f.shortest b).digits * 10 ^ (f.shortest b).exponent - x)
  generalize |(f.shortest b).digits * 10 ^ (f.shortest b).exponent - x| = a at *
  generalize (10 : ℚ) ^ (f.shortest b).exponent = g at *
  generalize (2 : ℚ) ^ b.exponent = u at *
  -- So many digits make steps so short that half the gap to an end would exceed the distance to it.
  have hsteps : (2 ^ f.precision + 2) * g ≤ b.mantissa * u + u / 2 :=
    (mul_le_mul_of_nonneg_right hmany' hg.le).trans hd
  have hfar : (2 ^ f.precision + 2) * (2 * a) < u / 2 := by nlinarith
  have hmul := mul_le_mul_of_nonneg_left hstep (by linarith : (0 : ℚ) ≤ 2 ^ f.precision + 2)
  split at hmul
  · next hpower =>
    have hhalf : (2 : ℚ) ^ f.precision = 2 * b.mantissa := by
      rw [hpower.1, Nat.cast_pow, Nat.cast_ofNat, two_pow_precision (Nat.pos_of_ne_zero hp)]
    rw [hhalf] at hmul hsteps hfar
    linarith
  · nlinarith

end BinaryFormat
end SqlWalk
