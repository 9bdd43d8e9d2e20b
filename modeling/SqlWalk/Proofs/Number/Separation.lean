import SqlWalk.Proofs.Number.Shortest

namespace SqlWalk

variable {x y z c : ℚ} {a b n d m num den bound fuel : ℕ} {power e : ℤ}

/-- Says that two numbers differ by more than the factor that reading a decimal can bring in. -/
def Apart (x y : ℚ) : Prop :=
  (1 + 5 / 2 ^ 54) * x < y ∨ (1 + 5 / 2 ^ 54) * y < x

theorem Apart.symm (h : Apart x y) : Apart y x :=
  Or.symm h

theorem not_apart_iff : ¬Apart x y ↔ y ≤ (1 + 5 / 2 ^ 54) * x ∧ x ≤ (1 + 5 / 2 ^ 54) * y := by
  rw [Apart, not_or, not_lt, not_lt]

theorem apart_mul_iff (hc : 0 < c) : Apart (c * x) (c * y) ↔ Apart x y := by
  rw [Apart, Apart, mul_left_comm, mul_left_comm _ c y, mul_lt_mul_iff_right₀ hc,
    mul_lt_mul_iff_right₀ hc]

theorem Apart.lt_iff (h : Apart x z) (hxy : ¬Apart x y) (hx : 0 < x) (hz : 0 < z) :
    (z < x ↔ z < y) ∧ (x < z ↔ y < z) := by
  obtain ⟨hyx, hxy⟩ := not_apart_iff.1 hxy
  rcases h with h | h
  · have hxz : x < z := by linarith
    have hyz : y < z := by linarith
    exact ⟨iff_of_false hxz.not_gt hyz.not_gt, iff_of_true hxz hyz⟩
  · have hzx : z < x := by linarith
    have hzy : z < y := by linarith
    exact ⟨iff_of_true hzx hzy, iff_of_false hzx.not_gt hzy.not_gt⟩

theorem apart_of_ne (h : a ≠ b) (hsmall : 5 * min a b < 2 ^ 54) : Apart (a : ℚ) b := by
  wlog hab : a < b generalizing a b
  · exact (this h.symm (by rwa [min_comm]) (lt_of_le_of_ne (not_lt.1 hab) h.symm)).symm
  · left
    have hstep : (a : ℚ) + 1 ≤ b := by exact_mod_cast Nat.succ_le_of_lt hab
    have hsmall' : 5 * (a : ℚ) < 2 ^ 54 := by
      rw [min_eq_left hab.le] at hsmall
      exact_mod_cast hsmall
    rw [add_mul, one_mul, div_mul_eq_mul_div]
    refine lt_of_lt_of_le ?_ hstep
    rw [add_lt_add_iff_left, div_lt_one (by positivity)]
    exact hsmall'

/-- Two fractions, where the one above may be infinite. -/
structure FractionPair where
  lowNum : ℕ
  lowDen : ℕ
  highNum : ℕ
  highDen : ℕ

namespace FractionPair

variable {s : FractionPair}

/-- Says that two fractions are neighbours: all that lie between them have greater denominators. -/
def Adjacent (s : FractionPair) : Prop :=
  s.highNum * s.lowDen = s.lowNum * s.highDen + 1

/-- Puts mediants for the fractions next to a ratio, with denominators up to a bound. -/
def refine (num den bound : ℕ) : ℕ → FractionPair → FractionPair
  | 0, s => s
  | fuel + 1, s =>
    let n := s.lowNum + s.highNum
    let d := s.lowDen + s.highDen
    if bound < d then s
    else if n * den ≤ num * d then refine num den bound fuel { s with lowNum := n, lowDen := d }
    else refine num den bound fuel { s with highNum := n, highDen := d }

theorem Adjacent.refine (h : s.Adjacent) : (s.refine num den bound fuel).Adjacent := by
  induction fuel generalizing s with
  | zero => exact h
  | succ fuel ih =>
    rw [FractionPair.refine]
    rw [Adjacent] at h
    split
    · exact h
    · split
      · apply ih
        rw [Adjacent]
        linarith
      · apply ih
        rw [Adjacent]
        linarith

theorem Adjacent.highNum_pos (h : s.Adjacent) : 0 < s.highNum := by
  refine Nat.pos_of_ne_zero fun hzero => ?_
  rw [Adjacent, hzero] at h
  omega

theorem Adjacent.coprime (h : s.Adjacent) : s.highNum.Coprime s.highDen := by
  rw [Adjacent] at h
  rw [← Nat.isCoprime_iff_coprime]
  refine ⟨s.lowDen, -s.lowNum, ?_⟩
  zify at h
  linear_combination h

/-- No fraction with a small denominator lies between neighbours. -/
theorem Adjacent.le_or_le (h : s.Adjacent) (hd : d < s.lowDen + s.highDen) :
    n * s.lowDen ≤ s.lowNum * d ∨ s.highNum * d ≤ n * s.highDen := by
  by_contra hnot
  obtain ⟨hlow, hhigh⟩ := not_or.1 hnot
  rw [not_le] at hlow hhigh
  obtain ⟨u, hu⟩ := Nat.exists_eq_add_of_lt hlow
  obtain ⟨v, hv⟩ := Nat.exists_eq_add_of_lt hhigh
  rw [Adjacent] at h
  -- The denominator is a sum of both denominators with positive coefficients.
  have hsum : d = s.lowDen * (v + 1) + s.highDen * (u + 1) := by
    zify at h hu hv ⊢
    linear_combination s.lowDen * hv + s.highDen * hu - d * h
  nlinarith [Nat.zero_le (s.lowDen * v), Nat.zero_le (s.highDen * u)]

def IsBelow (s : FractionPair) (num den : ℕ) : Prop :=
  (2 ^ 54 + 5) * (s.lowNum * den) < 2 ^ 54 * (num * s.lowDen)

def IsAbove (s : FractionPair) (num den : ℕ) : Prop :=
  (2 ^ 54 + 5) * (num * s.highDen) < 2 ^ 54 * (s.highNum * den)

instance : Decidable (s.IsBelow num den) :=
  inferInstanceAs (Decidable (_ < _))

instance : Decidable (s.IsAbove num den) :=
  inferInstanceAs (Decidable (_ < _))

theorem IsBelow.apart (h : s.IsBelow num den) (hd : 0 < d) (hn : n * s.lowDen ≤ s.lowNum * d) :
    Apart (n * den) (d * num) := by
  left
  have hlt : (2 ^ 54 + 5) * (n * den) < 2 ^ 54 * (d * num) := by
    apply Nat.lt_of_mul_lt_mul_right (a := s.lowDen)
    calc (2 ^ 54 + 5) * (n * den) * s.lowDen = (2 ^ 54 + 5) * den * (n * s.lowDen) := by ring
      _ ≤ (2 ^ 54 + 5) * den * (s.lowNum * d) := Nat.mul_le_mul_left _ hn
      _ = (2 ^ 54 + 5) * (s.lowNum * den) * d := by ring
      _ < 2 ^ 54 * (num * s.lowDen) * d := Nat.mul_lt_mul_of_pos_right h hd
      _ = 2 ^ 54 * (d * num) * s.lowDen := by ring
  have hlt' : ((2 ^ 54 + 5 : ℕ) : ℚ) * (n * den) < (2 ^ 54 : ℕ) * (d * num) := by exact_mod_cast hlt
  push_cast at hlt'
  linarith

theorem IsAbove.apart (h : s.IsAbove num den) (hs : 0 < s.highNum) (hd : 0 < d)
    (hn : s.highNum * d ≤ n * s.highDen) : Apart (n * den) (d * num) := by
  right
  have hn' : 0 < n := Nat.pos_of_mul_pos_right ((Nat.mul_pos hs hd).trans_le hn)
  have hlt : (2 ^ 54 + 5) * (d * num) < 2 ^ 54 * (n * den) := by
    apply Nat.lt_of_mul_lt_mul_right (a := s.highNum)
    calc (2 ^ 54 + 5) * (d * num) * s.highNum = (2 ^ 54 + 5) * num * (s.highNum * d) := by ring
      _ ≤ (2 ^ 54 + 5) * num * (n * s.highDen) := Nat.mul_le_mul_left _ hn
      _ = (2 ^ 54 + 5) * (num * s.highDen) * n := by ring
      _ < 2 ^ 54 * (s.highNum * den) * n := Nat.mul_lt_mul_of_pos_right h hn'
      _ = 2 ^ 54 * (n * den) * s.highNum := by ring
  have hlt' : ((2 ^ 54 + 5 : ℕ) : ℚ) * (d * num) < (2 ^ 54 : ℕ) * (n * den) := by exact_mod_cast hlt
  push_cast at hlt'
  linarith

end FractionPair

open FractionPair

/-- Says that no fraction with a denominator up to a bound is near a ratio. -/
def isolates (num den bound : ℕ) : Bool :=
  let s := refine num den bound 1500 ⟨0, 1, 1, 0⟩
  bound < s.lowDen + s.highDen && s.IsBelow num den && s.IsAbove num den

theorem apart_of_isolates (h : isolates num den bound = true) (hd : 0 < d) (hb : d ≤ bound) :
    Apart (n * den) (d * num) := by
  have hs : (refine num den bound 1500 ⟨0, 1, 1, 0⟩).Adjacent :=
    Adjacent.refine rfl
  simp only [isolates, Bool.and_eq_true, decide_eq_true_eq] at h
  obtain ⟨⟨hbound, hlow⟩, hhigh⟩ := h
  rcases hs.le_or_le (n := n) (hb.trans_lt hbound) with hn | hn
  · exact hlow.apart hd hn
  · exact hhigh.apart hs.highNum_pos hd hn

theorem eq_of_coprime_of_mul_eq (hab : a.Coprime b) (hd : 0 < d) (hdb : d < 2 * b)
    (h : n * b = a * d) : n = a ∧ d = b := by
  obtain ⟨k, rfl⟩ : b ∣ d := hab.symm.dvd_of_dvd_mul_left ⟨n, by rw [← h, mul_comm]⟩
  have hb : 0 < b := Nat.pos_of_mul_pos_right hd
  obtain rfl : k = 1 := by
    have hpos : 0 < k := Nat.pos_of_mul_pos_left hd
    have hlt : k < 2 := Nat.lt_of_mul_lt_mul_left (hdb.trans_eq (mul_comm 2 b))
    omega
  rw [mul_one] at h ⊢
  exact ⟨Nat.eq_of_mul_eq_mul_right hb h, rfl⟩

theorem eq_or_apart_of_adjacent (num den : ℕ) {s t : FractionPair} (hs : s.Adjacent)
    (ht : t.Adjacent) (hshare : t.lowNum = s.highNum ∧ t.lowDen = s.highDen)
    (hlow : s.IsBelow num den) (hhigh : t.IsAbove num den)
    (hbound : bound < s.lowDen + s.highDen ∧ bound < t.lowDen + t.highDen ∧ bound < 2 * s.highDen)
    (hd : 0 < d) (hb : d ≤ bound) :
    n = s.highNum ∧ d = s.highDen ∨ Apart (n * den) (d * num) := by
  obtain ⟨hbs, hbt, hbtwo⟩ := hbound
  rcases hs.le_or_le (n := n) (hb.trans_lt hbs) with hn | hn
  · exact .inr (hlow.apart hd hn)
  · rcases ht.le_or_le (n := n) (hb.trans_lt hbt) with hn' | hn'
    · rw [hshare.1, hshare.2] at hn'
      exact .inl (eq_of_coprime_of_mul_eq hs.coprime hd (hb.trans_lt hbtwo) (le_antisymm hn' hn))
    · exact .inr (hhigh.apart ht.highNum_pos hd hn')

/-- The exponent of a power of two that is a little below a power of ten. -/
def exponentBelow (power : ℤ) : ℤ :=
  power * 3322 / 1000 - 1

theorem apart_of_units {e' : ℤ} (h : Apart (n * decimalUnits e' power) (d * binaryUnits e' power)) :
    Apart (n * 10 ^ power) (d * 2 ^ e') := by
  obtain ⟨c, hc, hbinary, hdecimal⟩ := exists_commonUnit e' power
  rw [hbinary, hdecimal, mul_left_comm, mul_left_comm _ c, apart_mul_iff hc] at h
  exact h

theorem natCast_mul_two_zpow {e e' : ℤ} (h : e ≤ e') (m : ℕ) :
    ((m * 2 ^ (e' - e).toNat : ℕ) : ℚ) * 2 ^ e = m * 2 ^ e' := by
  push_cast
  rw [mul_assoc, ← zpow_natCast, ← zpow_add₀ two_ne_zero, Int.toNat_of_nonneg (by omega),
    sub_add_cancel]

/-- Says that no short decimal with a power of ten is near a short binary number. The binary number
has the denominator of the fraction for a fine unit, the decimal for a coarse one. -/
def separates (power : ℤ) : Bool :=
  let e := exponentBelow power
  isolates (binaryUnits e power) (decimalUnits e power) (2 ^ 25 + 1) &&
    isolates (decimalUnits (e + 1) power) (binaryUnits (e + 1) power) (2 ^ 24 + 1)

theorem Apart.of_fine {e e' : ℤ} (h : e ≤ e')
    (hnear : Apart ((d * 2 ^ (e' - e).toNat : ℕ) * decimalUnits e' power)
      (m * binaryUnits e' power)) : Apart (d * 10 ^ power) (m * 2 ^ e) := by
  have hm : (m : ℚ) * 2 ^ e' = 2 ^ (e' - e) * (m * 2 ^ e) := by
    rw [mul_left_comm, ← zpow_add₀ two_ne_zero, sub_add_cancel]
  have hd : ((d * 2 ^ (e' - e).toNat : ℕ) : ℚ) * 10 ^ power =
      2 ^ (e' - e) * (d * 10 ^ power) := by
    push_cast
    rw [← zpow_natCast, Int.toNat_of_nonneg (by omega)]
    ring
  have hmultiplied := apart_of_units hnear
  rwa [hm, hd, apart_mul_iff (two_zpow_pos _)] at hmultiplied

theorem Apart.of_coarse {e e' : ℤ} (h : e' ≤ e)
    (hnear : Apart (d * decimalUnits e' power) ((m * 2 ^ (e - e').toNat : ℕ) *
      binaryUnits e' power)) : Apart (d * 10 ^ power) (m * 2 ^ e) := by
  have hmultiplied := apart_of_units hnear
  rwa [natCast_mul_two_zpow h] at hmultiplied

theorem apart_of_separates (h : separates power = true) (hd : 0 < d) (hd' : d ≤ 2 ^ 24 + 1)
    (hm : 0 < m) (hm' : m ≤ 2 ^ 25 + 1) (e : ℤ) : Apart (d * 10 ^ power) (m * 2 ^ e) := by
  rw [separates, Bool.and_eq_true] at h
  rcases le_or_gt e (exponentBelow power) with hle | hlt
  · exact .of_fine hle (apart_of_isolates h.1 hm hm')
  · exact .of_coarse hlt (apart_of_isolates h.2 hd hd').symm

theorem exists_common_unit (d m : ℕ) (power e : ℤ) : ∃ c : ℚ, 0 < c ∧
    c * (d * 10 ^ power) = (d * 5 ^ power.toNat * 2 ^ (power - e).toNat : ℕ) ∧
      c * (m * 2 ^ e) = (m * 5 ^ (-power).toNat * 2 ^ (e - power).toNat : ℕ) := by
  have hten : (10 : ℚ) ^ power = 2 ^ power * (5 ^ power.toNat / 5 ^ (-power).toNat) := by
    rw [← zpow_eq_div_toNat (by norm_num), ← mul_zpow]
    norm_num
  have htwo : (2 : ℚ) ^ e = 2 ^ power * (2 ^ (e - power).toNat / 2 ^ (power - e).toNat) := by
    rw [← neg_sub e power, ← two_zpow_eq_div, ← zpow_add₀ two_ne_zero, add_sub_cancel]
  refine ⟨5 ^ (-power).toNat * 2 ^ (power - e).toNat / 2 ^ power, by positivity, ?_, ?_⟩
  · rw [hten]
    push_cast
    field_simp
  · rw [htwo]
    push_cast
    field_simp

theorem eq_or_apart_of_small (hd : d ≤ 2 ^ 24 + 1) (hm : m ≤ 2 ^ 25 + 1)
    (hpower : power.natAbs ≤ 11) (e : ℤ) :
    (d : ℚ) * 10 ^ power = m * 2 ^ e ∨ Apart (d * 10 ^ power) (m * 2 ^ e) := by
  obtain ⟨c, hc, ha, hb⟩ := exists_common_unit d m power e
  have hfive (k : ℤ) (hk : k ≤ 11) : 5 ^ k.toNat ≤ 5 ^ 11 :=
    Nat.pow_le_pow_right (by norm_num) (by omega)
  rw [← apart_mul_iff hc, ha, hb]
  by_cases heq : d * 5 ^ power.toNat * 2 ^ (power - e).toNat =
      m * 5 ^ (-power).toNat * 2 ^ (e - power).toNat
  · left
    apply mul_left_cancel₀ hc.ne'
    rw [ha, hb, heq]
  · right
    apply apart_of_ne heq
    rcases le_total e power with hle | hle
    · rw [Int.toNat_of_nonpos (sub_nonpos.2 hle), pow_zero, mul_one (m * _)]
      calc 5 * min _ (m * 5 ^ (-power).toNat) ≤ 5 * ((2 ^ 25 + 1) * 5 ^ 11) := by
            gcongr
            exact (min_le_right _ _).trans (Nat.mul_le_mul hm (hfive _ (by omega)))
        _ < 2 ^ 54 := by norm_num
    · rw [Int.toNat_of_nonpos (sub_nonpos.2 hle), pow_zero, mul_one (d * _)]
      calc 5 * min (d * 5 ^ power.toNat) _ ≤ 5 * ((2 ^ 24 + 1) * 5 ^ 11) := by
            gcongr
            exact (min_le_left _ _).trans (Nat.mul_le_mul hd (hfive _ (by omega)))
        _ < 2 ^ 54 := by norm_num

/-- The only decimals that are near a binary number and not the same. -/
def IsCoincidence (d : ℕ) (power : ℤ) (x : ℚ) : Prop :=
  power = -32 ∧ (d = 7038531 ∧ x = 22841339 * 2 ^ (-108 : ℤ) ∨
    d = 14077062 ∧ x = 22841339 * 2 ^ (-107 : ℤ))

theorem isCoincidence_or_apart (hd : 0 < d) (hd' : d ≤ 2 ^ 24 + 1) (hm : 0 < m)
    (hm' : m ≤ 2 ^ 25 + 1) (e : ℤ) :
    IsCoincidence d (-32) (m * 2 ^ e) ∨ Apart (d * 10 ^ (-32 : ℤ)) (m * 2 ^ e) := by
  rcases le_or_gt e (-108) with hle | hlt
  · have hcases := eq_or_apart_of_adjacent (binaryUnits (-108) (-32))
      (decimalUnits (-108) (-32)) (n := d * 2 ^ (-108 - e).toNat)
      (s := ⟨9610261, 31187080, 7038531, 22841339⟩) (t := ⟨7038531, 22841339, 4466801, 14495598⟩)
      (by norm_num [Adjacent]) (by norm_num [Adjacent]) ⟨rfl, rfl⟩ (by decide +kernel)
      (by decide +kernel) (by norm_num) hm hm'
    rcases hcases with ⟨hodd, rfl⟩ | happart
    · obtain rfl : e = -108 := by
        by_contra hne
        obtain ⟨t, ht⟩ : ∃ t, (-108 - e).toNat = t + 1 := ⟨(-108 - e).toNat - 1, by omega⟩
        rw [ht, pow_succ, ← mul_assoc] at hodd
        have heven : d * 2 ^ t * 2 = 7038531 := hodd
        omega
      exact .inl ⟨rfl, .inl ⟨by simpa using hodd, rfl⟩⟩
    · exact .inr (.of_fine hle happart)
  · have hcases := eq_or_apart_of_adjacent (decimalUnits (-107) (-32))
      (binaryUnits (-107) (-32)) (n := m * 2 ^ (e - -107).toNat)
      (s := ⟨7247799, 4466801, 22841339, 14077062⟩) (t := ⟨22841339, 14077062, 15593540, 9610261⟩)
      (by norm_num [Adjacent]) (by norm_num [Adjacent]) ⟨rfl, rfl⟩ (by decide +kernel)
      (by decide +kernel) (by norm_num) hd hd'
    rcases hcases with ⟨hm, rfl⟩ | happart
    · refine .inl ⟨rfl, .inr ⟨rfl, ?_⟩⟩
      rw [← natCast_mul_two_zpow (e := -107) (by omega), hm]
      rfl
    · exact .inr (.of_coarse (by omega) happart.symm)

theorem separates_of_large : ∀ n : ℕ, n < 84 → 12 ≤ ((n : ℤ) - 45).natAbs → n ≠ 13 →
    separates (n - 45) = true := by
  decide +kernel

/-- A decimal of eight digits and a binary number of twenty-five are the same, or apart, or one of
two exceptions. They are the same with a small power of ten only. -/
theorem eq_or_apart (hd : 0 < d) (hd' : d ≤ 2 ^ 24 + 1) (hm : 0 < m) (hm' : m ≤ 2 ^ 25 + 1)
    (hlow : -45 ≤ power) (hhigh : power ≤ 38) (e : ℤ) :
    (power.natAbs ≤ 11 ∧ (d : ℚ) * 10 ^ power = m * 2 ^ e) ∨
      IsCoincidence d power (m * 2 ^ e) ∨ Apart (d * 10 ^ power) (m * 2 ^ e) := by
  rcases le_or_gt power.natAbs 11 with hsmall | hlarge
  · exact (eq_or_apart_of_small hd' hm' hsmall e).imp (.intro hsmall) .inr
  · right
    rcases eq_or_ne power (-32) with rfl | hne
    · exact isCoincidence_or_apart hd hd' hm hm' e
    · right
      obtain ⟨n, hn⟩ := Int.eq_ofNat_of_zero_le (by omega : 0 ≤ power + 45)
      obtain rfl : power = n - 45 := by omega
      have hseparates := separates_of_large n (by omega) (by omega) (by omega)
      exact apart_of_separates hseparates hd hd' hm hm' e

end SqlWalk
