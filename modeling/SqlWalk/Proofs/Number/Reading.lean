import SqlWalk.Proofs.Number.Bits
import SqlWalk.Proofs.Number.Numeral
import SqlWalk.Proofs.Number.Separation

namespace SqlWalk

variable {f : BinaryFormat} {a b s t y : Binary} {n : Numeral} {w x : ℚ} {num den value k m : ℕ}
  {power r : ℤ}

namespace Binary

theorem mantissa_pos_of_value_pos (h : 0 < b.value) : 0 < b.mantissa := by
  refine Nat.pos_of_ne_zero fun hzero => ?_
  rw [Binary.value, hzero, Nat.cast_zero, zero_mul] at h
  exact h.false

/-- Says that a number is far enough from the ends of double precision to calculate with it. -/
def Moderate (x : ℚ) : Prop :=
  (2 : ℚ) ^ (-250 : ℤ) ≤ x ∧ x ≤ 2 ^ (250 : ℤ)

theorem exists_rounds (hnum : 0 < num) (hden : 0 < den) (hx : Moderate (num / den)) :
    ∃ y, binary64.nearest num den = some y ∧ binary64.Rounds (num / den) y := by
  have hlarge : (2 : ℚ) ^ (250 : ℤ) < (2 ^ 53 - 1 / 2) * 2 ^ (971 : ℤ) :=
    calc (2 : ℚ) ^ (250 : ℤ) ≤ 2 ^ (971 : ℤ) := zpow_le_zpow_right₀ one_le_two (by norm_num)
      _ < (2 ^ 53 - 1 / 2) * 2 ^ (971 : ℤ) := lt_mul_of_one_lt_left (two_zpow_pos _) (by norm_num)
  obtain ⟨y, hy⟩ := BinaryFormat.exists_nearest (f := binary64) hnum hden (by decide)
    (hx.2.trans_lt hlarge)
  exact ⟨y, hy, BinaryFormat.rounds_of_nearest hnum hden hy⟩

theorem abs_sub_le_of_rounds (h : binary64.Rounds x y) (hx : Moderate x) :
    |y.value - x| ≤ x / 2 ^ 53 := by
  have hsmall : (2 : ℚ) ^ (53 + -1074 - 1 : ℤ) ≤ 2 ^ (-250 : ℤ) :=
    zpow_le_zpow_right₀ one_le_two (by norm_num)
  exact h.abs_sub_le_mul (hsmall.trans hx.1)

theorem exists_mul (ha : 0 < a.mantissa) (hb : 0 < b.mantissa) (hx : Moderate (a.value * b.value)) :
    ∃ y, a.mul binary64 b = some y ∧ binary64.Rounds (a.value * b.value) y := by
  have hvalue : ((a.ratio.1 * b.ratio.1 : ℕ) : ℚ) / (a.ratio.2 * b.ratio.2 : ℕ) =
      a.value * b.value := by
    push_cast
    rw [mul_div_mul_comm, value_eq_ratio, value_eq_ratio]
  rw [← hvalue] at hx ⊢
  exact exists_rounds (Nat.mul_pos (ratio_fst_pos ha) (ratio_fst_pos hb))
    (Nat.mul_pos a.ratio_pos b.ratio_pos) hx

theorem exists_div (ha : 0 < a.mantissa) (hb : 0 < b.mantissa) (hx : Moderate (a.value / b.value)) :
    ∃ y, a.div binary64 b = some y ∧ binary64.Rounds (a.value / b.value) y := by
  have hvalue : ((a.ratio.1 * b.ratio.2 : ℕ) : ℚ) / (a.ratio.2 * b.ratio.1 : ℕ) =
      a.value / b.value := by
    push_cast
    rw [← value_eq_ratio a, ← value_eq_ratio b, div_div_div_eq]
  rw [← hvalue] at hx ⊢
  exact exists_rounds (Nat.mul_pos (ratio_fst_pos ha) b.ratio_pos)
    (Nat.mul_pos a.ratio_pos (ratio_fst_pos hb)) hx

end Binary

open Binary

namespace Numeral

theorem exists_tenTo (hk : k ≤ 46) : ∃ t, tenTo k = some t ∧ |t.value - 10 ^ k| ≤ 10 ^ k / 2 ^ 53 ∧
    (k ≤ 22 → t.value = 10 ^ k) := by
  have hmoderate : Moderate ((10 ^ k : ℕ) / (1 : ℕ)) := by
    rw [Nat.cast_one, div_one]
    push_cast
    constructor
    · exact le_trans (by norm_num) (one_le_pow₀ (by norm_num : (1 : ℚ) ≤ 10))
    · exact (pow_le_pow_right₀ (by norm_num) hk).trans (by norm_num)
  obtain ⟨t, ht, hrounds⟩ := exists_rounds (Nat.pow_pos (by norm_num)) one_pos hmoderate
  have herror := abs_sub_le_of_rounds hrounds hmoderate
  rw [Nat.cast_one, div_one] at hrounds herror
  push_cast at hrounds herror
  refine ⟨t, ht, herror, fun hsmall => hrounds.value_eq (m := 5 ^ k) (r := k) ?_ ?_ ?_⟩
  · push_cast
    rw [zpow_natCast, ← mul_pow]
    norm_num
  · exact (Nat.pow_le_pow_right (by norm_num) hsmall).trans_lt (by norm_num [binary64])
  · exact le_trans (by decide) (Int.natCast_nonneg k)

theorem magnitude?_eq (hn : n.significand = (value, power)) (hv : value ≠ 0)
    (hpower : power.natAbs ≤ 308) (hs : binary64.nearest value 1 = some s)
    (ht : tenTo power.natAbs = some t) :
    n.magnitude? = if 0 ≤ power then s.mul binary64 t else s.div binary64 t := by
  simp only [magnitude?, hn, hs, ht, hv, hpower, Option.bind_eq_bind, Option.bind_some, if_false,
    if_true]

end Numeral

theorem not_apart_of_rounded {z : ℚ} (hw : 0 < w) (hx : |x - w| ≤ w / (2 ^ 53 - 1))
    (hz : |z - x| ≤ x / 2 ^ 53) : ¬Apart w z := by
  rw [not_apart_iff]
  rw [abs_le] at hx hz
  norm_num at hx hz ⊢
  constructor <;> linarith

theorem Binary.Moderate.of_near (hlow : (2 : ℚ) ^ (-249 : ℤ) ≤ w) (hhigh : w ≤ 2 ^ (249 : ℤ))
    (hx : |x - w| ≤ w / (2 ^ 53 - 1)) : Moderate x := by
  rw [abs_le] at hx
  norm_num at hx hlow hhigh
  constructor
  · norm_num
    linarith
  · norm_num
    linarith

theorem abs_div_sub_le {v t c : ℚ} (hv : 0 < v) (hc : 0 < c) (ht : |t - c| ≤ c / 2 ^ 53) :
    |v / t - v * c⁻¹| ≤ v * c⁻¹ / (2 ^ 53 - 1) := by
  rw [abs_le] at ht
  have htpos : 0 < t := by linarith
  have hq : 0 < v * c⁻¹ := by positivity
  have hqc : v * c⁻¹ * c = v := inv_mul_cancel_right₀ hc.ne' v
  have hlow := mul_le_mul_of_nonneg_left ht.1 hq.le
  have hhigh := mul_le_mul_of_nonneg_left ht.2 hq.le
  rw [abs_le, neg_le_sub_iff_le_add, sub_le_iff_le_add, div_add' _ _ _ htpos.ne', div_le_iff₀ htpos,
    le_div_iff₀ htpos]
  norm_num at hlow hhigh ⊢
  constructor <;> linarith

theorem exists_scaled (hs : 0 < s.value) (ht : |t.value - 10 ^ power.natAbs| ≤
    10 ^ power.natAbs / 2 ^ 53) (hlow : (2 : ℚ) ^ (-249 : ℤ) ≤ s.value * 10 ^ power)
    (hhigh : s.value * 10 ^ power ≤ 2 ^ (249 : ℤ)) :
    ∃ x y, (if 0 ≤ power then s.mul binary64 t else s.div binary64 t) = some y ∧
      binary64.Rounds x y ∧ |x - s.value * 10 ^ power| ≤ s.value * 10 ^ power / (2 ^ 53 - 1) ∧
      (t.value = 10 ^ power.natAbs → x = s.value * 10 ^ power) := by
  have hten : (0 : ℚ) < 10 ^ power.natAbs := by positivity
  have htpos : 0 < t.value := by linarith [(abs_le.1 ht).1]
  have hs' := mantissa_pos_of_value_pos hs
  have ht' := mantissa_pos_of_value_pos htpos
  split
  · next hnonneg =>
    have hpow : (10 : ℚ) ^ power = 10 ^ power.natAbs := by
      rw [← zpow_natCast, Int.natAbs_of_nonneg hnonneg]
    rw [hpow] at hlow hhigh ⊢
    have hnear : |s.value * t.value - s.value * 10 ^ power.natAbs| ≤
        s.value * 10 ^ power.natAbs / (2 ^ 53 - 1) := by
      rw [← mul_sub, abs_mul, abs_of_pos hs, mul_div_assoc]
      refine mul_le_mul_of_nonneg_left (ht.trans ?_) hs.le
      exact div_le_div_of_nonneg_left hten.le (by norm_num) (by norm_num)
    obtain ⟨y, hy, hrounds⟩ := exists_mul hs' ht' (.of_near hlow hhigh hnear)
    exact ⟨_, y, hy, hrounds, hnear, fun hexact => by rw [hexact]⟩
  · next hneg =>
    have hpow : (10 : ℚ) ^ power = (10 ^ power.natAbs)⁻¹ := by
      rw [← zpow_natCast, ← zpow_neg]
      congr 1
      omega
    rw [hpow] at hlow hhigh ⊢
    have hnear : |s.value / t.value - s.value * (10 ^ power.natAbs)⁻¹| ≤
        s.value * (10 ^ power.natAbs)⁻¹ / (2 ^ 53 - 1) := abs_div_sub_le hs hten ht
    obtain ⟨y, hy, hrounds⟩ := exists_div hs' ht' (.of_near hlow hhigh hnear)
    exact ⟨_, y, hy, hrounds, hnear, fun hexact => by rw [hexact, div_eq_mul_inv]⟩

namespace Numeral

/-- What a numeral is read as is near to its value, and is its value if that has no more digits than
double precision and the power of ten is small. -/
theorem exists_magnitude (hn : n.significand = (value, power)) (hv : 0 < value)
    (hv' : value < 2 ^ 53) (hpower : power.natAbs ≤ 46) :
    ∃ y, n.magnitude? = some y ∧ ¬Apart (value * 10 ^ power) y.value ∧
      (power.natAbs ≤ 22 → ∀ (m : ℕ) (r : ℤ), (value : ℚ) * 10 ^ power = m * 2 ^ r → m < 2 ^ 53 →
        -1074 ≤ r → y.value = value * 10 ^ power) := by
  have hv₁ : (1 : ℚ) ≤ value := by exact_mod_cast hv
  have hv₂ : (value : ℚ) ≤ 2 ^ 53 := by exact_mod_cast hv'.le
  have hmoderate : Moderate (value / (1 : ℕ)) := by
    rw [Nat.cast_one, div_one]
    exact ⟨le_trans (by norm_num) hv₁, hv₂.trans (by norm_num)⟩
  obtain ⟨s, hs, hrounds⟩ := exists_rounds hv one_pos hmoderate
  rw [Nat.cast_one, div_one] at hrounds
  have hvalue : s.value = value := hrounds.value_eq (r := 0) (by simp) hv' (by decide)
  obtain ⟨t, ht, herror, hexact⟩ := exists_tenTo hpower
  have hten : (10 : ℚ) ^ (-46 : ℤ) ≤ 10 ^ power ∧ (10 : ℚ) ^ power ≤ 10 ^ (46 : ℤ) :=
    ⟨zpow_le_zpow_right₀ (by norm_num) (by omega), zpow_le_zpow_right₀ (by norm_num) (by omega)⟩
  have hw : 0 < (value : ℚ) * 10 ^ power := by positivity
  have hlow : (2 : ℚ) ^ (-249 : ℤ) ≤ value * 10 ^ power :=
    calc (2 : ℚ) ^ (-249 : ℤ) ≤ 1 * 10 ^ (-46 : ℤ) := by norm_num
      _ ≤ value * 10 ^ power := mul_le_mul hv₁ hten.1 (by positivity) (by positivity)
  have hhigh : (value : ℚ) * 10 ^ power ≤ 2 ^ (249 : ℤ) :=
    calc (value : ℚ) * 10 ^ power ≤ 2 ^ 53 * 10 ^ (46 : ℤ) :=
          mul_le_mul hv₂ hten.2 (by positivity) (by positivity)
      _ ≤ 2 ^ (249 : ℤ) := by norm_num
  rw [← hvalue] at hw hlow hhigh
  obtain ⟨x, y, hy, hyrounds, hnear, hsmall⟩ := exists_scaled (by linarith) herror hlow hhigh
  rw [hvalue] at hw hlow hhigh hnear hsmall
  refine ⟨y, (magnitude?_eq hn hv.ne' (by omega) hs ht).trans hy, ?_, fun hle m r heq hm hr => ?_⟩
  · exact not_apart_of_rounded hw hnear (abs_sub_le_of_rounds hyrounds (.of_near hlow hhigh hnear))
  · rw [← hsmall (hexact hle)] at heq ⊢
    exact hyrounds.value_eq heq hm hr

end Numeral

namespace BinaryFormat

theorem exists_end (hb : binary32.Has b) (hpos : 0 < b.mantissa)
    (hx : x = binary32.lower b ∨ x = binary32.upper b) :
    ∃ (m : ℕ) (r : ℤ), 0 < m ∧ m ≤ 2 ^ 25 + 1 ∧ -1074 ≤ r ∧ x = m * 2 ^ r := by
  have hlt : b.mantissa < 2 ^ 24 := hb.mantissa_lt
  have hlowest : -149 ≤ b.exponent := hb.lowest_le
  have hhalf : (2 : ℚ) ^ (b.exponent - 1) = 2 ^ b.exponent / 2 := by
    rw [zpow_sub₀ two_ne_zero, zpow_one]
  rcases hx with rfl | rfl
  · rw [lower_eq _ hpos]
    split
    · next hpower =>
      have hm : b.mantissa = 2 ^ 23 := hpower.1
      refine ⟨4 * b.mantissa - 1, b.exponent - 2, by omega, by omega, by omega, ?_⟩
      rw [two_zpow_sub_two, Nat.cast_sub (by omega), Binary.value]
      push_cast
      ring
    · refine ⟨2 * b.mantissa - 1, b.exponent - 1, by omega, by omega, by omega, ?_⟩
      rw [hhalf, Nat.cast_sub (by omega), Binary.value]
      push_cast
      ring
  · refine ⟨2 * b.mantissa + 1, b.exponent - 1, by omega, by omega, by omega, ?_⟩
    rw [upper_eq, hhalf, Binary.value]
    push_cast
    ring

theorem exponent_shortest_bounds (hb : binary32.Has b) (hpos : 0 < b.mantissa) :
    -45 ≤ (binary32.shortest b).exponent ∧ (binary32.shortest b).exponent ≤ 38 := by
  have hgrid := le_ten_zpow_shortest (f := binary32) hpos
  have hupper : (binary32.shortest b).value < 2 ^ 24 * 2 ^ b.exponent :=
    (within_shortest hpos).bounds.2.trans_lt (upper_lt hb.mantissa_lt)
  have hdigits : (1 : ℚ) ≤ (binary32.shortest b).digits := by
    exact_mod_cast digits_shortest_pos (f := binary32) hpos
  have hlowest : (2 : ℚ) ^ (-149 : ℤ) ≤ 2 ^ b.exponent :=
    zpow_le_zpow_right₀ one_le_two hb.lowest_le
  have hhighest : (2 : ℚ) ^ b.exponent ≤ 2 ^ (104 : ℤ) :=
    zpow_le_zpow_right₀ one_le_two hb.le_highest
  rw [Decimal.value] at hupper
  have hten := ten_zpow_pos (binary32.shortest b).exponent
  constructor
  · by_contra hlt
    have hmono : (10 : ℚ) ^ (binary32.shortest b).exponent ≤ 10 ^ (-46 : ℤ) :=
      zpow_le_zpow_right₀ (by norm_num) (by omega)
    norm_num at hmono hlowest
    linarith
  · by_contra hlt
    have hmono : (10 : ℚ) ^ (39 : ℤ) ≤ 10 ^ (binary32.shortest b).exponent :=
      zpow_le_zpow_right₀ (by norm_num) (by omega)
    norm_num at hmono hhighest
    nlinarith

theorem digits_shortest_le_of_not_apart {x : ℚ} (hb : binary32.Has b) (hpos : 0 < b.mantissa)
    (hx : x = binary32.lower b ∨ x = binary32.upper b)
    (hnear : ¬Apart (binary32.shortest b).value x) :
    (binary32.shortest b).digits ≤ 2 ^ 24 + 1 := by
  have hd := within_shortest (f := binary32) hpos
  have hupper : binary32.upper b < 2 ^ 24 * 2 ^ b.exponent := upper_lt hb.mantissa_lt
  have hxle : x ≤ binary32.upper b := by
    rcases hx with rfl | rfl
    · exact hd.bounds.1.trans hd.bounds.2
    · exact le_rfl
  obtain ⟨hle, hge⟩ := not_apart_iff.1 hnear
  refine digits_shortest_le hpos hb.mantissa_lt hx ?_
  change _ < 2 ^ b.exponent / (8 * 2 ^ 24)
  rw [abs_lt]
  constructor <;> linarith [hd.bounds.2]

/-- What is near the shortest decimal of a magnitude lies within the interval, if it lies on the
side of the decimal at each end of the interval. -/
theorem within_of_not_apart {z : ℚ} (hb : binary32.Has b) (hpos : 0 < b.mantissa)
    (hz : ¬Apart (binary32.shortest b).value z)
    (hexact : (binary32.shortest b).exponent.natAbs ≤ 22 → ∀ (m : ℕ) (r : ℤ),
      (binary32.shortest b).value = m * 2 ^ r → m < 2 ^ 53 → -1074 ≤ r →
        z = (binary32.shortest b).value)
    (hside : ∀ x, IsCoincidence (binary32.shortest b).digits (binary32.shortest b).exponent x →
      (binary32.shortest b).value < x ∧ z < x) : binary32.Within b z := by
  have hd := within_shortest (f := binary32) hpos
  have hdpos : 0 < (binary32.shortest b).value := (lower_pos _ hpos).trans_le hd.bounds.1
  have hend (x : ℚ) (hx : x = binary32.lower b ∨ x = binary32.upper b) :
      (x < (binary32.shortest b).value ↔ x < z) ∧ ((binary32.shortest b).value < x ↔ z < x) := by
    obtain ⟨m, r, hm, hm', hr, heq⟩ := exists_end hb hpos hx
    have hxpos : 0 < x := by
      rw [heq]
      positivity
    by_cases hapart : Apart (binary32.shortest b).value x
    · exact hapart.lt_iff hz hdpos hxpos
    · have hdigits := digits_shortest_le_of_not_apart hb hpos hx hapart
      obtain ⟨hlow, hhigh⟩ := exponent_shortest_bounds hb hpos
      obtain ⟨hsmall, hsame⟩ | hcoincidence | hfar :=
        eq_or_apart (digits_shortest_pos hpos) hdigits hm hm' hlow hhigh r
      · rw [hexact (by omega) m r hsame (by omega) hr]
        exact ⟨Iff.rfl, Iff.rfl⟩
      · rw [← heq] at hcoincidence
        obtain ⟨hdx, hzx⟩ := hside x hcoincidence
        exact ⟨iff_of_false hdx.not_gt hzx.not_gt, iff_of_true hdx hzx⟩
      · rw [← heq] at hfar
        exact absurd hfar hapart
  exact hd.congr (hend _ (.inl rfl)) (hend _ (.inr rfl))

theorem encode_convert (hb : binary32.Has b) (hpos : 0 < b.mantissa)
    (hy : binary32.Within b y.value) :
    binary32.encode (binary32.convert (some y)) = binary32.encode (some b) := by
  have hypos := mantissa_pos_of_value_pos ((lower_pos _ hpos).trans_le hy.bounds.1)
  rw [← value_eq_ratio] at hy
  exact encode_nearest (by decide) hb hpos (ratio_fst_pos hypos) y.ratio_pos hy

end BinaryFormat

namespace Numeral

open BinaryFormat

theorem magnitude?_of_coincidence (hn : n.significand = (value, power))
    (h : IsCoincidence value power x) (hy : n.magnitude? = some y) :
    (value : ℚ) * 10 ^ power < x ∧ y.value < x := by
  obtain ⟨rfl, ⟨rfl, rfl⟩ | ⟨rfl, rfl⟩⟩ := h
  · have hread : n.magnitude? = some ⟨6131425250115583, -136⟩ := by
      rw [magnitude?, hn]
      decide +kernel
    obtain rfl : ⟨6131425250115583, -136⟩ = y := Option.some.inj (hread.symm.trans hy)
    norm_num [Binary.value]
  · have hread : n.magnitude? = some ⟨6131425250115583, -135⟩ := by
      rw [magnitude?, hn]
      decide +kernel
    obtain rfl : ⟨6131425250115583, -135⟩ = y := Option.some.inj (hread.symm.trans hy)
    norm_num [Binary.value]

theorem within_of_scaled (hb : binary32.Has b) (hpos : 0 < b.mantissa)
    (hn : n.scaled = ((binary32.shortest b).digits, (binary32.shortest b).exponent)) :
    ∃ y, n.magnitude? = some y ∧ binary32.Within b y.value := by
  have hdigits : (binary32.shortest b).digits < 14 * 2 ^ 24 :=
    digits_shortest_lt hpos hb.mantissa_lt
  obtain ⟨hlow, hhigh⟩ := exponent_shortest_bounds hb hpos
  have hread : n.significand = ((binary32.shortest b).digits, (binary32.shortest b).exponent) := by
    rw [significand_eq_scaled (by rw [hn]; exact hdigits.trans (by decide)), hn]
  obtain ⟨y, hy, hnear, hexact⟩ :=
    exists_magnitude hread (digits_shortest_pos hpos) (by omega) (by omega)
  exact ⟨y, hy, within_of_not_apart hb hpos hnear hexact fun x hx =>
    magnitude?_of_coincidence hread hx hy⟩

theorem within_of_scaled_integer {digits : ℕ} (hpos : 0 < b.mantissa)
    (hdigits : (binary32.shortest b).value = digits) (hlt : 10 * digits < 2 ^ 53)
    (hn : n.scaled = (10 * digits, -1)) :
    ∃ y, n.magnitude? = some y ∧ binary32.Within b y.value := by
  have hd := within_shortest (f := binary32) hpos
  have hread : n.significand = (10 * digits, -1) := by
    rw [significand_eq_scaled (by rw [hn]; exact hlt.trans (by decide)), hn]
  have hvalue : ((10 * digits : ℕ) : ℚ) * 10 ^ (-1 : ℤ) = digits := by
    push_cast
    rw [zpow_neg_one]
    ring
  have hdpos : 0 < digits := by
    have hvpos := (lower_pos _ hpos).trans_le hd.bounds.1
    rw [hdigits] at hvpos
    exact_mod_cast hvpos
  obtain ⟨y, hy, -, hexact⟩ := exists_magnitude hread (by omega) hlt (by decide)
  refine ⟨y, hy, ?_⟩
  rw [hexact (by decide) digits 0 (by rw [hvalue]; simp) (by omega) (by decide), hvalue, ← hdigits]
  exact hd

end Numeral

/-- A written number is read as one that is within its interval. -/
theorem NumberStyle.within_write {style : NumberStyle} (hstyle : style.greatest ≤ 13)
    (negative : Bool) (hb : binary32.Has b) (hpos : 0 < b.mantissa) :
    ∃ y, (style.write binary32 negative b).magnitude? = some y ∧ binary32.Within b y.value := by
  rw [write, if_neg hpos.ne']
  rcases style.scaled_layOut negative Nat.toDigits_ne_nil (binary32.shortest b).exponent with
    hn | ⟨hnonneg, hle, hn⟩
  · rw [digitsValue_toDigits] at hn
    exact Numeral.within_of_scaled hb hpos hn
  · rw [digitsValue_toDigits, pow_succ', mul_assoc] at hn
    obtain ⟨k, hk⟩ := Int.eq_ofNat_of_zero_le hnonneg
    have hcount : (binary32.shortest b).exponent.toNat = k := by omega
    rw [hcount] at hn
    refine Numeral.within_of_scaled_integer hpos ?_ ?_ hn
    · rw [Decimal.value, hk, zpow_natCast]
      push_cast
      ring
    · have hlt : (binary32.shortest b).digits <
          10 ^ (Nat.toDigits 10 (binary32.shortest b).digits).length :=
        (Nat.length_toDigits_le_iff (by norm_num) Nat.length_toDigits_pos).1 le_rfl
      calc 10 * (10 ^ k * (binary32.shortest b).digits)
          < 10 * (10 ^ k * 10 ^ (Nat.toDigits 10 (binary32.shortest b).digits).length) := by gcongr
        _ = 10 ^ (k + (Nat.toDigits 10 (binary32.shortest b).digits).length + 1) := by ring
        _ ≤ 10 ^ 15 := Nat.pow_le_pow_right (by norm_num) (by omega)
        _ < 2 ^ 53 := by norm_num

theorem single_congr {c c' : Option Binary} (h : binary32.encode c = binary32.encode c')
    (negative : Bool) : single negative c = single negative c' := by
  rw [single, single, h]

theorem Numeral.single?_of_magnitude? (hinteger : n.isInteger = false)
    (hy : n.magnitude? = some y) :
    n.single? = some (single n.negative (binary32.convert (some y))) := by
  simp [single?, fitsWord, hinteger, hy]

theorem Numeral.single?_zero (negative : Bool) :
    (Numeral.mk negative ['0'] ['0'] none).single? = some (single negative (some ⟨0, -149⟩)) :=
  rfl

namespace NumberStyle

theorem negative_layOut (style : NumberStyle) (negative : Bool) (digits : List Char) (leading : ℤ) :
    (style.layOut negative digits leading).negative = negative := by
  obtain ⟨-, heq⟩ | ⟨-, -, heq⟩ | ⟨-, -, heq⟩ | heq := layOut_cases style negative digits leading
  all_goals rw [heq]

theorem single?_write {style : NumberStyle} (hstyle : style.greatest ≤ 13) (negative : Bool)
    (hb : binary32.Has b) :
    (style.write binary32 negative b).single? = some (single negative (some b)) := by
  rcases Nat.eq_zero_or_pos b.mantissa with hzero | hpos
  · have hexponent : b.exponent = -149 := by
      refine hb.normal.resolve_right fun hle => ?_
      rw [hzero] at hle
      exact absurd hle (by decide)
    rw [write, if_pos hzero, Numeral.single?_zero, ← hzero, ← hexponent]
  · obtain ⟨y, hy, hwithin⟩ := within_write hstyle negative hb hpos
    have hinteger : (style.write binary32 negative b).isInteger = false := by
      rw [write, if_neg hpos.ne']
      exact isInteger_layOut _ _ _ Nat.toDigits_ne_nil
    have hnegative : (style.write binary32 negative b).negative = negative := by
      rw [write, if_neg hpos.ne']
      exact negative_layOut _ _ _ _
    rw [Numeral.single?_of_magnitude? hinteger hy, hnegative]
    exact congrArg some (single_congr (BinaryFormat.encode_convert hb hpos hwithin) negative)

theorem spelled_write (style : NumberStyle) (negative : Bool) (b : Binary) :
    (style.write binary32 negative b).Spelled := by
  rw [write]
  split
  · exact ⟨by simp, by simp, by simp, fun _ => rfl⟩
  · next hne =>
    exact spelled_layOut _ _ _ Nat.toDigits_ne_nil
      (fun c => Nat.isDigit_of_mem_toDigits (by norm_num) le_rfl)
      (head?_toDigits (BinaryFormat.digits_shortest_pos (Nat.pos_of_ne_zero hne)))

end NumberStyle

theorem singleNumeral?_eq_none_iff {x : Float32} :
    singleNumeral? x = none ↔ x.isFinite = false := by
  rw [singleNumeral?, Option.map_eq_none_iff, signedMagnitude?_eq_none_iff]

/-- Every finite single-precision value is read back from the numeral that it is written as. -/
theorem single?_of_singleNumeral? {x : Float32} (h : singleNumeral? x = some n) :
    n.Spelled ∧ n.single? = some x := by
  obtain ⟨⟨negative, b⟩, hmagnitude, heq⟩ := Option.map_eq_some_iff.1 h
  obtain ⟨hx, hb⟩ := single_of_signedMagnitude? hmagnitude
  rw [← heq]
  refine ⟨NumberStyle.spelled_write _ _ _, ?_⟩
  rw [NumberStyle.single?_write (by decide) negative hb, hx]

end SqlWalk
