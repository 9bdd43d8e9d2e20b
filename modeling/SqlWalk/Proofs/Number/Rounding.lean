import Mathlib
import SqlWalk.Number.Binary

namespace SqlWalk

variable {f : BinaryFormat} {b : Binary} {x : ℚ} {m num den : ℕ} {r : ℤ}

theorem two_zpow_pos (e : ℤ) : (0 : ℚ) < 2 ^ e :=
  zpow_pos two_pos e

theorem zpow_eq_div_toNat (hx : x ≠ 0) (e : ℤ) : x ^ e = x ^ e.toNat / x ^ (-e).toNat := by
  rw [← zpow_natCast, ← zpow_natCast, ← zpow_sub₀ hx]
  congr 1
  omega

theorem two_zpow_eq_div (e : ℤ) : (2 : ℚ) ^ e = 2 ^ e.toNat / 2 ^ (-e).toNat :=
  zpow_eq_div_toNat two_ne_zero e

theorem ten_zpow_eq_div (e : ℤ) : (10 : ℚ) ^ e = 10 ^ e.toNat / 10 ^ (-e).toNat :=
  zpow_eq_div_toNat (by norm_num) e

namespace Binary

def value (b : Binary) : ℚ :=
  b.mantissa * 2 ^ b.exponent

theorem ratio_pos (b : Binary) : 0 < b.ratio.2 :=
  Nat.pow_pos two_pos

theorem ratio_fst_pos (h : 0 < b.mantissa) : 0 < b.ratio.1 :=
  Nat.mul_pos h (Nat.pow_pos two_pos)

theorem value_eq_ratio (b : Binary) : (b.ratio.1 : ℚ) / b.ratio.2 = b.value := by
  simp only [ratio, value, Nat.pow_eq, two_zpow_eq_div b.exponent]
  push_cast
  ring

end Binary

/-- The integer nearest to a number, and the even one of two. -/
structure IsNearest (x : ℚ) (m : ℕ) : Prop where
  le : x ≤ m + 1 / 2
  ge : m - 1 / 2 ≤ x
  even : x = m + 1 / 2 ∨ x = m - 1 / 2 → m % 2 = 0

theorem roundHalfEven_bounds (num : ℕ) (hden : 0 < den) :
    let m := roundHalfEven num den
    2 * num ≤ 2 * (den * m) + den ∧ 2 * (den * m) ≤ 2 * num + den ∧
      (2 * num = 2 * (den * m) + den ∨ 2 * (den * m) = 2 * num + den → m % 2 = 0) := by
  intro m
  have hsplit := Nat.div_add_mod num den
  have hlt := Nat.mod_lt num hden
  have hm : m = roundHalfEven num den := rfl
  simp only [roundHalfEven, Bool.or_eq_true, decide_eq_true_eq, Bool.and_eq_true,
    beq_iff_eq] at hm
  split at hm
  · rw [hm]
    omega
  · rw [hm, Nat.mul_succ]
    omega

theorem isNearest_roundHalfEven (num : ℕ) (hden : 0 < den) :
    IsNearest (num / den) (roundHalfEven num den) := by
  have hd : (0 : ℚ) < den := by exact_mod_cast hden
  obtain ⟨hle, hge, heven⟩ := roundHalfEven_bounds num hden
  generalize roundHalfEven num den = m at *
  have hx : (num : ℚ) / den * den = num := div_mul_cancel₀ _ hd.ne'
  have hle' : 2 * (num : ℚ) ≤ 2 * (den * m) + den := by exact_mod_cast hle
  have hge' : 2 * ((den : ℚ) * m) ≤ 2 * num + den := by exact_mod_cast hge
  constructor
  · rw [div_le_iff₀ hd]
    linarith
  · rw [le_div_iff₀ hd]
    linarith
  · rintro (h | h)
    · rw [h] at hx
      exact heven (.inl (by exact_mod_cast (by linarith : 2 * (num : ℚ) = 2 * (den * m) + den)))
    · rw [h] at hx
      exact heven (.inr (by exact_mod_cast (by linarith : 2 * ((den : ℚ) * m) = 2 * num + den)))

theorem IsNearest.eq_of_lt {k : ℕ} (h : IsNearest x m) (hlo : (k : ℚ) - 1 / 2 < x)
    (hhi : x < k + 1 / 2) : m = k := by
  have h₁ : (m : ℚ) < k + 1 := by linarith [h.ge]
  have h₂ : (k : ℚ) < m + 1 := by linarith [h.le]
  have h₁' : m < k + 1 := by exact_mod_cast h₁
  have h₂' : k < m + 1 := by exact_mod_cast h₂
  omega

theorem IsNearest.eq_of_natCast {k : ℕ} (h : IsNearest (k : ℚ) m) : m = k :=
  h.eq_of_lt (by linarith) (by linarith)

theorem IsNearest.eq_of_even {k : ℕ} (h : IsNearest x m) (hk : k % 2 = 0)
    (hlo : (k : ℚ) - 1 / 2 ≤ x) (hhi : x ≤ k + 1 / 2) : m = k := by
  have h₁ : (m : ℚ) ≤ k + 1 := by linarith [h.ge]
  have h₂ : (k : ℚ) ≤ m + 1 := by linarith [h.le]
  have h₁' : m ≤ k + 1 := by exact_mod_cast h₁
  have h₂' : k ≤ m + 1 := by exact_mod_cast h₂
  by_contra hne
  have hodd : m % 2 = 1 := by omega
  have hcases : m = k + 1 ∨ k = m + 1 := by omega
  have heven : m % 2 = 0 := by
    apply h.even
    rcases hcases with rfl | rfl
    · have hge := h.ge
      push_cast at hge ⊢
      exact .inr (by linarith)
    · have hle := h.le
      push_cast at hhi hlo
      exact .inl (by linarith)
  omega

/-- The magnitude that a number is rounded to in a format, if it does not overflow. -/
structure BinaryFormat.Rounds (f : BinaryFormat) (x : ℚ) (b : Binary) : Prop where
  lowest_le : f.lowest ≤ b.exponent
  lt : x < 2 ^ (f.precision + b.exponent)
  le : b.exponent = f.lowest ∨ 2 ^ (f.precision + b.exponent - 1) ≤ x
  nearest : IsNearest (x / 2 ^ b.exponent) b.mantissa

theorem inUnits_pos (num : ℕ) (hden : 0 < den) (e : ℤ) : 0 < (inUnits num den e).2 :=
  Nat.mul_pos hden (Nat.pow_pos two_pos)

theorem div_inUnits (e : ℤ) :
    ((inUnits num den e).1 : ℚ) / (inUnits num den e).2 = num / den / 2 ^ e := by
  simp only [inUnits, Nat.pow_eq]
  rw [two_zpow_eq_div e]
  push_cast
  rw [div_div_eq_mul_div, mul_div_mul_comm, mul_div_assoc]

theorem isNearest_inUnits (num : ℕ) (hden : 0 < den) (e : ℤ) : IsNearest (num / den / 2 ^ e)
    (roundHalfEven (inUnits num den e).1 (inUnits num den e).2) := by
  rw [← div_inUnits]
  exact isNearest_roundHalfEven _ (inUnits_pos num hden e)

theorem log2_bounds (h : 0 < m) : (2 : ℚ) ^ (m.log2 : ℤ) ≤ m ∧ (m : ℚ) < 2 ^ (m.log2 + 1 : ℤ) := by
  have hle : 2 ^ m.log2 ≤ m := Nat.log2_self_le h.ne'
  have hlt : m < 2 ^ (m.log2 + 1) := Nat.lt_log2_self
  constructor
  · rw [zpow_natCast]
    exact_mod_cast hle
  · rw [← Nat.cast_succ, zpow_natCast]
    exact_mod_cast hlt

theorem div_log2_bounds (hnum : 0 < num) (hden : 0 < den) :
    (2 : ℚ) ^ ((num.log2 : ℤ) - den.log2 - 1) < num / den ∧
      (num : ℚ) / den < 2 ^ ((num.log2 : ℤ) - den.log2 + 1) := by
  have hd : (0 : ℚ) < den := by exact_mod_cast hden
  obtain ⟨hn₁, hn₂⟩ := log2_bounds hnum
  obtain ⟨hd₁, hd₂⟩ := log2_bounds hden
  constructor
  · rw [lt_div_iff₀ hd]
    calc (2 : ℚ) ^ ((num.log2 : ℤ) - den.log2 - 1) * den
        < 2 ^ ((num.log2 : ℤ) - den.log2 - 1) * 2 ^ (den.log2 + 1 : ℤ) :=
          mul_lt_mul_of_pos_left hd₂ (two_zpow_pos _)
      _ = 2 ^ (num.log2 : ℤ) := by
          rw [← zpow_add₀ two_ne_zero]
          congr 1
          ring
      _ ≤ num := hn₁
  · rw [div_lt_iff₀ hd]
    calc (num : ℚ) < 2 ^ (num.log2 + 1 : ℤ) := hn₂
      _ = 2 ^ ((num.log2 : ℤ) - den.log2 + 1) * 2 ^ (den.log2 : ℤ) := by
          rw [← zpow_add₀ two_ne_zero]
          congr 1
          ring
      _ ≤ 2 ^ ((num.log2 : ℤ) - den.log2 + 1) * den :=
          mul_le_mul_of_nonneg_left hd₁ (two_zpow_pos _).le

theorem unitOf_spec (hnum : 0 < num) (hden : 0 < den) :
    f.lowest ≤ f.unitOf num den ∧ (num : ℚ) / den < 2 ^ (f.precision + f.unitOf num den) ∧
      (f.unitOf num den = f.lowest ∨
        2 ^ (f.precision + f.unitOf num den - 1) ≤ (num : ℚ) / den) := by
  obtain ⟨hlo, hhi⟩ := div_log2_bounds hnum hden
  let e₀ : ℤ := (num.log2 : ℤ) - den.log2 - f.precision
  let u := inUnits num den e₀
  have hu : (0 : ℚ) < u.2 := by exact_mod_cast inUnits_pos num hden e₀
  have hunit : f.unitOf num den =
      max f.lowest (if u.1 / u.2 < 2 ^ f.precision then e₀ else e₀ + 1) := rfl
  -- Whether the quotient is below the next power of two is seen from its integer part.
  have htest : u.1 / u.2 < 2 ^ f.precision ↔ (num : ℚ) / den < 2 ^ (f.precision + e₀) := by
    rw [Nat.div_lt_iff_lt_mul (inUnits_pos num hden e₀), zpow_add₀ two_ne_zero,
      ← div_lt_iff₀ (two_zpow_pos e₀), ← div_inUnits, div_lt_iff₀ hu, zpow_natCast]
    exact_mod_cast Iff.rfl
  have hcases : ∃ e₁, f.unitOf num den = max f.lowest e₁ ∧
      (num : ℚ) / den < 2 ^ (f.precision + e₁) ∧ 2 ^ (f.precision + e₁ - 1) ≤ (num : ℚ) / den := by
    by_cases h : u.1 / u.2 < 2 ^ f.precision
    · refine ⟨e₀, by rw [hunit, if_pos h], htest.1 h, ?_⟩
      refine le_trans (le_of_eq ?_) hlo.le
      congr 1
      simp only [e₀]
      ring
    · refine ⟨e₀ + 1, by rw [hunit, if_neg h], lt_of_lt_of_eq hhi ?_, ?_⟩
      · congr 1
        simp only [e₀]
        ring
      · rw [add_sub_assoc, add_sub_cancel_right]
        exact not_lt.1 (mt htest.2 h)
  obtain ⟨e₁, heq, hlt, hle⟩ := hcases
  rw [heq]
  rcases le_total f.lowest e₁ with h | h
  · rw [max_eq_right h]
    exact ⟨h, hlt, .inr hle⟩
  · rw [max_eq_left h]
    refine ⟨le_rfl, lt_of_lt_of_le hlt ?_, .inl rfl⟩
    exact zpow_le_zpow_right₀ one_le_two (by linarith)

namespace BinaryFormat

theorem rounds_of_nearest (hnum : 0 < num) (hden : 0 < den) (h : f.nearest num den = some b) :
    f.Rounds (num / den) b := by
  rw [nearest, if_neg hnum.ne'] at h
  simp only at h
  split at h
  · cases h
  · obtain ⟨hlowest, hlt, hle⟩ := unitOf_spec (f := f) hnum hden
    cases h
    exact ⟨hlowest, hlt, hle, isNearest_inUnits num hden _⟩

/-- A number less than half a unit beyond the greatest magnitude does not overflow. -/
theorem exists_nearest (hnum : 0 < num) (hden : 0 < den) (hf : f.lowest ≤ f.highest)
    (hx : (num : ℚ) / den < (2 ^ f.precision - 1 / 2) * 2 ^ f.highest) :
    ∃ b, f.nearest num den = some b := by
  obtain ⟨hlowest, hlt, hle⟩ := unitOf_spec (f := f) hnum hden
  have hn := isNearest_inUnits num hden (f.unitOf num den)
  rw [nearest, if_neg hnum.ne']
  simp only
  split
  · next hover =>
    simp only [Bool.or_eq_true, decide_eq_true_eq, Bool.and_eq_true, beq_iff_eq] at hover
    exfalso
    rcases hover with hover | ⟨heq, hm⟩
    · have hge : (2 : ℚ) ^ (f.precision + f.unitOf num den - 1) ≤ num / den := by
        rcases hle with heq | hle
        · omega
        · exact hle
      have hmono : (2 : ℚ) ^ (f.precision + f.highest) ≤
          2 ^ (f.precision + f.unitOf num den - 1) :=
        zpow_le_zpow_right₀ one_le_two (by omega)
      rw [zpow_add₀ two_ne_zero, zpow_natCast] at hmono
      linarith [two_zpow_pos f.highest]
    · rw [heq] at hn hm
      have hm' : (2 : ℚ) ^ f.precision ≤ roundHalfEven (inUnits num den f.highest).1
          (inUnits num den f.highest).2 := by exact_mod_cast hm
      have hge := hn.ge
      rw [le_div_iff₀ (two_zpow_pos _)] at hge
      nlinarith [two_zpow_pos f.highest]
  · exact ⟨_, rfl⟩

end BinaryFormat

namespace BinaryFormat.Rounds

theorem value_eq (h : f.Rounds x b) (hx : x = m * 2 ^ r) (hm : m < 2 ^ f.precision)
    (hr : f.lowest ≤ r) : b.value = x := by
  have hle : b.exponent ≤ r := by
    rcases h.le with heq | hle
    · omega
    · by_contra hlt
      have hm' : (m : ℚ) < 2 ^ (f.precision : ℤ) := by
        rw [zpow_natCast]
        exact_mod_cast hm
      have hlt' : x < 2 ^ (f.precision + r) := by
        rw [hx, zpow_add₀ two_ne_zero]
        exact mul_lt_mul_of_pos_right hm' (two_zpow_pos r)
      have hmono : (2 : ℚ) ^ (f.precision + r) ≤ 2 ^ (f.precision + b.exponent - 1) :=
        zpow_le_zpow_right₀ one_le_two (by omega)
      linarith
  have hk : x / 2 ^ b.exponent = (m * 2 ^ (r - b.exponent).toNat : ℕ) := by
    push_cast
    rw [hx, mul_div_assoc, ← zpow_sub₀ two_ne_zero, ← zpow_natCast, Int.toNat_of_nonneg (by omega)]
  have hb := h.nearest
  rw [hk] at hb
  rw [Binary.value, hb.eq_of_natCast, ← hk, div_mul_cancel₀ _ (two_zpow_pos _).ne']

theorem abs_sub_le_half (h : f.Rounds x b) : |b.value - x| ≤ 2 ^ b.exponent / 2 := by
  have hu := two_zpow_pos b.exponent
  have hle := h.nearest.le
  have hge := h.nearest.ge
  rw [div_le_iff₀ hu] at hle
  rw [le_div_iff₀ hu] at hge
  rw [Binary.value, abs_le]
  constructor <;> linarith

theorem abs_sub_le_mul (h : f.Rounds x b) (hx : 2 ^ (f.precision + f.lowest - 1) ≤ x) :
    |b.value - x| ≤ x / 2 ^ f.precision := by
  have hle : 2 ^ (f.precision + b.exponent - 1) ≤ x := by
    rcases h.le with heq | hle
    · rwa [heq]
    · exact hle
  have hp : (0 : ℚ) < 2 ^ f.precision := by positivity
  refine h.abs_sub_le_half.trans ?_
  rw [le_div_iff₀ hp]
  refine le_trans (le_of_eq ?_) hle
  rw [zpow_sub₀ two_ne_zero, zpow_add₀ two_ne_zero, zpow_natCast, zpow_one]
  ring

end BinaryFormat.Rounds

end SqlWalk
