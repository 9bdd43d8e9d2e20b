import SqlWalk.Number.Shortest
import SqlWalk.Proofs.Number.Rounding

namespace SqlWalk

variable {f : BinaryFormat} {b c : Binary} {x y : ℚ} {num den : ℕ}

namespace BinaryFormat

/-- Says that a format has a magnitude, with no other unit than that in its last place. -/
structure Has (f : BinaryFormat) (b : Binary) : Prop where
  mantissa_lt : b.mantissa < 2 ^ f.precision
  lowest_le : f.lowest ≤ b.exponent
  le_highest : b.exponent ≤ f.highest
  normal : b.exponent = f.lowest ∨ 2 ^ (f.precision - 1) ≤ b.mantissa

/-- The ends of the interval of a magnitude. -/
def lower (f : BinaryFormat) (b : Binary) : ℚ :=
  (f.interval b).1 * 2 ^ (b.exponent - 2)

def upper (f : BinaryFormat) (b : Binary) : ℚ :=
  (f.interval b).2 * 2 ^ (b.exponent - 2)

/-- The numbers that are rounded to a magnitude. The ends are among them if its mantissa is even. -/
def Within (f : BinaryFormat) (b : Binary) (x : ℚ) : Prop :=
  if b.mantissa % 2 = 0 then f.lower b ≤ x ∧ x ≤ f.upper b else f.lower b < x ∧ x < f.upper b

theorem two_zpow_sub_two (e : ℤ) : (2 : ℚ) ^ (e - 2) = 2 ^ e / 4 := by
  rw [zpow_sub₀ two_ne_zero]
  norm_num

theorem upper_eq (f : BinaryFormat) (b : Binary) : f.upper b = b.value + 2 ^ b.exponent / 2 := by
  rw [upper, interval, two_zpow_sub_two, Binary.value]
  push_cast
  ring

/-- Below a power of two that is not the lowest the interval is half as long as elsewhere. -/
theorem lower_eq (f : BinaryFormat) (hb : 0 < b.mantissa) : f.lower b = b.value -
    if b.mantissa = 2 ^ (f.precision - 1) ∧ f.lowest < b.exponent then 2 ^ b.exponent / 4
    else 2 ^ b.exponent / 2 := by
  have hcond : (b.mantissa = Nat.pow 2 (f.precision - 1) && f.lowest < b.exponent) = true ↔
      b.mantissa = 2 ^ (f.precision - 1) ∧ f.lowest < b.exponent := by
    simp
  rw [lower, interval, two_zpow_sub_two, Binary.value]
  simp only [hcond]
  split
  · rw [Nat.cast_sub (by omega)]
    push_cast
    ring
  · rw [Nat.cast_sub (by omega)]
    push_cast
    ring

theorem lower_bounds (f : BinaryFormat) (hb : 0 < b.mantissa) :
    b.value - 2 ^ b.exponent / 2 ≤ f.lower b ∧ f.lower b ≤ b.value - 2 ^ b.exponent / 4 := by
  have hu := two_zpow_pos b.exponent
  rw [lower_eq f hb]
  split <;> constructor <;> linarith

theorem Within.bounds (h : f.Within b x) : f.lower b ≤ x ∧ x ≤ f.upper b := by
  rw [Within] at h
  split at h
  · exact h
  · exact ⟨h.1.le, h.2.le⟩

theorem Within.of_lt (hlo : f.lower b < x) (hhi : x < f.upper b) : f.Within b x := by
  rw [Within]
  split
  · exact ⟨hlo.le, hhi.le⟩
  · exact ⟨hlo, hhi⟩

theorem Within.congr (hlo : (f.lower b < x ↔ f.lower b < y) ∧ (x < f.lower b ↔ y < f.lower b))
    (hhi : (f.upper b < x ↔ f.upper b < y) ∧ (x < f.upper b ↔ y < f.upper b))
    (h : f.Within b x) : f.Within b y := by
  rw [Within] at h ⊢
  split
  · next heven =>
    rw [if_pos heven, ← not_lt, ← not_lt, hlo.2, hhi.1, not_lt, not_lt] at h
    exact h
  · next hodd =>
    rw [if_neg hodd, hlo.1, hhi.2] at h
    exact h

theorem Rounds.mantissa_eq (h : f.Rounds x c) (hpos : 0 < b.mantissa) (hx : f.Within b x)
    (he : c.exponent = b.exponent) : c.mantissa = b.mantissa := by
  have hu := two_zpow_pos b.exponent
  have hlo := (lower_bounds f hpos).1
  have hhi := upper_eq f b
  have hn := h.nearest
  rw [he] at hn
  rw [Binary.value] at hlo hhi
  rw [Within] at hx
  split at hx
  · next heven =>
    apply hn.eq_of_even heven
    · rw [le_div_iff₀ hu]
      linarith
    · rw [div_le_iff₀ hu]
      linarith
  · apply hn.eq_of_lt
    · rw [lt_div_iff₀ hu]
      linarith
    · rw [div_lt_iff₀ hu]
      linarith

theorem Rounds.exponent_le (h : f.Rounds x c) (hb : f.Has b) (hx : f.Within b x) :
    c.exponent ≤ b.exponent := by
  by_contra hlt
  have hu := two_zpow_pos b.exponent
  have hle : (2 : ℚ) ^ (f.precision + b.exponent) ≤ x := by
    rcases h.le with heq | hle
    · have := hb.lowest_le
      omega
    · refine le_trans (zpow_le_zpow_right₀ one_le_two ?_) hle
      omega
  have hm : (b.mantissa : ℚ) + 1 ≤ 2 ^ f.precision := by exact_mod_cast hb.mantissa_lt
  have hhi := hx.bounds.2
  rw [upper_eq, Binary.value] at hhi
  rw [zpow_add₀ two_ne_zero, zpow_natCast] at hle
  nlinarith

theorem two_pow_precision (hp : 0 < f.precision) :
    (2 : ℚ) ^ f.precision = 2 * 2 ^ (f.precision - 1) := by
  rw [← pow_succ', Nat.sub_add_cancel hp]

theorem Rounds.lt_of_le_sub (h : f.Rounds x c) {e k : ℤ} (hk : c.exponent ≤ e - k) :
    x < 2 ^ f.precision * (2 ^ e / 2 ^ k) := by
  have hxlt : x < 2 ^ f.precision * 2 ^ c.exponent := by
    rw [← zpow_natCast, ← zpow_add₀ two_ne_zero]
    exact h.lt
  rw [← zpow_sub₀ two_ne_zero]
  have hmono : (2 : ℚ) ^ c.exponent ≤ 2 ^ (e - k) := zpow_le_zpow_right₀ one_le_two hk
  exact hxlt.trans_le (mul_le_mul_of_nonneg_left hmono (by positivity))

/-- A finer unit is to be taken at a power of two only. -/
theorem Rounds.mantissa_of_exponent_lt (h : f.Rounds x c) (hp : 0 < f.precision) (hb : f.Has b)
    (hpos : 0 < b.mantissa) (hx : f.Within b x) (hlt : c.exponent < b.exponent) :
    b.mantissa = 2 ^ (f.precision - 1) := by
  have hlowest : f.lowest < b.exponent := h.lowest_le.trans_lt hlt
  have hge : 2 ^ (f.precision - 1) ≤ b.mantissa := hb.normal.resolve_left hlowest.ne'
  by_contra hne
  have hm : (2 : ℚ) ^ (f.precision - 1) + 1 ≤ b.mantissa := by
    exact_mod_cast lt_of_le_of_ne hge (Ne.symm hne)
  have hone : (1 : ℚ) ≤ 2 ^ (f.precision - 1) := one_le_pow₀ one_le_two
  have hxlt := h.lt_of_le_sub (e := b.exponent) (k := 1) (by omega)
  have hlo := (lower_bounds f hpos).1.trans hx.bounds.1
  have hu := two_zpow_pos b.exponent
  rw [Binary.value] at hlo
  rw [two_pow_precision hp, zpow_one] at hxlt
  nlinarith

theorem Rounds.of_exponent_lt (h : f.Rounds x c) (hp : 0 < f.precision) (hb : f.Has b)
    (hpos : 0 < b.mantissa) (hx : f.Within b x) (hlt : c.exponent < b.exponent) :
    b.mantissa = 2 ^ (f.precision - 1) ∧ c.exponent = b.exponent - 1 ∧
      c.mantissa = 2 ^ f.precision := by
  have hm := h.mantissa_of_exponent_lt hp hb hpos hx hlt
  have hu := two_zpow_pos b.exponent
  have hhalf := two_pow_precision hp
  have hone : (1 : ℚ) ≤ 2 ^ (f.precision - 1) := one_le_pow₀ one_le_two
  have hlo : (2 ^ (f.precision - 1) - 1 / 4) * 2 ^ b.exponent ≤ x := by
    refine le_trans (le_of_eq ?_) hx.bounds.1
    rw [lower_eq f hpos, if_pos ⟨hm, h.lowest_le.trans_lt hlt⟩, Binary.value, hm]
    push_cast
    ring
  have he : c.exponent = b.exponent - 1 := by
    by_contra hne
    have hxlt := h.lt_of_le_sub (e := b.exponent) (k := 2) (by omega)
    rw [hhalf] at hxlt
    norm_num at hxlt
    nlinarith
  have hu' : (2 : ℚ) ^ c.exponent = 2 ^ b.exponent / 2 := by
    rw [he, zpow_sub₀ two_ne_zero, zpow_one]
  have hxlt := h.lt_of_le_sub (e := b.exponent) (k := 1) (by omega)
  rw [zpow_one, ← hu'] at hxlt
  refine ⟨hm, he, h.nearest.eq_of_even ?_ ?_ ?_⟩
  · obtain ⟨k, hk⟩ := Nat.exists_eq_succ_of_ne_zero hp.ne'
    rw [hk, pow_succ]
    exact Nat.mul_mod_left _ _
  · rw [le_div_iff₀ (two_zpow_pos _), hu']
    push_cast
    rw [hhalf]
    nlinarith
  · rw [div_le_iff₀ (two_zpow_pos _)]
    push_cast
    linarith [two_zpow_pos c.exponent]

theorem Rounds.encode_eq (h : f.Rounds x c) (hp : 0 < f.precision) (hb : f.Has b)
    (hpos : 0 < b.mantissa) (hx : f.Within b x) : f.encode (some c) = f.encode (some b) := by
  rcases (h.exponent_le hb hx).lt_or_eq with hlt | heq
  · obtain ⟨hm, he, hc⟩ := h.of_exponent_lt hp hb hpos hx hlt
    have hn : (b.exponent - f.lowest).toNat = (c.exponent - f.lowest).toNat + 1 := by
      have := h.lowest_le
      omega
    have hhalf : 2 ^ f.precision = 2 * 2 ^ (f.precision - 1) := by
      rw [← pow_succ', Nat.sub_add_cancel hp]
    simp only [encode, Nat.pow_eq]
    rw [hn, hm, hc, hhalf]
    ring
  · have hm := h.mantissa_eq hpos hx heq
    simp only [encode, heq, hm]

theorem Within.lt_overflow (hp : 0 < f.precision) (hb : f.Has b) (hx : f.Within b x) :
    x < (2 ^ f.precision - 1 / 2) * 2 ^ f.highest := by
  have hmono : (2 : ℚ) ^ b.exponent ≤ 2 ^ f.highest :=
    zpow_le_zpow_right₀ one_le_two hb.le_highest
  have hm : (b.mantissa : ℚ) + 1 ≤ 2 ^ f.precision := by exact_mod_cast hb.mantissa_lt
  have hone : (1 : ℚ) ≤ 2 ^ f.precision := one_le_pow₀ one_le_two
  have hhi := upper_eq f b
  rw [Binary.value] at hhi
  suffices h : x < (2 ^ f.precision - 1 / 2) * 2 ^ b.exponent from
    h.trans_le (mul_le_mul_of_nonneg_left hmono (by linarith))
  rw [Within] at hx
  split at hx
  · next heven =>
    -- The greatest mantissa is odd, so an even one is less.
    have hm' : (b.mantissa : ℚ) + 2 ≤ 2 ^ f.precision := by
      obtain ⟨k, hk⟩ := Nat.exists_eq_succ_of_ne_zero hp.ne'
      have hlt := hb.mantissa_lt
      have hpow : 2 ^ f.precision = 2 * 2 ^ k := by rw [hk, pow_succ']
      have hle : b.mantissa + 2 ≤ 2 ^ f.precision := by omega
      exact_mod_cast hle
    nlinarith [two_zpow_pos b.exponent]
  · nlinarith [two_zpow_pos b.exponent]

/-- What lies within the interval of a magnitude is rounded to it. -/
theorem encode_nearest (hp : 0 < f.precision) (hb : f.Has b) (hpos : 0 < b.mantissa)
    (hnum : 0 < num) (hden : 0 < den) (hx : f.Within b (num / den)) :
    f.encode (f.nearest num den) = f.encode (some b) := by
  obtain ⟨c, hc⟩ := exists_nearest hnum hden (hb.lowest_le.trans hb.le_highest)
    (hx.lt_overflow hp hb)
  rw [hc]
  exact (rounds_of_nearest hnum hden hc).encode_eq hp hb hpos hx

end BinaryFormat
end SqlWalk
