import Mathlib.Tactic.Common
import Mathlib.Algebra.Order.Group.Nat
import Mathlib.Data.Nat.Digits.Defs
import SqlWalk.Number.Style
import SqlWalk.Json.Number

namespace SqlWalk

variable {n : Numeral} {style : NumberStyle} {negative : Bool} {digits : List Char} {value : ℕ}
  {k : ℤ}

theorem digitsValue_eq (value : ℕ) (digits : List Char) :
    digitsValue value digits = Nat.ofDigitChars 10 digits value :=
  rfl

theorem digitsValue_toDigits (m : ℕ) : digitsValue 0 (Nat.toDigits 10 m) = m :=
  Nat.ofDigitChars_ten_toDigits

theorem le_digitsValue (value : ℕ) (digits : List Char) : value ≤ digitsValue value digits := by
  rw [digitsValue_eq, Nat.ofDigitChars_eq_ofDigitChars_zero]
  exact Nat.le_add_right_of_le (Nat.le_mul_of_pos_left _ (Nat.pow_pos (by norm_num)))

theorem head?_toDigits {m : ℕ} (hm : 0 < m) : (Nat.toDigits 10 m).head? ≠ some '0' := by
  induction m using Nat.strongRecOn with
  | ind m ih =>
    rw [Nat.toDigits_eq_if (by norm_num)]
    split
    · simpa using hm.ne'
    · next hlarge =>
      have hdiv : 0 < m / 10 := Nat.div_pos (not_lt.1 hlarge) (by norm_num)
      have hne : Nat.toDigits 10 (m / 10) ≠ [] := Nat.toDigits_ne_nil
      rw [List.head?_append, Option.or_of_isSome (List.isSome_head?.2 hne)]
      exact ih _ (Nat.div_lt_self hm (by norm_num)) hdiv

theorem fitDigits_eq (h : digitsValue value digits < UInt64.size) :
    fitDigits value digits = (digitsValue value digits, 0) := by
  induction digits generalizing value with
  | nil => rfl
  | cons c digits ih =>
    have hnext : 10 * value + digitValue c < UInt64.size := (le_digitsValue _ _).trans_lt h
    rw [fitDigits, if_pos hnext]
    exact ih h

namespace Numeral

theorem significand_eq_scaled (h : n.scaled.1 < UInt64.size) : n.significand = n.scaled := by
  have happend : digitsValue 0 (n.whole ++ n.fraction) =
      digitsValue (digitsValue 0 n.whole) n.fraction := List.foldl_append
  rw [scaled, happend] at h
  have hwhole := fitDigits_eq ((le_digitsValue _ _).trans_lt h)
  have hfraction := fitDigits_eq h
  simp only [significand, scaled, hwhole, hfraction, happend]
  congr 1
  omega

/-- Spelled as in JSON: with digits before the point, and no zero in front of others. -/
structure Spelled (n : Numeral) : Prop where
  whole_ne_nil : n.whole ≠ []
  isDigit_whole : ∀ c ∈ n.whole, c.isDigit = true
  isDigit_fraction : ∀ c ∈ n.fraction, c.isDigit = true
  zero : n.whole.head? = some '0' → n.whole = ['0']

theorem spelled_ofNat (m : ℕ) : (ofNat m).Spelled where
  whole_ne_nil := Nat.toDigits_ne_nil
  isDigit_whole c := Nat.isDigit_of_mem_toDigits (by norm_num) le_rfl
  isDigit_fraction := nofun
  zero h := by
    rcases Nat.eq_zero_or_pos m with rfl | hm
    · rfl
    · exact absurd h (head?_toDigits hm)

theorem word?_ofNat {m : ℕ} (h : m < UInt64.size) : (ofNat m).word? = some m := by
  simp [word?, natural?, isInteger, ofNat, digitsValue_toDigits, h]

end Numeral

namespace NumberStyle

/-- The digits stand behind the point, before it, on both sides of it, or by an exponent. -/
theorem layOut_cases (style : NumberStyle) (negative : Bool) (digits : List Char) (leading : ℤ) :
    let n := style.layOut negative digits leading
    leading < 0 ∧
        n = ⟨negative, ['0'], List.replicate (-leading - 1).toNat '0' ++ digits, none⟩ ∨
      digits.length ≤ leading + 1 ∧ leading ≤ style.greatest ∧
        n = ⟨negative, digits ++ List.replicate ((leading + 1).toNat - digits.length) '0', ['0'],
          none⟩ ∨
      0 ≤ leading ∧ leading + 1 < digits.length ∧
        n = ⟨negative, digits.take (leading + 1).toNat, digits.drop (leading + 1).toNat, none⟩ ∨
      n = ⟨negative, digits.take 1, digits.drop 1, some leading⟩ := by
  simp only [layOut]
  split
  · next hin =>
    simp only [Bool.and_eq_true, decide_eq_true_eq] at hin
    split
    · next hneg => exact .inl ⟨hneg, rfl⟩
    · next hnneg =>
      right
      rcases le_or_gt digits.length (leading + 1).toNat with hle | hlt
      · refine .inl ⟨by omega, hin.2, ?_⟩
        rw [List.take_of_length_le hle, List.drop_of_length_le hle]
        rfl
      · refine .inr (.inl ⟨by omega, by omega, ?_⟩)
        have hne : (digits.drop (leading + 1).toNat).isEmpty = false := by simpa using hlt
        rw [hne, Nat.sub_eq_zero_of_le hlt.le]
        simp
  · exact .inr (.inr (.inr rfl))

/-- The digits of a decimal and its exponent are those of the numeral, unless an integer has zeros
behind its digits and a zero as its fraction. -/
theorem scaled_layOut (style : NumberStyle) (negative : Bool) (hne : digits ≠ []) (k : ℤ) :
    let n := style.layOut negative digits (digits.length - 1 + k)
    n.scaled = (digitsValue 0 digits, k) ∨
      0 ≤ k ∧ digits.length + k ≤ style.greatest + 1 ∧
        n.scaled = (10 ^ (k.toNat + 1) * digitsValue 0 digits, -1) := by
  have hlen : 0 < digits.length := List.length_pos_iff.2 hne
  obtain ⟨hneg, heq⟩ | ⟨hle, hgreatest, heq⟩ | ⟨hpos, hlt, heq⟩ | heq :=
    layOut_cases style negative digits (digits.length - 1 + k)
  · left
    have hzeros : digitsValue 0 ('0' :: (List.replicate (-(digits.length - 1 + k) - 1).toNat '0' ++
        digits)) = digitsValue 0 digits := by
      rw [digitsValue_eq, Nat.ofDigitChars_cons, Nat.ofDigitChars_append,
        Nat.ofDigitChars_replicate_zero]
      rfl
    rw [heq, Numeral.scaled]
    simp only [List.singleton_append, hzeros, Option.getD_none, List.length_append,
      List.length_replicate]
    congr 1
    omega
  · right
    have hvalue : digitsValue 0 (digits ++ List.replicate
        ((digits.length - 1 + k + 1).toNat - digits.length) '0' ++ ['0']) =
        10 ^ (k.toNat + 1) * digitsValue 0 digits := by
      have hcount : (digits.length - 1 + k + 1).toNat - digits.length = k.toNat := by omega
      rw [hcount, List.append_assoc, ← List.replicate_succ', digitsValue_eq,
        Nat.ofDigitChars_append, Nat.ofDigitChars_replicate_zero]
      rfl
    refine ⟨by omega, by omega, ?_⟩
    rw [heq, Numeral.scaled]
    simp only [hvalue]
    rfl
  · left
    rw [heq, Numeral.scaled]
    simp only [List.take_append_drop, Option.getD_none, List.length_drop]
    congr 1
    omega
  · left
    rw [heq, Numeral.scaled]
    simp only [List.take_append_drop, Option.getD_some, List.length_drop]
    congr 1
    omega

theorem spelled_layOut (style : NumberStyle) (negative : Bool) (leading : ℤ) (hne : digits ≠ [])
    (hdigit : ∀ c ∈ digits, c.isDigit = true) (hzero : digits.head? ≠ some '0') :
    (style.layOut negative digits leading).Spelled := by
  have hlen : 0 < digits.length := List.length_pos_iff.2 hne
  have htake {m : ℕ} (hm : 0 < m) : (digits.take m).head? = digits.head? := by
    rw [List.head?_take, if_neg hm.ne']
  have hzeros {m : ℕ} : ∀ c ∈ List.replicate m '0', c.isDigit = true := by
    intro c hc
    rw [List.eq_of_mem_replicate hc]
    rfl
  obtain ⟨-, heq⟩ | ⟨-, -, heq⟩ | ⟨hpos, -, heq⟩ | heq :=
    layOut_cases style negative digits leading
  · rw [heq]
    refine ⟨by simp, by simp, ?_, fun _ => rfl⟩
    exact List.forall_mem_append.2 ⟨hzeros, hdigit⟩
  · rw [heq]
    refine ⟨by simp [hne], List.forall_mem_append.2 ⟨hdigit, hzeros⟩, by simp, fun h => ?_⟩
    rw [List.head?_append, Option.or_of_isSome (List.isSome_head?.2 hne)] at h
    exact absurd h hzero
  · rw [heq]
    refine ⟨by simp [hne]; omega, fun c hc => hdigit c (List.mem_of_mem_take hc),
      fun c hc => hdigit c (List.mem_of_mem_drop hc), fun h => ?_⟩
    exact absurd ((htake (by omega)).symm.trans h) hzero
  · rw [heq]
    refine ⟨by simp [hne], fun c hc => hdigit c (List.mem_of_mem_take hc),
      fun c hc => hdigit c (List.mem_of_mem_drop hc), fun h => ?_⟩
    exact absurd ((htake one_pos).symm.trans h) hzero

theorem isInteger_layOut (style : NumberStyle) (negative : Bool) (leading : ℤ) (hne : digits ≠ []) :
    (style.layOut negative digits leading).isInteger = false := by
  obtain ⟨-, heq⟩ | ⟨-, -, heq⟩ | ⟨hpos, hlt, heq⟩ | heq :=
    layOut_cases style negative digits leading
  · rw [heq]
    simp [Numeral.isInteger, hne]
  · rw [heq]
    rfl
  · rw [heq]
    simp only [Numeral.isInteger, Option.isNone_none, Bool.and_true, List.isEmpty_eq_false_iff]
    exact List.ne_nil_of_length_pos (by simp; omega)
  · rw [heq]
    simp [Numeral.isInteger]

end NumberStyle
end SqlWalk
