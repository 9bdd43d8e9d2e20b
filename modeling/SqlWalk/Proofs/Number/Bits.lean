import Mathlib.Tactic.Common
import SqlWalk.Proofs.Number.Interval

namespace SqlWalk

open Float.Model Float.Model.UnpackedFloat

variable {x : Float32} {b : Binary} {bits : ℕ} {negative : Bool}

theorem toNat_unpackExponent (v : BitVec 32) :
    (@unpackExponent Format.binary32 v).toNat = v.toNat / 2 ^ 23 % 2 ^ 8 := by
  simp [unpackExponent, Nat.shiftRight_eq_div_pow]

theorem toBitVec_ofBitVec (v : BitVec 1) : (Sign.ofBitVec v).toBitVec = v := by
  revert v
  decide

theorem packComponents_of_unpack {v : BitVec 32} {exponent : BitVec 8} {mantissa : BitVec 23}
    (he : @unpackExponent Format.binary32 v = exponent)
    (hm : @unpackMantissa Format.binary32 v = mantissa) :
    packComponents Format.binary32 (Sign.ofBitVec (@unpackSign Format.binary32 v)) exponent
      mantissa = v := by
  subst he hm
  simp only [packComponents, toBitVec_ofBitVec, unpackSign, unpackExponent, unpackMantissa,
    BitVec.extractLsb]
  ext i hi
  grind

theorem pack_subnormal (sign : Sign) {m : ℕ} (hm : 0 < m) (hlt : m < 2 ^ 23) :
    UnpackedFloat.pack Format.binary32 (.finite sign m (-149) hm) =
      packComponents Format.binary32 sign 0 (BitVec.ofNat 23 m) := by
  have hlog : m.log2 < 23 := (Nat.log2_lt hm.ne').2 hlt
  rw [UnpackedFloat.pack]
  exact (if_neg (by decide)).trans (if_neg (by simp only [Format.mantissaBits]; omega))

theorem pack_normal (sign : Sign) {m field : ℕ} (hm : 0 < m) (hle : 2 ^ 23 ≤ m) (hlt : m < 2 ^ 24)
    (hfield : field < 255) :
    UnpackedFloat.pack Format.binary32 (.finite sign m (field - 150) hm) =
      packComponents Format.binary32 sign (BitVec.ofNat 8 field) (BitVec.ofNat 23 m) := by
  have hlog₁ : m.log2 < 24 := (Nat.log2_lt hm.ne').2 hlt
  have hlog₂ : 23 ≤ m.log2 := (Nat.le_log2 hm.ne').2 hle
  have hbiased : ((field : ℤ) - 150 + (Format.binary32.exponentBias : ℕ) +
      (Format.binary32.mantissaBitsWithoutImplicit : ℕ)).toNat = field := by
    simp only [Format.exponentBias]
    omega
  rw [UnpackedFloat.pack]
  simp only [hbiased]
  rw [if_neg (by omega), if_pos (by simp only [Format.mantissaBits]; omega)]

theorem pack_unpack {v : BitVec 32} (hv : Format.binary32.Valid v) :
    UnpackedFloat.pack Format.binary32 (UnpackedFloat.unpack Format.binary32 v) = v := by
  have hmlt : (@unpackMantissa Format.binary32 v).toNat < 2 ^ 23 := BitVec.isLt _
  have helt : (@unpackExponent Format.binary32 v).toNat < 2 ^ 8 := BitVec.isLt _
  rw [UnpackedFloat.unpack]
  split
  · next hmax =>
    split
    · next hzero => exact packComponents_of_unpack hmax hzero
    · next hnonzero => exact (hv.eq_packedNaN hmax hnonzero).symm
  · next hmax =>
    split
    · next hlow =>
      split
      · next hzero => exact packComponents_of_unpack hlow hzero
      · next hnonzero =>
        have hpos : 0 < (@unpackMantissa Format.binary32 v).toNat :=
          Nat.pos_of_ne_zero fun hzero => hnonzero (BitVec.eq_of_toNat_eq (by simpa using hzero))
        simp only [hlow]
        refine (pack_subnormal _ hpos hmlt).trans (packComponents_of_unpack hlow ?_)
        exact BitVec.eq_of_toNat_eq (Nat.mod_eq_of_lt hmlt).symm
    · next hnormal =>
      have hone : (1#1 ++ @unpackMantissa Format.binary32 v).toNat =
          2 ^ 23 + (@unpackMantissa Format.binary32 v).toNat := by
        rw [BitVec.toNat_append, ← Nat.shiftLeft_add_eq_or_of_lt hmlt]
        rfl
      have hfield : (@unpackExponent Format.binary32 v).toNat < 255 := by
        refine lt_of_le_of_ne (Nat.le_of_lt_succ helt) fun heq => hmax ?_
        exact BitVec.eq_of_toNat_eq heq
      refine (pack_normal _ (by omega) (by omega) (by omega) hfield).trans
        (packComponents_of_unpack ?_ ?_)
      · exact BitVec.eq_of_toNat_eq (Nat.mod_eq_of_lt helt).symm
      · refine BitVec.eq_of_toNat_eq ?_
        rw [BitVec.toNat_ofNat, hone]
        change _ = (2 ^ 23 + _) % 2 ^ 23
        rw [Nat.add_mod_left, Nat.mod_eq_of_lt hmlt]

theorem ofBits_toBits (x : Float32) : Float32.ofBits x.toBits = x := by
  obtain ⟨⟨bits, hv⟩⟩ := x
  have hbits := pack_unpack hv
  simp only [Float32.ofBits, Float32.toBits, Float32.Model.ofBits, Float32.Model.pack, hbits]

theorem decode_eq (bits : ℕ) : binary32.decode bits =
    if bits / 2 ^ 23 = 0 then some ⟨bits % 2 ^ 23, -149⟩
    else if bits / 2 ^ 23 < 255 then some ⟨2 ^ 23 + bits % 2 ^ 23, (bits / 2 ^ 23 : ℕ) - 150⟩
    else none := by
  have hexponent (field : ℕ) : (-149 : ℤ) + field - 1 = field - 150 := by ring
  have hfinite (field : ℕ) : (field : ℤ) < 104 - -149 + 2 ↔ field < 255 := by omega
  simp only [BinaryFormat.decode, binary32, hexponent, hfinite]
  rfl

theorem encode_some (b : Binary) :
    binary32.encode (some b) = (b.exponent + 149).toNat * 2 ^ 23 + b.mantissa :=
  rfl

theorem encode_decode (h : binary32.decode bits = some b) :
    binary32.encode (some b) = bits ∧ binary32.Has b := by
  have hsplit := Nat.div_add_mod bits (2 ^ 23)
  have hlt : bits % 2 ^ 23 < 2 ^ 23 := Nat.mod_lt _ (by norm_num)
  rw [decode_eq] at h
  split at h
  · next hzero =>
    cases h
    refine ⟨?_, hlt.trans (by decide), le_rfl, by simp only [binary32]; omega, .inl rfl⟩
    simp only [encode_some]
    omega
  · next hnonzero =>
    split at h
    · next hfinite =>
      cases h
      refine ⟨?_, ?_, ?_, ?_, .inr ?_⟩
      · simp only [encode_some]
        omega
      · simp only [binary32]
        omega
      · simp only [binary32]
        omega
      · simp only [binary32]
        omega
      · exact Nat.le_add_right _ _
    · cases h

theorem decode_eq_none_iff (hlt : bits < 2 ^ 31) :
    binary32.decode bits = none ↔ bits / 2 ^ 23 = 255 := by
  rw [decode_eq]
  split
  · simp
    omega
  · split
    · simp
      omega
    · simp
      omega

theorem isFinite_iff (x : Float32) : x.isFinite = true ↔ x.toBits.toNat / 2 ^ 23 % 2 ^ 8 ≠ 255 := by
  have hexponent := toNat_unpackExponent x.toBits.toBitVec
  have hmax : @unpackExponent Format.binary32 x.toBits.toBitVec = -1#8 ↔
      x.toBits.toNat / 2 ^ 23 % 2 ^ 8 = 255 := by
    rw [← BitVec.toNat_inj, hexponent]
    rfl
  rw [ne_eq, ← hmax]
  change (UnpackedFloat.unpack Format.binary32 x.toBits.toBitVec).isFinite = true ↔ _
  rw [UnpackedFloat.unpack]
  split
  · next heq =>
    refine iff_of_false ?_ (not_not.2 heq)
    split <;> exact Bool.false_ne_true
  · next hne =>
    refine iff_of_true ?_ hne
    split
    · split <;> rfl
    · rfl

theorem signedMagnitude?_eq_none_iff : signedMagnitude? x = none ↔ x.isFinite = false := by
  rw [← Bool.not_eq_true, isFinite_iff, not_not, signedMagnitude?, Option.map_eq_none_iff,
    Nat.pow_eq, decode_eq_none_iff (Nat.mod_lt _ (by norm_num))]
  omega

theorem single_of_signedMagnitude? (h : signedMagnitude? x = some (negative, b)) :
    single negative (some b) = x ∧ binary32.Has b := by
  obtain ⟨c, hc, heq⟩ := Option.map_eq_some_iff.1 h
  obtain ⟨rfl, rfl⟩ := Prod.mk.inj heq
  obtain ⟨hencode, hhas⟩ := encode_decode hc
  refine ⟨?_, hhas⟩
  have hbits : binary32.encode (some c) + (if decide (Nat.pow 2 31 ≤ x.toBits.toNat) = true then
      Nat.pow 2 31 else 0) = x.toBits.toNat := by
    have hlt : x.toBits.toNat < 2 ^ 32 := x.toBits.toNat_lt
    rw [hencode, Nat.pow_eq]
    split
    · next hnegative =>
      rw [decide_eq_true_eq] at hnegative
      omega
    · next hpositive =>
      rw [decide_eq_true_eq] at hpositive
      omega
  rw [single, hbits, UInt32.ofNat_toNat, ofBits_toBits]

end SqlWalk
