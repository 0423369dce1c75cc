import Mathlib
import SolarBill.Number.Double

/-!
# Packing and unpacking

A double is a word of sign, exponent and mantissa bits; its arithmetic is defined on the unpacked
parts.  This file ties the two together for the parts that arithmetic produces.

* `unpack_pack`, `unpack_pack_overflow` — packing canonical parts and unpacking the word gives the
  parts back, or an infinity when the exponent is too large;
* `canonical_of_unpack` — the parts of a word are special values or canonical;
* `pack_unpack` — a word is determined by its parts, the sign of a zero included.
-/

namespace SolarBill.Double

open Float.Model Float.Model.UnpackedFloat

/-- Mantissa and exponent as a double holds them: fifty-three bits, and fewer of them only at the
least exponent. -/
structure Canonical (m : Nat) (e : Int) : Prop where
  pos : 0 < m
  lt : m < 2 ^ 53
  least : -1074 ≤ e
  normal : 2 ^ 52 ≤ m ∨ e = -1074

/-- The sign of packed parts; core has the same fact for exponent and mantissa. -/
@[simp] theorem unpackSign_packComponents {spec : Format} {s : Sign} {e m} :
    unpackSign (packComponents spec s e m) = s.toBitVec := by
  ext i hi
  have : i = 0 := by omega
  subst this
  simp [unpackSign, packComponents, BitVec.getLsbD_append, BitVec.getElem_append]

/-- A sign is packed into its bit and taken out again. -/
@[simp] theorem ofBitVec_toBitVec (s : Sign) : Sign.ofBitVec s.toBitVec = s := by
  cases s <;> rfl

/-- The implicit bit stands above the fifty-two stored ones. -/
theorem toNat_implicit (m : BitVec 52) : (1#1 ++ m).toNat = 2 ^ 52 + m.toNat := by
  rw [BitVec.toNat_append, ← Nat.shiftLeft_add_eq_or_of_lt m.isLt]
  simp [Nat.shiftLeft_eq]

/-- A canonical mantissa has fifty-three bits exactly when it is normal. -/
theorem Canonical.log2_eq_iff {m : Nat} {e : Int} (h : Canonical m e) :
    m.log2 + 1 = 53 ↔ 2 ^ 52 ≤ m := by
  have hlt : m.log2 < 53 := (Nat.log2_lt h.pos.ne').mpr h.lt
  have hle : 52 ≤ m.log2 ↔ 2 ^ 52 ≤ m := Nat.le_log2 h.pos.ne'
  omega

/-- The largest exponent and no fraction mean infinity. -/
theorem unpack_infinity (s : Sign) :
    unpack Format.binary64 (packComponents Format.binary64 s (-1#11) 0#52) = .infinity s := by
  simp [UnpackedFloat.unpack]

/-- An exponent between the least and the largest one has a leading bit that is not stored. -/
theorem unpack_normal (s : Sign) (e : BitVec 11) (m : BitVec 52) (h1 : e ≠ -1#11) (h0 : e ≠ 0#11) :
    unpack Format.binary64 (packComponents Format.binary64 s e m) =
      .finite s (2 ^ 52 + m.toNat) (e.toNat - 1075) (by omega) := by
  simp only [UnpackedFloat.unpack, unpackExponent_packComponents, unpackMantissa_packComponents,
    unpackSign_packComponents, ofBitVec_toBitVec, h1, h0, if_false, toNat_implicit]
  rfl

/-- The least exponent has none. -/
theorem unpack_subnormal (s : Sign) (m : BitVec 52) (h : m ≠ 0#52) :
    unpack Format.binary64 (packComponents Format.binary64 s 0#11 m) =
      .finite s m.toNat (-1074) (by simpa [BitVec.toNat_pos, BitVec.pos_iff_ne_zero]) := by
  simp only [UnpackedFloat.unpack, unpackExponent_packComponents, unpackMantissa_packComponents,
    unpackSign_packComponents, ofBitVec_toBitVec, h]
  rfl

/-- Packing canonical parts: an infinity, a normal or a subnormal double. -/
theorem pack_finite {s : Sign} {m : Nat} {e : Int} {hm : 0 < m} (h : Canonical m e) :
    UnpackedFloat.pack Format.binary64 (.finite s m e hm) =
      if 971 < e then packedInfinity Format.binary64 s
      else if 2 ^ 52 ≤ m then
        packComponents Format.binary64 s (BitVec.ofNat 11 (e + 1075).toNat) (BitVec.ofNat 52 m)
      else packComponents Format.binary64 s 0#11 (BitVec.ofNat 52 m) := by
  have hbias : (Format.binary64.exponentBias : Int) = 1023 := rfl
  have hbits : Format.binary64.mantissaBits = 53 := rfl
  have hexp : (e + 1023 + 52).toNat = (e + 1075).toNat := by omega
  have hfit : 2 ^ 11 ≤ (e + 1075).toNat + 1 ↔ 971 < e := by
    have := h.least
    omega
  simp only [UnpackedFloat.pack, hbias, hbits, Nat.cast_ofNat, hexp, hfit, h.log2_eq_iff]

/-- The word of components: the sign bit stands above the exponent, and this above the mantissa. -/
theorem toNat_packComponents (s : Sign) (e : BitVec 11) (m : BitVec 52) :
    (packComponents Format.binary64 s e m).toNat =
      s.toBitVec.toNat * 2 ^ 63 + e.toNat * 2 ^ 52 + m.toNat := by
  have hsign : (s.toBitVec ++ e).toNat = s.toBitVec.toNat * 2 ^ 11 + e.toNat := by
    rw [BitVec.toNat_append, ← Nat.shiftLeft_add_eq_or_of_lt e.isLt, Nat.shiftLeft_eq]
  change (s.toBitVec ++ e ++ m).toNat = _
  rw [BitVec.toNat_append, ← Nat.shiftLeft_add_eq_or_of_lt m.isLt, hsign, Nat.shiftLeft_eq]
  ring

/-- Packing canonical parts loses nothing, as long as the exponent fits. -/
theorem unpack_pack {s : Sign} {m : Nat} {e : Int} {hm : 0 < m} (h : Canonical m e)
    (he : e ≤ 971) :
    (Float.Model.pack (.finite s m e hm)).unpack = .finite s m e hm := by
  have hleast := h.least
  have hlt := h.lt
  change UnpackedFloat.unpack Format.binary64 (UnpackedFloat.pack Format.binary64 _) = _
  by_cases hn : 2 ^ 52 ≤ m
  · have hexp : (BitVec.ofNat 11 (e + 1075).toNat).toNat = (e + 1075).toNat := by
      rw [BitVec.toNat_ofNat, Nat.mod_eq_of_lt (by omega)]
    have hone : BitVec.ofNat 11 (e + 1075).toNat ≠ -1#11 := by
      intro hc
      rw [hc] at hexp
      simp at hexp
      omega
    have hzero : BitVec.ofNat 11 (e + 1075).toNat ≠ 0#11 := by
      intro hc
      rw [hc] at hexp
      simp at hexp
      omega
    rw [pack_finite h, if_neg (by omega), if_pos hn, unpack_normal _ _ _ hone hzero]
    congr 1
    · rw [BitVec.toNat_ofNat]
      omega
    · omega
  · obtain rfl : e = -1074 := h.normal.resolve_left hn
    have hmant : (BitVec.ofNat 52 m).toNat = m := by
      rw [BitVec.toNat_ofNat, Nat.mod_eq_of_lt (by omega)]
    have hzero : BitVec.ofNat 52 m ≠ 0#52 := by
      intro hc
      have := h.pos
      rw [hc] at hmant
      simp at hmant
      omega
    rw [pack_finite h, if_neg (by omega), if_neg hn, unpack_subnormal _ _ hzero]
    congr 1

/-- Parts whose exponent does not fit become an infinity. -/
theorem unpack_pack_overflow {s : Sign} {m : Nat} {e : Int} {hm : 0 < m} (h : Canonical m e)
    (he : 971 < e) :
    (Float.Model.pack (.finite s m e hm)).unpack = .infinity s := by
  change UnpackedFloat.unpack Format.binary64 (UnpackedFloat.pack Format.binary64 _) = _
  rw [pack_finite h, if_pos he]
  exact unpack_infinity s

/-- A bit is a sign and this bit again. -/
theorem toBitVec_ofBitVec (b : BitVec 1) : (Sign.ofBitVec b).toBitVec = b := by
  revert b
  decide

/-- A word is made of its sign, its exponent and its mantissa. -/
theorem packComponents_unpack {spec : Format} (b : BitVec spec.numBits) :
    packComponents spec (.ofBitVec (unpackSign b)) (unpackExponent b) (unpackMantissa b) = b := by
  apply BitVec.eq_of_getLsbD_eq
  intro i hi
  have he := spec.he
  have hm := spec.hm
  rw [packComponents, toBitVec_ofBitVec]
  simp only [Format.numBits] at hi
  simp only [unpackSign, unpackExponent, unpackMantissa, BitVec.getLsbD_append, BitVec.getLsbD_cast,
    BitVec.getLsbD_extractLsb]
  split_ifs with hlow hmid
  · rw [decide_eq_true (by omega), Bool.true_and, Nat.zero_add]
  · rw [decide_eq_true (by omega), Bool.true_and]
    congr 1
    omega
  · rw [decide_eq_true (by omega), Bool.true_and]
    congr 1
    omega

/-- No exponent and no fraction mean zero. -/
theorem unpack_zero (s : Sign) :
    unpack Format.binary64 (packComponents Format.binary64 s 0#11 0#52) = .zero s := by
  simp [UnpackedFloat.unpack]

/-- A stored fraction with its leading bit is canonical. -/
theorem canonical_normal {e : BitVec 11} (m : BitVec 52) (hone : e ≠ -1#11) (hzero : e ≠ 0#11) :
    Canonical (2 ^ 52 + m.toNat) (e.toNat - 1075) ∧ (e.toNat : Int) - 1075 ≤ 971 := by
  have hm := m.isLt
  have he := e.isLt
  have hone' : e.toNat ≠ 2047 := fun hc => hone (BitVec.eq_of_toNat_eq hc)
  have hzero' : e.toNat ≠ 0 := fun hc => hzero (BitVec.eq_of_toNat_eq hc)
  exact ⟨⟨by omega, by omega, by omega, Or.inl (by omega)⟩, by omega⟩

/-- A fraction without a leading bit is canonical at the least exponent. -/
theorem canonical_subnormal {m : BitVec 52} (h : m ≠ 0#52) : Canonical m.toNat (-1074) := by
  have hm := m.isLt
  have hpos : m.toNat ≠ 0 := fun hc => h (BitVec.eq_of_toNat_eq hc)
  exact ⟨by omega, by omega, by omega, Or.inr rfl⟩

/-- The largest exponent with a fraction means not-a-number. -/
theorem unpack_notANumber (s : Sign) {m : BitVec 52} (h : m ≠ 0#52) :
    unpack Format.binary64 (packComponents Format.binary64 s (-1#11) m) = .notANumber := by
  simp [UnpackedFloat.unpack, h]

/-- The parts of a double are a special value or canonical, and packing them gives the double. -/
theorem pack_unpack_word {b : BitVec 64} (hb : Format.binary64.Valid b) :
    UnpackedFloat.pack Format.binary64 (unpack Format.binary64 b) = b ∧
      ∀ s m e hm, unpack Format.binary64 b = .finite s m e hm → Canonical m e ∧ e ≤ 971 := by
  obtain ⟨s, e, m, rfl⟩ : ∃ s e m, b = packComponents Format.binary64 s e m :=
    ⟨_, _, _, (@packComponents_unpack Format.binary64 b).symm⟩
  -- The exponent bits tell the kinds apart: all ones, all zeros, and the normal doubles between.
  by_cases hone : e = -1#11
  · subst hone
    by_cases hm : m = 0#52
    · subst hm
      rw [unpack_infinity]
      exact ⟨rfl, by simp⟩
    · rw [unpack_notANumber s hm]
      exact ⟨(hb.eq_packedNaN (by simp) (by simpa using hm)).symm, by simp⟩
  by_cases hzero : e = 0#11
  · subst hzero
    by_cases hm : m = 0#52
    · subst hm
      rw [unpack_zero]
      exact ⟨rfl, by simp⟩
    · have hc := canonical_subnormal hm
      have hlt : m.toNat < 2 ^ 52 := m.isLt
      rw [unpack_subnormal s m hm, pack_finite hc, if_neg (by omega), if_neg (by omega)]
      refine ⟨by rw [BitVec.ofNat_toNat, BitVec.setWidth_eq], ?_⟩
      rintro _ _ _ _ h
      cases h
      exact ⟨hc, by omega⟩
  · obtain ⟨hc, hmax⟩ := canonical_normal m hone hzero
    rw [unpack_normal s e m hone hzero, pack_finite hc, if_neg (by omega), if_pos (by omega)]
    refine ⟨?_, ?_⟩
    · congr 1
      · apply BitVec.eq_of_toNat_eq
        have := e.isLt
        rw [BitVec.toNat_ofNat]
        omega
      · apply BitVec.eq_of_toNat_eq
        have hlt : m.toNat < 2 ^ 52 := m.isLt
        rw [BitVec.toNat_ofNat]
        omega
    · rintro _ _ _ _ h
      cases h
      exact ⟨hc, hmax⟩

/-- Mantissa and exponent of a word are canonical, and the exponent fits. -/
theorem canonical_of_unpack {x : Float.Model} {s : Sign} {m : Nat} {e : Int} {hm : 0 < m}
    (h : x.unpack = .finite s m e hm) : Canonical m e ∧ e ≤ 971 :=
  (pack_unpack_word x.valid).2 s m e hm h

/-- Packing the parts of a word gives the word. -/
theorem pack_unpack (x : Float.Model) : Float.Model.pack x.unpack = x := by
  have h := (pack_unpack_word x.valid).1
  cases x with
  | mk bits valid =>
      have hbits : UInt64.ofBitVec (UnpackedFloat.pack Format.binary64
          (unpack Format.binary64 bits.toBitVec)) = bits := UInt64.toBitVec_inj.mp h
      simp only [Float.Model.unpack, Float.Model.pack, hbits]

end SolarBill.Double
