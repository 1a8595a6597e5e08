import Mathlib
/-!
# Binary64 — the rational values of doubles, and the operations that do not round

A double is a `Float.Model`; its value is a rational, or none if it is not finite. A conversion from an integer below
`2 ^ 53`, a product with a power of two and a quotient by one keep every digit, and a truncation drops those behind the
point.
-/
namespace Binary64

open Float.Model Float.Model.UnpackedFloat

/-! ## Values -/

/-- The value of a finite float. -/
def valueOf : UnpackedFloat → Option ℚ
  | .notANumber => none
  | .infinity _ => none
  | .zero _ => some 0
  | .finite s m e _ => some ((s.apply m : Int) * (2 : ℚ) ^ e)

/-- **The value of a double.** -/
def value (x : Float.Model) : Option ℚ := valueOf x.unpack

/-- The value of the double with these bits. -/
def valueOfBits (b : UInt64) : Option ℚ := valueOf (UnpackedFloat.unpack .binary64 b.toBitVec)

theorem valueOfBits_toBits (x : Float.Model) : valueOfBits x.toBits = value x := rfl

theorem isSome_value (x : Float.Model) : (value x).isSome = x.isFinite := by
  unfold value Float.Model.isFinite
  cases x.unpack <;> rfl

/-! ## The canonical form -/

/-- A mantissa of 53 bits, or fewer at the least exponent. -/
structure Canonical (m : Nat) (e : Int) : Prop where
  lt : m < 2 ^ 53
  le_exp : -1074 ≤ e
  normal : 2 ^ 52 ≤ m ∨ e = -1074

/-- The exponent `binary64` wants for a number. -/
theorem targetExponent_eq (m : Nat) (e : Int) :
    Format.binary64.targetExponent (totalExponent m e) = max ((m.log2 : Int) + e - 52) (-1074) := by
  have hbits : Format.binary64.mantissaBits = 53 := rfl
  have hmin : Format.binary64.minExponent = -1074 := by decide
  unfold Format.targetExponent totalExponent
  rw [hbits, hmin]
  omega

theorem Canonical.of_target {m : Nat} {e : Int} (h : 0 < m)
    (he : e = Format.binary64.targetExponent (totalExponent m e)) : Canonical m e := by
  rw [targetExponent_eq] at he
  have hlog : m.log2 ≤ 52 := by omega
  refine ⟨(Nat.log2_lt h.ne').1 (Nat.lt_succ_of_le hlog), by omega, ?_⟩
  by_cases hmin : e = -1074
  · exact .inr hmin
  · exact .inl ((Nat.le_log2 h.ne').1 (by omega))

theorem exponentBias_eq : Format.binary64.exponentBias = 1023 := by decide

/-- **A double is in canonical form.** -/
theorem canonical_of_unpack {x : Float.Model} {s : Sign} {m : Nat} {e : Int} {hm : 0 < m}
    (h : x.unpack = .finite s m e hm) : Canonical m e ∧ e ≤ 971 := by
  have hmant : (@unpackMantissa .binary64 x.toBits.toBitVec).toNat < 2 ^ 52 :=
    (@unpackMantissa .binary64 x.toBits.toBitVec).isLt
  have hexp : (@unpackExponent .binary64 x.toBits.toBitVec).toNat < 2 ^ 11 :=
    (@unpackExponent .binary64 x.toBits.toBitVec).isLt
  have hbias := exponentBias_eq
  unfold Float.Model.unpack UnpackedFloat.unpack at h
  dsimp only at h
  split at h
  · split at h
    · cases h
    · cases h
  · rename_i hones
    have hlast : (@unpackExponent .binary64 x.toBits.toBitVec).toNat ≠ 2047 :=
      fun heq => hones (BitVec.eq_of_toNat_eq heq)
    split at h
    · rename_i hzero
      rw [hzero] at h
      split at h
      · cases h
      · cases h
        refine ⟨⟨by omega, ?_, .inr ?_⟩, ?_⟩
        · rw [hbias]
          decide
        · rw [hbias]
          decide
        · rw [hbias]
          decide
    · rename_i hzero
      have hfirst : (@unpackExponent .binary64 x.toBits.toBitVec).toNat ≠ 0 :=
        fun heq => hzero (BitVec.eq_of_toNat_eq heq)
      have hlead : (1#1 ++ @unpackMantissa .binary64 x.toBits.toBitVec).toNat =
          2 ^ 52 + (@unpackMantissa .binary64 x.toBits.toBitVec).toNat := by
        rw [BitVec.toNat_append, ← Nat.shiftLeft_add_eq_or_of_lt hmant]
        rfl
      cases h
      refine ⟨⟨?_, by omega, .inl ?_⟩, by omega⟩
      · rw [hlead]
        omega
      · rw [hlead]
        omega

theorem finite_congr {s : Sign} {m m' : Nat} {e e' : Int} {h : 0 < m} {h' : 0 < m'} (hm : m = m') (he : e = e') :
    UnpackedFloat.finite s m e h = .finite s m' e' h' := by
  subst hm he
  rfl

/-- **A number in canonical form comes out of its bits**, if its exponent has a code. -/
theorem unpack_pack {s : Sign} {m : Nat} {e : Int} {hm : 0 < m} (C : Canonical m e) (he : e ≤ 971) :
    (Float.Model.pack (.finite s m e hm)).unpack = .finite s m e hm := by
  have hlt := C.lt
  have hmin := C.le_exp
  have hbias := exponentBias_eq
  have hbits : Format.binary64.mantissaBits = 53 := rfl
  have hcode : (e + (1023 : Nat) + (52 : Nat)).toNat + 1 < 2 ^ 11 := by omega
  unfold Float.Model.pack Float.Model.unpack UnpackedFloat.pack
  dsimp only
  rw [hbias, hbits, if_neg (Nat.not_le.2 hcode)]
  by_cases hnormal : 2 ^ 52 ≤ m
  · have hlog : m.log2 = 52 := (Nat.log2_eq_iff hm.ne').2 ⟨hnormal, hlt⟩
    rw [hlog, if_pos rfl]
    have hexp : (BitVec.ofNat 11 (e + (1023 : Nat) + (52 : Nat)).toNat).toNat = (e + (1023 : Nat) + (52 : Nat)).toNat :=
      Nat.mod_eq_of_lt (by omega)
    have hones : BitVec.ofNat 11 (e + (1023 : Nat) + (52 : Nat)).toNat ≠ -1#11 := by
      intro heq
      have hcodes : _ = 2047 := hexp.symm.trans (congrArg BitVec.toNat heq)
      omega
    have hzero : BitVec.ofNat 11 (e + (1023 : Nat) + (52 : Nat)).toNat ≠ 0#11 := by
      intro heq
      have hcodes : _ = 0 := hexp.symm.trans (congrArg BitVec.toNat heq)
      omega
    have hlead : (1#1 ++ BitVec.ofNat 52 m).toNat = m := by
      have hlow : (BitVec.ofNat 52 m).toNat = m % 2 ^ 52 := rfl
      rw [BitVec.toNat_append, ← Nat.shiftLeft_add_eq_or_of_lt (BitVec.ofNat 52 m).isLt, hlow]
      have hone : (1#1).toNat <<< 52 = 2 ^ 52 := rfl
      omega
    unfold UnpackedFloat.unpack
    simp only [unpackMantissa_packComponents, unpackExponent_packComponents, unpackSign_packComponents,
      Sign.ofBitVec_toBitVec, hbias, if_neg hones, if_neg hzero]
    apply finite_congr hlead
    rw [hexp]
    omega
  · have hlow : (BitVec.ofNat 52 m).toNat = m := Nat.mod_eq_of_lt (Nat.not_le.1 hnormal)
    have hlog : ¬ m.log2 + 1 = 53 := by
      intro hlog
      exact hnormal ((Nat.le_log2 hm.ne').1 (by omega))
    have hfirst : BitVec.ofNat 52 m ≠ 0#52 := by
      intro heq
      have hmant : _ = 0 := hlow.symm.trans (congrArg BitVec.toNat heq)
      omega
    have hsub := C.normal
    unfold UnpackedFloat.unpack
    rw [if_neg hlog]
    simp only [unpackMantissa_packComponents, unpackExponent_packComponents, unpackSign_packComponents,
      Sign.ofBitVec_toBitVec, hbias, dif_neg hfirst]
    have hexp : e = -1074 := hsub.resolve_left hnormal
    rw [hexp]
    exact finite_congr hlow (by decide)

theorem unpack_pack_zero (s : Sign) : (Float.Model.pack (.zero s)).unpack = .zero s := by cases s <;> rfl

theorem value_pack_zero (s : Sign) : value (.pack (.zero s)) = some 0 := by
  unfold value
  rw [unpack_pack_zero]
  rfl

/-- **A number whose exponent has no code becomes infinite**, and it is not below `2 ^ 1024`. -/
theorem value_pack_overflow {s : Sign} {m : Nat} {e : Int} {hm : 0 < m} (C : Canonical m e) (he : 971 < e) :
    value (.pack (.finite s m e hm)) = none ∧ (2 : ℚ) ^ 1024 ≤ m * (2 : ℚ) ^ e := by
  have hbias := exponentBias_eq
  have hcode : 2 ^ 11 ≤ (e + (1023 : Nat) + (52 : Nat)).toNat + 1 := by omega
  constructor
  · unfold value Float.Model.pack Float.Model.unpack UnpackedFloat.pack
    dsimp only
    rw [hbias, if_pos hcode]
    cases s with
    | negative => decide
    | positive => decide
  · have hnormal : 2 ^ 52 ≤ m := C.normal.resolve_right (by omega)
    have hm' : (2 : ℚ) ^ 52 ≤ m := by exact_mod_cast hnormal
    have he' : (2 : ℚ) ^ 972 ≤ (2 : ℚ) ^ e := by
      rw [← zpow_natCast]
      exact zpow_le_zpow_right₀ (by norm_num) (by omega)
    calc (2 : ℚ) ^ 1024 = 2 ^ 52 * 2 ^ 972 := by rw [← pow_add]
      _ ≤ m * (2 : ℚ) ^ e := mul_le_mul hm' he' (by positivity) (by positivity)

/-! ## Rounding that drops zeros only -/

theorem log2_mul_two_pow {m : Nat} (h : 0 < m) (k : Nat) : (m * 2 ^ k).log2 = m.log2 + k := by
  induction k with
  | zero => rw [Nat.pow_zero, Nat.mul_one, Nat.add_zero]
  | succ k ih =>
    rw [Nat.pow_succ', Nat.mul_left_comm, Nat.log2_two_mul (Nat.mul_pos h (Nat.two_pow_pos k)).ne', ih, Nat.add_assoc]

theorem shiftRight_exact {m k : Nat} : (⟨m * 2 ^ k, false, false⟩ : ExtendedMantissa) >>> k = ⟨m, false, false⟩ := by
  induction k generalizing m with
  | zero =>
    rw [Nat.pow_zero, Nat.mul_one]
    rfl
  | succ k ih =>
    have hstep : (⟨m * 2 ^ (k + 1), false, false⟩ : ExtendedMantissa) >>> (k + 1) =
        ((⟨2 * m * 2 ^ k, false, false⟩ : ExtendedMantissa) >>> k).shiftRightOne := by
      rw [Nat.pow_succ', Nat.mul_left_comm, Nat.mul_assoc]
      rfl
    rw [hstep, ih]
    unfold ExtendedMantissa.shiftRightOne
    dsimp only
    rw [Nat.mul_div_cancel_left m Nat.two_pos, Nat.mul_mod_right]
    rfl

theorem Canonical.target {m : Nat} {e : Int} (C : Canonical m e) (hm : 0 < m) :
    Format.binary64.targetExponent (totalExponent m e) = e := by
  have hlog : m.log2 < 53 := (Nat.log2_lt hm.ne').2 C.lt
  have hmin := C.le_exp
  rw [targetExponent_eq]
  rcases C.normal with hnormal | hsub
  · have hfull := (Nat.le_log2 hm.ne').2 hnormal
    omega
  · omega

/-- **A mantissa that ends in as many zeros as it has bits too many is rounded to its head.** -/
theorem round_exact (s : Sign) {m : Nat} {e e' : Int} (k : Nat) (C : Canonical m e') (hm : 0 < m) (he : e + k = e') :
    roundWithAccuracy .binary64 s (m * 2 ^ k) e .exact = .finite s m e' hm := by
  subst he
  have ht := C.target hm
  have hlog := log2_mul_two_pow hm k
  have htotal : totalExponent (m * 2 ^ k) e = totalExponent m (e + k) := by
    unfold totalExponent
    rw [hlog]
    omega
  have hfirst : shiftToTargetExponent .binary64 (m * 2 ^ k) e .exact = (⟨m, false, false⟩, e + k) := by
    unfold shiftToTargetExponent shiftToExponent
    rw [htotal, ht]
    dsimp only
    rw [show (e + k - e).toNat = k by omega]
    exact congrArg (·, e + k) shiftRight_exact
  have hsecond : shiftToTargetExponent .binary64 m (e + k) .exact = (⟨m, false, false⟩, e + k) := by
    unfold shiftToTargetExponent shiftToExponent
    rw [ht]
    dsimp only
    rw [Int.sub_self]
    exact Prod.ext rfl (Int.add_zero _)
  have hrounded : (⟨m, false, false⟩ : ExtendedMantissa).roundedMantissa = m := rfl
  unfold roundWithAccuracy
  rw [hfirst]
  dsimp only
  rw [hrounded, hsecond]
  dsimp only
  rw [dif_neg hm.ne']

/-- **A mantissa below `2 ^ 53` has a canonical form**, reached by at most 52 zeros. -/
theorem exists_canonical {m : Nat} {e : Int} (hm : 0 < m) (hlt : m < 2 ^ 53) (he : -1074 ≤ e) :
    ∃ i : Nat, i ≤ 52 ∧ Canonical (m * 2 ^ i) (e - i) := by
  have hlog : m.log2 < 53 := (Nat.log2_lt hm.ne').2 hlt
  refine ⟨min (52 - m.log2) (e + 1074).toNat, by omega, ?_⟩
  apply Canonical.of_target (Nat.mul_pos hm (Nat.two_pow_pos _))
  rw [targetExponent_eq, log2_mul_two_pow hm]
  omega

theorem mul_two_pow_zpow (m i : Nat) (e : Int) : ((m * 2 ^ i : Nat) : ℚ) * (2 : ℚ) ^ (e - i) = m * (2 : ℚ) ^ e := by
  rw [Nat.cast_mul, Nat.cast_pow, Nat.cast_ofNat, mul_assoc, ← zpow_natCast, ← zpow_add₀ two_ne_zero,
    add_sub_cancel]

theorem cast_apply (s : Sign) (m : Nat) : ((s.apply m : Int) : ℚ) = (s.apply 1 : Int) * (m : ℚ) := by
  cases s with
  | negative => simp [Sign.apply]
  | positive => simp [Sign.apply]

/-- **A mantissa of at most 53 bits keeps its value**, or the number is too large for every code. -/
theorem value_pack_round (s : Sign) {m : Nat} {e : Int} {k : Nat} (hm : 0 < m) (hlt : m < 2 ^ 53) (he : -1074 ≤ e)
    (hk : 52 ≤ k) :
    value (.pack (roundWithAccuracy .binary64 s (m * 2 ^ k) (e - k) .exact)) = some ((s.apply m : Int) * (2 : ℚ) ^ e) ∨
      value (.pack (roundWithAccuracy .binary64 s (m * 2 ^ k) (e - k) .exact)) = none ∧
        (2 : ℚ) ^ 1024 ≤ m * (2 : ℚ) ^ e := by
  obtain ⟨i, hi, C⟩ := exists_canonical hm hlt he
  have hpos : 0 < m * 2 ^ i := Nat.mul_pos hm (Nat.two_pow_pos i)
  have hround := round_exact s (e := e - k) (k - i) C hpos (by omega)
  rw [Nat.mul_assoc, ← Nat.pow_add, Nat.add_sub_cancel' (by omega)] at hround
  rw [hround, ← mul_two_pow_zpow m i e, cast_apply, mul_assoc, ← mul_two_pow_zpow m i e, ← mul_assoc, ← cast_apply]
  by_cases hcode : e - i ≤ 971
  · left
    unfold value
    rw [unpack_pack C hcode]
    rfl
  · exact .inr (value_pack_overflow C (not_le.1 hcode))

/-! ## Integers -/

theorem round_ofNat (s : Sign) {n : Nat} (h0 : 0 < n) (hlt : n < 2 ^ 53) :
    ∃ (i : Nat) (hm : 0 < n * 2 ^ i), UnpackedFloat.round .binary64 s n 0 = .finite s (n * 2 ^ i) (-i) hm ∧ i ≤ 52 ∧
      2 ^ 52 ≤ n * 2 ^ i ∧ Canonical (n * 2 ^ i) (-i) := by
  have hlog : n.log2 < 53 := (Nat.log2_lt h0.ne').2 hlt
  have hpos : 0 < n * 2 ^ (52 - n.log2) := Nat.mul_pos h0 (Nat.two_pow_pos _)
  have C : Canonical (n * 2 ^ (52 - n.log2)) (-((52 - n.log2 : Nat) : Int)) := by
    apply Canonical.of_target hpos
    rw [targetExponent_eq, log2_mul_two_pow h0]
    omega
  refine ⟨52 - n.log2, hpos, ?_, by omega, C.normal.resolve_right (by omega), C⟩
  have hshift : (0 - Format.binary64.targetExponent (totalExponent n 0)).toNat = 52 - n.log2 := by
    rw [targetExponent_eq]
    omega
  have hexact := round_exact s 0 C hpos (Int.add_zero _)
  rw [Nat.pow_zero, Nat.mul_one] at hexact
  unfold UnpackedFloat.round decreaseExponent
  dsimp only
  rw [hshift, Nat.shiftLeft_eq, Int.zero_sub, hexact]

/-- **An integer below `2 ^ 53` becomes a double as it is.** -/
theorem unpack_ofInt {n : Int} (h0 : n ≠ 0) (hlt : n.natAbs < 2 ^ 53) :
    ∃ (s : Sign) (i : Nat) (hm : 0 < n.natAbs * 2 ^ i),
      (Float.Model.ofInt n).unpack = .finite s (n.natAbs * 2 ^ i) (-i) hm ∧ s.apply n.natAbs = n ∧ i ≤ 52 ∧
        2 ^ 52 ≤ n.natAbs * 2 ^ i := by
  have hpos : 0 < n.natAbs := Int.natAbs_pos.2 h0
  unfold Float.Model.ofInt UnpackedFloat.ofInt UnpackedFloat.normalize
  rcases Int.lt_or_gt_of_ne h0 with hneg | hgt
  · obtain ⟨i, hm, hround, hi, hnormal, C⟩ := round_ofNat .negative hpos hlt
    refine ⟨.negative, i, hm, ?_, ?_, hi, hnormal⟩
    · rw [compare_lt_iff_lt.2 hneg]
      dsimp only
      rw [show (-n).toNat = n.natAbs by omega, hround, unpack_pack C (by omega)]
    · unfold Sign.apply
      dsimp only
      omega
  · obtain ⟨i, hm, hround, hi, hnormal, C⟩ := round_ofNat .positive hpos hlt
    refine ⟨.positive, i, hm, ?_, ?_, hi, hnormal⟩
    · rw [compare_gt_iff_gt.2 hgt]
      dsimp only
      rw [show n.toNat = n.natAbs by omega, hround, unpack_pack C (by omega)]
    · unfold Sign.apply
      dsimp only
      omega

/-- A power of two has the least full mantissa. -/
theorem unpack_ofInt_two_pow {k : Nat} (hk : k ≤ 52) :
    (Float.Model.ofInt (2 ^ k)).unpack = .finite .positive (2 ^ 52) ((k : Int) - 52) (Nat.two_pow_pos 52) := by
  have hpow : 2 ^ k < 2 ^ 53 := Nat.pow_lt_pow_right (by decide) (Nat.lt_succ_of_le hk)
  have habs : ((2 : Int) ^ k).natAbs = 2 ^ k := by rw [Int.natAbs_pow]; rfl
  have h0 : (2 : Int) ^ k ≠ 0 := pow_ne_zero k two_ne_zero
  obtain ⟨s, i, hm, hunpack, hs, -, hnormal⟩ := unpack_ofInt h0 (by rw [habs]; exact hpow)
  have hlt := (canonical_of_unpack hunpack).1.lt
  simp only [habs, ← Nat.pow_add] at hunpack hs hnormal hlt
  have hi : k + i = 52 := by
    have hle := (Nat.pow_le_pow_iff_right (by decide)).1 hnormal
    have hge := (Nat.pow_lt_pow_iff_right (by decide)).1 hlt
    omega
  have hpos : s = .positive := by
    cases s with
    | negative =>
      unfold Sign.apply at hs
      push_cast at hs
      have h2 : (0 : Int) < 2 ^ k := by positivity
      omega
    | positive => rfl
  rw [hunpack, hpos]
  apply finite_congr
  · rw [hi]
  · omega

/-! ## Products and quotients with a power of two -/

theorem apply_mul_positive (s : Sign) : s * .positive = s := by cases s <;> rfl

theorem apply_div_positive (s : Sign) : s / .positive = s := by cases s <;> rfl

theorem abs_apply_mul (s : Sign) (m : Nat) (e : Int) : |((s.apply m : Int) : ℚ) * (2 : ℚ) ^ e| = m * (2 : ℚ) ^ e := by
  have hpow : |(2 : ℚ) ^ e| = 2 ^ e := abs_of_pos (zpow_pos two_pos e)
  rw [abs_mul, hpow]
  cases s with
  | negative => simp [Sign.apply]
  | positive => simp [Sign.apply]

/-- **A double times a power of two is exact**, or too large for every double. -/
theorem value_mul_two_pow {x : Float.Model} {a : ℚ} {k : Nat} (hk : k ≤ 52) (hx : value x = some a) :
    value (x * .ofInt (2 ^ k)) = some (a * 2 ^ k) ∨
      value (x * .ofInt (2 ^ k)) = none ∧ (2 : ℚ) ^ 1024 ≤ |a * 2 ^ k| := by
  have hmul : x * .ofInt (2 ^ k) = Float.Model.pack (UnpackedFloat.mul .binary64 x.unpack
      (Float.Model.ofInt (2 ^ k)).unpack) := rfl
  unfold value at hx
  rw [hmul, unpack_ofInt_two_pow hk]
  cases hunpack : x.unpack with
  | notANumber =>
    rw [hunpack] at hx
    cases hx
  | infinity s =>
    rw [hunpack] at hx
    cases hx
  | zero s =>
    rw [hunpack] at hx
    cases hx
    rw [zero_mul]
    exact .inl (value_pack_zero _)
  | finite s m e hm =>
    rw [hunpack] at hx
    cases hx
    obtain ⟨C, -⟩ := canonical_of_unpack hunpack
    have hmin := C.le_exp
    have hround := value_pack_round s (e := e + k) (k := 52) hm C.lt (by omega) (Nat.le_refl 52)
    have hexp : e + ((k : Int) - 52) = e + k - (52 : Nat) := by omega
    have hval : ((s.apply m : Int) : ℚ) * (2 : ℚ) ^ e * 2 ^ k = (s.apply m : Int) * (2 : ℚ) ^ (e + k) := by
      rw [mul_assoc, ← zpow_natCast, ← zpow_add₀ two_ne_zero]
    unfold UnpackedFloat.mul
    dsimp only
    rw [apply_mul_positive, hexp, hval, abs_apply_mul]
    exact hround

theorem divCore_two_pow {m : Nat} {e : Int} {k : Nat} (hlog : m.log2 = 52) (he : -1073 ≤ e - k) :
    divCore .binary64 m e (2 ^ 52) (k - 52) = (m * 2 ^ 1, e - k - 1, .exact) := by
  have hbits : Format.binary64.mantissaBits = 53 := rfl
  have hmin : Format.binary64.minExponent = -1074 := by decide
  have htarget : min (e - (k - 52)) (Format.binary64.targetExponent (totalExponent m e - totalExponent (2 ^ 52) (k - 52))) =
      e - k - 1 := by
    unfold Format.targetExponent totalExponent
    rw [hbits, hmin, hlog, Nat.log2_two_pow]
    omega
  have hshift : (e - (k - 52) - (e - k - 1)).toNat = 1 + 52 := by omega
  unfold divCore
  dsimp only
  rw [htarget, hshift, Nat.shiftLeft_eq, Nat.pow_add, ← Nat.mul_assoc, Nat.mul_div_cancel _ (Nat.two_pow_pos 52),
    Nat.mul_mod_left]
  rfl

/-- **An integer below `2 ^ 53`, divided by a power of two as doubles**, is their exact quotient. -/
theorem value_ofInt_div_two_pow {n : Int} {k : Nat} (hk : k ≤ 52) (hlt : n.natAbs < 2 ^ 53) :
    value (.ofInt n / .ofInt (2 ^ k)) = some ((n : ℚ) / 2 ^ k) := by
  have hdiv : Float.Model.ofInt n / .ofInt (2 ^ k) = Float.Model.pack (UnpackedFloat.div .binary64
      (Float.Model.ofInt n).unpack (Float.Model.ofInt (2 ^ k)).unpack) := rfl
  rw [hdiv, unpack_ofInt_two_pow hk]
  by_cases h0 : n = 0
  · subst h0
    have hzero : Float.Model.ofInt 0 = .pack (.zero .positive) := rfl
    rw [hzero, unpack_pack_zero, Int.cast_zero, zero_div]
    exact value_pack_zero _
  · obtain ⟨s, i, hm, hunpack, hs, hi, hnormal⟩ := unpack_ofInt h0 hlt
    obtain ⟨C, -⟩ := canonical_of_unpack hunpack
    have hlog : (n.natAbs * 2 ^ i).log2 = 52 := (Nat.log2_eq_iff hm.ne').2 ⟨hnormal, C.lt⟩
    have hround := round_exact s 1 (e := -i - k - 1) ⟨C.lt, by omega, .inl hnormal⟩ hm (Int.sub_add_cancel _ _)
    rw [hunpack]
    unfold UnpackedFloat.div
    dsimp only
    rw [divCore_two_pow hlog (by omega), apply_div_positive, hround]
    have hval : ((s.apply (n.natAbs * 2 ^ i : Nat) : Int) : ℚ) * (2 : ℚ) ^ (-i - k : Int) = n / 2 ^ k := by
      calc ((s.apply (n.natAbs * 2 ^ i : Nat) : Int) : ℚ) * (2 : ℚ) ^ (-i - k : Int)
          = (s.apply 1 : Int) * (((n.natAbs * 2 ^ i : Nat) : ℚ) * (2 : ℚ) ^ (-k - i : Int)) := by
            rw [cast_apply, mul_assoc, neg_sub_left, neg_sub_left, add_comm]
        _ = (s.apply 1 : Int) * (n.natAbs : ℚ) * (2 : ℚ) ^ (-k : Int) := by rw [mul_two_pow_zpow, mul_assoc]
        _ = n / 2 ^ k := by rw [← cast_apply, hs, zpow_neg, zpow_natCast, div_eq_mul_inv]
    unfold value
    rw [unpack_pack ⟨C.lt, by omega, .inl hnormal⟩ (by omega)]
    exact congrArg some hval

/-! ## Truncation -/

/-- A rational without what stands behind the point. -/
def truncate (q : ℚ) : Int := if 0 ≤ q then ⌊q⌋ else ⌈q⌉

theorem truncate_apply (s : Sign) (q : ℚ) (hq : 0 < q) : truncate ((s.apply 1 : Int) * q) = s.apply ⌊q⌋ := by
  cases s with
  | negative =>
    have hneg : ¬ 0 ≤ -q := by linarith
    have hcast : (((Sign.negative.apply 1 : Int)) : ℚ) * q = -q := by simp [Sign.apply]
    rw [hcast, truncate, if_neg hneg, Int.ceil_neg]
    rfl
  | positive =>
    have hcast : (((Sign.positive.apply 1 : Int)) : ℚ) * q = q := by simp [Sign.apply]
    rw [hcast, truncate, if_pos hq.le]
    rfl

theorem shiftRight_mantissa (em : ExtendedMantissa) (k : Nat) : (em >>> k).mantissa = em.mantissa / 2 ^ k := by
  induction k with
  | zero => exact (Nat.div_one _).symm
  | succ k ih =>
    have hstep : em >>> (k + 1) = (em >>> k).shiftRightOne := rfl
    rw [hstep, ExtendedMantissa.shiftRightOne, ih, Nat.div_div_eq_div_mul, Nat.pow_succ]

/-- **The shifts of a conversion compute the integer part.** -/
theorem roundToInt_eq (s : Sign) (m : Nat) (e : Int) : roundToInt s m e = s.apply ⌊(m : ℚ) * (2 : ℚ) ^ e⌋ := by
  have hfloor : ⌊(m : ℚ) * (2 : ℚ) ^ e⌋ = ((m <<< (e - 0).toNat / 2 ^ (0 - (e - (e - 0).toNat)).toNat : Nat) : Int) := by
    rw [Int.sub_zero, Nat.shiftLeft_eq]
    by_cases he : 0 ≤ e
    · obtain ⟨k, rfl⟩ := Int.eq_ofNat_of_zero_le he
      rw [Int.toNat_natCast, Int.sub_self, Int.sub_zero, Int.toNat_zero, Nat.pow_zero, Nat.div_one, zpow_natCast]
      exact_mod_cast Int.floor_natCast (m * 2 ^ k)
    · obtain ⟨k, hk⟩ := Int.eq_ofNat_of_zero_le (neg_nonneg.2 (not_le.1 he).le)
      obtain rfl : e = -k := by omega
      rw [Int.toNat_eq_zero.2 (by omega), Nat.pow_zero, Nat.mul_one, zpow_neg, zpow_natCast, ← div_eq_mul_inv]
      have hdiv := Rat.floor_natCast_div_natCast m (2 ^ k)
      rw [Nat.cast_pow, Nat.cast_ofNat] at hdiv
      rw [hdiv, show (0 - (-(k : Int) - (0 : Nat))).toNat = k by omega, Int.natCast_div]
  unfold roundToInt decreaseExponent shiftToExponent
  dsimp only
  rw [shiftRight_mantissa, hfloor]
  rfl

/-- **A conversion to an integer drops the fraction.** -/
theorem toInt_eq_truncate {x : Float.Model} {a : ℚ} (lo hi : Int) (hx : value x = some a) :
    x.unpack.toInt lo hi = truncate a := by
  unfold value at hx
  cases hunpack : x.unpack with
  | notANumber =>
    rw [hunpack] at hx
    cases hx
  | infinity s =>
    rw [hunpack] at hx
    cases hx
  | zero s =>
    rw [hunpack] at hx
    cases hx
    rw [truncate, if_pos (le_refl 0), Int.floor_zero]
    rfl
  | finite s m e hm =>
    rw [hunpack] at hx
    cases hx
    have hpos : 0 < (m : ℚ) * (2 : ℚ) ^ e := mul_pos (Nat.cast_pos.2 hm) (zpow_pos two_pos e)
    rw [cast_apply, mul_assoc, truncate_apply s _ hpos, ← roundToInt_eq]
    rfl

/-- **A truncation is less than one off**, on the side of zero. -/
theorem abs_truncate_sub_lt (q : ℚ) : |(truncate q : ℚ) - q| < 1 := by
  unfold truncate
  split
  · rw [abs_sub_lt_iff]
    constructor
    · linarith [Int.floor_le q]
    · linarith [Int.lt_floor_add_one q]
  · rw [abs_sub_lt_iff]
    constructor
    · linarith [Int.ceil_lt_add_one q]
    · linarith [Int.le_ceil q]

theorem truncate_mul_nonneg (q : ℚ) : 0 ≤ (truncate q : ℚ) * q := by
  unfold truncate
  split
  · rename_i hq
    exact mul_nonneg (Int.cast_nonneg (Int.floor_nonneg.2 hq)) hq
  · rename_i hq
    have hle : q ≤ 0 := (not_le.1 hq).le
    have hceil : ((⌈q⌉ : Int) : ℚ) ≤ 0 := by exact_mod_cast Int.ceil_le.2 (by simpa using hle)
    exact mul_nonneg_of_nonpos_of_nonpos hceil hle

theorem le_truncate_iff {lo : Int} (hlo : lo ≤ 0) (q : ℚ) : lo ≤ truncate q ↔ (lo : ℚ) - 1 < q := by
  unfold truncate
  split
  · rename_i hq
    have hcast : (lo : ℚ) ≤ 0 := by exact_mod_cast hlo
    exact ⟨fun _ => by linarith, fun _ => hlo.trans (Int.floor_nonneg.2 hq)⟩
  · exact Int.le_ceil_iff

theorem truncate_le_iff {hi : Int} (hhi : 0 ≤ hi) (q : ℚ) : truncate q ≤ hi ↔ q < (hi : ℚ) + 1 := by
  unfold truncate
  split
  · exact Int.floor_le_iff
  · rename_i hq
    have hcast : (0 : ℚ) ≤ hi := by exact_mod_cast hhi
    have hneg : q < 0 := not_le.1 hq
    exact ⟨fun _ => by linarith, fun _ => Int.ceil_le.2 (by linarith)⟩

/-- A double as a 32-bit integer, where its integer part is one. -/
def toInt32? (x : Float.Model) : Option Int32 :=
  if x.isFinite ∧ -2 ^ 31 ≤ x.unpack.toInt 0 0 ∧ x.unpack.toInt 0 0 < 2 ^ 31 then some (.ofInt (x.unpack.toInt 0 0))
  else none

/-- **A conversion that is defined gives the truncated value**, and is defined where that fits. -/
theorem toInt32?_eq_some_iff {x : Float.Model} {n : Int32} :
    toInt32? x = some n ↔ ∃ q, value x = some q ∧ n.toInt = truncate q := by
  have hlt := n.toInt_lt
  have hle := n.le_toInt
  unfold toInt32?
  constructor
  · intro h
    split at h
    · rename_i hfits
      obtain ⟨hfinite, hlo, hhi⟩ := hfits
      obtain ⟨q, hq⟩ := Option.isSome_iff_exists.1 ((isSome_value x).trans hfinite)
      cases h
      refine ⟨q, hq, ?_⟩
      rw [Int32.toInt_ofInt_of_le hlo hhi, toInt_eq_truncate 0 0 hq]
    · cases h
  · rintro ⟨q, hq, hn⟩
    have hfinite : x.isFinite = true := by rw [← isSome_value, hq]; rfl
    rw [toInt_eq_truncate 0 0 hq, ← hn, if_pos ⟨hfinite, hle, hlt⟩, Int32.ofInt_toInt]

end Binary64
