import GraphQLCall.Number.Binary
import Mathlib.Algebra.Order.Field.Power
import Mathlib.Data.Int.Log
import Mathlib.Data.Rat.Floor
import Mathlib.Tactic.Linarith
import Mathlib.Tactic.Positivity

/-!
# Number: rounding to the nearest magnitude

The magnitude nearest to a quotient depends on the quotient alone, not on the numbers that spell it,
and a number that has a magnitude is the nearest one to itself.

* `leadingBit_eq`   the leading bit of a quotient is its binary logarithm
* `Format.nearest_congr`   equal quotients have the same nearest magnitude
* `Binary.nearest_quotient`   a finite number is nearest to its absolute value
* `nearest_lt_infinity`   an integer of 64 bits is near to a finite number
-/

namespace GraphQLCall.Number

/-! ### the leading bit -/

theorem zpow_le_div_iff {k : Int} {num den : Nat} (hd : 0 < den) :
    (2 : ℚ) ^ k ≤ (num : ℚ) / den ↔
      ¬ (if 0 ≤ k then num < den * Nat.pow 2 k.toNat else num * Nat.pow 2 (-k).toNat < den) := by
  have hd' : (0 : ℚ) < den := Nat.cast_pos.mpr hd
  rw [le_div_iff₀ hd']
  split
  · rename_i hk
    lift k to ℕ using hk
    rw [zpow_natCast, Int.toNat_natCast, not_lt, Nat.pow_eq, mul_comm]
    norm_cast
  · rename_i hk
    obtain ⟨n, rfl⟩ : ∃ n : ℕ, k = -(n : Int) := ⟨(-k).toNat, by omega⟩
    have hpow : (0 : ℚ) < 2 ^ n := by positivity
    rw [zpow_neg, zpow_natCast, neg_neg, Int.toNat_natCast, not_lt, Nat.pow_eq,
      inv_mul_le_iff₀ hpow, mul_comm]
    norm_cast

theorem zpow_le_div_of_log2 {num den : Nat} (hn : num ≠ 0) (hd : 0 < den) :
    (2 : ℚ) ^ ((num.log2 : Int) - den.log2 - 1) ≤ (num : ℚ) / den := by
  have hd' : (0 : ℚ) < den := Nat.cast_pos.mpr hd
  have hden : (den : ℚ) ≤ 2 ^ (den.log2 + 1) := by exact_mod_cast Nat.lt_log2_self.le
  have hnum : (2 : ℚ) ^ num.log2 ≤ num := by exact_mod_cast Nat.log2_self_le hn
  rw [le_div_iff₀ hd']
  calc (2 : ℚ) ^ ((num.log2 : Int) - den.log2 - 1) * den
      ≤ 2 ^ ((num.log2 : Int) - den.log2 - 1) * 2 ^ (den.log2 + 1) := by gcongr
    _ = 2 ^ (((num.log2 : Int) - den.log2 - 1) + ((den.log2 + 1 : ℕ) : Int)) := by
        rw [zpow_add₀ two_ne_zero, zpow_natCast]
    _ = 2 ^ num.log2 := by
        rw [← zpow_natCast]
        congr 1
        omega
    _ ≤ num := hnum

theorem div_lt_zpow_of_log2 {num den : Nat} (hd : 0 < den) :
    (num : ℚ) / den < 2 ^ ((num.log2 : Int) - den.log2 + 1) := by
  have hd' : (0 : ℚ) < den := Nat.cast_pos.mpr hd
  have hden : (2 : ℚ) ^ den.log2 ≤ den := by exact_mod_cast Nat.log2_self_le hd.ne'
  have hnum : (num : ℚ) < 2 ^ (num.log2 + 1) := by exact_mod_cast Nat.lt_log2_self
  rw [div_lt_iff₀ hd']
  calc (num : ℚ) < 2 ^ (num.log2 + 1) := hnum
    _ = 2 ^ (((num.log2 : Int) - den.log2 + 1) + (den.log2 : Int)) := by
        rw [← zpow_natCast]
        congr 1
        omega
    _ = 2 ^ ((num.log2 : Int) - den.log2 + 1) * 2 ^ den.log2 := by
        rw [zpow_add₀ two_ne_zero, zpow_natCast]
    _ ≤ 2 ^ ((num.log2 : Int) - den.log2 + 1) * den := by gcongr

/-- **The leading bit of a quotient** is its binary logarithm. -/
theorem leadingBit_eq {num den : Nat} (hn : num ≠ 0) (hd : 0 < den) :
    leadingBit num den = Int.log 2 ((num : ℚ) / den) := by
  have hpos : (0 : ℚ) < (num : ℚ) / den :=
    div_pos (Nat.cast_pos.mpr (Nat.pos_of_ne_zero hn)) (Nat.cast_pos.mpr hd)
  have hlog (k : Int) : (2 : ℚ) ^ k ≤ (num : ℚ) / den ↔ k ≤ Int.log 2 ((num : ℚ) / den) := by
    have h := Int.zpow_le_iff_le_log (x := k) Nat.one_lt_two hpos
    rwa [Nat.cast_ofNat] at h
  have hlow := (hlog _).mp (zpow_le_div_of_log2 hn hd)
  have hhigh := (hlog _).not.mp (div_lt_zpow_of_log2 hd).not_ge
  have hmid := hlog ((num.log2 : Int) - den.log2)
  rw [zpow_le_div_iff hd] at hmid
  unfold leadingBit
  -- the estimate from the two logarithms is the one sought, or one too great
  by_cases hbelow : if 0 ≤ (num.log2 : Int) - den.log2
      then num < den * Nat.pow 2 ((num.log2 : Int) - den.log2).toNat
      else num * Nat.pow 2 (-((num.log2 : Int) - den.log2)).toNat < den
  · have := mt hmid.mpr (not_not.mpr hbelow)
    simp only [hbelow, if_true]
    omega
  · have := hmid.mp hbelow
    simp only [hbelow, if_false]
    omega

/-! ### equal quotients -/

theorem roundQuotient_mul_right {k : Nat} (hk : 0 < k) (num den : Nat) :
    roundQuotient (num * k) (den * k) = roundQuotient num den := by
  have hless : 2 * (num % den * k) < den * k ↔ 2 * (num % den) < den := by
    rw [← mul_assoc]
    exact Nat.mul_lt_mul_right hk
  have hmore : den * k < 2 * (num % den * k) ↔ den < 2 * (num % den) := by
    rw [← mul_assoc]
    exact Nat.mul_lt_mul_right hk
  unfold roundQuotient
  rw [Nat.mul_div_mul_right _ _ hk, Nat.mul_mod_mul_right]
  simp only [hless, hmore]

theorem roundQuotient_mul_self {den : Nat} (hd : 0 < den) (q : Nat) :
    roundQuotient (q * den) den = q := by
  unfold roundQuotient
  rw [Nat.mul_div_cancel _ hd, Nat.mul_mod_left, if_pos (by omega)]

theorem roundQuotient_le {num den bound : Nat} (h : num < den * bound) :
    roundQuotient num den ≤ bound := by
  have hquot : num / den < bound := Nat.div_lt_of_lt_mul h
  unfold roundQuotient
  dsimp only
  split
  · exact hquot.le
  split
  · exact hquot
  · have := Nat.mod_lt (num / den) Nat.two_pos
    omega

namespace Format

variable (f : Format)

theorem nearest_mul_right {num den k : Nat} (hd : 0 < den) (hk : 0 < k) :
    f.nearest (num * k) (den * k) = f.nearest num den := by
  by_cases hn : num = 0
  · rw [hn, Nat.zero_mul]
    rfl
  have hlead : leadingBit (num * k) (den * k) = leadingBit num den := by
    have hk' : (k : ℚ) ≠ 0 := Nat.cast_ne_zero.mpr hk.ne'
    rw [leadingBit_eq (Nat.mul_ne_zero hn hk.ne') (Nat.mul_pos hd hk), leadingBit_eq hn hd,
      Nat.cast_mul, Nat.cast_mul, mul_div_mul_right _ _ hk']
  unfold nearest
  rw [if_neg hn, if_neg (Nat.mul_ne_zero hn hk.ne'), hlead]
  simp only [mul_right_comm _ k, roundQuotient_mul_right hk]

/-- **Equal quotients have the same nearest magnitude.** -/
theorem nearest_congr {num den num' den' : Nat} (hd : 0 < den) (hd' : 0 < den')
    (h : num * den' = num' * den) : f.nearest num den = f.nearest num' den' :=
  calc f.nearest num den = f.nearest (num * den') (den * den') :=
        (f.nearest_mul_right hd hd').symm
    _ = f.nearest (num' * den) (den' * den) := by rw [h, mul_comm den]
    _ = f.nearest num' den' := f.nearest_mul_right hd' hd

/-! ### numbers that have a magnitude -/

theorem leadingBit_mul_zpow {s : Nat} (hs : s ≠ 0) (u : Int) :
    leadingBit (s * 2 ^ u.toNat) (2 ^ (-u).toNat) = s.log2 + u := by
  have hquot : ((s * 2 ^ u.toNat : ℕ) : ℚ) / ((2 ^ (-u).toNat : ℕ) : ℚ) = s * 2 ^ u := by
    have hu : u = (u.toNat : Int) - ((-u).toNat : Int) := by omega
    rw [hu, zpow_sub₀ two_ne_zero, zpow_natCast, zpow_natCast, ← hu]
    push_cast
    ring
  have hpos : (0 : ℚ) < s * 2 ^ u := by positivity
  have hlow : (2 : ℚ) ^ (s.log2 + u) ≤ s * 2 ^ u := by
    rw [zpow_add₀ two_ne_zero, zpow_natCast]
    gcongr
    exact_mod_cast Nat.log2_self_le hs
  have hhigh : (s * 2 ^ u : ℚ) < 2 ^ (s.log2 + u + 1) := by
    rw [add_right_comm, zpow_add₀ two_ne_zero, ← Nat.cast_succ, zpow_natCast]
    gcongr
    exact_mod_cast Nat.lt_log2_self
  rw [leadingBit_eq (Nat.mul_ne_zero hs (by positivity)) (by positivity), hquot]
  have h1 := Int.zpow_le_iff_le_log (x := s.log2 + u) Nat.one_lt_two hpos
  have h2 := Int.lt_zpow_iff_log_lt (x := s.log2 + u + 1) Nat.one_lt_two hpos
  rw [Nat.cast_ofNat] at h1 h2
  have := h1.mp hlow
  have := h2.mp hhigh
  omega

theorem nearest_mul_zpow {s : Nat} (hs : s ≠ 0) {u : Int}
    (hu : max (s.log2 + u - f.fractionBits) f.leastUnit = u) :
    f.nearest (s * 2 ^ u.toNat) (2 ^ (-u).toNat)
      = min ((u - f.leastUnit).toNat * 2 ^ f.fractionBits + s) f.infinity := by
  unfold nearest
  rw [if_neg (Nat.mul_ne_zero hs (by positivity)), leadingBit_mul_zpow hs, hu]
  simp only [Nat.pow_eq]
  split
  · rename_i hu
    have hneg : (-u).toNat = 0 := by omega
    rw [hneg, pow_zero, one_mul, roundQuotient_mul_self (by positivity)]
  · rename_i hu
    have hpos : u.toNat = 0 := by omega
    rw [hpos, pow_zero, mul_one, roundQuotient_mul_self (by positivity)]

end Format

namespace Binary

variable {f : Format} (x : Binary f)

theorem quotient_eq : x.quotient = (x.significand * 2 ^ x.unit.toNat, 2 ^ (-x.unit).toNat) := by
  unfold quotient
  split
  · rename_i hu
    have hneg : (-x.unit).toNat = 0 := by omega
    rw [hneg]
    rfl
  · rename_i hu
    have hpos : x.unit.toNat = 0 := by omega
    rw [hpos, pow_zero, mul_one]
    rfl

theorem magnitude_of_significand_zero (h : x.significand = 0) : x.magnitude = 0 := by
  unfold significand at h
  have hpow : 0 < Nat.pow 2 f.fractionBits := Nat.pow_pos Nat.two_pos
  split at h
  · exact h
  · omega

theorem magnitude_eq :
    (x.unit - f.leastUnit).toNat * 2 ^ f.fractionBits + x.significand = x.magnitude := by
  have hunit : (x.unit - f.leastUnit).toNat = x.magnitude / 2 ^ f.fractionBits - 1 := by
    unfold unit
    simp only [Nat.pow_eq]
    omega
  have hdiv := Nat.div_add_mod' x.magnitude (2 ^ f.fractionBits)
  rw [hunit]
  unfold significand
  simp only [Nat.pow_eq]
  split
  · rename_i hzero
    rw [hzero]
    omega
  · rename_i hpos
    obtain ⟨e, he⟩ := Nat.exists_eq_succ_of_ne_zero hpos
    rw [he] at hdiv ⊢
    rw [Nat.succ_mul] at hdiv
    simp only [Nat.succ_sub_one]
    omega

theorem unit_of_significand (h : x.significand ≠ 0) :
    max (x.significand.log2 + x.unit - f.fractionBits) f.leastUnit = x.unit := by
  have hmod := Nat.mod_lt x.magnitude (y := 2 ^ f.fractionBits) (by positivity)
  unfold significand unit at *
  simp only [Nat.pow_eq] at *
  split
  · rename_i hzero
    rw [if_pos hzero] at h
    have hlt : x.magnitude < 2 ^ f.fractionBits := by
      rw [Nat.div_eq_zero_iff] at hzero
      omega
    have := (Nat.log2_lt h).mpr hlt
    rw [hzero]
    omega
  · rename_i hpos
    rw [if_neg hpos] at h
    have hlow : 2 ^ f.fractionBits ≤ x.magnitude % 2 ^ f.fractionBits + 2 ^ f.fractionBits :=
      Nat.le_add_left _ _
    have hhigh : x.magnitude % 2 ^ f.fractionBits + 2 ^ f.fractionBits < 2 ^ (f.fractionBits + 1) := by
      rw [Nat.pow_succ]
      omega
    have := (Nat.le_log2 h).mpr hlow
    have := (Nat.log2_lt h).mpr hhigh
    omega

/-- **A finite number is nearest to its absolute value.** -/
theorem nearest_quotient (h : x.isFinite) :
    f.nearest x.quotient.1 x.quotient.2 = x.magnitude := by
  rw [quotient_eq]
  by_cases hs : x.significand = 0
  · rw [hs, Nat.zero_mul, x.magnitude_of_significand_zero hs]
    rfl
  · rw [f.nearest_mul_zpow hs (x.unit_of_significand hs), magnitude_eq]
    exact Nat.min_eq_left (of_decide_eq_true h).le

end Binary

/-! ### integers -/

/-- **An integer of 64 bits** is near to a finite number. -/
theorem nearest_lt_infinity {n : Nat} (h : n < 2 ^ 64) :
    Format.double.nearest n 1 < Format.double.infinity := by
  by_cases hn : n = 0
  · rw [hn]
    decide
  have hlog : n.log2 < 64 := (Nat.log2_lt hn).mpr h
  have hlead : leadingBit n 1 = n.log2 := by simpa using Format.leadingBit_mul_zpow hn 0
  have hself : n < 2 ^ (n.log2 + 1) := Nat.lt_log2_self
  have hleast : Format.double.leastUnit = -1074 := by decide
  have hbits : Format.double.fractionBits = 52 := rfl
  have hunit : max (leadingBit n 1 - (Format.double.fractionBits : Nat)) Format.double.leastUnit
      = (n.log2 : Int) - 52 := by
    rw [hlead, hleast, hbits]
    omega
  -- at most as many units as fill the places of a fraction, and one more
  have hcount : (if 0 ≤ (n.log2 : Int) - 52
      then roundQuotient n (1 * Nat.pow 2 ((n.log2 : Int) - 52).toNat)
      else roundQuotient (n * Nat.pow 2 (-((n.log2 : Int) - 52)).toNat) 1) ≤ 2 ^ 53 := by
    split
    · rename_i hu
      refine roundQuotient_le (hself.trans_eq ?_)
      rw [Nat.one_mul, Nat.pow_eq, ← Nat.pow_add]
      congr 1
      omega
    · rename_i hu
      refine roundQuotient_le ?_
      calc n * Nat.pow 2 (-((n.log2 : Int) - 52)).toNat
          < 2 ^ (n.log2 + 1) * Nat.pow 2 (-((n.log2 : Int) - 52)).toNat := by gcongr; simp
        _ = 1 * 2 ^ 53 := by
            rw [Nat.one_mul, Nat.pow_eq, ← Nat.pow_add]
            congr 1
            omega
  have hplaces : ((n.log2 : Int) - 52 - Format.double.leastUnit).toNat ≤ 1085 := by
    rw [hleast]
    omega
  unfold Format.nearest
  dsimp only
  rw [if_neg hn, hunit]
  refine (Nat.min_le_left _ _).trans_lt ?_
  calc ((n.log2 : Int) - 52 - Format.double.leastUnit).toNat * Nat.pow 2 Format.double.fractionBits + _
      ≤ 1085 * Nat.pow 2 Format.double.fractionBits + 2 ^ 53 :=
        Nat.add_le_add (Nat.mul_le_mul_right _ hplaces) hcount
    _ < Format.double.infinity := by decide

end GraphQLCall.Number
