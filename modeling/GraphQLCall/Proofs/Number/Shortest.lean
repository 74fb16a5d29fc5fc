import GraphQLCall.Number.Decimal
import GraphQLCall.Proofs.Number.Rounding

/-!
# Number: the shortest decimal reads back

* `Decimal.nearest_shift`   zeros at the end of a coefficient may be taken into the power of ten
* `Binary.exactDecimal_nearest`   a number written out in full reads back
* `Binary.shortest_nearest`   the shortest decimal reads back
-/

namespace GraphQLCall.Number

namespace Decimal

/-! ### the power of ten -/

theorem length_toDigits_mul_pow {c : Nat} (hc : c ≠ 0) (k : Nat) :
    (Nat.toDigits 10 (c * 10 ^ k)).length = (Nat.toDigits 10 c).length + k := by
  induction k with
  | zero => rw [pow_zero, mul_one, Nat.add_zero]
  | succ k ih =>
    have hpos : 0 < c * 10 ^ k := Nat.pos_of_ne_zero (Nat.mul_ne_zero hc (by positivity))
    have happ := Nat.toDigits_append_toDigits (b := 10) (d := 0) (by decide) hpos (by decide)
    rw [Nat.pow_succ, ← mul_assoc, mul_comm, ← Nat.add_zero (10 * _), ← happ, List.length_append,
      ih]
    rfl

theorem quotient_eq (d : Decimal) :
    d.quotient = (d.coefficient * 10 ^ d.exponent.toNat, 10 ^ (-d.exponent).toNat) := by
  unfold quotient
  split
  · rename_i he
    have hneg : (-d.exponent).toNat = 0 := by omega
    rw [hneg]
    rfl
  · rename_i he
    have hpos : d.exponent.toNat = 0 := by omega
    rw [hpos, pow_zero, mul_one]
    rfl

/-- **Zeros at the end of a coefficient** may be taken into the power of ten. -/
theorem nearest_shift (f : Format) (c k : Nat) (e : Int) :
    nearest f ⟨c * 10 ^ k, e⟩ = nearest f ⟨c, e + k⟩ := by
  unfold nearest
  by_cases hc : c = 0
  · rw [hc, Nat.zero_mul]
    rfl
  have hpow : c * 10 ^ k ≠ 0 := Nat.mul_ne_zero hc (by positivity)
  have hlen : (length ⟨c * 10 ^ k, e⟩ : Int) + e = (length ⟨c, e + k⟩ : Int) + (e + k) := by
    have := length_toDigits_mul_pow hc k
    unfold length
    simp only
    omega
  simp only [hc, hpow, hlen, if_false]
  rw [quotient_eq, quotient_eq]
  have hexp : k + e.toNat + (-(e + k)).toNat = (e + k).toNat + (-e).toNat := by omega
  have hquot : c * 10 ^ k * 10 ^ e.toNat * 10 ^ (-(e + k)).toNat
      = c * 10 ^ (e + k).toNat * 10 ^ (-e).toNat := by
    rw [mul_assoc, mul_assoc, mul_assoc, ← pow_add, ← pow_add, ← pow_add, ← Nat.add_assoc, hexp]
  rw [f.nearest_congr (by positivity) (by positivity) hquot]

end Decimal

/-! ### a number written out in full -/

namespace Binary

variable (x : Double)

theorem significand_lt : x.significand < 2 ^ 53 := by
  have hmod := Nat.mod_lt x.magnitude (y := 2 ^ 52) (by positivity)
  have hdef : x.significand = if x.magnitude / 2 ^ 52 = 0 then x.magnitude
      else x.magnitude % 2 ^ 52 + 2 ^ 52 := rfl
  rw [hdef]
  by_cases hzero : x.magnitude / 2 ^ 52 = 0
  · rw [if_pos hzero]
    rw [Nat.div_eq_zero_iff] at hzero
    omega
  · rw [if_neg hzero]
    omega

theorem unit_bounds (h : x.isFinite) : -1074 ≤ x.unit ∧ x.unit ≤ 971 := by
  have hlt : x.magnitude < 2047 * 2 ^ 52 := of_decide_eq_true h
  have hdiv : x.magnitude / 2 ^ 52 < 2047 := Nat.div_lt_of_lt_mul (by omega)
  have hleast : Format.double.leastUnit = -1074 := by decide
  unfold unit
  rw [hleast]
  simp only [Nat.pow_eq, Format.double]
  omega

theorem exactDecimal_eq : x.exactDecimal
    = ⟨x.significand * 2 ^ x.unit.toNat * 5 ^ (-x.unit).toNat, -((-x.unit).toNat : Int)⟩ := by
  unfold exactDecimal
  split
  · rename_i hu
    have hneg : (-x.unit).toNat = 0 := by omega
    rw [hneg, pow_zero, mul_one]
    rfl
  · rename_i hu
    have hpos : x.unit.toNat = 0 := by omega
    have hexp : -((-x.unit).toNat : Int) = x.unit := by omega
    rw [hpos, pow_zero, mul_one, hexp]
    rfl

theorem two_pow_le_ten_pow {k n : Nat} (h : k ≤ 3 * n) : 2 ^ k ≤ 10 ^ n :=
  calc 2 ^ k ≤ 2 ^ (3 * n) := Nat.pow_le_pow_right (by decide) h
    _ = 8 ^ n := pow_mul 2 3 n
    _ ≤ 10 ^ n := Nat.pow_le_pow_left (by decide) n

theorem exactDecimal_length (h : x.isFinite) (hs : x.significand ≠ 0) :
    -400 ≤ (x.exactDecimal.length : Int) + x.exactDecimal.exponent ∧
      (x.exactDecimal.length : Int) + x.exactDecimal.exponent ≤ 400 := by
  obtain ⟨hleast, hgreatest⟩ := x.unit_bounds h
  have hsig := x.significand_lt
  rw [exactDecimal_eq]
  unfold Decimal.length
  simp only
  generalize x.significand = s at hs hsig
  generalize hk : (-x.unit).toNat = k
  generalize hu : x.unit.toNat = u
  have hlength (n : Nat) (hn : 0 < n) := Nat.length_toDigits_le_iff
    (n := s * 2 ^ u * 5 ^ k) (b := 10) (k := n) (by decide) hn
  constructor
  · -- the coefficient is at least 5 ^ k, which is 10 ^ k but for a factor of 401 digits
    by_contra hlt
    have hpos := Nat.length_toDigits_pos (b := 10) (n := s * 2 ^ u * 5 ^ k)
    have hval := (hlength (k - 401) (by omega)).mp (by omega)
    have hfive : 5 ^ k ≤ s * 2 ^ u * 5 ^ k :=
      Nat.le_mul_of_pos_left _ (Nat.mul_pos (Nat.pos_of_ne_zero hs) (by positivity))
    have htwo : 2 ^ k ≤ 10 ^ 401 := two_pow_le_ten_pow (by omega)
    have hten : 10 ^ (k - 401) * 10 ^ 401 ≤ 5 ^ k * 10 ^ 401 :=
      calc 10 ^ (k - 401) * 10 ^ 401 = 10 ^ k := by
            rw [← pow_add, Nat.sub_add_cancel (by omega)]
        _ = 5 ^ k * 2 ^ k := mul_pow 5 2 k
        _ ≤ 5 ^ k * 10 ^ 401 := Nat.mul_le_mul_left _ htwo
    have := Nat.le_of_mul_le_mul_right hten (by positivity)
    omega
  · have htwo : s * 2 ^ u < 10 ^ 400 :=
      calc s * 2 ^ u < 2 ^ 53 * 2 ^ u := Nat.mul_lt_mul_of_pos_right hsig (by positivity)
        _ = 2 ^ (53 + u) := (pow_add 2 53 u).symm
        _ ≤ 10 ^ 400 := two_pow_le_ten_pow (by omega)
    have hval : s * 2 ^ u * 5 ^ k < 10 ^ (400 + k) :=
      calc s * 2 ^ u * 5 ^ k < 10 ^ 400 * 5 ^ k :=
            Nat.mul_lt_mul_of_pos_right htwo (by positivity)
        _ ≤ 10 ^ 400 * 10 ^ k := Nat.mul_le_mul_left _ (Nat.pow_le_pow_left (by decide) k)
        _ = 10 ^ (400 + k) := (pow_add 10 400 k).symm
    have := (hlength (400 + k) (by omega)).mpr hval
    omega

/-- **A number written out in full reads back.** -/
theorem exactDecimal_nearest (h : x.isFinite) :
    x.exactDecimal.nearest Format.double = x.magnitude := by
  have hcoeff : x.exactDecimal.coefficient = x.significand * 2 ^ x.unit.toNat * 5 ^ (-x.unit).toNat := by
    rw [exactDecimal_eq]
  by_cases hs : x.significand = 0
  · rw [Decimal.nearest, if_pos, x.magnitude_of_significand_zero hs]
    rw [hcoeff, hs, Nat.zero_mul, Nat.zero_mul]
  obtain ⟨hlow, hhigh⟩ := x.exactDecimal_length h hs
  have hne : x.exactDecimal.coefficient ≠ 0 := by
    rw [hcoeff]
    exact Nat.mul_ne_zero (Nat.mul_ne_zero hs (by positivity)) (by positivity)
  rw [Decimal.nearest, if_neg hne, if_neg (by omega), if_neg (by omega), ← x.nearest_quotient h,
    Decimal.quotient_eq, quotient_eq, exactDecimal_eq]
  refine Format.nearest_congr _ (by positivity) (by positivity) ?_
  simp only
  generalize hk : (-x.unit).toNat = k
  have hzero : (-(k : Int)).toNat = 0 := by omega
  have hself : (- -(k : Int)).toNat = k := by omega
  have hten : (5 * 2) ^ k = 5 ^ k * 2 ^ k := mul_pow 5 2 k
  rw [hzero, hself, pow_zero, mul_one, mul_assoc, ← hten]

/-! ### the shortest decimal -/

theorem nearest_of_choice {f : Format} {near far d : Decimal} {m : Nat}
    (h : (if near.nearest f = m then some near
      else if far.nearest f = m then some far else none) = some d) : d.nearest f = m := by
  split at h
  · rename_i hnear
    cases h
    exact hnear
  · split at h
    · rename_i hfar
      cases h
      exact hfar
    · cases h

theorem neighbour?_nearest {f : Format} {tie : Tie} {x : Binary f} {place : Int} {d : Decimal}
    (h : neighbour? tie x place = some d) : d.nearest f = x.magnitude :=
  nearest_of_choice h

theorem firstNeighbour?_nearest {f : Format} {tie : Tie} {x : Binary f} {point : Int}
    {count digits : Nat} {d : Decimal} (h : firstNeighbour? tie x point count digits = some d) :
    d.nearest f = x.magnitude := by
  induction count generalizing digits with
  | zero => cases h
  | succ count ih =>
    rw [firstNeighbour?] at h
    split at h
    · rename_i hneighbour
      cases h
      exact neighbour?_nearest hneighbour
    · exact ih h

/-- **The shortest decimal reads back.** -/
theorem shortest_nearest (tie : Tie) (h : x.isFinite) :
    (x.shortest tie).nearest Format.double = x.magnitude := by
  unfold shortest
  split
  · rename_i hs
    rw [x.magnitude_of_significand_zero hs]
    rfl
  · split
    · exact firstNeighbour?_nearest ‹_›
    · exact x.exactDecimal_nearest h

end Binary

end GraphQLCall.Number
