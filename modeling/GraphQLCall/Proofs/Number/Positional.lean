import GraphQLCall.Number.Layout
import GraphQLCall.Proofs.Number.Shortest
import Mathlib.Data.List.TakeWhile

/-!
# Number: positional texts read back

* `IsDigits`, `IsWhole`   digits, and digits in front of a point
* `Decimal.ofDigits`   the decimal that the digits of a number spell
* `Decimal.digits_eq`   the digits of a coefficient without the zeros at its end
* `Layout.positional_reads`   digits moved behind a point spell the decimal they are of
* `Layout.renderAbs_literal`   the literal of a finite number reads back
-/

namespace GraphQLCall.Number

def IsDigits (ds : List Char) : Prop := ds ≠ [] ∧ ∀ d ∈ ds, d.isDigit

/-- **The digits of a whole number:** no zero stands in front of others. -/
def IsWhole (ds : List Char) : Prop := IsDigits ds ∧ (ds.head? = some '0' → ds = ['0'])

namespace Decimal

/-- **The decimal that the digits on both sides of a point spell,** times a power of ten. -/
def ofDigits (whole fraction : List Char) (power : Int) : Decimal :=
  ⟨Nat.ofDigitChars 10 (whole ++ fraction) 0, power - fraction.length⟩

/-! ### the digits of a coefficient -/

theorem head?_toDigits {c : Nat} (hc : c ≠ 0) : (Nat.toDigits 10 c).head? ≠ some '0' := by
  induction c using Nat.strongRecOn with
  | ind c ih =>
    rw [Nat.toDigits_eq_if (by decide)]
    split
    · simpa using hc
    · rename_i hten
      have hdiv : c / 10 ≠ 0 := by omega
      rw [List.head?_append_of_ne_nil _ Nat.toDigits_ne_nil]
      exact ih _ (by omega) hdiv

theorem digits_eq (d : Decimal) :
    ∃ z, Nat.toDigits 10 d.coefficient = d.digits ++ List.replicate z '0' := by
  have hsplit := List.takeWhile_append_dropWhile (p := (· = '0'))
    (l := (Nat.toDigits 10 d.coefficient).reverse)
  have hzeros : (Nat.toDigits 10 d.coefficient).reverse.takeWhile (· = '0')
      = List.replicate ((Nat.toDigits 10 d.coefficient).reverse.takeWhile (· = '0')).length '0' := by
    rw [List.eq_replicate_iff]
    exact ⟨rfl, fun c hc => by simpa using List.mem_takeWhile_imp hc⟩
  refine ⟨((Nat.toDigits 10 d.coefficient).reverse.takeWhile (· = '0')).length, ?_⟩
  rw [hzeros] at hsplit
  have hrev := congrArg List.reverse hsplit
  rw [List.reverse_append, List.reverse_replicate, List.reverse_reverse] at hrev
  exact hrev.symm

theorem isDigits_toDigits (c : Nat) : IsDigits (Nat.toDigits 10 c) :=
  ⟨Nat.toDigits_ne_nil, fun _ hd => Nat.isDigit_of_mem_toDigits (by decide) (by decide) hd⟩

section
variable {d : Decimal} (hc : d.coefficient ≠ 0)
include hc

/-- **The digits of a coefficient** begin with one that is not zero, and spell it, but for a power of
ten. -/
theorem digits_spec : IsDigits d.digits ∧ d.digits.head? ≠ some '0' ∧
    ∃ z, d.coefficient = Nat.ofDigitChars 10 d.digits 0 * 10 ^ z ∧
      d.length = d.digits.length + z := by
  obtain ⟨z, hz⟩ := d.digits_eq
  have hvalue : d.coefficient = Nat.ofDigitChars 10 d.digits 0 * 10 ^ z := by
    have h := congrArg (Nat.ofDigitChars 10 · 0) hz
    simp only [Nat.ofDigitChars_ten_toDigits, Nat.ofDigitChars_append,
      Nat.ofDigitChars_replicate_zero] at h
    rw [h, mul_comm]
  have hne : d.digits ≠ [] := by
    intro hnil
    rw [hnil] at hvalue
    simp at hvalue
    exact hc hvalue
  refine ⟨⟨hne, fun c hmem => ?_⟩, ?_, z, hvalue, ?_⟩
  · exact (isDigits_toDigits d.coefficient).2 c (hz ▸ List.mem_append_left _ hmem)
  · have hhead := head?_toDigits hc
    rwa [hz, List.head?_append_of_ne_nil _ hne] at hhead
  · have hlen := congrArg List.length hz
    rw [List.length_append, List.length_replicate] at hlen
    exact hlen

end

theorem ofDigits_nearest (f : Format) {d : Decimal} (hc : d.coefficient ≠ 0)
    {whole fraction : List Char} {k : Nat}
    (hvalue : Nat.ofDigitChars 10 (whole ++ fraction) 0 = Nat.ofDigitChars 10 d.digits 0 * 10 ^ k)
    (hplace : (k : Int) - fraction.length = d.point - d.digits.length) :
    (ofDigits whole fraction 0).nearest f = d.nearest f := by
  obtain ⟨-, -, z, hcoeff, hlen⟩ := digits_spec hc
  have hplaces : (0 : Int) - fraction.length + k = d.exponent + z := by
    unfold point at hplace
    omega
  calc (ofDigits whole fraction 0).nearest f
      = nearest f ⟨Nat.ofDigitChars 10 d.digits 0 * 10 ^ k, 0 - fraction.length⟩ := by
        rw [ofDigits, hvalue]
    _ = nearest f ⟨Nat.ofDigitChars 10 d.digits 0 * 10 ^ z, d.exponent⟩ := by
        rw [nearest_shift, nearest_shift, hplaces]
    _ = d.nearest f := by rw [← hcoeff]

end Decimal

/-! ### positional texts -/

namespace Layout

theorem positional_reads (f : Format) {d : Decimal} (hc : d.coefficient ≠ 0) :
    ∃ whole fraction, positional d.digits d.point = whole ++ '.' :: fraction ∧ IsWhole whole ∧
      IsDigits fraction ∧ (Decimal.ofDigits whole fraction 0).nearest f = d.nearest f := by
  obtain ⟨⟨hne, hdigits⟩, hhead, -⟩ := Decimal.digits_spec hc
  have hzeros (n : Nat) : ∀ c ∈ List.replicate n '0', c.isDigit := by
    intro c hmem
    rw [List.eq_of_mem_replicate hmem]
    rfl
  unfold positional
  split
  · -- zeros in front of the digits
    rename_i hpoint
    refine ⟨['0'], List.replicate (-d.point).toNat '0' ++ d.digits, rfl, by simp [IsWhole, IsDigits],
      ⟨List.append_ne_nil_of_right_ne_nil _ hne, ?_⟩, ?_⟩
    · exact List.forall_mem_append.mpr ⟨hzeros _, hdigits⟩
    · refine Decimal.ofDigits_nearest f hc (k := 0) ?_ ?_
      · rw [List.singleton_append, ← List.cons_append, ← List.replicate_succ, Nat.ofDigitChars_append,
          Nat.ofDigitChars_replicate_zero, pow_zero, mul_one, mul_zero]
      · rw [List.length_append, List.length_replicate]
        omega
  · rename_i hpos
    split
    · -- a point among the digits
      rename_i hlt
      have htake : d.digits.take d.point.toNat ≠ [] := by
        intro hnil
        rcases List.take_eq_nil_iff.mp hnil with h | h
        · omega
        · exact hne h
      have hdrop : d.digits.drop d.point.toNat ≠ [] := by
        rw [Ne, List.drop_eq_nil_iff]
        omega
      refine ⟨d.digits.take d.point.toNat, d.digits.drop d.point.toNat, rfl, ⟨⟨htake, ?_⟩, ?_⟩,
        ⟨hdrop, ?_⟩, ?_⟩
      · exact fun c hmem => hdigits c (List.mem_of_mem_take hmem)
      · intro hfirst
        rw [List.head?_take, if_neg (by omega)] at hfirst
        exact absurd hfirst hhead
      · exact fun c hmem => hdigits c (List.mem_of_mem_drop hmem)
      · refine Decimal.ofDigits_nearest f hc (k := 0) ?_ ?_
        · rw [List.take_append_drop, pow_zero, mul_one]
        · rw [List.length_drop]
          omega
    · -- zeros behind the digits
      rename_i hge
      refine ⟨d.digits ++ List.replicate (d.point.toNat - d.digits.length) '0', ['0'], by simp,
        ⟨⟨List.append_ne_nil_of_left_ne_nil hne _, ?_⟩, ?_⟩, by simp [IsDigits], ?_⟩
      · exact List.forall_mem_append.mpr ⟨hdigits, hzeros _⟩
      · intro hfirst
        rw [List.head?_append_of_ne_nil _ hne] at hfirst
        exact absurd hfirst hhead
      · refine Decimal.ofDigits_nearest f hc (k := d.point.toNat - d.digits.length + 1) ?_ ?_
        · rw [List.append_assoc, ← List.replicate_succ', Nat.ofDigitChars_append,
            Nat.ofDigitChars_replicate_zero, mul_comm]
        · rw [List.length_singleton]
          omega

/-- **The literal of a finite number reads back.** -/
theorem renderAbs_literal {x : Double} (h : x.isFinite) :
    ∃ whole fraction, literal.renderAbs x = whole ++ '.' :: fraction ∧ IsWhole whole ∧
      IsDigits fraction ∧
      (Decimal.ofDigits whole fraction 0).nearest Format.double = x.magnitude := by
  rw [← x.shortest_nearest literal.tie h]
  unfold renderAbs
  dsimp only
  by_cases hc : (x.shortest literal.tie).coefficient = 0
  · rw [if_pos hc]
    refine ⟨['0'], ['0'], rfl, by simp [IsWhole, IsDigits], by simp [IsDigits], ?_⟩
    rw [Decimal.nearest, Decimal.nearest, if_pos hc]
    rfl
  · rw [if_neg hc]
    exact positional_reads Format.double hc

end Layout

end GraphQLCall.Number
