import PocketLisp.Binary64.Decimal
import Mathlib.Algebra.Group.Nat.Defs

/-!
Reading decimals. A decimal stands for an exact fraction of units, and reading it rounds that
fraction, whatever the size of the decimal. So a decimal may be shifted without a change of what it
reads as, and the decimal chosen to write a number reads back as that number.
-/
namespace PocketLisp.Binary64

theorem roundDiv_mul_right (a b : Nat) {k : Nat} (hk : 0 < k) :
    roundDiv (a * k) (b * k) = roundDiv a b := by
  have lower : 2 * (a % b * k) < b * k ↔ 2 * (a % b) < b := by
    rw [← Nat.mul_assoc]
    exact Nat.mul_lt_mul_right hk
  have upper : b * k < 2 * (a % b * k) ↔ b < 2 * (a % b) := by
    rw [← Nat.mul_assoc]
    exact Nat.mul_lt_mul_right hk
  simp only [roundDiv, Nat.mul_div_mul_right _ _ hk, Nat.mul_mod_mul_right, lower, upper]

theorem nearest_eq (num den : Nat) : nearest num den =
    ((num / den).log2 - 52) * run + roundDiv num (den * 2 ^ ((num / den).log2 - 52)) := rfl

theorem units_eq (code : Nat) :
    units code = (code - spacing code * run) * 2 ^ spacing code := rfl

theorem nearest_mul_right (num den : Nat) {k : Nat} (hk : 0 < k) :
    nearest (num * k) (den * k) = nearest num den := by
  simp only [nearest_eq, Nat.mul_div_mul_right _ _ hk, Nat.mul_right_comm den k,
    roundDiv_mul_right _ _ hk]

theorem round_eq_of_cross (negative : Bool) {a b c d : Nat} (hb : 0 < b) (hd : 0 < d)
    (h : a * d = c * b) : round negative a b = round negative c d := by
  have hn : nearest a b = nearest c d := by
    calc nearest a b = nearest (a * d) (b * d) := (nearest_mul_right a b hd).symm
      _ = nearest (c * b) (d * b) := by rw [h, Nat.mul_comm b d]
      _ = nearest c d := nearest_mul_right c d hb
  simp only [round, hn]

theorem log2_mul_two_pow {n : Nat} (hn : n ≠ 0) (k : Nat) : (n * 2 ^ k).log2 = n.log2 + k := by
  induction k with
  | zero => simp
  | succ k ih =>
    have hk : n * 2 ^ k ≠ 0 := Nat.mul_ne_zero hn (Nat.pos_iff_ne_zero.mp (Nat.two_pow_pos k))
    rw [Nat.pow_succ, ← Nat.mul_assoc, Nat.mul_comm _ 2, Nat.log2_two_mul hk, ih, Nat.add_assoc]

/-- A code in the `q`-th run is what `q - 1` runs leave of it, a number of 53 bits. -/
theorem nearest_units (code : Nat) : nearest (units code) 1 = code := by
  by_cases h : code < 2 * run
  · have hlog : code.log2 - 52 = 0 := by
      by_cases h0 : code = 0
      · simp [h0]
      · have := (Nat.log2_lt h0).mpr (show code < 2 ^ 53 from h)
        omega
    simp only [nearest_eq, units_eq_self h, Nat.div_one, hlog, Nat.zero_mul, Nat.zero_add,
      Nat.pow_zero, Nat.mul_one]
    simpa using roundDiv_self code Nat.one_pos
  · have hrun : run = 2 ^ 52 := rfl
    have hdiv := Nat.div_add_mod code run
    have hmod : code % run < run := Nat.mod_lt _ (by decide)
    have hq : 2 ≤ code / run := by
      rw [Nat.le_div_iff_mul_le (by decide), hrun]
      omega
    have hrest : code - spacing code * run = run + code % run := by
      have : code / run * run = spacing code * run + run := by
        rw [← Nat.succ_mul]
        congr 1
        simp only [spacing]
        omega
      rw [Nat.mul_comm] at hdiv
      omega
    have hlog : (run + code % run).log2 = 52 :=
      (Nat.log2_eq_iff (by omega)).mpr ⟨by omega, by omega⟩
    have hs : (units code / 1).log2 - 52 = spacing code := by
      rw [Nat.div_one, units_eq, hrest, log2_mul_two_pow (by omega), hlog]
      omega
    rw [nearest_eq, hs, units_eq, Nat.one_mul, roundDiv_self _ (Nat.two_pow_pos _), hrest]
    omega

theorem round_units (negative : Bool) (code : Fin overflow) :
    round negative (units code) 1 = .finite negative code := by
  simp [round, nearest_units]

theorem round_of_round_false {num den : Nat} {code : Fin overflow}
    (h : round false num den = .finite false code) (negative : Bool) :
    round negative num den = .finite negative code := by
  unfold round at h ⊢
  dsimp only at h ⊢
  split at h
  · rename_i hlt
    rw [dif_pos hlt]
    simpa using h
  · cases h

theorem one_pos : 0 < one := by decide +kernel

theorem round_zero (negative : Bool) (den : Nat) : round negative 0 den = zero negative := by
  have h : nearest 0 den = 0 := by simp [nearest, roundDiv]
  simp only [round, h]
  rfl

/-- Fractions below a half of the unit are rounded to zero. -/
theorem round_of_lt_half (negative : Bool) {num den : Nat} (h : 2 * num < den) :
    round negative num den = zero negative := by
  have hn : nearest num den = 0 := by
    have hlt : num < den := by omega
    simp [nearest, roundDiv, Nat.div_eq_of_lt hlt, Nat.mod_eq_of_lt hlt, h]
  simp only [round, hn]
  rfl

/-- The magnitudes from two to the power 2099 on are out of range. -/
theorem round_of_large (negative : Bool) {num : Nat} (h : 2 ^ 2099 ≤ num) :
    round negative num 1 = .infinite negative := by
  have h0 : num ≠ 0 := Nat.ne_of_gt (Nat.lt_of_lt_of_le (Nat.two_pow_pos _) h)
  have hs : 2047 ≤ (num / 1).log2 - 52 := by
    have := (Nat.le_log2 h0).mpr h
    rw [Nat.div_one]
    omega
  have hn : ¬nearest num 1 < overflow := by
    have : 2047 * run ≤ ((num / 1).log2 - 52) * run := Nat.mul_le_mul_right run hs
    rw [nearest_eq, overflow]
    omega
  simp [round, hn]

end PocketLisp.Binary64

namespace PocketLisp

/-- The exact value of a decimal in units, as a fraction: what is above the line. -/
def Decimal.numerator (d : Decimal) : Nat := d.digits * 10 ^ d.exponent.toNat * Binary64.one

/-- What is below the line. -/
def Decimal.denominator (d : Decimal) : Nat := 10 ^ (-d.exponent).toNat

end PocketLisp

namespace PocketLisp.Binary64

theorem denominator_pos (d : Decimal) : 0 < d.denominator := Nat.pow_pos (by decide)

/-- A decimal that is read as an infinity for its exponent alone is out of range. -/
theorem round_of_exponent (negative : Bool) {d : Decimal} (h0 : d.digits ≠ 0)
    (h : 400 < d.exponent) : round negative d.numerator d.denominator = .infinite negative := by
  have hden : d.denominator = 1 := by
    have : (-d.exponent).toNat = 0 := by omega
    simp [Decimal.denominator, this]
  have hpow : 2 ^ 1025 ≤ 10 ^ d.exponent.toNat :=
    calc 2 ^ 1025 ≤ 10 ^ 400 := by decide +kernel
      _ ≤ 10 ^ d.exponent.toNat := Nat.pow_le_pow_right (by decide) (by omega)
  rw [hden]
  apply round_of_large
  calc 2 ^ 2099 = 1 * 2 ^ 1025 * one := by decide +kernel
    _ ≤ d.digits * 10 ^ d.exponent.toNat * one :=
      Nat.mul_le_mul_right one (Nat.mul_le_mul (Nat.pos_of_ne_zero h0) hpow)

/-- A decimal that is read as a zero for its size alone is below a half of the unit. -/
theorem round_of_size (negative : Bool) {d : Decimal}
    (h : d.exponent + (d.digits.log2 + 1 : Nat) < -400) :
    round negative d.numerator d.denominator = zero negative := by
  have hnum : d.numerator = d.digits * one := by
    have : d.exponent.toNat = 0 := by omega
    simp [Decimal.numerator, this]
  obtain ⟨k, hk⟩ : ∃ k, (-d.exponent).toNat = 402 + (d.digits.log2 + k) :=
    ⟨(-d.exponent).toNat - 402 - d.digits.log2, by omega⟩
  have hdigits : d.digits < 2 * 10 ^ (d.digits.log2 + k) :=
    calc d.digits < 2 ^ (d.digits.log2 + 1) := Nat.lt_log2_self
      _ = 2 * 2 ^ d.digits.log2 := by rw [Nat.pow_succ, Nat.mul_comm]
      _ ≤ 2 * 10 ^ (d.digits.log2 + k) := Nat.mul_le_mul_left 2
        (Nat.le_trans (Nat.pow_le_pow_left (by decide) _)
          (Nat.pow_le_pow_right (by decide) (Nat.le_add_right _ _)))
  have hunits : 4 * one ≤ 10 ^ 402 := by decide +kernel
  rw [hnum]
  apply round_of_lt_half
  calc 2 * (d.digits * one) < 2 * (2 * 10 ^ (d.digits.log2 + k) * one) :=
        Nat.mul_lt_mul_of_pos_left (Nat.mul_lt_mul_of_pos_right hdigits one_pos) (by decide)
    _ = 4 * one * 10 ^ (d.digits.log2 + k) := by
        rw [← Nat.mul_assoc, ← Nat.mul_assoc, Nat.mul_right_comm]
    _ ≤ 10 ^ 402 * 10 ^ (d.digits.log2 + k) := Nat.mul_le_mul_right _ hunits
    _ = d.denominator := by rw [Decimal.denominator, hk, Nat.pow_add 10 402]

/-- Reading a decimal rounds its exact value, also where its size alone settles the matter. -/
theorem ofDecimal_eq_round (negative : Bool) (d : Decimal) :
    ofDecimal negative d = round negative d.numerator d.denominator := by
  unfold ofDecimal
  split
  · rename_i h0
    simp [Decimal.numerator, h0, round_zero]
  · rename_i h0
    split
    · rename_i h
      exact (round_of_exponent negative h0 h).symm
    · split
      · rename_i h
        exact (round_of_size negative h).symm
      · split
        · rename_i h
          have : (-d.exponent).toNat = 0 := by omega
          simp only [Decimal.numerator, Decimal.denominator, this, Nat.pow_zero]
          rfl
        · rename_i h
          have : d.exponent.toNat = 0 := by omega
          simp only [Decimal.numerator, Decimal.denominator, this, Nat.pow_zero, Nat.mul_one]
          rfl

theorem ofDecimal_shift (negative : Bool) (n k : Nat) (e : Int) :
    ofDecimal negative ⟨n * 10 ^ k, e - k⟩ = ofDecimal negative ⟨n, e⟩ := by
  rw [ofDecimal_eq_round, ofDecimal_eq_round]
  refine round_eq_of_cross negative (denominator_pos _) (denominator_pos _) ?_
  have hexp : k + (e - k).toNat + (-e).toNat = e.toNat + (-(e - k)).toNat := by omega
  have hpow : 10 ^ k * 10 ^ (e - k).toNat * 10 ^ (-e).toNat =
      10 ^ e.toNat * 10 ^ (-(e - k)).toNat := by
    rw [← Nat.pow_add, ← Nat.pow_add, ← Nat.pow_add, hexp]
  simp only [Decimal.numerator, Decimal.denominator]
  generalize one = u
  calc n * 10 ^ k * 10 ^ (e - k).toNat * u * 10 ^ (-e).toNat
      = n * (10 ^ k * 10 ^ (e - k).toNat * 10 ^ (-e).toNat) * u := by ac_rfl
    _ = n * (10 ^ e.toNat * 10 ^ (-(e - k)).toNat) * u := by rw [hpow]
    _ = n * 10 ^ e.toNat * u * 10 ^ (-(e - k)).toNat := by ac_rfl

theorem ofDecimal_exactDecimal (negative : Bool) (code : Fin overflow) :
    ofDecimal negative (exactDecimal code) = .finite negative code := by
  rw [ofDecimal_eq_round, ← round_units]
  refine round_eq_of_cross negative (denominator_pos _) Nat.one_pos ?_
  have hnum : (exactDecimal code).numerator = units code * Nat.pow 5 1074 * 1 * one := rfl
  have hden : (exactDecimal code).denominator = Nat.pow 5 1074 * one := by
    simp only [Decimal.denominator, exactDecimal]
    decide +kernel
  rw [hnum, hden, Nat.mul_one, Nat.mul_one, Nat.mul_assoc]

theorem ofDecimal_of_firstReadingBack? {code : Fin overflow} {near far d : Decimal}
    (h : firstReadingBack? code near far = some d) : ofDecimal false d = .finite false code := by
  unfold firstReadingBack? at h
  split at h
  · rename_i hnear
    cases h
    exact eq_of_beq hnear
  · split at h
    · rename_i hfar
      cases h
      exact eq_of_beq hfar
    · cases h

/-- The decimal that a number is written with reads back as the number. -/
theorem ofDecimal_shortest (negative : Bool) (code : Fin overflow) :
    ofDecimal negative (shortest code) = .finite negative code := by
  unfold shortest
  dsimp only
  cases h : (List.range' 1 17).findSome? (decimalAt? code (magnitude (units code))) with
  | none => exact ofDecimal_exactDecimal negative code
  | some d =>
    obtain ⟨places, -, hd⟩ := List.exists_of_findSome?_eq_some h
    have hread := ofDecimal_of_firstReadingBack? hd
    rw [ofDecimal_eq_round] at hread
    rw [Option.getD_some, ofDecimal_eq_round]
    exact round_of_round_false hread negative

end PocketLisp.Binary64
