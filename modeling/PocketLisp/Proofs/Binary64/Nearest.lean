import Mathlib.Algebra.Order.Field.Basic
import Mathlib.Algebra.Order.Field.Rat
import Mathlib.Order.Monotone.Basic
import Mathlib.Tactic.Linarith
import Mathlib.Tactic.FieldSimp
import Mathlib.Tactic.Ring
import PocketLisp.Proofs.Number.Numeral

/-!
What rounding comes to. The code found for a quotient is the nearest of all codes to it, and even if
another one is as near; it is out of range from the middle between the last number in range and the
first one past it on. So a quotient of integers becomes the number that the exact fraction is rounded
to, which is determined, or is out of range.
-/
namespace PocketLisp.Binary64

/-- How far `n * den` is from `num`. -/
def distance (num den n : Nat) : Nat := ((n * den : Nat) - num : Int).natAbs

/-- The two neighbours of a quotient are nearer than all other numbers. -/
theorem distance_cases (a : Nat) {b : Nat} (hb : 0 < b) (j : Nat) :
    (j < a / b ∧ b ≤ distance a b j) ∨ (j = a / b ∧ distance a b j = a % b) ∨
      (j = a / b + 1 ∧ distance a b j = b - a % b) ∨ (a / b + 1 < j ∧ b < distance a b j) := by
  have hdiv := Nat.div_add_mod a b
  have hmod := Nat.mod_lt a hb
  unfold distance
  generalize a / b = q at *
  generalize a % b = r at *
  have hq : q * b = b * q := Nat.mul_comm q b
  rcases Nat.lt_or_ge j q with hj | hj
  · have hstep : (j + 1) * b ≤ q * b := Nat.mul_le_mul_right b hj
    rw [Nat.succ_mul] at hstep
    omega
  rcases Nat.lt_or_ge (q + 1) j with hj' | hj'
  · have hstep : (q + 1 + 1) * b ≤ j * b := Nat.mul_le_mul_right b hj'
    rw [Nat.succ_mul, Nat.succ_mul] at hstep
    omega
  obtain rfl | rfl : j = q ∨ j = q + 1 := by omega
  · omega
  · rw [Nat.succ_mul]
    omega

/-- No number is nearer to a quotient than the rounded one; if another one is as near, the rounded
one is even. -/
theorem distance_roundDiv (a : Nat) {b : Nat} (hb : 0 < b) (j : Nat) :
    distance a b (roundDiv a b) ≤ distance a b j ∧
      (distance a b j = distance a b (roundDiv a b) → j ≠ roundDiv a b →
        roundDiv a b % 2 = 0) := by
  have hmod := Nat.mod_lt a hb
  have hround := distance_cases a hb (roundDiv a b)
  have hj := distance_cases a hb j
  have hdef : roundDiv a b = if 2 * (a % b) < b then a / b else
      if b < 2 * (a % b) then a / b + 1 else a / b + a / b % 2 := rfl
  split_ifs at hdef <;> omega

theorem run_eq : run = 2 ^ 52 := rfl

/-- Codes that are as far apart as the spacing tells. The first code of the next run counts as
well. -/
theorem units_of_le {s m : Nat} (hm : m ≤ 2 * run) (hs : s = 0 ∨ run ≤ m) :
    units (s * run + m) = m * 2 ^ s := by
  have hrun : 0 < run := by decide
  have hdiv : (s * run + m) / run = s + m / run := by
    rw [Nat.add_comm, Nat.add_mul_div_right _ _ hrun, Nat.add_comm]
  rw [units_eq, spacing, hdiv]
  rcases Nat.lt_or_ge m run with hlt | hge
  · obtain rfl : s = 0 := by omega
    simp [Nat.div_eq_of_lt hlt]
  rcases Nat.lt_or_ge m (2 * run) with hlt | hend
  · have hone : m / run = 1 := Nat.div_eq_of_lt_le (by omega) (by omega)
    simp [hone]
  · obtain rfl : m = 2 * run := by omega
    have htwo : 2 * run / run = 2 := Nat.mul_div_cancel 2 hrun
    have hnext : (s + 1) * run = s * run + run := Nat.succ_mul s run
    have hrest : s * run + 2 * run - (s + 1) * run = run := by omega
    rw [htwo, show s + 2 - 1 = s + 1 by omega, hrest, Nat.pow_succ]
    ring

theorem exists_run (k : Nat) :
    ∃ m, k = spacing k * run + m ∧ m < 2 * run ∧ (spacing k = 0 ∨ run ≤ m) := by
  have hrun : 0 < run := by decide
  have hdiv := Nat.div_add_mod k run
  have hmod := Nat.mod_lt k hrun
  unfold spacing
  rcases Nat.eq_zero_or_pos (k / run) with hzero | hpos
  · rw [hzero] at hdiv ⊢
    exact ⟨k, by omega, by omega, .inl rfl⟩
  · obtain ⟨t, ht⟩ := Nat.exists_eq_add_of_lt hpos
    rw [ht] at hdiv ⊢
    have hexp : run * (0 + t + 1) = t * run + run := by ring
    exact ⟨run + k % run, by simp; omega, by omega, .inr (by omega)⟩

theorem units_strictMono : StrictMono units := by
  refine strictMono_nat_of_lt_succ fun k => ?_
  obtain ⟨m, hk, hm, hs⟩ := exists_run k
  have hnow : units k = m * 2 ^ spacing k := by
    rw [hk, units_of_le (by omega) (by omega), ← hk]
  have hnext : units (k + 1) = (m + 1) * 2 ^ spacing k := by
    conv_lhs => rw [hk]
    rw [Nat.add_assoc, units_of_le (by omega) (by omega)]
  rw [hnow, hnext]
  exact Nat.mul_lt_mul_of_pos_right (Nat.lt_succ_self m) (Nat.two_pow_pos _)

/-- On a grid no finer than a run of codes, a code is on the grid or below the run. -/
theorem units_on_grid (k s : Nat) : (∃ j, units k = j * 2 ^ s) ∨ 0 < s ∧ units k < run * 2 ^ s := by
  obtain ⟨m, hk, hm, hs⟩ := exists_run k
  have hunits : units k = m * 2 ^ spacing k := by
    rw [hk, units_of_le (by omega) (by omega), ← hk]
  rw [hunits]
  rcases Nat.lt_or_ge (spacing k) s with hlt | hge
  · refine .inr ⟨by omega, ?_⟩
    calc m * 2 ^ spacing k < 2 * run * 2 ^ spacing k :=
          Nat.mul_lt_mul_of_pos_right hm (Nat.two_pow_pos _)
      _ = run * 2 ^ (spacing k + 1) := by rw [Nat.pow_succ]; ring
      _ ≤ run * 2 ^ s := Nat.mul_le_mul_left run (Nat.pow_le_pow_right (by decide) hlt)
  · obtain ⟨d, hd⟩ := Nat.exists_eq_add_of_le hge
    exact .inl ⟨m * 2 ^ d, by rw [hd, Nat.pow_add]; ring⟩

theorem distance_mul_right (num den s j : Nat) :
    distance num den (j * 2 ^ s) = distance num (den * 2 ^ s) j := by
  unfold distance
  rw [Nat.mul_assoc, Nat.mul_comm (2 ^ s)]

/-- The number of units that a code found by rounding has, on the grid that was rounded to. -/
theorem units_nearest (num den : Nat) :
    let s := (num / den).log2 - 52
    units (nearest num den) = roundDiv num (den * 2 ^ s) * 2 ^ s ∧
      (0 < s → run * (den * 2 ^ s) ≤ num) := by
  intro s
  have hpow : 0 < 2 ^ s := Nat.two_pow_pos s
  have hquot : num / (den * 2 ^ s) = num / den / 2 ^ s := (Nat.div_div_eq_div_mul num den _).symm
  have hupper : num / (den * 2 ^ s) < 2 * run := by
    rw [hquot, Nat.div_lt_iff_lt_mul hpow, run_eq]
    calc num / den < 2 ^ ((num / den).log2 + 1) := Nat.lt_log2_self
      _ ≤ 2 ^ (53 + s) := Nat.pow_le_pow_right (by decide) (by omega)
      _ = 2 * 2 ^ 52 * 2 ^ s := by rw [Nat.pow_add]; rfl
  have hlower : 0 < s → run ≤ num / (den * 2 ^ s) := by
    intro hs
    have hne : num / den ≠ 0 := by
      intro hzero
      simp [s, hzero] at hs
    rw [hquot, Nat.le_div_iff_mul_le hpow, run_eq, ← Nat.pow_add]
    exact (Nat.pow_le_pow_right (by decide) (by omega)).trans (Nat.log2_self_le hne)
  have hbetween : num / (den * 2 ^ s) ≤ roundDiv num (den * 2 ^ s) ∧
      roundDiv num (den * 2 ^ s) ≤ num / (den * 2 ^ s) + 1 := by
    unfold roundDiv
    dsimp only
    split_ifs <;> omega
  refine ⟨?_, fun hs => ?_⟩
  · have hcode : nearest num den = s * run + roundDiv num (den * 2 ^ s) := nearest_eq num den
    rw [hcode, units_of_le (by omega) (by omega)]
  · exact (Nat.mul_le_mul_right _ (hlower hs)).trans (Nat.div_mul_le_self _ _)

/-- No code is nearer to a quotient than the one found by rounding; if another one is as near, the
one found is even. -/
theorem distance_nearest (num : Nat) {den : Nat} (hden : 0 < den) (k : Nat) :
    distance num den (units (nearest num den)) ≤ distance num den (units k) ∧
      (distance num den (units k) = distance num den (units (nearest num den)) →
        k ≠ nearest num den → nearest num den % 2 = 0) := by
  obtain ⟨hunits, hlow⟩ := units_nearest num den
  generalize hs : (num / den).log2 - 52 = s at hunits hlow
  have hgrid : 0 < den * 2 ^ s := Nat.mul_pos hden (Nat.two_pow_pos s)
  have hnear := distance_roundDiv num hgrid
  have hparity : nearest num den % 2 = roundDiv num (den * 2 ^ s) % 2 := by
    rw [nearest_eq, hs, run_eq]
    omega
  rw [hunits, distance_mul_right, hparity]
  rcases units_on_grid k s with ⟨j, hj⟩ | ⟨hpos, hlt⟩
  · rw [hj, distance_mul_right]
    refine ⟨(hnear j).1, fun hsame hne => (hnear j).2 hsame fun he => hne ?_⟩
    exact units_strictMono.injective (by rw [hj, hunits, he])
  · have hbelow : units k * den < run * (den * 2 ^ s) := by
      calc units k * den < run * 2 ^ s * den := Nat.mul_lt_mul_of_pos_right hlt hden
        _ = run * (den * 2 ^ s) := by ring
    have hfar : distance num (den * 2 ^ s) run < distance num den (units k) := by
      have := hlow hpos
      unfold distance
      omega
    have := (hnear run).1
    exact ⟨by omega, fun hsame => by omega⟩

/-- What is rounded to a code out of range: what is at least as far up as the middle between the last
code in range and the first one past it. -/
theorem overflow_le_nearest_iff (num : Nat) {den : Nat} (hden : 0 < den) :
    overflow ≤ nearest num den ↔ (units (overflow - 1) + units overflow) * den ≤ 2 * num := by
  have hlast : units (overflow - 1) * den < units overflow * den :=
    Nat.mul_lt_mul_of_pos_right (units_strictMono (by decide)) hden
  have below := distance_nearest num hden (overflow - 1)
  have above := distance_nearest num hden overflow
  have hmul : ∀ {j k}, j ≤ k → units j * den ≤ units k * den :=
    fun h => Nat.mul_le_mul_right den (units_strictMono.monotone h)
  rw [Nat.add_mul]
  constructor
  · intro hcode
    have := hmul hcode
    have := below.1
    unfold distance at this
    omega
  · intro hmiddle
    by_contra hcode
    have hle := hmul (show nearest num den ≤ overflow - 1 by omega)
    have hnear := above.1
    have heven := above.2
    unfold distance at hnear heven
    -- the code found is the last one in range and as near as the one past it, but it is odd
    have hsame : units (nearest num den) * den = units (overflow - 1) * den := by omega
    have hfound : nearest num den = overflow - 1 :=
      units_strictMono.injective (Nat.eq_of_mul_eq_mul_right hden hsame)
    have hparity := heven (by omega) (by omega)
    rw [hfound] at hparity
    exact absurd hparity (by decide)

def exact (negative : Bool) (code : Nat) : ℚ := signed negative (units code) / one

/-- What a fraction is rounded to: a finite number with its sign, of all finite numbers the nearest
one, of two equally near ones the even one. -/
inductive RoundsTo (q : ℚ) : Binary64 → Prop
  | intro {negative : Bool} {code : Fin overflow} (hsign : negative = true ↔ q < 0)
      (hnear : ∀ (other : Bool) (k : Fin overflow), |q - exact negative code| ≤ |q - exact other k|)
      (heven : ∀ (other : Bool) (k : Fin overflow),
        |q - exact other k| = |q - exact negative code| → exact other k ≠ exact negative code →
          code.val % 2 = 0) : RoundsTo q (.finite negative code)

theorem one_cast_pos : (0 : ℚ) < one := Nat.cast_pos.mpr one_pos

/-- The distance of a finite number from a fraction, by the signs of the two. -/
theorem abs_sub_exact (σ τ : Bool) (num : Nat) {den : Nat} (hden : 0 < den) (k : Nat) :
    |(signed σ num : ℚ) / (den * one) - exact τ k| =
      (if τ = σ then distance num den (units k) else num + units k * den : Nat) / (den * one) := by
  have hd : (0 : ℚ) < den := Nat.cast_pos.mpr hden
  have hscale : (0 : ℚ) < den * one := mul_pos hd one_cast_pos
  have hsplit : (signed σ num : ℚ) / (den * one) - exact τ k =
      ((signed σ num - signed τ (units k) * den : Int) : ℚ) / (den * one) := by
    have hone := one_cast_pos.ne'
    unfold exact
    push_cast
    field_simp
  have habs : (signed σ num - signed τ (units k) * den).natAbs =
      if τ = σ then distance num den (units k) else num + units k * den := by
    unfold distance
    cases σ <;> cases τ <;> simp [signed] <;> omega
  rw [hsplit, abs_div, abs_of_pos hscale, ← habs, ← Int.cast_abs, Int.abs_eq_natAbs,
    Int.cast_natCast]

section Cast

variable (n : Nat)

theorem cast_signed_false : ((signed false n : Int) : ℚ) = n := by simp [signed]

theorem cast_signed_true : ((signed true n : Int) : ℚ) = -n := by simp [signed]

theorem abs_cast_signed (negative : Bool) : |((signed negative n : Int) : ℚ)| = n := by
  cases negative with
  | false => simp [cast_signed_false]
  | true => simp [cast_signed_true]

theorem exact_false : exact false n = units n / one := by rw [exact, cast_signed_false]

theorem exact_true : exact true n = -exact false n := by
  rw [exact, cast_signed_true, neg_div, exact_false]

end Cast

theorem distance_zero (num den : Nat) : distance num den 0 = num := by simp [distance]

theorem units_zero : units 0 = 0 := units_eq_self (by decide)

theorem exact_zero (negative : Bool) : exact negative 0 = 0 := by
  have hzero : exact false 0 = 0 := by rw [exact_false, units_zero, Nat.cast_zero, zero_div]
  cases negative with
  | false => exact hzero
  | true => rw [exact_true, hzero, neg_zero]

theorem roundsTo_nearest (σ : Bool) {num den : Nat} (hnum : 0 < num) (hden : 0 < den)
    (h : nearest num den < overflow) :
    RoundsTo ((signed σ num : ℚ) / (den * one)) (.finite σ ⟨nearest num den, h⟩) := by
  have hscale : (0 : ℚ) < den * one := mul_pos (Nat.cast_pos.mpr hden) one_cast_pos
  have hzero := distance_nearest num hden 0
  rw [units_zero, distance_zero] at hzero
  refine .intro ?_ ?_ ?_
  · have hnum : (0 : ℚ) < num := Nat.cast_pos.mpr hnum
    cases σ with
    | false =>
      rw [cast_signed_false]
      exact iff_of_false Bool.false_ne_true (div_pos hnum hscale).not_gt
    | true =>
      rw [cast_signed_true, neg_div]
      exact iff_of_true rfl (neg_neg_of_pos (div_pos hnum hscale))
  · intro τ k
    simp only [abs_sub_exact _ _ _ hden, div_le_div_iff_of_pos_right hscale, Nat.cast_le, if_true]
    split_ifs
    · exact (distance_nearest num hden k).1
    · omega
  · intro τ k hsame hne
    simp only [abs_sub_exact _ _ _ hden, div_left_inj' hscale.ne', Nat.cast_inj, if_true] at hsame
    split_ifs at hsame with hsign
    · refine (distance_nearest num hden k).2 hsame fun hk => hne ?_
      rw [hsign, hk]
    · -- a number of the other sign is as near only if both are zeros
      have hprod : units k * den = 0 := by omega
      have hk : units k = 0 := (Nat.mul_eq_zero.mp hprod).resolve_right hden.ne'
      refine hzero.2 (by omega) fun hnearest => hne ?_
      have hcode : (k : Nat) = 0 := units_strictMono.injective (hk.trans units_zero.symm)
      show exact τ k = exact σ (nearest num den)
      rw [hcode, ← hnearest, exact_zero, exact_zero]

theorem exact_strictMono : StrictMono (exact false) := by
  intro j k h
  have hlt : (units j : ℚ) < units k := Nat.cast_lt.mpr (units_strictMono h)
  rw [exact_false, exact_false]
  exact div_lt_div_of_pos_right hlt one_cast_pos

theorem abs_lt_of_between {q a m b : ℚ} (h : |q - b| = |q - a|)
    (hm : a < m ∧ m < b ∨ b < m ∧ m < a) : |q - m| < |q - a| := by
  rcases abs_cases (q - a) with ⟨ha, _⟩ | ⟨ha, _⟩ <;>
    rcases abs_cases (q - b) with ⟨hb, _⟩ | ⟨hb, _⟩ <;>
    rcases abs_cases (q - m) with ⟨hc, _⟩ | ⟨hc, _⟩ <;>
    rcases hm with ⟨_, _⟩ | ⟨_, _⟩ <;> linarith

namespace RoundsTo

variable {q : ℚ}

/-- Of two codes that a fraction is rounded to, both would be even, and one between them nearer. -/
theorem not_lt {negative : Bool} {j k : Fin overflow} (hj : RoundsTo q (.finite negative j))
    (hk : RoundsTo q (.finite negative k)) : ¬j < k := by
  intro hlt
  obtain ⟨-, hnear, heven⟩ := hj
  obtain ⟨-, hnear', heven'⟩ := hk
  have hsame : |q - exact negative k| = |q - exact negative j| :=
    le_antisymm (hnear' negative j) (hnear negative k)
  have between : ∀ m : Nat, j < m → m < (k : Nat) →
      exact negative j < exact negative m ∧ exact negative m < exact negative k ∨
        exact negative k < exact negative m ∧ exact negative m < exact negative j := by
    intro m hm hm'
    have hleft := exact_strictMono hm
    have hright := exact_strictMono hm'
    cases negative with
    | false => exact .inl ⟨hleft, hright⟩
    | true => simpa [exact_true] using .inr ⟨hright, hleft⟩
  have hne : exact negative k ≠ exact negative j := by
    have := exact_strictMono hlt
    cases negative with
    | false => exact this.ne'
    | true => simpa [exact_true] using this.ne'
  have hmod := heven negative k hsame hne
  have hmod' := heven' negative j hsame.symm hne.symm
  have hnext : (j : Nat) + 1 < k := by
    have : (j : Nat) < k := hlt
    omega
  have hnearer := abs_lt_of_between hsame (between (j + 1) (Nat.lt_succ_self j) hnext)
  exact absurd (hnear negative ⟨j + 1, hnext.trans k.isLt⟩) (by simpa using hnearer)

theorem unique {x y : Binary64} (hx : RoundsTo q x) (hy : RoundsTo q y) : x = y := by
  cases hx with
  | @intro negative j hsign hnear heven =>
    cases hy with
    | @intro negative' k hsign' hnear' heven' =>
      obtain rfl : negative = negative' := Bool.eq_iff_iff.mpr (hsign.trans hsign'.symm)
      have hj : RoundsTo q (.finite negative j) := .intro hsign hnear heven
      have hk : RoundsTo q (.finite negative k) := .intro hsign' hnear' heven'
      rcases Nat.lt_trichotomy j k with hlt | heq | hlt
      · exact absurd hlt (hj.not_lt hk)
      · rw [Fin.ext heq]
      · exact absurd hlt (hk.not_lt hj)

end RoundsTo

theorem div_eq_signed (a : Int) {b : Int} (hb : b ≠ 0) :
    (a : ℚ) / b = (signed (decide (a < 0) != decide (b < 0)) (a.natAbs * one) : ℚ) /
      (b.natAbs * one) := by
  have hone := one_cast_pos.ne'
  have hb : (b.natAbs : ℚ) ≠ 0 := Nat.cast_ne_zero.mpr (Int.natAbs_ne_zero.mpr hb)
  conv_lhs => rw [← Numeral.signed_natAbs a, ← Numeral.signed_natAbs b]
  generalize decide (a < 0) = σ
  generalize decide (b < 0) = τ
  generalize one = u at hone ⊢
  cases σ <;> cases τ <;> simp [signed] <;> field_simp

theorem cast_two_pow_sub {m n : Nat} (h : n ≤ m) : ((2 ^ m - 2 ^ n : Nat) : ℚ) = 2 ^ m - 2 ^ n := by
  rw [Nat.cast_sub (Nat.pow_le_pow_right (by decide) h)]
  simp

/-- The middle between the last number in range and the first one past it. -/
theorem exists_middle : ∃ limit : Nat, (limit : ℚ) = 2 ^ 1024 - 2 ^ 970 ∧
    units (overflow - 1) + units overflow = 2 * (limit * one) :=
  ⟨2 ^ 1024 - 2 ^ 970, cast_two_pow_sub (by decide), by decide +kernel⟩

section Ratio

variable {a b : Int} (hb : b ≠ 0)
include hb

/-- A quotient of integers is out of range from half a step past the last number in range on. -/
theorem ofRatio?_eq_none_iff :
    ofRatio? a b = none ↔ (2 : ℚ) ^ 1024 - 2 ^ 970 ≤ |(a : ℚ) / b| := by
  have hden : 0 < b.natAbs := Int.natAbs_pos.mpr hb
  have hscale : (0 : ℚ) < b.natAbs * one := mul_pos (Nat.cast_pos.mpr hden) one_cast_pos
  have habs : |(a : ℚ) / b| = (a.natAbs * one : Nat) / (b.natAbs * one) := by
    rw [div_eq_signed a hb, abs_div, abs_of_pos hscale, abs_cast_signed]
  have hnone : ofRatio? a b = none ↔ overflow ≤ nearest (a.natAbs * one) b.natAbs := by
    unfold ofRatio? round
    dsimp only
    split <;> simp [finite?] <;> omega
  obtain ⟨limit, hlimit, hmiddle⟩ := exists_middle
  rw [hnone, overflow_le_nearest_iff _ hden, hmiddle, habs, ← hlimit, le_div_iff₀ hscale,
    ← Nat.cast_mul, ← Nat.cast_mul, Nat.cast_le, Nat.mul_assoc, Nat.mul_le_mul_left_iff (by decide),
    Nat.mul_assoc, Nat.mul_comm one]

theorem roundsTo_of_ofRatio? (ha : a ≠ 0) {x : Binary64} (h : ofRatio? a b = some x) :
    RoundsTo ((a : ℚ) / b) x := by
  have hnum : 0 < a.natAbs * one := Nat.mul_pos (Int.natAbs_pos.mpr ha) one_pos
  have hden : 0 < b.natAbs := Int.natAbs_pos.mpr hb
  unfold ofRatio? round at h
  dsimp only at h
  split at h
  · rename_i hlt
    rw [← Option.some.inj h, div_eq_signed a hb]
    exact roundsTo_nearest _ hnum hden hlt
  · cases h

end Ratio

end PocketLisp.Binary64
