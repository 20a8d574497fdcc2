/-
  Rounding to the nearest binary64 value.

  A finite value is a multiple of its last place `2 ^ u` by an integer of 53 bits;
  `u` is at least -1074.  `ofRat` rounds a rational to the nearest one, of two the
  one with the even factor, and overflows beyond the greatest one.

  * `halfEven_near`, `halfEven_eq`: rounding to an integer takes the nearest, the
    even one of two, and nothing else does;
  * `two_pow_log2_le`, `lt_two_pow_log2`: the binary logarithm of a fraction;
  * `nearest_error`: the error is half a last place, which is small beside the value
    unless that is below the normal range;
  * `ofRat_eq_none`: where the overflow begins.
-/
import Mathlib.Algebra.Order.Field.Power
import Mathlib.Algebra.Order.Floor.Ring
import Mathlib.Algebra.Ring.Parity
import Mathlib.Data.Rat.Floor
import Mathlib.Tactic.FieldSimp
import Mathlib.Tactic.Linarith
import Mathlib.Tactic.Positivity
import Mathlib.Tactic.Ring

namespace Binary64

/-! ## Integers -/

/-- The nearest integer, ties to even. -/
def halfEven (q : ℚ) : ℤ :=
  let f := q.floor
  let d := q - f
  if d < 1 / 2 then f
  else if d > 1 / 2 then f + 1
  else if f % 2 = 0 then f else f + 1

/-- **The nearest integer, and the even one of two.** -/
theorem halfEven_near (q : ℚ) :
    |q - halfEven q| ≤ 1 / 2 ∧ (|q - halfEven q| = 1 / 2 → Even (halfEven q)) := by
  have hfloor : (q.floor : ℚ) ≤ q := Rat.floor_le q
  have hlt : q < q.floor + 1 := by exact_mod_cast Rat.lt_floor_add_one q
  unfold halfEven
  dsimp only
  split_ifs with hlow hhigh heven
  · rw [abs_of_nonneg (by linarith)]
    exact ⟨hlow.le, fun h => absurd h hlow.ne⟩
  · have hneg : q - ((q.floor + 1 : ℤ) : ℚ) ≤ 0 := by push_cast; linarith
    rw [abs_of_nonpos hneg]
    push_cast
    exact ⟨by linarith, fun h => by linarith⟩
  · rw [abs_of_nonneg (by linarith)]
    exact ⟨not_lt.1 hhigh, fun _ => Int.even_iff.2 heven⟩
  · have hneg : q - ((q.floor + 1 : ℤ) : ℚ) ≤ 0 := by push_cast; linarith
    rw [abs_of_nonpos hneg]
    push_cast
    exact ⟨by linarith, fun _ => Int.even_add_one.2 fun h => heven (Int.even_iff.1 h)⟩

theorem halfEven_mono {q q' : ℚ} (h : q ≤ q') : halfEven q ≤ halfEven q' := by
  by_contra hlt
  rw [not_le, ← Int.add_one_le_iff] at hlt
  have hgap : (halfEven q' : ℚ) + 1 ≤ halfEven q := by exact_mod_cast hlt
  have hq := abs_le.1 (halfEven_near q).1
  have hq' := abs_le.1 (halfEven_near q').1
  obtain rfl : q = q' := by linarith
  linarith

/-- An integer closer than a half is the rounded value. -/
theorem halfEven_eq {q : ℚ} {n : ℤ} (h : |q - n| < 1 / 2) : halfEven q = n := by
  have hnear := abs_le.1 (halfEven_near q).1
  have hn := abs_lt.1 h
  have hlow : (n : ℚ) < halfEven q + 1 := by linarith
  have hhigh : (halfEven q : ℚ) < n + 1 := by linarith
  have hlow' : n < halfEven q + 1 := by exact_mod_cast hlow
  have hhigh' : halfEven q < n + 1 := by exact_mod_cast hhigh
  omega

theorem halfEven_intCast (n : ℤ) : halfEven n = n := halfEven_eq (by simp)

/-! ## The last place -/

/-- `⌊log₂ (n / d)⌋` -/
def log2 (n d : ℕ) : ℤ :=
  let k : ℤ := n.log2 - d.log2
  if d * 2 ^ k.toNat ≤ n * 2 ^ (-k).toNat then k else k - 1

theorem two_zpow_eq (k : ℤ) : (2 : ℚ) ^ k = 2 ^ k.toNat / 2 ^ (-k).toNat := by
  cases k with
  | ofNat k => simp
  | negSucc k => simp [zpow_negSucc]

theorem two_zpow_le_div {n d : ℕ} (hd : 0 < d) (k : ℤ) :
    (2 : ℚ) ^ k ≤ n / d ↔ d * 2 ^ k.toNat ≤ n * 2 ^ (-k).toNat := by
  have hd' : (0 : ℚ) < d := by exact_mod_cast hd
  rw [two_zpow_eq, div_le_div_iff₀ (by positivity) hd', mul_comm _ (d : ℚ)]
  exact_mod_cast Iff.rfl

variable {n d : ℕ}

/-- The logarithms of the two numbers fix that of the fraction up to 1. -/
theorem log2_bounds (hn : 0 < n) (hd : 0 < d) :
    (2 : ℚ) ^ ((n.log2 : ℤ) - d.log2 - 1) ≤ n / d ∧
      (n / d : ℚ) < 2 ^ ((n.log2 : ℤ) - d.log2 + 1) := by
  have hd' : (0 : ℚ) < d := by exact_mod_cast hd
  have hn1 : (2 : ℚ) ^ n.log2 ≤ n := by exact_mod_cast Nat.log2_self_le hn.ne'
  have hn2 : (n : ℚ) < 2 ^ (n.log2 + 1) := by exact_mod_cast Nat.lt_log2_self
  have hd1 : (2 : ℚ) ^ d.log2 ≤ d := by exact_mod_cast Nat.log2_self_le hd.ne'
  have hd2 : (d : ℚ) < 2 ^ (d.log2 + 1) := by exact_mod_cast Nat.lt_log2_self
  have hlow : (2 : ℚ) ^ ((n.log2 : ℤ) - d.log2 - 1) = 2 ^ n.log2 / 2 ^ (d.log2 + 1) := by
    rw [← zpow_natCast, ← zpow_natCast, ← zpow_sub₀ two_ne_zero]
    congr 1
    push_cast
    ring
  have hhigh : (2 : ℚ) ^ ((n.log2 : ℤ) - d.log2 + 1) = 2 ^ (n.log2 + 1) / 2 ^ d.log2 := by
    rw [← zpow_natCast, ← zpow_natCast, ← zpow_sub₀ two_ne_zero]
    congr 1
    push_cast
    ring
  rw [hlow, hhigh]
  exact ⟨div_le_div₀ (by positivity) hn1 hd' hd2.le, div_lt_div₀ hn2 hd1 (by positivity)
    (by positivity)⟩

theorem two_pow_log2_le (hn : 0 < n) (hd : 0 < d) : (2 : ℚ) ^ log2 n d ≤ n / d := by
  unfold log2
  dsimp only
  split_ifs with h
  · exact (two_zpow_le_div hd _).2 h
  · exact (log2_bounds hn hd).1

theorem lt_two_pow_log2 (hn : 0 < n) (hd : 0 < d) : (n / d : ℚ) < 2 ^ (log2 n d + 1) := by
  unfold log2
  dsimp only
  split_ifs with h
  · exact (log2_bounds hn hd).2
  · rw [sub_add_cancel]
    exact not_le.1 fun hle => h ((two_zpow_le_div hd _).1 hle)

/-- The exponent of the last place of a rational. -/
def lastPlace (q : ℚ) : ℤ := max (log2 q.num.natAbs q.den - 52) (-1074)

theorem abs_eq_div (q : ℚ) : |q| = (q.num.natAbs : ℚ) / q.den := by
  rw [Nat.cast_natAbs, Int.cast_abs]
  nth_rewrite 1 [← Rat.num_div_den q]
  rw [abs_div, Nat.abs_cast]

/-- A rational has 53 bits before its last place. -/
theorem abs_lt_lastPlace (q : ℚ) : |q| < 2 ^ (lastPlace q + 53) := by
  rcases eq_or_ne q 0 with rfl | hq
  · simp only [abs_zero]
    positivity
  have hlog := lt_two_pow_log2 (Int.natAbs_pos.2 (Rat.num_ne_zero.2 hq)) q.den_pos
  rw [abs_eq_div]
  refine hlog.trans_le (zpow_le_zpow_right₀ one_le_two ?_)
  unfold lastPlace
  omega

/-- It has all 53 of them if the last place is not the least one. -/
theorem le_abs_of_lastPlace {q : ℚ} (hq : q ≠ 0) (h : -1074 < lastPlace q) :
    2 ^ (lastPlace q + 52) ≤ |q| := by
  have hlog := two_pow_log2_le (Int.natAbs_pos.2 (Rat.num_ne_zero.2 hq)) q.den_pos
  have hplace : lastPlace q + 52 = log2 q.num.natAbs q.den := by
    unfold lastPlace at h ⊢
    omega
  rwa [abs_eq_div, hplace]

/-! ## Rounding -/

/-- The nearest multiple of the last place, of two the even one. -/
def nearest (q : ℚ) : ℚ := halfEven (q / 2 ^ lastPlace q) * 2 ^ lastPlace q

/-- The nearest finite value; `none` is an overflow. -/
def ofRat (q : ℚ) : Option ℚ := if |nearest q| < 2 ^ 1024 then some (nearest q) else none

theorem nearest_near (q : ℚ) : |q - nearest q| ≤ 2 ^ lastPlace q / 2 := by
  have hpos : (0 : ℚ) < 2 ^ lastPlace q := by positivity
  have hnear := (halfEven_near (q / 2 ^ lastPlace q)).1
  have hq : q - nearest q =
      (q / 2 ^ lastPlace q - halfEven (q / 2 ^ lastPlace q)) * 2 ^ lastPlace q := by
    rw [sub_mul, div_mul_cancel₀ _ hpos.ne', nearest]
  rw [hq, abs_mul, abs_of_pos hpos]
  linarith [mul_le_mul_of_nonneg_right hnear hpos.le]

/-- **The error of rounding** is small beside the value, or the value is below the
    normal range. -/
theorem nearest_error (q : ℚ) : |q - nearest q| ≤ |q| / 2 ^ 53 + 1 / 2 ^ 1075 := by
  rcases eq_or_ne q 0 with rfl | hq
  · have hzero : nearest 0 = 0 := by decide +kernel
    rw [hzero]
    norm_num
  have hnear := nearest_near q
  by_cases h : -1074 < lastPlace q
  · have hle := le_abs_of_lastPlace hq h
    rw [zpow_add₀ two_ne_zero] at hle
    have htiny : (0 : ℚ) ≤ 1 / 2 ^ 1075 := by positivity
    have hbits : (2 : ℚ) ^ (52 : ℤ) = 2 ^ 53 / 2 := by norm_num
    rw [hbits] at hle
    generalize (1 : ℚ) / 2 ^ 1075 = tiny at htiny ⊢
    linarith
  · have hplace : lastPlace q = -1074 := le_antisymm (not_lt.1 h) (le_max_right _ _)
    have hhalf : (2 : ℚ) ^ (-1074 : ℤ) / 2 = 1 / 2 ^ 1075 := by
      rw [show (1075 : ℕ) = 1074 + 1 from rfl, pow_succ, zpow_neg, one_div, mul_inv,
        div_eq_mul_inv]
      rfl
    rw [hplace, hhalf] at hnear
    have hrel : 0 ≤ |q| / 2 ^ 53 := by positivity
    generalize (1 : ℚ) / 2 ^ 1075 = tiny at hnear ⊢
    linarith

/-! ## Overflow -/

/-- Below an even bound the rounded value is smaller than the bound up to a half
    below it; the tie goes to the bound. -/
theorem abs_halfEven_lt {x : ℚ} {m : ℕ} (hm : Even m) : |halfEven x| < m ↔ |x| < m - 1 / 2 := by
  obtain ⟨hnear, htie⟩ := halfEven_near x
  have hup : |x| ≤ |(halfEven x : ℚ)| + 1 / 2 := by
    linarith [abs_sub_abs_le_abs_sub x (halfEven x)]
  have hdown : |(halfEven x : ℚ)| ≤ |x| + 1 / 2 := by
    linarith [abs_sub_abs_le_abs_sub (halfEven x : ℚ) x, abs_sub_comm x (halfEven x)]
  constructor
  · intro h
    have hle : |(halfEven x : ℚ)| ≤ m - 1 := by exact_mod_cast Int.le_sub_one_of_lt h
    refine lt_of_le_of_ne (by linarith) fun heq => ?_
    -- a tie, whose even side is the bound
    have habs : |(halfEven x : ℚ)| = m - 1 := le_antisymm hle (by linarith)
    have hnat : (halfEven x).natAbs + 1 = m := by
      have : ((halfEven x).natAbs : ℚ) + 1 = m := by
        rw [Nat.cast_natAbs, Int.cast_abs]
        linarith
      exact_mod_cast this
    have heven := htie (le_antisymm hnear
      (by linarith [abs_sub_abs_le_abs_sub x (halfEven x : ℚ)]))
    rw [← Int.natAbs_even] at heven
    exact Nat.not_even_iff_odd.2 heven.add_one (hnat ▸ hm)
  · intro h
    have hlt : |(halfEven x : ℚ)| < m := by linarith
    exact_mod_cast hlt

/-- The rounded value is below an even number of last places. -/
theorem abs_nearest_lt {q : ℚ} {m : ℕ} (hm : Even m) :
    |nearest q| < m * 2 ^ lastPlace q ↔ |q| < (m - 1 / 2) * 2 ^ lastPlace q := by
  have hpos : (0 : ℚ) < 2 ^ lastPlace q := by positivity
  have hcast : |(halfEven (q / 2 ^ lastPlace q) : ℚ)| < m ↔ |halfEven (q / 2 ^ lastPlace q)| < m := by
    exact_mod_cast Iff.rfl
  rw [nearest, abs_mul, abs_of_pos hpos, mul_lt_mul_iff_left₀ hpos, hcast, abs_halfEven_lt hm,
    abs_div, abs_of_pos hpos, div_lt_iff₀ hpos]

/-- **Where the overflow begins**: halfway between the greatest value and the next. -/
theorem ofRat_eq_none {q : ℚ} : ofRat q = none ↔ 2 ^ 1024 - 2 ^ 970 ≤ |q| := by
  rw [ofRat]
  simp only [ite_eq_right_iff, reduceCtorEq, imp_false, not_lt]
  rw [← not_lt, ← not_lt, not_iff_not]
  have hbits : |q| < 2 ^ lastPlace q * 2 ^ 53 := by
    have := abs_lt_lastPlace q
    rwa [zpow_add₀ two_ne_zero] at this
  have hsize : (2 : ℚ) ^ 1024 = 2 ^ 54 * 2 ^ 970 := by rw [← pow_add]
  have hunit : (0 : ℚ) < 2 ^ 970 := by positivity
  have hpos : (0 : ℚ) < 2 ^ lastPlace q := by positivity
  rcases lt_trichotomy (lastPlace q) 971 with h | h | h
  · -- the value has a smaller last place than the greatest ones
    have hplace : (2 : ℚ) ^ lastPlace q ≤ 2 ^ 970 := by
      rw [← zpow_natCast]
      exact zpow_le_zpow_right₀ one_le_two (by push_cast; omega)
    have hnear := (abs_nearest_lt (q := q) (m := 2 ^ 54) (by decide)).2
    push_cast at hnear
    rw [hsize]
    generalize (2 : ℚ) ^ lastPlace q = p at *
    generalize (2 : ℚ) ^ 970 = unit at *
    constructor
    · intro _
      linarith only [hbits, hplace, hunit]
    · intro _
      linarith only [hnear (by linarith only [hbits, hpos]), hplace]
  · have hplace : (2 : ℚ) ^ lastPlace q = 2 * 2 ^ 970 := by
      rw [h, ← pow_succ', ← zpow_natCast]
      rfl
    have hnear := abs_nearest_lt (q := q) (m := 2 ^ 53) (by decide)
    push_cast at hnear
    rw [hplace] at hnear
    rw [hsize]
    generalize (2 : ℚ) ^ 970 = unit at *
    constructor
    · intro hlt
      linarith [hnear.1 (by linarith)]
    · intro hlt
      linarith [hnear.2 (by linarith)]
  · -- the value is beyond them
    have hplace : 2 ^ 2 * 2 ^ 970 ≤ (2 : ℚ) ^ lastPlace q := by
      rw [← pow_add, ← zpow_natCast]
      exact zpow_le_zpow_right₀ one_le_two (by push_cast; omega)
    have hq : q ≠ 0 := by
      rintro rfl
      exact absurd h (by decide +kernel)
    have hlow : 2 ^ lastPlace q * 2 ^ 52 ≤ |q| := by
      have := le_abs_of_lastPlace hq (by omega)
      rwa [zpow_add₀ two_ne_zero] at this
    have hnear := (abs_nearest_lt (q := q) (m := 2 ^ 52) (by decide)).1
    push_cast at hnear
    rw [hsize]
    generalize (2 : ℚ) ^ lastPlace q = p at *
    generalize (2 : ℚ) ^ 970 = unit at *
    constructor
    · intro hlt
      linarith [hnear (by linarith)]
    · intro _
      linarith

end Binary64
