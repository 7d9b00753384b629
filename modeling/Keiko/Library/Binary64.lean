import Keiko.Library.Number
import Mathlib.Data.Int.Log
import Mathlib.Tactic.Positivity
import Mathlib.Tactic.Ring

/-! Numbers of the binary64 format among the rationals. A rational is rounded to the nearest
multiple of the last place its size leaves, halves to the even one; the numbers of the
format are those that rounding leaves alone. -/
namespace Keiko.Library.Binary64

def roundEven (q : ℚ) : ℤ :=
  let low := ⌊q⌋
  if q - low < 1 / 2 then low
  else if 1 / 2 < q - low then low + 1
  else if low % 2 = 0 then low else low + 1

def lastPlace (q : ℚ) : ℤ := max (Int.log 2 |q|) (-1022) - 52

def round (q : ℚ) : Number :=
  let place := (2 : ℚ) ^ lastPlace q
  let value := roundEven (q / place) * place
  if |value| < 2 ^ 1024 then .finite value else if 0 < q then .infinity else .negInfinity

def Exact (q : ℚ) : Prop := round q = .finite q

theorem roundEven_intCast (n : ℤ) : roundEven n = n := by
  simp [roundEven]

theorem Exact.eq_mul {q : ℚ} (exact : Exact q) : ∃ m : ℤ, q = m * (2 : ℚ) ^ lastPlace q := by
  unfold Exact round at exact
  dsimp only at exact
  split at exact
  · exact ⟨_,(Number.finite.inj exact).symm⟩
  · split at exact <;> cases exact

theorem exact_zero : Exact 0 := by
  unfold Exact round
  have zero : roundEven 0 = 0 := roundEven_intCast 0
  simp [zero]

theorem Exact.neg {q : ℚ} (exact : Exact q) : Exact (-q) := by
  obtain ⟨m,multiple⟩ := exact.eq_mul
  have places : lastPlace (-q) = lastPlace q := by rw [lastPlace,lastPlace,abs_neg]
  have nonzero : (2 : ℚ) ^ lastPlace q ≠ 0 := zpow_ne_zero _ (by norm_num)
  have quotient : q / (2 : ℚ) ^ lastPlace q = m := by
    rw [div_eq_iff nonzero]
    exact multiple
  have quotient' : -q / (2 : ℚ) ^ lastPlace q = ((-m : ℤ) : ℚ) := by
    rw [neg_div,quotient,Int.cast_neg]
  unfold Exact round at exact ⊢
  simp only [places,quotient,quotient',roundEven_intCast] at exact ⊢
  rw [← multiple] at exact
  rw [Int.cast_neg,neg_mul,← multiple,abs_neg]
  split at exact
  case isTrue small => rw [if_pos small]
  case isFalse => split at exact <;> cases exact

theorem two_zpow_pos (n : ℤ) : (0 : ℚ) < 2 ^ n := zpow_pos (by norm_num) n

private theorem exact_mul_zpow_of_lt {m place : ℤ} (small : |m| < 2 ^ 53) (low : -1074 ≤ place)
    (bounded : |(m : ℚ) * 2 ^ place| < 2 ^ 1024) : Exact (m * 2 ^ place) := by
  by_cases zero : m = 0
  · subst zero
    simpa using exact_zero
  · have size : (0 : ℚ) < |(m : ℚ) * 2 ^ place| :=
      abs_pos.mpr (mul_ne_zero (Int.cast_ne_zero.mpr zero) (two_zpow_pos place).ne')
    have ds : |(m : ℚ)| < (2 : ℚ) ^ (53 : ℤ) := by
      have cast : ((|m| : ℤ) : ℚ) < ((2 ^ 53 : ℤ) : ℚ) := Int.cast_lt.mpr small
      rw [Int.cast_abs] at cast
      exact_mod_cast cast
    have bound : |(m : ℚ) * 2 ^ place| < ((2 : ℕ) : ℚ) ^ (53 + place) := by
      rw [abs_mul,abs_of_pos (two_zpow_pos place),Nat.cast_ofNat,zpow_add₀ (by norm_num)]
      exact mul_lt_mul_of_pos_right ds (two_zpow_pos place)
    have places : lastPlace ((m : ℚ) * 2 ^ place) ≤ place := by
      have log := (Int.lt_zpow_iff_log_lt (by norm_num) size).mp bound
      unfold lastPlace
      omega
    obtain ⟨k,apart⟩ := Int.eq_ofNat_of_zero_le (sub_nonneg.mpr places)
    have quotient : (m : ℚ) * 2 ^ place / 2 ^ lastPlace ((m : ℚ) * 2 ^ place) = ((m * 2 ^ k : ℤ) : ℚ) := by
      rw [mul_div_assoc,← zpow_sub₀ (by norm_num : (2 : ℚ) ≠ 0),apart,zpow_natCast]
      push_cast
      rfl
    have product : ((m * 2 ^ k : ℤ) : ℚ) * 2 ^ lastPlace ((m : ℚ) * 2 ^ place) = (m : ℚ) * 2 ^ place := by
      rw [← quotient,div_mul_cancel₀ _ (two_zpow_pos _).ne']
    unfold Exact round
    simp only [quotient,roundEven_intCast,product]
    rw [if_pos bounded]

theorem exact_mul_zpow {m place : ℤ} (small : |m| ≤ 2 ^ 53) (low : -1074 ≤ place)
    (bounded : |(m : ℚ) * 2 ^ place| < 2 ^ 1024) : Exact (m * 2 ^ place) := by
  rcases lt_or_eq_of_le small with less | full
  · exact exact_mul_zpow_of_lt less low bounded
  · -- All 53 bits round up to one bit of the next place.
    have halves : ∃ half : ℤ, m = half * 2 ∧ |half| < 2 ^ 53 := by
      rcases eq_or_eq_neg_of_abs_eq full with up | down
      · exact ⟨2 ^ 52,by omega,by norm_num⟩
      · exact ⟨-2 ^ 52,by omega,by norm_num⟩
    obtain ⟨half,rfl,less⟩ := halves
    have same : ((half * 2 : ℤ) : ℚ) * 2 ^ place = half * 2 ^ (place + 1) := by
      rw [zpow_add_one₀ (by norm_num)]
      push_cast
      ring
    rw [same] at bounded ⊢
    exact exact_mul_zpow_of_lt less (by omega) bounded

theorem roundEven_abs_le {q : ℚ} {bound : ℤ} (small : |q| < bound) : |roundEven q| ≤ bound := by
  obtain ⟨above,below⟩ := abs_lt.mp small
  have low : -bound ≤ ⌊q⌋ := by
    rw [Int.le_floor]
    push_cast
    exact above.le
  have high : ⌊q⌋ < bound := by
    rw [Int.floor_lt]
    exact below
  unfold roundEven
  dsimp only
  rw [abs_le]
  split
  · omega
  split
  · omega
  split <;> omega

theorem exact_of_round {q x : ℚ} (rounded : round q = .finite x) : Exact x := by
  unfold round at rounded
  dsimp only at rounded
  split at rounded
  case isFalse => split at rounded <;> cases rounded
  case isTrue bounded =>
    have v := Number.finite.inj rounded
    have ds : |q / 2 ^ lastPlace q| < ((2 ^ 53 : ℤ) : ℚ) := by
      by_cases zero : q = 0
      · subst zero
        simp
      · have size := Int.lt_zpow_succ_log_self (b := 2) (by norm_num) |q|
        have place : Int.log 2 |q| + 1 ≤ 53 + lastPlace q := by
          unfold lastPlace
          omega
        have wide : |q| < (2 : ℚ) ^ (53 + lastPlace q) :=
          lt_of_lt_of_le size (zpow_le_zpow_right₀ (by norm_num) place)
        rw [abs_div,abs_of_pos (two_zpow_pos _),div_lt_iff₀ (two_zpow_pos _)]
        rw [zpow_add₀ (by norm_num)] at wide
        exact_mod_cast wide
    rw [← v]
    exact exact_mul_zpow (roundEven_abs_le ds) (by unfold lastPlace; omega) bounded

theorem exact_intCast {n : ℤ} (small : |n| < 2 ^ 53) : Exact n := by
  have ds : |(n : ℚ)| < (2 : ℚ) ^ 53 := by
    have cast : ((|n| : ℤ) : ℚ) < ((2 ^ 53 : ℤ) : ℚ) := Int.cast_lt.mpr small
    rw [Int.cast_abs] at cast
    exact_mod_cast cast
  have wide : (2 : ℚ) ^ 53 ≤ 2 ^ 1024 := pow_le_pow_right₀ (by norm_num) (by norm_num)
  have whole : (n : ℚ) * 2 ^ (0 : ℤ) = n := by rw [zpow_zero,mul_one]
  have exact := @exact_mul_zpow n 0 small.le (by norm_num)
  rw [whole] at exact
  exact exact (ds.trans_le wide)

end Keiko.Library.Binary64
