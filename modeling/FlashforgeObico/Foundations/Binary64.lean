import Mathlib.Data.Int.Log
import Mathlib.Data.Rat.Floor
import Mathlib.Algebra.Order.Field.Power
import Mathlib.Tactic.Linarith
import Mathlib.Tactic.NormNum
import Mathlib.Tactic.Positivity
import Mathlib.Tactic.FieldSimp
import Mathlib.Tactic.Ring

/-!
# Binary64 numbers

A `Double` is a binary64 number: a rational that the format represents, an infinity or a NaN. The
two zeros are one value here, since nothing below distinguishes them. `round64` rounds a rational
to the nearest representable one, ties to even, and to an infinity when that overflows, which
happens exactly from `overflowThreshold` on (`isFinite_round64_iff`). The arithmetic is the exact
arithmetic of the rationals followed by `round64`, with the rules of the standard for the
infinities and NaN; comparisons with NaN are false.
-/

/-! ## Rounding to an integer -/

/-- The nearest integer, ties to even. -/
def roundEven (q : ℚ) : ℤ :=
  if q - ⌊q⌋ < 1 / 2 then ⌊q⌋
  else if 1 / 2 < q - ⌊q⌋ then ⌊q⌋ + 1
  else if Even ⌊q⌋ then ⌊q⌋ else ⌊q⌋ + 1

theorem abs_roundEven_sub_le (q : ℚ) : |(roundEven q : ℚ) - q| ≤ 1 / 2 := by
  have h₁ := Int.floor_le q
  have h₂ := Int.lt_floor_add_one q
  unfold roundEven
  split_ifs <;> rw [abs_le] <;> push_cast <;> constructor <;> linarith

theorem roundEven_le_of_lt {q : ℚ} {n : ℤ} (h : q < n + 1 / 2) : roundEven q ≤ n := by
  have h₁ := (abs_le.mp (abs_roundEven_sub_le q)).2
  have h₂ : (roundEven q : ℚ) < n + 1 := by linarith
  exact_mod_cast Int.lt_add_one_iff.mp (by exact_mod_cast h₂)

theorem le_roundEven_of_le {q : ℚ} {n : ℤ} (h : (n : ℚ) ≤ q) : n ≤ roundEven q := by
  have hf : n ≤ ⌊q⌋ := Int.le_floor.mpr h
  unfold roundEven
  split_ifs <;> omega

theorem roundEven_le_of_le {q : ℚ} {n : ℤ} (h : q ≤ n) : roundEven q ≤ n :=
  roundEven_le_of_lt (by linarith)

/-- A tie above an odd integer goes up. -/
theorem le_roundEven_of_odd {q : ℚ} {n : ℤ} (hn : Odd n) (h : (n : ℚ) + 1 / 2 ≤ q) :
    n + 1 ≤ roundEven q := by
  have hf : n ≤ ⌊q⌋ := Int.le_floor.mpr (by linarith)
  rcases hf.lt_or_eq with hlt | rfl
  · exact le_roundEven_of_le ((Int.cast_le.mpr hlt).trans (Int.floor_le q))
  · have h' : ¬ q - ⌊q⌋ < 1 / 2 := by linarith
    unfold roundEven
    rw [if_neg h', if_neg (Int.not_even_iff_odd.mpr hn), ite_self]

/-! ## The format -/

/-- The rationals that binary64 represents: a significand of at most 53 bits times a power of two
in the range of the format. -/
def IsBinary64 (q : ℚ) : Prop :=
  ∃ m e : ℤ, |m| < 2 ^ 53 ∧ -1074 ≤ e ∧ e ≤ 971 ∧ q = m * (2 : ℚ) ^ e

/-- A binary64 number. -/
inductive Double
  | finite (q : ℚ) (h : IsBinary64 q)
  | inf (negative : Bool)
  | nan
  deriving DecidableEq

/-- The exponent of the last place of the numbers of the size of `q`. -/
def lastPlace (q : ℚ) : ℤ := max (Int.log 2 |q| - 52) (-1074)

/-- The multiple of the last place nearest to `q`. -/
def roundPlace (q : ℚ) : ℤ := roundEven (q / (2 : ℚ) ^ lastPlace q)

theorem abs_lt_zpow_lastPlace (q : ℚ) : |q| < (2 : ℚ) ^ 53 * (2 : ℚ) ^ lastPlace q := by
  have h₁ : |q| < (2 : ℚ) ^ (Int.log 2 |q| + 1) := by
    exact_mod_cast Int.lt_zpow_succ_log_self (b := 2) (by norm_num) |q|
  apply h₁.trans_le
  rw [← zpow_natCast, ← zpow_add₀ (by norm_num : (2 : ℚ) ≠ 0)]
  exact zpow_le_zpow_right₀ (by norm_num) (by unfold lastPlace; push_cast; omega)

theorem abs_roundPlace_le (q : ℚ) : |roundPlace q| ≤ 2 ^ 53 := by
  have hpos : (0 : ℚ) < (2 : ℚ) ^ lastPlace q := by positivity
  have h := abs_lt.mp (abs_lt_zpow_lastPlace q)
  have h₁ : q / (2 : ℚ) ^ lastPlace q ≤ ((2 ^ 53 : ℤ) : ℚ) := by
    rw [div_le_iff₀ hpos]; push_cast; exact h.2.le
  have h₂ : ((-2 ^ 53 : ℤ) : ℚ) ≤ q / (2 : ℚ) ^ lastPlace q := by
    rw [le_div_iff₀ hpos]; push_cast; linarith
  exact abs_le.mpr ⟨le_roundEven_of_le h₂, roundEven_le_of_le h₁⟩

theorem roundEven_neg (q : ℚ) : roundEven (-q) = -roundEven q := by
  rcases eq_or_ne (q - ⌊q⌋) 0 with h0 | h0
  · obtain ⟨n, rfl⟩ : ∃ n : ℤ, q = n := ⟨⌊q⌋, by linarith⟩
    rw [← Int.cast_neg]
    unfold roundEven
    simp only [Int.floor_intCast, sub_self]
    norm_num
  · have hpos : 0 < q - ⌊q⌋ := lt_of_le_of_ne (sub_nonneg.mpr (Int.floor_le q)) (Ne.symm h0)
    have hf : ⌊-q⌋ = -⌊q⌋ - 1 := by
      rw [Int.floor_eq_iff]
      push_cast
      constructor <;> linarith [Int.lt_floor_add_one q]
    have hpar : Even (-⌊q⌋ - 1) ↔ ¬ Even ⌊q⌋ := by
      rw [Int.even_sub_one, even_neg]
    unfold roundEven
    simp only [hf, hpar]
    push_cast
    split_ifs <;> first | omega | (exfalso; linarith)

theorem lastPlace_neg (q : ℚ) : lastPlace (-q) = lastPlace q := by
    rw [lastPlace, abs_neg, lastPlace]

/-- The value that `q` rounds to when it does not overflow. -/
def roundValue (q : ℚ) : ℚ := roundPlace q * (2 : ℚ) ^ lastPlace q

theorem roundValue_neg (q : ℚ) : roundValue (-q) = -roundValue q := by
  rw [roundValue, roundPlace, lastPlace_neg, neg_div, roundEven_neg, roundValue, roundPlace]
  push_cast
  ring

/-- Above the subnormal numbers a rounded value has a full significand. -/
theorem two_pow_le_roundPlace {a : ℚ} (ha : 0 < a) (h : -1022 ≤ Int.log 2 a) :
    2 ^ 52 ≤ roundPlace a := by
  have he : lastPlace a = Int.log 2 a - 52 := by
    rw [lastPlace, abs_of_pos ha, max_eq_left (by omega)]
  have hlog : (2 : ℚ) ^ Int.log 2 a ≤ a := by
    exact_mod_cast Int.zpow_log_le_self (b := 2) (by norm_num) ha
  apply le_roundEven_of_le
  rw [he, le_div_iff₀ (by positivity), Int.cast_pow, Int.cast_ofNat, ← zpow_natCast,
    ← zpow_add₀ (by norm_num : (2 : ℚ) ≠ 0)]
  simpa using hlog

/-- The magnitude from which a rational rounds to an infinity: half a last place above the largest
finite number. -/
def overflowThreshold : ℚ := 2 ^ 1024 - 2 ^ 970

/-- Half the last place of the largest finite numbers, in which the bounds below are counted. -/
def topUnit : ℚ := 2 ^ 970

theorem topUnit_pos : 0 < topUnit := by unfold topUnit; positivity

theorem two_pow_1024 : (2 : ℚ) ^ 1024 = 2 ^ 54 * topUnit := by rw [topUnit, ← pow_add]

theorem two_pow_1023 : (2 : ℚ) ^ 1023 = 2 ^ 53 * topUnit := by rw [topUnit, ← pow_add]

theorem two_zpow_970 : (2 : ℚ) ^ (970 : ℤ) = topUnit := by rw [zpow_ofNat, topUnit]

theorem two_zpow_971 : (2 : ℚ) ^ (971 : ℤ) = 2 * topUnit := by
  rw [zpow_ofNat, topUnit, ← pow_succ']

theorem two_zpow_972 : (2 : ℚ) ^ (972 : ℤ) = 2 ^ 2 * topUnit := by
  rw [zpow_ofNat, topUnit, ← pow_add]

theorem overflowThreshold_eq : overflowThreshold = (2 ^ 54 - 1) * topUnit := by
  rw [overflowThreshold, two_pow_1024, sub_one_mul, topUnit]

theorem log_eq_of_bounds {a : ℚ} {k : ℤ} (h₁ : (2 : ℚ) ^ k ≤ a) (h₂ : a < (2 : ℚ) ^ (k + 1)) :
    Int.log 2 a = k := by
  have ha : 0 < a := (zpow_pos (by norm_num : (0 : ℚ) < 2) k).trans_le h₁
  have h₃ : k ≤ Int.log 2 a := (Int.zpow_le_iff_le_log (by norm_num) ha).mp (by exact_mod_cast h₁)
  have h₄ : Int.log 2 a < k + 1 := (Int.lt_zpow_iff_log_lt (by norm_num) ha).mp
    (by exact_mod_cast h₂)
  omega

theorem lastPlace_of_top {a : ℚ} (h₁ : (2 : ℚ) ^ 1023 ≤ a) (h₂ : a < (2 : ℚ) ^ 1024) :
    lastPlace a = 971 := by
  have h : Int.log 2 a = 1023 := by
    refine log_eq_of_bounds ?_ ?_
    · rw [zpow_ofNat]; exact h₁
    · rw [show (1023 + 1 : ℤ) = 1024 from rfl, zpow_ofNat]; exact h₂
  have ha : 0 ≤ a := le_trans (by positivity) h₁
  rw [lastPlace, abs_of_nonneg ha, h]
  norm_num

theorem roundValue_lt_of_lt {a : ℚ} (ha : 0 ≤ a) (h : a < overflowThreshold) :
    roundValue a < 2 ^ 1024 := by
  have hU := topUnit_pos
  rw [overflowThreshold_eq] at h
  rcases lt_or_ge a ((2 : ℚ) ^ 1023) with hlow | hhigh
  · have hlog : Int.log 2 a < 1023 := by
      rcases ha.eq_or_lt with rfl | hpos
      · rw [Int.log_zero_right]; norm_num
      · apply (Int.lt_zpow_iff_log_lt (by norm_num) hpos).mp
        rw [Nat.cast_ofNat, zpow_ofNat]; exact hlow
    have he : lastPlace a ≤ 970 := by rw [lastPlace, abs_of_nonneg ha]; omega
    have hm : (roundPlace a : ℚ) ≤ 2 ^ 53 := by
      exact_mod_cast (abs_le.mp (abs_roundPlace_le a)).2
    calc roundValue a ≤ 2 ^ 53 * (2 : ℚ) ^ lastPlace a :=
          mul_le_mul_of_nonneg_right hm (by positivity)
      _ ≤ 2 ^ 53 * (2 : ℚ) ^ (970 : ℤ) :=
          mul_le_mul_of_nonneg_left (zpow_le_zpow_right₀ (by norm_num) he) (by positivity)
      _ < 2 ^ 1024 := by
          rw [two_zpow_970, two_pow_1024]
          exact mul_lt_mul_of_pos_right (by norm_num) hU
  · have he : lastPlace a = 971 := lastPlace_of_top hhigh (h.trans (by
      rw [two_pow_1024]
      exact mul_lt_mul_of_pos_right (by norm_num) hU))
    have hm : roundPlace a ≤ 2 ^ 53 - 1 := by
      apply roundEven_le_of_lt
      rw [he, div_lt_iff₀ (by positivity), two_zpow_971]
      push_cast
      linarith
    have hm' : (roundPlace a : ℚ) ≤ 2 ^ 53 - 1 := by exact_mod_cast hm
    calc roundValue a ≤ (2 ^ 53 - 1) * (2 : ℚ) ^ lastPlace a :=
          mul_le_mul_of_nonneg_right hm' (by positivity)
      _ < 2 ^ 1024 := by
          rw [he, two_zpow_971, two_pow_1024, ← mul_assoc]
          exact mul_lt_mul_of_pos_right (by norm_num) hU

theorem le_roundValue_of_le {a : ℚ} (h : overflowThreshold ≤ a) : 2 ^ 1024 ≤ roundValue a := by
  have hU := topUnit_pos
  have hT : (2 : ℚ) ^ 1023 ≤ overflowThreshold := by
    rw [overflowThreshold_eq, two_pow_1023]
    exact mul_le_mul_of_nonneg_right (by norm_num) hU.le
  have ha : 0 < a := lt_of_lt_of_le (by positivity) (hT.trans h)
  rcases lt_or_ge a ((2 : ℚ) ^ 1024) with hlow | hhigh
  · have he := lastPlace_of_top (hT.trans h) hlow
    have hm : 2 ^ 53 - 1 + 1 ≤ roundPlace a := by
      apply le_roundEven_of_odd (by decide)
      rw [overflowThreshold_eq] at h
      rw [he, le_div_iff₀ (by positivity), two_zpow_971]
      push_cast
      linarith
    have hm' : (2 : ℚ) ^ 53 ≤ roundPlace a := by
      rw [sub_add_cancel] at hm
      exact_mod_cast hm
    calc (2 : ℚ) ^ 1024 = 2 ^ 53 * (2 : ℚ) ^ lastPlace a := by
          rw [he, two_zpow_971, two_pow_1024]; ring
      _ ≤ roundValue a := mul_le_mul_of_nonneg_right hm' (by positivity)
  · have hlog : 1024 ≤ Int.log 2 a := by
      apply (Int.zpow_le_iff_le_log (by norm_num) ha).mp
      rw [Nat.cast_ofNat, zpow_ofNat]; exact hhigh
    have he : lastPlace a = Int.log 2 a - 52 := by
      rw [lastPlace, abs_of_pos ha, max_eq_left (by omega)]
    have hm : (2 : ℚ) ^ 52 ≤ roundPlace a := by
      exact_mod_cast two_pow_le_roundPlace ha (by omega)
    have hp : (2 : ℚ) ^ (972 : ℤ) ≤ (2 : ℚ) ^ lastPlace a :=
      zpow_le_zpow_right₀ (by norm_num) (by omega)
    calc (2 : ℚ) ^ 1024 = 2 ^ 52 * (2 : ℚ) ^ (972 : ℤ) := by
          rw [two_zpow_972, two_pow_1024]; ring
      _ ≤ 2 ^ 52 * (2 : ℚ) ^ lastPlace a := by gcongr
      _ ≤ roundValue a := mul_le_mul_of_nonneg_right hm (by positivity)

theorem abs_roundValue (q : ℚ) : |roundValue q| = |roundValue (|q|)| := by
  rcases abs_choice q with h | h
  · rw [h]
  · rw [h, roundValue_neg, abs_neg]

theorem roundValue_nonneg {a : ℚ} (ha : 0 ≤ a) : 0 ≤ roundValue a := by
  have hm : 0 ≤ roundPlace a := le_roundEven_of_le (by push_cast; positivity)
  have hm' : (0 : ℚ) ≤ roundPlace a := by exact_mod_cast hm
  exact mul_nonneg hm' (by positivity)

/-- Rounding overflows exactly from the threshold on. -/
theorem abs_roundValue_lt_iff (q : ℚ) : |roundValue q| < 2 ^ 1024 ↔ |q| < overflowThreshold := by
  rw [abs_roundValue, abs_of_nonneg (roundValue_nonneg (abs_nonneg q))]
  constructor
  · intro h
    by_contra h'
    exact absurd (le_roundValue_of_le (not_lt.mp h')) (not_le.mpr h)
  · exact roundValue_lt_of_lt (abs_nonneg q)

theorem lastPlace_le_of_lt {q : ℚ} (h : |q| < overflowThreshold) : lastPlace q ≤ 971 := by
  have hlt : |q| < (2 : ℚ) ^ 1024 := by
    apply h.trans_le
    rw [overflowThreshold_eq, two_pow_1024]
    exact mul_le_mul_of_nonneg_right (by norm_num) topUnit_pos.le
  have hlog : Int.log 2 |q| < 1024 := by
    rcases (abs_nonneg q).eq_or_lt with h0 | hpos
    · rw [← h0, Int.log_zero_right]; norm_num
    · apply (Int.lt_zpow_iff_log_lt (by norm_num) hpos).mp
      rw [Nat.cast_ofNat, zpow_ofNat]; exact hlt
  rw [lastPlace]
  omega

/-- A rounded value that does not overflow is in the format. -/
theorem isBinary64_roundValue {q : ℚ} (h : |roundValue q| < 2 ^ 1024) :
    IsBinary64 (roundValue q) := by
  have he := lastPlace_le_of_lt ((abs_roundValue_lt_iff q).mp h)
  have he' : -1074 ≤ lastPlace q := le_max_right _ _
  rcases (abs_roundPlace_le q).lt_or_eq with hm | hm
  · exact ⟨roundPlace q, lastPlace q, hm, he', he, rfl⟩
  · -- the significand rounded up to `2 ^ 53`: one place further left it has a single bit
    have hlt : lastPlace q < 971 := by
      by_contra hge
      have heq : lastPlace q = 971 := by omega
      have hcast : |(roundPlace q : ℚ)| = 2 ^ 53 := by exact_mod_cast hm
      rw [roundValue, abs_mul, hcast, heq, two_zpow_971, two_pow_1024,
        abs_of_pos (mul_pos (by norm_num) topUnit_pos)] at h
      linarith
    have hshift : (2 : ℚ) ^ lastPlace q * 2 = (2 : ℚ) ^ (lastPlace q + 1) :=
      (zpow_add_one₀ (by norm_num) _).symm
    rcases (abs_eq (by norm_num)).mp hm with hm | hm
    · refine ⟨2 ^ 52, lastPlace q + 1, by norm_num, by omega, by omega, ?_⟩
      rw [roundValue, hm, ← hshift]
      push_cast
      ring
    · refine ⟨-2 ^ 52, lastPlace q + 1, by norm_num, by omega, by omega, ?_⟩
      rw [roundValue, hm, ← hshift]
      push_cast
      ring

/-! ## Conversions -/

namespace Double

/-- The binary64 number that a rational rounds to. -/
def round64 (q : ℚ) : Double :=
  if h : |roundValue q| < 2 ^ 1024 then .finite (roundValue q) (isBinary64_roundValue h)
  else .inf (decide (q < 0))

instance : Zero Double := ⟨.finite 0 ⟨0, 0, by norm_num, by norm_num, by norm_num, by norm_num⟩⟩

instance : One Double := ⟨.finite 1 ⟨1, 0, by norm_num, by norm_num, by norm_num, by norm_num⟩⟩

/-- Whether a number is neither infinite nor a NaN. -/
def isFinite : Double → Bool
  | .finite _ _ => true
  | _ => false

theorem isFinite_round64_iff (q : ℚ) : (round64 q).isFinite = true ↔ |q| < overflowThreshold := by
  rw [← abs_roundValue_lt_iff]
  unfold round64
  split_ifs with h <;> simp [isFinite, h]

/-- The binary64 number nearest to an integer, unless the integer is too large for the format. -/
def ofInt? (n : ℤ) : Option Double :=
  if (round64 n).isFinite then some (round64 n) else none

theorem ofInt?_eq_none_iff (n : ℤ) : ofInt? n = none ↔ overflowThreshold ≤ |(n : ℚ)| := by
  rw [← not_lt, ← isFinite_round64_iff]
  unfold ofInt?
  split_ifs with h <;> simp [h]

/-- The integer that a number is equal to, if any. -/
def toInt? : Double → Option ℤ
  | .finite q _ => if q.den = 1 then some q.num else none
  | _ => none

/-! ## Comparison -/

/-- The position of a number in the order of the extended rationals; a NaN has none. -/
def rank : Double → Option (ℤ × ℚ)
  | .inf true => some (-1, 0)
  | .finite q _ => some (0, q)
  | .inf false => some (1, 0)
  | .nan => none

/-- `x < y`; false when either is a NaN. -/
def lt (x y : Double) : Bool :=
  match x.rank, y.rank with
  | some a, some b => a.1 < b.1 || a.1 == b.1 && a.2 < b.2
  | _, _ => false

/-- `x ≤ y`; false when either is a NaN. -/
def le (x y : Double) : Bool :=
  match x.rank, y.rank with
  | some a, some b => a.1 < b.1 || a.1 == b.1 && a.2 ≤ b.2
  | _, _ => false

instance : LT Double := ⟨fun x y => x.lt y = true⟩

instance : LE Double := ⟨fun x y => x.le y = true⟩

instance (x y : Double) : Decidable (x < y) := inferInstanceAs (Decidable (x.lt y = true))

instance (x y : Double) : Decidable (x ≤ y) := inferInstanceAs (Decidable (x.le y = true))

theorem rank_eq_none_iff {x : Double} : x.rank = none ↔ x = .nan := by
  rcases x with _ | (_ | _) | _ <;> simp [rank]

/-- Numbers other than NaN are totally ordered. -/
theorem le_of_not_lt {x y : Double} (hx : x ≠ .nan) (hy : y ≠ .nan) (h : ¬ x < y) : y ≤ x := by
  obtain ⟨a, ha⟩ := Option.ne_none_iff_exists'.mp (mt rank_eq_none_iff.mp hx)
  obtain ⟨b, hb⟩ := Option.ne_none_iff_exists'.mp (mt rank_eq_none_iff.mp hy)
  change ¬ x.lt y = true at h
  change y.le x = true
  simp only [lt, le, ha, hb, Bool.or_eq_true, Bool.and_eq_true, decide_eq_true_eq, beq_iff_eq,
    not_or, not_and, not_lt] at h ⊢
  rcases h.1.lt_or_eq with hlt | heq
  · exact Or.inl hlt
  · exact Or.inr ⟨heq, h.2 heq.symm⟩

theorem not_nan_le (x : Double) : ¬ (.nan : Double) ≤ x := by
  change ¬ le .nan x = true
  simp [le, rank]

/-! ## Arithmetic -/

/-- Subtraction. -/
protected def sub : Double → Double → Double
  | .nan, _ | _, .nan => .nan
  | .inf s, .inf t => if s = t then .nan else .inf s
  | .inf s, .finite _ _ => .inf s
  | .finite _ _, .inf s => .inf (!s)
  | .finite p _, .finite q _ => round64 (p - q)

/-- Multiplication. -/
protected def mul : Double → Double → Double
  | .nan, _ | _, .nan => .nan
  | .inf s, .inf t => .inf (s != t)
  | .inf s, .finite q _ => if q = 0 then .nan else .inf (s != decide (q < 0))
  | .finite p _, .inf t => if p = 0 then .nan else .inf (decide (p < 0) != t)
  | .finite p _, .finite q _ => round64 (p * q)

/-- Division by a number other than zero. -/
protected def div : Double → Double → Double
  | .nan, _ | _, .nan => .nan
  | .inf _, .inf _ => .nan
  | .inf s, .finite q _ => .inf (s != decide (q < 0))
  | .finite _ _, .inf _ => 0
  | .finite p _, .finite q _ => round64 (p / q)

instance : Sub Double := ⟨Double.sub⟩

instance : Mul Double := ⟨Double.mul⟩

instance : Div Double := ⟨Double.div⟩

/-- The remainder of a division, with the sign of the dividend. -/
def rem : Double → Double → Double
  | .finite p _, .finite q _ =>
    if q = 0 then .nan else round64 (p - q * if 0 ≤ p / q then ⌊p / q⌋ else ⌈p / q⌉)
  | .finite p h, .inf _ => .finite p h
  | _, _ => .nan

/-- Rounding down to an integer. -/
def floor : Double → Double
  | .finite q _ => round64 ⌊q⌋
  | x => x

/-- Rounding to the nearest integer, ties up. -/
def roundUp : Double → Double
  | .finite q _ => round64 ((⌊q + q⌋ + 1) / 2 : ℤ)
  | x => x

/-- Rounding to `n` decimals, ties to even on the exact value. -/
def roundDecimals (n : ℕ) : Double → Double
  | .finite q _ => round64 (roundEven (q * 10 ^ n) / 10 ^ n)
  | x => x

end Double
