import Mathlib.Algebra.Order.Floor.Ring
import Mathlib.Data.Int.Log
import Mathlib.Tactic.GCongr
import Mathlib.Tactic.Linarith
import Mathlib.Tactic.NormNum
import Mathlib.Tactic.Ring

/-!
Roundings of exact numbers over an arbitrary ordered field with a floor: to
the nearest integer with halves going away from zero, to the integer next to
zero, and to a significand of `precision` bits with halves going to the even
neighbour. A binary format rounds to a significand as well, and to a whole
multiple of its least bit, below a limit.
-/

namespace CollectionViewWorkshop.Rounding

universe u
variable {K : Type u} [Field K] [LinearOrder K] [FloorRing K]

def roundHalfAway (value : K) : ℤ :=
  if 0 ≤ value then ⌊value + 1 / 2⌋ else ⌈value - 1 / 2⌉

def truncate (value : K) : ℤ :=
  if 0 ≤ value then ⌊value⌋ else ⌈value⌉

def roundHalfEven (value : K) : ℤ :=
  if value - ⌊value⌋ < 1 / 2 then ⌊value⌋
  else if 1 / 2 < value - ⌊value⌋ then ⌊value⌋ + 1
  else if ⌊value⌋ % 2 = 0 then ⌊value⌋ else ⌊value⌋ + 1

variable [IsStrictOrderedRing K]

theorem roundHalfAway_nonneg (value : K) (sign : 0 ≤ value) : 0 ≤ roundHalfAway value := by
  rw [roundHalfAway, if_pos sign]
  exact Int.floor_nonneg.mpr (by positivity)

/-- A non-negative value survives rounding as at least one exactly from one half on. -/
theorem one_le_roundHalfAway_iff (value : K) (sign : 0 ≤ value) :
    1 ≤ roundHalfAway value ↔ 1 / 2 ≤ value := by
  rw [roundHalfAway, if_pos sign, Int.le_floor]
  constructor
  · intro reached
    push_cast at reached
    linarith
  · intro half
    push_cast
    linarith

theorem roundHalfAway_intCast (whole : ℤ) : roundHalfAway (whole : K) = whole := by
  unfold roundHalfAway
  by_cases sign : (0 : K) ≤ whole
  · rw [if_pos sign, Int.floor_intCast_add]
    norm_num
  · rw [if_neg sign, sub_eq_add_neg, Int.ceil_intCast_add]
    norm_num

theorem roundHalfAway_natCast (whole : ℕ) : roundHalfAway (whole : K) = whole := by
  simpa using roundHalfAway_intCast (K := K) (whole : ℤ)

theorem roundHalfAway_mono (first second : K) (ordered : first ≤ second) :
    roundHalfAway first ≤ roundHalfAway second := by
  unfold roundHalfAway
  by_cases firstSign : 0 ≤ first
  · rw [if_pos firstSign, if_pos (firstSign.trans ordered)]
    exact Int.floor_mono (add_le_add_left ordered _)
  by_cases secondSign : 0 ≤ second
  · -- Zero lies between the two results.
    rw [if_neg firstSign, if_pos secondSign]
    have below : ⌈first - 1 / 2⌉ ≤ 0 := by
      rw [Int.ceil_le]
      push_cast
      linarith [not_le.mp firstSign]
    have above : 0 ≤ ⌊second + 1 / 2⌋ := Int.floor_nonneg.mpr (by positivity)
    exact below.trans above
  · rw [if_neg firstSign, if_neg secondSign]
    exact Int.ceil_mono (sub_le_sub_right ordered _)

theorem roundHalfAway_near (value : K) : |(roundHalfAway value : K) - value| ≤ 1 / 2 := by
  unfold roundHalfAway
  rw [abs_le]
  by_cases sign : 0 ≤ value
  · rw [if_pos sign]
    have low := Int.floor_le (value + 1 / 2)
    have high := Int.lt_floor_add_one (value + 1 / 2)
    constructor <;> linarith
  · rw [if_neg sign]
    have low := Int.le_ceil (value - 1 / 2)
    have high := Int.ceil_lt_add_one (value - 1 / 2)
    constructor <;> linarith

/-- A little less than `count` units counts as one unit less. -/
theorem truncate_just_below (unit rest : K) (count : ℕ) (counted : 1 ≤ count)
    (positive : 0 < rest) (short : rest ≤ unit) :
    truncate ((count * unit - rest) / unit) = count - 1 := by
  have someUnit : 0 < unit := positive.trans_le short
  have low : ((count - 1 : ℤ) : K) ≤ (count * unit - rest) / unit := by
    rw [le_div_iff₀ someUnit]
    push_cast
    linarith
  have high : (count * unit - rest) / unit < ((count - 1 : ℤ) : K) + 1 := by
    rw [div_lt_iff₀ someUnit]
    push_cast
    linarith
  have sign : 0 ≤ (count * unit - rest) / unit := by
    have whole : (0 : K) ≤ ((count - 1 : ℤ) : K) := by exact_mod_cast (by omega)
    exact whole.trans low
  rw [truncate, if_pos sign]
  exact Int.floor_eq_iff.mpr ⟨low, high⟩

/-! Whole pitches counted from an origin, rounded down and up. -/

theorem floor_pitches_le_iff (origin pitch value : K) (index : ℤ) (positive : 0 < pitch) :
    ⌊(value - origin) / pitch⌋ ≤ index ↔ value < origin + (index + 1) * pitch := by
  rw [← Int.lt_add_one_iff, Int.floor_lt, div_lt_iff₀ positive, sub_lt_iff_lt_add']
  push_cast
  rfl

theorem lt_ceil_pitches_iff (origin pitch value : K) (index : ℤ) (positive : 0 < pitch) :
    index < ⌈(value - origin) / pitch⌉ ↔ origin + index * pitch < value := by
  rw [Int.lt_ceil, lt_div_iff₀ positive, lt_sub_iff_add_lt']

theorem roundHalfEven_intCast (whole : ℤ) : roundHalfEven (whole : K) = whole := by
  simp [roundHalfEven]

theorem roundHalfEven_near (value : K) : |(roundHalfEven value : K) - value| ≤ 1 / 2 := by
  have low := Int.floor_le value
  have high := Int.lt_floor_add_one value
  unfold roundHalfEven
  rw [abs_le]
  by_cases down : value - ⌊value⌋ < 1 / 2
  · rw [if_pos down]
    constructor <;> linarith
  rw [if_neg down]
  by_cases up : 1 / 2 < value - ⌊value⌋
  · rw [if_pos up]
    push_cast
    constructor <;> linarith
  · rw [if_neg up]
    split
    · constructor <;> linarith
    · push_cast
      constructor <;> linarith

omit [IsStrictOrderedRing K] in
theorem roundHalfEven_nonneg (value : K) (sign : 0 ≤ value) : 0 ≤ roundHalfEven value := by
  have low : 0 ≤ ⌊value⌋ := Int.floor_nonneg.mpr sign
  unfold roundHalfEven
  split
  · exact low
  · split
    · omega
    · split <;> omega

theorem roundHalfEven_le (value : K) (whole : ℤ) (near : value < whole + 1 / 2) :
    roundHalfEven value ≤ whole := by
  -- nothing nearer to the number than to the next one is rounded past it
  have error := (abs_le.mp (roundHalfEven_near value)).2
  have below : (roundHalfEven value : K) < ((whole + 1 : ℤ) : K) := by
    push_cast
    linarith
  exact Int.lt_add_one_iff.mp (by exact_mod_cast below)

def lastBit (precision : ℕ) (value : K) : K :=
  2 ^ (Int.log 2 |value| + 1 - precision)

def roundSignificand (precision : ℕ) (value : K) : K :=
  roundHalfEven (value / lastBit precision value) * lastBit precision value

theorem lastBit_pos (precision : ℕ) (value : K) : 0 < lastBit precision value :=
  zpow_pos two_pos _

theorem roundSignificand_of_multiple (precision : ℕ) (value : K) (count : ℤ)
    (multiple : value / lastBit precision value = count) :
    roundSignificand precision value = value := by
  rw [roundSignificand, multiple, roundHalfEven_intCast, ← multiple]
  exact div_mul_cancel₀ value (lastBit_pos precision value).ne'

theorem roundSignificand_zero (precision : ℕ) : roundSignificand precision (0 : K) = 0 :=
  roundSignificand_of_multiple precision 0 0 (by simp)

/-- The value is a whole number of at most `precision` bits, or one more than
the largest of them, scaled by a power of two. -/
def Fits (precision : ℕ) (value : K) : Prop :=
  ∃ count exponent : ℤ, |count| ≤ 2 ^ precision ∧ value = count * 2 ^ exponent

omit [LinearOrder K] [FloorRing K] [IsStrictOrderedRing K] in
theorem fits_natCast (precision whole : ℕ) (bounded : whole ≤ 2 ^ precision) :
    Fits precision (whole : K) := by
  refine ⟨whole, 0, ?_, by simp⟩
  rw [Nat.abs_cast]
  exact_mod_cast bounded

theorem log_scaled (whole : ℕ) (positive : 0 < whole) (exponent : ℤ) :
    Int.log 2 ((whole : K) * 2 ^ exponent) = Nat.log 2 whole + exponent := by
  have unit : (0 : K) < 2 ^ exponent := zpow_pos two_pos exponent
  have scaled : (0 : K) < whole * 2 ^ exponent := mul_pos (Nat.cast_pos.mpr positive) unit
  apply le_antisymm
  · have above : (whole : K) < 2 ^ (Nat.log 2 whole + 1) :=
      mod_cast Nat.lt_pow_succ_log_self one_lt_two whole
    have scaledAbove : (whole : K) * 2 ^ exponent <
        ((2 : ℕ) : K) ^ ((Nat.log 2 whole : ℤ) + exponent + 1) := by
      rw [show (Nat.log 2 whole : ℤ) + exponent + 1 = ((Nat.log 2 whole + 1 : ℕ) : ℤ) + exponent by
        push_cast; ring, Nat.cast_two, zpow_add₀ two_ne_zero, zpow_natCast]
      exact mul_lt_mul_of_pos_right above unit
    have := (Int.lt_zpow_iff_log_lt one_lt_two scaled).mp scaledAbove
    omega
  · have below : (2 : K) ^ Nat.log 2 whole ≤ whole :=
      mod_cast Nat.pow_log_le_self 2 positive.ne'
    apply (Int.zpow_le_iff_le_log one_lt_two scaled).mp
    rw [Nat.cast_two, zpow_add₀ two_ne_zero, zpow_natCast]
    exact mul_le_mul_of_nonneg_right below unit.le

theorem lastBit_scaled (precision : ℕ) (count exponent : ℤ) (nonzero : count ≠ 0) :
    lastBit precision ((count : K) * 2 ^ exponent) =
      2 ^ ((Nat.log 2 count.natAbs : ℤ) + exponent + 1 - precision) := by
  have size : |(count : K) * 2 ^ exponent| = (count.natAbs : K) * 2 ^ exponent := by
    have unit : (0 : K) < 2 ^ exponent := zpow_pos two_pos exponent
    rw [abs_mul, abs_of_pos unit, Nat.cast_natAbs, Int.cast_abs]
  rw [lastBit, size, log_scaled count.natAbs (Int.natAbs_pos.mpr nonzero)]

theorem roundSignificand_of_fits (precision : ℕ) (hasBits : 0 < precision) (value : K)
    (fits : Fits precision value) : roundSignificand precision value = value := by
  obtain ⟨count, exponent, bounded, rfl⟩ := fits
  by_cases nonzero : count = 0
  · subst nonzero
    simpa using roundSignificand_zero (K := K) precision
  have bit := lastBit_scaled (K := K) precision count exponent nonzero
  have inside : count.natAbs ≤ 2 ^ precision := by
    rw [Int.abs_eq_natAbs] at bounded
    exact_mod_cast bounded
  rcases Nat.lt_or_ge count.natAbs (2 ^ precision) with below | top
  · -- The last bit weighs at most the unit of `count`, so dividing by it multiplies.
    have short : Nat.log 2 count.natAbs + 1 ≤ precision :=
      Nat.log_lt_of_lt_pow (Int.natAbs_ne_zero.mpr nonzero) below
    obtain ⟨spare, filled⟩ := Nat.exists_eq_add_of_le short
    apply roundSignificand_of_multiple precision _ (count * 2 ^ spare)
    rw [bit, mul_div_assoc, ← zpow_sub₀ two_ne_zero]
    have shift : exponent - ((Nat.log 2 count.natAbs : ℤ) + exponent + 1 - precision) = spare := by
      rw [filled]
      push_cast
      ring
    rw [shift, zpow_natCast]
    push_cast
    rfl
  · -- Only `2 ^ precision` itself needs one bit more, and its last bit is zero.
    have power : count.natAbs = 2 ^ precision := le_antisymm inside top
    obtain ⟨bits, rfl⟩ := Nat.exists_eq_succ_of_ne_zero hasBits.ne'
    have even : (2 : ℤ) ∣ count := by
      rw [← Int.natAbs_dvd_natAbs, power]
      exact Dvd.intro_left (2 ^ bits) (pow_succ 2 bits).symm
    obtain ⟨half, rfl⟩ := even
    apply roundSignificand_of_multiple _ _ half
    rw [bit, power, Nat.log_pow one_lt_two, mul_div_assoc, ← zpow_sub₀ two_ne_zero]
    have shift :
        exponent - (((bits.succ : ℕ) : ℤ) + exponent + 1 - ((bits.succ : ℕ) : ℤ)) = -1 := by
      ring
    rw [shift, zpow_neg_one]
    push_cast
    field_simp

/-- Rounding keeps exactly the values that fit the significand. -/
theorem roundSignificand_eq_iff (precision : ℕ) (hasBits : 0 < precision) (value : K) :
    roundSignificand precision value = value ↔ Fits precision value := by
  constructor
  · intro kept
    have size : |value| < 2 ^ precision * lastBit precision value := by
      rw [lastBit, ← zpow_natCast, ← zpow_add₀ two_ne_zero, add_sub_cancel]
      exact_mod_cast Int.lt_zpow_succ_log_self one_lt_two |value|
    have unit := lastBit_pos precision value
    refine ⟨roundHalfEven (value / lastBit precision value),
      Int.log 2 |value| + 1 - precision, ?_, kept.symm⟩
    have counted : |(roundHalfEven (value / lastBit precision value) : K)| *
        lastBit precision value = |value| := by
      conv_rhs => rw [← kept, roundSignificand, abs_mul, abs_of_pos unit]
    rw [← counted] at size
    have bounded := (lt_of_mul_lt_mul_right size unit.le).le
    exact_mod_cast bounded
  · exact roundSignificand_of_fits precision hasBits value

/-! How far a value is moved, and what it is not moved across. -/

theorem roundSignificand_nonneg (precision : ℕ) (value : K) (sign : 0 ≤ value) :
    0 ≤ roundSignificand precision value := by
  have unit := lastBit_pos precision value
  have count := roundHalfEven_nonneg (value / lastBit precision value) (by positivity)
  have : (0 : K) ≤ roundHalfEven (value / lastBit precision value) := by exact_mod_cast count
  exact mul_nonneg this unit.le

theorem lastBit_eq (precision : ℕ) (value : K) :
    lastBit precision value = 2 * 2 ^ Int.log 2 |value| / 2 ^ precision := by
  have two : (2 : K) ≠ 0 := two_pos.ne'
  rw [lastBit, zpow_sub₀ two, zpow_add_one₀ two, zpow_natCast, mul_comm (2 : K)]

theorem lastBit_le (precision : ℕ) (value : K) (nonzero : value ≠ 0) :
    lastBit precision value ≤ 2 * |value| / 2 ^ precision := by
  have low : (2 : K) ^ Int.log 2 |value| ≤ |value| := by
    exact_mod_cast Int.zpow_log_le_self one_lt_two (abs_pos.mpr nonzero)
  rw [lastBit_eq]
  gcongr

theorem lt_lastBit (precision : ℕ) (value : K) :
    |value| / 2 ^ precision < lastBit precision value := by
  have high : |value| < 2 ^ (Int.log 2 |value| + 1) := by
    exact_mod_cast Int.lt_zpow_succ_log_self one_lt_two |value|
  rw [zpow_add_one₀ two_ne_zero] at high
  rw [lastBit_eq]
  gcongr
  linarith

theorem roundSignificand_near (precision : ℕ) (value : K) :
    |roundSignificand precision value - value| ≤ |value| / 2 ^ precision := by
  by_cases zero : value = 0
  · rw [zero, roundSignificand_zero]
    simp
  have unit := lastBit_pos precision value
  have split : roundSignificand precision value - value =
      (roundHalfEven (value / lastBit precision value) - value / lastBit precision value) *
        lastBit precision value := by
    rw [sub_mul, div_mul_cancel₀ value unit.ne', roundSignificand]
  calc |roundSignificand precision value - value|
      = |roundHalfEven (value / lastBit precision value) - value / lastBit precision value| *
          lastBit precision value := by rw [split, abs_mul, abs_of_pos unit]
    _ ≤ 1 / 2 * lastBit precision value :=
        mul_le_mul_of_nonneg_right (roundHalfEven_near _) unit.le
    _ ≤ 1 / 2 * (2 * |value| / 2 ^ precision) :=
        mul_le_mul_of_nonneg_left (lastBit_le precision value zero) (by norm_num)
    _ = |value| / 2 ^ precision := by ring

/-- A value hardly above a number of `precision` bits has no last bit that the
number is not a multiple of. -/
theorem multiple_of_lastBit (precision whole : ℕ) (hasBits : 0 < precision) (value : K)
    (positive : 0 < value) (bounded : whole ≤ 2 ^ precision)
    (near : value * (2 * 2 ^ precision - 1) ≤ whole * (2 * 2 ^ precision)) :
    ∃ count : ℤ, (whole : K) = count * lastBit precision value := by
  by_cases fraction : Int.log 2 value + 1 - precision ≤ 0
  · -- The last bit weighs one or less.
    obtain ⟨shift, isShift⟩ := Int.eq_ofNat_of_zero_le (neg_nonneg.mpr fraction)
    refine ⟨whole * 2 ^ shift, ?_⟩
    rw [lastBit, abs_of_pos positive, ← neg_neg (Int.log 2 value + 1 - precision), isShift,
      zpow_neg]
    simp
  · -- Then the value has one bit more, and the number can only be the largest one.
    have two : (2 : K) ≤ 2 ^ precision := le_self_pow₀ one_le_two hasBits.ne'
    have bound : (whole : K) ≤ 2 ^ precision := by exact_mod_cast bounded
    have large : (2 : K) ^ precision ≤ value := by
      have exponent : (precision : ℤ) ≤ Int.log 2 value := by omega
      exact_mod_cast (Int.zpow_le_iff_le_log one_lt_two positive).mpr exponent
    have small : value < 2 ^ (precision + 1) := by
      rw [pow_succ]
      nlinarith
    have isPower : whole = 2 ^ precision := by
      have above : ((2 ^ precision : ℕ) : K) < ((whole + 1 : ℕ) : K) := by
        push_cast
        nlinarith
      have := Nat.cast_lt.mp above
      omega
    have exponent : Int.log 2 value = precision := by
      have below : Int.log 2 value < precision + 1 :=
        (Int.lt_zpow_iff_log_lt one_lt_two positive).mp (by exact_mod_cast small)
      omega
    obtain ⟨bits, rfl⟩ := Nat.exists_eq_add_of_lt hasBits
    refine ⟨2 ^ bits, ?_⟩
    rw [lastBit, abs_of_pos positive, exponent, isPower, add_sub_cancel_left, zpow_one]
    push_cast
    ring

theorem roundSignificand_le_natCast (precision whole : ℕ) (hasBits : 0 < precision) (value : K)
    (positive : 0 < value) (bounded : whole ≤ 2 ^ precision)
    (near : value * (2 * 2 ^ precision - 1) ≤ whole * (2 * 2 ^ precision)) :
    roundSignificand precision value ≤ whole := by
  obtain ⟨count, multiple⟩ :=
    multiple_of_lastBit precision whole hasBits value positive bounded near
  have unit := lastBit_pos precision value
  have heavy := lt_lastBit precision value
  rw [abs_of_pos positive, div_lt_iff₀ (by positivity)] at heavy
  have counted : value / lastBit precision value < count + 1 / 2 := by
    rw [div_lt_iff₀ unit, add_mul, ← multiple]
    have power : (0 : K) < 2 ^ precision := by positivity
    nlinarith
  have notAbove := roundHalfEven_le _ count counted
  rw [roundSignificand, multiple]
  exact mul_le_mul_of_nonneg_right (by exact_mod_cast notAbove) unit.le

/-! Formats whose exponents have a range. -/

/-- No bit weighs less than `2 ^ leastBit`, and no value reaches `2 ^ limit`. -/
structure BinaryFormat where
  precision : ℕ
  leastBit : ℤ
  limit : ℤ

namespace BinaryFormat

variable (format : BinaryFormat)

def lastBit (value : K) : K :=
  max (Rounding.lastBit format.precision value) (2 ^ format.leastBit)

/-- None where the result is infinite. -/
def round (value : K) : Option K :=
  let rounded := roundHalfEven (value / format.lastBit value) * format.lastBit value
  if |rounded| < 2 ^ format.limit then some rounded else none

def Holds (value : K) : Prop :=
  Fits format.precision value ∧ (∃ count : ℤ, value = count * 2 ^ format.leastBit) ∧
    |value| < 2 ^ format.limit

theorem kept_iff (hasBits : 0 < format.precision) (value : K) :
    roundHalfEven (value / format.lastBit value) * format.lastBit value = value ↔
      Fits format.precision value ∧ ∃ count : ℤ, value = count * 2 ^ format.leastBit := by
  have least : (0 : K) < 2 ^ format.leastBit := zpow_pos two_pos _
  rcases le_total (Rounding.lastBit format.precision value) (2 ^ format.leastBit) with
    tiny | normal
  · -- the least bit decides, and what is a multiple of it has few bits
    rw [lastBit, max_eq_right tiny]
    constructor
    · intro kept
      refine ⟨⟨_, format.leastBit, ?_, kept.symm⟩, _, kept.symm⟩
      have size : |value| < 2 ^ format.precision * Rounding.lastBit format.precision value := by
        have heavy := lt_lastBit format.precision value
        rwa [div_lt_iff₀' (by positivity)] at heavy
      have counted : |(roundHalfEven (value / 2 ^ format.leastBit) : K)| * 2 ^ format.leastBit =
          |value| := by
        conv_rhs => rw [← kept, abs_mul, abs_of_pos least]
      have bounded : |(roundHalfEven (value / 2 ^ format.leastBit) : K)| * 2 ^ format.leastBit <
          2 ^ format.precision * 2 ^ format.leastBit := by
        rw [counted]
        exact size.trans_le (mul_le_mul_of_nonneg_left tiny (by positivity))
      exact_mod_cast (lt_of_mul_lt_mul_right bounded least.le).le
    · rintro ⟨-, count, multiple⟩
      have whole : value / 2 ^ format.leastBit = count := by
        rw [multiple, mul_div_cancel_right₀ _ least.ne']
      rw [whole, roundHalfEven_intCast, multiple]
  · rw [lastBit, max_eq_left normal, ← roundSignificand_eq_iff format.precision hasBits]
    constructor
    · intro kept
      refine ⟨kept, ?_⟩
      -- the last bit is the least one times a power of two
      have exponents : format.leastBit ≤ Int.log 2 |value| + 1 - format.precision :=
        (zpow_le_zpow_iff_right₀ one_lt_two).mp normal
      obtain ⟨shift, isShift⟩ := Int.eq_ofNat_of_zero_le (sub_nonneg.mpr exponents)
      have bit : Rounding.lastBit format.precision value = 2 ^ shift * 2 ^ format.leastBit := by
        have exponent : Int.log 2 |value| + 1 - format.precision = shift + format.leastBit := by
          omega
        rw [Rounding.lastBit, exponent, zpow_add₀ two_ne_zero, zpow_natCast]
      refine ⟨roundHalfEven (value / Rounding.lastBit format.precision value) * 2 ^ shift, ?_⟩
      push_cast
      rw [mul_assoc, ← bit]
      exact kept.symm
    · exact And.left

/-- A format keeps exactly the values it holds. -/
theorem round_eq_some_iff (hasBits : 0 < format.precision) (value : K) :
    format.round value = some value ↔ format.Holds value := by
  rw [Holds, ← and_assoc, ← kept_iff format hasBits]
  simp only [round]
  constructor
  · intro kept
    split at kept
    · rename_i inside
      have same := Option.some.inj kept
      rw [same] at inside
      exact ⟨same, inside⟩
    · cases kept
  · rintro ⟨same, inside⟩
    simp only [same, inside, if_true]

end BinaryFormat

end CollectionViewWorkshop.Rounding
