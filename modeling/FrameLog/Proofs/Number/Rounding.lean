import FrameLog.Number.Binary64
import Mathlib.Algebra.Group.Nat.Defs

/-!
# Rounding integers

An integer is rounded to the finite number nearest to it, and of two that are equally near to the one
with the even significand. Up to `2 ^ 53` nothing is lost.
-/

namespace FrameLog.Binary64

variable {x y : Binary64}

/-! ## Significand and scale -/

theorem fraction_lt (x : Binary64) : x.fraction < 2 ^ 52 := Nat.mod_lt _ (Nat.two_pow_pos 52)

theorem exponent_lt (x : Binary64) : x.exponent < 2 ^ 11 := Nat.mod_lt _ (Nat.two_pow_pos 11)

theorem significand_lt (x : Binary64) : x.significand < 2 ^ 53 := by
  have hfraction := x.fraction_lt
  unfold significand
  split
  · omega
  · simp only [Nat.pow_eq]
    omega

/-- Only at the smallest scale may the leading bit be missing. -/
theorem leading_or_scale (x : Binary64) : 2 ^ 52 ≤ x.significand ∨ x.scale = 0 := by
  unfold significand scale
  split
  · rename_i h
    exact .inr (by omega)
  · exact .inl (Nat.le_add_right _ _)

theorem isFinite_iff : x.isFinite = true ↔ x.scale ≤ 2045 := by
  have hexponent := x.exponent_lt
  simp only [isFinite, scale, bne_iff_ne, ne_eq]
  omega

/-- No significand reaches the numbers of a larger scale. -/
theorem mul_two_pow_lt {m s t : Nat} (hm : m < 2 ^ 53) (h : s < t) :
    m * 2 ^ s < 2 ^ 52 * 2 ^ t :=
  calc m * 2 ^ s < 2 ^ 53 * 2 ^ s := Nat.mul_lt_mul_of_pos_right hm (Nat.two_pow_pos _)
    _ = 2 ^ 52 * 2 ^ (s + 1) := by rw [Nat.pow_succ 2 s]; omega
    _ ≤ 2 ^ 52 * 2 ^ t := Nat.mul_le_mul_left _ (Nat.pow_le_pow_right (by decide) h)

/-- A number of a larger scale is larger. -/
theorem magnitude_lt_of_scale_lt (h : x.scale < y.scale) :
    x.magnitude < 2 ^ 52 * 2 ^ y.scale ∧ 2 ^ 52 * 2 ^ y.scale ≤ y.magnitude := by
  have hy : 2 ^ 52 ≤ y.significand := y.leading_or_scale.resolve_right (by omega)
  exact ⟨mul_two_pow_lt x.significand_lt h, Nat.mul_le_mul_right _ hy⟩

theorem scale_eq_of_magnitude_eq (h : x.magnitude = y.magnitude) : x.scale = y.scale := by
  rcases Nat.lt_trichotomy x.scale y.scale with hlt | heq | hlt
  · have := magnitude_lt_of_scale_lt hlt
    omega
  · exact heq
  · have := magnitude_lt_of_scale_lt hlt
    omega

theorem significand_eq_of_magnitude_eq (h : x.magnitude = y.magnitude) :
    x.significand = y.significand := by
  have hscale := scale_eq_of_magnitude_eq h
  unfold magnitude at h
  rw [hscale] at h
  exact Nat.eq_of_mul_eq_mul_right (Nat.two_pow_pos _) h

theorem natAbs_units (x : Binary64) : x.units.natAbs = x.magnitude := by
  unfold units
  split <;> omega

theorem magnitude_eq_of_units_eq (h : x.units = y.units) : x.magnitude = y.magnitude := by
  rw [← natAbs_units, h, natAbs_units]

theorem isFinite_of_units_eq (h : x.units = y.units) (hx : x.isFinite = true) :
    y.isFinite = true := by
  rw [isFinite_iff] at hx ⊢
  rwa [← scale_eq_of_magnitude_eq (magnitude_eq_of_units_eq h)]

/-! ## Encoding -/

/-- The number with the given sign and the other bits. -/
def ofBits (negative : Bool) (k : Nat) : Binary64 :=
  ⟨UInt64.ofNat ((if negative then Nat.pow 2 63 else 0) + k)⟩

theorem fields_ofBits (negative : Bool) {k : Nat} (hk : k ≤ infinityBits) :
    (ofBits negative k).fraction = k % 2 ^ 52 ∧ (ofBits negative k).exponent = k / 2 ^ 52 ∧
      (ofBits negative k).isNegative = negative := by
  simp only [infinityBits, Nat.pow_eq] at hk
  have hbits : (ofBits negative k).bits.toNat = (if negative then 2 ^ 63 else 0) + k := by
    refine UInt64.toNat_ofNat_of_lt' ?_
    simp only [UInt64.size, Nat.pow_eq]
    split <;> omega
  simp only [fraction, exponent, isNegative, hbits, Nat.pow_eq]
  cases negative
  · simp only [Bool.false_eq_true, if_false]
    exact ⟨by omega, by omega, by simp; omega⟩
  · simp only [if_true]
    exact ⟨by omega, by omega, by simp⟩

/-- A significand and a scale make a number. The significand may be the next power of two, which is
carried into the exponent. -/
theorem magnitude_ofBits (negative : Bool) {m s : Nat} (hm : m ≤ 2 ^ 53)
    (hs : 2 ^ 52 ≤ m ∨ s = 0) (hk : s * 2 ^ 52 + m < infinityBits) :
    (ofBits negative (s * 2 ^ 52 + m)).magnitude = m * 2 ^ s ∧
    (ofBits negative (s * 2 ^ 52 + m)).isNegative = negative ∧
    (ofBits negative (s * 2 ^ 52 + m)).isFinite = true ∧
    (m % 2 = 0 → (ofBits negative (s * 2 ^ 52 + m)).significand % 2 = 0) := by
  obtain ⟨hfraction, hexponent, hsign⟩ := fields_ofBits negative (Nat.le_of_lt hk)
  generalize ofBits negative (s * 2 ^ 52 + m) = x at *
  simp only [infinityBits, Nat.pow_eq] at hk
  have hcases : (x.significand = m ∧ x.scale = s) ∨
      (m = 2 ^ 53 ∧ x.significand = 2 ^ 52 ∧ x.scale = s + 1) := by
    rw [significand, scale, hfraction, hexponent]
    simp only [Nat.pow_eq]
    split <;> omega
  refine ⟨?_, hsign, ?_, ?_⟩
  · rw [magnitude, Nat.pow_eq]
    rcases hcases with ⟨hsig, hscale⟩ | ⟨rfl, hsig, hscale⟩
    · rw [hsig, hscale]
    · rw [hsig, hscale, Nat.pow_succ 2 s]
      omega
  · rw [isFinite, bne_iff_ne, hexponent]
    omega
  · rcases hcases with ⟨hsig, -⟩ | ⟨rfl, hsig, -⟩ <;> omega

/-! ## Rounding to a multiple -/

/-- What is rounded moves by half a step at most, and by just half a step only to an even multiple. -/
theorem roundHalfEven_half (n : Nat) {d : Nat} (hd : 0 < d) :
    2 * n ≤ 2 * (roundHalfEven n d * d) + d ∧ 2 * (roundHalfEven n d * d) ≤ 2 * n + d ∧
    (2 * n = 2 * (roundHalfEven n d * d) + d ∨ 2 * (roundHalfEven n d * d) = 2 * n + d →
      roundHalfEven n d % 2 = 0) := by
  have hdiv : n / d * d + n % d = n := Nat.div_add_mod' n d
  have hlt := Nat.mod_lt n hd
  simp only [roundHalfEven]
  split
  · omega
  · rw [Nat.add_one_mul (n / d) d]
    omega

/-- Different multiples are a step apart. -/
theorem mul_apart {j k : Nat} (h : j ≠ k) (d : Nat) :
    j * d + d ≤ k * d ∨ k * d + d ≤ j * d := by
  rw [← Nat.add_one_mul j d, ← Nat.add_one_mul k d]
  rcases Nat.lt_or_gt_of_ne h with hlt | hlt
  · exact .inl (Nat.mul_le_mul_right d hlt)
  · exact .inr (Nat.mul_le_mul_right d hlt)

/-- No multiple is nearer than the rounded one, and one that is as near makes it even. -/
theorem roundHalfEven_nearest (n : Nat) {d : Nat} (hd : 0 < d) (k : Nat) :
    ((roundHalfEven n d * d : Nat) - n : Int).natAbs ≤ ((k * d : Nat) - n : Int).natAbs ∧
    (k ≠ roundHalfEven n d →
      ((k * d : Nat) - n : Int).natAbs = ((roundHalfEven n d * d : Nat) - n : Int).natAbs →
      roundHalfEven n d % 2 = 0) := by
  obtain ⟨hup, hdown, heven⟩ := roundHalfEven_half n hd
  by_cases hk : k = roundHalfEven n d
  · exact ⟨hk ▸ Nat.le_refl _, fun hne => absurd hk hne⟩
  · have hapart := mul_apart hk d
    generalize roundHalfEven n d * d = rounded at *
    generalize k * d = other at *
    exact ⟨by omega, fun _ htie => heven (by omega)⟩

/-! ## The scale of a rounded number -/

/-- At this scale a natural number has a significand of fifty-three bits, or fewer at the smallest. -/
def roundingScale (a : Nat) : Nat := a.log2 - 52

theorem roundingScale_bounds (a : Nat) : a < 2 ^ 53 * 2 ^ roundingScale a ∧
    (2 ^ 52 * 2 ^ roundingScale a ≤ a ∨ roundingScale a = 0) := by
  unfold roundingScale
  constructor
  · refine Nat.lt_of_lt_of_le Nat.lt_log2_self ?_
    rw [← Nat.pow_add]
    exact Nat.pow_le_pow_right (by decide) (by omega)
  · by_cases hscale : a.log2 ≤ 52
    · exact .inr (by omega)
    · have hne : a ≠ 0 := by
        rintro rfl
        exact hscale (by decide)
      have hexp : 52 + (a.log2 - 52) = a.log2 := by omega
      rw [← Nat.pow_add, hexp]
      exact .inl (Nat.log2_self_le hne)

theorem roundingScale_mul_le {a j : Nat} (h : a ≤ 2 ^ j) (k : Nat) :
    roundingScale (a * Nat.pow 2 k) ≤ j + k - 52 := by
  have hmul : a * Nat.pow 2 k ≤ 2 ^ (j + k) := by
    rw [Nat.pow_add]
    exact Nat.mul_le_mul_right _ h
  unfold roundingScale
  by_cases hne : a * Nat.pow 2 k = 0
  · rw [hne]
    exact Nat.zero_le _
  · have hle := (Nat.pow_le_pow_iff_right (by decide)).mp
      (Nat.le_trans (Nat.log2_self_le hne) hmul)
    omega

/-- Rounded at its scale, a number has a significand or the next power of two. -/
theorem rounded_bounds (a : Nat) :
    roundHalfEven a (2 ^ roundingScale a) ≤ 2 ^ 53 ∧
    (2 ^ 52 ≤ roundHalfEven a (2 ^ roundingScale a) ∨ roundingScale a = 0) := by
  have hstep := Nat.two_pow_pos (roundingScale a)
  obtain ⟨hup, hdown, -⟩ := roundHalfEven_half a hstep
  obtain ⟨hlt, hge⟩ := roundingScale_bounds a
  generalize roundHalfEven a (2 ^ roundingScale a) = m at *
  generalize 2 ^ roundingScale a = d at *
  constructor
  · refine Nat.le_of_not_lt fun hm => ?_
    have hmul : (2 ^ 53 + 1) * d ≤ m * d := Nat.mul_le_mul_right d (by omega)
    omega
  · refine hge.imp_left fun hge => Nat.le_of_not_lt fun hm => ?_
    have hmul : (m + 1) * d ≤ 2 ^ 52 * d := Nat.mul_le_mul_right d (by omega)
    rw [Nat.add_one_mul] at hmul
    omega

/-! ## Rounding an integer -/

/-- The number of units in one. -/
def unitsPerOne : Nat := Nat.pow 2 1074

/-- The absolute value of an integer, in units. -/
def absUnits (n : Int) : Nat := n.natAbs * unitsPerOne

/-- The exponent stands behind a variable, so that no proof computes the power. -/
theorem unitsPerOne_eq : ∃ k, k = 1074 ∧ unitsPerOne = Nat.pow 2 k := by
  refine ⟨1074, rfl, ?_⟩
  unfold unitsPerOne
  exact Eq.refl _

theorem unitsPerOne_ne_zero : unitsPerOne ≠ 0 := by
  obtain ⟨k, -, hunits⟩ := unitsPerOne_eq
  rw [hunits]
  exact Nat.ne_of_gt (Nat.two_pow_pos k)

theorem nearestBits_one (a : Nat) : nearestBits a 1 =
    min (roundingScale (a * unitsPerOne) * 2 ^ 52 +
      roundHalfEven (a * unitsPerOne) (2 ^ roundingScale (a * unitsPerOne))) infinityBits := by
  unfold nearestBits unitsPerOne
  generalize Nat.pow 2 1074 = units
  simp only [Nat.div_one, Nat.one_mul]
  exact Eq.refl _

theorem roundingScale_absUnits {n : Int} (hn : n.natAbs ≤ 2 ^ 63) :
    roundingScale (absUnits n) ≤ 1085 := by
  obtain ⟨k, hk, hunits⟩ := unitsPerOne_eq
  have hle := roundingScale_mul_le hn k
  rw [absUnits, hunits]
  omega

theorem ofInt_eq_ofBits {n : Int} (hn : n.natAbs ≤ 2 ^ 63) :
    ofInt n = ofBits (n < 0) (roundingScale (absUnits n) * 2 ^ 52 +
      roundHalfEven (absUnits n) (2 ^ roundingScale (absUnits n))) := by
  have hscale := roundingScale_absUnits hn
  obtain ⟨hm, -⟩ := rounded_bounds (absUnits n)
  rw [ofInt, ofRatio, nearestBits_one, ← absUnits, Nat.min_eq_left]
  · rfl
  · simp only [infinityBits, Nat.pow_eq]
    omega

theorem magnitude_ofInt {n : Int} (hn : n.natAbs ≤ 2 ^ 63) :
    (ofInt n).magnitude =
      roundHalfEven (absUnits n) (2 ^ roundingScale (absUnits n)) *
        2 ^ roundingScale (absUnits n) ∧
    (ofInt n).isNegative = decide (n < 0) ∧ (ofInt n).isFinite = true ∧
    (roundHalfEven (absUnits n) (2 ^ roundingScale (absUnits n)) % 2 = 0 →
      (ofInt n).significand % 2 = 0) := by
  have hscale := roundingScale_absUnits hn
  obtain ⟨hm, hs⟩ := rounded_bounds (absUnits n)
  rw [ofInt_eq_ofBits hn]
  refine magnitude_ofBits _ hm hs ?_
  simp only [infinityBits, Nat.pow_eq]
  omega

/-- A number is a multiple of a given power of two, or has a smaller scale and lies below all numbers
of that scale. -/
theorem magnitude_cases (y : Binary64) (s : Nat) :
    (∃ k, y.magnitude = k * 2 ^ s) ∨ (0 < s ∧ y.magnitude < 2 ^ 52 * 2 ^ s) := by
  rcases Nat.lt_or_ge y.scale s with hlt | hge
  · exact .inr ⟨by omega, mul_two_pow_lt y.significand_lt hlt⟩
  · refine .inl ⟨y.significand * 2 ^ (y.scale - s), ?_⟩
    rw [Nat.mul_assoc, ← Nat.pow_add, Nat.sub_add_cancel hge]
    rfl

/-- Among absolute values, that of the rounded integer is nearest to that of the integer. -/
theorem magnitude_ofInt_nearest {n : Int} (hn : n.natAbs ≤ 2 ^ 63) (y : Binary64) :
    ((ofInt n).magnitude - absUnits n : Int).natAbs ≤ (y.magnitude - absUnits n : Int).natAbs ∧
    (y.magnitude ≠ (ofInt n).magnitude →
      (y.magnitude - absUnits n : Int).natAbs = ((ofInt n).magnitude - absUnits n : Int).natAbs →
      (ofInt n).significand % 2 = 0) := by
  obtain ⟨hmagnitude, -, -, heven⟩ := magnitude_ofInt hn
  obtain ⟨-, hlarge⟩ := roundingScale_bounds (absUnits n)
  have hstep := Nat.two_pow_pos (roundingScale (absUnits n))
  rw [hmagnitude]
  rcases magnitude_cases y (roundingScale (absUnits n)) with ⟨k, hk⟩ | ⟨hpos, hsmall⟩
  · obtain ⟨hle, htie⟩ := roundHalfEven_nearest (absUnits n) hstep k
    rw [hk]
    exact ⟨hle, fun hne heq => heven (htie (fun h => hne (h ▸ rfl)) heq)⟩
  · -- the least number of the scale is a multiple that is nearer than any below it
    obtain ⟨hle, -⟩ := roundHalfEven_nearest (absUnits n) hstep (2 ^ 52)
    have hlarge := hlarge.resolve_right (by omega)
    generalize roundHalfEven (absUnits n) (2 ^ roundingScale (absUnits n)) *
      2 ^ roundingScale (absUnits n) = rounded at hle ⊢
    generalize 2 ^ 52 * 2 ^ roundingScale (absUnits n) = least at hle hlarge hsmall
    generalize absUnits n = a at hle hlarge ⊢
    generalize y.magnitude = other at hsmall ⊢
    exact ⟨by omega, fun _ heq => by omega⟩

/-- Zero is a multiple as well, so rounding an integer moves it by its own size at most. -/
theorem magnitude_ofInt_near {n : Int} (hn : n.natAbs ≤ 2 ^ 63) :
    ((ofInt n).magnitude - absUnits n : Int).natAbs ≤ absUnits n := by
  have hstep := Nat.two_pow_pos (roundingScale (absUnits n))
  obtain ⟨hle, -⟩ := roundHalfEven_nearest (absUnits n) hstep 0
  rw [Nat.zero_mul] at hle
  rw [(magnitude_ofInt hn).1]
  generalize absUnits n = a at hle ⊢
  generalize roundHalfEven a (2 ^ roundingScale a) * 2 ^ roundingScale a = rounded at hle ⊢
  omega

/-! ## The number nearest to an integer -/

/-- How far a number is from an integer, in units. -/
def distance (x : Binary64) (n : Int) : Nat := (x.units - n * unitsPerOne).natAbs

/-- The finite number that is nearest to an integer; of two that are equally near, the one with the
even significand. -/
structure Nearest (x : Binary64) (n : Int) : Prop where
  finite : x.isFinite = true
  least : ∀ y : Binary64, y.isFinite = true → x.distance n ≤ y.distance n
  even : ∀ y : Binary64, y.isFinite = true → y.units ≠ x.units → y.distance n = x.distance n →
    x.significand % 2 = 0

theorem mul_unitsPerOne (n : Int) :
    n * unitsPerOne = if n < 0 then -(absUnits n : Int) else absUnits n := by
  rw [absUnits, Int.natCast_mul]
  split
  · rw [← Int.neg_mul, Int.ofNat_natAbs_of_nonpos (by omega), Int.neg_neg]
  · rw [Int.natAbs_of_nonneg (by omega)]

/-- Numbers on the same side of zero are compared by absolute value, others are further apart. -/
theorem distance_eq (x : Binary64) (n : Int) : x.distance n =
    if x.isNegative = decide (n < 0) then (x.magnitude - absUnits n : Int).natAbs
    else x.magnitude + absUnits n := by
  rw [distance, mul_unitsPerOne, units]
  generalize absUnits n = a
  generalize x.magnitude = m
  cases x.isNegative <;> by_cases hn : n < 0 <;> simp [hn] <;> omega

/-- An integer of at most sixty-four bits is rounded to the nearest number. -/
theorem nearest_ofInt {n : Int} (hn : n.natAbs ≤ 2 ^ 63) : (ofInt n).Nearest n := by
  obtain ⟨-, hsign, hfinite, -⟩ := magnitude_ofInt hn
  have hnear := magnitude_ofInt_near hn
  refine ⟨hfinite, fun y _ => ?_, fun y _ hne heq => ?_⟩
  · obtain ⟨hle, -⟩ := magnitude_ofInt_nearest hn y
    rw [distance_eq, if_pos hsign, distance_eq y]
    split
    · exact hle
    · exact Nat.le_trans hnear (Nat.le_add_left _ _)
  · obtain ⟨-, htie⟩ := magnitude_ofInt_nearest hn y
    rw [distance_eq, distance_eq (ofInt n), if_pos hsign] at heq
    split at heq
    · rename_i hsame
      refine htie (fun hmagnitude => hne ?_) heq
      rw [units, units, hsame, hsign, hmagnitude]
    · -- on the other side of zero only zero itself is as near
      have hzero : y.magnitude = 0 := by omega
      refine htie (fun hmagnitude => hne ?_) (by omega)
      rw [units, units, ← hmagnitude, hzero]
      simp

/-! ## Only one number is nearest -/

/-- Between two numbers with even significands there is another one. -/
theorem exists_magnitude_between (hx : x.significand % 2 = 0) (hy : y.significand % 2 = 0)
    (hfinite : x.isFinite = true) (hlt : x.magnitude < y.magnitude) (negative : Bool) :
    ∃ z : Binary64, z.isFinite = true ∧ z.isNegative = negative ∧
      x.magnitude < z.magnitude ∧ z.magnitude < y.magnitude := by
  have hsig := x.significand_lt
  have hscale := isFinite_iff.mp hfinite
  have hbits : x.scale * 2 ^ 52 + (x.significand + 1) < infinityBits := by
    simp only [infinityBits, Nat.pow_eq]
    omega
  obtain ⟨hmagnitude, hsign, hz, -⟩ := magnitude_ofBits negative (m := x.significand + 1)
    (by omega) (x.leading_or_scale.imp_left fun h => by omega) hbits
  refine ⟨_, hz, hsign, ?_, ?_⟩
  · rw [hmagnitude]
    exact Nat.mul_lt_mul_of_pos_right (Nat.lt_succ_self _) (Nat.two_pow_pos _)
  · rw [hmagnitude]
    rcases Nat.lt_trichotomy x.scale y.scale with hs | hs | hs
    · have hlarge := (magnitude_lt_of_scale_lt hs).2
      exact Nat.lt_of_lt_of_le (mul_two_pow_lt (by omega) hs) hlarge
    · unfold magnitude at hlt ⊢
      rw [hs] at hlt ⊢
      have hlt := Nat.lt_of_mul_lt_mul_right hlt
      exact Nat.mul_lt_mul_of_pos_right (by omega) (Nat.two_pow_pos _)
    · have := magnitude_lt_of_scale_lt hs
      omega

theorem units_zero : (zero false).isFinite = true ∧ (zero false).units = 0 := by decide +kernel

theorem exists_units_between (hx : x.significand % 2 = 0) (hy : y.significand % 2 = 0)
    (hxfinite : x.isFinite = true) (hyfinite : y.isFinite = true) (hlt : x.units < y.units) :
    ∃ z : Binary64, z.isFinite = true ∧ x.units < z.units ∧ z.units < y.units := by
  have hxmagnitude := x.natAbs_units
  have hymagnitude := y.natAbs_units
  by_cases hneg : y.units ≤ 0
  · obtain ⟨z, hz, hsign, hlow, hhigh⟩ :=
      exists_magnitude_between hy hx hyfinite (by omega) true
    have hunits : z.units = -(z.magnitude : Int) := if_pos hsign
    exact ⟨z, hz, by omega, by omega⟩
  · by_cases hpos : 0 ≤ x.units
    · obtain ⟨z, hz, hsign, hlow, hhigh⟩ :=
        exists_magnitude_between hx hy hxfinite (by omega) false
      have hunits : z.units = z.magnitude := if_neg (by simp [hsign])
      exact ⟨z, hz, by omega, by omega⟩
    · obtain ⟨hz, hunits⟩ := units_zero
      exact ⟨zero false, hz, by omega, by omega⟩

/-- Of two nearest numbers neither is the smaller: both would be equally near and have even
significands, and a number between them would be nearer. -/
theorem Nearest.not_lt {n : Int} (hx : x.Nearest n) (hy : y.Nearest n) : ¬ x.units < y.units := by
  intro hlt
  have heq : x.distance n = y.distance n :=
    Nat.le_antisymm (hx.least y hy.finite) (hy.least x hx.finite)
  have hxeven := hx.even y hy.finite (Int.ne_of_gt hlt) heq.symm
  have hyeven := hy.even x hx.finite (Int.ne_of_lt hlt) heq
  obtain ⟨z, hz, hlow, hhigh⟩ := exists_units_between hxeven hyeven hx.finite hy.finite hlt
  have hle := hx.least z hz
  unfold distance at heq hle
  omega

theorem Nearest.units_eq {n : Int} (hx : x.Nearest n) (hy : y.Nearest n) : x.units = y.units :=
  Int.le_antisymm (Int.not_lt.mp (hy.not_lt hx)) (Int.not_lt.mp (hx.not_lt hy))

theorem Nearest.of_units_eq {n : Int} (h : x.Nearest n) (hxy : x.units = y.units) :
    y.Nearest n where
  finite := isFinite_of_units_eq hxy h.finite
  least z hz := by
    have hle := h.least z hz
    rwa [distance, hxy, ← distance] at hle
  even z hz hne heq := by
    rw [distance, distance, ← hxy, ← distance, ← distance] at heq
    rw [← significand_eq_of_magnitude_eq (magnitude_eq_of_units_eq hxy)]
    exact h.even z hz (hxy ▸ hne) heq

theorem not_isNaN_of_isFinite (h : x.isFinite = true) : x.isNaN = false := by
  rw [isFinite, bne_iff_ne] at h
  simp [isNaN, h]

theorem agrees_iff : x.agrees y = true ↔ x.isNaN = false ∧ y.isNaN = false ∧ x.units = y.units := by
  simp [agrees, and_assoc]

/-- A rounded integer agrees with the number that is nearest to the integer. -/
theorem ofInt_agrees_iff {n : Int} (hn : n.natAbs ≤ 2 ^ 63) :
    (ofInt n).agrees x = true ↔ x.Nearest n := by
  have hnearest := nearest_ofInt hn
  rw [agrees_iff]
  constructor
  · rintro ⟨-, -, hunits⟩
    exact hnearest.of_units_eq hunits
  · intro h
    exact ⟨not_isNaN_of_isFinite hnearest.finite, not_isNaN_of_isFinite h.finite,
      hnearest.units_eq h⟩

/-! ## Integers that are not changed -/

/-- An integer up to `2 ^ 53` is a multiple of the step at its scale. -/
theorem exists_mul_roundingScale {a : Nat} (h : a ≤ 2 ^ 53) (k : Nat) :
    ∃ m, a * Nat.pow 2 k = m * 2 ^ roundingScale (a * Nat.pow 2 k) := by
  obtain ⟨-, hlarge⟩ := roundingScale_bounds (a * Nat.pow 2 k)
  have hscale := roundingScale_mul_le h k
  generalize roundingScale (a * Nat.pow 2 k) = s at *
  rcases Nat.lt_or_ge k s with hlt | hge
  · -- only the bound itself has a scale beyond that of the units
    obtain rfl : s = k + 1 := by omega
    have hlarge := hlarge.resolve_right (by omega)
    rw [Nat.pow_eq, Nat.pow_succ 2 k, Nat.mul_comm _ 2, ← Nat.mul_assoc] at hlarge
    have ha := Nat.le_of_mul_le_mul_right hlarge (Nat.two_pow_pos k)
    obtain rfl : a = 2 ^ 53 := by omega
    exact ⟨2 ^ 52, by rw [Nat.pow_eq, Nat.pow_succ 2 k]; omega⟩
  · refine ⟨a * 2 ^ (k - s), ?_⟩
    rw [Nat.mul_assoc, ← Nat.pow_add, Nat.sub_add_cancel hge, Nat.pow_eq]

theorem units_ofInt {n : Int} (hn : n.natAbs ≤ 2 ^ 53) : (ofInt n).units = n * unitsPerOne := by
  have hword : n.natAbs ≤ 2 ^ 63 := Nat.le_trans hn (by decide)
  obtain ⟨k, -, hunits⟩ := unitsPerOne_eq
  obtain ⟨m, hm⟩ := exists_mul_roundingScale hn k
  rw [← hunits, ← absUnits] at hm
  obtain ⟨hmagnitude, hsign, -⟩ := magnitude_ofInt hword
  obtain ⟨hle, -⟩ := roundHalfEven_nearest (absUnits n) (Nat.two_pow_pos _) m
  rw [← hmagnitude, ← hm] at hle
  have hdistance : (ofInt n).distance n = 0 := by
    rw [distance_eq, if_pos hsign]
    generalize absUnits n = a at hle ⊢
    generalize (ofInt n).magnitude = b at hle ⊢
    omega
  exact Int.sub_eq_zero.mp (Int.natAbs_eq_zero.mp hdistance)

/-- Two integers up to `2 ^ 53` with the same nearest number are the same. -/
theorem Nearest.inj {m n : Int} (hm : m.natAbs ≤ 2 ^ 53) (hn : n.natAbs ≤ 2 ^ 53)
    (hxm : x.Nearest m) (hxn : x.Nearest n) : m = n := by
  have hmnearest := nearest_ofInt (Nat.le_trans hm (by decide))
  have hnnearest := nearest_ofInt (Nat.le_trans hn (by decide))
  have hunits := (hmnearest.units_eq hxm).trans (hnnearest.units_eq hxn).symm
  rw [units_ofInt hm, units_ofInt hn] at hunits
  exact Int.eq_of_mul_eq_mul_right (Int.natCast_ne_zero.mpr unitsPerOne_ne_zero) hunits

end FrameLog.Binary64
