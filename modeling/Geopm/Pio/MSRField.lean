import Geopm.Lib.BitField
import Geopm.Lib.Truncation
import Geopm.Pio.MsrAllowlist

/-!
# Fields of an MSR

A number is encoded into a field of an MSR by `MSRFieldControl`, and `MSRFieldSignal` decodes it.
The arithmetic is exact, over any ordered field with a floor.

* `Conversions` : the casts and the shifts that the language does not define;
* `encode`, `convertRawValue` : the two directions;
* `EncodedField` : a field with the width that its encoding needs; `unit`, `step` : the decoded
  values and the distances between them;
* `encode_unit_iff`, `near_iff` : the encodings, one by one;
* `encode_decode_iff` : the contents that are encoded back, and the settings that are encoded
  within a quantum or refused.
-/

namespace Geopm.Pio

open Truncation
open Allowlist (MsrFunction)
open BitVec

/-! ### Encoding -/

/-- What the language does not define: the word that a double is cast to when truncation does not
make it one (`none` for a double that is no number), and the shift of an `int` past its bits. -/
structure Conversions where
  word : Option ℤ → BitVec 64
  shiftOne : ℕ → ℤ
  word_natCast : ∀ n : ℕ, n < 2 ^ 64 → word (some n) = BitVec.ofNat 64 n
  shiftOne_of_lt : ∀ n < 31, shiftOne n = 2 ^ n
  shiftOne_sign : shiftOne 31 = -2 ^ 31

/-- The conversions that give one word wherever the language does not define one. -/
def Conversions.fill (junk : BitVec 64) : Conversions where
  word
    | some (.ofNat n) => if n < 2 ^ 64 then BitVec.ofNat 64 n else junk
    | some (.negSucc _) => junk
    | none => junk
  shiftOne n := if n = 31 then -2 ^ 31 else 2 ^ n
  word_natCast _ h := if_pos h
  shiftOne_of_lt _ h := if_neg h.ne
  shiftOne_sign := rfl

theorem Conversions.fill_of_neg {junk : BitVec 64} {z : ℤ} (h : z < 0) :
    (Conversions.fill junk).word (some z) = junk := by
  cases z with
  | ofNat n => exact absurd h (by simp)
  | negSucc n => rfl

theorem Conversions.fill_of_le {junk : BitVec 64} {n : ℕ} (h : 2 ^ 64 ≤ n) :
    (Conversions.fill junk).word (some (n : ℤ)) = junk := if_neg h.not_gt

instance : Inhabited Conversions := ⟨.fill 0⟩

/-- The error code of an overflow. -/
def eoverflow : ErrorCode := .errno 75

/-- The members of `MSRFieldControl` that encode a value. -/
structure MSRFieldControl (K : Type*) where
  shift : ℕ
  numBit : ℕ
  mask : BitVec 64
  function : MsrFunction
  inverse : K

variable {K : Type*} [Field K]

section Encode

variable [LinearOrder K] [IsStrictOrderedRing K] [FloorRing K]

/-- The truncation of `std::log2`, which is no number unless its argument is positive. -/
def log2 (x : K) : Option ℤ := if 0 < x then some (truncLog2 x) else none

/-- A quotient, which is no number when the divisor is zero. -/
def quotient (x y : K) : Option K := if y = 0 then none else some (x / y)

/-- The case of `M_FUNCTION_7_BIT_FLOAT` in `encode`. -/
def encodeSevenBitFloat (conv : Conversions) (inverse value : K) : Except Exception (BitVec 64) :=
  if 0 < value then
    let value := value * inverse
    let floatY := conv.word (log2 value)
    let power : K := conv.shiftOne floatY.toNat
    let floatZ := conv.word ((quotient value power).map fun q => trunc (4 * (q - 1)))
    if floatY ≠ 0 ∧ floatY >>> 5 ≠ 0 ∨ floatZ ≠ 0 ∧ floatZ >>> 2 ≠ 0 then
      .error ⟨"MSR::encode(): integer overflow in M_FUNCTION_7_BIT_FLOAT datatype encoding", [],
        eoverflow⟩
    else
      let valueInferred := power * (1 + floatZ.toNat / 4)
      if value - valueInferred > value * (1 / 4) then
        .error ⟨"MSR::encode(): inferred value from encoded value is inaccurate", [], .logic⟩
      else .ok (floatY ||| floatZ <<< 5)
  else
    .error ⟨"MSRFieldControl::encode(): input value <= 0 for M_FUNCTION_7_BIT_FLOAT", [], .invalid⟩

/-- The switch of `encode`. -/
def encodeFunction (conv : Conversions) (inverse value : K) :
    MsrFunction → Except Exception (BitVec 64)
  | .scale => .ok (conv.word (some (trunc (inverse * value))))
  | .logHalf => .ok (conv.word ((log2 (inverse * value)).map fun l => -1 * l))
  | .sevenBitFloat => encodeSevenBitFloat conv inverse value
  | .logic => .ok (if value ≠ 0 then 1 else 0)
  | .overflow => .ok 0

namespace MSRFieldControl

/-- `MSRFieldControl::MSRFieldControl`. -/
def make (beginBit endBit : ℕ) (function : MsrFunction) (scalar : K) : MSRFieldControl K where
  shift := beginBit
  numBit := endBit - beginBit + 1
  mask := (1#64 <<< (endBit - beginBit + 1) - 1#64) <<< beginBit
  function := function
  inverse := 1 / scalar

/-- `MSRFieldControl::encode`. -/
def encode (conv : Conversions) (c : MSRFieldControl K) (value : K) :
    Except Exception (BitVec 64) := do
  let result ← encodeFunction conv c.inverse value c.function
  .ok ((result <<< c.shift) &&& c.mask)

end MSRFieldControl

end Encode

/-! ### Decoding -/

/-- The members of `RolloverGenerator`. -/
structure RolloverGenerator (K : Type*) where
  lastValue : K
  rolloverFactor : K
  rolloverTotal : K

/-- The members of `MSRFieldSignal` that decode a field. -/
structure MSRFieldSignal (K : Type*) where
  shift : ℕ
  numBit : ℕ
  mask : BitVec 64
  function : MsrFunction
  scalar : K
  rolloverGen : RolloverGenerator K

section Decode

variable [LinearOrder K]

/-- `RolloverGenerator::update`. -/
def RolloverGenerator.update (g : RolloverGenerator K) (value : K) : K × RolloverGenerator K :=
  let rolloverTotal :=
    if g.lastValue > value then g.rolloverTotal + g.rolloverFactor else g.rolloverTotal
  (value + rolloverTotal, { g with lastValue := value, rolloverTotal })

namespace MSRFieldSignal

/-- `MSRFieldSignal::MSRFieldSignal`. -/
def make (beginBit endBit : ℕ) (function : MsrFunction) (scalar : K) : MSRFieldSignal K where
  shift := beginBit
  numBit := endBit - beginBit + 1
  mask := (1#64 <<< (endBit - beginBit + 1) - 1#64) <<< beginBit
  function := function
  scalar := scalar
  rolloverGen := ⟨0, 2 ^ (endBit - beginBit + 1), 0⟩

/-- `MSRFieldSignal::convert_raw_value`, for the bits of the raw signal. -/
def convertRawValue (s : MSRFieldSignal K) (field : BitVec 64) : K × MSRFieldSignal K :=
  let subfield := (field &&& s.mask) >>> s.shift
  match s.function with
  | .logHalf => (1 / (1#64 <<< subfield).toNat * s.scalar, s)
  | .sevenBitFloat =>
    let floatY := subfield &&& 0x1F
    let floatZ := subfield >>> 5
    ((1#64 <<< floatY).toNat * (1 + floatZ.toNat / 4) * s.scalar, s)
  | .overflow =>
    let (result, rolloverGen) := s.rolloverGen.update (subfield.toNat : K)
    (result * s.scalar, { s with rolloverGen })
  | .scale | .logic => (subfield.toNat * s.scalar, s)

end MSRFieldSignal

end Decode

/-! ### Fields -/

/-- The widths that an encoding function needs. -/
def FitsWidth : MsrFunction → ℕ → Prop
  | .scale, _ => True
  | .logHalf, n => n ≤ 6
  | .sevenBitFloat, n => n = 7
  | .logic, n => n = 1
  | .overflow, _ => False

/-- A field that can be encoded: its place in a word, an encoding that its width fits, and a
positive scalar. -/
structure EncodedField (K : Type*) [Zero K] [LT K] where
  beginBit : ℕ
  endBit : ℕ
  function : MsrFunction
  scalar : K
  begin_le_end : beginBit ≤ endBit
  end_lt : endBit < 64
  width_lt : endBit - beginBit + 1 < 64
  fits : FitsWidth function (endBit - beginBit + 1)
  scalar_pos : 0 < scalar

section Units

/-- The decoded value of a content, with a scalar of one. -/
def unit : MsrFunction → ℕ → K
  | .scale, x | .logic, x | .overflow, x => x
  | .logHalf, x => 1 / 2 ^ x
  | .sevenBitFloat, x => 2 ^ (x % 32) * (1 + (x / 32 : ℕ) / 4)

/-- The distance between the decoded value of a content and that of the next one. -/
def step : MsrFunction → ℕ → K
  | .scale, _ | .logic, _ | .overflow, _ => 1
  | .logHalf, x => 1 / 2 ^ (x + 1)
  | .sevenBitFloat, x => 2 ^ (x % 32) / 4

theorem unit_sevenBitFloat {t m : ℕ} (ht : t < 32) :
    (unit .sevenBitFloat (t + 32 * m) : K) = 2 ^ t * (1 + m / 4) := by
  have hmod : (t + 32 * m) % 32 = t := by omega
  have hdiv : (t + 32 * m) / 32 = m := by omega
  rw [unit, hmod, hdiv]

theorem step_sevenBitFloat {t m : ℕ} (ht : t < 32) :
    (step .sevenBitFloat (t + 32 * m) : K) = 2 ^ t / 4 := by
  have hmod : (t + 32 * m) % 32 = t := by omega
  rw [step, hmod]

variable [LinearOrder K]

/-- The settings that an encoding of a width represents or refuses, with a scalar of one. -/
def Covers : MsrFunction → ℕ → K → Prop
  | .scale, n, u => -1 < u ∧ u < 2 ^ n
  | .logHalf, n, u => 1 / 2 ^ 2 ^ n < u ∧ u ≤ 3 / 2
  | .sevenBitFloat, _, u => u ≤ 0 ∨ 3 / 4 < u
  | .logic, _, u => 0 ≤ u ∧ u ≤ 2
  | .overflow, _, _ => False

end Units

namespace EncodedField

variable [LinearOrder K] (f : EncodedField K)

/-- The number of bits. -/
def width : ℕ := f.endBit - f.beginBit + 1

/-- The content of the field in a word. -/
def content (raw : BitVec 64) : ℕ := raw.toNat / 2 ^ f.beginBit % 2 ^ f.width

/-- The control of the field. -/
def control : MSRFieldControl K := .make f.beginBit f.endBit f.function f.scalar

/-- The signal of the field. -/
def signal : MSRFieldSignal K := .make f.beginBit f.endBit f.function f.scalar

/-- The decoded value of a word. -/
def decode (raw : BitVec 64) : K := (f.signal.convertRawValue raw).1

/-- The distance from the decoded value of a word to that of the next content. -/
def quantum (raw : BitVec 64) : K := step f.function (f.content raw) * f.scalar

variable [IsStrictOrderedRing K] [FloorRing K]

/-- The decoded value of a word is encoded to the field of the word. -/
def RoundTrips (raw : BitVec 64) : Prop :=
  ∀ conv, f.control.encode conv (f.decode raw) = .ok (raw &&& f.control.mask)

/-- A setting is refused, or what it is encoded to has a decoded value within one quantum. -/
def Meets (setting : K) : Prop :=
  ∀ conv raw, f.control.encode conv setting = .ok raw → |setting - f.decode raw| ≤ f.quantum raw

end EncodedField

/-! ### Decoded values -/

theorem toNat_one_shiftLeft {n : ℕ} (h : n < 64) : (1#64 <<< n).toNat = 2 ^ n := by
  have hone : (1#64).toNat = 1 := rfl
  rw [toNat_shiftLeft, hone, Nat.shiftLeft_eq, one_mul,
    Nat.mod_eq_of_lt (Nat.pow_lt_pow_right one_lt_two h)]

/-- The words that fit five bits and two bits. -/
theorem ushiftRight_eq_zero_iff {x : BitVec 64} {n : ℕ} : x >>> n = 0#64 ↔ x.toNat < 2 ^ n := by
  rw [← toNat_inj, toNat_ushiftRight, Nat.shiftRight_eq_div_pow, toNat_ofNat,
    Nat.zero_mod, Nat.div_eq_zero_iff]
  simp

theorem toNat_pack {y z : BitVec 64} (hy : y.toNat < 32) (hz : z.toNat < 4) :
    (y ||| z <<< 5).toNat = y.toNat + 32 * z.toNat := by
  have hlt : z.toNat * 2 ^ 5 < 2 ^ 64 := by omega
  rw [toNat_or, toNat_shiftLeft, Nat.shiftLeft_eq, Nat.mod_eq_of_lt hlt,
    ← Nat.shiftLeft_eq, Nat.or_comm, ← Nat.shiftLeft_add_eq_or_of_lt hy, Nat.shiftLeft_eq]
  omega

namespace EncodedField

variable [LinearOrder K] (f : EncodedField K)

theorem mask_eq : f.control.mask = Mask.field f.width f.beginBit := rfl

theorem width_lt_size : f.width < 64 := f.width_lt

theorem fits_width : FitsWidth f.function f.width := f.fits

theorem begin_add_width : f.beginBit + f.width ≤ 64 := by
  have hle := f.begin_le_end
  have hlt := f.end_lt
  rw [width]
  omega

variable (raw : BitVec 64)

theorem content_lt : f.content raw < 2 ^ f.width :=
  Nat.mod_lt _ (by positivity)

theorem decode_eq :
    f.decode raw = unit f.function (f.content raw) * f.scalar := by
  have hlt := f.content_lt raw
  have hfits := f.fits
  have hfn : f.signal.function = f.function := rfl
  have hscalar : f.signal.scalar = f.scalar := rfl
  have hsub : ((raw &&& f.signal.mask) >>> f.signal.shift).toNat = f.content raw :=
    Mask.toNat_extract f.width_lt_size f.begin_add_width raw
  rw [decode, MSRFieldSignal.convertRawValue, hfn, hscalar]
  generalize (raw &&& f.signal.mask) >>> f.signal.shift = subfield at hsub ⊢
  cases hfunction : f.function with
  | scale => simp only [unit, hsub]
  | logic => simp only [unit, hsub]
  | overflow =>
    rw [hfunction] at hfits
    exact hfits.elim
  | logHalf =>
    rw [hfunction] at hfits
    have hwidth : 2 ^ f.width ≤ 2 ^ 6 := Nat.pow_le_pow_right two_pos hfits
    have hone : (1#64 <<< subfield).toNat = 2 ^ f.content raw := by
      rw [shiftLeft_eq', hsub, toNat_one_shiftLeft (by omega)]
    simp only [unit, hone, Nat.cast_pow, Nat.cast_ofNat]
  | sevenBitFloat =>
    have hmod : (subfield &&& 0x1F#64).toNat = f.content raw % 32 := by
      rw [toNat_and, hsub]
      exact Nat.and_two_pow_sub_one_eq_mod _ 5
    have hone : (1#64 <<< (subfield &&& 31)).toNat = 2 ^ (f.content raw % 32) := by
      have hlt : f.content raw % 32 < 64 := by omega
      rw [shiftLeft_eq']
      exact (congrArg (fun k => (1#64 <<< k).toNat) hmod).trans (toNat_one_shiftLeft hlt)
    have hdiv : (subfield >>> 5).toNat = f.content raw / 32 := by
      rw [toNat_ushiftRight, hsub, Nat.shiftRight_eq_div_pow]
    simp only [unit, hone, hdiv, Nat.cast_pow, Nat.cast_ofNat]

theorem content_place (result : BitVec 64) :
    f.content (result <<< f.beginBit &&& f.control.mask) = result.toNat % 2 ^ f.width := by
  rw [content, mask_eq, ← Mask.toNat_extract f.width_lt_size f.begin_add_width]
  exact Mask.toNat_extract_place f.width_lt_size f.begin_add_width result

theorem place_content :
    BitVec.ofNat 64 (f.content raw) <<< f.beginBit &&& f.control.mask = raw &&& f.control.mask := by
  have hofNat : BitVec.ofNat 64 (f.content raw) = (raw &&& f.control.mask) >>> f.beginBit := by
    rw [content, ← Mask.toNat_extract f.width_lt_size f.begin_add_width, ofNat_toNat,
      setWidth_eq, mask_eq]
  rw [hofNat]
  exact Mask.place_extract f.width_lt_size raw

theorem place_mod (result : BitVec 64) :
    BitVec.ofNat 64 (result.toNat % 2 ^ f.width) <<< f.beginBit &&& f.control.mask =
      result <<< f.beginBit &&& f.control.mask := by
  rw [← content_place, place_content, BitVec.and_assoc, BitVec.and_self]

theorem content_mask : f.content (raw &&& f.control.mask) = f.content raw := by
  have hlt := f.content_lt raw
  have hlt64 : 2 ^ f.width < 2 ^ 64 := Nat.pow_lt_pow_right one_lt_two f.width_lt_size
  rw [← place_content, content_place, toNat_ofNat, Nat.mod_eq_of_lt (hlt.trans hlt64),
    Nat.mod_eq_of_lt hlt]

end EncodedField

/-! ### The encodings with a scalar of one -/

section Encodings

variable [LinearOrder K] [IsStrictOrderedRing K] [FloorRing K]
variable {conv : Conversions} {u : K} {n : ℕ}

theorem encodeFunction_mul {scalar : K} (h : 0 < scalar) (function : MsrFunction) :
    encodeFunction conv (1 / scalar) (u * scalar) function = encodeFunction conv 1 u function := by
  have hleft : 1 / scalar * (u * scalar) = 1 * u := by field_simp
  have hright : u * scalar * (1 / scalar) = u * 1 := by field_simp
  cases function with
  | scale => rw [encodeFunction, encodeFunction, hleft]
  | logHalf => rw [encodeFunction, encodeFunction, hleft]
  | sevenBitFloat =>
    have hpos : 0 < u * scalar ↔ 0 < u := mul_pos_iff_of_pos_right h
    simp only [encodeFunction, encodeSevenBitFloat, hright, hpos]
  | logic =>
    have hne : u * scalar ≠ 0 ↔ u ≠ 0 := by simp [h.ne']
    simp only [encodeFunction, hne]
  | overflow => rfl

omit [IsStrictOrderedRing K] in
theorem Conversions.word_trunc {m : ℕ} (h : trunc u = m) (hm : m < 2 ^ 64) :
    conv.word (some (trunc u)) = BitVec.ofNat 64 m := by
  rw [h]
  exact conv.word_natCast m hm

theorem log2_of_pos (h : 0 < u) : log2 u = some (truncLog2 u) := if_pos h

theorem encodeSevenBitFloat_eq_ok {r : BitVec 64} :
    encodeSevenBitFloat conv 1 u = .ok r ↔ ∃ y z : BitVec 64, 0 < u ∧ y = conv.word (log2 u) ∧
      z = conv.word ((quotient u (conv.shiftOne y.toNat : K)).map fun q => trunc (4 * (q - 1))) ∧
      y.toNat < 32 ∧ z.toNat < 4 ∧
      u - conv.shiftOne y.toNat * (1 + z.toNat / 4) ≤ u * (1 / 4) ∧ r = y ||| z <<< 5 := by
  have hfit (x : BitVec 64) (k : ℕ) : ¬ (x ≠ 0 ∧ x >>> k ≠ 0) ↔ x.toNat < 2 ^ k := by
    rw [← ushiftRight_eq_zero_iff]
    constructor
    · intro h
      by_contra hk
      exact h ⟨fun hx => hk (by rw [hx]; simp), hk⟩
    · rintro h ⟨-, hk⟩
      exact hk h
  rw [encodeSevenBitFloat]
  by_cases hpos : 0 < u
  · simp only [hpos, if_true, true_and, mul_one]
    constructor
    · intro h
      split at h
      · cases h
      rename_i hfits
      obtain ⟨hy, hz⟩ := not_or.mp hfits
      split at h
      · cases h
      rename_i haccurate
      exact ⟨_, _, rfl, rfl, (hfit _ 5).mp hy, (hfit _ 2).mp hz, not_lt.mp haccurate,
        (Except.ok.inj h).symm⟩
    · rintro ⟨y, z, rfl, rfl, hy, hz, haccurate, rfl⟩
      rw [if_neg (not_or.mpr ⟨(hfit _ 5).mpr hy, (hfit _ 2).mpr hz⟩), if_neg (not_lt.mpr haccurate)]
  · simp [hpos]

theorem encodeSevenBitFloat_eq {t m : ℕ} (ht : t < 31) (hm : m < 4) (hpos : 0 < u)
    (hlog : truncLog2 u = t) (htrunc : trunc (4 * (u / 2 ^ t - 1)) = m)
    (haccurate : u - 2 ^ t * (1 + m / 4) ≤ u * (1 / 4)) :
    ∃ r, encodeSevenBitFloat conv 1 u = .ok r ∧ r.toNat = t + 32 * m := by
  have hpower : (2 : K) ^ t ≠ 0 := by positivity
  have hy : (BitVec.ofNat 64 t).toNat = t := by
    rw [toNat_ofNat, Nat.mod_eq_of_lt (by omega)]
  have hz : (BitVec.ofNat 64 m).toNat = m := by
    rw [toNat_ofNat, Nat.mod_eq_of_lt (by omega)]
  refine ⟨BitVec.ofNat 64 t ||| BitVec.ofNat 64 m <<< 5, encodeSevenBitFloat_eq_ok.mpr
    ⟨_, _, hpos, ?_, ?_, by omega, by omega, ?_, rfl⟩, ?_⟩
  · rw [log2_of_pos hpos, hlog, conv.word_natCast t (by omega)]
  · rw [hy, conv.shiftOne_of_lt t ht]
    push_cast
    rw [quotient, if_neg hpower, Option.map_some, conv.word_trunc htrunc (by omega)]
  · rw [hy, hz, conv.shiftOne_of_lt t ht]
    exact_mod_cast haccurate
  · rw [toNat_pack (by omega) (by omega), hy, hz]

/-- An exponent that is encoded is less than 31, where the shift of an `int` is negative. -/
theorem exponent_lt {r : BitVec 64} (h : encodeSevenBitFloat conv 1 u = .ok r) (hu : 1 ≤ u) :
    ∃ t < 31, truncLog2 u = (t : ℕ) ∧ 2 ^ t ≤ u ∧ u < 2 ^ (t + 1) := by
  obtain ⟨y, z, hpos, hword, -, hy, hz, haccurate, -⟩ := encodeSevenBitFloat_eq_ok.mp h
  obtain ⟨hnonneg, hle, hlt⟩ := truncLog2_bounds hu
  obtain ⟨t, ht⟩ := Int.eq_ofNat_of_zero_le hnonneg
  rw [ht] at hle hlt
  have hle : 2 ^ t ≤ u := by exact_mod_cast hle
  have hlt : u < 2 ^ (t + 1) := by exact_mod_cast hlt
  have hz0 : (0 : K) ≤ z.toNat := Nat.cast_nonneg _
  have hz3 : (z.toNat : K) ≤ 3 := by exact_mod_cast Nat.le_of_lt_succ hz
  have hy31 : y.toNat < 31 := by
    refine lt_of_le_of_ne (Nat.le_of_lt_succ hy) fun heq => ?_
    rw [heq, conv.shiftOne_sign] at haccurate
    push_cast at haccurate
    linarith
  -- the number is no more than what is inferred from the greatest exponent and mantissa
  have hpow : (2 : K) ^ y.toNat ≤ 2 ^ 30 := pow_le_pow_right₀ one_le_two (by omega)
  have hinferred : (2 : K) ^ y.toNat * (1 + z.toNat / 4) ≤ 2 ^ 30 * (7 / 4) := by
    apply mul_le_mul hpow <;> first | positivity | linarith
  have hu : u < 2 ^ 32 := by
    rw [conv.shiftOne_of_lt _ hy31] at haccurate
    push_cast at haccurate
    linarith
  have ht32 : t < 32 := (pow_lt_pow_iff_right₀ (one_lt_two (α := K))).mp (hle.trans_lt hu)
  have hyt : y.toNat = t := by
    have hcast := conv.word_natCast t (by omega)
    rw [hword, log2_of_pos hpos, ht]
    change (conv.word (some (t : ℤ))).toNat = t
    rw [hcast, toNat_ofNat, Nat.mod_eq_of_lt (by omega)]
  exact ⟨t, by omega, ht, hle, hlt⟩

/-- The decoded value of a content is encoded to it, but for the exponent 31. -/
theorem encode_unit_iff {function : MsrFunction} (hfits : FitsWidth function n) (hn : n < 64)
    {x : ℕ} (hx : x < 2 ^ n) :
    (∀ conv, ∃ r, encodeFunction conv 1 (unit function x : K) function = .ok r ∧
      r.toNat % 2 ^ n = x) ↔ (function = .sevenBitFloat → x % 32 < 31) := by
  have hx64 : x < 2 ^ 64 := hx.trans (Nat.pow_lt_pow_right one_lt_two hn)
  have hofNat : (BitVec.ofNat 64 x).toNat % 2 ^ n = x := by
    rw [toNat_ofNat, Nat.mod_eq_of_lt hx64, Nat.mod_eq_of_lt hx]
  cases function with
  | scale =>
    refine iff_of_true (fun conv => ⟨_, rfl, ?_⟩) (fun h => nomatch h)
    rw [one_mul, unit, trunc_natCast, conv.word_natCast x hx64, hofNat]
  | logHalf =>
    refine iff_of_true (fun conv => ⟨_, rfl, ?_⟩) (fun h => nomatch h)
    have hzpow : (1 / 2 ^ x : K) = 2 ^ (-(x : ℤ)) := by
      rw [zpow_neg, zpow_natCast, one_div]
    have hneg : (-1 * -(x : ℤ)) = x := by ring
    rw [one_mul, unit, log2_of_pos (by positivity), hzpow, truncLog2_zpow, Option.map_some, hneg,
      conv.word_natCast x hx64, hofNat]
  | logic =>
    refine iff_of_true (fun conv => ⟨_, rfl, ?_⟩) (fun h => nomatch h)
    obtain rfl : n = 1 := hfits
    obtain rfl | rfl : x = 0 ∨ x = 1 := by omega
    · simp [unit]
    · simp [unit]
  | overflow => exact hfits.elim
  | sevenBitFloat =>
    obtain rfl : n = 7 := hfits
    obtain ⟨t, m, rfl, ht, hm⟩ : ∃ t m, x = t + 32 * m ∧ t < 32 ∧ m < 4 :=
      ⟨x % 32, x / 32, by omega, by omega, by omega⟩
    have hmod : (t + 32 * m) % 32 = t := by omega
    have hm3 : (m : K) ≤ 3 := by exact_mod_cast Nat.le_of_lt_succ hm
    have hm0 : (0 : K) ≤ m := Nat.cast_nonneg m
    have hpow : (0 : K) < 2 ^ t := by positivity
    have hle : 2 ^ t ≤ (2 ^ t * (1 + m / 4) : K) := by nlinarith
    have hlt : (2 ^ t * (1 + m / 4) : K) < 2 ^ (t + 1) := by
      rw [pow_succ]
      nlinarith
    rw [unit_sevenBitFloat ht, hmod]
    constructor
    · rintro h -
      obtain ⟨r, hr, -⟩ := h (.fill 0)
      obtain ⟨t', ht', hlog, -⟩ := exponent_lt hr ((one_le_pow₀ one_le_two).trans hle)
      rw [truncLog2_eq hle hlt] at hlog
      omega
    · intro h conv
      have hquotient : 4 * (2 ^ t * (1 + m / 4) / 2 ^ t - 1 : K) = m := by
        field_simp
        ring
      have htrunc : trunc (4 * (2 ^ t * (1 + m / 4) / 2 ^ t - 1 : K)) = m := by
        rw [hquotient, trunc_natCast]
      have hencode : ∃ r, encodeSevenBitFloat conv 1 (2 ^ t * (1 + m / 4) : K) = .ok r ∧
          r.toNat = t + 32 * m :=
        encodeSevenBitFloat_eq (h rfl) hm (hpow.trans_le hle) (truncLog2_eq hle hlt) htrunc
          (by rw [sub_self]; positivity)
      obtain ⟨r, hr, htoNat⟩ := hencode
      exact ⟨r, hr, by rw [htoNat, Nat.mod_eq_of_lt hx]⟩

/-- A number is refused, or encoded to a content that is within a step. -/
def Near (function : MsrFunction) (n : ℕ) (u : K) : Prop :=
  ∀ conv r, encodeFunction conv 1 u function = .ok r →
    |u - unit function (r.toNat % 2 ^ n)| ≤ step function (r.toNat % 2 ^ n)

theorem near_scale_iff (hpos : 0 < n) (hn : n < 64) :
    Near .scale n u ↔ Covers .scale n u := by
  have htwo : 2 ≤ 2 ^ n := Nat.le_self_pow hpos.ne' 2
  have htwo' : (2 : K) ≤ 2 ^ n := by exact_mod_cast htwo
  have hlt64 : 2 ^ n < 2 ^ 64 := Nat.pow_lt_pow_right one_lt_two hn
  have habs := abs_sub_trunc_lt u
  constructor
  · intro h
    have hneg : -1 < u := by
      refine trunc_nonneg_iff.mp (not_lt.mp fun hlt => ?_)
      have hnear := h (.fill 1#64) 1#64
        (by rw [encodeFunction, one_mul, Conversions.fill_of_neg hlt])
      have hone : (1#64).toNat % 2 ^ n = 1 := Nat.mod_eq_of_lt htwo
      have hle : u ≤ -1 := not_lt.mp fun h => absurd (trunc_nonneg_iff.mpr h) hlt.not_ge
      rw [hone, unit, step, Nat.cast_one, abs_le] at hnear
      linarith
    refine ⟨hneg, lt_of_not_ge fun hle => ?_⟩
    obtain ⟨m, hm⟩ := Int.eq_ofNat_of_zero_le (trunc_nonneg_iff.mpr hneg)
    have hmle : 2 ^ n ≤ m := by
      have hle : ((2 ^ n : ℕ) : ℤ) ≤ trunc u :=
        (le_trunc_iff (by positivity)).mpr (by exact_mod_cast hle)
      omega
    rcases lt_or_ge m (2 ^ 64) with hm64 | hm64
    · -- the mask drops the high bits
      have hnear := h (.fill 0#64) (BitVec.ofNat 64 m)
        (by rw [encodeFunction, one_mul, Conversions.word_trunc hm hm64])
      have hmod : m % 2 ^ n + 2 ^ n ≤ m := by
        have hdiv := Nat.mod_add_div m (2 ^ n)
        have hone : 1 ≤ m / 2 ^ n := Nat.div_pos hmle (by positivity)
        nlinarith
      have hmod : ((m % 2 ^ n : ℕ) : K) + 2 ^ n ≤ m := by exact_mod_cast hmod
      rw [toNat_ofNat, Nat.mod_eq_of_lt hm64, unit, step, abs_le] at hnear
      rw [hm, Int.cast_natCast, abs_lt] at habs
      linarith
    · have hnear := h (.fill 0#64) 0#64
        (by rw [encodeFunction, one_mul, hm, Conversions.fill_of_le hm64])
      have hzero : (0#64).toNat % 2 ^ n = 0 := Nat.zero_mod _
      rw [hzero, unit, step, Nat.cast_zero, abs_le] at hnear
      linarith
  · rintro ⟨hneg, hlt⟩ conv r hr
    obtain ⟨m, hm⟩ := Int.eq_ofNat_of_zero_le (trunc_nonneg_iff.mpr hneg)
    have hmlt : m < 2 ^ n := by
      refine lt_of_not_ge fun hle => hlt.not_ge ?_
      have hle : ((2 ^ n : ℕ) : K) ≤ u := (le_trunc_iff (by positivity)).mp (by omega)
      exact_mod_cast hle
    rw [encodeFunction, one_mul, Conversions.word_trunc hm (hmlt.trans hlt64)] at hr
    cases hr
    rw [hm, Int.cast_natCast] at habs
    rw [toNat_ofNat, Nat.mod_eq_of_lt (hmlt.trans hlt64), Nat.mod_eq_of_lt hmlt]
    exact habs.le

theorem near_logic_iff (hn : n = 1) : Near .logic n u ↔ Covers .logic n u := by
  subst hn
  have hnear : Near .logic 1 u ↔ |u - (if u ≠ 0 then 1 else 0)| ≤ 1 := by
    by_cases hu : u = 0
    · simp [Near, encodeFunction, unit, step, hu]
    · simp [Near, encodeFunction, unit, step, hu]
  rw [hnear, Covers]
  by_cases hu : u = 0
  · simp [hu]
  · rw [if_pos hu, abs_le]
    constructor
    · rintro ⟨hlow, hhigh⟩
      exact ⟨by linarith, by linarith⟩
    · rintro ⟨hlow, hhigh⟩
      exact ⟨by linarith, by linarith⟩

/-- The contents around a number below one. -/
theorem exists_truncLog2 (hpos : 0 < u) (hlt : u < 1) :
    ∃ x : ℕ, truncLog2 u = -x ∧ 1 / 2 ^ (x + 1) < u ∧ u ≤ 1 / 2 ^ x := by
  obtain ⟨hle, hlow, hhigh⟩ := truncLog2_bounds_of_lt_one hpos hlt
  obtain ⟨x, hx⟩ := Int.eq_ofNat_of_zero_le (neg_nonneg.mpr hle)
  have hx : truncLog2 u = -x := by omega
  have hpred : (-(x : ℤ) - 1) = -((x + 1 : ℕ) : ℤ) := by omega
  rw [hx, hpred, zpow_neg, zpow_natCast, ← one_div] at hlow
  rw [hx, zpow_neg, zpow_natCast, ← one_div] at hhigh
  exact ⟨x, hx, hlow, hhigh⟩

theorem near_logHalf_iff (hpos : 0 < n) (hn : n ≤ 6) :
    Near .logHalf n u ↔ Covers .logHalf n u := by
  have hlt64 : 2 ^ n < 2 ^ 64 := Nat.pow_lt_pow_right one_lt_two (by omega)
  have htwo : 2 ≤ 2 ^ n := Nat.le_self_pow hpos.ne' 2
  have hstep (x : ℕ) : (1 / 2 ^ x : K) = 2 * (1 / 2 ^ (x + 1)) := by
    rw [pow_succ]
    field_simp
  have hanti {x y : ℕ} (h : x ≤ y) : (1 / 2 ^ y : K) ≤ 1 / 2 ^ x :=
    one_div_le_one_div_of_le (by positivity) (pow_le_pow_right₀ one_le_two h)
  have hbounds (h : Near .logHalf n u) (conv : Conversions) {l : Option ℤ} (hl : log2 u = l) :
      1 / 2 ^ ((conv.word (l.map fun l => -1 * l)).toNat % 2 ^ n + 1) ≤ u ∧ u ≤ 3 / 2 := by
    have hnear := h conv _ (by rw [encodeFunction, one_mul, hl])
    generalize (conv.word (l.map fun l => -1 * l)).toNat % 2 ^ n = x at hnear ⊢
    have hone := hanti (Nat.zero_le x)
    rw [pow_zero, div_one] at hone
    rw [unit, step, abs_le] at hnear
    have hx := hstep x
    constructor <;> linarith
  constructor
  · intro h
    refine ⟨lt_of_not_ge fun hle => ?_, (hbounds h default rfl).2⟩
    obtain ⟨hlow, -⟩ := hbounds h default rfl
    have hu : 0 < u := lt_of_lt_of_le (by positivity) hlow
    have hlt : u < 1 := by
      have hfour : (1 / 2 ^ 2 : K) < 1 := by norm_num
      linarith [hanti htwo]
    obtain ⟨x, hx, hxlow, hxhigh⟩ := exists_truncLog2 hu hlt
    have hnx : 2 ^ n ≤ x := by
      by_contra hlt
      have hle' := hanti (show x + 1 ≤ 2 ^ n by omega)
      linarith
    have hlog : (log2 u).map (fun l => -1 * l) = some (x : ℤ) := by
      rw [log2_of_pos hu, hx]
      simp
    obtain ⟨hlow, -⟩ := hbounds h (.fill 0#64) rfl
    rw [hlog] at hlow
    -- the content that is left by the mask is smaller by two at least
    have hmod : ((Conversions.fill 0#64).word (some (x : ℤ))).toNat % 2 ^ n + 2 ≤ x := by
      rcases lt_or_ge x (2 ^ 64) with hx64 | hx64
      · rw [Conversions.word_natCast _ x hx64, toNat_ofNat, Nat.mod_eq_of_lt hx64]
        have hdiv := Nat.mod_add_div x (2 ^ n)
        have hone : 1 ≤ x / 2 ^ n := Nat.div_pos hnx (by positivity)
        nlinarith
      · rw [Conversions.fill_of_le hx64, toNat_ofNat, Nat.zero_mod]
        omega
    have hle := hanti hmod
    have hx' := hstep (((Conversions.fill 0#64).word (some (x : ℤ))).toNat % 2 ^ n + 1)
    have hpos : (0 : K) < 1 / 2 ^ x := by positivity
    linarith
  · rintro ⟨hlow, hhigh⟩ conv r hr
    have hu : 0 < u := lt_of_le_of_lt (by positivity) hlow
    obtain ⟨x, hx, hxn, hnear⟩ : ∃ x : ℕ, truncLog2 u = -x ∧ x < 2 ^ n ∧
        |u - 1 / 2 ^ x| ≤ 1 / 2 ^ (x + 1) := by
      rcases le_or_gt 1 u with hle | hlt
      · have hlog : truncLog2 u = (0 : ℕ) := truncLog2_eq (by simpa using hle) (by norm_num; linarith)
        refine ⟨0, by simpa using hlog, by positivity, ?_⟩
        rw [abs_le]
        constructor <;> linarith
      · obtain ⟨x, hx, hxlow, hxhigh⟩ := exists_truncLog2 hu hlt
        refine ⟨x, hx, ?_, ?_⟩
        · by_contra hle
          have hle := hanti (not_lt.mp hle)
          linarith
        · have hx' := hstep x
          rw [abs_le]
          constructor <;> linarith
    have hneg : -1 * -(x : ℤ) = x := by ring
    rw [encodeFunction, one_mul, log2_of_pos hu, hx, Option.map_some, hneg,
      conv.word_natCast x (hxn.trans hlt64)] at hr
    cases hr
    rw [toNat_ofNat, Nat.mod_eq_of_lt (hxn.trans hlt64), Nat.mod_eq_of_lt hxn]
    exact hnear

omit [LinearOrder K] [IsStrictOrderedRing K] [FloorRing K] in
theorem sub_inferred [CharZero K] (t m : ℕ) :
    u - 2 ^ t * (1 + m / 4) = 2 ^ t / 4 * (4 * (u / 2 ^ t - 1) - m) := by
  have hpow : (2 : K) ^ t ≠ 0 := by simp
  field_simp
  ring

theorem near_sevenBitFloat {t m : ℕ} (ht : t < 31) (hm : m < 4) (hpos : 0 < u)
    (hlog : truncLog2 u = t) (htrunc : trunc (4 * (u / 2 ^ t - 1)) = m)
    (haccurate : u - 2 ^ t * (1 + m / 4) ≤ u * (1 / 4)) {r : BitVec 64}
    (hr : encodeSevenBitFloat conv 1 u = .ok r) :
    |u - unit .sevenBitFloat (r.toNat % 2 ^ 7)| ≤ step .sevenBitFloat (r.toNat % 2 ^ 7) := by
  obtain ⟨r', hr', htoNat⟩ := encodeSevenBitFloat_eq ht hm hpos hlog htrunc haccurate
  obtain rfl := Except.ok.inj (hr.symm.trans hr')
  have hmod : (t + 32 * m) % 2 ^ 7 = t + 32 * m := Nat.mod_eq_of_lt (by omega)
  have habs := abs_sub_trunc_lt (4 * (u / 2 ^ t - 1))
  have hpow : (0 : K) < 2 ^ t / 4 := by positivity
  rw [htrunc, Int.cast_natCast] at habs
  rw [htoNat, hmod, unit_sevenBitFloat (by omega), step_sevenBitFloat (by omega), sub_inferred,
    abs_mul, abs_of_pos hpow]
  exact mul_le_of_le_one_right hpow.le habs.le

theorem truncLog2_eq_zero (hlow : 1 / 2 < u) (hlt : u < 1) : truncLog2 u = 0 := by
  obtain ⟨x, hx, -, hle⟩ := exists_truncLog2 (by linarith) hlt
  cases x with
  | zero => exact hx
  | succ x =>
    have hhalf : (1 / 2 ^ (x + 1) : K) ≤ 1 / 2 := by
      rw [pow_succ]
      exact one_div_le_one_div_of_le two_pos
        (le_mul_of_one_le_left zero_le_two (one_le_pow₀ one_le_two))
    linarith

theorem near_sevenBitFloat_iff : Near .sevenBitFloat 7 u ↔ Covers .sevenBitFloat 7 u := by
  constructor
  · intro h
    by_contra hcovers
    obtain ⟨hpos, hle⟩ := not_or.mp hcovers
    have hpos : 0 < u := not_le.mp hpos
    have hle : u ≤ 3 / 4 := not_lt.mp hle
    -- the exponent is zero, or its cast is not defined
    obtain ⟨t, ht, hword⟩ : ∃ t < 31, (Conversions.fill 3#64).word (log2 u) = BitVec.ofNat 64 t := by
      rw [log2_of_pos hpos]
      rcases lt_or_ge (1 / 2) u with hhalf | hhalf
      · exact ⟨0, by norm_num, by rw [truncLog2_eq_zero hhalf (by linarith)]; rfl⟩
      · refine ⟨3, by norm_num, Conversions.fill_of_neg ?_⟩
        obtain ⟨x, hx, hlow, -⟩ := exists_truncLog2 hpos (by linarith)
        cases x with
        | zero => norm_num at hlow; linarith
        | succ x => omega
    have htoNat : (BitVec.ofNat 64 t).toNat = t := by
      rw [toNat_ofNat, Nat.mod_eq_of_lt (by omega)]
    have hpow : (1 : K) ≤ 2 ^ t := one_le_pow₀ one_le_two
    have hquotient : u / 2 ^ t ≤ 3 / 4 := (div_le_self hpos.le hpow).trans hle
    have hneg : trunc (4 * (u / 2 ^ t - 1)) < 0 :=
      not_le.mp fun h => by linarith [trunc_nonneg_iff.mp h]
    have hok : encodeSevenBitFloat (.fill 3#64) 1 u = .ok (BitVec.ofNat 64 t ||| 3#64 <<< 5) := by
      refine encodeSevenBitFloat_eq_ok.mpr ⟨_, 3#64, hpos, hword.symm, ?_, by omega, by decide, ?_, rfl⟩
      · rw [htoNat, Conversions.shiftOne_of_lt _ t ht]
        push_cast
        rw [quotient, if_neg (by positivity), Option.map_some, Conversions.fill_of_neg hneg]
      · rw [htoNat, Conversions.shiftOne_of_lt _ t ht]
        push_cast
        norm_num
        nlinarith
    have hnear := h _ _ hok
    have hmod : (t + 32 * 3) % 2 ^ 7 = t + 32 * 3 := Nat.mod_eq_of_lt (by omega)
    have hthree : (3#64).toNat = 3 := rfl
    rw [toNat_pack (by omega) (by decide), htoNat, hthree, hmod, unit_sevenBitFloat (by omega),
      step_sevenBitFloat (by omega), abs_le] at hnear
    norm_num at hnear
    linarith
  · rintro (hneg | hgt) conv r hr
    · obtain ⟨_, _, hpos, -⟩ := encodeSevenBitFloat_eq_ok.mp hr
      exact absurd hneg hpos.not_ge
    · rcases lt_or_ge u 1 with hlt | hge
      · -- the exponent and the mantissa are truncated to zero
        refine near_sevenBitFloat (t := 0) (m := 0) (by norm_num) (by norm_num) (by linarith)
          (truncLog2_eq_zero (by linarith) hlt) ?_ ?_ hr
        · rw [pow_zero, div_one]
          exact trunc_eq_zero (by linarith) (by linarith)
        · norm_num
          linarith
      · obtain ⟨t, ht, hlog, hle, hlt⟩ := exponent_lt hr hge
        have hpow : (0 : K) < 2 ^ t := by positivity
        have hone : 1 ≤ u / 2 ^ t := (one_le_div hpow).mpr hle
        have htwo : u / 2 ^ t < 2 := by
          rw [div_lt_iff₀ hpow, ← pow_succ']
          exact hlt
        obtain ⟨m, hm⟩ := Int.eq_ofNat_of_zero_le
          (trunc_nonneg_iff.mpr (show -1 < 4 * (u / 2 ^ t - 1) by linarith))
        have hm4 : m < 4 := by
          by_contra hge
          have hle := (le_trunc_iff (x := 4 * (u / 2 ^ t - 1)) (n := 4) (by norm_num)).mp (by omega)
          push_cast at hle
          linarith
        have habs := abs_sub_trunc_lt (4 * (u / 2 ^ t - 1))
        refine near_sevenBitFloat ht hm4 (by linarith) hlog hm ?_ hr
        rw [hm, Int.cast_natCast, abs_lt] at habs
        rw [sub_inferred]
        nlinarith

theorem near_iff {function : MsrFunction} (hfits : FitsWidth function n) (hpos : 0 < n)
    (hn : n < 64) : Near function n u ↔ Covers function n u := by
  cases function with
  | scale => exact near_scale_iff hpos hn
  | logHalf => exact near_logHalf_iff hpos hfits
  | sevenBitFloat =>
    obtain rfl : n = 7 := hfits
    exact near_sevenBitFloat_iff
  | logic => exact near_logic_iff hfits
  | overflow => exact hfits.elim

end Encodings

/-! ### Encoding and decoding -/

namespace EncodedField

variable [LinearOrder K] [IsStrictOrderedRing K] [FloorRing K]
variable (f : EncodedField K)

theorem encode_eq_ok {conv : Conversions} {u : K} {raw : BitVec 64} :
    f.control.encode conv (u * f.scalar) = .ok raw ↔ ∃ r,
      encodeFunction conv 1 u f.function = .ok r ∧ raw = r <<< f.beginBit &&& f.control.mask := by
  have hcode : f.control.encode conv (u * f.scalar) =
      encodeFunction conv 1 u f.function >>= fun r =>
        .ok (r <<< f.beginBit &&& f.control.mask) := by
    rw [← encodeFunction_mul f.scalar_pos]
    rfl
  rw [hcode]
  cases encodeFunction conv 1 u f.function with
  | error e =>
    constructor
    · intro h
      cases h
    · rintro ⟨r, hr, -⟩
      cases hr
  | ok r =>
    constructor
    · intro h
      exact ⟨r, rfl, (Except.ok.inj h).symm⟩
    · rintro ⟨r', hr', rfl⟩
      cases hr'
      rfl

theorem roundTrips_iff (raw : BitVec 64) :
    f.RoundTrips raw ↔ (f.function = .sevenBitFloat → f.content raw % 32 < 31) := by
  have hlt := f.content_lt raw
  rw [← encode_unit_iff (K := K) f.fits_width f.width_lt_size hlt]
  refine forall_congr' fun conv => ?_
  rw [decode_eq, encode_eq_ok]
  refine exists_congr fun r => and_congr_right fun _ => ?_
  constructor
  · intro h
    rw [← content_place, ← h, content_mask]
  · intro h
    rw [← place_content, ← h, place_mod]

theorem meets_iff (setting : K) :
    f.Meets setting ↔ Covers f.function f.width (setting / f.scalar) := by
  have hpos := f.scalar_pos
  have hsetting : setting = setting / f.scalar * f.scalar := (div_mul_cancel₀ _ hpos.ne').symm
  rw [← near_iff f.fits_width (Nat.succ_pos _) f.width_lt_size]
  generalize setting / f.scalar = u at hsetting ⊢
  subst hsetting
  refine forall_congr' fun conv => ?_
  constructor
  · intro h r hr
    have hnear := h _ ((f.encode_eq_ok).mpr ⟨r, hr, rfl⟩)
    rw [decode_eq, quantum, content_place, ← sub_mul, abs_mul, abs_of_pos hpos] at hnear
    exact le_of_mul_le_mul_right hnear hpos
  · intro h raw hraw
    obtain ⟨r, hr, rfl⟩ := (f.encode_eq_ok).mp hraw
    rw [decode_eq, quantum, content_place, ← sub_mul, abs_mul, abs_of_pos hpos]
    exact mul_le_mul_of_nonneg_right (h r hr) hpos.le

/-- The contents that are encoded back are all but those with the exponent 31. A setting is encoded
within one quantum, or refused, exactly when it is covered. -/
theorem encode_decode_iff (f : EncodedField K) :
    (∀ raw, f.RoundTrips raw ↔ (f.function = .sevenBitFloat → f.content raw % 32 < 31)) ∧
      ∀ setting, f.Meets setting ↔ Covers f.function f.width (setting / f.scalar) :=
  ⟨f.roundTrips_iff, f.meets_iff⟩

/-- A power limit in eighths of a watt. -/
def powerLimit : EncodedField ℚ where
  beginBit := 0
  endBit := 14
  function := .scale
  scalar := 1 / 8
  begin_le_end := by decide
  end_lt := by decide
  width_lt := by decide
  fits := trivial
  scalar_pos := by norm_num

theorem encode_decode_iff_power :
    powerLimit.RoundTrips 0x5dd8320#64 ∧ powerLimit.Meets 250 ∧ ¬ powerLimit.Meets 4096 := by
  obtain ⟨hround, hmeets⟩ := encode_decode_iff powerLimit
  refine ⟨(hround _).mpr (fun h => nomatch h), (hmeets _).mpr ?_, fun h => ?_⟩
  · constructor <;> norm_num [powerLimit, width]
  · obtain ⟨-, hlt⟩ := (hmeets _).mp h
    norm_num [powerLimit, width] at hlt

/-- The high bits of a setting that is too large are dropped. -/
theorem not_encode_decode : ¬ ∀ f : EncodedField ℝ,
    (∀ raw, f.RoundTrips raw) ∧ ∀ setting, f.Meets setting := by
  intro h
  let byte : EncodedField ℝ :=
    ⟨0, 7, .scale, 1, by decide, by decide, by decide, trivial, one_pos⟩
  obtain ⟨-, hlt⟩ := (byte.meets_iff 256).mp ((h byte).2 256)
  norm_num [byte, width] at hlt

end EncodedField

end Geopm.Pio
