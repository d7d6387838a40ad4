import Mathlib
import NodeFormula.Decimal.Numeral
/-!
# NodeFormula — floats without a sign

A number that is written without a sign is read as a float whose sign bit is not set
(`unsigned_of_readFloat?`). Floats compare as numbers, and the two zeros are equal as
numbers; among floats without a sign, those that compare as equal are the same
(`Unsigned.eq_of_beq`).
-/

namespace NodeFormula

open Float.Model Float.Model.UnpackedFloat

/-- The sign bit is not set. -/
def Unsigned (a : Float) : Prop := @unpackSign .binary64 a.toModel.toBits.toBitVec = 0#1

instance (a : Float) : Decidable (Unsigned a) := inferInstanceAs (Decidable (_ = _))

/-! ## Unpacked floats -/

/-- An unpacked float that has no sign but the positive one. -/
def Positive : UnpackedFloat → Prop
  | .infinity s | .zero s | .finite s .. => s = .positive
  | .notANumber => True

theorem unpackSign_packComponents {spec : Format} (s : Sign) (e : BitVec spec.exponentBits)
    (m : BitVec spec.mantissaBitsWithoutImplicit) :
    unpackSign (packComponents spec s e m) = s.toBitVec := by
  refine BitVec.eq_of_getLsbD_eq fun i hi => ?_
  obtain rfl : i = 0 := by omega
  simp [unpackSign, packComponents, BitVec.getLsbD_append, BitVec.getElem_append]

theorem Positive.unpackSign_pack {u : UnpackedFloat} (h : Positive u) :
    unpackSign (UnpackedFloat.pack .binary64 u) = 0#1 := by
  cases u with
  | notANumber => exact unpackSign_packComponents ..
  | infinity s =>
    obtain rfl : s = .positive := h
    exact unpackSign_packComponents ..
  | zero s =>
    obtain rfl : s = .positive := h
    exact unpackSign_packComponents ..
  | finite s m e hm =>
    obtain rfl : s = .positive := h
    rw [UnpackedFloat.pack]
    split
    · exact unpackSign_packComponents ..
    · split
      · exact unpackSign_packComponents ..
      · exact unpackSign_packComponents ..

theorem positive_unpack {b : BitVec Format.binary64.numBits} (h : unpackSign b = 0#1) :
    Positive (UnpackedFloat.unpack .binary64 b) := by
  have hsign : Sign.ofBitVec (unpackSign b) = .positive := by rw [h]; rfl
  rw [UnpackedFloat.unpack]
  split
  · split
    · exact hsign
    · trivial
  · split
    · split
      · exact hsign
      · exact hsign
    · exact hsign

section

variable {spec : Format} {u v : UnpackedFloat}

theorem positive_roundWithAccuracy (m : Nat) (e : Int) (accuracy : Accuracy) :
    Positive (roundWithAccuracy spec .positive m e accuracy) := by
  rw [roundWithAccuracy]
  dsimp only
  split
  · exact rfl
  · exact rfl

theorem Positive.mul (hu : Positive u) (hv : Positive v) : Positive (UnpackedFloat.mul spec u v) := by
  cases u with
  | notANumber => cases v <;> exact trivial
  | infinity s =>
    cases hu
    cases v with
    | infinity t => cases hv; exact rfl
    | finite t => cases hv; exact rfl
    | zero | notANumber => exact trivial
  | zero s =>
    cases hu
    cases v with
    | zero t => cases hv; exact rfl
    | finite t => cases hv; exact rfl
    | infinity | notANumber => exact trivial
  | finite s m e hm =>
    cases hu
    cases v with
    | zero t => cases hv; exact rfl
    | infinity t => cases hv; exact rfl
    | finite t => cases hv; exact positive_roundWithAccuracy ..
    | notANumber => exact trivial

theorem Positive.div (hu : Positive u) (hv : Positive v) : Positive (UnpackedFloat.div spec u v) := by
  cases u with
  | notANumber => cases v <;> exact trivial
  | infinity s =>
    cases hu
    cases v with
    | infinity | notANumber => exact trivial
    | zero t => cases hv; exact rfl
    | finite t => cases hv; exact rfl
  | zero s =>
    cases hu
    cases v with
    | zero | notANumber => exact trivial
    | infinity t => cases hv; exact rfl
    | finite t => cases hv; exact rfl
  | finite s m e hm =>
    cases hu
    cases v with
    | zero t => cases hv; exact rfl
    | infinity t => cases hv; exact rfl
    | finite t => cases hv; exact positive_roundWithAccuracy ..
    | notANumber => exact trivial

theorem positive_ofNat (n : Nat) : Positive (UnpackedFloat.ofNat spec n) := by
  rw [UnpackedFloat.ofNat, UnpackedFloat.ofInt, UnpackedFloat.normalize]
  split
  · rename_i h
    rw [Int.compare_eq_lt] at h
    omega
  · exact rfl
  · exact positive_roundWithAccuracy ..

theorem positive_ofScientific (m : Nat) (e : Int) :
    Positive (UnpackedFloat.ofScientific spec m e) := by
  rw [UnpackedFloat.ofScientific]
  split
  · exact rfl
  split
  · exact rfl
  split
  · exact rfl
  split
  · exact Positive.mul rfl rfl
  · exact Positive.div rfl rfl

end

/-! ## Equal floats -/

section

variable {spec : Format} {b c : BitVec spec.numBits}

/-- A word is what its three parts are. -/
theorem eq_of_parts (hsign : unpackSign b = unpackSign c)
    (hexponent : unpackExponent b = unpackExponent c)
    (hmantissa : unpackMantissa b = unpackMantissa c) : b = c := by
  have hm := spec.hm
  have he := spec.he
  refine BitVec.eq_of_getLsbD_eq fun i hi => ?_
  by_cases hlow : i < spec.mantissaBitsWithoutImplicit
  · have hbit := congrArg (fun x => x.getLsbD i) hmantissa
    simpa [unpackMantissa, hlow] using hbit
  by_cases hmiddle : i < spec.mantissaBitsWithoutImplicit + spec.exponentBits
  · have hbit := congrArg (fun x => x.getLsbD (i - spec.mantissaBitsWithoutImplicit)) hexponent
    have hlt : i - spec.mantissaBitsWithoutImplicit < spec.exponentBits := by omega
    have hplace : spec.mantissaBitsWithoutImplicit + (i - spec.mantissaBitsWithoutImplicit) = i := by
      omega
    simpa [unpackExponent, hlt, hplace] using hbit
  · have hwidth : i < 1 + spec.exponentBits + spec.mantissaBitsWithoutImplicit := hi
    obtain rfl : i = spec.mantissaBitsWithoutImplicit + spec.exponentBits := by omega
    have hbit := congrArg (fun x => x.getLsbD 0) hsign
    simpa [unpackSign] using hbit

/-- What an unpacked float says of the exponent and the mantissa of its word. -/
def SaysOf (exponent : BitVec spec.exponentBits) (mantissa : BitVec spec.mantissaBitsWithoutImplicit) :
    UnpackedFloat → Prop
  | .notANumber => True
  | .infinity _ => exponent = -1#_ ∧ mantissa = 0#_
  | .zero _ => exponent = 0#_ ∧ mantissa = 0#_
  | .finite _ m e _ =>
    m = (if exponent = 0#_ then 0 else 2 ^ spec.mantissaBitsWithoutImplicit) + mantissa.toNat ∧
    e = exponent.toNat - (spec.exponentBias + spec.mantissaBitsWithoutImplicit : Int)
      + if exponent = 0#_ then 1 else 0

theorem saysOf_unpack (b : BitVec spec.numBits) :
    SaysOf (unpackExponent b) (unpackMantissa b) (UnpackedFloat.unpack spec b) := by
  rw [UnpackedFloat.unpack]
  split
  · rename_i hall
    split
    · exact ⟨hall, ‹_›⟩
    · trivial
  · split
    · rename_i hzero
      split
      · exact ⟨hzero, ‹_›⟩
      · exact ⟨by rw [if_pos hzero, Nat.zero_add], by rw [if_pos hzero]⟩
    · rename_i hnonzero
      refine ⟨?_, by rw [if_neg hnonzero, Int.add_zero]⟩
      rw [if_neg hnonzero, BitVec.toNat_append, ← Nat.shiftLeft_add_eq_or_of_lt (BitVec.isLt _),
        Nat.shiftLeft_eq]
      simp

/-- Words that unpack to the same number have the same exponent and the same mantissa. -/
theorem parts_eq_of_unpack_eq (h : UnpackedFloat.unpack spec b = UnpackedFloat.unpack spec c)
    (hnumber : UnpackedFloat.unpack spec b ≠ .notANumber) :
    unpackExponent b = unpackExponent c ∧ unpackMantissa b = unpackMantissa c := by
  have hb := saysOf_unpack b
  have hc := saysOf_unpack c
  rw [← h] at hc
  cases hu : UnpackedFloat.unpack spec b with
  | notANumber => exact absurd hu hnumber
  | infinity s | zero s =>
    rw [hu] at hb hc
    exact ⟨hb.1.trans hc.1.symm, hb.2.trans hc.2.symm⟩
  | finite s m e hm =>
    rw [hu] at hb hc
    obtain ⟨hm, he⟩ := hb
    obtain ⟨hm', he'⟩ := hc
    have hlt := (unpackMantissa b).isLt
    have hlt' := (unpackMantissa c).isLt
    -- the mantissa tells whether the exponent is zero
    by_cases hzero : unpackExponent b = 0#_
    · by_cases hzero' : unpackExponent c = 0#_
      · rw [if_pos hzero] at hm
        rw [if_pos hzero'] at hm'
        exact ⟨hzero.trans hzero'.symm, BitVec.eq_of_toNat_eq (by omega)⟩
      · rw [if_pos hzero] at hm
        rw [if_neg hzero'] at hm'
        omega
    · by_cases hzero' : unpackExponent c = 0#_
      · rw [if_neg hzero] at hm
        rw [if_pos hzero'] at hm'
        omega
      · rw [if_neg hzero] at hm he
        rw [if_neg hzero'] at hm' he'
        exact ⟨BitVec.eq_of_toNat_eq (by omega), BitVec.eq_of_toNat_eq (by omega)⟩

/-- Without signs, unpacked floats that compare as equal are the same. -/
theorem Positive.eq_of_beq {u v : UnpackedFloat} (hu : Positive u) (hv : Positive v)
    (h : u.beq v = true) : u = v ∧ u ≠ .notANumber := by
  rw [UnpackedFloat.beq, beq_iff_eq] at h
  cases u with
  | notANumber => cases h
  | infinity s =>
    cases hu
    cases v with
    | infinity t => cases hv; exact ⟨rfl, nofun⟩
    | notANumber | zero | finite => cases h
  | zero s =>
    cases hu
    cases v with
    | zero t => cases hv; exact ⟨rfl, nofun⟩
    | infinity t => cases hv; cases h
    | finite t => cases hv; cases h
    | notANumber => cases h
  | finite s m e hm =>
    cases hu
    cases v with
    | finite t m' e' hm' =>
      cases hv
      rw [UnpackedFloat.compare, Option.some.injEq, Ordering.then_eq_eq] at h
      obtain rfl := Int.compare_eq_eq.1 h.1
      obtain rfl := Nat.compare_eq_eq.1 h.2
      exact ⟨rfl, nofun⟩
    | infinity t => cases hv; cases h
    | notANumber | zero => cases h

end

/-! ## Numerals -/

section

variable {P : Float → Prop}

/-- **How digits become a float.** Few digits are scaled by a power of ten that is exact, and
the others are rounded once. -/
theorem ofScientific_of
    (hscaled : ∀ n : UInt64, ∀ x ∈ Float.exactlyRepresentablePowersOfTen.toList,
      P (n.toFloat / x) ∧ P (n.toFloat * x))
    (hrounded : ∀ m e, P ⟨Float.Model.ofScientific m e⟩) (m : Nat) (s : Bool) (e : Nat) :
    P (Float.ofScientific m s e) := by
  rw [Float.ofScientific]
  split
  · rename_i h
    have he : e < Float.exactlyRepresentablePowersOfTen.size := Nat.lt_succ_of_le h.2
    have hmem := Array.mem_toList_iff.2 (Array.getElem_mem he)
    dsimp only
    split
    · exact (hscaled _ _ hmem).1
    · exact (hscaled _ _ hmem).2
  · exact hrounded _ _

theorem nearest_of {digits : Nat} {exponent : Int} (hzero : P 0) (hinfinite : P (1 / 0))
    (hscientific : ∀ m s e, P (Float.ofScientific m s e)) : P (Numeral.nearest digits exponent) := by
  rw [Numeral.nearest]
  split
  · exact hzero
  split
  · exact hinfinite
  split
  · exact hscientific ..
  · exact hscientific ..

end

section

variable {a b : Float}

theorem Unsigned.mul (ha : Unsigned a) (hb : Unsigned b) : Unsigned (a * b) :=
  ((positive_unpack ha).mul (positive_unpack hb)).unpackSign_pack

theorem Unsigned.div (ha : Unsigned a) (hb : Unsigned b) : Unsigned (a / b) :=
  ((positive_unpack ha).div (positive_unpack hb)).unpackSign_pack

/-- **Floats without a sign that compare as equal are the same.** -/
theorem Unsigned.eq_of_beq (ha : Unsigned a) (hb : Unsigned b) (h : (a == b) = true) : a = b := by
  obtain ⟨heq, hnumber⟩ := (positive_unpack ha).eq_of_beq (positive_unpack hb) h
  obtain ⟨hexponent, hmantissa⟩ := parts_eq_of_unpack_eq heq hnumber
  have hword := eq_of_parts (ha.trans hb.symm) hexponent hmantissa
  obtain ⟨⟨⟨x⟩, hx⟩⟩ := a
  obtain ⟨⟨⟨y⟩, hy⟩⟩ := b
  obtain rfl : x = y := hword
  rfl

theorem unsigned_ofScientific (m : Nat) (s : Bool) (e : Nat) : Unsigned (Float.ofScientific m s e) := by
  have hpowers : ∀ x ∈ Float.exactlyRepresentablePowersOfTen.toList, Unsigned x := by decide +kernel
  have hword : ∀ n : UInt64, Unsigned n.toFloat := fun n => (positive_ofNat n.toNat).unpackSign_pack
  refine ofScientific_of (fun n x hx => ?_) (fun m e => ?_) m s e
  · exact ⟨(hword n).div (hpowers x hx), (hword n).mul (hpowers x hx)⟩
  · exact (positive_ofScientific m e).unpackSign_pack

theorem unsigned_zero : Unsigned 0 := unsigned_ofScientific 0 false 0

theorem unsigned_one : Unsigned 1 := unsigned_ofScientific 1 false 0

theorem unsigned_nearest (digits : Nat) (exponent : Int) : Unsigned (Numeral.nearest digits exponent) :=
  nearest_of unsigned_zero (unsigned_one.div unsigned_zero) unsigned_ofScientific

/-- What follows the digits of a number is nothing or a power of ten. -/
theorem finite_of_scaled {negative empty : Bool} {digits : Nat} {scale : Int} {rest : List Char}
    {n : Numeral}
    (h : (if empty then none else match rest with
      | [] => some (.finite negative digits scale)
      | c :: r =>
        if c == 'e' || c == 'E' then
          (Numeral.exponent? r).map fun e => .finite negative digits (scale + e)
        else none) = some n) : ∃ digits exponent, n = .finite negative digits exponent := by
  split at h
  · cases h
  split at h
  · cases h
    exact ⟨_, _, rfl⟩
  split at h
  · obtain ⟨e, -, rfl⟩ := Option.map_eq_some_iff.1 h
    exact ⟨_, _, rfl⟩
  · cases h

theorem finite_of_unsigned? {negative : Bool} {cs : List Char} {n : Numeral}
    (h : Numeral.unsigned? negative cs = some n) :
    ∃ digits exponent, n = .finite negative digits exponent :=
  finite_of_scaled h

theorem unsigned_of_magnitude? {cs : List Char} {n : Numeral}
    (h : Numeral.magnitude? false cs = some n) : Unsigned n.toFloat := by
  rw [Numeral.magnitude?] at h
  split at h
  · cases h
    exact unsigned_one.div unsigned_zero
  split at h
  · cases h
    exact unsigned_zero.div unsigned_zero
  obtain ⟨digits, exponent, rfl⟩ := finite_of_unsigned? h
  exact unsigned_nearest digits exponent

/-- **A number that does not begin with a minus is read without a sign.** -/
theorem unsigned_of_readFloat? {text : String} (hsign : text.toList.head? ≠ some '-')
    (h : readFloat? text = some a) : Unsigned a := by
  obtain ⟨n, hn, rfl⟩ := Option.map_eq_some_iff.1 h
  unfold Numeral.ofChars? at hn
  split at hn
  · rename_i cs hcs
    exact absurd (by rw [hcs]; rfl) hsign
  · exact unsigned_of_magnitude? hn
  · exact unsigned_of_magnitude? hn

end

end NodeFormula
