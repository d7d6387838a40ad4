import NodeFormula.Proofs.Decimal.Unsigned
import NodeFormula.Proofs.Token.Written
/-!
# NodeFormula — floats that are numbers

The undefined value differs from itself, and no other float does. A numeral of a formula is
written in digits, and what it is read as equals itself (`defined_of_readFloat?`): the digits
are scaled by a power of ten, which is neither zero nor infinite.
-/

namespace NodeFormula

open Float.Model Float.Model.UnpackedFloat

/-- A float that equals itself. -/
def Defined (a : Float) : Prop := (a == a) = true

instance (a : Float) : Decidable (Defined a) := inferInstanceAs (Decidable (_ = _))

/-! ## Unpacked floats -/

section

variable {spec : Format} {u v : UnpackedFloat}

theorem beq_self_iff : u.beq u = true ↔ u ≠ .notANumber := by
  cases u with
  | notANumber => exact ⟨fun h => (by cases h), fun h => absurd rfl h⟩
  | infinity s | zero s => cases s <;> exact ⟨fun _ => by simp, fun _ => rfl⟩
  | finite s m e hm =>
    refine ⟨fun _ => by simp, fun _ => ?_⟩
    cases s <;> simp [UnpackedFloat.beq, UnpackedFloat.compare]

theorem unpack_ne_notANumber {b : BitVec spec.numBits}
    (h : unpackExponent b = -1#_ → unpackMantissa b = 0#_) :
    UnpackedFloat.unpack spec b ≠ .notANumber := by
  rw [UnpackedFloat.unpack]
  split
  · rename_i hall
    rw [if_pos (h hall)]
    simp
  · split
    · split <;> simp
    · simp

/-- **What is a number before it is packed is one afterwards.** -/
theorem unpack_pack_ne_notANumber (h : u ≠ .notANumber) :
    UnpackedFloat.unpack .binary64 (UnpackedFloat.pack .binary64 u) ≠ .notANumber := by
  have hinfinity : ∀ s, UnpackedFloat.unpack .binary64 (packedInfinity .binary64 s) ≠ .notANumber :=
    fun s => unpack_ne_notANumber fun _ => unpackMantissa_packComponents
  cases u with
  | notANumber => exact absurd rfl h
  | infinity s => exact hinfinity s
  | zero s => exact unpack_ne_notANumber fun _ => unpackMantissa_packComponents
  | finite s m e hm =>
    rw [UnpackedFloat.pack]
    dsimp only
    split
    · exact hinfinity s
    · rename_i hsmall
      split
      · -- the exponent is below the one that is kept for infinities
        refine unpack_ne_notANumber fun hall => ?_
        rw [unpackExponent_packComponents, ← BitVec.toNat_inj, BitVec.toNat_ofNat] at hall
        change _ = 2047 at hall
        omega
      · refine unpack_ne_notANumber fun hall => ?_
        rw [unpackExponent_packComponents] at hall
        exact absurd hall (by decide)

theorem roundWithAccuracy_ne_notANumber (s : Sign) (m : Nat) (e : Int) (accuracy : Accuracy) :
    roundWithAccuracy spec s m e accuracy ≠ .notANumber := by
  rw [roundWithAccuracy]
  dsimp only
  split <;> simp

/-- Neither zero nor infinite nor undefined. -/
def IsProper : UnpackedFloat → Bool
  | .finite .. => true
  | _ => false

theorem mul_ne_notANumber (hu : u ≠ .notANumber) (hv : IsProper v) :
    UnpackedFloat.mul spec u v ≠ .notANumber := by
  cases v with
  | finite s m e hm =>
    cases u with
    | notANumber => exact absurd rfl hu
    | infinity | zero => simp [UnpackedFloat.mul]
    | finite => exact roundWithAccuracy_ne_notANumber _ _ _ _
  | infinity | notANumber | zero => cases hv

theorem div_ne_notANumber (hu : u ≠ .notANumber) (hv : IsProper v) :
    UnpackedFloat.div spec u v ≠ .notANumber := by
  cases v with
  | finite s m e hm =>
    cases u with
    | notANumber => exact absurd rfl hu
    | infinity | zero => simp [UnpackedFloat.div]
    | finite => exact roundWithAccuracy_ne_notANumber _ _ _ _
  | infinity | notANumber | zero => cases hv

theorem ofNat_ne_notANumber (n : Nat) : UnpackedFloat.ofNat spec n ≠ .notANumber := by
  rw [UnpackedFloat.ofNat, UnpackedFloat.ofInt, UnpackedFloat.normalize]
  split
  · exact roundWithAccuracy_ne_notANumber _ _ _ _
  · simp
  · exact roundWithAccuracy_ne_notANumber _ _ _ _

theorem ofScientific_ne_notANumber (m : Nat) (e : Int) :
    UnpackedFloat.ofScientific spec m e ≠ .notANumber := by
  rw [UnpackedFloat.ofScientific]
  split
  · simp
  split
  · simp
  split
  · simp
  split
  · exact mul_ne_notANumber (by simp) rfl
  · exact div_ne_notANumber (by simp) rfl

end

/-! ## Numerals -/

/-- The parts of a float. -/
def unpacked (a : Float) : UnpackedFloat := UnpackedFloat.unpack .binary64 a.toModel.toBits.toBitVec

theorem defined_iff {a : Float} : Defined a ↔ unpacked a ≠ .notANumber := beq_self_iff

theorem defined_ofScientific (m : Nat) (s : Bool) (e : Nat) : Defined (Float.ofScientific m s e) := by
  have hpowers : ∀ x ∈ Float.exactlyRepresentablePowersOfTen.toList, IsProper (unpacked x) := by
    decide +kernel
  have hword : ∀ n : UInt64, unpacked n.toFloat ≠ .notANumber :=
    fun n => unpack_pack_ne_notANumber (ofNat_ne_notANumber n.toNat)
  refine ofScientific_of (fun n x hx => ⟨?_, ?_⟩) (fun m e => ?_) m s e
  · exact defined_iff.2 (unpack_pack_ne_notANumber (div_ne_notANumber (hword n) (hpowers x hx)))
  · exact defined_iff.2 (unpack_pack_ne_notANumber (mul_ne_notANumber (hword n) (hpowers x hx)))
  · exact defined_iff.2 (unpack_pack_ne_notANumber (ofScientific_ne_notANumber m e))

theorem defined_nearest (digits : Nat) (exponent : Int) :
    Defined (Numeral.nearest digits exponent) :=
  nearest_of (by decide +kernel) (by decide +kernel) defined_ofScientific

/-- The characters of a numeral. -/
theorem IsNumeral.digit_or_point {cs : List Char} (h : IsNumeral cs) {c : Char} (hc : c ∈ cs) :
    c.isDigit ∨ c = '.' := by
  obtain ⟨whole, places, hwhole, hplaces, ⟨rfl, -⟩ | ⟨rfl, -⟩⟩ := h
  · exact .inl (hwhole c hc)
  · rcases List.mem_append.1 hc with hc | hc
    · exact .inl (hwhole c hc)
    · rcases List.mem_cons.1 hc with rfl | hc
      · exact .inr rfl
      · exact .inl (hplaces c hc)

/-- Digits and points spell none of the other floats. -/
theorem ofChars?_of_digits {cs : List Char} (h : ∀ c ∈ cs, c.isDigit ∨ c = '.') :
    Numeral.ofChars? cs = Numeral.unsigned? false cs := by
  have hmagnitude : Numeral.ofChars? cs = Numeral.magnitude? false cs := by
    unfold Numeral.ofChars?
    split
    · rcases h '-' List.mem_cons_self with hc | hc <;> exact absurd hc (by decide)
    · rcases h '+' List.mem_cons_self with hc | hc <;> exact absurd hc (by decide)
    · rfl
  have hletters : 'n' ∉ cs.map Char.toLower := by
    intro hmem
    obtain ⟨c, hc, hlower⟩ := List.mem_map.1 hmem
    rcases h c hc with hdigit | rfl
    · have halpha := Char.isLower_toLower_eq_isAlpha c
      rw [hlower, not_isAlpha_of_isDigit hdigit] at halpha
      exact absurd halpha (by decide)
    · exact absurd hlower (by decide)
  have hspelled : ∀ word : String, 'n' ∈ word.toList →
      (String.ofList (cs.map Char.toLower) == word) = false := by
    intro word hword
    rw [beq_eq_false_iff_ne]
    rintro rfl
    rw [String.toList_ofList] at hword
    exact hletters hword
  rw [hmagnitude, Numeral.magnitude?]
  simp only [hspelled "inf" (by decide), hspelled "infinity" (by decide), hspelled "nan" (by decide),
    Bool.or_self, Bool.false_eq_true, if_false]

/-- **A numeral in digits is read as a number.** -/
theorem defined_of_readFloat? {text : String} {a : Float} (h : IsNumeral text.toList)
    (hread : readFloat? text = some a) : Defined a := by
  obtain ⟨n, hn, rfl⟩ := Option.map_eq_some_iff.1 hread
  rw [ofChars?_of_digits fun c hc => h.digit_or_point hc] at hn
  obtain ⟨digits, exponent, rfl⟩ := finite_of_unsigned? hn
  exact defined_nearest digits exponent

end NodeFormula
