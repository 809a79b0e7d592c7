import Riescue.LibExcept
import Riescue.LibIntBits

/-! The fields of a floating-point number, `FP` of `lib/numgen.py`: each setter writes the bits that the tables of offsets and
widths give, on an integer of any size. -/

namespace Riescue.NumGen
open Bitfields

inductive DataType where
  | int8 | int16 | int32 | int64 | fp8 | fp16 | fp32 | fp64
  deriving DecidableEq, Repr

structure FpOffsets where
  mantissa : Option ℕ
  exponent : Option ℕ
  sign : Option ℕ
  deriving DecidableEq, Repr

/-- `FpOffsets.__init__` -/
def FpOffsets.of : DataType → FpOffsets
  | .fp8 => ⟨some 0, some 3, some 7⟩
  | .fp16 => ⟨some 0, some 10, some 15⟩
  | .fp32 => ⟨some 0, some 23, some 31⟩
  | .fp64 => ⟨some 0, some 52, some 63⟩
  | _ => ⟨none, none, none⟩

structure Widths where
  mantissa : Option ℕ := none
  exponent : Option ℕ := none
  sign : Option ℕ := none
  payload : Option ℕ := none
  deriving DecidableEq, Repr

/-- `Widths.__init__` -/
def Widths.of : DataType → Widths
  | .int8 => { payload := some 8 }
  | .int16 => { payload := some 16 }
  | .int32 => { payload := some 32 }
  | .int64 => { payload := some 64 }
  | .fp8 => { mantissa := some 3, exponent := some 4, sign := some 1 }
  | .fp16 => { mantissa := some 11, exponent := some 5, sign := some 1 }
  | .fp32 => { mantissa := some 23, exponent := some 8, sign := some 1 }
  | .fp64 => { mantissa := some 52, exponent := some 11, sign := some 1 }

/-! ### The helpers of `common.py` -/

/-- `common.set_bitn` -/
def setBitn (original : ℤ) (bit : ℕ) (value : Bool) : ℤ :=
  if value then Int.lor original ((1 : ℤ) <<< bit) else Int.land original (Int.lnot ((1 : ℤ) <<< bit))

inductive FpFault where
  /-- "... is not defined for this data type." -/
  | notDefined (what : String)
  /-- "Invalid ... value: ..." -/
  | invalid (field : String) (value : ℤ)
  /-- `assert bit_hi > bit_lo` -/
  | assertion
  deriving DecidableEq, Repr

/-- `common.set_bits` -/
def setBits (originalValue : ℤ) (bitHi bitLo : ℕ) (value : ℤ) : Except FpFault ℤ :=
  if bitHi > bitLo then
    let mask := (1 : ℤ) <<< (bitHi - bitLo + 1) - 1
    .ok (Int.lor (Int.land originalValue (Int.lnot (mask <<< bitLo))) (Int.land value mask <<< bitLo))
  else .error .assertion

/-! ### Numbers -/

structure FP where
  val : ℤ := 0
  offsets : FpOffsets
  widths : Widths
  deriving DecidableEq, Repr

/-- `FP.__init__` -/
def FP.new (dataType : DataType) (val : ℤ) : FP := ⟨val, FpOffsets.of dataType, Widths.of dataType⟩

/-- The setter of a field of several bits. -/
def FP.setField (fp : FP) (field : String) (offset width : Option ℕ) (value : ℤ) : Except FpFault FP :=
  match width, offset with
  | none, _ => .error (.notDefined (field ++ " width"))
  | some _, none => .error (.notDefined ("offset " ++ field))
  | some width, some offset =>
      if value > (1 : ℤ) <<< width then .error (.invalid field value)
      else do
        let val ← setBits fp.val (offset + width - 1) offset value
        pure { fp with val }

def FP.setExponent (fp : FP) (exponent : ℤ) : Except FpFault FP :=
  fp.setField "exponent" fp.offsets.exponent fp.widths.exponent exponent

def FP.setMantissa (fp : FP) (mantissa : ℤ) : Except FpFault FP :=
  fp.setField "mantissa" fp.offsets.mantissa fp.widths.mantissa mantissa

def FP.setSign (fp : FP) (sign : ℤ) : Except FpFault FP :=
  match fp.widths.sign, fp.offsets.sign with
  | none, _ => .error (.notDefined "sign width")
  | some _, none => .error (.notDefined "offset sign")
  | some width, some offset =>
      if sign ≠ 0 ∧ sign ≠ 1 then .error (.invalid "sign" sign)
      else .ok { fp with val := setBitn fp.val (offset + width - 1) (sign ≠ 0) }

/-- A call of a setter. -/
inductive Call where
  | setSign (sign : ℤ)
  | setExponent (exponent : ℤ)
  | setMantissa (mantissa : ℤ)
  deriving DecidableEq, Repr

def FP.call (fp : FP) : Call → Except FpFault FP
  | .setSign sign => fp.setSign sign
  | .setExponent exponent => fp.setExponent exponent
  | .setMantissa mantissa => fp.setMantissa mantissa

def FP.run (fp : FP) (calls : List Call) : Except FpFault FP := calls.foldlM FP.call fp

/-! ### The IEEE layout -/

/-- The fields of a format, from the low bits on: mantissa, exponent and sign. -/
structure Layout where
  exponentWidth : ℕ
  mantissaWidth : ℕ
  deriving DecidableEq, Repr

def Layout.mantissa (layout : Layout) : Slot := ⟨0, layout.mantissaWidth⟩

def Layout.exponent (layout : Layout) : Slot := ⟨layout.mantissaWidth, layout.exponentWidth⟩

def Layout.sign (layout : Layout) : Slot := ⟨layout.mantissaWidth + layout.exponentWidth, 1⟩

/-- The formats of the floating-point types. -/
def DataType.layout : DataType → Option Layout
  | .fp8 => some ⟨4, 3⟩
  | .fp16 => some ⟨5, 10⟩
  | .fp32 => some ⟨8, 23⟩
  | .fp64 => some ⟨11, 52⟩
  | _ => none

/-- The values of the three fields. -/
@[ext] structure Fields where
  sign : ℤ
  exponent : ℤ
  mantissa : ℤ
  deriving DecidableEq, Repr

def Layout.read (layout : Layout) (val : ℤ) : Fields :=
  ⟨layout.sign.read val, layout.exponent.read val, layout.mantissa.read val⟩

/-- What a call is to do: it changes its own field. -/
def Fields.write (fields : Fields) : Call → Fields
  | .setSign sign => { fields with sign }
  | .setExponent exponent => { fields with exponent }
  | .setMantissa mantissa => { fields with mantissa }

/-! ### The property and its condition -/

/-- After every call each field holds what was last written to it, or its starting value. -/
def Independent (dataType : DataType) (layout : Layout) (start : ℤ) (calls : List Call) : Prop :=
  ∀ before after, calls = before ++ after → ∀ fp, (FP.new dataType start).run before = .ok fp →
    layout.read fp.val = before.foldl Fields.write (layout.read start)

/-- The value fits into the field, and a mantissa of half precision, which is written with one bit more, meets an even
exponent. -/
def Call.Clean (dataType : DataType) (layout : Layout) (fields : Fields) : Call → Prop
  | .setSign _ => True
  | .setExponent exponent => 0 ≤ exponent ∧ exponent < 2 ^ layout.exponentWidth
  | .setMantissa mantissa =>
      (0 ≤ mantissa ∧ mantissa < 2 ^ layout.mantissaWidth) ∧ (dataType = .fp16 → fields.exponent % 2 = 0)

/-- All calls are clean, each for the values that were written before. -/
def Clean (dataType : DataType) (layout : Layout) : Fields → List Call → Prop
  | _, [] => True
  | fields, call :: calls => call.Clean dataType layout fields ∧ Clean dataType layout (fields.write call) calls

/-! ### One call -/

theorem setBits_writes {n m value : ℤ} {bitHi bitLo : ℕ} (h : setBits n bitHi bitLo value = .ok m) :
    (⟨bitLo, bitHi - bitLo + 1⟩ : Slot).Writes value n m := by
  unfold setBits at h
  split_ifs at h
  obtain rfl := Except.ok.inj h
  intro i
  have hmask : 0 ≤ (1 : ℤ) <<< (bitHi - bitLo + 1) - 1 := by
    rw [one_shiftLeft]
    have hpos := Nat.two_pow_pos (bitHi - bitLo + 1)
    omega
  rw [Int.testBit_lor, Int.testBit_land, Int.testBit_lnot, testBit_shiftLeft_of_nonneg hmask,
    testBit_shiftLeft_of_nonneg (land_nonneg value hmask), Int.testBit_land, testBit_two_pow_sub_one]
  by_cases hlo : bitLo ≤ i
  · by_cases hhi : i < bitLo + (bitHi - bitLo + 1)
    · have hin : i - bitLo < bitHi - bitLo + 1 := by omega
      simp [hlo, hhi, hin]
    · have hout : ¬i - bitLo < bitHi - bitLo + 1 := by omega
      simp [hlo, hhi, hout]
  · simp [hlo]

theorem setBitn_writes (n : ℤ) (bit : ℕ) (value : Bool) :
    (⟨bit, 1⟩ : Slot).Writes (if value then 1 else 0) n (setBitn n bit value) := by
  intro i
  have hbit : ((1 : ℤ) <<< bit).testBit i = decide (i = bit) := by
    rw [one_shiftLeft]
    exact (Nat.testBit_two_pow ..).trans (by simp [eq_comm])
  have hvalue : ((if value then 1 else 0 : ℤ)).testBit 0 = value := by
    cases value
    · rfl
    · rfl
  show (setBitn n bit value).testBit i =
    if bit ≤ i ∧ i < bit + 1 then (if value then 1 else 0 : ℤ).testBit (i - bit) else n.testBit i
  unfold setBitn
  by_cases hi : i = bit
  · have hin : bit ≤ i ∧ i < bit + 1 := by omega
    rw [if_pos hin, hi, Nat.sub_self, hvalue]
    rw [hi] at hbit
    cases value <;> simp [hbit]
  · have hout : ¬(bit ≤ i ∧ i < bit + 1) := by omega
    rw [if_neg hout]
    cases value <;> simp [hbit, hi]

/-- An accepted setter of a field writes the slot of its offset and width. -/
theorem setField_ok {fp fp' : FP} {field : String} {offset width : ℕ} {value : ℤ} (hwidth : 1 < width)
    (h : fp.setField field (some offset) (some width) value = .ok fp') :
    ∃ m, fp' = { fp with val := m } ∧ (⟨offset, width⟩ : Slot).Writes value fp.val m := by
  unfold FP.setField at h
  dsimp only at h
  split_ifs at h
  obtain ⟨m, hbits, h⟩ := Fallible.bind_ok h
  refine ⟨m, (Except.ok.inj h).symm, ?_⟩
  have hwrites := setBits_writes hbits
  rwa [show offset + width - 1 - offset + 1 = width by omega] at hwrites

/-- An accepted sign is a bit. -/
theorem setSign_ok {fp fp' : FP} {offset : ℕ} {sign : ℤ} (hoffset : fp.offsets.sign = some offset)
    (hwidth : fp.widths.sign = some 1) (h : fp.setSign sign = .ok fp') :
    (sign = 0 ∨ sign = 1) ∧ ∃ m, fp' = { fp with val := m } ∧ (⟨offset, 1⟩ : Slot).Writes sign fp.val m := by
  unfold FP.setSign at h
  rw [hoffset, hwidth] at h
  dsimp only at h
  split_ifs at h with hbad
  have hsign : sign = 0 ∨ sign = 1 := by omega
  refine ⟨hsign, _, (Except.ok.inj h).symm, ?_⟩
  have hwrites := setBitn_writes fp.val offset (decide (sign ≠ 0))
  rcases hsign with rfl | rfl
  · exact hwrites
  · exact hwrites

/-- The slot that a call writes: that of its field, but for the mantissa of half precision, which has a bit more. -/
def Layout.written (layout : Layout) (dataType : DataType) : Call → Slot
  | .setSign _ => layout.sign
  | .setExponent _ => layout.exponent
  | .setMantissa _ => if dataType = .fp16 then ⟨0, 11⟩ else layout.mantissa

def Call.value : Call → ℤ
  | setSign value | setExponent value | setMantissa value => value

/-- What an accepted call does to the number. -/
theorem call_ok {dataType : DataType} {layout : Layout} (hlayout : dataType.layout = some layout) {n : ℤ} {call : Call} {fp : FP}
    (h : (FP.new dataType n).call call = .ok fp) :
    ∃ m, fp = FP.new dataType m ∧ (layout.written dataType call).Writes call.value n m ∧
      ∀ sign, call = .setSign sign → sign = 0 ∨ sign = 1 := by
  cases call with
  | setSign sign =>
      obtain ⟨hsign, m, hfp, hwrites⟩ : (sign = 0 ∨ sign = 1) ∧ ∃ m, fp = { FP.new dataType n with val := m } ∧
          layout.sign.Writes sign n m := by
        cases dataType <;> cases hlayout <;> exact setSign_ok rfl rfl h
      exact ⟨m, hfp, hwrites, fun _ heq => Call.setSign.inj heq ▸ hsign⟩
  | setExponent exponent =>
      obtain ⟨m, hfp, hwrites⟩ : ∃ m, fp = { FP.new dataType n with val := m } ∧ layout.exponent.Writes exponent n m := by
        cases dataType <;> cases hlayout <;> exact setField_ok (by decide) h
      exact ⟨m, hfp, hwrites, nofun⟩
  | setMantissa mantissa =>
      obtain ⟨m, hfp, hwrites⟩ : ∃ m, fp = { FP.new dataType n with val := m } ∧
          (layout.written dataType (.setMantissa mantissa)).Writes mantissa n m := by
        cases dataType <;> cases hlayout <;> exact setField_ok (by decide) h
      exact ⟨m, hfp, hwrites, nofun⟩

section Step
variable {dataType : DataType} {layout : Layout} {n m : ℤ}

theorem read_setSign {sign : ℤ} (hsign : sign = 0 ∨ sign = 1) (hwrites : layout.sign.Writes sign n m) :
    layout.read m = (layout.read n).write (.setSign sign) := by
  have hself : layout.sign.read m = sign := by
    rw [hwrites.read_self]
    rcases hsign with rfl | rfl
    · rfl
    · rfl
  have hexponent : layout.exponent.read m = layout.exponent.read n := hwrites.read_apart (.inl (Nat.le_refl _))
  have hmantissa : layout.mantissa.read m = layout.mantissa.read n :=
    hwrites.read_apart (.inl (by dsimp only [Layout.mantissa, Layout.sign]; omega))
  exact Fields.ext hself hexponent hmantissa

theorem read_setExponent_iff {exponent : ℤ} (hwrites : layout.exponent.Writes exponent n m) :
    layout.read m = (layout.read n).write (.setExponent exponent) ↔ 0 ≤ exponent ∧ exponent < 2 ^ layout.exponentWidth := by
  have hsign : layout.sign.read m = layout.sign.read n := hwrites.read_apart (.inr (Nat.le_refl _))
  have hmantissa : layout.mantissa.read m = layout.mantissa.read n :=
    hwrites.read_apart (.inl (by dsimp only [Layout.mantissa, Layout.exponent]; omega))
  rw [← emod_two_pow_eq_iff]
  constructor
  · exact fun h => hwrites.read_self.symm.trans (congrArg Fields.exponent h)
  · exact fun h => Fields.ext hsign (hwrites.read_self.trans h) hmantissa

theorem read_setMantissa_iff {mantissa : ℤ} (hwrites : layout.mantissa.Writes mantissa n m) :
    layout.read m = (layout.read n).write (.setMantissa mantissa) ↔ 0 ≤ mantissa ∧ mantissa < 2 ^ layout.mantissaWidth := by
  have hsign : layout.sign.read m = layout.sign.read n :=
    hwrites.read_apart (.inr (by dsimp only [Layout.mantissa, Layout.sign]; omega))
  have hexponent : layout.exponent.read m = layout.exponent.read n :=
    hwrites.read_apart (.inr (by dsimp only [Layout.mantissa, Layout.exponent]; omega))
  rw [← emod_two_pow_eq_iff]
  constructor
  · exact fun h => hwrites.read_self.symm.trans (congrArg Fields.mantissa h)
  · exact fun h => Fields.ext hsign hexponent (hwrites.read_self.trans h)

/-- The mantissa of half precision: the bit above it is the low bit of the exponent, and a mantissa that fits clears it. -/
theorem read_setMantissa_half_iff {mantissa : ℤ} (hwrites : (⟨0, 11⟩ : Slot).Writes mantissa n m) :
    (⟨5, 10⟩ : Layout).read m = ((⟨5, 10⟩ : Layout).read n).write (.setMantissa mantissa) ↔
      (0 ≤ mantissa ∧ mantissa < 2 ^ 10) ∧ (⟨10, 5⟩ : Slot).read n % 2 = 0 := by
  have hsign : (⟨15, 1⟩ : Slot).read m = (⟨15, 1⟩ : Slot).read n := hwrites.read_apart (.inr (by decide))
  have hmantissa : (⟨0, 10⟩ : Slot).read m = mantissa % 2 ^ 10 := by
    refine Slot.read_eq_emod fun i (hi : i < 10) => ?_
    rw [hwrites (0 + i), if_pos ⟨Nat.zero_le _, show 0 + i < 0 + 11 by omega⟩, Nat.add_sub_cancel_left]
  have hlow : m.testBit 10 = mantissa.testBit 10 := hwrites 10
  have hhigh : ∀ i, 0 < i → m.testBit (10 + i) = n.testBit (10 + i) :=
    fun i hi => (hwrites (10 + i)).trans (if_neg (by dsimp only; omega))
  have hparity : ∀ k : ℤ, (⟨10, 5⟩ : Slot).read k % 2 = 0 ↔ k.testBit 10 = false := by
    intro k
    rw [← testBit_zero_iff, Slot.testBit_read]
    exact Iff.rfl
  rw [hparity]
  constructor
  · intro h
    have hfits : 0 ≤ mantissa ∧ mantissa < 2 ^ 10 :=
      emod_two_pow_eq_iff.mp (hmantissa.symm.trans (congrArg Fields.mantissa h))
    have hexponent : (⟨10, 5⟩ : Slot).read m = (⟨10, 5⟩ : Slot).read n := congrArg Fields.exponent h
    refine ⟨hfits, (hparity n).mp ?_⟩
    rw [← hexponent, hparity, hlow]
    exact testBit_eq_false_of_lt hfits (Nat.le_refl 10)
  · rintro ⟨hfits, heven⟩
    refine Fields.ext hsign (Slot.read_congr fun i hi => ?_) (hmantissa.trans (emod_two_pow_eq_iff.mpr hfits))
    rcases Nat.eq_zero_or_pos i with rfl | hpos
    · exact hlow.trans ((testBit_eq_false_of_lt hfits (Nat.le_refl 10)).trans heven.symm)
    · exact hhigh i hpos

/-- An accepted call changes its own field, to its value, exactly when it is clean. -/
theorem read_call_iff (hlayout : dataType.layout = some layout) {call : Call} {fp : FP}
    (h : (FP.new dataType n).call call = .ok fp) :
    layout.read fp.val = (layout.read n).write call ↔ call.Clean dataType layout (layout.read n) := by
  obtain ⟨m, rfl, hwrites, hsign⟩ := call_ok hlayout h
  cases call with
  | setSign sign => exact iff_of_true (read_setSign (hsign sign rfl) hwrites) trivial
  | setExponent exponent => exact read_setExponent_iff hwrites
  | setMantissa mantissa =>
      by_cases hhalf : dataType = .fp16
      · subst hhalf
        obtain rfl := Option.some.inj hlayout
        refine (read_setMantissa_half_iff hwrites).trans (and_congr_right fun _ => ?_)
        exact (imp_iff_right rfl).symm
      · rw [Layout.written, if_neg hhalf] at hwrites
        refine (read_setMantissa_iff hwrites).trans (and_iff_left fun heq => absurd heq hhalf).symm

/-! ### A sequence of calls -/

theorem run_cons {call : Call} {calls : List Call} {fp : FP} (h : (FP.new dataType n).run (call :: calls) = .ok fp)
    (hlayout : dataType.layout = some layout) :
    ∃ m, (FP.new dataType n).call call = .ok (FP.new dataType m) ∧ (FP.new dataType m).run calls = .ok fp := by
  rw [FP.run, List.foldlM_cons] at h
  obtain ⟨mid, hcall, hrest⟩ := Fallible.bind_ok h
  obtain ⟨m, rfl, -⟩ := call_ok hlayout hcall
  exact ⟨m, hcall, hrest⟩

/-- In a run whose calls are all accepted the fields are independent exactly when all calls are clean. -/
theorem independent_iff (hlayout : dataType.layout = some layout) {start : ℤ} {calls : List Call} {last : FP}
    (hrun : (FP.new dataType start).run calls = .ok last) :
    Independent dataType layout start calls ↔ Clean dataType layout (layout.read start) calls := by
  induction calls generalizing start with
  | nil =>
      refine iff_of_true (fun before after heq fp hfp => ?_) trivial
      obtain ⟨rfl, -⟩ := List.append_eq_nil_iff.mp heq.symm
      obtain rfl := Except.ok.inj hfp
      rfl
  | cons call rest ih =>
      obtain ⟨m, hcall, hrest⟩ := run_cons hrun hlayout
      have hstep : layout.read m = (layout.read start).write call ↔ call.Clean dataType layout (layout.read start) :=
        read_call_iff hlayout hcall
      rw [Clean]
      constructor
      · intro h
        have hfirst : layout.read m = (layout.read start).write call := h [call] rest rfl (FP.new dataType m) (by
          rw [FP.run, List.foldlM_cons, hcall]
          rfl)
        refine ⟨hstep.mp hfirst, hfirst ▸ (ih hrest).mp fun before after heq fp hfp => ?_⟩
        rw [hfirst]
        refine h (call :: before) after (by rw [heq, List.cons_append]) fp ?_
        rw [FP.run, List.foldlM_cons, hcall]
        exact hfp
      · rintro ⟨hclean, hcleans⟩
        have hfirst := hstep.mpr hclean
        have hindependent := (ih hrest).mpr (hfirst ▸ hcleans)
        rintro (_ | ⟨first, before⟩) after heq fp hfp
        · obtain rfl := Except.ok.inj hfp
          rfl
        · rw [List.cons_append] at heq
          obtain ⟨rfl, hbefore⟩ := List.cons.inj heq
          obtain ⟨m', hcall', hfp⟩ := run_cons hfp hlayout
          obtain rfl : m = m' := congrArg FP.val (Except.ok.inj (hcall.symm.trans hcall'))
          rw [List.foldl_cons, ← hfirst]
          exact hindependent before after hbefore fp hfp

end Step

/-- The number one in half precision: exponent 15, then a mantissa. -/
def oneHalf : List Call := [.setExponent 15, .setMantissa 0x200]

theorem independent_iff_oneHalf : Independent .fp16 ⟨5, 10⟩ 0 oneHalf ↔ Clean .fp16 ⟨5, 10⟩ (Layout.read ⟨5, 10⟩ 0) oneHalf := by
  obtain ⟨last, hrun⟩ := Fallible.exists_ok (by decide +kernel : ((FP.new .fp16 0).run oneHalf).toOption.isSome)
  exact independent_iff rfl hrun

/-- The mantissa clears the low bit of the exponent. -/
theorem not_independent_oneHalf : ¬ ∀ (dataType : DataType) (layout : Layout), dataType.layout = some layout →
    ∀ (start : ℤ) (calls : List Call) (last : FP), (FP.new dataType start).run calls = .ok last →
      Independent dataType layout start calls := by
  intro h
  obtain ⟨last, hrun⟩ := Fallible.exists_ok (by decide +kernel : ((FP.new .fp16 0).run oneHalf).toOption.isSome)
  have hfields := h .fp16 ⟨5, 10⟩ rfl 0 oneHalf last hrun oneHalf [] (List.append_nil _).symm last hrun
  have hval : ((FP.new .fp16 0).run oneHalf).toOption.map FP.val = some 0x3a00 := by decide +kernel
  rw [hrun] at hval
  obtain hval : last.val = 0x3a00 := Option.some.inj hval
  rw [hval] at hfields
  exact absurd (congrArg Fields.exponent hfields) (by decide +kernel)

end Riescue.NumGen
