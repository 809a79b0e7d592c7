import Mathlib.Data.Rat.Floor
import Riescue.LibDigits
import Riescue.LibExcept

/-! The offsets of an indexed vector load or store, `VecIndexedComponent` of `lib/instr_setup/vector/components.py`: the
elements of a register group are joined to one string of hexadecimal digits, which is cut into indices from its end. The
loop stops in front of the topmost index. -/

namespace Riescue.VecIndexed
open Digits

inductive IndexFault where
  | indexError
  | assertionError
  | valueError
  deriving DecidableEq, Repr

/-- `get_values_from_reg_group` on the values of the register. -/
def getValuesFromRegGroup (values : List (List Char)) (vsew : ℕ) : Except IndexFault (List Char) :=
  let bitsPerByte := 8
  let charsPerByte := 2
  match values with
  | [] => .error .indexError
  | first :: _ =>
      if first.take 2 ≠ ['0', 'x'] then .error .assertionError
      else
        .ok (values.flatMap fun value =>
          List.replicate (vsew / bitsPerByte * charsPerByte - (value.drop 2).length) '0' ++ value.drop 2)

/-- The value of a hexadecimal digit. -/
def hexDigit (char : Char) : Option ℕ :=
  if '0' ≤ char ∧ char ≤ '9' then some (char.toNat - '0'.toNat)
  else if 'a' ≤ char ∧ char ≤ 'f' then some (char.toNat - 'a'.toNat + 10)
  else if 'A' ≤ char ∧ char ≤ 'F' then some (char.toNat - 'A'.toNat + 10)
  else none

/-- `int(string, 16)` of a string of digits. -/
def parseHex (chars : List Char) : Except IndexFault ℕ :=
  match chars, chars.mapM hexDigit with
  | _ :: _, some digits => .ok (value 16 digits)
  | _, _ => .error .valueError

/-- The loop of `slice_hex_string`. The fuel is the number of bits of the group, more than the turns of the loop. -/
def sliceLoop (indexBitWidth groupBits : ℕ) (hexString : List Char) :
    ℕ → ℕ → ℕ → List ℕ → Except IndexFault (List ℕ)
  | 0, _, _, offsets => .ok offsets
  | fuel + 1, lsb, msb, offsets =>
      let bitsPerByte := 8
      let charsPerByte := 2
      let numHexCharsWholeGroup := groupBits / bitsPerByte * charsPerByte
      if msb ≤ groupBits ∧ msb < hexString.length * 4 then do
        let msbBytes := msb / bitsPerByte
        let lsbBytes := lsb / bitsPerByte
        let leftSliceIndex := numHexCharsWholeGroup - msbBytes * charsPerByte
        let rightSliceIndex := numHexCharsWholeGroup - lsbBytes * charsPerByte
        let offset ← parseHex ((hexString.take rightSliceIndex).drop leftSliceIndex)
        sliceLoop indexBitWidth groupBits hexString fuel (lsb + indexBitWidth) (msb + indexBitWidth) (offset :: offsets)
      else .ok offsets

/-- `slice_hex_string` -/
def sliceHexString (indexBitWidth : ℕ) (vlmul : ℚ) (vlen : ℕ) (hexString : List Char) : Except IndexFault (List ℕ) :=
  let groupBits := ⌊vlmul * vlen⌋.toNat
  sliceLoop indexBitWidth groupBits hexString groupBits 0 indexBitWidth []

/-- `extract_offsets` for an index bit width. -/
def extractOffsets (indexBitWidth : ℕ) (values : List (List Char)) (vlmul : ℚ) (vlen vsew : ℕ) :
    Except IndexFault (List ℕ) := do
  let valueString ← getValuesFromRegGroup values vsew
  sliceHexString indexBitWidth vlmul vlen valueString

/-! ### The contents of a group -/

/-- A hexadecimal element value of at most `vsew` bits. -/
structure IsElement (vsew : ℕ) (value : List Char) : Prop where
  hexPrefix : value.take 2 = ['0', 'x']
  digits : ∃ digits, (value.drop 2).mapM hexDigit = some digits
  fits : (value.drop 2).length ≤ vsew / 8 * 2

/-- The number of an element value, zero for what is no number. -/
def elementValue (element : List Char) : ℕ := (((element.drop 2).mapM hexDigit).map (value 16)).getD 0

/-- The bits of the group: the elements one after the other, the first one on top. -/
def groupValue (vsew : ℕ) (values : List (List Char)) : ℕ := value (2 ^ vsew) (values.map elementValue)

theorem hexDigit_lt {char : Char} {digit : ℕ} (h : hexDigit char = some digit) : digit < 16 := by
  unfold hexDigit at h
  split_ifs at h with hdecimal hlower hupper
  · obtain rfl := Option.some.inj h
    have hle : char.toNat ≤ '9'.toNat := hdecimal.2
    have hnine : '9'.toNat = 57 := rfl
    have hzero : '0'.toNat = 48 := rfl
    omega
  · obtain rfl := Option.some.inj h
    have hle : char.toNat ≤ 'f'.toNat := hlower.2
    have hf : 'f'.toNat = 102 := rfl
    have ha : 'a'.toNat = 97 := rfl
    omega
  · obtain rfl := Option.some.inj h
    have hle : char.toNat ≤ 'F'.toNat := hupper.2
    have hf : 'F'.toNat = 70 := rfl
    have ha : 'A'.toNat = 65 := rfl
    omega

/-- The characters are these hexadecimal digits. -/
def Reads (chars : List Char) (digits : List ℕ) : Prop :=
  List.Forall₂ (fun char digit => hexDigit char = some digit) chars digits

theorem reads_iff {chars : List Char} {digits : List ℕ} : chars.mapM hexDigit = some digits ↔ Reads chars digits := by
  induction chars generalizing digits with
  | nil =>
      rw [List.mapM_nil]
      constructor
      · intro h
        obtain rfl := Option.some.inj h
        exact .nil
      · rintro ⟨⟩
        rfl
  | cons char rest ih =>
      rw [List.mapM_cons]
      constructor
      · intro h
        obtain ⟨digit, hdigit, h⟩ := Option.bind_eq_some_iff.mp h
        obtain ⟨digits', hdigits, h⟩ := Option.bind_eq_some_iff.mp h
        obtain rfl := Option.some.inj h
        exact .cons hdigit (ih.mp hdigits)
      · rintro (_ | ⟨hdigit, hrest⟩)
        rw [hdigit, ih.mpr hrest]
        rfl

theorem Reads.digits_lt {chars : List Char} {digits : List ℕ} (h : Reads chars digits) : ∀ digit ∈ digits, digit < 16 := by
  induction h with
  | nil => exact fun _ h => (nomatch h)
  | cons hdigit _ ih => exact List.forall_mem_cons.mpr ⟨hexDigit_lt hdigit, ih⟩

theorem Reads.append {front back : List Char} {digits digits' : List ℕ} (h : Reads front digits) (h' : Reads back digits') :
    Reads (front ++ back) (digits ++ digits') := List.rel_append h h'

theorem reads_zeros (count : ℕ) : Reads (List.replicate count '0') (List.replicate count 0) := by
  induction count with
  | zero => exact .nil
  | succ count ih => exact .cons rfl ih

theorem parseHex_reads {chars : List Char} {digits : List ℕ} (h : Reads chars digits) (hne : chars ≠ []) :
    parseHex chars = .ok (value 16 digits) := by
  obtain ⟨first, rest, rfl⟩ := List.exists_cons_of_ne_nil hne
  unfold parseHex
  rw [reads_iff.mpr h]

/-- The padded digits of one element. -/
theorem IsElement.reads {vsew : ℕ} {element : List Char} (h : IsElement vsew element) :
    ∃ digits, Reads (List.replicate (vsew / 8 * 2 - (element.drop 2).length) '0' ++ element.drop 2) digits ∧
      digits.length = vsew / 8 * 2 ∧ value 16 digits = elementValue element := by
  obtain ⟨digits, hdigits⟩ := h.digits
  have hreads := reads_iff.mp hdigits
  refine ⟨_, (reads_zeros _).append hreads, ?_, ?_⟩
  · rw [List.length_append, List.length_replicate, ← List.Forall₂.length_eq hreads]
    exact Nat.sub_add_cancel h.fits
  · rw [value_pad, elementValue, hdigits]
    rfl

/-- The string of the group stands for the bits of the group. -/
theorem reads_group {bytes : ℕ} {values : List (List Char)} (helements : ∀ element ∈ values, IsElement (8 * bytes) element) :
    ∃ digits, Reads (values.flatMap fun element =>
        List.replicate (8 * bytes / 8 * 2 - (element.drop 2).length) '0' ++ element.drop 2) digits ∧
      digits.length = values.length * (bytes * 2) ∧ value 16 digits = groupValue (8 * bytes) values := by
  have hbytes : 8 * bytes / 8 = bytes := by omega
  have hpow : 16 ^ (bytes * 2) = 2 ^ (8 * bytes) := by
    rw [show 16 = 2 ^ 4 from rfl, ← Nat.pow_mul]
    congr 1
    omega
  induction values with
  | nil => exact ⟨[], .nil, by simp, rfl⟩
  | cons element rest ih =>
      obtain ⟨helement, hrest⟩ := List.forall_mem_cons.mp helements
      obtain ⟨digits, hdigits, hlength, hvalue⟩ := helement.reads
      obtain ⟨digits', hdigits', hlength', hvalue'⟩ := ih hrest
      rw [hbytes] at hlength
      refine ⟨digits ++ digits', hdigits.append hdigits', ?_, ?_⟩
      · rw [List.length_append, hlength, hlength', List.length_cons]
        ring
      · rw [value_append, hvalue, hvalue', hlength', groupValue, groupValue, List.map_cons, value_cons, List.length_map,
          Nat.mul_comm rest.length, Nat.pow_mul, hpow]

/-! ### The loop -/

/-- One index of the string. -/
theorem parseHex_slice {chars : List Char} {digits : List ℕ} (h : Reads chars digits) {bytes turns k : ℕ}
    (hbytes : 0 < bytes) (hlength : chars.length = turns * (bytes * 2)) (hk : k < turns) :
    parseHex ((chars.take (turns * (bytes * 2) - k * (bytes * 2))).drop (turns * (bytes * 2) - (k + 1) * (bytes * 2))) =
      .ok (value 16 digits / (2 ^ (8 * bytes)) ^ k % 2 ^ (8 * bytes)) := by
  have hdigitsLength : digits.length = turns * (bytes * 2) := (List.Forall₂.length_eq h).symm.trans hlength
  have hle : (k + 1) * (bytes * 2) ≤ turns * (bytes * 2) := Nat.mul_le_mul_right _ hk
  have hsucc : (k + 1) * (bytes * 2) = k * (bytes * 2) + bytes * 2 := Nat.succ_mul _ _
  generalize hright : turns * (bytes * 2) - k * (bytes * 2) = right
  generalize hleft : turns * (bytes * 2) - (k + 1) * (bytes * 2) = left
  have hmiddle : ((digits.take right).drop left).length = bytes * 2 := by
    rw [List.length_drop, List.length_take, hdigitsLength]
    omega
  have hback : (digits.drop right).length = k * (bytes * 2) := by
    rw [List.length_drop, hdigitsLength]
    omega
  have hsplit : (digits.take right).take left ++ (digits.take right).drop left ++ digits.drop right = digits := by
    rw [List.take_append_drop, List.take_append_drop]
  have hslice : Reads ((chars.take right).drop left) ((digits.take right).drop left) :=
    List.forall₂_drop left (List.forall₂_take right h)
  have hne : (chars.take right).drop left ≠ [] := by
    intro hnil
    have hzero := List.Forall₂.length_eq hslice
    rw [hnil, hmiddle, List.length_nil] at hzero
    omega
  have hdigitsLt : ∀ digit ∈ (digits.take right).take left ++ (digits.take right).drop left ++ digits.drop right,
      digit < 16 := by
    rw [hsplit]
    exact h.digits_lt
  have hvalue := value_slice (by omega) hdigitsLt
  rw [hsplit, hmiddle, hback, Nat.mul_comm k, Nat.pow_mul, show 16 ^ (bytes * 2) = 2 ^ (8 * bytes) by
    rw [show 16 = 2 ^ 4 from rfl, ← Nat.pow_mul]; congr 1; omega] at hvalue
  rw [parseHex_reads hslice hne, hvalue]

/-- The loop leaves the topmost index out. -/
theorem sliceLoop_eq {chars : List Char} {digits : List ℕ} (h : Reads chars digits) {bytes turns : ℕ}
    (hbytes : 0 < bytes) (hlength : chars.length = turns * (bytes * 2)) {fuel k : ℕ} (hk : k < turns)
    (hfuel : turns ≤ fuel + k) :
    sliceLoop (8 * bytes) (turns * (8 * bytes)) chars fuel (k * (8 * bytes)) ((k + 1) * (8 * bytes))
        (lowest (2 ^ (8 * bytes)) k (value 16 digits)) =
      .ok (lowest (2 ^ (8 * bytes)) (turns - 1) (value 16 digits)) := by
  induction fuel generalizing k with
  | zero => omega
  | succ fuel ih =>
      have hbits : chars.length * 4 = turns * (8 * bytes) := by rw [hlength]; ring
      have hchars : ∀ count, count * (8 * bytes) / 8 * 2 = count * (bytes * 2) := by
        intro count
        rw [show count * (8 * bytes) = 8 * (count * bytes) by ring, Nat.mul_div_cancel_left _ (by omega)]
        ring
      rw [sliceLoop]
      dsimp only
      by_cases hlast : k + 1 = turns
      · -- the end of the topmost index is the length of the string
        rw [if_neg, ← hlast, Nat.add_sub_cancel]
        rw [hbits, hlast]
        exact fun h => lt_irrefl _ h.2
      · have hlt : (k + 1) * (8 * bytes) < turns * (8 * bytes) := Nat.mul_lt_mul_of_pos_right (by omega) (by omega)
        rw [if_pos ⟨hlt.le, hbits ▸ hlt⟩, hchars, hchars, hchars, parseHex_slice h hbytes hlength hk]
        have hnext := ih (k := k + 1) (by omega) (by omega)
        rw [lowest, Nat.succ_mul k, Nat.succ_mul (k + 1)] at hnext
        exact hnext

/-! ### What is extracted -/

/-- A register group as the callers pass it: whole elements that fill `lmul` registers of `vlen` bits, and one of the
index widths. -/
structure IsGroup (indexBitWidth lmul vlen vsew : ℕ) (values : List (List Char)) : Prop where
  isWidth : indexBitWidth ∈ [8, 16, 32, 64]
  isVlen : ∃ k, 6 ≤ k ∧ vlen = 2 ^ k
  isLmul : 1 ≤ lmul
  isVsew : 8 ∣ vsew
  elements : ∀ element ∈ values, IsElement vsew element
  fills : values.length * vsew = lmul * vlen

/-- The indices of the group: the digits of its bits to the base `2 ^ indexBitWidth`, most significant first. -/
def indices (indexBitWidth lmul vlen vsew : ℕ) (values : List (List Char)) : List ℕ :=
  lowest (2 ^ indexBitWidth) (lmul * vlen / indexBitWidth) (groupValue vsew values)

/-- All indices but the topmost one are extracted. -/
theorem extractOffsets_eq {indexBitWidth lmul vlen vsew : ℕ} {values : List (List Char)}
    (h : IsGroup indexBitWidth lmul vlen vsew values) :
    extractOffsets indexBitWidth values lmul vlen vsew =
      .ok (lowest (2 ^ indexBitWidth) (lmul * vlen / indexBitWidth - 1) (groupValue vsew values)) := by
  obtain ⟨exponent, hexponent, hvlen⟩ := h.isVlen
  obtain ⟨elementBytes, rfl⟩ := h.isVsew
  -- every index width divides the bits of a register
  obtain ⟨bytes, hbytes, hwidth, count, hcount⟩ : ∃ bytes, 0 < bytes ∧ indexBitWidth = 8 * bytes ∧
      ∃ count, 64 = count * (8 * bytes) := by
    have hmem := h.isWidth
    simp only [List.mem_cons, List.not_mem_nil, or_false] at hmem
    rcases hmem with rfl | rfl | rfl | rfl
    · exact ⟨1, by omega, rfl, 8, rfl⟩
    · exact ⟨2, by omega, rfl, 4, rfl⟩
    · exact ⟨4, by omega, rfl, 2, rfl⟩
    · exact ⟨8, by omega, rfl, 1, rfl⟩
  obtain ⟨rest, rfl⟩ := Nat.exists_eq_add_of_le hexponent
  obtain ⟨turns, hturns⟩ : ∃ turns, turns = lmul * (2 ^ rest * count) := ⟨_, rfl⟩
  have hbits : lmul * vlen = turns * (8 * bytes) := by
    rw [hvlen, Nat.pow_add, show 2 ^ 6 = 64 from rfl, hcount, hturns]
    ring
  have hbitsPos : 0 < lmul * vlen := Nat.mul_pos h.isLmul (hvlen ▸ Nat.two_pow_pos _)
  have hturnsPos : 0 < turns := Nat.pos_of_mul_pos_right (hbits ▸ hbitsPos)
  obtain ⟨digits, hdigits, hdigitsLength, hvalue⟩ := reads_group h.elements
  have hchars := (List.Forall₂.length_eq hdigits).trans hdigitsLength
  have hlength : values.length * (elementBytes * 2) = turns * (bytes * 2) := by
    have hfills := h.fills.trans hbits
    have hleft : values.length * (8 * elementBytes) = 4 * (values.length * (elementBytes * 2)) := by ring
    have hright : turns * (8 * bytes) = 4 * (turns * (bytes * 2)) := by ring
    omega
  have hstring : getValuesFromRegGroup values (8 * elementBytes) = .ok (values.flatMap fun element =>
      List.replicate (8 * elementBytes / 8 * 2 - (element.drop 2).length) '0' ++ element.drop 2) := by
    cases hvalues : values with
    | nil =>
        have hfills := h.fills
        rw [hvalues, List.length_nil, Nat.zero_mul] at hfills
        omega
    | cons first others =>
        have hfirst := (h.elements first (hvalues ▸ List.mem_cons_self)).hexPrefix
        rw [getValuesFromRegGroup, if_neg (not_not.mpr hfirst)]
  have hgroup : ⌊(lmul : ℚ) * (vlen : ℚ)⌋.toNat = turns * (8 * bytes) := by
    rw [← Nat.cast_mul, Int.floor_natCast, Int.toNat_natCast, hbits]
  have hcountTurns : lmul * vlen / indexBitWidth = turns := by
    rw [hbits, hwidth, Nat.mul_div_cancel _ (by omega)]
  have hfuel : turns ≤ turns * (8 * bytes) + 0 := Nat.le_mul_of_pos_right _ (by omega)
  have hloop := sliceLoop_eq hdigits hbytes (hchars.trans hlength) hturnsPos hfuel
  rw [Nat.zero_mul, Nat.zero_add, Nat.one_mul, hvalue] at hloop
  rw [extractOffsets, hstring]
  change sliceHexString _ _ _ _ = _
  rw [sliceHexString, hgroup, hcountTurns, hwidth]
  exact hloop

/-- The topmost index is missing for every group. -/
theorem extractOffsets_incomplete {indexBitWidth lmul vlen vsew : ℕ} {values : List (List Char)}
    (h : IsGroup indexBitWidth lmul vlen vsew values) :
    extractOffsets indexBitWidth values lmul vlen vsew =
        .ok (lowest (2 ^ indexBitWidth) (lmul * vlen / indexBitWidth - 1) (groupValue vsew values)) ∧
      extractOffsets indexBitWidth values lmul vlen vsew ≠ .ok (indices indexBitWidth lmul vlen vsew values) := by
  have heq := extractOffsets_eq h
  refine ⟨heq, fun hall => ?_⟩
  have hlengths := congrArg List.length (Except.ok.inj (heq.symm.trans hall))
  rw [indices, length_lowest, length_lowest] at hlengths
  obtain ⟨exponent, hexponent, hvlen⟩ := h.isVlen
  have hle : indexBitWidth ≤ lmul * vlen := by
    have hwidth : indexBitWidth ≤ 2 ^ 6 := by
      have hmem := h.isWidth
      simp only [List.mem_cons, List.not_mem_nil, or_false] at hmem
      omega
    calc indexBitWidth ≤ 2 ^ 6 := hwidth
      _ ≤ 2 ^ exponent := Nat.pow_le_pow_right (by omega) hexponent
      _ = vlen := hvlen.symm
      _ ≤ lmul * vlen := Nat.le_mul_of_pos_left _ h.isLmul
  have hpos : 0 < lmul * vlen / indexBitWidth := by
    refine Nat.div_pos hle ?_
    have hmem := h.isWidth
    simp only [List.mem_cons, List.not_mem_nil, or_false] at hmem
    omega
  omega

/-- The indices give the bits of the group back. -/
theorem value_indices {indexBitWidth lmul vlen vsew : ℕ} {values : List (List Char)} :
    value (2 ^ indexBitWidth) (indices indexBitWidth lmul vlen vsew values) =
      groupValue vsew values % (2 ^ indexBitWidth) ^ (lmul * vlen / indexBitWidth) :=
  value_lowest _ _

/-- One register of 64 bits with 32-bit elements. -/
def oneRegister : List (List Char) := ["0x11223344".toList, "0x5566".toList]

theorem isGroup_oneRegister : IsGroup 16 1 64 32 oneRegister where
  isWidth := by decide
  isVlen := ⟨6, le_rfl, rfl⟩
  isLmul := le_rfl
  isVsew := by decide
  elements := by
    refine List.forall_mem_cons.mpr ⟨⟨by decide, ⟨[1, 1, 2, 2, 3, 3, 4, 4], by decide⟩, by decide⟩,
      List.forall_mem_singleton.mpr ⟨by decide, ⟨[5, 5, 6, 6], by decide⟩, by decide⟩⟩
  fills := by decide

/-- Three of the four 16-bit indices are extracted. -/
theorem extractOffsets_incomplete_oneRegister :
    extractOffsets 16 oneRegister 1 64 32 = .ok [0x3344, 0, 0x5566] ∧
      extractOffsets 16 oneRegister 1 64 32 ≠ .ok (indices 16 1 64 32 oneRegister) := by
  have h := extractOffsets_incomplete isGroup_oneRegister
  refine ⟨?_, by simpa using h.2⟩
  have heq := h.1
  rw [Nat.cast_one] at heq
  rw [heq]
  decide +kernel

/-- The extraction of every group fails. -/
theorem not_extractOffsets_complete :
    ¬ ∀ (indexBitWidth lmul vlen vsew : ℕ) (values : List (List Char)), IsGroup indexBitWidth lmul vlen vsew values →
      extractOffsets indexBitWidth values lmul vlen vsew = .ok (indices indexBitWidth lmul vlen vsew values) := by
  intro h
  have hall := h 16 1 64 32 oneRegister isGroup_oneRegister
  rw [extractOffsets_eq isGroup_oneRegister] at hall
  have hlengths := congrArg List.length (Except.ok.inj hall)
  rw [indices, length_lowest, length_lowest] at hlengths
  omega

end Riescue.VecIndexed
