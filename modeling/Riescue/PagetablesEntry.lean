import Riescue.LibBitfields
import Riescue.Pagetables

/-! The value of a page table entry. The attributes and the address of the next table are or-ed into one
word; the fields of the word follow the privileged specification, and every field reads back what was
put into it. -/

namespace Riescue.Pagetables
open Bitfields

/-- `common.set_bitn` -/
def setBitn (original bit : ℕ) (value : Bool) : ℕ :=
  if value then original ||| 1 <<< bit else Nat.ldiff original (1 <<< bit)

/-- `common.set_bits`. Its assertion `bit_hi > bit_lo` holds at all calls here. -/
def setBits (originalValue bitHi bitLo value : ℕ) : ℕ :=
  let mask := (1 <<< (bitHi - bitLo + 1)) - 1
  Nat.ldiff originalValue (mask <<< bitLo) ||| (value &&& mask) <<< bitLo

/-- `bool(value)` of an attribute. -/
def truth : Option ℕ → Bool
  | none => false
  | some value => decide (value ≠ 0)

/-- `PTAttrs.get_value`; nothing where a field of several bits is `None`, which is a `TypeError`. -/
def PTAttrs.getValue (attrs : PTAttrs) : Option ℕ := do
  let value := 0
  let value := value ||| setBitn value 0 (truth (attrs.plain .v))
  let value := value ||| setBitn value 1 (truth (attrs.plain .r))
  let value := value ||| setBitn value 2 (truth (attrs.plain .w))
  let value := value ||| setBitn value 3 (truth (attrs.plain .x))
  let value := value ||| setBitn value 4 (truth (attrs.plain .u))
  let value := value ||| setBitn value 5 (truth (attrs.plain .g))
  let value := value ||| setBitn value 6 (truth (attrs.plain .a))
  let value := value ||| setBitn value 7 (truth (attrs.plain .d))
  let rsw ← attrs.plain .rsw
  let value := value ||| setBits value 9 8 rsw
  let reserved ← attrs.plain .reserved
  let value := value ||| setBits value 60 54 reserved
  let pbmt ← attrs.plain .pbmt
  let value := value ||| setBits value 62 61 pbmt
  let value := value ||| setBitn value 63 (truth (attrs.plain .n))
  some value

/-- `PTEntry.get_value` -/
def getValue (entry : PTEntry) : Option ℕ := do
  let attrs ← entry.ptAttr.getValue
  some ((entry.basetable.baseAddr >>> 12) <<< 10 ||| attrs)

/-- Where the privileged specification places an attribute. -/
def Attr.slot : Attr → Slot
  | .v => ⟨0, 1⟩
  | .r => ⟨1, 1⟩
  | .w => ⟨2, 1⟩
  | .x => ⟨3, 1⟩
  | .u => ⟨4, 1⟩
  | .g => ⟨5, 1⟩
  | .a => ⟨6, 1⟩
  | .d => ⟨7, 1⟩
  | .rsw => ⟨8, 2⟩
  | .reserved => ⟨54, 7⟩
  | .pbmt => ⟨61, 2⟩
  | .n => ⟨63, 1⟩

/-- The physical page number, bits 53 to 10. -/
def ppnSlot : Slot := ⟨10, 44⟩

/-- Clearing bits of a word changes nothing when the result is or-ed into the same word. -/
theorem or_ldiff (word mask : ℕ) : word ||| Nat.ldiff word mask = word := by
  apply Nat.eq_of_testBit_eq
  intro i
  rw [Nat.testBit_or, Nat.testBit_ldiff]
  cases word.testBit i <;> simp

theorem or_setBitn (word bit : ℕ) (value : Bool) :
    word ||| setBitn word bit value = word ||| (⟨bit, 1⟩ : Slot).put value.toNat := by
  unfold setBitn Slot.put
  cases value with
  | true => rw [if_pos rfl, ← Nat.or_assoc, Nat.or_self, Bool.toNat_true]
  | false => rw [if_neg (by decide), or_ldiff, Bool.toNat_false, Nat.zero_shiftLeft, Nat.or_zero]

theorem or_setBits (word bitHi bitLo value : ℕ) (hvalue : value < 2 ^ (bitHi - bitLo + 1)) :
    word ||| setBits word bitHi bitLo value = word ||| (⟨bitLo, bitHi - bitLo + 1⟩ : Slot).put value := by
  unfold setBits Slot.put
  dsimp only
  rw [← Nat.or_assoc, or_ldiff, Nat.one_shiftLeft, Nat.and_two_pow_sub_one_eq_mod, Nat.mod_eq_of_lt hvalue]

/-- The attributes hold the given values, each within its field. -/
structure Holds (attrs : PTAttrs) (value : Attr → ℕ) : Prop where
  plain : ∀ attr, attrs.plain attr = some (value attr)
  fits : ∀ attr, value attr < 2 ^ attr.slot.width

theorem Holds.truth_toNat {attrs : PTAttrs} {value : Attr → ℕ} (h : Holds attrs value) (attr : Attr)
    (hbit : attr.slot.width = 1) : (truth (attrs.plain attr)).toNat = value attr := by
  have hfits := h.fits attr
  rw [hbit] at hfits
  rw [h.plain, truth]
  have hcases : value attr = 0 ∨ value attr = 1 := by omega
  rcases hcases with hvalue | hvalue <;> rw [hvalue] <;> rfl

/-- The order in which `get_value` sets the fields. -/
def valueOrder : List Attr := [.v, .r, .w, .x, .u, .g, .a, .d, .rsw, .reserved, .pbmt, .n]

theorem mem_valueOrder (attr : Attr) : attr ∈ valueOrder := by
  cases attr <;> decide

/-- The helpers see the word built so far, but what they return or-s one field into it. -/
theorem PTAttrs.getValue_eq {attrs : PTAttrs} {value : Attr → ℕ} (h : Holds attrs value) :
    attrs.getValue = some (pack (valueOrder.map fun attr => (attr.slot, value attr))) := by
  have hrsw := h.fits .rsw
  have hreserved := h.fits .reserved
  have hpbmt := h.fits .pbmt
  simp only [Attr.slot] at hrsw hreserved hpbmt
  rw [PTAttrs.getValue, h.plain .rsw, h.plain .reserved, h.plain .pbmt]
  simp only [or_setBitn, Option.bind_eq_bind, Option.bind_some, or_setBits _ 9 8 _ hrsw,
    or_setBits _ 60 54 _ hreserved, or_setBits _ 62 61 _ hpbmt, h.truth_toNat .v rfl, h.truth_toNat .r rfl,
    h.truth_toNat .w rfl, h.truth_toNat .x rfl, h.truth_toNat .u rfl, h.truth_toNat .g rfl,
    h.truth_toNat .a rfl, h.truth_toNat .d rfl, h.truth_toNat .n rfl]
  rfl

/-- An entry reads back as the page number of its table, hence its address, and its attributes. -/
structure Decodes (word baseAddr : ℕ) (value : Attr → ℕ) : Prop where
  ppn : ppnSlot.get word = baseAddr >>> 12
  address : ppnSlot.get word <<< 12 = baseAddr
  attr : ∀ attr : Attr, attr.slot.get word = value attr

/-- `PTEntry.get_value` for every aligned table address of 56 bits and all attributes within their
fields. -/
theorem getValue_decodes {entry : PTEntry} {value : Attr → ℕ} (haligned : 0x1000 ∣ entry.basetable.baseAddr)
    (hbase : entry.basetable.baseAddr < 2 ^ 56) (hattrs : Holds entry.ptAttr value) :
    ∃ word, getValue entry = some word ∧ Decodes word entry.basetable.baseAddr value := by
  let fields : List (Slot × ℕ) := (ppnSlot, entry.basetable.baseAddr >>> 12) ::
    valueOrder.map fun attr => (attr.slot, value attr)
  have hfits : Fits fields := by
    constructor
    · have hslots : fields.map Prod.fst = ppnSlot :: valueOrder.map Attr.slot := by simp [fields]
      rw [hslots]
      decide
    · intro field hfield
      rcases List.mem_cons.mp hfield with rfl | hfield
      · simp only [ppnSlot, Nat.shiftRight_eq_div_pow]
        omega
      · obtain ⟨attr, -, rfl⟩ := List.mem_map.mp hfield
        exact hattrs.fits attr
  have hppnMem : (ppnSlot, entry.basetable.baseAddr >>> 12) ∈ fields := List.mem_cons_self
  have hppn := hfits.get_pack hppnMem
  refine ⟨pack fields, ?_, hppn, ?_, ?_⟩
  · rw [getValue, PTAttrs.getValue_eq hattrs, pack_cons]
    rfl
  · rw [hppn, Nat.shiftLeft_eq, Nat.shiftRight_eq_div_pow]
    exact Nat.div_mul_cancel haligned
  · intro attr
    have hattr : (attr.slot, value attr) ∈ fields :=
      List.mem_cons_of_mem _ (List.mem_map_of_mem (mem_valueOrder attr))
    exact hfits.get_pack hattr

/-- A leaf near the top of the address space with every field in use. -/
theorem getValue_decodes_full :
    ∃ word,
      getValue ⟨PTTable.fresh 0xFFFFFFFFFFF000 true,
        ⟨true, fun attr => some (2 ^ attr.slot.width - 1), fun _ _ => 0, 0, 0⟩, 0, true⟩ = some word ∧
      Decodes word 0xFFFFFFFFFFF000 fun attr => 2 ^ attr.slot.width - 1 :=
  getValue_decodes (by decide) (by decide)
    ⟨fun _ => rfl, fun attr => Nat.sub_lt (Nat.two_pow_pos _) Nat.one_pos⟩

end Riescue.Pagetables
