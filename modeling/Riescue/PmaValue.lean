import Mathlib.Data.Nat.Size
import Riescue.LibBitfields
import Riescue.Pma

/-! The value of a `pmacfg` register, `PmaInfo.generate_pma_value`. The fields are the documented ones, but they are set
when `pma_valid` is false, and the word is zero when it is true. -/

namespace Riescue.Pma
open Bitfields

/-- `common.msb` -/
def msb (value : ℕ) : ℤ := (Nat.size value : ℤ) - 1

def memoryTypeMap : MemoryType → ℕ
  | .memory => 0
  | .io => 1
  | .ch0 => 2
  | .ch1 => 3

def amoTypeMap : AmoType → ℕ
  | .none => 0
  | .logical => 1
  | .swap => 2
  | .arithmetic => 3

def cacheabilityMap : Cacheability → ℕ
  | .cacheable => 1
  | .noncacheable => 0

def combiningMap : Combining → ℕ
  | .combining => 1
  | .noncombining => 0

def routingToMap : RoutingTo → ℕ
  | .coherent => 1
  | .noncoherent => 0

/-- `generate_pma_value`; addresses and sizes are not negative. -/
def PmaInfo.generatePmaValue (pmaValid : Bool) (info : PmaInfo) : ℕ :=
  let pmaValue := 0
  if !pmaValid then
    let pmaValue := pmaValue ||| info.pmaRead.toNat <<< 0
    let pmaValue := pmaValue ||| info.pmaWrite.toNat <<< 1
    let pmaValue := if info.pmaExecute then pmaValue ||| info.pmaExecute.toNat <<< 2 else pmaValue
    let pmaValue := pmaValue ||| memoryTypeMap info.pmaMemoryType <<< 3
    let pmaValue := pmaValue ||| amoTypeMap info.pmaAmoType <<< 5
    let pmaValue :=
      if info.pmaMemoryType = .memory then pmaValue ||| cacheabilityMap info.pmaCacheability <<< 7
      else pmaValue ||| combiningMap info.pmaCombining <<< 7
    let pmaValue := pmaValue ||| routingToMap info.pmaRoutingTo <<< 8
    let pmaValue := pmaValue ||| (info.pmaAddress.toNat >>> 12) <<< 12
    pmaValue ||| (msb info.pmaSize.toNat + 1).toNat <<< 58
  else pmaValue

/-! ### The documented layout -/

def readSlot : Slot := ⟨0, 1⟩
def writeSlot : Slot := ⟨1, 1⟩
def executeSlot : Slot := ⟨2, 1⟩
def memoryTypeSlot : Slot := ⟨3, 2⟩
def amoTypeSlot : Slot := ⟨5, 2⟩
def cachedSlot : Slot := ⟨7, 1⟩
def routingToSlot : Slot := ⟨8, 1⟩
def addressSlot : Slot := ⟨12, 40⟩
def sizeSlot : Slot := ⟨58, 6⟩

/-- What the word says about a region. Bit 7 is the cacheability of memory and the combining of everything else. -/
structure PmaFields where
  read : Bool
  write : Bool
  execute : Bool
  memoryType : MemoryType
  amoType : AmoType
  cachedOrCombining : Bool
  routingTo : RoutingTo
  address : ℕ
  size : ℕ
  deriving DecidableEq, Repr

def PmaInfo.fields (info : PmaInfo) : PmaFields where
  read := info.pmaRead
  write := info.pmaWrite
  execute := info.pmaExecute
  memoryType := info.pmaMemoryType
  amoType := info.pmaAmoType
  cachedOrCombining :=
    if info.pmaMemoryType = .memory then decide (info.pmaCacheability = .cacheable)
    else decide (info.pmaCombining = .combining)
  routingTo := info.pmaRoutingTo
  address := info.pmaAddress.toNat
  size := info.pmaSize.toNat

def decodeMemoryType : ℕ → MemoryType
  | 0 => .memory
  | 1 => .io
  | 2 => .ch0
  | _ => .ch1

def decodeAmoType : ℕ → AmoType
  | 0 => .none
  | 1 => .logical
  | 2 => .swap
  | _ => .arithmetic

/-- The word read by its layout: nothing for a size field of zero, which makes the region invalid, and otherwise the size
field counts the bits of the size. -/
def decodePmaValue (word : ℕ) : Option PmaFields :=
  if sizeSlot.get word = 0 then none
  else some
    { read := decide (readSlot.get word = 1)
      write := decide (writeSlot.get word = 1)
      execute := decide (executeSlot.get word = 1)
      memoryType := decodeMemoryType (memoryTypeSlot.get word)
      amoType := decodeAmoType (amoTypeSlot.get word)
      cachedOrCombining := decide (cachedSlot.get word = 1)
      routingTo := if routingToSlot.get word = 1 then .coherent else .noncoherent
      address := addressSlot.get word <<< 12
      size := 2 ^ (sizeSlot.get word - 1) }

/-- The value of bit 7. -/
def PmaInfo.cachedValue (info : PmaInfo) : ℕ :=
  if info.pmaMemoryType = .memory then cacheabilityMap info.pmaCacheability else combiningMap info.pmaCombining

/-- The fields in the order in which they are set. -/
def PmaInfo.valueFields (info : PmaInfo) : List (Slot × ℕ) :=
  [(readSlot, info.pmaRead.toNat), (writeSlot, info.pmaWrite.toNat), (executeSlot, info.pmaExecute.toNat),
    (memoryTypeSlot, memoryTypeMap info.pmaMemoryType), (amoTypeSlot, amoTypeMap info.pmaAmoType),
    (cachedSlot, info.cachedValue), (routingToSlot, routingToMap info.pmaRoutingTo),
    (addressSlot, info.pmaAddress.toNat >>> 12), (sizeSlot, Nat.size info.pmaSize.toNat)]

theorem msb_add_one (value : ℕ) : (msb value + 1).toNat = Nat.size value := by
  unfold msb
  omega

/-- Without `pma_valid` the word is made of the fields. -/
theorem generatePmaValue_invalid (info : PmaInfo) : info.generatePmaValue false = pack info.valueFields := by
  have hexecute : ∀ word : ℕ, (if info.pmaExecute = true then word ||| info.pmaExecute.toNat <<< 2 else word) =
      word ||| info.pmaExecute.toNat <<< 2 := by
    intro word
    cases info.pmaExecute with
    | true => rfl
    | false => exact (Nat.or_zero word).symm
  have hcached : ∀ word : ℕ, (if info.pmaMemoryType = .memory then word ||| cacheabilityMap info.pmaCacheability <<< 7
      else word ||| combiningMap info.pmaCombining <<< 7) = word ||| info.cachedValue <<< 7 := by
    intro word
    unfold PmaInfo.cachedValue
    split_ifs <;> rfl
  unfold PmaInfo.generatePmaValue
  rw [if_pos (by rfl)]
  dsimp only
  rw [hexecute, hcached, msb_add_one]
  rfl

theorem memoryTypeMap_lt (type : MemoryType) : memoryTypeMap type < 2 ^ 2 := by cases type <;> decide

theorem amoTypeMap_lt (type : AmoType) : amoTypeMap type < 2 ^ 2 := by cases type <;> decide

theorem routingToMap_lt (routing : RoutingTo) : routingToMap routing < 2 ^ 1 := by cases routing <;> decide

theorem toNat_lt (flag : Bool) : flag.toNat < 2 ^ 1 := Bool.toNat_lt flag

theorem cachedValue_lt (info : PmaInfo) : info.cachedValue < 2 ^ 1 := by
  unfold PmaInfo.cachedValue
  split_ifs
  · cases info.pmaCacheability <;> decide
  · cases info.pmaCombining <;> decide

/-- The fields below the address. -/
def PmaInfo.lowFields (info : PmaInfo) : List (Slot × ℕ) := info.valueFields.take 7

theorem lowFields_fit (info : PmaInfo) : ∀ field ∈ info.lowFields, field.2 < 2 ^ field.1.width := by
  simp only [PmaInfo.lowFields, PmaInfo.valueFields, List.take, List.forall_mem_cons, List.not_mem_nil, false_imp_iff,
    implies_true, and_true]
  exact ⟨toNat_lt _, toNat_lt _, toNat_lt _, memoryTypeMap_lt _, amoTypeMap_lt _, cachedValue_lt info,
    routingToMap_lt _⟩

theorem valueFields_eq (info : PmaInfo) : info.valueFields = info.lowFields ++
    [(addressSlot, info.pmaAddress.toNat >>> 12), (sizeSlot, Nat.size info.pmaSize.toNat)] := rfl

theorem valueFields_fits {info : PmaInfo} (haddress : info.pmaAddress.toNat < 2 ^ 52)
    (hsize : Nat.size info.pmaSize.toNat < 2 ^ 6) : Fits info.valueFields where
  apart := by
    change [readSlot, writeSlot, executeSlot, memoryTypeSlot, amoTypeSlot, cachedSlot, routingToSlot, addressSlot,
      sizeSlot].Pairwise Slot.Apart
    decide
  fits := by
    have haddress' : info.pmaAddress.toNat >>> 12 < 2 ^ 40 := by
      rw [Nat.shiftRight_eq_div_pow]
      omega
    rw [valueFields_eq, List.forall_mem_append]
    exact ⟨lowFields_fit info, List.forall_mem_cons.mpr ⟨haddress', List.forall_mem_singleton.mpr hsize⟩⟩

/-- The address bits from 58 on reach into the size field. -/
theorem sizeSlot_put_address (address : ℕ) : sizeSlot.get (addressSlot.put (address >>> 12)) = address >>> 58 % 2 ^ 6 := by
  apply Nat.eq_of_testBit_eq
  intro i
  have hbit : 12 + (58 + i - 12) = 58 + i := by omega
  have hle : 12 ≤ 58 + i := by omega
  rw [Slot.testBit_get, Slot.testBit_put, Nat.testBit_shiftRight, Nat.testBit_mod_two_pow, Nat.testBit_shiftRight]
  simp only [sizeSlot, addressSlot, hbit, hle, decide_true, Bool.true_and]
  rfl

theorem sizeSlot_put_size (value : ℕ) : sizeSlot.get (sizeSlot.put value) = value % 2 ^ 6 := by
  rw [Slot.get, Slot.put, Nat.shiftLeft_shiftRight]
  rfl

/-- The size field of the word. -/
theorem sizeSlot_generatePmaValue (info : PmaInfo) : sizeSlot.get (info.generatePmaValue false) =
    info.pmaAddress.toNat >>> 58 % 2 ^ 6 ||| Nat.size info.pmaSize.toNat % 2 ^ 6 := by
  have hlow : sizeSlot.get (pack info.lowFields) = 0 := by
    refine get_pack_apart (lowFields_fit info) ?_
    have hslots : ∀ slot ∈ info.lowFields.map Prod.fst, Slot.Apart sizeSlot slot := by
      change ∀ slot ∈ [readSlot, writeSlot, executeSlot, memoryTypeSlot, amoTypeSlot, cachedSlot, routingToSlot],
        Slot.Apart sizeSlot slot
      decide
    exact fun field hfield => hslots _ (List.mem_map_of_mem hfield)
  rw [generatePmaValue_invalid, valueFields_eq, pack_append, Slot.get_or, hlow, Nat.zero_or, pack_cons, pack_cons,
    Slot.get_or, Slot.get_or, sizeSlot_put_address, sizeSlot_put_size]
  change _ ||| (_ ||| sizeSlot.get 0) = _
  rw [Slot.get_zero, Nat.or_zero]

/-! ### Decoding -/

/-- The word of the fields reads back for every region in range: a page-aligned address, and a power of two for the
size. -/
theorem decode_generatePmaValue {info : PmaInfo} {page k : ℕ} (haddress : info.pmaAddress.toNat = 2 ^ 12 * page)
    (hrange : info.pmaAddress.toNat < 2 ^ 52) (hsize : info.pmaSize.toNat = 2 ^ k) (hk : k < 63) :
    decodePmaValue (info.generatePmaValue false) = some info.fields := by
  have hbits : Nat.size info.pmaSize.toNat = k + 1 := by rw [hsize, Nat.size_pow]
  have hfits := valueFields_fits hrange (by rw [hbits]; omega)
  rw [generatePmaValue_invalid]
  have hget : ∀ (slot : Slot) (value : ℕ), (slot, value) ∈ info.valueFields → slot.get (pack info.valueFields) = value :=
    fun _ _ h => hfits.get_pack h
  have hsizeField := hget sizeSlot (Nat.size info.pmaSize.toNat) (by simp [PmaInfo.valueFields])
  have hread := hget readSlot info.pmaRead.toNat (by simp [PmaInfo.valueFields])
  have hwrite := hget writeSlot info.pmaWrite.toNat (by simp [PmaInfo.valueFields])
  have hexecute := hget executeSlot info.pmaExecute.toNat (by simp [PmaInfo.valueFields])
  have htype := hget memoryTypeSlot (memoryTypeMap info.pmaMemoryType) (by simp [PmaInfo.valueFields])
  have hamo := hget amoTypeSlot (amoTypeMap info.pmaAmoType) (by simp [PmaInfo.valueFields])
  have hcached := hget cachedSlot info.cachedValue (by simp [PmaInfo.valueFields])
  have hrouting := hget routingToSlot (routingToMap info.pmaRoutingTo) (by simp [PmaInfo.valueFields])
  have hbase := hget addressSlot (info.pmaAddress.toNat >>> 12) (by simp [PmaInfo.valueFields])
  have hshift : info.pmaAddress.toNat >>> 12 <<< 12 = info.pmaAddress.toNat := by
    rw [Nat.shiftRight_eq_div_pow, Nat.shiftLeft_eq]
    omega
  have hflag : ∀ flag : Bool, decide (flag.toNat = 1) = flag := by decide
  have htypes : ∀ type, decodeMemoryType (memoryTypeMap type) = type := by intro type; cases type <;> rfl
  have hamos : ∀ type, decodeAmoType (amoTypeMap type) = type := by intro type; cases type <;> rfl
  have hroutings : ∀ routing, (if routingToMap routing = 1 then RoutingTo.coherent else .noncoherent) = routing := by
    intro routing
    cases routing <;> rfl
  have hcachedFlag : decide (info.cachedValue = 1) = info.fields.cachedOrCombining := by
    simp only [PmaInfo.cachedValue, PmaInfo.fields]
    split_ifs
    · cases info.pmaCacheability <;> rfl
    · cases info.pmaCombining <;> rfl
  rw [decodePmaValue, hsizeField, if_neg (by omega), hread, hwrite, hexecute, htype, hamo, hcached, hrouting, hbase,
    hshift, hflag, hflag, hflag, htypes, hamos, hroutings, hcachedFlag, hbits, Nat.add_sub_cancel, ← hsize]
  rfl

/-- What the word of a region is to say: of a valid one its fields, of an invalid one that it is invalid. -/
def DecodesTo (pmaValid : Bool) (info : PmaInfo) : Prop :=
  (pmaValid = true → decodePmaValue (info.generatePmaValue pmaValid) = some info.fields) ∧
    (pmaValid = false → sizeSlot.get (info.generatePmaValue pmaValid) = 0)

/-- No valid region is encoded, and of the invalid ones only those without a size field. -/
theorem generatePmaValue_decodesTo_iff (pmaValid : Bool) (info : PmaInfo) :
    DecodesTo pmaValid info ↔
      pmaValid = false ∧ info.pmaAddress.toNat >>> 58 % 2 ^ 6 = 0 ∧ Nat.size info.pmaSize.toNat % 2 ^ 6 = 0 := by
  cases pmaValid with
  | true =>
      refine iff_of_false (fun h => ?_) fun h => nomatch h.1
      have hnone : decodePmaValue 0 = none := by decide
      cases hnone.symm.trans (h.1 rfl)
  | false =>
      have hiff : DecodesTo false info ↔ sizeSlot.get (info.generatePmaValue false) = 0 :=
        ⟨fun h => h.2 rfl, fun h => ⟨fun hvalid => (nomatch hvalid), fun _ => h⟩⟩
      rw [hiff, sizeSlot_generatePmaValue, Nat.or_eq_zero_iff, and_iff_right rfl]

/-- A valid page of memory is encoded as an invalid region. -/
theorem not_generatePmaValue_decodesTo :
    ¬ ∀ (pmaValid : Bool) (info : PmaInfo), (pmaValid = true → info.pmaAddress % 4096 = 0 ∧ 0 ≤ info.pmaAddress ∧
      info.pmaAddress < 2 ^ 52 ∧ ∃ k, 12 ≤ k ∧ info.pmaSize = 2 ^ k) → DecodesTo pmaValid info := by
  intro h
  have hpage := h true { pmaAddress := 0x80000000, pmaSize := 0x1000 } fun _ =>
    ⟨by decide, by decide, by decide, 12, le_rfl, by decide⟩
  have hnone : decodePmaValue 0 = none := by decide
  cases hnone.symm.trans (hpage.1 rfl)

end Riescue.Pma
