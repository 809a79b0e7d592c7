import Riescue.LibExcept
import Riescue.Pmp
import Std.Data.String.ToNat
import Mathlib.Data.List.Forall2
import Mathlib.Data.Nat.Factorization.Basic

/-! What the PMP unit makes of the registers. The decoder follows the privileged specification for
entries of any index and registers of any width: the 64 entries of a unit and the width of `pmpaddr` are left out. The
registers are written in the order of the list, over a file in which every register is zero. Decoding
gives back the entries, and the entries of one `add_region` call cover its range exactly. -/

namespace Riescue.Pmp
open Napot Fallible

/-- One enabled PMP entry, as the hardware reads it. -/
structure DecodedEntry where
  mode : RiscvPmpAddressMatchingModes
  base : ℕ
  size : ℕ
  perms : ℕ
  locked : Bool
  deriving DecidableEq, Repr

/-- The CSR file, by register name. -/
abbrev Csrs := String → ℕ

def writeAddrs (addrs : List PmpAddr) (csrs : Csrs) : Csrs :=
  addrs.foldl (fun csrs addr => Function.update csrs addr.name addr.address) csrs

/-- The CSR writes that the loader emits for the returned registers. -/
def writeRegisters (registers : List PmpRegisters) (csrs : Csrs) : Csrs :=
  registers.foldl
    (fun csrs regs => Function.update (writeAddrs regs.addr csrs) regs.cfg.name regs.cfg.value) csrs

/-- The configuration byte of entry `i` for XLEN 64, where only the even registers exist. -/
def cfgByte (csrs : Csrs) (i : ℕ) : ℕ := byteAt (csrs (pmpcfgName (2 * (i / 8)))) (i % 8)

def decodeRange (csrs : Csrs) (i : ℕ) : RiscvPmpAddressMatchingModes → ℕ × ℕ
  | .off => (0, 0)
  | .tor =>
      let bottom := if i = 0 then 0 else 4 * csrs (pmpaddrName (i - 1))
      (bottom, 4 * csrs (pmpaddrName i) - bottom)
  | .na4 => (4 * csrs (pmpaddrName i), 4)
  | .napot => (unpackBase (csrs (pmpaddrName i)), unpackSize (csrs (pmpaddrName i)))

def decodeMode (byte : ℕ) : RiscvPmpAddressMatchingModes :=
  match (byte >>> 3) % 4 with
  | 0 => .off
  | 1 => .tor
  | 2 => .na4
  | _ => .napot

/-- Entry `i`; a disabled entry is nothing. Neither the width of the registers nor the number of entries bounds it. -/
def decodeEntry (csrs : Csrs) (i : ℕ) : Option DecodedEntry :=
  let byte := cfgByte csrs i
  let mode := decodeMode byte
  let range := decodeRange csrs i mode
  if mode = .off then none
  else some { mode, base := range.1, size := range.2, perms := byte % 8, locked := byte.testBit 7 }

theorem pmpaddrName_inj {i j : ℕ} : pmpaddrName i = pmpaddrName j ↔ i = j := by
  constructor
  · intro h
    have hrepr : Nat.repr i = Nat.repr j := by
      have := congrArg String.toList h
      simpa [pmpaddrName, String.ext_iff] using this
    exact Nat.repr_inj.mp hrepr
  · exact congrArg pmpaddrName

theorem pmpcfgName_inj {i j : ℕ} : pmpcfgName i = pmpcfgName j ↔ i = j := by
  constructor
  · intro h
    have hrepr : Nat.repr i = Nat.repr j := by
      have := congrArg String.toList h
      simpa [pmpcfgName, String.ext_iff] using this
    exact Nat.repr_inj.mp hrepr
  · exact congrArg pmpcfgName

theorem pmpcfgName_ne_pmpaddrName (i j : ℕ) : pmpcfgName i ≠ pmpaddrName j := by
  intro h
  have hchars : ("pmpcfg" ++ Nat.repr i).toList = ("pmpaddr" ++ Nat.repr j).toList :=
    congrArg String.toList h
  simp [String.toList_append] at hchars

/-! ### From regions to entries -/

/-- Aligned chunks that follow one another from `addr` on, over `rem` bytes. -/
inductive Tiles : ℕ → ℕ → List (ℕ × ℕ) → Prop where
  | nil (addr : ℕ) : Tiles addr 0 []
  | cons {addr chunk rem : ℕ} {chunks : List (ℕ × ℕ)} (haligned : Aligned addr chunk)
      (hchunk : pmpNapotGranule ≤ chunk) (hrest : Tiles (addr + chunk) rem chunks) :
      Tiles addr (chunk + rem) ((addr, chunk) :: chunks)

theorem Tiles.mem {addr rem : ℕ} {chunks : List (ℕ × ℕ)} (h : Tiles addr rem chunks)
    {piece : ℕ × ℕ} (hpiece : piece ∈ chunks) :
    Aligned piece.1 piece.2 ∧ 8 ≤ piece.2 ∧ addr ≤ piece.1 := by
  induction h with
  | nil addr => simp at hpiece
  | cons haligned hchunk hrest ih =>
      rcases List.mem_cons.mp hpiece with rfl | hpiece
      · exact ⟨haligned, hchunk, le_rfl⟩
      · obtain ⟨haligned', hsize, hle⟩ := ih hpiece
        exact ⟨haligned', hsize, by omega⟩

theorem Tiles.disjoint {addr rem : ℕ} {chunks : List (ℕ × ℕ)} (h : Tiles addr rem chunks) :
    chunks.Pairwise fun left right => left.1 + left.2 ≤ right.1 := by
  induction h with
  | nil addr => exact List.Pairwise.nil
  | cons haligned hchunk hrest ih =>
      exact List.pairwise_cons.mpr ⟨fun right hright => (hrest.mem hright).2.2, ih⟩

theorem Tiles.covers {addr rem : ℕ} {chunks : List (ℕ × ℕ)} (h : Tiles addr rem chunks) (a : ℕ) :
    (∃ piece ∈ chunks, piece.1 ≤ a ∧ a < piece.1 + piece.2) ↔ addr ≤ a ∧ a < addr + rem := by
  induction h with
  | nil addr =>
      constructor
      · simp
      · rintro ⟨hle, hlt⟩
        omega
  | @cons addr chunk rem chunks haligned hchunk hrest ih =>
      rw [List.exists_mem_cons_iff, ih]
      constructor
      · rintro (hfirst | hlater) <;> omega
      · intro ha
        by_cases hfirst : a < addr + chunk
        · exact Or.inl ⟨ha.1, hfirst⟩
        · exact Or.inr ⟨by omega, by omega⟩

namespace PmpRegion

theorem isNapot_iff {base size : ℕ} :
    isNapot base size = true ↔ pmpNapotGranule ≤ size ∧ Aligned base size := by
  unfold isNapot
  by_cases hsmall : size < pmpNapotGranule
  · simp [hsmall]
  · have hpos : size ≠ 0 := by
      simp only [pmpNapotGranule] at hsmall
      omega
    rw [aligned_iff_masks hpos]
    split_ifs <;> simp_all

/-- One turn of the loop takes an aligned chunk that still fits. -/
theorem napotChunk_spec (addr : ℕ) {rem : ℕ} (hrem : rem ≠ 0) :
    Aligned addr (napotChunk addr rem) ∧ napotChunk addr rem ≤ rem := by
  have hsize : 0 < Nat.size rem := Nat.size_pos.mpr (Nat.pos_of_ne_zero hrem)
  have hspan : 2 ^ (Nat.size rem - 1) ≤ rem := Nat.lt_size.mp (by omega)
  unfold napotChunk
  simp only [Nat.one_shiftLeft]
  by_cases haddr : addr = 0
  · subst haddr
    simp only [lowestBit_zero, or_true, if_true]
    exact ⟨⟨⟨_, rfl⟩, dvd_zero _⟩, hspan⟩
  · obtain ⟨k, m, ⟨j, rfl⟩, rfl⟩ := Nat.exists_eq_two_pow_mul_odd haddr
    rw [lowestBit_two_pow_mul_odd]
    split_ifs with h
    · have hle : 2 ^ (Nat.size rem - 1) ≤ 2 ^ k := h.resolve_right (Nat.two_pow_pos k).ne'
      have hexp : Nat.size rem - 1 ≤ k := (Nat.pow_le_pow_iff_right (by omega)).mp hle
      exact ⟨⟨⟨_, rfl⟩, (pow_dvd_pow 2 hexp).mul_right _⟩, hspan⟩
    · exact ⟨⟨⟨k, rfl⟩, dvd_mul_right _ _⟩, by omega⟩

/-- The loop of `napot_cover`: each turn shortens the remaining length. -/
theorem napotCover_tiles {addr rem : ℕ} {chunks : List (ℕ × ℕ)} (h : napotCover addr rem = .ok chunks) :
    Tiles addr rem chunks := by
  induction rem using Nat.strong_induction_on generalizing addr chunks with
  | h rem ih =>
      rw [napotCover] at h
      dsimp only at h
      split_ifs at h with hrem hsmall
      · subst hrem
        obtain rfl := Except.ok.inj h
        exact Tiles.nil addr
      · obtain ⟨rest, hrest, rfl⟩ := map_ok h
        obtain ⟨haligned, hle⟩ := napotChunk_spec addr hrem
        have hpos := haligned.pos
        have htiles := Tiles.cons haligned (Nat.not_lt.mp hsmall) (ih _ (by omega) hrest)
        rwa [Nat.add_sub_cancel' hle] at htiles

/-- The entries that one call adds for its target range. -/
structure Covers (range : BaseMem) (entries : List PmpEntry) : Prop where
  napot : ∀ entry ∈ entries, entry.addrMatching = .napot
  perms : ∀ entry ∈ entries, entry.perms = range.permissions
  aligned : ∀ entry ∈ entries, Aligned entry.base entry.size ∧ 8 ≤ entry.size
  disjoint : entries.Pairwise fun left right => left.base + left.size ≤ right.base
  covers : ∀ a, (∃ entry ∈ entries, entry.base ≤ a ∧ a < entry.base + entry.size) ↔
    range.start ≤ a ∧ a < range.start + range.size

theorem covers_of_tiles {range : BaseMem} {chunks : List (ℕ × ℕ)}
    (h : Tiles range.start range.size chunks) :
    Covers range (chunks.map fun napot => ⟨napot.1, napot.2, range.permissions, .napot⟩) where
  napot := List.forall_mem_map.mpr fun _ _ => rfl
  perms := List.forall_mem_map.mpr fun _ _ => rfl
  aligned := List.forall_mem_map.mpr fun _ hpiece => ⟨(h.mem hpiece).1, (h.mem hpiece).2.1⟩
  disjoint := List.pairwise_map.mpr h.disjoint
  covers := by
    intro a
    rw [← h.covers a]
    simp

/-- What a successful call does: it appends entries that cover its target exactly. -/
theorem addRegion_ok {region region' : PmpRegion} {range : BaseMem} {secure : Bool}
    (hpad : region.padNapot = false) (h : region.addRegion range secure = .ok region') :
    ∃ target entries, targetRange range secure = .ok target ∧ Covers target entries ∧
      region' = { region with entries := region.entries ++ entries } := by
  obtain ⟨target, htarget, h⟩ := bind_ok h
  refine ⟨target, ?_⟩
  split_ifs at h with hfull hnapot
  · obtain ⟨hsize, haligned⟩ := isNapot_iff.mp hnapot
    have htiles : Tiles target.start target.size [(target.start, target.size)] :=
      Tiles.cons haligned hsize (Tiles.nil _)
    exact ⟨_, htarget, covers_of_tiles htiles, (Except.ok.inj h).symm⟩
  · obtain ⟨chunks, hchunks, h⟩ := bind_ok h
    rw [alignNapot, hpad] at hchunks
    exact ⟨_, htarget, covers_of_tiles (napotCover_tiles hchunks), (Except.ok.inj h).symm⟩

/-- A run of successful calls, by induction over the calls. -/
theorem addRegions_ok {region region' : PmpRegion} {calls : List (BaseMem × Bool)}
    (hpad : region.padNapot = false) (h : region.addRegions calls = .ok region') :
    ∃ parts : List (List PmpEntry),
      List.Forall₂ (fun call part =>
        ∃ target, targetRange call.1 call.2 = .ok target ∧ Covers target part) calls parts ∧
      region' = { region with entries := region.entries ++ parts.flatten } := by
  induction calls generalizing region with
  | nil =>
      obtain rfl := Except.ok.inj h
      exact ⟨[], List.Forall₂.nil, by simp⟩
  | cons call calls ih =>
      obtain ⟨middle, hfirst, h⟩ := bind_ok h
      obtain ⟨target, entries, htarget, hcovers, rfl⟩ := addRegion_ok hpad hfirst
      have hpad' : { region with entries := region.entries ++ entries }.padNapot = false := hpad
      obtain ⟨parts, hparts, rfl⟩ := ih hpad' h
      exact ⟨entries :: parts, List.Forall₂.cons ⟨target, htarget, hcovers⟩ hparts, by simp⟩

end PmpRegion

/-! ### From entries to registers -/

theorem encodeCfg_lt (entry : PmpEntry) : entry.encodeCfg < 2 ^ 8 := by
  unfold PmpEntry.encodeCfg
  cases entry.perms <;> cases entry.addrMatching <;> decide

/-- An entry that `add_region` makes. -/
structure Encodable (entry : PmpEntry) : Prop where
  napot : entry.addrMatching = .napot
  aligned : Aligned entry.base entry.size
  size : 8 ≤ entry.size

theorem Encodable.toPmpaddr {entry : PmpEntry} (h : Encodable entry) (idx : ℕ) :
    entry.toPmpaddr idx =
      .ok ⟨pmpaddrName idx, pack entry.base entry.size, .xlen64, .napot⟩ := by
  have hpow : entry.size &&& (entry.size - 1) = 0 :=
    ((aligned_iff_masks h.aligned.pos.ne').mp h.aligned).1
  have hvalid : ¬(entry.size < 8 ∨ entry.size &&& (entry.size - 1) ≠ 0) := by
    have := h.size
    rintro (hsmall | hmask)
    · omega
    · exact hmask hpow
  rw [PmpEntry.toPmpaddr, PmpEntry.encodeAddr, h.napot]
  simp only [if_neg hvalid]
  rfl

/-- The debug range of a register is the range of its entry. -/
theorem Encodable.range_toPmpaddr {entry : PmpEntry} (h : Encodable entry) {idx : ℕ} {addr : PmpAddr}
    (haddr : entry.toPmpaddr idx = .ok addr) : addr.range = .ok (entry.base, entry.size) := by
  rw [h.toPmpaddr idx] at haddr
  obtain rfl := Except.ok.inj haddr
  have hbase := unpackBase_pack h.aligned h.size
  have hsize := unpackSize_pack h.aligned h.size
  have hmask : ∀ n ones, Nat.ldiff n (2 ^ ones - 1) = n / 2 ^ ones * 2 ^ ones := by
    intro n ones
    apply Nat.eq_of_testBit_eq
    intro i
    rw [Nat.testBit_ldiff, Nat.testBit_two_pow_sub_one, mul_comm, Nat.testBit_two_pow_mul,
      Nat.testBit_div_two_pow]
    by_cases hi : i < ones
    · simp [hi, Nat.not_le.mpr hi]
    · simp [hi, Nat.not_lt.mp hi]
  simp only [PmpAddr.range, Nat.one_shiftLeft, hmask]
  rw [Nat.shiftLeft_eq]
  exact congrArg Except.ok (Prod.ext hbase hsize)

/-- An NA4 entry, as the specification allows it. -/
structure FourBytes (entry : PmpEntry) : Prop where
  na4 : entry.addrMatching = .na4
  aligned : 4 ∣ entry.base
  size : entry.size = 4

theorem FourBytes.toPmpaddr {entry : PmpEntry} (h : FourBytes entry) (idx : ℕ) :
    entry.toPmpaddr idx = .ok ⟨pmpaddrName idx, entry.base / 4 ||| 1, .xlen64, .na4⟩ := by
  rw [PmpEntry.toPmpaddr, PmpEntry.encodeAddr, h.na4]
  simp only [h.size]
  rfl

/-- The decoder clears the two lowest bits, although the encoder keeps the granule number in bit 1. -/
theorem ldiff_or_one (granule : ℕ) : Nat.ldiff (granule ||| 1) 3 = granule / 4 * 4 := by
  apply Nat.eq_of_testBit_eq
  intro i
  have hthree : (3 : ℕ) = 2 ^ 2 - 1 := rfl
  have hone : (1 : ℕ) = 2 ^ 1 - 1 := rfl
  have hfour : (4 : ℕ) = 2 ^ 2 := rfl
  rw [Nat.testBit_ldiff, Nat.testBit_or, hthree, Nat.testBit_two_pow_sub_one, hfour, mul_comm,
    Nat.testBit_two_pow_mul, Nat.testBit_div_two_pow]
  by_cases hi : i < 2
  · simp [hi, Nat.not_le.mpr hi]
  · have hbit : Nat.testBit 1 i = false := by
      rw [hone, Nat.testBit_two_pow_sub_one]
      simp only [decide_eq_false_iff_not]
      omega
    simp [hi, Nat.not_lt.mp hi, hbit]

/-- The debug range of the register of an entry is the entry's own. -/
def PmpEntry.RangeRoundTrips (entry : PmpEntry) (idx : ℕ) : Prop :=
  ∃ addr, entry.toPmpaddr idx = .ok addr ∧ addr.range = .ok (entry.base, entry.size)

/-- `range` undoes `to_pmpaddr` for every NAPOT entry, and for an NA4 entry where its base is a multiple
of sixteen. -/
theorem rangeRoundTrips_iff {entry : PmpEntry} (h : FourBytes entry ∨ Encodable entry) (idx : ℕ) :
    entry.RangeRoundTrips idx ↔ (entry.addrMatching = .na4 → 16 ∣ entry.base) := by
  rcases h with h | h
  · have hrange : entry.RangeRoundTrips idx ↔ entry.base / 4 / 4 * 4 * 4 = entry.base := by
      rw [PmpEntry.RangeRoundTrips, h.toPmpaddr idx]
      simp only [Except.ok.injEq, exists_eq_left', PmpAddr.range, ldiff_or_one, Prod.mk.injEq, h.size,
        and_true]
    rw [hrange]
    constructor
    · intro hbase _
      omega
    · intro hbase
      have := hbase h.na4
      omega
  · constructor
    · intro _ hna4
      cases hna4.symm.trans h.napot
    · intro _
      exact ⟨_, h.toPmpaddr idx, h.range_toPmpaddr (h.toPmpaddr idx)⟩

theorem rangeRoundTrips_page :
    (⟨0x80000000, 4, .rWX, .na4⟩ : PmpEntry).RangeRoundTrips 0 ∧
      (⟨0x80000000, 0x1000, .r, .napot⟩ : PmpEntry).RangeRoundTrips 1 :=
  ⟨(rangeRoundTrips_iff (Or.inl ⟨rfl, by decide, rfl⟩) 0).mpr fun _ => by decide,
    (rangeRoundTrips_iff (Or.inr ⟨rfl, ⟨⟨12, rfl⟩, by decide⟩, by decide⟩) 1).mpr (by simp)⟩

/-- The second granule of the address space is shown as the first one. -/
theorem not_rangeRoundTrips :
    ¬∀ (entry : PmpEntry) (idx : ℕ), FourBytes entry ∨ Encodable entry → entry.RangeRoundTrips idx := by
  intro h
  obtain ⟨addr, haddr, hrange⟩ := h ⟨4, 4, .r, .na4⟩ 0 (Or.inl ⟨rfl, by decide, rfl⟩)
  obtain rfl := Except.ok.inj haddr
  exact absurd hrange (by decide +kernel)

theorem writeAddrs_append (addrs : List PmpAddr) (addr : PmpAddr) (csrs : Csrs) :
    writeAddrs (addrs ++ [addr]) csrs = Function.update (writeAddrs addrs csrs) addr.name addr.address := by
  simp [writeAddrs]

theorem writeRegisters_append (registers : List PmpRegisters) (regs : PmpRegisters) (csrs : Csrs) :
    writeRegisters (registers ++ [regs]) csrs =
      Function.update (writeAddrs regs.addr (writeRegisters registers csrs)) regs.cfg.name
        regs.cfg.value := by
  simp [writeRegisters]

/-- The state of the `encode` loop for XLEN 64, over the register file that its registers describe. -/
structure Encodes (entries : List PmpEntry) (state : EncodeState) (csrs : Csrs) : Prop where
  csrs_eq : csrs = writeAddrs state.addrRegisters (writeRegisters state.registers fun _ => 0)
  pending : state.addrRegisters.length = entries.length % 8
  small : state.cfgValue < 2 ^ (8 * (entries.length % 8))
  names : (state.registers.flatMap (·.addr) ++ state.addrRegisters).map (·.name) =
    (List.range entries.length).map pmpaddrName
  addr : ∀ i entry, entries[i]? = some entry → csrs (pmpaddrName i) = pack entry.base entry.size
  done : ∀ i entry, entries[i]? = some entry → i / 8 < entries.length / 8 →
    cfgByte csrs i = entry.encodeCfg
  current : ∀ i entry, entries[i]? = some entry → i / 8 = entries.length / 8 →
    byteAt state.cfgValue (i % 8) = entry.encodeCfg
  later : ∀ r, entries.length / 8 ≤ r → csrs (pmpcfgName (2 * r)) = 0

theorem encodes_nil : Encodes [] ⟨[], [], 0⟩ fun _ => 0 where
  csrs_eq := rfl
  pending := rfl
  small := by decide
  names := rfl
  addr := by simp
  done := by simp
  current := by simp
  later := by simp

theorem forall_getElem?_concat {α : Type} {entries : List α} {entry : α} {P : ℕ → α → Prop}
    (hold : ∀ i e, entries[i]? = some e → P i e) (hlast : P entries.length entry) (i : ℕ) (e : α)
    (he : (entries ++ [entry])[i]? = some e) : P i e := by
  rw [List.getElem?_append] at he
  split_ifs at he with hi
  · exact hold i e he
  · have hzero : i - entries.length = 0 := by
      by_contra hne
      rw [List.getElem?_eq_none (by simp only [List.length_singleton]; omega)] at he
      cases he
    rw [hzero] at he
    obtain rfl : entry = e := by simpa using he
    obtain rfl : i = entries.length := by omega
    exact hlast

theorem lt_length_of_getElem? {α : Type} {entries : List α} {i : ℕ} {e : α}
    (he : entries[i]? = some e) : i < entries.length := by
  by_contra hi
  rw [List.getElem?_eq_none (Nat.not_lt.mp hi)] at he
  cases he

theorem cfgByte_update_pmpaddr (csrs : Csrs) (idx value i : ℕ) :
    cfgByte (Function.update csrs (pmpaddrName idx) value) i = cfgByte csrs i := by
  rw [cfgByte, Function.update_of_ne (pmpcfgName_ne_pmpaddrName _ _), cfgByte]

/-- The register of the entry that one turn handles. -/
def PmpEntry.addrRegister (entry : PmpEntry) (idx : ℕ) : PmpAddr :=
  ⟨pmpaddrName idx, pack entry.base entry.size, .xlen64, .napot⟩

/-- The state inside a turn, before the test whether the configuration register is full. -/
def EncodeState.push (state : EncodeState) (idx : ℕ) (entry : PmpEntry) : EncodeState :=
  { state with
    cfgValue := state.cfgValue ||| entry.encodeCfg <<< (8 * (idx % 8))
    addrRegisters := state.addrRegisters ++ [entry.addrRegister idx] }

section Step
variable {entries : List PmpEntry} {entry : PmpEntry} {state : EncodeState} {csrs : Csrs}

theorem Encodes.csrs_push (h : Encodes entries state csrs) :
    Function.update csrs (pmpaddrName entries.length) (pack entry.base entry.size) =
      writeAddrs (state.push entries.length entry).addrRegisters
        (writeRegisters state.registers fun _ => 0) := by
  rw [EncodeState.push, writeAddrs_append, ← h.csrs_eq]
  rfl

theorem Encodes.names_push (h : Encodes entries state csrs) (entry : PmpEntry) :
    (state.registers.flatMap (·.addr) ++ (state.push entries.length entry).addrRegisters).map (·.name) =
      (List.range (entries ++ [entry]).length).map pmpaddrName := by
  rw [EncodeState.push, ← List.append_assoc, List.map_append, h.names, List.length_append,
    List.length_singleton, List.range_succ, List.map_append]
  rfl

theorem Encodes.addr_push (h : Encodes entries state csrs) (i : ℕ) (e : PmpEntry)
    (he : (entries ++ [entry])[i]? = some e) :
    Function.update csrs (pmpaddrName entries.length) (pack entry.base entry.size) (pmpaddrName i) =
      pack e.base e.size := by
  revert i e
  refine forall_getElem?_concat ?_ (Function.update_self ..)
  intro i e he
  have hi := lt_length_of_getElem? he
  rw [Function.update_of_ne (fun heq => hi.ne (pmpaddrName_inj.mp heq)), h.addr i e he]

/-- The bytes of the configuration register that is being filled. -/
theorem Encodes.byte_push (h : Encodes entries state csrs) (i : ℕ) (e : PmpEntry)
    (he : (entries ++ [entry])[i]? = some e) (hgroup : i / 8 = entries.length / 8) :
    byteAt (state.push entries.length entry).cfgValue (i % 8) = e.encodeCfg := by
  revert i e
  refine forall_getElem?_concat ?_ ?_
  · intro i e he hgroup
    have hi := lt_length_of_getElem? he
    rw [EncodeState.push, byteAt_or_shiftLeft h.small (encodeCfg_lt entry), if_neg (by omega)]
    exact h.current i e he hgroup
  · intro _
    rw [EncodeState.push, byteAt_or_shiftLeft h.small (encodeCfg_lt entry), if_pos rfl]

/-- A turn that leaves the configuration register open. -/
theorem Encodes.push (h : Encodes entries state csrs) (entry : PmpEntry) (hopen : entries.length % 8 < 7) :
    Encodes (entries ++ [entry]) (state.push entries.length entry)
      (Function.update csrs (pmpaddrName entries.length) (pack entry.base entry.size)) := by
  have hlength : (entries ++ [entry]).length = entries.length + 1 := by simp
  have hgroup : (entries.length + 1) / 8 = entries.length / 8 := by omega
  have hlane : (entries.length + 1) % 8 = entries.length % 8 + 1 := by omega
  refine ⟨h.csrs_push, ?_, ?_, h.names_push entry, h.addr_push, ?_, ?_, ?_⟩
  · rw [hlength, hlane, EncodeState.push, List.length_append, h.pending, List.length_singleton]
  · rw [hlength, hlane]
    exact or_shiftLeft_lt h.small (encodeCfg_lt entry)
  · rw [hlength, hgroup]
    refine forall_getElem?_concat ?_ (by omega)
    intro i e he hi
    rw [cfgByte_update_pmpaddr, h.done i e he hi]
  · rw [hlength, hgroup]
    exact h.byte_push
  · intro r hr
    rw [hlength, hgroup] at hr
    rw [Function.update_of_ne (pmpcfgName_ne_pmpaddrName _ _), h.later r hr]

/-- A turn that fills the configuration register and emits it. -/
theorem Encodes.flush (h : Encodes entries state csrs) (entry : PmpEntry) (hfull : entries.length % 8 = 7) :
    ∃ csrs', Encodes (entries ++ [entry])
      ⟨state.registers ++ [(state.push entries.length entry).pending .xlen64 entries.length], [], 0⟩
      csrs' := by
  have hlength : (entries ++ [entry]).length = entries.length + 1 := by simp
  have hgroup : (entries.length + 1) / 8 = entries.length / 8 + 1 := by omega
  have hlane : (entries.length + 1) % 8 = 0 := by omega
  have hcfg : ((state.push entries.length entry).pending .xlen64 entries.length).cfg.name =
      pmpcfgName (2 * (entries.length / 8)) := by
    rw [mul_comm]
    rfl
  have haddr : ∀ j, (Function.update (Function.update csrs (pmpaddrName entries.length)
      (pack entry.base entry.size)) (pmpcfgName (2 * (entries.length / 8)))
      (state.push entries.length entry).cfgValue) (pmpaddrName j) =
      Function.update csrs (pmpaddrName entries.length) (pack entry.base entry.size) (pmpaddrName j) :=
    fun j => Function.update_of_ne (pmpcfgName_ne_pmpaddrName _ _).symm ..
  refine ⟨_, ?_, ?_, ?_, ?_, fun i e he => (haddr i).trans (h.addr_push i e he), ?_, ?_, ?_⟩
  · rw [writeRegisters_append, hcfg, h.csrs_push]
    rfl
  · rw [hlength, hlane]
    rfl
  · rw [hlength, hlane]
    exact Nat.two_pow_pos _
  · rw [← h.names_push entry]
    simp [EncodeState.pending]
  · intro i e he hi
    rw [hlength, hgroup] at hi
    rw [cfgByte]
    by_cases hcurrent : i / 8 = entries.length / 8
    · rw [hcurrent, Function.update_self, h.byte_push i e he hcurrent]
    · rw [Function.update_of_ne (by rw [Ne, pmpcfgName_inj]; omega), ← cfgByte, cfgByte_update_pmpaddr]
      revert i e
      refine forall_getElem?_concat ?_ (by omega)
      intro i e he hi hne
      exact h.done i e he (by omega)
  · intro i e he hi
    have := lt_length_of_getElem? he
    omega
  · intro r hr
    rw [hlength, hgroup] at hr
    rw [Function.update_of_ne (by rw [Ne, pmpcfgName_inj]; omega),
      Function.update_of_ne (pmpcfgName_ne_pmpaddrName _ _), h.later r (by omega)]

end Step

/-- The `encode` loop, by induction over the entries that are left. -/
theorem encodeLoop_encodes {rest : List PmpEntry} (hrest : ∀ entry ∈ rest, Encodable entry)
    {entries : List PmpEntry} {state : EncodeState} {csrs : Csrs} (h : Encodes entries state csrs) :
    ∃ state' csrs', PmpRegion.encodeLoop .xlen64 entries.length rest state = .ok state' ∧
      Encodes (entries ++ rest) state' csrs' := by
  induction rest generalizing entries state csrs with
  | nil => exact ⟨state, csrs, rfl, by simpa using h⟩
  | cons entry rest ih =>
      have hentry := hrest entry List.mem_cons_self
      have hrest' : ∀ e ∈ rest, Encodable e := fun e he => hrest e (List.mem_cons_of_mem _ he)
      have hturn : PmpRegion.encodeLoop .xlen64 entries.length (entry :: rest) state =
          if (state.push entries.length entry).addrRegisters.length = 8 then
            PmpRegion.encodeLoop .xlen64 (entries ++ [entry]).length rest
              ⟨state.registers ++ [(state.push entries.length entry).pending .xlen64 entries.length], [], 0⟩
          else PmpRegion.encodeLoop .xlen64 (entries ++ [entry]).length rest
            (state.push entries.length entry) := by
        rw [PmpRegion.encodeLoop, hentry.toPmpaddr, List.length_append]
        rfl
      have hpending : (state.push entries.length entry).addrRegisters.length = entries.length % 8 + 1 := by
        rw [EncodeState.push, List.length_append, h.pending, List.length_singleton]
      rw [hturn, hpending, List.append_cons entries entry rest]
      by_cases hfull : entries.length % 8 + 1 = 8
      · rw [if_pos hfull]
        obtain ⟨csrs', hflush⟩ := h.flush entry (by omega)
        exact ih hrest' hflush
      · rw [if_neg hfull]
        exact ih hrest' (h.push entry (by omega))

/-- What the registers of `encode` hold, in terms of the entries. -/
structure Holds (entries : List PmpEntry) (registers : List PmpRegisters) : Prop where
  names : (registers.flatMap (·.addr)).map (·.name) = (List.range entries.length).map pmpaddrName
  addr : ∀ i entry, entries[i]? = some entry →
    writeRegisters registers (fun _ => 0) (pmpaddrName i) = pack entry.base entry.size
  cfg : ∀ i entry, entries[i]? = some entry →
    cfgByte (writeRegisters registers fun _ => 0) i = entry.encodeCfg
  rest : ∀ i, entries.length ≤ i → cfgByte (writeRegisters registers fun _ => 0) i = 0

/-- The last register is full. -/
theorem Encodes.holds_full {entries : List PmpEntry} {state : EncodeState} {csrs : Csrs}
    (h : Encodes entries state csrs) (hempty : state.addrRegisters = []) :
    Holds entries state.registers := by
  have hcsrs := h.csrs_eq
  have hlane := h.pending
  have hnames := h.names
  rw [hempty] at hcsrs hlane hnames
  obtain rfl : csrs = writeRegisters state.registers fun _ => 0 := hcsrs
  rw [List.length_nil] at hlane
  refine ⟨by simpa using hnames, h.addr, ?_, ?_⟩
  · intro i entry he
    have hi := lt_length_of_getElem? he
    exact h.done i entry he (by omega)
  · intro i hi
    rw [cfgByte, h.later _ (by omega), byteAt_zero]

/-- The last register is partial. -/
theorem Encodes.holds_partial {entries : List PmpEntry} {state : EncodeState} {csrs : Csrs}
    (h : Encodes entries state csrs) (hincomplete : state.addrRegisters ≠ []) :
    Holds entries (state.registers ++ [state.pending .xlen64 (entries.length - 1)]) := by
  have hlane : 0 < entries.length % 8 := by
    rw [← h.pending]
    exact List.length_pos_of_ne_nil hincomplete
  have hname : (state.pending .xlen64 (entries.length - 1)).cfg.name =
      pmpcfgName (2 * (entries.length / 8)) := by
    have hgroup : (entries.length - 1) / 8 = entries.length / 8 := by omega
    rw [mul_comm, ← hgroup]
    rfl
  have hcsrs : writeRegisters (state.registers ++ [state.pending .xlen64 (entries.length - 1)])
      (fun _ => 0) = Function.update csrs (pmpcfgName (2 * (entries.length / 8))) state.cfgValue := by
    rw [writeRegisters_append, hname, h.csrs_eq]
    rfl
  refine ⟨by simpa [EncodeState.pending] using h.names, ?_, ?_, ?_⟩
  · intro i entry he
    rw [hcsrs, Function.update_of_ne (pmpcfgName_ne_pmpaddrName _ _).symm, h.addr i entry he]
  · intro i entry he
    have hi := lt_length_of_getElem? he
    rw [hcsrs, cfgByte]
    by_cases hcurrent : i / 8 = entries.length / 8
    · rw [hcurrent, Function.update_self, h.current i entry he hcurrent]
    · rw [Function.update_of_ne (by rw [Ne, pmpcfgName_inj]; omega), ← cfgByte,
        h.done i entry he (by omega)]
  · intro i hi
    rw [hcsrs, cfgByte]
    by_cases hcurrent : i / 8 = entries.length / 8
    · rw [hcurrent, Function.update_self, byteAt_eq_zero h.small (by omega)]
    · rw [Function.update_of_ne (by rw [Ne, pmpcfgName_inj]; omega), h.later _ (by omega), byteAt_zero]

theorem encode_holds (region : PmpRegion) (hxlen : region.xlen = .xlen64)
    (hentries : ∀ entry ∈ region.entries, Encodable entry) (hne : region.entries ≠ []) :
    ∃ registers, region.encode = .ok registers ∧ Holds region.entries registers := by
  obtain ⟨state, csrs, hloop, h⟩ := encodeLoop_encodes hentries encodes_nil
  rw [List.nil_append] at h
  rw [List.length_nil] at hloop
  rw [PmpRegion.encode, hxlen, hloop]
  by_cases hempty : state.addrRegisters = []
  · exact ⟨_, by simp [hne, hempty, bind, Except.bind], h.holds_full hempty⟩
  · exact ⟨_, by simp [hne, hempty, bind, Except.bind], h.holds_partial hempty⟩

/-! ### The round trip -/

/-- The entry as the hardware should see it. -/
def PmpEntry.decoded (entry : PmpEntry) : DecodedEntry :=
  { mode := .napot, base := entry.base, size := entry.size, perms := entry.perms.bits, locked := false }

theorem Holds.decodeEntry {entries : List PmpEntry} {registers : List PmpRegisters}
    (h : Holds entries registers) (hentries : ∀ entry ∈ entries, Encodable entry) (i : ℕ) :
    decodeEntry (writeRegisters registers fun _ => 0) i = (entries[i]?).map PmpEntry.decoded := by
  cases he : entries[i]? with
  | none =>
      have hbyte := h.rest i (List.getElem?_eq_none_iff.mp he)
      rw [Pmp.decodeEntry, hbyte]
      rfl
  | some entry =>
      have hentry := hentries entry (List.mem_of_getElem? he)
      have hmode : decodeMode entry.encodeCfg = .napot ∧ entry.encodeCfg % 8 = entry.perms.bits ∧
          entry.encodeCfg.testBit 7 = false := by
        rw [PmpEntry.encodeCfg, hentry.napot]
        cases entry.perms <;> decide
      rw [Pmp.decodeEntry, h.cfg i entry he]
      simp only [hmode, decodeRange, h.addr i entry he, unpackBase_pack hentry.aligned hentry.size,
        unpackSize_pack hentry.aligned hentry.size]
      rfl

/-- Enabled entries that cover exactly the bytes of a range, with exactly its permissions. -/
structure DecodesTo (range : BaseMem) (entries : List DecodedEntry) : Prop where
  napot : ∀ entry ∈ entries, entry.mode = .napot ∧ Aligned entry.base entry.size ∧ 8 ≤ entry.size
  perms : ∀ entry ∈ entries, entry.perms = range.permissions.bits ∧ entry.locked = false
  disjoint : entries.Pairwise fun left right => left.base + left.size ≤ right.base
  covers : ∀ a, (∃ entry ∈ entries, entry.base ≤ a ∧ a < entry.base + entry.size) ↔
    range.start ≤ a ∧ a < range.start + range.size

/-- The encoded region decodes to the added ranges, in order, and to nothing else. -/
def RoundTrips (calls : List (BaseMem × Bool)) (region : PmpRegion) : Prop :=
  ∃ (registers : List PmpRegisters) (parts : List (List DecodedEntry)),
    region.encode = .ok registers ∧
    List.Forall₂ (fun call part =>
      ∃ target, PmpRegion.targetRange call.1 call.2 = .ok target ∧ DecodesTo target part) calls parts ∧
    (∀ i, decodeEntry (writeRegisters registers fun _ => 0) i = parts.flatten[i]?) ∧
    (registers.flatMap (·.addr)).map (·.name) = (List.range parts.flatten.length).map pmpaddrName

theorem decodesTo_of_covers {range : BaseMem} {entries : List PmpEntry}
    (h : PmpRegion.Covers range entries) : DecodesTo range (entries.map PmpEntry.decoded) where
  napot := List.forall_mem_map.mpr fun entry hentry => ⟨rfl, h.aligned entry hentry⟩
  perms := List.forall_mem_map.mpr fun entry hentry =>
    ⟨congrArg PmpAttributes.bits (h.perms entry hentry), rfl⟩
  disjoint := List.pairwise_map.mpr h.disjoint
  covers := by
    intro a
    rw [← h.covers a]
    simp [PmpEntry.decoded]

theorem encodable_of_covers {range : BaseMem} {entries : List PmpEntry}
    (h : PmpRegion.Covers range entries) : ∀ entry ∈ entries, Encodable entry :=
  fun entry hentry => ⟨h.napot entry hentry, (h.aligned entry hentry).1, (h.aligned entry hentry).2⟩

theorem targetRange_size {range target : BaseMem} {secure : Bool}
    (h : PmpRegion.targetRange range secure = .ok target) : target.size = range.size := by
  unfold PmpRegion.targetRange at h
  split_ifs at h <;> obtain rfl := Except.ok.inj h <;> rfl

/-- Encoding after any sequence of successful calls round-trips. The ranges need no alignment here:
where the split meets a chunk below eight bytes the call fails. -/
theorem encode_roundTrips {calls : List (BaseMem × Bool)} {region : PmpRegion} (hne : calls ≠ [])
    (hsize : ∀ call ∈ calls, 0 < call.1.size)
    (hadd : (PmpRegion.new false .xlen64).addRegions calls = .ok region) : RoundTrips calls region := by
  obtain ⟨parts, hparts, rfl⟩ := PmpRegion.addRegions_ok rfl hadd
  have hencodable : ∀ entry ∈ parts.flatten, Encodable entry := by
    intro entry hentry
    obtain ⟨part, hpart, hentry⟩ := List.mem_flatten.mp hentry
    obtain ⟨i, hi, rfl⟩ := List.mem_iff_getElem.mp hpart
    have hi' : i < calls.length := hparts.length_eq ▸ hi
    obtain ⟨target, -, hcovers⟩ := hparts.get hi' hi
    exact encodable_of_covers hcovers entry hentry
  have hentries : parts.flatten ≠ [] := by
    cases hparts with
    | nil => exact absurd rfl hne
    | @cons call part calls parts hfirst hrest =>
        obtain ⟨target, htarget, hcovers⟩ := hfirst
        have hpos : 0 < target.size := by
          rw [targetRange_size htarget]
          exact hsize call List.mem_cons_self
        obtain ⟨entry, hentry, -⟩ := (hcovers.covers target.start).mpr ⟨le_rfl, by omega⟩
        exact List.ne_nil_of_mem (List.mem_flatten.mpr ⟨part, List.mem_cons_self, hentry⟩)
  obtain ⟨registers, hencode, hholds⟩ :=
    encode_holds ⟨false, parts.flatten, .xlen64⟩ rfl hencodable hentries
  have hflatten : (parts.map (List.map PmpEntry.decoded)).flatten =
      parts.flatten.map PmpEntry.decoded := List.map_flatten.symm
  refine ⟨registers, parts.map (List.map PmpEntry.decoded), hencode, ?_, ?_, ?_⟩
  · refine List.forall₂_map_right_iff.mpr (hparts.imp ?_)
    rintro call part ⟨target, htarget, hcovers⟩
    exact ⟨target, htarget, decodesTo_of_covers hcovers⟩
  · intro i
    rw [hholds.decodeEntry hencodable, hflatten, List.getElem?_map]
  · rw [hflatten, List.length_map]
    exact hholds.names

/-- Entries below the 56 bits of a physical address stay within the 54 bits of `pmpaddr`. -/
theorem Holds.addr_lt {entries : List PmpEntry} {registers : List PmpRegisters} (h : Holds entries registers)
    (hentries : ∀ entry ∈ entries, Encodable entry ∧ entry.base + entry.size ≤ 2 ^ 56) {i : ℕ}
    (hi : i < entries.length) :
    writeRegisters registers (fun _ => 0) (pmpaddrName i) < 2 ^ 54 := by
  obtain ⟨hentry, hend⟩ := hentries _ (List.getElem_mem hi)
  rw [h.addr i _ (List.getElem?_eq_getElem hi)]
  exact pack_lt hentry.aligned hentry.size (by omega)

/-- A range of three gigabytes and a secure one behind it. -/
theorem encode_roundTrips_secure :
    RoundTrips
      [(⟨.dramRange, 0x80000000, 0xC0000000, .rWX⟩, false), (⟨.dramRange, 0x140000000, 0x18, .r⟩, true)]
      ⟨false, [⟨0x80000000, 0x80000000, .rWX, .napot⟩, ⟨0x100000000, 0x40000000, .rWX, .napot⟩,
        ⟨0x80000140000000, 0x10, .r, .napot⟩, ⟨0x80000140000010, 8, .r, .napot⟩], .xlen64⟩ :=
  encode_roundTrips (by simp) (by simp) (by decide +kernel)

end Riescue.Pmp
