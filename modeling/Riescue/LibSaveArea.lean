import Riescue.LibAssembly

/-! Registers in memory: a base register points to an area with a doubleword for each register. Stores fill the slots, loads read
them back. -/

namespace Assembly
open Machine (Reg readBytes)

variable {σ Symbol Csr : Type*}

/-- The address of the slot of a register. -/
def slotAddr (base : BitVec 64) (slot : Reg → ℤ) (r : Reg) : BitVec 64 := base + BitVec.ofInt 64 (slot r)

/-- The doubleword in the slot of a register. -/
def Hart.slotValue (h : Hart 64 σ) (base : BitVec 64) (slot : Reg → ℤ) (r : Reg) : BitVec 64 :=
  readBytes h.core.mem 8 (slotAddr base slot r)

/-- The slots do not overlap. -/
def SlotsApart (slot : Reg → ℤ) : Prop := ∀ base i j, i ≠ j → ∀ k < 8,
  8 ≤ (slotAddr base slot j + BitVec.ofNat 64 k - slotAddr base slot i).toNat

def storeAll (base : Reg) (slot : Reg → ℤ) (regs : List Reg) : List (Instr Symbol Csr) := regs.map fun r => .sd r (slot r) base

def loadAll (base : Reg) (slot : Reg → ℤ) (regs : List Reg) : List (Instr Symbol Csr) := regs.map fun r => .ld r (slot r) base

/-- Slots of eight bytes one after the other. -/
theorem slotsApart_consecutive (first : ℕ) : SlotsApart fun r : Reg => (first + 8 * r.val : ℕ) := by
  intro base i j hne k hk
  have hi := i.isLt
  have hj := j.isLt
  have hval : i.val ≠ j.val := fun heq => hne (Fin.ext heq)
  have hofInt : ∀ n : ℕ, BitVec.ofInt 64 (n : ℤ) = BitVec.ofNat 64 n := fun n => BitVec.ofInt_natCast 64 n
  show 8 ≤ (base + BitVec.ofInt 64 ((first + 8 * j.val : ℕ) : ℤ) + BitVec.ofNat 64 k -
    (base + BitVec.ofInt 64 ((first + 8 * i.val : ℕ) : ℤ))).toNat
  rw [hofInt, hofInt, BitVec.toNat_sub, BitVec.toNat_add, BitVec.toNat_add, BitVec.toNat_add, BitVec.toNat_ofNat,
    BitVec.toNat_ofNat, BitVec.toNat_ofNat]
  have hbase := base.isLt
  omega

variable {slot : Reg → ℤ} (file : CsrFile σ Csr 64) (symbols : Symbol → BitVec 64)

/-- A store to a slot leaves the registers, the CSRs and the other slots. -/
theorem step_store_slot (hapart : SlotsApart slot) (h : Hart 64 σ) (base r i : Reg) :
    ∃ h', step file symbols h (.sd r (slot i) base) = some h' ∧ h'.slotValue (h.get base) slot i = h.get r ∧
      h'.csrs = h.csrs ∧ (∀ r', h'.get r' = h.get r') ∧
      ∀ j, j ≠ i → h'.slotValue (h.get base) slot j = h.slotValue (h.get base) slot j := by
  obtain ⟨h', hstep, hmem, hcsrs, hget⟩ := step_sd file symbols h r (slot i) base
  refine ⟨h', hstep, ?_, hcsrs, hget, fun j hj => ?_⟩
  · rw [Hart.slotValue, hmem]
    exact Machine.readBytes_writeBytes _ (by decide) _ _
  · rw [Hart.slotValue, hmem]
    exact Machine.readBytes_writeBytes_apart _ _ (hapart _ i j hj.symm)

/-- The stores fill the slots of their registers. -/
theorem run_storeAll (hapart : SlotsApart slot) (base : Reg) (regs : List Reg) (h : Hart 64 σ) :
    ∃ h', runStraight file symbols (storeAll base slot regs) h = some h' ∧ h'.csrs = h.csrs ∧ (∀ r, h'.get r = h.get r) ∧
      (∀ r ∈ regs, h'.slotValue (h.get base) slot r = h.get r) ∧
      ∀ r, r ∉ regs → h'.slotValue (h.get base) slot r = h.slotValue (h.get base) slot r := by
  induction regs generalizing h with
  | nil => exact ⟨h, rfl, rfl, fun _ => rfl, fun _ hr => absurd hr List.not_mem_nil, fun _ _ => rfl⟩
  | cons first rest ih =>
      obtain ⟨h₁, hstep, hslot, hcsrs, hget, hother⟩ := step_store_slot file symbols hapart h base first first
      obtain ⟨h₂, hrun, hcsrs₂, hget₂, hfilled, hkept⟩ := ih h₁
      rw [hget base] at hfilled hkept
      refine ⟨h₂, (runStraight_cons hstep _).trans hrun, hcsrs₂.trans hcsrs, fun r => (hget₂ r).trans (hget r), ?_, ?_⟩
      · intro r hr
        by_cases hrest : r ∈ rest
        · exact (hfilled r hrest).trans (hget r)
        · obtain rfl : r = first := (List.mem_cons.mp hr).resolve_right hrest
          exact (hkept r hrest).trans hslot
      · intro r hr
        rw [List.mem_cons, not_or] at hr
        exact (hkept r hr.2).trans (hother r hr.1)

/-- The loads read the slots of their registers. -/
theorem run_loadAll {base : Reg} {regs : List Reg} (hbase : base ∉ regs) (hzero : 0 ∉ regs) (h : Hart 64 σ) :
    ∃ h', runStraight file symbols (loadAll base slot regs) h = some h' ∧ h'.csrs = h.csrs ∧ h'.core.mem = h.core.mem ∧
      (∀ r ∈ regs, h'.get r = h.slotValue (h.get base) slot r) ∧ ∀ r, r ∉ regs → h'.get r = h.get r := by
  induction regs generalizing h with
  | nil => exact ⟨h, rfl, rfl, rfl, fun _ hr => absurd hr List.not_mem_nil, fun _ _ => rfl⟩
  | cons first rest ih =>
      rw [List.mem_cons, not_or] at hbase hzero
      obtain ⟨h₁, hstep, hload, hmem, hcsrs, hother⟩ := step_ld file symbols h (Ne.symm hzero.1) (slot first) base
      obtain ⟨h₂, hrun, hcsrs₂, hmem₂, hloaded, hkept⟩ := ih hbase.2 hzero.2 h₁
      have hsame : ∀ r, h₁.slotValue (h₁.get base) slot r = h.slotValue (h.get base) slot r := fun r => by
        rw [Hart.slotValue, Hart.slotValue, hmem, hother base hbase.1]
      refine ⟨h₂, (runStraight_cons hstep _).trans hrun, hcsrs₂.trans hcsrs, hmem₂.trans hmem, ?_, ?_⟩
      · intro r hr
        by_cases hrest : r ∈ rest
        · exact (hloaded r hrest).trans (hsame r)
        · obtain rfl : r = first := (List.mem_cons.mp hr).resolve_right hrest
          exact (hkept r hrest).trans hload
      · intro r hr
        rw [List.mem_cons, not_or] at hr
        exact (hkept r hr.2).trans (hother r hr.1)

end Assembly
