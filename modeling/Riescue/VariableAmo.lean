import Riescue.Variables

/-! The atomic and the plain code of `increment` and `load_and_clear` on one hart: the same address, the same bytes, the
same value in the destination register. -/

namespace Riescue.Variables
open Machine

variable {w : ℕ} {v : Variable} {index : ℤ} {bare : Bool}

/-- The address of an element: behind the pointer to the context, or behind the symbol of the variable. -/
def elementAddress (symbols : String → BitVec w) (s : State w) (v : Variable) (index : ℤ) (bare : Bool) : BitVec w :=
  if v.hartVariable then s.get tp + BitVec.ofInt w (v.offset + index * v.size)
  else symbols (if bare then v.name ++ "_pa" else v.name) + BitVec.ofInt w (index * v.size)

/-- A state in front of the code: nothing is accessed yet, and the pointer and the symbols are aligned for the elements. -/
structure Starts (symbols : String → BitVec w) (s : State w) (v : Variable) : Prop where
  accesses : s.accesses = []
  pointer : v.size ∣ (s.get tp).toNat
  symbol : ∀ name, v.size ∣ (symbols name).toNat

/-- The two pieces of code access only the element, leave the same memory and the same value in the register, and change
no byte outside the element. -/
def SameEffect (symbols : String → BitVec w) (s : State w) (addr : BitVec w) (size : ℕ) (destReg : Reg)
    (plain amo : Code) : Prop :=
  ∃ s₁ s₂, run symbols plain s = some s₁ ∧ run symbols amo s = some s₂ ∧
    s₁.mem = s₂.mem ∧ s₁.get destReg = s₂.get destReg ∧ (∀ a ∈ s₁.accesses ++ s₂.accesses, a = addr) ∧
    ∀ a, size ≤ (a - addr).toNat → s₁.mem a = s.mem a

/-- `increment` does the same with and without atomics, from every state in front of it. -/
def IncrementAgrees (w : ℕ) (v : Variable) (destReg addrReg : Reg) (index : ℤ) (bare : Bool) : Prop :=
  ∃ plain amo, { v with amoEnabled := false }.increment destReg addrReg index bare = .ok plain ∧
    { v with amoEnabled := true }.increment destReg addrReg index bare = .ok amo ∧
    ∀ (symbols : String → BitVec w) (s : State w), Starts symbols s v →
      SameEffect symbols s (elementAddress symbols s v index bare) v.size destReg plain amo

/-- `load_and_clear` does the same with and without atomics, from every state in front of it. -/
def LoadAndClearAgrees (w : ℕ) (v : Variable) (destReg : Reg) (index : ℤ) (bare : Bool) : Prop :=
  ∃ plain amo, { v with amoEnabled := false }.loadAndClear destReg index bare = .ok plain ∧
    { v with amoEnabled := true }.loadAndClear destReg index bare = .ok amo ∧
    ∀ (symbols : String → BitVec w) (s : State w), Starts symbols s v →
      SameEffect symbols s (elementAddress symbols s v index bare) v.size destReg plain amo

/-! ### The address -/

/-- The offset of the element is out of reach of a 12-bit immediate. -/
def IsFar (v : Variable) (index : ℤ) : Prop :=
  v.hartVariable = true ∧ Variable.offsetFits12bit (v.offset + index * v.size) = false

instance (v : Variable) (index : ℤ) : Decidable (IsFar v index) := instDecidableAnd

/-- The address that `load_immediate` leaves in a register. -/
def computedAddress (symbols : String → BitVec w) (s : State w) (v : Variable) (index : ℤ) (bare : Bool) (reg : Reg) :
    BitVec w :=
  if reg = 0 then 0
  else if IsFar v index ∧ reg = tp then
    BitVec.ofInt w (v.offset + index * v.size) + BitVec.ofInt w (v.offset + index * v.size)
  else elementAddress symbols s v index bare

theorem loadImmediate_amoEnabled (v : Variable) (amoEnabled : Bool) (reg : Reg) (index : ℤ) (bare : Bool) :
    { v with amoEnabled }.loadImmediate reg index bare = v.loadImmediate reg index bare := rfl

/-- `load_immediate` sets one register. -/
theorem run_loadImmediate (hindex : v.IsIndex index) (reg : Reg) (bare : Bool) :
    ∃ code, v.loadImmediate reg index bare = .ok code ∧ ∀ (symbols : String → BitVec w) (s : State w),
      ∃ s', run symbols code s = some s' ∧ s'.mem = s.mem ∧ s'.accesses = s.accesses ∧
        s'.get reg = computedAddress symbols s v index bare reg ∧ ∀ r, r ≠ reg → s'.get r = s.get r := by
  cases hhart : v.hartVariable with
  | false =>
      refine ⟨_, Variable.loadImmediate_shared hindex hhart reg bare, fun symbols s => ⟨_, rfl, ?_, ?_, ?_, ?_⟩⟩
      · exact State.mem_set _ _ _
      · exact State.accesses_set _ _ _
      · rw [computedAddress]
        split_ifs with hzero hfar
        · rw [hzero, State.get_zero]
        · exact absurd (hhart.symm.trans hfar.1.1) (by decide)
        · rw [State.get_set_self _ hzero, Variable.resolveName_eq, elementAddress, hhart]
          rfl
      · exact fun r hr => State.get_set_of_ne _ hr _
  | true =>
      cases hfits : Variable.offsetFits12bit (v.offset + index * v.size) with
      | true =>
          refine ⟨_, Variable.loadImmediate_near hindex hhart hfits reg bare, fun symbols s => ⟨_, rfl, ?_, ?_, ?_, ?_⟩⟩
          · exact State.mem_set _ _ _
          · exact State.accesses_set _ _ _
          · rw [computedAddress]
            split_ifs with hzero hfar
            · rw [hzero, State.get_zero]
            · exact absurd (hfits.symm.trans hfar.1.2) (by decide)
            · rw [State.get_set_self _ hzero, elementAddress, hhart, if_pos rfl]
          · exact fun r hr => State.get_set_of_ne _ hr _
      | false =>
          refine ⟨_, Variable.loadImmediate_far hindex hhart hfits reg bare, fun symbols s => ⟨_, rfl, ?_, ?_, ?_, ?_⟩⟩
          · rw [State.mem_set, State.mem_set]
          · rw [State.accesses_set, State.accesses_set]
          · rw [computedAddress]
            split_ifs with hzero hfar
            · rw [hzero, State.get_zero]
            · rw [State.get_set_self _ hzero, State.get_set_self _ hzero, hfar.2, State.get_set_self _ (hfar.2 ▸ hzero)]
              rfl
            · have htp : tp ≠ reg := fun heq => hfar ⟨⟨hhart, hfits⟩, heq.symm⟩
              rw [State.get_set_self _ hzero, State.get_set_self _ hzero, State.get_set_of_ne _ htp, elementAddress, hhart,
                if_pos rfl, BitVec.add_comm]
              rfl
          · intro r hr
            rw [State.get_set_of_ne _ hr, State.get_set_of_ne _ hr]

/-! ### The pieces of code behind the address -/

variable {symbols : String → BitVec w} {s s' : State w} {n : ℕ} {destReg addrReg : Reg}

theorem add_ofInt_zero (x : BitVec w) : x + BitVec.ofInt w 0 = x := by simp

theorem setWidth_ofInt_one (hn : 8 * n ≤ w) : (BitVec.ofInt w 1).setWidth (8 * n) = BitVec.ofInt (8 * n) 1 := by
  have hone : BitVec.ofInt w 1 = BitVec.ofNat w 1 := BitVec.ofInt_ofNat _ 1
  have hone' : BitVec.ofInt (8 * n) 1 = BitVec.ofNat (8 * n) 1 := BitVec.ofInt_ofNat _ 1
  apply BitVec.eq_of_toNat_eq
  rw [hone, hone', BitVec.toNat_setWidth, BitVec.toNat_ofNat, BitVec.toNat_ofNat, Nat.mod_mod_of_dvd _ (Nat.pow_dvd_pow 2 hn)]

/-- A store-back of a loaded and incremented number stores the incremented number. -/
theorem setWidth_signExtend_add_one (hn : 8 * n ≤ w) (x : BitVec (8 * n)) :
    (x.signExtend w + BitVec.ofInt w 1).setWidth (8 * n) = x + BitVec.ofInt (8 * n) 1 := by
  have hsign : (x.signExtend w).setWidth (8 * n) = x := by
    apply BitVec.eq_of_getLsbD_eq
    intro i hi
    rw [BitVec.getLsbD_setWidth, BitVec.getLsbD_signExtend, decide_eq_true hi, decide_eq_true (by omega : i < w), if_pos hi,
      Bool.true_and, Bool.true_and]
  rw [BitVec.setWidth_add _ _ hn, hsign, setWidth_ofInt_one hn]

/-- Load, increment, store. -/
def plainIncrement (n : ℕ) (destReg addrReg : Reg) : Code :=
  [.load n destReg 0 addrReg, .addi destReg destReg 1, .store n destReg 0 addrReg]

/-- Add one in the memory, and to the value that comes back. -/
def amoIncrement (n : ℕ) (destReg addrReg : Reg) : Code :=
  [.li destReg (.const 1), .amoadd n destReg destReg addrReg, .addi destReg destReg 1]

variable (symbols) in
theorem run_plainIncrement (hdest : destReg ≠ 0) (hne : addrReg ≠ destReg) (hn : 8 * n ≤ w) :
    ∃ s', run symbols (plainIncrement n destReg addrReg) s = some s' ∧
      s'.mem = writeBytes s.mem n (s.get addrReg) (readBytes s.mem n (s.get addrReg) + BitVec.ofInt (8 * n) 1) ∧
      s'.get destReg = (readBytes s.mem n (s.get addrReg)).signExtend w + BitVec.ofInt w 1 ∧
      s'.accesses = [s.get addrReg, s.get addrReg] ++ s.accesses := by
  rw [plainIncrement, run_cons, step, State.load, if_pos hn, Option.bind_some, run_cons, step, Option.bind_some,
    run_singleton, step,
    State.store, if_pos hn]
  refine ⟨_, rfl, ?_, ?_, ?_⟩
  · simp only [add_ofInt_zero, State.mem_set, State.get_set_of_ne _ hne, State.get_set_self _ hdest]
    rw [setWidth_signExtend_add_one hn]
    rfl
  · simp only [add_ofInt_zero, State.get_mk, State.get_set_self _ hdest]
  · simp only [add_ofInt_zero, State.accesses_set, State.get_set_of_ne _ hne]
    rfl

variable (symbols) in
theorem run_amoIncrement (hdest : destReg ≠ 0) (hne : addrReg ≠ destReg) (hn : 8 * n ≤ w) (halign : n ∣ (s.get addrReg).toNat) :
    ∃ s', run symbols (amoIncrement n destReg addrReg) s = some s' ∧
      s'.mem = writeBytes s.mem n (s.get addrReg) (readBytes s.mem n (s.get addrReg) + BitVec.ofInt (8 * n) 1) ∧
      s'.get destReg = (readBytes s.mem n (s.get addrReg)).signExtend w + BitVec.ofInt w 1 ∧
      s'.accesses = s.get addrReg :: s.accesses := by
  have hget : ∀ value, (s.set destReg value).get addrReg = s.get addrReg := fun value => State.get_set_of_ne s hne value
  have hone : (BitVec.ofInt w 1).setWidth (8 * n) = BitVec.ofInt (8 * n) 1 := setWidth_ofInt_one hn
  rw [amoIncrement, run_cons, step, Option.bind_some, run_cons, step, State.amo, hget, if_pos ⟨hn, halign⟩, Option.bind_some,
    run_singleton, step]
  refine ⟨_, rfl, ?_, ?_, ?_⟩
  · simp only [State.mem_set, State.get_set_self _ hdest, Operand.eval, hone]
  · simp only [State.mem_set, State.get_set_self _ hdest]
  · simp only [State.accesses_set]

/-- What a run of the plain piece says about it. -/
theorem plainIncrement_some
    (h : run symbols (plainIncrement n destReg addrReg) s = some s') :
    8 * n ≤ w ∧ s.get addrReg ∈ s'.accesses ∧
      (destReg = 0 → s'.mem = writeBytes s.mem n (s.get addrReg) 0) := by
  rw [plainIncrement, run_cons, step, State.load] at h
  split_ifs at h with hn
  · rw [Option.bind_some, run_cons, step, Option.bind_some, run_singleton, step, State.store, if_pos hn] at h
    obtain rfl := Option.some.inj h
    refine ⟨hn, ?_, ?_⟩
    · simp only [add_ofInt_zero, State.accesses_set]
      exact List.mem_cons_of_mem _ List.mem_cons_self
    · rintro rfl
      simp only [add_ofInt_zero, State.set_zero, State.get_zero, State.get_mk]
      rw [show BitVec.setWidth (8 * n) (0 : BitVec w) = 0 from BitVec.setWidth_zero _ _]
  · cases h

/-- What a run of the atomic piece says about it. -/
theorem amoIncrement_some
    (h : run symbols (amoIncrement n destReg addrReg) s = some s') :
    8 * n ≤ w ∧ n ∣ ((s.set destReg (BitVec.ofInt w 1)).get addrReg).toNat ∧
      (destReg = 0 → s'.mem = writeBytes s.mem n (s.get addrReg) (readBytes s.mem n (s.get addrReg))) := by
  rw [amoIncrement, run_cons, step, Option.bind_some, run_cons, step, State.amo] at h
  split_ifs at h with hn
  · rw [Option.bind_some, run_singleton, step] at h
    obtain rfl := Option.some.inj h
    refine ⟨hn.1, hn.2, ?_⟩
    rintro rfl
    simp only [State.set_zero, State.get_zero]
    rw [show BitVec.setWidth (8 * n) (0 : BitVec w) = 0 from BitVec.setWidth_zero _ _, show ∀ x : BitVec (8 * n), x + 0 = x from
      BitVec.add_zero]
  · cases h

/-! ### The code -/

theorem loadInstruction_ok (h : v.loadInstruction = .ok n) : v.size ∈ [1, 2, 4, 8] ∧ n = v.size := by
  unfold Variable.loadInstruction at h
  split_ifs at h with h8 h4 h2 h1
  · exact ⟨by simp [h8], h8 ▸ (Except.ok.inj h).symm⟩
  · exact ⟨by simp [h4], h4 ▸ (Except.ok.inj h).symm⟩
  · exact ⟨by simp [h2], h2 ▸ (Except.ok.inj h).symm⟩
  · exact ⟨by simp [h1], h1 ▸ (Except.ok.inj h).symm⟩

/-- The bytes of an atomic access. -/
def amoBytes (v : Variable) : ℕ := if v.size = 8 then 8 else 4

theorem increment_plain {li : Code} (hli : v.loadImmediate addrReg index bare = .ok li) (hsize : v.size ∈ [1, 2, 4, 8]) :
    { v with amoEnabled := false }.increment destReg addrReg index bare =
      .ok (li ++ plainIncrement v.size destReg addrReg) := by
  have hload : { v with amoEnabled := false }.loadInstruction = .ok v.size := Variable.loadInstruction_of_mem hsize
  have hstore : { v with amoEnabled := false }.storeInstruction = .ok v.size := Variable.storeInstruction_of_mem hsize
  rw [Variable.increment, loadImmediate_amoEnabled, hli, hload, hstore]
  rfl

theorem increment_amo {li : Code} (hli : v.loadImmediate addrReg index bare = .ok li) :
    { v with amoEnabled := true }.increment destReg addrReg index bare =
      .ok (li ++ amoIncrement (amoBytes v) destReg addrReg) := by
  rw [Variable.increment, loadImmediate_amoEnabled, hli]
  rfl

/-- Plain code exists for the four sizes alone. -/
theorem size_of_increment {li plain : Code} (hli : v.loadImmediate addrReg index bare = .ok li)
    (h : { v with amoEnabled := false }.increment destReg addrReg index bare = .ok plain) : v.size ∈ [1, 2, 4, 8] := by
  rw [Variable.increment, loadImmediate_amoEnabled, hli] at h
  rw [if_neg Bool.false_ne_true] at h
  obtain ⟨_, _, h⟩ := Fallible.bind_ok h
  obtain ⟨n, hn, -⟩ := Fallible.bind_ok h
  exact (loadInstruction_ok (v := { v with amoEnabled := false }) hn).1

/-! ### Probes -/

/-- A state with one value in every register and one in every byte. -/
def probe (x : BitVec w) (byte : BitVec 8) : State w := ⟨fun _ => x, fun _ => byte, []⟩

theorem elementAddress_probe (v : Variable) (index : ℤ) (bare : Bool) :
    ∃ c : BitVec w, ∀ x byte, elementAddress (fun _ => x) (probe x byte) v index bare = x + c := by
  cases hhart : v.hartVariable with
  | true =>
      refine ⟨BitVec.ofInt w (v.offset + index * v.size), fun x byte => ?_⟩
      rw [elementAddress, hhart, if_pos rfl]
      rfl
  | false =>
      refine ⟨BitVec.ofInt w (index * v.size), fun x byte => ?_⟩
      rw [elementAddress, hhart, if_neg Bool.false_ne_true]

theorem starts_probe {x : BitVec w} (hw : 32 ≤ w) (hsize : v.size ∈ [1, 2, 4, 8]) (hx : x = 0 ∨ x = BitVec.ofNat w 8)
    (byte : BitVec 8) : Starts (fun _ => x) (probe x byte) v := by
  have hdvd : v.size ∣ x.toNat := by
    rcases hx with rfl | rfl
    · exact Nat.dvd_zero _
    · rw [BitVec.toNat_ofNat, Nat.mod_eq_of_lt (lt_of_lt_of_le (by decide) (Nat.pow_le_pow_right (by decide) hw : 2 ^ 32 ≤ 2 ^ w))]
      simp only [List.mem_cons, List.not_mem_nil, or_false] at hsize
      rcases hsize with h | h | h | h <;> rw [h] <;> decide
  exact ⟨rfl, hdvd, fun _ => hdvd⟩

theorem eight_ne_zero (hw : 32 ≤ w) : (0 : BitVec w) ≠ BitVec.ofNat w 8 := by
  intro heq
  have htoNat := congrArg BitVec.toNat heq
  rw [BitVec.toNat_ofNat, Nat.mod_eq_of_lt (lt_of_lt_of_le (by decide) (Nat.pow_le_pow_right (by decide) hw : 2 ^ 32 ≤ 2 ^ w))]
    at htoNat
  exact absurd htoNat (by simp)

/-- The address of an element follows the pointer or the symbol. -/
theorem elementAddress_not_constant (hw : 32 ≤ w) (v : Variable) (index : ℤ) (bare : Bool) (d : BitVec w) :
    ¬ ∀ x : BitVec w, x = 0 ∨ x = BitVec.ofNat w 8 → ∃ byte, elementAddress (fun _ => x) (probe x byte) v index bare = d := by
  intro hd
  obtain ⟨c, hc⟩ := elementAddress_probe (w := w) v index bare
  obtain ⟨byte, hzero⟩ := hd 0 (.inl rfl)
  obtain ⟨byte', height⟩ := hd (BitVec.ofNat w 8) (.inr rfl)
  rw [hc] at hzero height
  exact eight_ne_zero hw ((BitVec.add_left_inj c).mp (hzero.trans height.symm))

/-- An address that follows the pointer and the symbols is not computed in register zero, nor, out of reach, in the
pointer. -/
theorem reg_of_computedAddress (hw : 32 ≤ w) {bare bare' : Bool} {reg : Reg}
    (h : ∀ x : BitVec w, x = 0 ∨ x = BitVec.ofNat w 8 → ∃ byte,
      computedAddress (fun _ => x) (probe x byte) v index bare' reg = elementAddress (fun _ => x) (probe x byte) v index bare) :
    reg ≠ 0 ∧ (IsFar v index → reg ≠ tp) := by
  have hfollows : ∀ d : BitVec w, ¬ ∀ x byte, computedAddress (fun _ => x) (probe x byte) v index bare' reg = d := by
    refine fun d hd => elementAddress_not_constant hw v index bare d fun x hx => ?_
    obtain ⟨byte, hbyte⟩ := h x hx
    exact ⟨byte, hbyte.symm.trans (hd x byte)⟩
  refine ⟨fun hreg => hfollows 0 fun x byte => if_pos hreg, fun hfar hreg => ?_⟩
  refine hfollows (BitVec.ofInt w (v.offset + index * v.size) + BitVec.ofInt w (v.offset + index * v.size)) fun x byte => ?_
  rw [computedAddress, if_neg (by rw [hreg]; decide), if_pos ⟨hfar, hreg⟩]

theorem toNat_add_three (hw : 32 ≤ w) (addr : BitVec w) : (addr + BitVec.ofNat w 3 - addr).toNat = 3 := by
  rw [BitVec.add_comm, BitVec.add_sub_cancel, BitVec.toNat_ofNat]
  exact Nat.mod_eq_of_lt (lt_of_lt_of_le (by decide) (Nat.pow_le_pow_right (by decide) hw : 2 ^ 32 ≤ 2 ^ w))

/-- Four bytes of ones. -/
theorem readBytes_ones (addr : BitVec w) : readBytes (fun _ => 255) 4 addr + BitVec.ofInt (8 * 4) 1 = 0 := by
  rw [readBytes, readNat, readNat, readNat, readNat, readNat]
  decide

theorem amoBytes_eq (hsize : v.size = 4 ∨ v.size = 8) : amoBytes v = v.size := by
  rcases hsize with h | h <;> simp [amoBytes, h]

/-- The number of bytes of an atomic access does not divide one. -/
theorem not_amoBytes_dvd_one (v : Variable) : ¬ amoBytes v ∣ 1 := by
  unfold amoBytes
  split_ifs <;> decide

/-- The condition under which `increment` agrees. -/
def IncrementCondition (w : ℕ) (v : Variable) (destReg addrReg : Reg) (index : ℤ) : Prop :=
  (v.size = 4 ∨ v.size = 8) ∧ 8 * v.size ≤ w ∧ destReg ≠ 0 ∧ addrReg ≠ 0 ∧ addrReg ≠ destReg ∧ (IsFar v index → addrReg ≠ tp)

theorem incrementCondition_of_agrees (hw : 32 ≤ w) (hindex : v.IsIndex index)
    (h : IncrementAgrees w v destReg addrReg index bare) : IncrementCondition w v destReg addrReg index := by
  obtain ⟨plain, amo, hplain, hamo, hsame⟩ := h
  obtain ⟨li, hli, hliRun⟩ := run_loadImmediate hindex addrReg bare
  have hsize := size_of_increment hli hplain
  obtain rfl := Except.ok.inj ((increment_plain hli hsize).symm.trans hplain)
  obtain rfl := Except.ok.inj ((increment_amo hli).symm.trans hamo)
  -- both pieces from a probe, behind the common address code
  have hprobe : ∀ (x : BitVec w) (byte : BitVec 8), x = 0 ∨ x = BitVec.ofNat w 8 → ∃ s s₁ s₂ : State w,
      (s.mem = fun _ => byte) ∧ s.get addrReg = computedAddress (fun _ => x) (probe x byte) v index bare addrReg ∧
      run (fun _ => x) (plainIncrement v.size destReg addrReg) s = some s₁ ∧
      run (fun _ => x) (amoIncrement (amoBytes v) destReg addrReg) s = some s₂ ∧
      s₁.mem = s₂.mem ∧ (∀ a ∈ s₁.accesses, a = elementAddress (fun _ => x) (probe x byte) v index bare) ∧
      ∀ a, v.size ≤ (a - elementAddress (fun _ => x) (probe x byte) v index bare).toNat → s₁.mem a = byte := by
    intro x byte hx
    obtain ⟨s₁, s₂, h₁, h₂, hmem, -, haccesses, houtside⟩ := hsame _ _ (starts_probe hw hsize hx byte)
    obtain ⟨s, hs, hsmem, -, hreg, -⟩ := hliRun (fun _ => x) (probe x byte)
    rw [run_append hs] at h₁ h₂
    exact ⟨s, s₁, s₂, hsmem, hreg, h₁, h₂, hmem, fun a ha => haccesses a (List.mem_append_left _ ha), houtside⟩
  have haddress : ∀ (x : BitVec w) (byte : BitVec 8), x = 0 ∨ x = BitVec.ofNat w 8 →
      computedAddress (fun _ => x) (probe x byte) v index bare addrReg =
        elementAddress (fun _ => x) (probe x byte) v index bare := by
    intro x byte hx
    obtain ⟨s, s₁, s₂, -, hreg, h₁, -, -, haccesses, -⟩ := hprobe x byte hx
    rw [← hreg]
    exact haccesses _ (plainIncrement_some h₁).2.1
  obtain ⟨haddr, hfar⟩ := reg_of_computedAddress hw fun x hx => ⟨0, haddress x 0 hx⟩
  obtain ⟨s, s₁, s₂, hmem, hreg, h₁, h₂, hsameMem, -, houtside⟩ := hprobe 0 255 (.inl rfl)
  rw [← haddress 0 255 (.inl rfl), ← hreg] at houtside
  obtain ⟨hn, -, hplainZero⟩ := plainIncrement_some h₁
  obtain ⟨hamoBytes, halign, hamoZero⟩ := amoIncrement_some h₂
  have hne : addrReg ≠ destReg := by
    rintro rfl
    rw [State.get_set_self _ haddr] at halign
    have hone : (BitVec.ofInt w 1).toNat = 1 := by
      rw [show BitVec.ofInt w 1 = BitVec.ofNat w 1 from BitVec.ofInt_ofNat _ 1, BitVec.toNat_ofNat]
      exact Nat.mod_eq_of_lt (lt_of_lt_of_le (by decide) (Nat.pow_le_pow_right (by decide) hw : 2 ^ 32 ≤ 2 ^ w))
    exact not_amoBytes_dvd_one v (hone ▸ halign)
  have hsizePos : 0 < v.size := by
    rcases Nat.eq_zero_or_pos v.size with hzero | hpos
    · rw [hzero] at hsize
      exact absurd hsize (by decide)
    · exact hpos
  have hbytesPos : 0 < amoBytes v := by
    unfold amoBytes
    split_ifs <;> decide
  have hdest : destReg ≠ 0 := by
    intro hzero
    -- the plain code stores register zero, the atomic code adds it
    have hbyte := congrFun hsameMem (s.get addrReg)
    rw [hplainZero hzero, hamoZero hzero, writeBytes_self _ hsizePos, writeBytes_self _ hbytesPos,
      setWidth_readBytes _ hbytesPos, hmem] at hbyte
    exact absurd hbyte (by simp)
  refine ⟨?_, hn, hdest, haddr, hne, hfar⟩
  by_contra hnot
  obtain ⟨hfour, height⟩ := not_or.mp hnot
  -- the atomic access has four bytes and carries out of the element
  have hsmall : v.size ≤ 3 := by
    simp only [List.mem_cons, List.not_mem_nil, or_false] at hsize
    omega
  have hbytes : amoBytes v = 4 := if_neg height
  rw [hbytes] at h₂ hamoBytes halign
  rw [State.get_set_of_ne _ hne] at halign
  obtain ⟨s₂', h₂', hmem₂, -, -⟩ := run_amoIncrement (fun _ => 0) hdest hne hamoBytes halign
  obtain rfl := Option.some.inj (h₂.symm.trans h₂')
  have hcarry := houtside (s.get addrReg + BitVec.ofNat w 3) (by rw [toNat_add_three hw]; exact hsmall)
  rw [hsameMem, hmem₂, hmem, readBytes_ones, writeBytes_zero_inside _ (by rw [toNat_add_three hw]; decide)] at hcarry
  exact absurd hcarry (by decide)

/-- The address of an element is aligned for it. -/
theorem dvd_elementAddress (hw : 32 ≤ w) (hsize : v.size = 4 ∨ v.size = 8) (hoffset : (v.size : ℤ) ∣ v.offset)
    (hstarts : Starts symbols s v) : v.size ∣ (elementAddress symbols s v index bare).toNat := by
  have hpow : v.size ∣ 2 ^ w := by
    have hdvd : v.size ∣ 2 ^ 32 := by rcases hsize with h | h <;> rw [h] <;> decide
    exact hdvd.trans (Nat.pow_dvd_pow 2 hw)
  have hindex : (v.size : ℤ) ∣ index * v.size := Int.dvd_mul_left _ _
  unfold elementAddress
  split_ifs
  · exact dvd_toNat_add hpow hstarts.pointer (dvd_toNat_ofInt hpow (Int.dvd_add hoffset hindex))
  · exact dvd_toNat_add hpow (hstarts.symbol _) (dvd_toNat_ofInt hpow hindex)
  · exact dvd_toNat_add hpow (hstarts.symbol _) (dvd_toNat_ofInt hpow hindex)

theorem computedAddress_eq {reg : Reg} (hreg : reg ≠ 0) (hfar : IsFar v index → reg ≠ tp) :
    computedAddress symbols s v index bare reg = elementAddress symbols s v index bare := by
  rw [computedAddress, if_neg hreg, if_neg fun h => hfar h.1 h.2]

/-- One of the four sizes. -/
theorem mem_sizes (hsize : v.size = 4 ∨ v.size = 8) : v.size ∈ [1, 2, 4, 8] := by
  rcases hsize with h | h <;> rw [h] <;> decide

theorem agrees_of_incrementCondition (hw : 32 ≤ w) (hindex : v.IsIndex index) (hoffset : (v.size : ℤ) ∣ v.offset)
    (h : IncrementCondition w v destReg addrReg index) : IncrementAgrees w v destReg addrReg index bare := by
  obtain ⟨hsize, hn, hdest, haddr, hne, hfar⟩ := h
  obtain ⟨li, hli, hliRun⟩ := run_loadImmediate hindex addrReg bare
  refine ⟨_, _, increment_plain hli (mem_sizes hsize), increment_amo hli, fun symbols s hstarts => ?_⟩
  obtain ⟨s', hs', hmem, haccesses, hreg, -⟩ := hliRun symbols s
  rw [computedAddress_eq haddr hfar] at hreg
  have halign : v.size ∣ (s'.get addrReg).toNat := by
    rw [hreg]
    exact dvd_elementAddress hw hsize hoffset hstarts
  obtain ⟨s₁, h₁, hmem₁, hget₁, haccesses₁⟩ := run_plainIncrement symbols hdest hne hn (s := s')
  obtain ⟨s₂, h₂, hmem₂, hget₂, haccesses₂⟩ := run_amoIncrement symbols hdest hne hn halign
  refine ⟨s₁, s₂, ?_, ?_, hmem₁.trans hmem₂.symm, hget₁.trans hget₂.symm, ?_, ?_⟩
  · rw [run_append hs', h₁]
  · rw [run_append hs', amoBytes_eq hsize, h₂]
  · intro a ha
    rw [haccesses₁, haccesses₂, haccesses, hstarts.accesses, hreg] at ha
    simpa using ha
  · intro a ha
    rw [hmem₁, hreg, writeBytes_outside _ ha, hmem]

/-! ### `load_and_clear` -/

/-- The condition under which `load_and_clear` agrees. -/
def LoadAndClearCondition (w : ℕ) (v : Variable) (destReg : Reg) (index : ℤ) (bare : Bool) : Prop :=
  (v.size = 4 ∨ v.size = 8) ∧ 8 * v.size ≤ w ∧ destReg ≠ 0 ∧
    (v.hartVariable = true → destReg ≠ tp ∧ (IsFar v index → destReg ≠ t6)) ∧
    (v.hartVariable = false → bare = true ∧ destReg ≠ t6)

theorem amoSwap_some (h : run symbols [.amoswap n destReg 0 destReg] s = some s') :
    8 * n ≤ w ∧ n ∣ (s.get destReg).toNat ∧ s'.mem = writeBytes s.mem n (s.get destReg) 0 ∧
      s'.accesses = s.get destReg :: s.accesses ∧
      (destReg ≠ 0 → s'.get destReg = (readBytes s.mem n (s.get destReg)).signExtend w) := by
  rw [run_singleton, step, State.amo] at h
  split_ifs at h with hn
  obtain rfl := Option.some.inj h
  refine ⟨hn.1, hn.2, ?_, ?_, fun hdest => State.get_set_self _ hdest _⟩
  · rw [State.mem_set, State.get_zero, show BitVec.setWidth (8 * n) (0 : BitVec w) = 0 from BitVec.setWidth_zero _ _]
  · rw [State.accesses_set]

variable (symbols) in
theorem run_amoSwap (hn : 8 * n ≤ w) (halign : n ∣ (s.get destReg).toNat) :
    ∃ s', run symbols [.amoswap n destReg 0 destReg] s = some s' := by
  rw [run_singleton, step, State.amo, if_pos ⟨hn, halign⟩]
  exact ⟨_, rfl⟩

theorem loadAndClear_amo {li : Code} (hli : v.loadImmediate destReg index true = .ok li) :
    { v with amoEnabled := true }.loadAndClear destReg index bare = .ok (li ++ [.amoswap (amoBytes v) destReg 0 destReg]) := by
  rw [Variable.loadAndClear, loadImmediate_amoEnabled, hli]
  rfl

theorem loadAndClear_plain {load store : Code} (hload : v.load destReg index bare = .ok load)
    (hstore : v.store 0 t6 index bare = .ok store) :
    { v with amoEnabled := false }.loadAndClear destReg index bare = .ok (load ++ store) := by
  have hload' : { v with amoEnabled := false }.load destReg index bare = .ok load := hload
  have hstore' : { v with amoEnabled := false }.store 0 t6 index bare = .ok store := hstore
  rw [Variable.loadAndClear, hload', hstore']
  rfl

/-- Plain code exists for the four sizes alone. -/
theorem size_of_loadAndClear {plain : Code} (hindex : v.IsIndex index)
    (h : { v with amoEnabled := false }.loadAndClear destReg index bare = .ok plain) : v.size ∈ [1, 2, 4, 8] := by
  rw [Variable.loadAndClear, if_neg Bool.false_ne_true] at h
  obtain ⟨load, hload, -⟩ := Fallible.bind_ok h
  have hload' : v.load destReg index bare = .ok load := hload
  rw [Variable.load, Variable.elementOffset_isIndex hindex] at hload'
  change (if v.hartVariable then _ else _) = _ at hload'
  split_ifs at hload'
  · obtain ⟨n, hn, -⟩ := Fallible.bind_ok hload'
    exact (loadInstruction_ok hn).1
  · obtain ⟨_, _, hload'⟩ := Fallible.bind_ok hload'
    obtain ⟨n, hn, -⟩ := Fallible.bind_ok hload'
    exact (loadInstruction_ok hn).1
  · obtain ⟨_, _, hload'⟩ := Fallible.bind_ok hload'
    obtain ⟨n, hn, -⟩ := Fallible.bind_ok hload'
    exact (loadInstruction_ok hn).1

/-- The offset of the element is within reach of the pointer to the context. -/
def IsNear (v : Variable) (index : ℤ) : Prop :=
  v.hartVariable = true ∧ Variable.offsetFits12bit (v.offset + index * v.size) = true

instance (v : Variable) (index : ℤ) : Decidable (IsNear v index) := instDecidableAnd

/-- The address at which `load` and `store` access an element, with the register that holds it. -/
def accessAddress (symbols : String → BitVec w) (s : State w) (v : Variable) (index : ℤ) (bare : Bool) (reg : Reg) : BitVec w :=
  if IsNear v index then elementAddress symbols s v index bare else computedAddress symbols s v index bare reg

theorem elementAddress_near (hnear : IsNear v index) :
    elementAddress symbols s v index bare = s.get tp + BitVec.ofInt w (v.offset + index * v.size) := by
  rw [elementAddress, hnear.1, if_pos rfl]

/-- Out of reach the accessors start with `load_immediate`. -/
theorem load_of_not_near (hindex : v.IsIndex index) (hsize : v.size ∈ [1, 2, 4, 8]) (hnear : ¬IsNear v index) {li : Code}
    (hli : v.loadImmediate destReg index bare = .ok li) :
    v.load destReg index bare = .ok (li ++ [.load v.size destReg 0 destReg]) := by
  cases hhart : v.hartVariable with
  | false =>
      rw [Variable.loadImmediate_shared hindex hhart] at hli
      obtain rfl := Except.ok.inj hli
      exact Variable.load_shared hindex hhart hsize destReg bare
  | true =>
      have hfits := Bool.eq_false_iff.mpr fun hfits => hnear ⟨hhart, hfits⟩
      rw [Variable.loadImmediate_far hindex hhart hfits] at hli
      obtain rfl := Except.ok.inj hli
      exact Variable.load_far hindex hhart hsize hfits destReg bare

theorem store_of_not_near (hindex : v.IsIndex index) (hsize : v.size ∈ [1, 2, 4, 8]) (hnear : ¬IsNear v index) {li : Code}
    {srcReg tempReg : Reg} (hli : v.loadImmediate tempReg index bare = .ok li) :
    v.store srcReg tempReg index bare = .ok (li ++ [.store v.size srcReg 0 tempReg]) := by
  cases hhart : v.hartVariable with
  | false =>
      rw [Variable.loadImmediate_shared hindex hhart] at hli
      obtain rfl := Except.ok.inj hli
      exact Variable.store_shared hindex hhart hsize srcReg tempReg bare
  | true =>
      have hfits := Bool.eq_false_iff.mpr fun hfits => hnear ⟨hhart, hfits⟩
      rw [Variable.loadImmediate_far hindex hhart hfits] at hli
      obtain rfl := Except.ok.inj hli
      exact Variable.store_far hindex hhart hsize hfits srcReg tempReg bare

/-- `load` accesses one address and sets one register. -/
theorem run_load (hindex : v.IsIndex index) (hsize : v.size ∈ [1, 2, 4, 8]) (destReg : Reg) (bare : Bool) :
    ∃ code, v.load destReg index bare = .ok code ∧ ∀ (symbols : String → BitVec w) (s : State w), ∃ s',
      (run symbols code s = if 8 * v.size ≤ w then some s' else none) ∧ s'.mem = s.mem ∧
      s'.accesses = accessAddress symbols s v index bare destReg :: s.accesses ∧
      (destReg ≠ 0 → s'.get destReg =
        (readBytes s.mem v.size (accessAddress symbols s v index bare destReg)).signExtend w) ∧
      ∀ r, r ≠ destReg → s'.get r = s.get r := by
  by_cases hnear : IsNear v index
  · refine ⟨_, Variable.load_near hindex hnear.1 hsize hnear.2 destReg bare, fun symbols s => ?_⟩
    rw [run_singleton, accessAddress, if_pos hnear, elementAddress_near hnear]
    refine ⟨_, rfl, ?_, ?_, fun hdest => State.get_set_self _ hdest _, fun r hr => State.get_set_of_ne _ hr _⟩
    · rw [State.mem_set]
    · rw [State.accesses_set]
  · obtain ⟨li, hli, hliRun⟩ := run_loadImmediate (w := w) hindex destReg bare
    refine ⟨_, load_of_not_near hindex hsize hnear hli, fun symbols s => ?_⟩
    obtain ⟨s', hs', hmem, haccesses, hreg, hother⟩ := hliRun symbols s
    rw [run_append hs', run_singleton, step, add_ofInt_zero, hreg, accessAddress, if_neg hnear, ← hmem, ← haccesses]
    refine ⟨_, rfl, ?_, ?_, fun hdest => State.get_set_self _ hdest _, fun r hr => ?_⟩
    · rw [State.mem_set]
    · rw [State.accesses_set]
    · rw [State.get_set_of_ne _ hr]
      exact hother r hr

/-- `store` writes a register to one address, with the address in `t6` when it is out of reach. -/
theorem run_store (hindex : v.IsIndex index) (hsize : v.size ∈ [1, 2, 4, 8]) {srcReg : Reg} (hsrc : srcReg ≠ t6)
    (bare : Bool) :
    ∃ code, v.store srcReg t6 index bare = .ok code ∧ ∀ (symbols : String → BitVec w) (s : State w), ∃ s',
      (run symbols code s = if 8 * v.size ≤ w then some s' else none) ∧
      s'.mem = writeBytes s.mem v.size (elementAddress symbols s v index bare) ((s.get srcReg).setWidth _) ∧
      s'.accesses = elementAddress symbols s v index bare :: s.accesses ∧
      (∀ r, r ≠ t6 → s'.get r = s.get r) ∧
      s'.get t6 = if IsNear v index then s.get t6 else elementAddress symbols s v index bare := by
  by_cases hnear : IsNear v index
  · refine ⟨_, Variable.store_near hindex hnear.1 hsize hnear.2 srcReg t6 bare, fun symbols s => ?_⟩
    rw [run_singleton, elementAddress_near hnear, if_pos hnear]
    exact ⟨_, rfl, rfl, rfl, fun r _ => rfl, rfl⟩
  · obtain ⟨li, hli, hliRun⟩ := run_loadImmediate (w := w) hindex t6 bare
    refine ⟨_, store_of_not_near hindex hsize hnear hli, fun symbols s => ?_⟩
    obtain ⟨s', hs', hmem, haccesses, hreg, hother⟩ := hliRun symbols s
    rw [computedAddress_eq (by decide) fun _ => by decide] at hreg
    rw [run_append hs', run_singleton, step, add_ofInt_zero, hreg, if_neg hnear, ← hmem, ← haccesses, ← hother srcReg hsrc]
    exact ⟨_, rfl, rfl, rfl, fun r hr => hother r hr, hreg⟩

/-- Register zero clears the element. -/
theorem run_clear (hindex : v.IsIndex index) (hsize : v.size ∈ [1, 2, 4, 8]) (bare : Bool) :
    ∃ code, v.store 0 t6 index bare = .ok code ∧ ∀ (symbols : String → BitVec w) (s : State w), ∃ s',
      (run symbols code s = if 8 * v.size ≤ w then some s' else none) ∧
      s'.mem = writeBytes s.mem v.size (elementAddress symbols s v index bare) 0 ∧
      s'.accesses = elementAddress symbols s v index bare :: s.accesses ∧
      (∀ r, r ≠ t6 → s'.get r = s.get r) ∧
      s'.get t6 = if IsNear v index then s.get t6 else elementAddress symbols s v index bare := by
  obtain ⟨code, hcode, hrun⟩ := run_store (w := w) hindex hsize (by decide : (0 : Reg) ≠ t6) bare
  refine ⟨code, hcode, fun symbols s => ?_⟩
  have hzero : (s.get 0).setWidth (8 * v.size) = 0 := by
    rw [State.get_zero]
    exact BitVec.setWidth_zero _ _
  exact hzero ▸ hrun symbols s

theorem elementAddress_congr (h : s'.get tp = s.get tp) :
    elementAddress symbols s' v index bare = elementAddress symbols s v index bare := by
  rw [elementAddress, elementAddress, h]

/-- What is known of the states behind the pieces when `load_and_clear` agrees: `loaded` behind the load, `cleared` behind
the store, `addressed` behind the address of the atomic access, and `swapped` behind it. -/
structure LoadAndClearRuns (symbols : String → BitVec w) (s : State w) (v : Variable) (destReg : Reg) (index : ℤ) (bare : Bool)
    (loaded cleared addressed swapped : State w) : Prop where
  fits : 8 * v.size ≤ w
  loadedOther : ∀ r, r ≠ destReg → loaded.get r = s.get r
  loadedDest : destReg ≠ 0 → loaded.get destReg =
    (readBytes s.mem v.size (accessAddress symbols s v index bare destReg)).signExtend w
  clearedMem : cleared.mem = writeBytes s.mem v.size (elementAddress symbols loaded v index bare) 0
  clearedOther : ∀ r, r ≠ t6 → cleared.get r = loaded.get r
  clearedTemp : cleared.get t6 = if IsNear v index then loaded.get t6 else elementAddress symbols loaded v index bare
  addressedMem : addressed.mem = s.mem
  addressedDest : addressed.get destReg = computedAddress symbols s v index true destReg
  swap : run symbols [.amoswap (amoBytes v) destReg 0 destReg] addressed = some swapped
  mem : cleared.mem = swapped.mem
  dest : cleared.get destReg = swapped.get destReg
  loadAddress : accessAddress symbols s v index bare destReg = elementAddress symbols s v index bare
  storeAddress : elementAddress symbols loaded v index bare = elementAddress symbols s v index bare
  swapAddress : computedAddress symbols s v index true destReg = elementAddress symbols s v index bare
  outside : ∀ a, v.size ≤ (a - elementAddress symbols s v index bare).toNat → cleared.mem a = s.mem a

theorem LoadAndClearAgrees.runs (hindex : v.IsIndex index) (h : LoadAndClearAgrees w v destReg index bare)
    (hstarts : Starts symbols s v) :
    ∃ loaded cleared addressed swapped, LoadAndClearRuns symbols s v destReg index bare loaded cleared addressed swapped := by
  obtain ⟨plain, amo, hplain, hamo, hsame⟩ := h
  have hsize := size_of_loadAndClear hindex hplain
  obtain ⟨load, hload, hloadRun⟩ := run_load (w := w) hindex hsize destReg bare
  obtain ⟨clear, hclear, hclearRun⟩ := run_clear (w := w) hindex hsize bare
  obtain ⟨li, hli, hliRun⟩ := run_loadImmediate (w := w) hindex destReg true
  obtain rfl := Except.ok.inj ((loadAndClear_plain hload hclear).symm.trans hplain)
  obtain rfl := Except.ok.inj ((loadAndClear_amo hli).symm.trans hamo)
  obtain ⟨cleared, swapped, h₁, h₂, hmem, hdest, haccesses, houtside⟩ := hsame symbols s hstarts
  obtain ⟨loaded, hloaded, hloadedMem, hloadedAccesses, hloadedDest, hloadedOther⟩ := hloadRun symbols s
  obtain ⟨cleared', hcleared, hclearedMem, hclearedAccesses, hclearedOther, hclearedTemp⟩ := hclearRun symbols loaded
  obtain ⟨addressed, haddressed, haddressedMem, haddressedAccesses, haddressedDest, -⟩ := hliRun symbols s
  rw [run_append_bind, hloaded] at h₁
  rw [run_append haddressed] at h₂
  split_ifs at h₁ with hfits
  · rw [Option.bind_some, hcleared, if_pos hfits] at h₁
    obtain rfl := Option.some.inj h₁
    have hswapped := (amoSwap_some h₂).2.2.2.1
    refine ⟨loaded, cleared', addressed, swapped, ⟨hfits, hloadedOther, hloadedDest, hloadedMem ▸ hclearedMem, hclearedOther,
      hclearedTemp, haddressedMem, haddressedDest, h₂, hmem, hdest, ?_, ?_, ?_, houtside⟩⟩
    · apply haccesses
      rw [hclearedAccesses, hloadedAccesses]
      exact List.mem_append_left _ (List.mem_cons_of_mem _ List.mem_cons_self)
    · apply haccesses
      rw [hclearedAccesses]
      exact List.mem_append_left _ List.mem_cons_self
    · apply haccesses
      rw [hswapped, haddressedDest]
      exact List.mem_append_right _ List.mem_cons_self
  · cases h₁

/-- The number that four bytes of zeros stand for. -/
theorem readBytes_zeros (n : ℕ) (addr : BitVec w) : readBytes (fun _ => 0) n addr = 0 := by
  have hzero : ∀ (n : ℕ) (addr : BitVec w), readNat (fun _ => 0) n addr = 0 := by
    intro n
    induction n with
    | zero => exact fun _ => rfl
    | succ n ih =>
        intro addr
        rw [readNat, ih, Nat.mul_zero]
        rfl
  rw [readBytes, hzero]
  rfl

theorem signExtend_zero (n : ℕ) : (0 : BitVec n).signExtend w = 0 := by
  apply BitVec.eq_of_getLsbD_eq
  intro i hi
  simp [BitVec.getLsbD_signExtend]

theorem loadAndClearCondition_of_agrees (hw : 32 ≤ w) (hindex : v.IsIndex index)
    (h : LoadAndClearAgrees w v destReg index bare) : LoadAndClearCondition w v destReg index bare := by
  have hsize : v.size ∈ [1, 2, 4, 8] := by
    obtain ⟨plain, amo, hplain, -, -⟩ := h
    exact size_of_loadAndClear hindex hplain
  have hprobe : ∀ (x : BitVec w) (byte : BitVec 8), x = 0 ∨ x = BitVec.ofNat w 8 → ∃ loaded cleared addressed swapped,
      LoadAndClearRuns (fun _ => x) (probe x byte) v destReg index bare loaded cleared addressed swapped :=
    fun x byte hx => h.runs hindex (starts_probe hw hsize hx byte)
  obtain ⟨hdest, hfar⟩ := reg_of_computedAddress hw fun x hx => by
    obtain ⟨loaded, cleared, addressed, swapped, hruns⟩ := hprobe x 0 hx
    exact ⟨0, hruns.swapAddress⟩
  -- from memory full of zeros the value is zero, whatever the pointer and the symbols are
  have hloadedZero : ∀ {x : BitVec w} {loaded cleared addressed swapped : State w},
      LoadAndClearRuns (fun _ => x) (probe x 0) v destReg index bare loaded cleared addressed swapped →
        loaded.get destReg = 0 := by
    intro x loaded cleared addressed swapped hruns
    rw [hruns.loadedDest hdest, probe, readBytes_zeros]
    exact signExtend_zero _
  have hpointer : v.hartVariable = true → destReg ≠ tp := by
    rintro hhart rfl
    refine elementAddress_not_constant hw v index bare (0 + BitVec.ofInt w (v.offset + index * v.size)) fun x hx => ⟨0, ?_⟩
    obtain ⟨loaded, cleared, addressed, swapped, hruns⟩ := hprobe x 0 hx
    rw [← hruns.storeAddress, elementAddress, hhart, if_pos rfl, hloadedZero hruns]
  have htemp : ¬IsNear v index → destReg ≠ t6 := by
    rintro hnear rfl
    refine elementAddress_not_constant hw v index bare 0 fun x hx => ⟨0, ?_⟩
    obtain ⟨loaded, cleared, addressed, swapped, hruns⟩ := hprobe x 0 hx
    have hget := hruns.clearedTemp
    rw [if_neg hnear, hruns.storeAddress, hruns.dest, (amoSwap_some hruns.swap).2.2.2.2 hdest, hruns.addressedMem, probe,
      readBytes_zeros] at hget
    exact hget.symm.trans (signExtend_zero _)
  have hbare : v.hartVariable = false → bare = true := by
    intro hhart
    by_contra hnot
    rw [Bool.not_eq_true] at hnot
    subst hnot
    -- the symbol of the variable is eight and all others are zero
    have hstarts : Starts (fun name => if name = v.name then BitVec.ofNat w 8 else 0) (probe (0 : BitVec w) 0) v := by
      refine ⟨rfl, (starts_probe hw hsize (.inl rfl) 0).pointer, fun name => ?_⟩
      split_ifs
      · exact (starts_probe (v := v) hw hsize (.inr rfl) 0).symbol name
      · exact Nat.dvd_zero _
    obtain ⟨loaded, cleared, addressed, swapped, hruns⟩ := h.runs hindex hstarts
    have hne : v.name ++ "_pa" ≠ v.name := by
      intro heq
      have hlength := congrArg String.length heq
      rw [String.length_append] at hlength
      exact absurd hlength (by simp)
    have haddress := hruns.swapAddress
    rw [computedAddress_eq hdest hfar, elementAddress, elementAddress, hhart] at haddress
    simp only [Bool.false_eq_true, if_false, if_true, if_neg hne] at haddress
    exact eight_ne_zero hw ((BitVec.add_left_inj _).mp haddress)
  obtain ⟨loaded, cleared, addressed, swapped, hruns⟩ := hprobe 0 255 (.inl rfl)
  refine ⟨?_, hruns.fits, hdest, fun hhart => ⟨hpointer hhart, fun hfar => htemp ?_⟩, fun hhart => ⟨hbare hhart, htemp ?_⟩⟩
  · by_contra hnot
    obtain ⟨hfour, height⟩ := not_or.mp hnot
    -- the atomic access clears four bytes
    have hsmall : v.size ≤ 3 := by
      simp only [List.mem_cons, List.not_mem_nil, or_false] at hsize
      omega
    have hbytes : amoBytes v = 4 := if_neg height
    have hswap := (amoSwap_some hruns.swap).2.2.1
    rw [hbytes, hruns.addressedDest, hruns.swapAddress] at hswap
    have hbeyond := hruns.outside (elementAddress (fun _ => 0) (probe 0 255) v index bare + BitVec.ofNat w 3)
      (by rw [toNat_add_three hw]; exact hsmall)
    rw [hruns.mem, hswap, writeBytes_zero_inside _ (by rw [toNat_add_three hw]; decide)] at hbeyond
    have hones : ¬(0 : BitVec 8) = 255 := by decide
    exact hones hbeyond
  · exact fun hnear => absurd (hnear.2.symm.trans hfar.2) (by decide)
  · exact fun hnear => absurd (hnear.1.symm.trans hhart) (by decide)

theorem agrees_of_loadAndClearCondition (hw : 32 ≤ w) (hindex : v.IsIndex index) (hoffset : (v.size : ℤ) ∣ v.offset)
    (h : LoadAndClearCondition w v destReg index bare) : LoadAndClearAgrees w v destReg index bare := by
  obtain ⟨hsize, hn, hdest, hhart, hshared⟩ := h
  obtain ⟨load, hload, hloadRun⟩ := run_load (w := w) hindex (mem_sizes hsize) destReg bare
  obtain ⟨clear, hclear, hclearRun⟩ := run_clear (w := w) hindex (mem_sizes hsize) bare
  obtain ⟨li, hli, hliRun⟩ := run_loadImmediate (w := w) hindex destReg true
  refine ⟨_, _, loadAndClear_plain hload hclear, loadAndClear_amo hli, fun symbols s hstarts => ?_⟩
  have hfar : IsFar v index → destReg ≠ tp := fun hfar => (hhart hfar.1).1
  have htemp : ¬IsNear v index → destReg ≠ t6 := by
    intro hnear
    cases hkind : v.hartVariable with
    | false => exact (hshared hkind).2
    | true => exact (hhart hkind).2 ⟨hkind, Bool.eq_false_iff.mpr fun hfits => hnear ⟨hkind, hfits⟩⟩
  have haccess : accessAddress symbols s v index bare destReg = elementAddress symbols s v index bare := by
    rw [accessAddress, computedAddress_eq hdest hfar, ite_self]
  have hswap : computedAddress symbols s v index true destReg = elementAddress symbols s v index bare := by
    rw [computedAddress_eq hdest hfar]
    cases hkind : v.hartVariable with
    | false => rw [(hshared hkind).1]
    | true => rw [elementAddress, elementAddress, hkind, if_pos rfl, if_pos rfl]
  obtain ⟨loaded, hloaded, hloadedMem, hloadedAccesses, hloadedDest, hloadedOther⟩ := hloadRun symbols s
  obtain ⟨cleared, hcleared, hclearedMem, hclearedAccesses, hclearedOther, hclearedTemp⟩ := hclearRun symbols loaded
  obtain ⟨addressed, haddressed, haddressedMem, haddressedAccesses, haddressedDest, -⟩ := hliRun symbols s
  rw [haccess] at hloadedAccesses hloadedDest
  rw [hswap] at haddressedDest
  have hloadedAddress : elementAddress symbols loaded v index bare = elementAddress symbols s v index bare := by
    cases hkind : v.hartVariable with
    | false => rw [elementAddress, elementAddress, hkind, if_neg Bool.false_ne_true, if_neg Bool.false_ne_true]
    | true => exact elementAddress_congr (hloadedOther tp (hhart hkind).1.symm)
  have halign : amoBytes v ∣ (addressed.get destReg).toNat := by
    rw [amoBytes_eq hsize, haddressedDest]
    exact dvd_elementAddress hw hsize hoffset hstarts
  obtain ⟨swapped, hswapped⟩ := run_amoSwap symbols (amoBytes_eq hsize ▸ hn) halign
  have hfacts := hswapped
  rw [amoBytes_eq hsize] at hfacts
  obtain ⟨-, -, hmem, haccesses, hget⟩ := amoSwap_some hfacts
  rw [haddressedDest, haddressedMem] at hmem hget
  rw [haddressedDest, haddressedAccesses] at haccesses
  rw [hloadedAddress, hloadedMem] at hclearedMem
  rw [hloadedAddress, hloadedAccesses] at hclearedAccesses
  refine ⟨cleared, swapped, ?_, ?_, hclearedMem.trans hmem.symm, ?_, ?_, ?_⟩
  · rw [run_append_bind, hloaded, if_pos hn, Option.bind_some, hcleared, if_pos hn]
  · rw [run_append haddressed, hswapped]
  · -- the store leaves the destination register unless it needs it for the address
    rw [hget hdest, ← hloadedDest hdest]
    by_cases htemp' : destReg = t6
    · rw [htemp', hclearedTemp, if_pos (not_not.mp fun hnear => htemp hnear htemp')]
    · exact hclearedOther destReg htemp'
  · intro a ha
    rw [hclearedAccesses, haccesses, hstarts.accesses] at ha
    simpa using ha
  · intro a ha
    rw [hclearedMem, writeBytes_outside _ ha]

/-! ### Agreement -/

/-- The atomic and the plain code agree exactly for elements of an atomic size and registers that do not get in the way;
`load_and_clear` of a shared variable only for bare addresses. -/
theorem amoAgrees_iff {xlen : Xlen} {v : Variable} {destReg addrReg : Reg} {index : ℤ} {bare : Bool}
    (hindex : v.IsIndex index) (hoffset : (v.size : ℤ) ∣ v.offset) :
    (IncrementAgrees xlen.bits v destReg addrReg index bare ↔
      (v.size = 4 ∨ v.size = 8) ∧ 8 * v.size ≤ xlen.bits ∧ destReg ≠ 0 ∧ addrReg ≠ 0 ∧ addrReg ≠ destReg ∧
        (IsFar v index → addrReg ≠ tp)) ∧
    (LoadAndClearAgrees xlen.bits v destReg index bare ↔
      (v.size = 4 ∨ v.size = 8) ∧ 8 * v.size ≤ xlen.bits ∧ destReg ≠ 0 ∧
        (v.hartVariable = true → destReg ≠ tp ∧ (IsFar v index → destReg ≠ t6)) ∧
        (v.hartVariable = false → bare = true ∧ destReg ≠ t6)) := by
  have hw : 32 ≤ xlen.bits := by cases xlen <;> decide
  exact ⟨⟨incrementCondition_of_agrees hw hindex, agrees_of_incrementCondition hw hindex hoffset⟩,
    ⟨loadAndClearCondition_of_agrees hw hindex, agrees_of_loadAndClearCondition hw hindex hoffset⟩⟩

/-- A counter of the harts that have ended. -/
def sharedCounter : Variable where
  name := "num_harts_ended"
  value := 0
  size := 8
  offset := 16

/-- The counter with `t0` and `t3`, and `t0` alone. -/
theorem amoAgrees_iff_sharedCounter :
    IncrementAgrees 64 sharedCounter 5 28 0 true ∧ LoadAndClearAgrees 64 sharedCounter 5 0 true := by
  have hagrees := @amoAgrees_iff .xlen64 sharedCounter 5 28 0 true ⟨by decide, by decide⟩ (by decide)
  exact ⟨hagrees.1.mpr (by decide), hagrees.2.mpr (by decide)⟩

/-- A byte: the atomic code adds to four bytes. -/
theorem not_amoAgrees_byte :
    ¬ ∀ (xlen : Xlen) (v : Variable) (destReg addrReg : Reg) (index : ℤ) (bare : Bool), v.size ∈ [1, 2, 4, 8] →
      8 * v.size ≤ xlen.bits → v.IsIndex index → (v.size : ℤ) ∣ v.offset →
      destReg ≠ addrReg → destReg ∉ [0, tp, t6] → addrReg ∉ [0, tp, t6] →
        IncrementAgrees xlen.bits v destReg addrReg index bare ∧ LoadAndClearAgrees xlen.bits v destReg index bare := by
  intro h
  have hagrees := h .xlen64 { sharedCounter with size := 1 } 5 28 0 true (by decide) (by decide) ⟨by decide, by decide⟩
    (by decide) (by decide) (by decide) (by decide)
  have hcondition := incrementCondition_of_agrees (by decide) ⟨by decide, by decide⟩ hagrees.1
  exact absurd hcondition.1 (by decide)

end Riescue.Variables
