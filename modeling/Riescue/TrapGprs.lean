import Riescue.LibSaveArea
import Riescue.VariableLayout

/-! The general registers across the trap handler, `runtime/trap_handler.py` with `save_restore_gprs`: the entry reads the cause and
saves the registers, `trap_exit` restores them and returns. -/

namespace Riescue.TrapGprs
open Machine (Reg)
open Assembly Variables

abbrev t0 : Reg := 5
abbrev t1 : Reg := 6
abbrev t2 : Reg := 7
abbrev tp : Reg := 4

abbrev Instr := Assembly.Instr String String

inductive Label where
  | exceptionPath | excpEntry | normalMret | override (label : String) | interrupt (label : String) | returned
  deriving DecidableEq, Repr

abbrev Line := Assembly.Line String String Label

abbrev instrs (code : List Instr) : List Line := code.map .instr

/-- Lines for interrupts, which have labels of their own. -/
structure InterruptPath where
  lines : List Line
  own : ∀ l, .label l ∈ lines → ∃ name, l = .interrupt name

inductive Privilege where
  | machine | super
  deriving DecidableEq, Repr

/-- The parts of `TrapHandler` and of its feature manager that the code depends on. -/
structure TrapHandler where
  delegMode : Privilege
  pagingDisabled : Bool
  privMachine : Bool
  medeleg : ℕ
  exceptionHandlerOverrides : List (ℕ × String)

namespace TrapHandler

def prefixed (handler : TrapHandler) (name : String) : String :=
  match handler.delegMode with
  | .machine => "m" ++ name
  | .super => "s" ++ name

def xcause (handler : TrapHandler) : String := handler.prefixed "cause"

def tvec (handler : TrapHandler) : String := handler.prefixed "tvec"

def scratchReg (handler : TrapHandler) : String := handler.prefixed "scratch"

end TrapHandler

/-! ### The save area -/

/-- The variables of a hart that the runtime registers, up to the save area. -/
def hartVariables : List Registration :=
  [{ name := "mhartid", value := 0 }, { name := "check_excp", value := 1, size := some 1 },
    { name := "check_excp_expected_pc", value := -1 }, { name := "check_excp_actual_pc", value := -1 },
    { name := "check_excp_return_pc", value := -1 }, { name := "check_excp_skip_pc_check", value := 0 },
    { name := "check_excp_expected_tval", value := 0 }, { name := "check_excp_expected_htval", value := 0 },
    { name := "check_excp_expected_cause", value := 0xFF }, { name := "check_excp_actual_cause", value := 0xFF },
    { name := "check_excp_gva_check", value := 0 }, { name := "check_excp_expected_mode", value := 0 },
    { name := "check_excp_re_execute", value := 0 }, { name := "check_excp_disable_triggers", value := 0 },
    { name := "gpr_save_area", value := 0, elementCount := 32 }]

/-- `gpr_save_area` -/
def gprSaveArea : Variable where
  name := "gpr_save_area"
  value := 0
  size := 8
  offset := 128
  hartVariable := true
  elementCount := 32

/-- The save area is what the runtime registers. -/
theorem gprSaveArea_registered (amoEnabled : Bool) :
    ((HartContext.new .xlen64 amoEnabled).registerAll true hartVariables).map (fun m => m.vars.getLast?) =
      .ok (some { gprSaveArea with amoEnabled }) := by
  cases amoEnabled <;> rfl

/-- `save_gprs` -/
def saveGprs (scratchReg : String) : Except VariableFault (List Instr) := do
  let store (reg : Reg) (index : ℤ) : Except VariableFault (List Instr) :=
    (gprSaveArea.store reg t6 index).map fun code => code.map .core
  let first ← store 1 1
  let context ← store 1 4
  let x2 ← store 2 2
  let x3 ← store 3 3
  let rest ← (List.range' 5 27).mapM fun i => store (Fin.ofNat 32 i) i
  .ok (first ++ [.csrr 1 scratchReg] ++ context ++ x2 ++ x3 ++ rest.flatten)

/-- `restore_gprs` -/
def restoreGprs (scratchReg : String) : Except VariableFault (List Instr) := do
  let load (reg : Reg) (index : ℤ) : Except VariableFault (List Instr) :=
    (gprSaveArea.load reg index).map fun code => code.map .core
  let x2 ← load 2 2
  let x3 ← load 3 3
  let rest ← (List.range' 5 27).mapM fun i => load (Fin.ofNat 32 i) i
  let context ← load 1 4
  let last ← load 1 1
  .ok (x2 ++ x3 ++ rest.flatten ++ context ++ [.csrw scratchReg 1] ++ last ++ [.csr .write tp scratchReg (.reg tp)])

namespace TrapHandler

/-- `save_context` -/
def saveContext (handler : TrapHandler) : Except VariableFault (List Instr) := do
  let save ← saveGprs handler.scratchReg
  .ok (.csr .write tp handler.scratchReg (.reg tp) :: save ++
    [.core (.li t0 (.symbol "trap_panic" 0)), .csrw handler.tvec t0])

/-- The overrides whose cause is delegated to the mode of the handler. -/
def overrides (handler : TrapHandler) : List (ℕ × String) :=
  handler.exceptionHandlerOverrides.filter fun entry =>
    let causeMode : Privilege := if handler.medeleg / 2 ^ entry.1 % 2 = 1 then .super else .machine
    causeMode = handler.delegMode

/-- `excp_dispatch` -/
def excpDispatch (handler : TrapHandler) : List Line :=
  handler.overrides.flatMap fun entry => [.instr (.li t1 entry.1), .branch .eq t0 t1 (.override entry.2)]

/-- `default_trap_handler`, with the lines for interrupts between the first branch and the path of the exceptions. -/
def defaultTrapHandler (handler : TrapHandler) (interruptPath : InterruptPath) : Except VariableFault (List Line) := do
  let save ← handler.saveContext
  .ok (instrs [.csrr t0 handler.xcause, .li t1 (2 ^ 63), .alu .and t1 t1 t0] ++
    .branch .eq t1 0 .exceptionPath :: interruptPath.lines ++
    .label .exceptionPath :: handler.excpDispatch ++ instrs save ++ [.jump .excpEntry])

/-- `restore_trap_handler` -/
def restoreTrapHandler (handler : TrapHandler) : List Instr :=
  [.core (.li t1 (.symbol "trap_entry" 0)), .csrw handler.tvec t1]

/-- `m_mode_paging_return` -/
def mModePagingReturn (handler : TrapHandler) : Bool :=
  handler.delegMode = .machine ∧ handler.pagingDisabled = false ∧ handler.privMachine

/-- `xret_code`; `mret`, `sret` and `jr t0` return. -/
def xretCode (handler : TrapHandler) : List Line :=
  if handler.mModePagingReturn then
    instrs [.csrr t0 "mstatus", .alui .srli t1 t0 11, .alui .andi t1 t1 3, .li t2 3] ++
      .branch .ne t1 t2 .normalMret ::
    instrs [
      -- MIE from MPIE
      .alui .srli t1 t0 4, .alui .andi t1 t1 8, .li t2 8, .csr .clear 0 "mstatus" (.reg t2), .csr .set 0 "mstatus" (.reg t1),
      -- MPIE
      .li t0 (2 ^ 7), .csr .set 0 "mstatus" (.reg t0),
      -- MPP and MPRV
      .li t0 (3 * 2 ^ 11), .csr .clear 0 "mstatus" (.reg t0), .li t0 (2 ^ 17 + 2 ^ 11), .csr .set 0 "mstatus" (.reg t0),
      .csrr t0 "mepc"] ++
    [.jump .returned, .label .normalMret, .jump .returned]
  else [.jump .returned]

/-- `trap_exit`, behind the hook. -/
def trapExit (handler : TrapHandler) : Except VariableFault (List Line) := do
  let restore ← restoreGprs handler.scratchReg
  .ok (instrs (handler.restoreTrapHandler ++ restore) ++ handler.xretCode)

end TrapHandler

/-! ### Saving -/

/-- The slot of a register. -/
def slot (r : Reg) : ℤ := (128 + 8 * r.val : ℕ)

/-- `x5` to `x31`. -/
def upperRegs : List Reg := (List.range' 5 27).map (Fin.ofNat 32)

theorem slotsApart_slot : SlotsApart slot := slotsApart_consecutive 128

theorem saveGprs_eq (scratchReg : String) : saveGprs scratchReg =
    .ok (.sd 1 (slot 1) tp :: .csrr 1 scratchReg :: .sd 1 (slot 4) tp :: storeAll tp slot ([2, 3] ++ upperRegs)) := rfl

theorem restoreGprs_eq (scratchReg : String) : restoreGprs scratchReg =
    .ok (loadAll tp slot ([2, 3] ++ upperRegs) ++ [.ld 1 (slot 4) tp, .csrw scratchReg 1, .ld 1 (slot 1) tp,
      .csr .write tp scratchReg (.reg tp)]) := rfl

/-- Every register is one of those that the code handles. -/
theorem reg_cases (r : Reg) : r = 0 ∨ r = 1 ∨ r = tp ∨ r ∈ [2, 3] ++ upperRegs := by
  revert r
  decide

variable {σ : Type} {file : CsrFile σ String 64} {symbols : String → BitVec 64} {handler : TrapHandler} {h : Hart 64 σ}

/-- The scratch register holds what is written, and the handler's writes leave the other CSRs that it reads. -/
structure CsrLaws (file : CsrFile σ String 64) (handler : TrapHandler) : Prop where
  scratch : ∀ csrs value, file.read (file.write csrs handler.scratchReg value) handler.scratchReg = value
  other : ∀ csrs, ∀ name ∈ [handler.tvec, handler.scratchReg, "mstatus"], ∀ value,
    ∀ other ∈ [handler.scratchReg, "mstatus", "mepc"], other ≠ name →
      file.read (file.write csrs name value) other = file.read csrs other

/-- The instructions of `save_context`. -/
def TrapHandler.saveCode (handler : TrapHandler) : List Instr :=
  .csr .write tp handler.scratchReg (.reg tp) :: .sd 1 (slot 1) tp :: .csrr 1 handler.scratchReg :: .sd 1 (slot 4) tp ::
    (storeAll tp slot ([2, 3] ++ upperRegs) ++ [.core (.li t0 (.symbol "trap_panic" 0)), .csrw handler.tvec t0])

theorem saveContext_eq (handler : TrapHandler) : handler.saveContext = .ok handler.saveCode := by
  rw [TrapHandler.saveContext, saveGprs_eq]
  rfl

theorem scratchReg_ne_tvec (handler : TrapHandler) : handler.scratchReg ≠ handler.tvec := by
  unfold TrapHandler.scratchReg TrapHandler.tvec TrapHandler.prefixed
  cases handler.delegMode <;> decide

/-- What `save_context` leaves: the pointer to the context, the thread pointer in the scratch register, and every register in
its slot. -/
structure Saved (file : CsrFile σ String 64) (handler : TrapHandler) (value : Reg → BitVec 64) (context : BitVec 64)
    (h : Hart 64 σ) : Prop where
  pointer : h.get tp = context
  scratch : file.read h.csrs handler.scratchReg = value tp
  slots : ∀ r, r ≠ 0 → h.slotValue context slot r = value r

theorem run_saveCode (hlaws : CsrLaws file handler) (symbols : String → BitVec 64) (h : Hart 64 σ) :
    ∃ h', runStraight file symbols handler.saveCode h = some h' ∧
      Saved file handler h.get (file.read h.csrs handler.scratchReg) h' := by
  let context := file.read h.csrs handler.scratchReg
  let h₁ := ({ h with csrs := file.write h.csrs handler.scratchReg (h.get tp) } : Hart 64 σ).set tp context
  have hswap : step file symbols h (.csr .write tp handler.scratchReg (.reg tp)) = some h₁ := rfl
  have htp : h₁.get tp = context := Hart.get_set_self _ (by decide) _
  have hother : ∀ r, r ≠ tp → h₁.get r = h.get r := fun r hr => Hart.get_set_of_ne _ hr _
  obtain ⟨h₂, hra, hslot₁, hcsrs₂, hget₂, -⟩ := step_store_slot file symbols slotsApart_slot h₁ tp 1 1
  let h₃ := h₂.set 1 (file.read h₂.csrs handler.scratchReg)
  have hread : step file symbols h₂ (.csrr 1 handler.scratchReg) = some h₃ := rfl
  have hthread : h₃.get 1 = h.get tp := by
    rw [Hart.get_set_self _ (by decide), hcsrs₂]
    exact hlaws.scratch _ _
  have htp₃ : h₃.get tp = context := (Hart.get_set_of_ne _ (by decide) _).trans ((hget₂ tp).trans htp)
  obtain ⟨h₄, hpointer, hslot₄, hcsrs₄, hget₄, hkept₄⟩ := step_store_slot file symbols slotsApart_slot h₃ tp 1 4
  obtain ⟨h₅, hrest, hcsrs₅, hget₅, hfilled, hkept₅⟩ := run_storeAll file symbols slotsApart_slot tp ([2, 3] ++ upperRegs) h₄
  let h₆ := h₅.set t0 (Machine.Operand.eval symbols (.symbol "trap_panic" 0))
  let h₇ := ({ h₆ with csrs := file.write h₆.csrs handler.tvec (h₆.get t0) } : Hart 64 σ).set 0 (file.read h₆.csrs handler.tvec)
  have hla : step file symbols h₅ (.core (.li t0 (.symbol "trap_panic" 0))) = some h₆ := rfl
  have htvec : step file symbols h₆ (.csrw handler.tvec t0) = some h₇ := rfl
  have hmem : h₇.core.mem = h₅.core.mem := (Hart.mem_set _ _ _).trans (Hart.mem_set _ _ _)
  have hslots : ∀ r, h₇.slotValue context slot r = h₅.slotValue context slot r := fun r => by
    rw [Hart.slotValue, Hart.slotValue, hmem]
  have htp₄ : h₄.get tp = context := (hget₄ tp).trans htp₃
  rw [htp₄] at hfilled hkept₅
  rw [htp₃] at hslot₄ hkept₄
  rw [htp] at hslot₁
  refine ⟨h₇, ?_, ?_, ?_, fun r hr => (hslots r).trans ?_⟩
  · rw [TrapHandler.saveCode, runStraight_cons hswap, runStraight_cons hra, runStraight_cons hread, runStraight_cons hpointer,
      runStraight_append hrest, runStraight_cons hla, runStraight_cons htvec, runStraight_nil]
  · calc h₇.get tp = h₆.get tp := Hart.get_set_of_ne _ (by decide) _
      _ = h₅.get tp := Hart.get_set_of_ne _ (by decide) _
      _ = context := (hget₅ tp).trans htp₄
  · calc file.read (file.write h₅.csrs handler.tvec _) handler.scratchReg
        = file.read h₅.csrs handler.scratchReg :=
          hlaws.other _ _ List.mem_cons_self _ _ List.mem_cons_self (scratchReg_ne_tvec handler)
      _ = h.get tp := by
          rw [hcsrs₅, hcsrs₄, Hart.csrs_set, hcsrs₂]
          exact hlaws.scratch _ _
  · rcases reg_cases r with rfl | rfl | rfl | hrest
    · exact absurd rfl hr
    · calc h₅.slotValue context slot 1 = h₄.slotValue context slot 1 := hkept₅ 1 (by decide)
        _ = h₃.slotValue context slot 1 := hkept₄ 1 (by decide)
        _ = h₂.slotValue context slot 1 := congrArg (Machine.readBytes · 8 (slotAddr context slot 1)) (Hart.mem_set _ _ _)
        _ = h.get 1 := hslot₁.trans (hother 1 (by decide))
    · exact (hkept₅ tp (by decide)).trans (hslot₄.trans hthread)
    · have hne : r ≠ 1 ∧ r ≠ tp := by
        constructor <;> rintro rfl <;> exact absurd hrest (by decide)
      calc h₅.slotValue context slot r = h₄.get r := hfilled r hrest
        _ = h₃.get r := hget₄ r
        _ = h₂.get r := Hart.get_set_of_ne _ hne.1 _
        _ = h.get r := (hget₂ r).trans (hother r hne.2)

/-! ### The entry -/

/-- The cause of the trap. -/
def TrapHandler.cause (handler : TrapHandler) (file : CsrFile σ String 64) (h : Hart 64 σ) : BitVec 64 :=
  file.read h.csrs handler.xcause

/-- The last cause that the dispatch compares with, zero when there is none. -/
def TrapHandler.compared (handler : TrapHandler) : BitVec 64 :=
  (handler.overrides.map fun entry => BitVec.ofInt 64 entry.1).getLastD 0

/-- The registers when they are saved: the entry has used `t0` and `t1`. -/
def TrapHandler.trapped (handler : TrapHandler) (file : CsrFile σ String 64) (h : Hart 64 σ) (r : Reg) : BitVec 64 :=
  if r = t0 then handler.cause file h else if r = t1 then handler.compared else h.get r

/-- An exception that no override handles. -/
structure Exception (file : CsrFile σ String 64) (handler : TrapHandler) (h : Hart 64 σ) : Prop where
  msb : (handler.cause file h).msb = false
  handled : ∀ entry ∈ handler.overrides, handler.cause file h ≠ BitVec.ofInt 64 entry.1

/-- The dispatch falls through. -/
theorem exits_dispatch {code rest : List Line} {entries : List (ℕ × String)}
    (hne : ∀ entry ∈ entries, h.get t0 ≠ BitVec.ofInt 64 entry.1) :
    ∃ h', (∀ exit out, Exits file symbols code ((entries.flatMap fun entry =>
        [.instr (.li t1 entry.1), .branch .eq t0 t1 (.override entry.2)]) ++ rest) h exit out ↔
      Exits file symbols code rest h' exit out) ∧ h'.csrs = h.csrs ∧ (∀ r, r ≠ t1 → h'.get r = h.get r) ∧
      h'.get t1 = (entries.map fun entry => BitVec.ofInt 64 entry.1).getLastD (h.get t1) := by
  induction entries generalizing h with
  | nil => exact ⟨h, fun _ _ => Iff.rfl, rfl, fun _ _ => rfl, rfl⟩
  | cons entry entries ih =>
      obtain ⟨hfirst, hrest⟩ := List.forall_mem_cons.mp hne
      let h₁ := h.set t1 (BitVec.ofInt 64 (entry.1 : ℤ))
      have hli : step file symbols h (.li t1 entry.1) = some h₁ := rfl
      have ht0 : h₁.get t0 = h.get t0 := Hart.get_set_of_ne h (by decide) _
      have ht1 : h₁.get t1 = BitVec.ofInt 64 (entry.1 : ℤ) := Hart.get_set_self h (by decide) _
      have hcond : Cond.holds (h₁.get t0) (h₁.get t1) .eq = false := by
        rw [ht0, ht1]
        exact decide_eq_false hfirst
      obtain ⟨h', hexits, hcsrs, hget, hlast⟩ := @ih h₁ fun other hother heq => hrest other hother (ht0.symm.trans heq)
      refine ⟨h', fun exit out => ?_, hcsrs, fun r hr => (hget r hr).trans (Hart.get_set_of_ne h hr _), ?_⟩
      · exact (exits_instr hli).trans ((exits_not_branch hcond).trans (hexits exit out))
      · rw [hlast, ht1, List.map_cons, List.getLastD_cons]

/-- The interrupt bit of an exception is clear. -/
theorem interruptBit_eq_zero {cause : BitVec 64} (hmsb : cause.msb = false) : BitVec.ofInt 64 (2 ^ 63) &&& cause = 0 := by
  rw [BitVec.msb_eq_getLsbD_last] at hmsb
  rw [show BitVec.ofInt 64 (2 ^ 63) = BitVec.twoPow 64 63 by decide, BitVec.twoPow_and, if_neg]
  · rfl
  · exact Bool.eq_false_iff.mp hmsb

theorem label_notMem_instrs (l : Label) (code : List Instr) : .label l ∉ instrs code := by
  intro hmem
  obtain ⟨instr, -, heq⟩ := List.mem_map.mp hmem
  cases heq

theorem label_notMem_excpDispatch (l : Label) (handler : TrapHandler) : .label l ∉ handler.excpDispatch := by
  intro hmem
  obtain ⟨entry, -, heq⟩ := List.mem_flatMap.mp hmem
  rcases List.mem_pair.mp heq with h | h <;> cases h

theorem InterruptPath.label_notMem (path : InterruptPath) {l : Label} (hl : ∀ name, l ≠ .interrupt name) :
    .label l ∉ path.lines := fun hmem => by
  obtain ⟨name, heq⟩ := path.own l hmem
  exact hl name heq

/-- The entry saves the registers as it has left them. -/
theorem enters (hlaws : CsrLaws file handler) (symbols : String → BitVec 64) (hexception : Exception file handler h)
    {interruptPath : InterruptPath} {lines : List Line} (hlines : handler.defaultTrapHandler interruptPath = .ok lines) :
    ∃ h', (∀ exit out, Exits file symbols lines lines h exit out ↔ exit = .to .excpEntry ∧ out = h') ∧
      Saved file handler (handler.trapped file h) (file.read h.csrs handler.scratchReg) h' := by
  rw [TrapHandler.defaultTrapHandler, saveContext_eq] at hlines
  let cause := handler.cause file h
  let h₁ := h.set t0 cause
  let h₂ := h₁.set t1 (BitVec.ofInt 64 (2 ^ 63))
  let h₃ := h₂.set t1 (h₂.get t1 &&& h₂.get t0)
  have hcause : step file symbols h (.csrr t0 handler.xcause) = some h₁ := rfl
  have hbit : step file symbols h₁ (.li t1 (2 ^ 63)) = some h₂ := rfl
  have hand : step file symbols h₂ (.alu .and t1 t1 t0) = some h₃ := rfl
  have ht0 : h₃.get t0 = cause := calc
    h₃.get t0 = h₂.get t0 := Hart.get_set_of_ne _ (by decide) _
    _ = h₁.get t0 := Hart.get_set_of_ne _ (by decide) _
    _ = cause := Hart.get_set_self _ (by decide) _
  have ht1 : h₃.get t1 = 0 := by
    rw [Hart.get_set_self _ (by decide), Hart.get_set_self _ (by decide), Hart.get_set_of_ne _ (by decide),
      Hart.get_set_self _ (by decide)]
    exact interruptBit_eq_zero hexception.msb
  have hother : ∀ r, r ≠ t0 → r ≠ t1 → h₃.get r = h.get r := fun r hr₀ hr₁ => calc
    h₃.get r = h₂.get r := Hart.get_set_of_ne _ hr₁ _
    _ = h₁.get r := Hart.get_set_of_ne _ hr₁ _
    _ = h.get r := Hart.get_set_of_ne _ hr₀ _
  have htaken : Cond.holds (h₃.get t1) (h₃.get 0) .eq = true := by
    rw [ht1, Hart.get_zero]
    rfl
  let test : List Instr := [.csrr t0 handler.xcause, .li t1 (2 ^ 63), .alu .and t1 t1 t0]
  let back : List Line := instrs handler.saveCode ++ [.jump .excpEntry]
  have hcode : lines = instrs test ++ (.branch .eq t1 0 .exceptionPath :: (interruptPath.lines ++
      .label .exceptionPath :: (handler.excpDispatch ++ back))) := by
    rw [← Except.ok.inj hlines]
    simp only [back, test, List.append_assoc, List.cons_append]
  have hpath : linesAt .exceptionPath lines = some (handler.excpDispatch ++ back) := by
    rw [hcode, linesAt_instrs]
    exact linesAt_append_label (linesAt_eq_none (interruptPath.label_notMem fun _ => Label.noConfusion)) _
  have hout : linesAt .excpEntry lines = none := by
    refine linesAt_eq_none ?_
    rw [hcode]
    simp only [back, List.mem_append, List.mem_cons, List.not_mem_nil, or_false, not_or, reduceCtorEq, Line.label.injEq,
      not_false_eq_true, true_and]
    exact ⟨label_notMem_instrs _ _, interruptPath.label_notMem fun _ => Label.noConfusion,
      label_notMem_excpDispatch _ _, label_notMem_instrs _ _⟩
  obtain ⟨h₄, hdispatch, hcsrs, hget, hlast⟩ := @exits_dispatch _ file symbols h₃ lines back handler.overrides
    fun entry hentry => ht0 ▸ hexception.handled entry hentry
  obtain ⟨h₅, hsave, hsaved⟩ := run_saveCode hlaws symbols h₄
  have hvalue : h₄.get = handler.trapped file h := by
    funext r
    unfold TrapHandler.trapped
    split_ifs with hr₀ hr₁
    · rw [hr₀, hget t0 (by decide), ht0]
    · rw [hr₁, hlast, ht1]
      rfl
    · rw [hget r hr₁, hother r hr₀ hr₁]
  refine ⟨h₅, fun exit out => ?_, ?_⟩
  · have hstraight : runStraight file symbols test h = some h₃ := by
      rw [runStraight_cons hcause, runStraight_cons hbit, runStraight_cons hand, runStraight_nil]
    have hstart : Exits file symbols lines (instrs test ++ (.branch .eq t1 0 .exceptionPath :: (interruptPath.lines ++
        .label .exceptionPath :: (handler.excpDispatch ++ back)))) h exit out ↔
        Exits file symbols lines (handler.excpDispatch ++ back) h₃ exit out :=
      (exits_straight hstraight).trans (exits_branch htaken hpath)
    rw [← hcode] at hstart
    exact hstart.trans ((hdispatch exit out).trans ((exits_straight hsave).trans (exits_jump_out hout)))
  · rw [← hvalue]
    have hscratch : file.read h₄.csrs handler.scratchReg = file.read h.csrs handler.scratchReg := by rw [hcsrs]; rfl
    exact hscratch ▸ hsaved

/-! ### The exit -/

/-- A body may change the registers, but for the thread pointer, and leaves the saved context. -/
structure BodyKeeps (file : CsrFile σ String 64) (handler : TrapHandler) (h h' : Hart 64 σ) : Prop where
  pointer : h'.get tp = h.get tp
  scratch : file.read h'.csrs handler.scratchReg = file.read h.csrs handler.scratchReg
  slots : ∀ r, h'.slotValue (h.get tp) slot r = h.slotValue (h.get tp) slot r

theorem Saved.body {value : Reg → BitVec 64} {context : BitVec 64} {h' : Hart 64 σ} (hsaved : Saved file handler value context h)
    (hbody : BodyKeeps file handler h h') : Saved file handler value context h' where
  pointer := hbody.pointer.trans hsaved.pointer
  scratch := hbody.scratch.trans hsaved.scratch
  slots r hr := by rw [← hsaved.slots r hr, ← hsaved.pointer, hbody.slots r]

/-- The instructions of `restore_gprs`. -/
def restoreCode (scratchReg : String) : List Instr :=
  loadAll tp slot ([2, 3] ++ upperRegs) ++ [.ld 1 (slot 4) tp, .csrw scratchReg 1, .ld 1 (slot 1) tp,
    .csr .write tp scratchReg (.reg tp)]

theorem name_ne (handler : TrapHandler) : ∀ name ∈ [handler.tvec, handler.scratchReg],
    ∀ other ∈ ["mstatus", "mepc"], other ≠ name := by
  unfold TrapHandler.scratchReg TrapHandler.tvec TrapHandler.prefixed
  cases handler.delegMode <;> decide

/-- The writes of the exit to other CSRs leave `mstatus` and `mepc`. -/
theorem read_after (hlaws : CsrLaws file handler) {other : String} (hother : other ∈ ["mstatus", "mepc"]) {name : String}
    (hname : name ∈ [handler.tvec, handler.scratchReg]) (csrs : σ) (value : BitVec 64) :
    file.read (file.write csrs name value) other = file.read csrs other :=
  hlaws.other csrs name (List.mem_append_left ["mstatus"] hname) value other (List.mem_cons_of_mem _ hother)
    (name_ne handler name hname other hother)

/-- Every register has the value that was saved. -/
theorem run_restoreCode (hlaws : CsrLaws file handler) (symbols : String → BitVec 64) {value : Reg → BitVec 64}
    {context : BitVec 64} (hsaved : Saved file handler value context h) :
    ∃ h', runStraight file symbols (handler.restoreTrapHandler ++ restoreCode handler.scratchReg) h = some h' ∧
      (∀ r, r ≠ 0 → h'.get r = value r) ∧
      ∀ other ∈ ["mstatus", "mepc"], file.read h'.csrs other = file.read h.csrs other := by
  let h₁ := h.set t1 (Machine.Operand.eval symbols (.symbol "trap_entry" 0))
  let h₂ := ({ h₁ with csrs := file.write h₁.csrs handler.tvec (h₁.get t1) } : Hart 64 σ).set 0 (file.read h₁.csrs handler.tvec)
  have hla : step file symbols h (.core (.li t1 (.symbol "trap_entry" 0))) = some h₁ := rfl
  have htvec : step file symbols h₁ (.csrw handler.tvec t1) = some h₂ := rfl
  have htp₂ : h₂.get tp = context := calc
    h₂.get tp = h₁.get tp := Hart.get_set_of_ne _ (by decide) _
    _ = h.get tp := Hart.get_set_of_ne _ (by decide) _
    _ = context := hsaved.pointer
  have hmem₂ : h₂.core.mem = h.core.mem := (Hart.mem_set _ _ _).trans (Hart.mem_set _ _ _)
  obtain ⟨h₃, hloads, hcsrs₃, hmem₃, hloaded, hkept₃⟩ :=
    @run_loadAll _ _ _ slot file symbols tp ([2, 3] ++ upperRegs) (by decide) (by decide) h₂
  obtain ⟨h₄, hthread, hget₄, hmem₄, hcsrs₄, hkept₄⟩ := step_ld file symbols h₃ (by decide : (1 : Reg) ≠ 0) (slot 4) tp
  let h₅ := ({ h₄ with csrs := file.write h₄.csrs handler.scratchReg (h₄.get 1) } : Hart 64 σ).set 0
    (file.read h₄.csrs handler.scratchReg)
  have hscratch : step file symbols h₄ (.csrw handler.scratchReg 1) = some h₅ := rfl
  obtain ⟨h₆, hra, hget₆, hmem₆, hcsrs₆, hkept₆⟩ := step_ld file symbols h₅ (by decide : (1 : Reg) ≠ 0) (slot 1) tp
  let h₇ := ({ h₆ with csrs := file.write h₆.csrs handler.scratchReg (h₆.get tp) } : Hart 64 σ).set tp
    (file.read h₆.csrs handler.scratchReg)
  have hswap : step file symbols h₆ (.csr .write tp handler.scratchReg (.reg tp)) = some h₇ := rfl
  have hmem₅ : h₅.core.mem = h₄.core.mem := Hart.mem_set _ _ _
  have hget₅ : ∀ r, h₅.get r = h₄.get r := fun r => congrFun (congrArg Hart.get (Hart.set_zero _ _)) r
  have htp₃ : h₃.get tp = context := (hkept₃ tp (by decide)).trans htp₂
  have htp₅ : h₅.get tp = context := (hget₅ tp).trans ((hkept₄ tp (by decide)).trans htp₃)
  refine ⟨h₇, ?_, fun r hr => ?_, fun other hother => ?_⟩
  · rw [TrapHandler.restoreTrapHandler, restoreCode, List.cons_append, runStraight_cons hla, List.cons_append,
      runStraight_cons htvec, List.nil_append, runStraight_append hloads, runStraight_cons hthread, runStraight_cons hscratch,
      runStraight_cons hra, runStraight_cons hswap, runStraight_nil]
  · rcases reg_cases r with rfl | rfl | rfl | hrest
    · exact absurd rfl hr
    · calc h₇.get 1 = h₆.get 1 := Hart.get_set_of_ne _ (by decide) _
        _ = h.slotValue context slot 1 := by
            rw [hget₆, htp₅, hmem₅, hmem₄, hmem₃, hmem₂]
            rfl
        _ = value 1 := hsaved.slots 1 (by decide)
    · calc h₇.get tp = file.read h₆.csrs handler.scratchReg := Hart.get_set_self _ (by decide) _
        _ = h₄.get 1 := by
            rw [hcsrs₆]
            exact hlaws.scratch _ _
        _ = h.slotValue context slot tp := by
            rw [hget₄, htp₃, hmem₃, hmem₂]
            rfl
        _ = value tp := hsaved.slots tp (by decide)
    · have hne : r ≠ 1 ∧ r ≠ tp := by
        constructor <;> rintro rfl <;> exact absurd hrest (by decide)
      calc h₇.get r = h₆.get r := Hart.get_set_of_ne _ hne.2 _
        _ = h₄.get r := (hkept₆ r hne.1).trans (hget₅ r)
        _ = h₃.get r := hkept₄ r hne.1
        _ = h.slotValue context slot r := by
            rw [hloaded r hrest, htp₂, Hart.slotValue, hmem₂]
            rfl
        _ = value r := hsaved.slots r hr
  · have hscratchMem : handler.scratchReg ∈ [handler.tvec, handler.scratchReg] := List.mem_cons_of_mem _ List.mem_cons_self
    calc file.read h₇.csrs other = file.read h₆.csrs other := read_after hlaws hother hscratchMem _ _
      _ = file.read h₄.csrs other := by
          rw [hcsrs₆]
          exact read_after hlaws hother hscratchMem _ _
      _ = file.read h₁.csrs other := by
          rw [hcsrs₄, hcsrs₃]
          exact read_after hlaws hother List.mem_cons_self _ _
      _ = file.read h.csrs other := rfl

/-- The registers after the return: the return to machine mode with paging has used three of them. -/
def TrapHandler.returned (handler : TrapHandler) (file : CsrFile σ String 64) (csrs : σ) (value : Reg → BitVec 64) (r : Reg) :
    BitVec 64 :=
  if handler.mModePagingReturn then
    let status := file.read csrs "mstatus"
    let mpp := status >>> 11 &&& 3
    let left : BitVec 64 × BitVec 64 × BitVec 64 :=
      if mpp = 3 then (file.read csrs "mepc", status >>> 4 &&& 8, 8) else (status, mpp, 3)
    if r = t0 then left.1 else if r = t1 then left.2.1 else if r = t2 then left.2.2 else value r
  else value r

/-- Code that writes `mstatus` from constants uses `t0`. -/
theorem run_status (hlaws : CsrLaws file handler) (symbols : String → BitVec 64) {code : List Instr}
    (hcode : ∀ instr ∈ code, (∃ value, instr = .li t0 value) ∨ ∃ op source, instr = .csr op 0 "mstatus" source) (h : Hart 64 σ) :
    ∃ h', runStraight file symbols code h = some h' ∧ (∀ r, r ≠ t0 → h'.get r = h.get r) ∧
      file.read h'.csrs "mepc" = file.read h.csrs "mepc" := by
  induction code generalizing h with
  | nil => exact ⟨h, rfl, fun _ _ => rfl, rfl⟩
  | cons instr code ih =>
      obtain ⟨hinstr, hrest⟩ := List.forall_mem_cons.mp hcode
      rcases hinstr with ⟨value, rfl⟩ | ⟨op, source, rfl⟩
      · obtain ⟨h', hrun, hget, hmepc⟩ := ih hrest (h.set t0 (BitVec.ofInt 64 value))
        have hli : step file symbols h (.li t0 value) = some (h.set t0 (BitVec.ofInt 64 value)) := rfl
        exact ⟨h', (runStraight_cons hli _).trans hrun, fun r hr => (hget r hr).trans (Hart.get_set_of_ne h hr _), hmepc⟩
      · obtain ⟨h₁, hstep, hget₁, hcsrs⟩ := step_csr_discard file symbols h op "mstatus" source
        obtain ⟨h', hrun, hget, hmepc⟩ := ih hrest h₁
        refine ⟨h', (runStraight_cons hstep _).trans hrun, fun r hr => (hget r hr).trans (hget₁ r), hmepc.trans ?_⟩
        rcases hcsrs with hsame | ⟨value, hwrite⟩
        · rw [hsame]
        · rw [hwrite]
          exact hlaws.other _ _ (by simp) _ _ (by simp) (by decide)

/-- The lines of the return that emulates `mret`. -/
def manualCode : List Instr :=
  [.csr .clear 0 "mstatus" (.reg t2), .csr .set 0 "mstatus" (.reg t1), .li t0 (2 ^ 7), .csr .set 0 "mstatus" (.reg t0),
    .li t0 (3 * 2 ^ 11), .csr .clear 0 "mstatus" (.reg t0), .li t0 (2 ^ 17 + 2 ^ 11), .csr .set 0 "mstatus" (.reg t0)]

theorem manualCode_status : ∀ instr ∈ manualCode,
    (∃ value, instr = .li t0 value) ∨ ∃ op source, instr = .csr op 0 "mstatus" source := by
  intro instr hinstr
  simp only [manualCode, List.mem_cons, List.not_mem_nil, or_false] at hinstr
  rcases hinstr with rfl | rfl | rfl | rfl | rfl | rfl | rfl | rfl
  · exact .inr ⟨_, _, rfl⟩
  · exact .inr ⟨_, _, rfl⟩
  · exact .inl ⟨_, rfl⟩
  · exact .inr ⟨_, _, rfl⟩
  · exact .inl ⟨_, rfl⟩
  · exact .inr ⟨_, _, rfl⟩
  · exact .inl ⟨_, rfl⟩
  · exact .inr ⟨_, _, rfl⟩

/-- The return ends with these registers. -/
theorem exits_xretCode (hlaws : CsrLaws file handler) (symbols : String → BitVec 64) (h : Hart 64 σ) {code : List Line}
    (hmret : handler.mModePagingReturn = true → linesAt .normalMret code = some [.jump .returned])
    (hreturned : linesAt .returned code = none) :
    ∃ h', (∀ exit out, Exits file symbols code handler.xretCode h exit out ↔ exit = .to .returned ∧ out = h') ∧
      ∀ r, h'.get r = handler.returned file h.csrs h.get r := by
  cases hpaging : handler.mModePagingReturn with
  | false =>
      refine ⟨h, fun exit out => ?_, fun r => ?_⟩
      · rw [TrapHandler.xretCode, hpaging]
        exact exits_jump_out hreturned
      · rw [TrapHandler.returned, hpaging]
        rfl
  | true =>
      let status := file.read h.csrs "mstatus"
      let h₁ := h.set t0 status
      let h₂ := h₁.set t1 (h₁.get t0 >>> 11)
      let h₃ := h₂.set t1 (h₂.get t1 &&& 3)
      let h₄ := h₃.set t2 3
      have hstatus : step file symbols h (.csrr t0 "mstatus") = some h₁ := rfl
      have hshift : step file symbols h₁ (.alui .srli t1 t0 11) = some h₂ := rfl
      have hmask : step file symbols h₂ (.alui .andi t1 t1 3) = some h₃ := rfl
      have hthree : step file symbols h₃ (.li t2 3) = some h₄ := rfl
      have hfront : runStraight file symbols [.csrr t0 "mstatus", .alui .srli t1 t0 11, .alui .andi t1 t1 3, .li t2 3] h =
          some h₄ := by
        rw [runStraight_cons hstatus, runStraight_cons hshift, runStraight_cons hmask, runStraight_cons hthree, runStraight_nil]
      have ht0 : h₄.get t0 = status := rfl
      have ht1 : h₄.get t1 = status >>> 11 &&& 3 := rfl
      have ht2 : h₄.get t2 = 3 := rfl
      have hother : ∀ r, r ≠ t0 → r ≠ t1 → r ≠ t2 → h₄.get r = h.get r := fun r hr₀ hr₁ hr₂ => by
        rw [Hart.get_set_of_ne _ hr₂, Hart.get_set_of_ne _ hr₁, Hart.get_set_of_ne _ hr₁, Hart.get_set_of_ne _ hr₀]
      let h₅ := h₄.set t1 (h₄.get t0 >>> 4)
      let h₆ := h₅.set t1 (h₅.get t1 &&& 8)
      let h₇ := h₆.set t2 8
      have hshift₅ : step file symbols h₄ (.alui .srli t1 t0 4) = some h₅ := rfl
      have hmask₆ : step file symbols h₅ (.alui .andi t1 t1 8) = some h₆ := rfl
      have height : step file symbols h₆ (.li t2 8) = some h₇ := rfl
      obtain ⟨h₈, hmanual, hget₈, hmepc⟩ := run_status hlaws symbols manualCode_status h₇
      let h₉ := h₈.set t0 (file.read h₈.csrs "mepc")
      have hlast : step file symbols h₈ (.csrr t0 "mepc") = some h₉ := rfl
      let manual : List Instr :=
        .alui .srli t1 t0 4 :: .alui .andi t1 t1 8 :: .li t2 8 :: (manualCode ++ [.csrr t0 "mepc"])
      have hback : runStraight file symbols manual h₄ = some h₉ := by
        rw [runStraight_cons hshift₅, runStraight_cons hmask₆, runStraight_cons height, runStraight_append hmanual,
          runStraight_cons hlast, runStraight_nil]
      have hcode : handler.xretCode =
          instrs [.csrr t0 "mstatus", .alui .srli t1 t0 11, .alui .andi t1 t1 3, .li t2 3] ++
            (.branch .ne t1 t2 .normalMret :: (instrs manual ++ [.jump .returned, .label .normalMret, .jump .returned])) := by
        rw [TrapHandler.xretCode, hpaging]
        rfl
      have hleft : ∀ r, handler.returned file h.csrs h.get r =
          let left : BitVec 64 × BitVec 64 × BitVec 64 :=
            if status >>> 11 &&& 3 = 3 then (file.read h.csrs "mepc", status >>> 4 &&& 8, 8)
            else (status, status >>> 11 &&& 3, 3)
          if r = t0 then left.1 else if r = t1 then left.2.1 else if r = t2 then left.2.2 else h.get r := fun r => by
        rw [TrapHandler.returned, hpaging]
        rfl
      by_cases hmachine : status >>> 11 &&& 3 = 3
      · have hcond : Cond.holds (h₄.get t1) (h₄.get t2) .ne = false := by
          rw [ht1, ht2]
          exact decide_eq_false fun hne => hne hmachine
        refine ⟨h₉, fun exit out => ?_, fun r => ?_⟩
        · rw [hcode]
          exact (exits_straight hfront).trans ((exits_not_branch hcond).trans
            ((exits_straight hback).trans (exits_jump_out hreturned)))
        · rw [hleft, if_pos hmachine]
          split_ifs with hr₀ hr₁ hr₂
          · rw [hr₀]
            exact (Hart.get_set_self _ (by decide) _).trans hmepc
          · rw [hr₁]
            exact (Hart.get_set_of_ne _ (by decide) _).trans (hget₈ t1 (by decide))
          · rw [hr₂]
            exact (Hart.get_set_of_ne _ (by decide) _).trans (hget₈ t2 (by decide))
          · calc h₉.get r = h₈.get r := Hart.get_set_of_ne _ hr₀ _
              _ = h₇.get r := hget₈ r hr₀
              _ = h₆.get r := Hart.get_set_of_ne _ hr₂ _
              _ = h₅.get r := Hart.get_set_of_ne _ hr₁ _
              _ = h₄.get r := Hart.get_set_of_ne _ hr₁ _
              _ = h.get r := hother r hr₀ hr₁ hr₂
      · have hcond : Cond.holds (h₄.get t1) (h₄.get t2) .ne = true := by
          rw [ht1, ht2]
          exact decide_eq_true hmachine
        refine ⟨h₄, fun exit out => ?_, fun r => ?_⟩
        · rw [hcode]
          exact (exits_straight hfront).trans ((exits_branch hcond (hmret hpaging)).trans (exits_jump_out hreturned))
        · rw [hleft, if_neg hmachine]
          split_ifs with hr₀ hr₁ hr₂
          · rw [hr₀, ht0]
          · rw [hr₁, ht1]
          · rw [hr₂, ht2]
          · exact hother r hr₀ hr₁ hr₂

theorem label_notMem_xretCode (handler : TrapHandler) : .label Label.returned ∉ handler.xretCode := by
  unfold TrapHandler.xretCode
  split_ifs
  · simp [instrs]
  · simp

/-- The exit returns with these registers. -/
theorem returns (hlaws : CsrLaws file handler) (symbols : String → BitVec 64) {value : Reg → BitVec 64} {context : BitVec 64}
    (hsaved : Saved file handler value context h) {lines : List Line} (hlines : handler.trapExit = .ok lines) :
    ∃ h', (∀ exit out, Exits file symbols lines lines h exit out ↔ exit = .to .returned ∧ out = h') ∧
      ∀ r, r ≠ 0 → h'.get r = handler.returned file h.csrs value r := by
  rw [TrapHandler.trapExit, restoreGprs_eq] at hlines
  obtain rfl : instrs (handler.restoreTrapHandler ++ restoreCode handler.scratchReg) ++ handler.xretCode = lines :=
    Except.ok.inj hlines
  obtain ⟨h₁, hrestore, hget, hcsrs⟩ := run_restoreCode hlaws symbols hsaved
  have hreturned : linesAt .returned (instrs (handler.restoreTrapHandler ++ restoreCode handler.scratchReg) ++ handler.xretCode) =
      none := by
    rw [linesAt_instrs]
    exact linesAt_eq_none (label_notMem_xretCode handler)
  have hmret : handler.mModePagingReturn = true →
      linesAt .normalMret (instrs (handler.restoreTrapHandler ++ restoreCode handler.scratchReg) ++ handler.xretCode) =
        some [.jump .returned] := by
    intro hpaging
    rw [linesAt_instrs, TrapHandler.xretCode, if_pos hpaging]
    rfl
  obtain ⟨h₂, hexits, hleft⟩ := exits_xretCode hlaws symbols h₁ hmret hreturned
  refine ⟨h₂, fun exit out => (exits_straight hrestore).trans (hexits exit out), fun r hr => ?_⟩
  rw [hleft, TrapHandler.returned, TrapHandler.returned, hget r hr, hcsrs "mstatus" (by decide), hcsrs "mepc" (by decide)]

/-! ### Traps -/

/-- The entry of an exception, up to the code that handles it. -/
def Enters (file : CsrFile σ String 64) (symbols : String → BitVec 64) (handler : TrapHandler) (path : InterruptPath)
    (h h' : Hart 64 σ) : Prop :=
  ∃ lines, handler.defaultTrapHandler path = .ok lines ∧ Exits file symbols lines lines h (.to .excpEntry) h'

/-- `trap_exit`, up to the return. -/
def Returns (file : CsrFile σ String 64) (symbols : String → BitVec 64) (handler : TrapHandler) (h h' : Hart 64 σ) : Prop :=
  ∃ lines, handler.trapExit = .ok lines ∧ Exits file symbols lines lines h (.to .returned) h'

/-- A trap from the instant of the exception to the return, with a body in between. -/
structure Trap (file : CsrFile σ String 64) (symbols : String → BitVec 64) (handler : TrapHandler) (path : InterruptPath)
    (h entered left out : Hart 64 σ) : Prop where
  enters : Enters file symbols handler path h entered
  body : BodyKeeps file handler entered left
  returns : Returns file symbols handler left out

def GprsSurvive (h out : Hart 64 σ) : Prop := ∀ r, out.get r = h.get r

/-- The registers that the handler uses outside the saved part have the values that it leaves in them: `t0` and `t1` the cause and
what it was last compared with; after the return to machine mode with paging, `t0` to `t2` what the return computes. -/
def Undisturbed (file : CsrFile σ String 64) (handler : TrapHandler) (h : Hart 64 σ) (csrs : σ) : Prop :=
  if handler.mModePagingReturn then
    let status := file.read csrs "mstatus"
    let mpp := status >>> 11 &&& 3
    if mpp = 3 then h.get t0 = file.read csrs "mepc" ∧ h.get t1 = status >>> 4 &&& 8 ∧ h.get t2 = 8
    else h.get t0 = status ∧ h.get t1 = mpp ∧ h.get t2 = 3
  else h.get t0 = handler.cause file h ∧ h.get t1 = handler.compared

theorem trapped_of_ne {r : Reg} (hr₀ : r ≠ t0) (hr₁ : r ≠ t1) : handler.trapped file h r = h.get r := by
  rw [TrapHandler.trapped, if_neg hr₀, if_neg hr₁]

/-- The registers that are left are those at the trap. -/
theorem returned_trapped_iff (h : Hart 64 σ) (csrs : σ) :
    (∀ r, r ≠ 0 → handler.returned file csrs (handler.trapped file h) r = h.get r) ↔ Undisturbed file handler h csrs := by
  unfold TrapHandler.returned Undisturbed
  cases handler.mModePagingReturn with
  | false =>
      constructor
      · intro hall
        exact ⟨(hall t0 (by decide)).symm, (hall t1 (by decide)).symm⟩
      · rintro ⟨ht0, ht1⟩ r -
        show handler.trapped file h r = h.get r
        unfold TrapHandler.trapped
        split_ifs with hr₀ hr₁
        · rw [hr₀, ht0]
        · rw [hr₁, ht1]
        · rfl
  | true =>
      simp only [if_true]
      constructor
      · intro hall
        have ht0 := hall t0 (by decide)
        have ht1 := hall t1 (by decide)
        have ht2 := hall t2 (by decide)
        split_ifs with hmachine
        · rw [if_pos hmachine] at ht0 ht1 ht2
          exact ⟨ht0.symm, ht1.symm, ht2.symm⟩
        · rw [if_neg hmachine] at ht0 ht1 ht2
          exact ⟨ht0.symm, ht1.symm, ht2.symm⟩
      · intro hleft r _
        by_cases hmachine : file.read csrs "mstatus" >>> 11 &&& 3 = 3
        · rw [if_pos hmachine] at hleft ⊢
          split_ifs with hr₀ hr₁ hr₂
          · exact hr₀ ▸ hleft.1.symm
          · exact hr₁ ▸ hleft.2.1.symm
          · exact hr₂ ▸ hleft.2.2.symm
          · exact trapped_of_ne hr₀ hr₁
        · rw [if_neg hmachine] at hleft ⊢
          split_ifs with hr₀ hr₁ hr₂
          · exact hr₀ ▸ hleft.1.symm
          · exact hr₁ ▸ hleft.2.1.symm
          · exact hr₂ ▸ hleft.2.2.symm
          · exact trapped_of_ne hr₀ hr₁

/-- The handler reaches its body, and returns from it. -/
theorem trap_runs (hlaws : CsrLaws file handler) (symbols : String → BitVec 64) (path : InterruptPath)
    (hexception : Exception file handler h) :
    ∃ entered, (∀ h', Enters file symbols handler path h h' ↔ h' = entered) ∧ ∀ left, BodyKeeps file handler entered left →
      ∃ out, (∀ h', Returns file symbols handler left h' ↔ h' = out) ∧
        ∀ r, r ≠ 0 → out.get r = handler.returned file left.csrs (handler.trapped file h) r := by
  obtain ⟨lines, hlines⟩ : ∃ lines, handler.defaultTrapHandler path = .ok lines := by
    rw [TrapHandler.defaultTrapHandler, saveContext_eq]
    exact ⟨_, rfl⟩
  obtain ⟨exitLines, hexitLines⟩ : ∃ lines, handler.trapExit = .ok lines := by
    rw [TrapHandler.trapExit, restoreGprs_eq]
    exact ⟨_, rfl⟩
  obtain ⟨entered, hentered, hsaved⟩ := enters hlaws symbols hexception hlines
  refine ⟨entered, fun h' => ⟨?_, ?_⟩, fun left hbody => ?_⟩
  · rintro ⟨lines', hlines', hexits⟩
    obtain rfl := Except.ok.inj (hlines'.symm.trans hlines)
    exact ((hentered _ _).mp hexits).2
  · exact fun heq => ⟨lines, hlines, (hentered _ _).mpr ⟨rfl, heq⟩⟩
  · obtain ⟨out, hout, hget⟩ := returns hlaws symbols (hsaved.body hbody) hexitLines
    refine ⟨out, fun h' => ⟨?_, fun heq => ⟨exitLines, hexitLines, (hout _ _).mpr ⟨rfl, heq⟩⟩⟩, hget⟩
    rintro ⟨lines', hlines', hexits⟩
    obtain rfl := Except.ok.inj (hlines'.symm.trans hexitLines)
    exact ((hout _ _).mp hexits).2

/-- An exception that no override handles reaches the body, every body returns, and the registers are those at the trap exactly when
those that the handler uses outside the saved part had the values it leaves in them. -/
theorem gprsSurvive_iff (hlaws : CsrLaws file handler) (symbols : String → BitVec 64) (path : InterruptPath)
    (hexception : Exception file handler h) :
    (∃ entered, Enters file symbols handler path h entered ∧ ∀ left, BodyKeeps file handler entered left →
      ∃ out, Returns file symbols handler left out) ∧
    ∀ entered left out, Trap file symbols handler path h entered left out →
      (GprsSurvive h out ↔ Undisturbed file handler h left.csrs) := by
  obtain ⟨entered, hentered, hreturns⟩ := trap_runs hlaws symbols path hexception
  refine ⟨⟨entered, (hentered _).mpr rfl, fun left hbody => ?_⟩, ?_⟩
  · obtain ⟨out, hout, -⟩ := hreturns left hbody
    exact ⟨out, (hout _).mpr rfl⟩
  · rintro h₁ left h₃ ⟨henters, hbody, hout⟩
    obtain rfl := (hentered h₁).mp henters
    obtain ⟨out, hunique, hget⟩ := hreturns left hbody
    obtain rfl := (hunique h₃).mp hout
    rw [← returned_trapped_iff h left.csrs]
    constructor
    · exact fun hsurvive r hr => (hget r hr).symm.trans (hsurvive r)
    · intro hsurvive r
      by_cases hr : r = 0
      · rw [hr, Hart.get_zero, Hart.get_zero]
      · exact (hget r hr).trans (hsurvive r hr)

/-! ### Plain CSRs -/

/-- CSRs that hold what is written. -/
def plainCsrs : CsrFile (String → BitVec 64) String 64 where
  read csrs name := csrs name
  write csrs name value := Function.update csrs name value

theorem csrLaws_plain (handler : TrapHandler) : CsrLaws plainCsrs handler where
  scratch _ _ := Function.update_self ..
  other _ _ _ _ _ _ hne := Function.update_of_ne hne _ _

/-- The handler in machine mode without paging and overrides. -/
def machineHandler : TrapHandler where
  delegMode := .machine
  pagingDisabled := true
  privMachine := true
  medeleg := 0
  exceptionHandlerOverrides := []

/-- An illegal instruction, with these general registers. -/
def illegalInstruction (reg : Reg → BitVec 64) : Hart 64 (String → BitVec 64) where
  core := { reg, mem := fun _ => 0, accesses := [] }
  csrs := fun name => if name = "mcause" then 2 else 0

theorem exception_illegalInstruction (reg : Reg → BitVec 64) :
    Exception plainCsrs machineHandler (illegalInstruction reg) where
  msb := by
    have hcause : machineHandler.cause plainCsrs (illegalInstruction reg) = 2 := rfl
    rw [hcause]
    decide
  handled := nofun

/-- An illegal instruction without an override. -/
theorem gprsSurvive_iff_illegalInstruction :
    CsrLaws plainCsrs machineHandler ∧ Exception plainCsrs machineHandler (illegalInstruction fun _ => 0) ∧
      ((∃ entered, Enters plainCsrs (fun _ => 0) machineHandler ⟨[], nofun⟩ (illegalInstruction fun _ => 0) entered ∧
        ∀ left, BodyKeeps plainCsrs machineHandler entered left → ∃ out, Returns plainCsrs (fun _ => 0) machineHandler left out) ∧
      ∀ entered left out,
        Trap plainCsrs (fun _ => 0) machineHandler ⟨[], nofun⟩ (illegalInstruction fun _ => 0) entered left out →
        (GprsSurvive (illegalInstruction fun _ => 0) out ↔
          Undisturbed plainCsrs machineHandler (illegalInstruction fun _ => 0) left.csrs)) :=
  ⟨csrLaws_plain _, exception_illegalInstruction _,
    gprsSurvive_iff (csrLaws_plain _) (fun _ => 0) ⟨[], nofun⟩ (exception_illegalInstruction _)⟩

/-- With zero in `t0` an illegal instruction returns with the cause in it. -/
theorem not_gprsSurvive_illegalInstruction : ¬ ∀ entered left out,
    Trap plainCsrs (fun _ => 0) machineHandler ⟨[], nofun⟩ (illegalInstruction fun _ => 0) entered left out →
      GprsSurvive (illegalInstruction fun _ => 0) out := by
  intro hsurvive
  obtain ⟨entered, hentered, hreturns⟩ :=
    trap_runs (csrLaws_plain machineHandler) (fun _ => 0) ⟨[], nofun⟩ (exception_illegalInstruction fun _ => 0)
  have hbody : BodyKeeps plainCsrs machineHandler entered entered := ⟨rfl, rfl, fun _ => rfl⟩
  obtain ⟨out, hout, hget⟩ := hreturns entered hbody
  have hzero := hsurvive entered entered out ⟨(hentered _).mpr rfl, hbody, (hout _).mpr rfl⟩ t0
  have hcause : machineHandler.returned plainCsrs entered.csrs
      (machineHandler.trapped plainCsrs (illegalInstruction fun _ => 0)) t0 = 2 := rfl
  have ht0 : (illegalInstruction fun _ => 0).get t0 = 0 := rfl
  rw [hget t0 (by decide), hcause, ht0] at hzero
  exact absurd hzero (by decide)

end Riescue.TrapGprs
