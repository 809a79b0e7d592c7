import Riescue.LibAssembly
import Riescue.Sdtrig
import Riescue.VariableAmo

/-! The walker that disables all triggers behind an asserted exception, `runtime/trap_handler.py`: a loop over the triggers that
`tselect` accepts, which clears in each `tdata1` the bits that enable the trigger, by the type of the trigger. -/

namespace Riescue.TriggerDisable
open Machine (Reg)
open Assembly Sdtrig
open Variables (Variable)

abbrev t1 : Reg := 6
abbrev t2 : Reg := 7
abbrev t3 : Reg := 28
abbrev t4 : Reg := 29
abbrev t5 : Reg := 30
abbrev t6 : Reg := 31

/-- The CSRs: those of the trigger module, and the others. -/
structure Csrs where
  tselect : BitVec 64
  tdata1 : ℕ → BitVec 64
  other : String → BitVec 64

/-- With `n` triggers `tselect` ignores all writes but those of numbers below `n`. -/
def triggerFile (n : ℕ) : CsrFile Csrs String 64 where
  read csrs name :=
    if name = "tselect" then csrs.tselect
    else if name = "tdata1" then csrs.tdata1 csrs.tselect.toNat else csrs.other name
  write csrs name value :=
    if name = "tselect" then if value.toNat < n then { csrs with tselect := value } else csrs
    else if name = "tdata1" then { csrs with tdata1 := Function.update csrs.tdata1 csrs.tselect.toNat value }
    else { csrs with other := Function.update csrs.other name value }

inductive Label where
  | loop | checkIcount | checkItrigEtrig | setItrigEtrigMask | applyPrivMask | skip
  deriving DecidableEq, Repr

abbrev Line := Assembly.Line String String Label

/-- The lines behind `assert_apply_priv_mask`. -/
def applyLines : List Line :=
  [.instr (.csrc "tdata1" t3), .instr (.addi t1 t1 1), .instr (.li t2 64), .branch .lt t1 t2 .loop, .label .skip]

/-- The lines behind `assert_set_itrig_etrig_mask`. -/
def setItrigEtrigMaskLines : List Line := .instr (.li t3 0x000018C0) :: .label .applyPrivMask :: applyLines

/-- The lines behind `assert_check_itrig_etrig`. -/
def checkItrigEtrigLines : List Line :=
  .instr (.li t6 4) :: .branch .eq t5 t6 .setItrigEtrigMask :: .instr (.li t6 5) :: .branch .ne t5 t6 .applyPrivMask ::
    .label .setItrigEtrigMask :: setItrigEtrigMaskLines

/-- The lines behind `assert_check_icount`. -/
def checkIcountLines : List Line :=
  .instr (.li t6 3) :: .branch .ne t5 t6 .checkItrigEtrig :: .instr (.li t3 0x060002C0) :: .jump .applyPrivMask ::
    .label .checkItrigEtrig :: checkItrigEtrigLines

/-- The choice of the mask. -/
def maskLines : List Line :=
  .instr (.li t6 6) :: .branch .ne t5 t6 .checkIcount :: .instr (.li t3 0x01800058) :: .jump .applyPrivMask ::
    .label .checkIcount :: checkIcountLines

/-- The lines behind `assert_disable_triggers_loop`. -/
def loopLines : List Line :=
  .instr (.csrw "tselect" t1) :: .instr (.csrr t2 "tselect") :: .branch .ne t2 t1 .skip :: .instr (.csrr t4 "tdata1") ::
    .instr (.alui .srli t5 t4 60) :: .instr (.li t3 0) :: maskLines

/-- The `disable_triggers_after` path of `generate`, with the code that loads and clears the flag. -/
def disableTriggers (flag : Variables.Code) : List Line :=
  (flag.map Instr.core).map .instr ++ .branch .eq t1 0 .skip :: .instr (.csrr t1 "mcause") :: .instr (.li t2 3) ::
    .branch .eq t1 t2 .skip :: .instr (.li t1 0) :: .label .loop :: loopLines

/-- The mask of a type. -/
def maskOf (type : ℕ) : ℕ :=
  if type = 6 then 0x01800058 else if type = 3 then 0x060002C0 else if type = 4 ∨ type = 5 then 0x18C0 else 0

/-! ### Labels -/

section Labels
variable (flag : Variables.Code)

theorem linesAt_loop : linesAt .loop (disableTriggers flag) = some loopLines := by
  rw [disableTriggers, linesAt_instrs]
  rfl

theorem linesAt_checkIcount : linesAt .checkIcount (disableTriggers flag) = some checkIcountLines := by
  rw [disableTriggers, linesAt_instrs]
  rfl

theorem linesAt_checkItrigEtrig : linesAt .checkItrigEtrig (disableTriggers flag) = some checkItrigEtrigLines := by
  rw [disableTriggers, linesAt_instrs]
  rfl

theorem linesAt_setItrigEtrigMask : linesAt .setItrigEtrigMask (disableTriggers flag) = some setItrigEtrigMaskLines := by
  rw [disableTriggers, linesAt_instrs]
  rfl

theorem linesAt_applyPrivMask : linesAt .applyPrivMask (disableTriggers flag) = some applyLines := by
  rw [disableTriggers, linesAt_instrs]
  rfl

theorem linesAt_skip : linesAt .skip (disableTriggers flag) = some [] := by
  rw [disableTriggers, linesAt_instrs]
  rfl

end Labels

/-! ### The mask -/

variable {n : ℕ} {symbols : String → BitVec 64} {flag : Variables.Code} {h : Hart 64 Csrs}

/-- From the state `h` at some lines the walker goes on from `h'` at others. -/
def LeadsTo (n : ℕ) (symbols : String → BitVec 64) (flag : Variables.Code) (lines : List Line) (h : Hart 64 Csrs)
    (lines' : List Line) (h' : Hart 64 Csrs) : Prop :=
  ∀ exit out, Exits (triggerFile n) symbols (disableTriggers flag) lines h exit out ↔
    Exits (triggerFile n) symbols (disableTriggers flag) lines' h' exit out

/-- The registers that count and select, the CSRs and the memory are as before. -/
structure SameWalk (h h' : Hart 64 Csrs) : Prop where
  csrs : h'.csrs = h.csrs
  mem : h'.core.mem = h.core.mem
  t1 : h'.get t1 = h.get t1

theorem SameWalk.set {r : Reg} (hr : r ≠ TriggerDisable.t1) (h : Hart 64 Csrs) (value : BitVec 64) :
    SameWalk h (h.set r value) := ⟨rfl, Hart.mem_set h r value, Hart.get_set_of_ne h hr.symm value⟩

theorem SameWalk.trans {h₁ h₂ h₃ : Hart 64 Csrs} (h₁₂ : SameWalk h₁ h₂) (h₂₃ : SameWalk h₂ h₃) : SameWalk h₁ h₃ :=
  ⟨h₂₃.csrs.trans h₁₂.csrs, h₂₃.mem.trans h₁₂.mem, h₂₃.t1.trans h₁₂.t1⟩

theorem LeadsTo.trans {lines₁ lines₂ lines₃ : List Line} {h₁ h₂ h₃ : Hart 64 Csrs}
    (h₁₂ : LeadsTo n symbols flag lines₁ h₁ lines₂ h₂) (h₂₃ : LeadsTo n symbols flag lines₂ h₂ lines₃ h₃) :
    LeadsTo n symbols flag lines₁ h₁ lines₃ h₃ := fun exit out => (h₁₂ exit out).trans (h₂₃ exit out)

theorem leadsTo_label (l : Label) (lines : List Line) (h : Hart 64 Csrs) :
    LeadsTo n symbols flag (.label l :: lines) h lines h := fun _ _ => exits_label l

theorem leadsTo_li (rd : Reg) (value : ℤ) (lines : List Line) (h : Hart 64 Csrs) :
    LeadsTo n symbols flag (.instr (.li rd value) :: lines) h lines (h.set rd (BitVec.ofInt 64 value)) :=
  fun _ _ => exits_instr rfl

theorem leadsTo_jump {target : Label} {lines rest : List Line} (hlines : linesAt target (disableTriggers flag) = some lines)
    (h : Hart 64 Csrs) : LeadsTo n symbols flag (.jump target :: rest) h lines h := fun _ _ => exits_jump hlines

section Compare
variable {cond : Cond} {target : Label} {lines rest : List Line} {c : ℕ}

/-- The type against a constant. -/
theorem holds_type (hc : c < 2 ^ 64) :
    (Cond.holds ((h.set t6 (BitVec.ofInt 64 c)).get t5) ((h.set t6 (BitVec.ofInt 64 c)).get t6) .eq =
      decide ((h.get t5).toNat = c)) ∧
    (Cond.holds ((h.set t6 (BitVec.ofInt 64 c)).get t5) ((h.set t6 (BitVec.ofInt 64 c)).get t6) .ne =
      decide ((h.get t5).toNat ≠ c)) := by
  have hnat : (BitVec.ofInt 64 (c : ℤ)).toNat = c := by
    rw [BitVec.ofInt_natCast, BitVec.toNat_ofNat, Nat.mod_eq_of_lt hc]
  have heq : h.get t5 = BitVec.ofInt 64 (c : ℤ) ↔ (h.get t5).toNat = c := by rw [← BitVec.toNat_inj, hnat]
  rw [Hart.get_set_self h (by decide), Hart.get_set_of_ne h (by decide)]
  exact ⟨decide_eq_decide.mpr heq, decide_eq_decide.mpr (not_congr heq)⟩

theorem leadsTo_taken (hlines : linesAt target (disableTriggers flag) = some lines)
    (hcond : cond.holds ((h.set t6 (BitVec.ofInt 64 c)).get t5) ((h.set t6 (BitVec.ofInt 64 c)).get t6) = true) :
    LeadsTo n symbols flag (.instr (.li t6 c) :: .branch cond t5 t6 target :: rest) h lines (h.set t6 (BitVec.ofInt 64 c)) :=
  (leadsTo_li t6 c _ h).trans fun _ _ => exits_branch hcond hlines

theorem leadsTo_not_taken
    (hcond : cond.holds ((h.set t6 (BitVec.ofInt 64 c)).get t5) ((h.set t6 (BitVec.ofInt 64 c)).get t6) = false) :
    LeadsTo n symbols flag (.instr (.li t6 c) :: .branch cond t5 t6 target :: rest) h rest (h.set t6 (BitVec.ofInt 64 c)) :=
  (leadsTo_li t6 c _ h).trans fun _ _ => exits_not_branch hcond

end Compare

/-- Behind `li t3` of the mask. -/
theorem set_mask_facts (h : Hart 64 Csrs) (mask : ℕ) :
    SameWalk h (h.set t3 (BitVec.ofInt 64 mask)) ∧ (h.set t3 (BitVec.ofInt 64 mask)).get t3 = BitVec.ofNat 64 mask :=
  ⟨SameWalk.set (by decide) h _, (Hart.get_set_self h (by decide) _).trans (BitVec.ofInt_natCast 64 mask)⟩

/-- The mask of interrupt and exception triggers. -/
theorem checkItrigEtrigLines_leadsTo (n : ℕ) (symbols : String → BitVec 64) (flag : Variables.Code) (hzero : h.get t3 = 0)
    (h6 : (h.get t5).toNat ≠ 6) (h3 : (h.get t5).toNat ≠ 3) :
    ∃ h', LeadsTo n symbols flag checkItrigEtrigLines h applyLines h' ∧ SameWalk h h' ∧
      h'.get t3 = BitVec.ofNat 64 (maskOf (h.get t5).toNat) := by
  let h₁ := h.set t6 (BitVec.ofInt 64 (4 : ℕ))
  let h₂ := h₁.set t6 (BitVec.ofInt 64 (5 : ℕ))
  have hsame₁ : SameWalk h h₁ := SameWalk.set (by decide) h _
  have hsame₂ : SameWalk h h₂ := hsame₁.trans (SameWalk.set (by decide) h₁ _)
  have ht5 : h₁.get t5 = h.get t5 := Hart.get_set_of_ne h (by decide) _
  have hset : ∀ h' : Hart 64 Csrs, LeadsTo n symbols flag setItrigEtrigMaskLines h' applyLines
      (h'.set t3 (BitVec.ofInt 64 (0x18C0 : ℕ))) :=
    fun h' => (leadsTo_li t3 _ _ h').trans (leadsTo_label _ _ _)
  by_cases h4 : (h.get t5).toNat = 4
  · have hmask : maskOf (h.get t5).toNat = 0x18C0 := by rw [h4]; decide
    obtain ⟨hsame, hget⟩ := set_mask_facts h₁ 0x18C0
    have htaken := (@holds_type h 4 (by decide)).1.trans (decide_eq_true h4)
    exact ⟨_, (leadsTo_taken (linesAt_setItrigEtrigMask flag) htaken).trans (hset h₁), hsame₁.trans hsame, hmask ▸ hget⟩
  · have hnot := (@holds_type h 4 (by decide)).1.trans (decide_eq_false h4)
    by_cases h5 : (h.get t5).toNat = 5
    · have hmask : maskOf (h.get t5).toNat = 0x18C0 := by rw [h5]; decide
      obtain ⟨hsame, hget⟩ := set_mask_facts h₂ 0x18C0
      have hnot5 := (@holds_type h₁ 5 (by decide)).2.trans (decide_eq_false (not_not.mpr (ht5 ▸ h5)))
      exact ⟨_, ((leadsTo_not_taken hnot).trans (leadsTo_not_taken hnot5)).trans ((leadsTo_label _ _ _).trans (hset h₂)),
        hsame₂.trans hsame, hmask ▸ hget⟩
    · have hmask : maskOf (h.get t5).toNat = 0 := by
        rw [maskOf, if_neg h6, if_neg h3, if_neg (not_or.mpr ⟨h4, h5⟩)]
      have htaken5 := (@holds_type h₁ 5 (by decide)).2.trans (decide_eq_true (ht5 ▸ h5))
      refine ⟨h₂, (leadsTo_not_taken hnot).trans (leadsTo_taken (linesAt_applyPrivMask flag) htaken5), hsame₂, ?_⟩
      rw [hmask, Hart.get_set_of_ne h₁ (by decide), Hart.get_set_of_ne h (by decide), hzero]
      rfl

/-- The choice leaves the mask of the type in `t3`. -/
theorem maskLines_leadsTo (n : ℕ) (symbols : String → BitVec 64) (flag : Variables.Code) (hzero : h.get t3 = 0) :
    ∃ h', LeadsTo n symbols flag maskLines h applyLines h' ∧ SameWalk h h' ∧
      h'.get t3 = BitVec.ofNat 64 (maskOf (h.get t5).toNat) := by
  let h₁ := h.set t6 (BitVec.ofInt 64 (6 : ℕ))
  let h₂ := h₁.set t6 (BitVec.ofInt 64 (3 : ℕ))
  have hsame₁ : SameWalk h h₁ := SameWalk.set (by decide) h _
  have hsame₂ : SameWalk h h₂ := hsame₁.trans (SameWalk.set (by decide) h₁ _)
  have ht5 : h₁.get t5 = h.get t5 := Hart.get_set_of_ne h (by decide) _
  have happly : ∀ (h' : Hart 64 Csrs) (mask : ℕ) (rest : List Line), LeadsTo n symbols flag
      (.instr (.li t3 mask) :: .jump .applyPrivMask :: rest) h' applyLines (h'.set t3 (BitVec.ofInt 64 mask)) :=
    fun h' mask rest => (leadsTo_li t3 _ _ h').trans (leadsTo_jump (linesAt_applyPrivMask flag) _)
  by_cases h6 : (h.get t5).toNat = 6
  · have hmask : maskOf (h.get t5).toNat = 0x01800058 := by rw [h6]; decide
    obtain ⟨hsame, hget⟩ := set_mask_facts h₁ 0x01800058
    have hnot := (@holds_type h 6 (by decide)).2.trans (decide_eq_false (not_not.mpr h6))
    exact ⟨_, (leadsTo_not_taken hnot).trans (happly h₁ 0x01800058 _), hsame₁.trans hsame, hmask ▸ hget⟩
  · have htaken := (@holds_type h 6 (by decide)).2.trans (decide_eq_true h6)
    by_cases h3 : (h.get t5).toNat = 3
    · have hmask : maskOf (h.get t5).toNat = 0x060002C0 := by rw [h3]; decide
      obtain ⟨hsame, hget⟩ := set_mask_facts h₂ 0x060002C0
      have hnot := (@holds_type h₁ 3 (by decide)).2.trans (decide_eq_false (not_not.mpr (ht5 ▸ h3)))
      exact ⟨_, ((leadsTo_taken (linesAt_checkIcount flag) htaken).trans (leadsTo_not_taken hnot)).trans
        (happly h₂ 0x060002C0 _), hsame₂.trans hsame, hmask ▸ hget⟩
    · have htaken3 := (@holds_type h₁ 3 (by decide)).2.trans (decide_eq_true (ht5 ▸ h3))
      have ht5₂ : h₂.get t5 = h.get t5 := (Hart.get_set_of_ne h₁ (by decide) _).trans ht5
      have hzero₂ : h₂.get t3 = 0 := by
        rw [Hart.get_set_of_ne h₁ (by decide), Hart.get_set_of_ne h (by decide), hzero]
      obtain ⟨h', hleads, hsame, hget⟩ :=
        checkItrigEtrigLines_leadsTo n symbols flag hzero₂ (ht5₂ ▸ h6) (ht5₂ ▸ h3)
      exact ⟨h', ((leadsTo_taken (linesAt_checkIcount flag) htaken).trans
        (leadsTo_taken (linesAt_checkItrigEtrig flag) htaken3)).trans hleads, hsame₂.trans hsame, ht5₂ ▸ hget⟩

/-! ### One trigger -/

/-- What the walker leaves of a `tdata1`. -/
def cleared (tdata1 : BitVec 64) : BitVec 64 := tdata1 &&& ~~~(BitVec.ofNat 64 (maskOf (typeOf tdata1.toNat)))

/-- The selected trigger is cleared. -/
def Csrs.clear (csrs : Csrs) : Csrs :=
  { csrs with tdata1 := Function.update csrs.tdata1 csrs.tselect.toNat (cleared (csrs.tdata1 csrs.tselect.toNat)) }

theorem toInt_ofNat {m : ℕ} (hm : m < 2 ^ 63) : (BitVec.ofNat 64 m).toInt = m := by
  have hnat : (BitVec.ofNat 64 m).toNat = m := by rw [BitVec.toNat_ofNat, Nat.mod_eq_of_lt (by omega)]
  rw [BitVec.toInt_eq_toNat_of_lt (by omega), hnat]

theorem typeOf_toNat (tdata1 : BitVec 64) : (tdata1 >>> 60).toNat = typeOf tdata1.toNat := by
  have hlt := tdata1.isLt
  have hsmall : tdata1.toNat >>> 60 < 2 ^ 4 := by
    rw [Nat.shiftRight_eq_div_pow]
    omega
  rw [BitVec.toNat_ushiftRight, typeOf, Bitfields.Slot.get]
  exact (Nat.mod_eq_of_lt hsmall).symm

/-- The mask is applied to the selected trigger, and the walker goes on to the next one below 64. -/
theorem applyLines_leadsTo {k : ℕ} (hk : k < 64) (ht1 : h.get t1 = BitVec.ofNat 64 k)
    (ht3 : h.get t3 = BitVec.ofNat 64 (maskOf (typeOf (h.csrs.tdata1 h.csrs.tselect.toNat).toNat))) :
    ∃ h', LeadsTo n symbols flag applyLines h (if k + 1 < 64 then loopLines else []) h' ∧ h'.csrs = h.csrs.clear ∧
      h'.core.mem = h.core.mem ∧ h'.get t1 = BitVec.ofNat 64 (k + 1) := by
  let h₁ : Hart 64 Csrs := { h with csrs := h.csrs.clear }
  let h₂ := h₁.set t1 (h₁.get t1 + BitVec.ofInt 64 1)
  let h₃ := h₂.set t2 (BitVec.ofInt 64 64)
  have hnext : h₃.get t1 = BitVec.ofNat 64 (k + 1) := by
    have hget : h₃.get t1 = h.get t1 + BitVec.ofInt 64 1 :=
      (Hart.get_set_of_ne h₂ (by decide) _).trans (Hart.get_set_self h₁ (by decide) _)
    rw [hget, ht1, BitVec.ofNat_add]
    rfl
  have hcsrc : step (triggerFile n) symbols h (.csrc "tdata1" t3) = some h₁ := by
    have hwritten : h.csrs.tdata1 h.csrs.tselect.toNat &&& ~~~(h.get t3) =
        cleared (h.csrs.tdata1 h.csrs.tselect.toNat) := by rw [ht3, cleared]
    have hclear : (triggerFile n).write h.csrs "tdata1" (h.csrs.tdata1 h.csrs.tselect.toNat &&& ~~~(h.get t3)) =
        h.csrs.clear := by
      rw [hwritten]
      rfl
    have hset : ({ h with csrs := h.csrs.clear } : Hart 64 Csrs).set 0 (h.csrs.tdata1 h.csrs.tselect.toNat) = h₁ :=
      Hart.set_zero _ _
    rw [← hset, ← hclear]
    rfl
  have hsteps : LeadsTo n symbols flag applyLines h [.branch .lt t1 t2 .loop, .label .skip] h₃ := fun exit out =>
    (exits_instr hcsrc).trans ((exits_instr rfl).trans (exits_instr rfl))
  have hlt : Cond.holds (h₃.get t1) (h₃.get t2) .lt = decide (k + 1 < 64) := by
    rw [hnext, Hart.get_set_self h₂ (by decide), Cond.holds, toInt_ofNat (by omega)]
    exact decide_eq_decide.mpr (by rw [show (BitVec.ofInt 64 64).toInt = 64 by decide]; omega)
  refine ⟨h₃, hsteps.trans fun exit out => ?_, rfl, (Hart.mem_set h₂ t2 _).trans (Hart.mem_set h₁ t1 _), hnext⟩
  split_ifs with hbound
  · exact exits_branch (hlt.trans (decide_eq_true hbound)) (linesAt_loop flag)
  · exact (exits_not_branch (hlt.trans (decide_eq_false hbound))).trans (exits_label _)

/-- `tselect` behind the attempt to select a trigger. -/
def Csrs.select (n : ℕ) (csrs : Csrs) (value : BitVec 64) : Csrs :=
  if value.toNat < n then { csrs with tselect := value } else csrs

/-- One turn of the loop: it ends when the trigger cannot be selected. -/
theorem loopLines_leadsTo (n : ℕ) (symbols : String → BitVec 64) (flag : Variables.Code) {k : ℕ} (hk : k < 64)
    (ht1 : h.get t1 = BitVec.ofNat 64 k) :
    ∃ h', h'.core.mem = h.core.mem ∧
      if (h.csrs.select n (h.get t1)).tselect = h.get t1 then
        LeadsTo n symbols flag loopLines h (if k + 1 < 64 then loopLines else []) h' ∧
          h'.csrs = (h.csrs.select n (h.get t1)).clear ∧ h'.get t1 = BitVec.ofNat 64 (k + 1)
      else LeadsTo n symbols flag loopLines h [] h' ∧ h'.csrs = h.csrs.select n (h.get t1) := by
  let h₁ : Hart 64 Csrs := { h with csrs := h.csrs.select n (h.get t1) }
  let h₂ := h₁.set t2 h₁.csrs.tselect
  have hselect : step (triggerFile n) symbols h (.csrw "tselect" t1) = some h₁ := by
    show some (({ h with csrs := h.csrs.select n (h.get t1) } : Hart 64 Csrs).set 0 _) = _
    rw [Hart.set_zero]
  have hread : step (triggerFile n) symbols h₁ (.csrr t2 "tselect") = some h₂ := rfl
  have hsteps : LeadsTo n symbols flag loopLines h (loopLines.drop 2) h₂ :=
    fun exit out => (exits_instr hselect).trans (exits_instr hread)
  have ht1₂ : h₂.get t1 = h.get t1 := Hart.get_set_of_ne h₁ (by decide) _
  have ht2₂ : h₂.get t2 = h₁.csrs.tselect := Hart.get_set_self h₁ (by decide) _
  by_cases hselected : (h.csrs.select n (h.get t1)).tselect = h.get t1
  · let h₃ := h₂.set t4 (h₂.csrs.tdata1 h₂.csrs.tselect.toNat)
    let h₄ := h₃.set t5 (h₃.get t4 >>> 60)
    let h₅ := h₄.set t3 (BitVec.ofInt 64 0)
    have hne : Cond.holds (h₂.get t2) (h₂.get t1) .ne = false := by
      rw [ht2₂, ht1₂]
      exact decide_eq_false (not_not.mpr hselected)
    have hmaskLines : LeadsTo n symbols flag loopLines h maskLines h₅ := fun exit out =>
      (hsteps exit out).trans ((exits_not_branch hne).trans ((exits_instr rfl).trans ((exits_instr rfl).trans (exits_instr rfl))))
    have ht5 : (h₅.get t5).toNat = typeOf (h₁.csrs.tdata1 h₁.csrs.tselect.toNat).toNat := by
      have hget : h₅.get t5 = h₁.csrs.tdata1 h₁.csrs.tselect.toNat >>> 60 := by
        rw [Hart.get_set_of_ne h₄ (by decide), Hart.get_set_self h₃ (by decide), Hart.get_set_self h₂ (by decide)]
        rfl
      rw [hget, typeOf_toNat]
    obtain ⟨h₆, hleads, hsame, ht3⟩ := maskLines_leadsTo n symbols flag (Hart.get_set_self h₄ (by decide) _ : h₅.get t3 = 0)
    have ht1₆ : h₆.get t1 = BitVec.ofNat 64 k := by
      rw [hsame.t1, Hart.get_set_of_ne h₄ (by decide), Hart.get_set_of_ne h₃ (by decide), Hart.get_set_of_ne h₂ (by decide),
        ht1₂, ht1]
    have hcsrs₆ : h₆.csrs = h₁.csrs := hsame.csrs
    rw [ht5, ← hcsrs₆] at ht3
    obtain ⟨h', happly, hcsrs, hmem, hnext⟩ := @applyLines_leadsTo n symbols flag h₆ k hk ht1₆ ht3
    refine ⟨h', ?_, ?_⟩
    · rw [hmem, hsame.mem]
      simp only [h₄, h₃, h₂, h₁, Hart.mem_set]
    · rw [if_pos hselected]
      exact ⟨(hmaskLines.trans hleads).trans happly, by rw [hcsrs, hcsrs₆], hnext⟩
  · have hne : Cond.holds (h₂.get t2) (h₂.get t1) .ne = true := by
      rw [ht2₂, ht1₂]
      exact decide_eq_true hselected
    refine ⟨h₂, Hart.mem_set h₁ t2 _, ?_⟩
    rw [if_neg hselected]
    exact ⟨fun exit out => (hsteps exit out).trans (exits_branch hne (linesAt_skip flag)), rfl⟩

/-! ### All triggers -/

theorem Csrs.select_tdata1 (n : ℕ) (csrs : Csrs) (value : BitVec 64) :
    (csrs.select n value).tdata1 = csrs.tdata1 ∧ (csrs.select n value).other = csrs.other := by
  unfold Csrs.select
  split_ifs <;> exact ⟨rfl, rfl⟩

/-- What the loop leaves when it starts with trigger `k`. -/
structure Walked (n k : ℕ) (h out : Hart 64 Csrs) : Prop where
  other : out.csrs.other = h.csrs.other
  mem : out.core.mem = h.core.mem
  tdata1 : ∀ i < n, out.csrs.tdata1 i = if k ≤ i then cleared (h.csrs.tdata1 i) else h.csrs.tdata1 i

/-- The loop ends, behind the last trigger that can be selected or the 64th one. -/
theorem loopLines_exits (hn : n ≤ 64) (symbols : String → BitVec 64) (flag : Variables.Code) {k : ℕ} (hk : k < 64)
    (ht1 : h.get t1 = BitVec.ofNat 64 k) :
    ∃ out, Walked n k h out ∧
      ∀ exit out', Exits (triggerFile n) symbols (disableTriggers flag) loopLines h exit out' ↔ exit = .done ∧ out' = out := by
  induction hleft : 64 - k generalizing k h with
  | zero => omega
  | succ left ih =>
      have hnat : (h.get t1).toNat = k := by rw [ht1, BitVec.toNat_ofNat, Nat.mod_eq_of_lt (by omega)]
      obtain ⟨htdata1, hother⟩ := Csrs.select_tdata1 n h.csrs (h.get t1)
      obtain ⟨h', hmem, hturn⟩ := loopLines_leadsTo n symbols flag hk ht1
      by_cases hselected : (h.csrs.select n (h.get t1)).tselect = h.get t1
      · rw [if_pos hselected] at hturn
        obtain ⟨hleads, hcsrs, hnext⟩ := hturn
        have hother' : h'.csrs.other = h.csrs.other := by rw [hcsrs, Csrs.clear, hother]
        have htdata1' : ∀ i, h'.csrs.tdata1 i = if i = k then cleared (h.csrs.tdata1 i) else h.csrs.tdata1 i := by
          intro i
          rw [hcsrs]
          show Function.update (h.csrs.select n (h.get t1)).tdata1 (h.csrs.select n (h.get t1)).tselect.toNat
            (cleared ((h.csrs.select n (h.get t1)).tdata1 (h.csrs.select n (h.get t1)).tselect.toNat)) i = _
          rw [hselected, hnat, htdata1]
          split_ifs with hi
          · rw [hi, Function.update_self]
          · rw [Function.update_of_ne hi]
        by_cases hbound : k + 1 < 64
        · rw [if_pos hbound] at hleads
          obtain ⟨out, hwalked, hexits⟩ := ih hbound hnext (by omega)
          refine ⟨out, ⟨hwalked.other.trans hother', hwalked.mem.trans hmem, fun i hi => ?_⟩, fun exit out' =>
            (hleads exit out').trans (hexits exit out')⟩
          rw [hwalked.tdata1 i hi, htdata1']
          split_ifs <;> first | rfl | omega
        · rw [if_neg hbound] at hleads
          refine ⟨h', ⟨hother', hmem, fun i hi => ?_⟩, fun exit out' => (hleads exit out').trans exits_nil⟩
          rw [htdata1']
          split_ifs <;> first | rfl | omega
      · rw [if_neg hselected] at hturn
        obtain ⟨hleads, hcsrs⟩ := hturn
        have hpast : n ≤ k := by
          by_contra hlt
          exact hselected (by rw [Csrs.select, if_pos (by omega)])
        refine ⟨h', ⟨by rw [hcsrs, hother], hmem, fun i hi => ?_⟩, fun exit out' => (hleads exit out').trans exits_nil⟩
        rw [hcsrs, htdata1, if_neg (by omega)]

/-- The path that the flag opens. -/
theorem disableTriggers_exits (hn : n ≤ 64) {core : Machine.State 64} (hrun : Machine.run symbols flag h.core = some core)
    (hset : core.get t1 ≠ 0) (hcause : h.csrs.other "mcause" ≠ 3) :
    ∃ out, Walked n 0 { h with core } out ∧ ∀ exit out',
      Exits (triggerFile n) symbols (disableTriggers flag) (disableTriggers flag) h exit out' ↔ exit = .done ∧ out' = out := by
  let h₀ : Hart 64 Csrs := { h with core }
  let h₁ := h₀.set t1 (h₀.csrs.other "mcause")
  let h₂ := h₁.set t2 (BitVec.ofInt 64 3)
  let h₃ := h₂.set t1 (BitVec.ofInt 64 0)
  have hflag : runStraight (triggerFile n) symbols (flag.map Instr.core) h = some h₀ := by
    rw [runStraight_core, hrun]
    rfl
  have hzero : Cond.holds (h₀.get t1) (h₀.get 0) .eq = false := by
    rw [Hart.get_zero]
    exact decide_eq_false hset
  have hbreakpoint : Cond.holds (h₂.get t1) (h₂.get t2) .eq = false := by
    rw [Hart.get_set_self h₁ (by decide), Hart.get_set_of_ne h₁ (by decide), Hart.get_set_self h₀ (by decide)]
    exact decide_eq_false hcause
  have hmem : h₃.core.mem = h₀.core.mem := by simp only [h₃, h₂, h₁, Hart.mem_set]
  obtain ⟨out, hwalked, hexits⟩ := @loopLines_exits n h₃ hn symbols flag 0 (by decide) (Hart.get_set_self h₂ (by decide) _)
  have hcause₁ : step (triggerFile n) symbols h₀ (.csrr t1 "mcause") = some h₁ := rfl
  have hthree : step (triggerFile n) symbols h₁ (.li t2 3) = some h₂ := rfl
  have hindex : step (triggerFile n) symbols h₂ (.li t1 0) = some h₃ := rfl
  have hsteps : LeadsTo n symbols flag (disableTriggers flag) h loopLines h₃ := fun exit out' =>
    (exits_straight hflag).trans ((exits_not_branch hzero).trans ((exits_instr hcause₁).trans ((exits_instr hthree).trans
      ((exits_not_branch hbreakpoint).trans ((exits_instr hindex).trans (exits_label _))))))
  exact ⟨out, ⟨hwalked.other, hwalked.mem.trans hmem, hwalked.tdata1⟩,
    fun exit out' => (hsteps exit out').trans (hexits exit out')⟩

/-! ### The enable bits -/

theorem mem_all (mode : PrivMode) : mode ∈ PrivMode.all := by cases mode <;> decide

/-- The bits of a mask, when they are the bits of the modes. -/
theorem testBit_mask {mask : ℕ} {bitOf : PrivMode → ℕ} {except : ℕ}
    (hmask : ∀ bit < 64, (mask.testBit bit = true ↔ (∃ mode ∈ PrivMode.all, bitOf mode = bit) ∧ bit ≠ except)) {bit : ℕ}
    (hbit : bit < 64) : mask.testBit bit = true ↔ (∃ mode, some (bitOf mode) = some bit) ∧ bit ≠ except := by
  rw [hmask bit hbit]
  constructor
  · rintro ⟨⟨mode, -, heq⟩, hne⟩
    exact ⟨⟨mode, congrArg some heq⟩, hne⟩
  · rintro ⟨⟨mode, heq⟩, hne⟩
    exact ⟨⟨mode, mem_all mode, Option.some.inj heq⟩, hne⟩

/-- The masks have the enable bits of each type, but for machine mode in interrupt and exception triggers. -/
theorem testBit_maskOf (type : ℕ) {bit : ℕ} (hbit : bit < 64) : (maskOf type).testBit bit = true ↔
    (∃ mode, enableBit type mode = some bit) ∧ ¬((type = 4 ∨ type = 5) ∧ bit = 9) := by
  by_cases h6 : type = 6
  · subst h6
    have h := @testBit_mask 0x01800058 mcontrol6Bit 64 (by decide) bit hbit
    rw [show maskOf 6 = 0x01800058 from rfl, h]
    exact and_congr Iff.rfl (iff_of_true (by omega) (by omega))
  · by_cases h3 : type = 3
    · subst h3
      have h := @testBit_mask 0x060002C0 icountBit 64 (by decide) bit hbit
      rw [show maskOf 3 = 0x060002C0 from rfl, h]
      exact and_congr Iff.rfl (iff_of_true (by omega) (by omega))
    · by_cases h45 : type = 4 ∨ type = 5
      · have h := @testBit_mask 0x18C0 causeBit 9 (by decide) bit hbit
        rw [maskOf, if_neg h6, if_neg h3, if_pos h45, h]
        simp only [enableBit, if_neg h6, if_neg h3, h45, true_and]
        rfl
      · simp [maskOf, enableBit, h6, h3, h45]

/-- Every trigger has lost its enable bits and nothing else, and the other CSRs are as before. -/
def Disabled (n : ℕ) (csrs csrs' : Csrs) : Prop :=
  csrs'.other = csrs.other ∧ ∀ i < n, ∀ bit < 64, (csrs'.tdata1 i).getLsbD bit = true ↔
    (csrs.tdata1 i).getLsbD bit = true ∧ ∀ mode, enableBit (typeOf (csrs.tdata1 i).toNat) mode ≠ some bit

/-- The code of the path, with the variable that holds the flag. -/
def generate (checkExcpDisableTriggers : Variable) : Except Variables.VariableFault (List Line) := do
  let flag ← checkExcpDisableTriggers.loadAndClear t1 0
  pure (disableTriggers flag)

/-- The flag of the variable is set. -/
def FlagSet (symbols : String → BitVec 64) (v : Variable) (core : Machine.State 64) : Prop :=
  ∀ flag, v.loadAndClear t1 0 = .ok flag → ∃ core', Machine.run symbols flag core = some core' ∧ core'.get t1 ≠ 0

/-- The walker ends and disables all triggers, exactly when no interrupt or exception trigger is enabled for machine mode. -/
theorem disabled_iff (hn : n ≤ 64) {v : Variable} {lines : List Line} (hlines : generate v = .ok lines)
    (hset : FlagSet symbols v h.core) (hcause : h.csrs.other "mcause" ≠ 3) :
    (∃ out, Exits (triggerFile n) symbols lines lines h .done out ∧ Disabled n h.csrs out.csrs) ↔
      ∀ i < n, typeOf (h.csrs.tdata1 i).toNat = 4 ∨ typeOf (h.csrs.tdata1 i).toNat = 5 →
        (h.csrs.tdata1 i).getLsbD 9 = false := by
  obtain ⟨flag, hflag, hlines⟩ := Fallible.bind_ok hlines
  obtain rfl := Except.ok.inj hlines
  obtain ⟨core, hrun, hnonzero⟩ := hset flag hflag
  obtain ⟨out, hwalked, hexits⟩ := disableTriggers_exits hn hrun hnonzero hcause
  have hbits : ∀ i < n, ∀ bit < 64, (out.csrs.tdata1 i).getLsbD bit = true ↔ (h.csrs.tdata1 i).getLsbD bit = true ∧
      ¬(maskOf (typeOf (h.csrs.tdata1 i).toNat)).testBit bit = true := by
    intro i hi bit hbit
    rw [hwalked.tdata1 i hi, if_pos (Nat.zero_le i), cleared, BitVec.getLsbD_and, BitVec.getLsbD_not, BitVec.getLsbD_ofNat]
    simp [hbit]
  constructor
  · rintro ⟨out', hout, -, hdisabled⟩ i hi htype
    obtain ⟨-, rfl⟩ := (hexits _ _).mp hout
    by_contra hset9
    rw [Bool.not_eq_false] at hset9
    have hleft : (out'.csrs.tdata1 i).getLsbD 9 = true := by
      rw [hbits i hi 9 (by decide), testBit_maskOf _ (by decide)]
      exact ⟨hset9, fun hmask => hmask.2 ⟨htype, rfl⟩⟩
    have hcleared := ((hdisabled i hi 9 (by decide)).mp hleft).2 .m
    rcases htype with htype | htype <;> rw [htype] at hcleared <;> exact hcleared rfl
  · intro hmachine
    refine ⟨out, (hexits _ _).mpr ⟨rfl, rfl⟩, hwalked.other, fun i hi bit hbit => ?_⟩
    rw [hbits i hi bit hbit, testBit_maskOf _ hbit]
    refine and_congr_right fun hone => ?_
    have hnot : ¬((typeOf (h.csrs.tdata1 i).toNat = 4 ∨ typeOf (h.csrs.tdata1 i).toNat = 5) ∧ bit = 9) := by
      rintro ⟨htype, rfl⟩
      exact absurd (hone.symm.trans (hmachine i hi htype)) (by decide)
    rw [and_iff_left hnot, not_exists]

/-- A value that one of the four functions builds, or one of another type. -/
def Built (tdata1 : ℕ) : Prop :=
  (∃ triggerType action size chain matchType privMode,
    buildTdata1Mcontrol6 triggerType action size chain matchType privMode = .ok tdata1) ∨
  (∃ count action privMode pending, buildTdata1Icount count action privMode pending = .ok tdata1) ∨
  (∃ action privMode, buildTdata1Itrigger action privMode = .ok tdata1) ∨
  (∃ action privMode, buildTdata1Etrigger action privMode = .ok tdata1) ∨ typeOf tdata1 ∉ [3, 4, 5, 6]

/-- The flag of a hart. -/
def flagVariable : Variable where
  name := "check_excp_disable_triggers"
  value := 0
  size := 8
  offset := 0
  hartVariable := true

/-- A hart with the flag set and one trigger. -/
def oneTrigger (tdata1 : ℕ) : Hart 64 Csrs where
  core := { reg := fun _ => 0, mem := fun _ => 1, accesses := [] }
  csrs := { tselect := 0, tdata1 := fun _ => BitVec.ofNat 64 tdata1, other := fun _ => 0 }

theorem flagSet_oneTrigger (tdata1 : ℕ) : FlagSet (fun _ => 0) flagVariable (oneTrigger tdata1).core := by
  show FlagSet (fun _ => 0) flagVariable (oneTrigger 0).core
  intro flag hflag
  obtain rfl := Except.ok.inj hflag
  exact ⟨_, rfl, by decide +kernel⟩

/-- An execute trigger for machine and user mode. -/
theorem disabled_iff_execute : ∃ (lines : List Line) (out : Hart 64 Csrs), generate flagVariable = .ok lines ∧
    Exits (triggerFile 1) (fun _ => 0) lines lines (oneTrigger 0x600000000002004C) .done out ∧
      Disabled 1 (oneTrigger 0x600000000002004C).csrs out.csrs := by
  have hcause : (oneTrigger 0x600000000002004C).csrs.other "mcause" ≠ 3 := by decide
  have htype : ¬(typeOf (BitVec.ofNat 64 0x600000000002004C).toNat = 4 ∨
    typeOf (BitVec.ofNat 64 0x600000000002004C).toNat = 5) := by decide
  obtain ⟨out, hexits, hdisabled⟩ := (@disabled_iff 1 (fun _ => 0) (oneTrigger 0x600000000002004C) (by decide) flagVariable _ rfl
    (flagSet_oneTrigger _) hcause).mpr fun _ _ h => absurd h htype
  exact ⟨_, out, rfl, hexits, hdisabled⟩

/-- An interrupt trigger for all modes stays enabled for machine mode. -/
theorem not_disabled_itrigger :
    ¬ ∀ (n : ℕ) (symbols : String → BitVec 64) (v : Variable) (lines : List Line) (h : Hart 64 Csrs), n ≤ 64 →
      (∀ i < n, Built (h.csrs.tdata1 i).toNat) → generate v = .ok lines → FlagSet symbols v h.core →
      h.csrs.other "mcause" ≠ 3 →
        ∃ out, Exits (triggerFile n) symbols lines lines h .done out ∧ Disabled n h.csrs out.csrs := by
  intro hclaim
  have hbuilt : Built (BitVec.ofNat 64 0x4000000000001AC0).toNat :=
    .inr (.inr (.inl ⟨.breakpoint, defaultPrivMode, by decide +kernel⟩))
  obtain ⟨out, hexits, -, hdisabled⟩ := hclaim 1 (fun _ => 0) flagVariable _ (oneTrigger 0x4000000000001AC0) (by decide)
    (fun _ _ => hbuilt) rfl (flagSet_oneTrigger _) (by decide)
  obtain ⟨core, hrun, hnonzero⟩ := flagSet_oneTrigger 0x4000000000001AC0 _ rfl
  obtain ⟨out', hwalked, hexits'⟩ := @disableTriggers_exits 1 (fun _ => 0) _ (oneTrigger 0x4000000000001AC0) (by decide) core hrun
    hnonzero (by decide)
  obtain ⟨-, rfl⟩ := (hexits' _ _).mp hexits
  have hkept : (out.csrs.tdata1 0).getLsbD 9 = true := by
    rw [hwalked.tdata1 0 (by decide), if_pos (Nat.le_refl 0)]
    show (cleared (BitVec.ofNat 64 0x4000000000001AC0)).getLsbD 9 = true
    decide +kernel
  exact ((hdisabled 0 (by decide) 9 (by decide)).mp hkept).2 .m (by decide +kernel)

end Riescue.TriggerDisable
