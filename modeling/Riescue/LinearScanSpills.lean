import Riescue.LinearScanInterference

/-! When the scan spills. The loop compares the free registers of one type with the active values of all types, so it
spills while registers are free, and it can look for an active value of a type that has none. -/

namespace Riescue.LinearScan
open StableSort (sortBy mem_sortBy sortBy_perm)
variable {Ty : Type} [DecidableEq Ty]

/-! ### What cannot fail -/

omit [DecidableEq Ty] in
theorem RegisterPool.chooseRegister_total {candidates : List (Register Ty)} (h : candidates ≠ []) (rng : RandNum) :
    ∃ choice, RegisterPool.chooseRegister candidates none rng = .ok choice := by
  obtain ⟨reg, hreg⟩ := RandNum.randomEntryIn_isSome rng h
  rw [RegisterPool.chooseRegister]
  rcases hentry : rng.randomEntryIn candidates with ⟨entry, rng'⟩
  rw [hentry] at hreg
  obtain rfl : entry = some reg := hreg
  exact ⟨(reg, rng'), rfl⟩

namespace ScanState.Invariant
variable {input : ScanInput Ty} {s : ScanState Ty} {done : List (Interval Ty)} {now : ℕ}

theorem releaseAll_total (hinv : s.Invariant input done now) {expired : List (Interval Ty)}
    (hsubset : expired ⊆ s.active) (hnodup : expired.Nodup) (hstop : ∀ a ∈ expired, a.stop ≤ now) :
    ∃ pool, expired.foldlM (fun pool a => pool.free a.regName) s.regPool = .ok pool := by
  induction expired generalizing s with
  | nil => exact ⟨s.regPool, rfl⟩
  | cons a rest ih =>
      obtain ⟨hnotMem, hrest⟩ := List.nodup_cons.mp hnodup
      obtain ⟨ha, hsubset⟩ := List.cons_subset.mp hsubset
      obtain ⟨reg, hreg, -⟩ := hinv.active_owns a ha
      have hfree : s.regPool.free a.regName = .ok (s.regPool.giveBack a.regName reg) := by
        rw [RegisterPool.free, hreg]
      have hreleased := hinv.release ha (hstop a List.mem_cons_self) hfree
      have hrestSubset : rest ⊆ s.active.erase a := fun b hb =>
        (hinv.active_nodup.mem_erase_iff).mpr ⟨fun heq => hnotMem (heq ▸ hb), hsubset hb⟩
      obtain ⟨pool, hpool⟩ := ih hreleased hrestSubset hrest fun b hb => hstop b (List.mem_cons_of_mem _ hb)
      refine ⟨pool, ?_⟩
      rw [List.foldlM_cons, hfree]
      exact hpool

theorem expire_total (hinv : s.Invariant input done now) {start : ℕ} (hstart : now ≤ start) :
    ∃ visited, s.expire start = .ok visited := by
  have hsorted : (sortBy Interval.stop s.active).Nodup :=
    (sortBy_perm Interval.stop s.active).nodup_iff.mpr hinv.active_nodup
  obtain ⟨pool, hpool⟩ := (hinv.later hstart).releaseAll_total (fun a ha => mem_sortBy.mp (List.mem_of_mem_filter ha))
    (hsorted.filter _) (fun a ha => of_decide_eq_true (List.mem_filter.mp ha).2)
  rw [ScanState.expire, hpool]
  exact ⟨_, rfl⟩

theorem place_total (hinv : s.Invariant input done now) {interval : Interval Ty}
    (hnew : interval.regName ∉ done.map Interval.regName)
    (hhard : OrderedDict.get? input.hardcodedMap interval.regName = none)
    (hcandidates : s.regPool.candidateRegisters interval.regType (input.excludeRegisters interval) ≠ []) :
    ∃ s', place input s interval = .ok s' := by
  have hfresh : s.regPool.allocated interval.regName = none := by
    by_contra hsome
    obtain ⟨reg, hreg⟩ := Option.ne_none_iff_exists'.mp hsome
    obtain ⟨x, hx, hname⟩ := hinv.allocated_done _ _ hreg
    exact hnew (hname ▸ List.mem_map_of_mem hx)
  obtain ⟨choice, hchoice⟩ := RegisterPool.chooseRegister_total hcandidates s.rng
  rw [place]
  dsimp only
  rw [hhard]
  dsimp only
  rw [RegisterPool.allocate, hfresh, Option.isSome_none, if_neg Bool.false_ne_true, hchoice]
  exact ⟨_, rfl⟩

end ScanState.Invariant

/-! ### One step -/

/-- The slot of a value. -/
def slotOf (registerMap : List (String × VariableRecord Ty)) (regName : String) : Option (Slot Ty) :=
  (OrderedDict.get? registerMap regName).map VariableRecord.slot

omit [DecidableEq Ty] in
theorem slotOf_insert_self (registerMap : List (String × VariableRecord Ty)) (regName : String)
    (record : VariableRecord Ty) : slotOf (OrderedDict.insert registerMap regName record) regName = some record.slot := by
  rw [slotOf, OrderedDict.get?_insert_self]
  rfl

omit [DecidableEq Ty] in
theorem slotOf_insert_ne (registerMap : List (String × VariableRecord Ty)) {regName other : String}
    (record : VariableRecord Ty) (hne : other ≠ regName) :
    slotOf (OrderedDict.insert registerMap regName record) other = slotOf registerMap other := by
  rw [slotOf, OrderedDict.get?_insert_ne _ _ hne, slotOf]

/-- A step assigns a stack slot to a value. -/
def ScanState.AssignsStackSlot (s s' : ScanState Ty) : Prop :=
  ∃ regName offset, slotOf s'.registerMap regName = some (.stack offset) ∧
    slotOf s.registerMap regName ≠ some (.stack offset)

/-- The error that a spill next to the code of a privilege block raises. -/
def AllocFault.IsPrivilegeBlockSpill (fault : AllocFault) : Prop :=
  ∃ regName, fault = .spillInPrivilegeBlock regName

/-- No free register of the type of the value is left. -/
def ScanState.OutOfRegisters (input : ScanInput Ty) (s : ScanState Ty) (interval : Interval Ty) : Prop :=
  s.regPool.candidateRegisters interval.regType (input.excludeRegisters interval) = []

/-- Whenever the comparison calls for a spill, some active value has the type, and no register is free or the spill
would be in a privilege block. -/
def ScanState.SpillForced (input : ScanInput Ty) (s : ScanState Ty) (interval : Interval Ty) : Prop :=
  s.underPressure input interval = true → ∃ last, s.lastActive interval.regType = some last ∧
    (s.OutOfRegisters input interval ∨
      checkPrivilegeBlockSpill input (if interval.stop < last.stop then last else interval) ≠ .ok ())

/-- Values without a slot have not been visited. -/
def ScanState.Unmapped (s : ScanState Ty) (done : List (Interval Ty)) : Prop :=
  ∀ regName, regName ∉ done.map Interval.regName → OrderedDict.get? s.registerMap regName = none

omit [DecidableEq Ty] in
theorem checkPrivilegeBlockSpill_error {input : ScanInput Ty} {interval : Interval Ty}
    (h : checkPrivilegeBlockSpill input interval ≠ .ok ()) :
    checkPrivilegeBlockSpill input interval = .error (.spillInPrivilegeBlock interval.regName) := by
  unfold checkPrivilegeBlockSpill at h ⊢
  split_ifs with hany
  · rfl
  · exact absurd (if_neg hany) h

/-- The spill of a step that goes on. -/
theorem ScanState.Invariant.spill_total {input : ScanInput Ty} {s : ScanState Ty} {done : List (Interval Ty)} {now : ℕ}
    (hinv : s.Invariant input done now) {interval last : Interval Ty} (hlast : s.lastActive interval.regType = some last)
    (hcheck : checkPrivilegeBlockSpill input (if interval.stop < last.stop then last else interval) = .ok ()) :
    ∃ s', spill input s interval = .ok s' := by
  obtain ⟨reg, -, howns⟩ := hinv.active_owns last (ScanState.mem_active_of_lastActive hlast)
  obtain ⟨record, hrecord, -⟩ := Option.bind_eq_some_iff.mp howns
  rw [spill, hlast]
  dsimp only
  rw [hcheck]
  by_cases hstop : interval.stop < last.stop
  · refine ⟨s.steal interval last record (s.getSlot interval).1 (s.getSlot interval).2, ?_⟩
    change (if interval.stop < last.stop then _ else _) = _
    rw [if_pos hstop, hrecord]
    rfl
  · refine ⟨s.toStack interval (s.getSlot interval).1 (s.getSlot interval).2, ?_⟩
    change (if interval.stop < last.stop then _ else _) = _
    rw [if_neg hstop]
    rfl

section Step
variable {input : ScanInput Ty} {s s' : ScanState Ty} {done : List (Interval Ty)} {interval : Interval Ty}

theorem spill_assignsStackSlot (hinv : s.Invariant input done interval.start) (hunmapped : s.Unmapped done)
    (hnew : interval.regName ∉ done.map Interval.regName) (h : spill input s interval = .ok s') :
    s.AssignsStackSlot s' := by
  obtain ⟨last, offset, spilled, hlast, ⟨-, record, -, rfl⟩ | ⟨-, rfl⟩⟩ := spill_ok h
  · refine ⟨last.regName, offset, slotOf_insert_self _ _ _, fun hslot => ?_⟩
    obtain ⟨reg, -, howns⟩ := hinv.active_owns last (ScanState.mem_active_of_lastActive hlast)
    obtain ⟨record', hrecord', hname⟩ := Option.bind_eq_some_iff.mp howns
    rw [slotOf, hrecord', Option.map_some, Option.some_inj] at hslot
    rw [hslot] at hname
    cases hname
  · refine ⟨interval.regName, offset, slotOf_insert_self _ _ _, fun hslot => ?_⟩
    rw [slotOf, hunmapped _ hnew] at hslot
    cases hslot

theorem not_place_assignsStackSlot (hinput : input.HardCodesRegisters) (h : place input s interval = .ok s') :
    ¬ s.AssignsStackSlot s' := by
  obtain ⟨reg, record, rng, -, -, hslot, -, rfl⟩ := place_ok hinput h
  rintro ⟨regName, offset, hstack, hbefore⟩
  by_cases hname : regName = interval.regName
  · rw [hname, ScanState.occupy, slotOf_insert_self, Option.some_inj] at hstack
    rw [hstack] at hslot
    cases hslot
  · exact hbefore ((slotOf_insert_ne _ _ hname).symm.trans hstack)

theorem ScanState.Unmapped.assign (hinput : input.HardCodesRegisters) (hunmapped : s.Unmapped done)
    (hinv : s.Invariant input done interval.start) (h : LinearScan.assign input s interval = .ok s') :
    s'.Unmapped (interval :: done) := by
  intro regName hname
  rw [List.map_cons, List.mem_cons, not_or] at hname
  have hbefore := hunmapped regName hname.2
  unfold LinearScan.assign at h
  split_ifs at h
  · obtain ⟨last, offset, spilled, hlast, ⟨-, record, -, rfl⟩ | ⟨-, rfl⟩⟩ := spill_ok h
    · have hdone := hinv.active_subset (ScanState.mem_active_of_lastActive hlast)
      have hne : regName ≠ last.regName := fun heq => hname.2 (heq ▸ List.mem_map_of_mem hdone)
      rw [ScanState.steal, OrderedDict.get?_insert_ne _ _ hne, OrderedDict.get?_insert_ne _ _ hname.1, hbefore]
    · rw [ScanState.toStack, OrderedDict.get?_insert_ne _ _ hname.1, hbefore]
  · obtain ⟨reg, record, rng, -, -, -, -, rfl⟩ := place_ok hinput h
    rw [ScanState.occupy, OrderedDict.get?_insert_ne _ _ hname.1, hbefore]

/-- What one step promises: it raises nothing but the error of privilege blocks, and a spill means that no register was
left. -/
def StepForced (input : ScanInput Ty) (s : ScanState Ty) (interval : Interval Ty) : Prop :=
  (∀ fault, assign input s interval = .error fault → fault.IsPrivilegeBlockSpill) ∧
    ∀ s', assign input s interval = .ok s' → s.AssignsStackSlot s' → s.OutOfRegisters input interval

theorem stepForced_iff (hinput : input.hardcodedMap = []) (hinv : s.Invariant input done interval.start)
    (hunmapped : s.Unmapped done) (hnew : interval.regName ∉ done.map Interval.regName) :
    StepForced input s interval ↔ s.SpillForced input interval := by
  have hregisters : input.HardCodesRegisters := by
    intro regName record hget
    rw [hinput] at hget
    cases hget
  unfold StepForced
  by_cases hpressure : s.underPressure input interval = true
  · have hassign : assign input s interval = spill input s interval := if_pos hpressure
    rw [hassign]
    cases hlast : s.lastActive interval.regType with
    | none =>
        have hspill : spill input s interval = .error .stopIteration := by rw [spill, hlast]
        refine iff_of_false (fun h => ?_) fun h => ?_
        · obtain ⟨regName, hfault⟩ := h.1 _ hspill
          cases hfault
        · obtain ⟨last, hsome, -⟩ := h hpressure
          cases hlast.symm.trans hsome
    | some last =>
        by_cases hcheck : checkPrivilegeBlockSpill input (if interval.stop < last.stop then last else interval) = .ok ()
        · obtain ⟨s', hspill⟩ := hinv.spill_total hlast hcheck
          rw [hspill]
          constructor
          · intro h _
            exact ⟨last, hlast, .inl (h.2 s' rfl (spill_assignsStackSlot hinv hunmapped hnew hspill))⟩
          · intro h
            obtain ⟨last', hlast', hforced⟩ := h hpressure
            obtain rfl := Option.some.inj (hlast.symm.trans hlast')
            refine ⟨fun _ hfault => (by cases hfault), fun s'' _ _ => hforced.resolve_right fun hne => hne hcheck⟩
        · have hspill : ∃ regName, spill input s interval = .error (.spillInPrivilegeBlock regName) := by
            rw [spill, hlast]
            dsimp only
            rw [checkPrivilegeBlockSpill_error hcheck]
            exact ⟨_, rfl⟩
          obtain ⟨regName, hspill⟩ := hspill
          rw [hspill]
          refine iff_of_true ⟨fun fault hfault => ⟨regName, (Except.error.inj hfault).symm⟩, fun _ h => (by cases h)⟩ ?_
          exact fun _ => ⟨last, hlast, .inr hcheck⟩
  · have hassign : assign input s interval = place input s interval := if_neg hpressure
    have hcandidates : s.regPool.candidateRegisters interval.regType (input.excludeRegisters interval) ≠ [] := by
      intro hnil
      refine hpressure (decide_eq_true ?_)
      rw [hnil]
      exact Nat.zero_le _
    obtain ⟨s', hplace⟩ := hinv.place_total hnew (by rw [hinput]; rfl) hcandidates
    rw [hassign, hplace]
    refine iff_of_true ⟨fun _ h => (by cases h), fun s'' h hslot => ?_⟩ fun h => absurd h hpressure
    rw [← Except.ok.inj h] at hslot
    exact absurd hslot (not_place_assignsStackSlot hregisters hplace)

end Step

/-! ### Runs -/

theorem scan_forced_iff {input : ScanInput Ty} (hinput : input.hardcodedMap = []) {intervals done : List (Interval Ty)}
    {s : ScanState Ty} {now : ℕ} (hinv : s.Invariant input done now) (hunmapped : s.Unmapped done)
    (hpending : Pending done now intervals) :
    ((∀ fault, scan input s intervals = .error fault → fault.IsPrivilegeBlockSpill) ∧
      ∀ interval visited s', Visits input s intervals interval visited → assign input visited interval = .ok s' →
        visited.AssignsStackSlot s' → visited.OutOfRegisters input interval) ↔
      ∀ interval visited, Visits input s intervals interval visited → visited.SpillForced input interval := by
  have hregisters : input.HardCodesRegisters := by
    intro regName record hget
    rw [hinput] at hget
    cases hget
  induction intervals generalizing s done now with
  | nil =>
      have hnone : ∀ {interval visited}, ¬ Visits input s [] interval visited := by
        rintro interval visited ⟨before, after, -, hnil, -⟩
        exact absurd hnil.symm (by simp)
      exact iff_of_true ⟨fun _ h => (by cases h), fun _ _ _ h => absurd h hnone⟩ fun _ _ h => absurd h hnone
  | cons x rest ih =>
      obtain ⟨hnow, hnew, hnext⟩ := hpending.next
      obtain ⟨visited, hexpire⟩ := hinv.expire_total hnow
      have hvisited := hinv.expire hnow hexpire
      have hvisitedUnmapped : visited.Unmapped done := by
        intro regName hname
        rw [(ScanState.expire_ok hexpire).1]
        exact hunmapped regName hname
      have hstep : scanStep input s x = assign input visited x := by rw [scanStep, hexpire]; rfl
      have hiff := stepForced_iff hinput hvisited hvisitedUnmapped hnew
      have hhead : Visits input s (x :: rest) x visited := visits_head rest hexpire
      -- the visits of the list are the head and, when its step succeeds, the visits of the tail
      have hsplit : ∀ {interval visited'}, Visits input s (x :: rest) interval visited' →
          (interval = x ∧ visited' = visited) ∨
            ∃ s'', assign input visited x = .ok s'' ∧ Visits input s'' rest interval visited' := by
        intro interval visited' hvisits
        rcases visits_cons hvisits with ⟨rfl, hexpire'⟩ | ⟨s'', hs'', hvisits⟩
        · exact .inl ⟨rfl, Except.ok.inj (hexpire'.symm.trans hexpire)⟩
        · exact .inr ⟨s'', hstep ▸ hs'', hvisits⟩
      have hscan : scan input s (x :: rest) = assign input visited x >>= fun s'' => scan input s'' rest := by
        rw [scan, List.foldlM_cons, hstep]
        rfl
      cases hassign : assign input visited x with
      | error fault =>
          rw [hscan, hassign]
          have honly : ∀ {interval visited'}, Visits input s (x :: rest) interval visited' →
              interval = x ∧ visited' = visited := by
            intro interval visited' hvisits
            refine (hsplit hvisits).resolve_right ?_
            rintro ⟨_, hs, -⟩
            cases hassign.symm.trans hs
          constructor
          · intro h interval visited' hvisits
            obtain ⟨rfl, rfl⟩ := honly hvisits
            refine hiff.mp ⟨fun fault' hfault => ?_, fun s' hs' => (by cases hassign.symm.trans hs')⟩
            obtain rfl := Except.error.inj (hassign.symm.trans hfault)
            exact h.1 fault rfl
          · intro h
            have hforced := hiff.mpr (h x visited hhead)
            refine ⟨fun fault' hfault => ?_, fun interval visited' s' hvisits hs' => ?_⟩
            · obtain rfl := Except.error.inj hfault
              exact hforced.1 fault hassign
            · obtain ⟨rfl, rfl⟩ := honly hvisits
              exact hforced.2 s' hs'
      | ok s'' =>
          have hinv'' := hvisited.assign hregisters hnew hassign
          have hunmapped'' := hvisitedUnmapped.assign hregisters hvisited hassign
          have hih := ih hinv'' hunmapped'' hnext
          have hrest : ∀ {interval visited'}, Visits input s'' rest interval visited' →
              Visits input s (x :: rest) interval visited' := fun h => visits_tail (hstep.trans hassign) h
          rw [hscan, hassign]
          change ((∀ fault, scan input s'' rest = .error fault → _) ∧ _) ↔ _
          constructor
          · intro h interval visited' hvisits
            rcases hsplit hvisits with ⟨rfl, rfl⟩ | ⟨s₁, hs₁, hvisits'⟩
            · refine hiff.mp ⟨fun fault hfault => (by cases hassign.symm.trans hfault), fun s' hs' => ?_⟩
              exact h.2 interval visited' s' hvisits hs'
            · obtain rfl := Except.ok.inj (hassign.symm.trans hs₁)
              exact hih.mp ⟨h.1, fun interval visited s' hv => h.2 interval visited s' (hrest hv)⟩ interval visited' hvisits'
          · intro h
            obtain ⟨hfaults, hspills⟩ := hih.mpr fun interval visited hv => h interval visited (hrest hv)
            refine ⟨hfaults, fun interval visited' s' hvisits hs' => ?_⟩
            rcases hsplit hvisits with ⟨rfl, rfl⟩ | ⟨s₁, hs₁, hvisits'⟩
            · exact (hiff.mpr (h interval visited' hvisits)).2 s' hs'
            · obtain rfl := Except.ok.inj (hassign.symm.trans hs₁)
              exact hspills interval visited' s' hvisits' hs'

/-! ### The clobber map -/

/-- Every call reads its address from an instruction of the list. -/
def CallsKnown (instructions : List (Instruction Ty)) : Prop :=
  ∀ instr ∈ instructions, instr.name = "jalr_ra" →
    ∃ rs1 li, instr.rs1 = some (.str rs1) ∧ instrMap instructions rs1 = some li

omit [DecidableEq Ty] in
theorem clobberedBy_total_iff {instructions : List (Instruction Ty)}
    {globalFunctionClobbers : List (String × List (Register Ty))} {instr : Instruction Ty} :
    (∃ names, clobberedBy instructions globalFunctionClobbers instr = .ok names) ↔
      (instr.name = "jalr_ra" → ∃ rs1 li, instr.rs1 = some (.str rs1) ∧ instrMap instructions rs1 = some li) := by
  rw [clobberedBy]
  by_cases hname : instr.name = "jalr_ra"
  · rw [if_pos hname, forall_prop_of_true hname]
    split
    · next rs1 hrs1 =>
        cases hli : instrMap instructions rs1 with
        | none =>
            refine iff_of_false Fallible.not_error_ok ?_
            rintro ⟨rs1', li, hrs1', hli'⟩
            obtain rfl : rs1 = rs1' := OperandVal.str.inj (Option.some.inj (hrs1.symm.trans hrs1'))
            cases hli.symm.trans hli'
        | some li =>
            refine iff_of_true ?_ ⟨rs1, li, hrs1, hli⟩
            dsimp only
            split <;> exact ⟨_, rfl⟩
    · next hother =>
        refine iff_of_false Fallible.not_error_ok ?_
        rintro ⟨rs1, -, hrs1, -⟩
        exact hother rs1 hrs1
  · rw [if_neg hname]
    exact iff_of_true ⟨_, rfl⟩ fun h => absurd h hname

theorem scanInput_total_iff {instructions : List (Instruction Ty)}
    {globalFunctionClobbers : List (String × List (Register Ty))} :
    (∃ input, scanInput instructions globalFunctionClobbers = .ok input) ↔ CallsKnown instructions := by
  have hfold : (∃ clobbered, clobberMap instructions globalFunctionClobbers = .ok clobbered) ↔
      ∀ entry ∈ instructions.zipIdx, ∃ names, clobberedBy instructions globalFunctionClobbers entry.1 = .ok names := by
    refine Fallible.foldlM_ok_iff (fun clobbered entry => ?_) _ _
    cases clobberedBy instructions globalFunctionClobbers entry.1 with
    | error fault => exact iff_of_false Fallible.not_error_ok Fallible.not_error_ok
    | ok names => cases names <;> exact iff_of_true ⟨_, rfl⟩ ⟨_, rfl⟩
  have hmap : (∃ input, scanInput instructions globalFunctionClobbers = .ok input) ↔
      ∃ clobbered, clobberMap instructions globalFunctionClobbers = .ok clobbered := by
    constructor
    · rintro ⟨input, hinput⟩
      obtain ⟨clobbered, hclobbered, -⟩ := Fallible.bind_ok hinput
      exact ⟨clobbered, hclobbered⟩
    · rintro ⟨clobbered, hclobbered⟩
      rw [scanInput, hclobbered]
      exact ⟨_, rfl⟩
  rw [hmap]
  refine hfold.trans ⟨fun h instr hinstr => ?_, fun h entry hentry => ?_⟩
  · obtain ⟨i, hi, rfl⟩ := List.getElem_of_mem hinstr
    exact clobberedBy_total_iff.mp
      (h (instructions[i], i) (List.mk_mem_zipIdx_iff_getElem?.mpr (List.getElem?_eq_getElem hi)))
  · exact clobberedBy_total_iff.mpr (h entry.1 (List.fst_mem_of_mem_zipIdx hentry))

/-! ### The whole scan -/

/-- The scan raises nothing but the error of privilege blocks, and it assigns stack slots only when no register of the
type is free. -/
structure SpillsOnlyWhenForced (riscvRegisters : List (Register Ty))
    (globalFunctionClobbers : List (String × List (Register Ty))) (instructions : List (Instruction Ty)) (rng : RandNum)
    (intervals : LiveIntervals Ty) : Prop where
  faults : ∀ fault, linearScan riscvRegisters globalFunctionClobbers instructions rng = .error fault →
    fault.IsPrivilegeBlockSpill
  spills : ∀ input, scanInput instructions globalFunctionClobbers = .ok input → ∀ interval visited s',
    Visits input (.init riscvRegisters input rng) (liveIntervalList intervals) interval visited →
      assign input visited interval = .ok s' → visited.AssignsStackSlot s' → visited.OutOfRegisters input interval

omit [DecidableEq Ty] in
/-- The faults of the clobber map are not the error of privilege blocks. -/
theorem clobberMap_fault {instructions : List (Instruction Ty)}
    {globalFunctionClobbers : List (String × List (Register Ty))} {fault : AllocFault}
    (h : clobberMap instructions globalFunctionClobbers = .error fault) : ¬ fault.IsPrivilegeBlockSpill := by
  have hone : ∀ {instr : Instruction Ty}, clobberedBy instructions globalFunctionClobbers instr = .error fault →
      ¬ fault.IsPrivilegeBlockSpill := by
    rintro instr hfault ⟨regName, rfl⟩
    rw [clobberedBy] at hfault
    by_cases hname : instr.name = "jalr_ra"
    · rw [if_pos hname] at hfault
      split at hfault
      · split at hfault
        · cases hfault
        · split at hfault <;> cases hfault
      · cases hfault
    · rw [if_neg hname] at hfault
      cases hfault
  obtain ⟨clobbered, entry, hfault⟩ := Fallible.foldlM_error h
  cases hnames : clobberedBy instructions globalFunctionClobbers entry.1 with
  | error fault' =>
      rw [hnames] at hfault
      obtain rfl := Except.error.inj hfault
      exact hone hnames
  | ok names =>
      rw [hnames] at hfault
      cases names <;> cases hfault

theorem hardcodedMap_eq_nil {instructions : List (Instruction Ty)}
    (hhard : ∀ instr ∈ instructions, instr.hardCoded = none) : analyzeHardcoded instructions = [] := by
  rw [analyzeHardcoded]
  refine List.foldlRecOn (motive := fun hardcoded => hardcoded = []) _ _ rfl fun hardcoded hnil entry hentry => ?_
  rw [hhard entry.1 (List.fst_mem_of_mem_zipIdx hentry)]
  exact hnil

/-- The scan spills only when it must if and only if the calls are known and the comparison calls for a spill only when
one is forced. -/
theorem linearScan_spillsOnlyWhenForced_iff {riscvRegisters : List (Register Ty)}
    (hregisters : (riscvRegisters.map Register.name).Nodup) {instructions : List (Instruction Ty)}
    (hhard : ∀ instr ∈ instructions, instr.hardCoded = none) {intervals : LiveIntervals Ty}
    (hintervals : analyze instructions = .ok intervals)
    (globalFunctionClobbers : List (String × List (Register Ty))) (rng : RandNum) :
    SpillsOnlyWhenForced riscvRegisters globalFunctionClobbers instructions rng intervals ↔
      CallsKnown instructions ∧ ∀ input, scanInput instructions globalFunctionClobbers = .ok input →
        ∀ interval visited,
          Visits input (.init riscvRegisters input rng) (liveIntervalList intervals) interval visited →
            visited.SpillForced input interval := by
  have hrun : linearScan riscvRegisters globalFunctionClobbers instructions rng =
      scanInput instructions globalFunctionClobbers >>= fun input =>
        scan input (.init riscvRegisters input rng) (liveIntervalList intervals) := by
    rw [linearScan, hintervals]
    rfl
  cases hinput : scanInput instructions globalFunctionClobbers with
  | error fault =>
      refine iff_of_false (fun h => ?_) fun h => ?_
      · have hfault : clobberMap instructions globalFunctionClobbers = .error fault := by
          cases hclobbered : clobberMap instructions globalFunctionClobbers with
          | error fault' =>
              rw [scanInput, hclobbered] at hinput
              change (Except.error fault' : Except AllocFault (ScanInput Ty)) = .error fault at hinput
              exact congrArg Except.error (Except.error.inj hinput)
          | ok clobbered =>
              rw [scanInput, hclobbered] at hinput
              cases hinput
        refine clobberMap_fault hfault (h.faults fault ?_)
        rw [hrun, hinput]
        rfl
      · obtain ⟨input, hok⟩ := scanInput_total_iff.mpr h.1
        cases hinput.symm.trans hok
  | ok input =>
      have hempty : input.hardcodedMap = [] := by
        obtain ⟨clobbered, -, h⟩ := Fallible.bind_ok hinput
        rw [← Except.ok.inj h]
        exact hardcodedMap_eq_nil hhard
      have hunmapped : (ScanState.init riscvRegisters input rng).Unmapped [] := by
        intro regName _
        rw [ScanState.init, hempty]
        rfl
      have hiff := scan_forced_iff hempty (ScanState.invariant_init hregisters input rng) hunmapped
        (pending_liveIntervalList (analyze_ok hintervals).1)
      rw [and_iff_right (scanInput_total_iff.mp ⟨input, hinput⟩)]
      rw [hinput] at hrun
      constructor
      · rintro ⟨hfaults, hspills⟩ input' hinput'
        obtain rfl := Except.ok.inj hinput'
        exact hiff.mp ⟨fun fault hfault => hfaults fault (hrun.trans hfault), hspills input hinput⟩
      · intro h
        obtain ⟨hfaults, hspills⟩ := hiff.mpr (h input rfl)
        refine ⟨fun fault hfault => hfaults fault (hrun.symm.trans hfault), fun input' hinput' => ?_⟩
        obtain rfl := Except.ok.inj (hinput.symm.trans hinput')
        exact hspills

/-- With thirteen values in registers and thirteen registers free, the fourteenth value is spilled. -/
theorem not_linearScan_spillsOnlyWhenForced :
    ¬ ∀ (riscvRegisters : List (Register String)) (globalFunctionClobbers : List (String × List (Register String)))
      (instructions : List (Instruction String)) (rng : RandNum) (intervals : LiveIntervals String),
      (riscvRegisters.map Register.name).Nodup → (instructions.filterMap Instruction.definedName).Nodup →
      (∀ instr ∈ instructions, instr.hardCoded = none) → analyze instructions = .ok intervals →
      SpillsOnlyWhenForced riscvRegisters globalFunctionClobbers instructions rng intervals := by
  intro h
  let instructions := fourteenValues (loadImmediate "val13" (.str "val13"))
  have hvisit : ((analyze instructions).toOption.any fun intervals => (scanInput instructions []).toOption.any fun input =>
      (scan input (.init integerRegisters input ⟨[]⟩) ((liveIntervalList intervals).take 13)).toOption.any fun s =>
        (s.expire 13).toOption.any fun visited =>
          (assign input visited ⟨13, 20, "val13", "GPR"⟩).toOption.any fun s' =>
            decide (slotOf s'.registerMap "val13" = some (.stack 0)) && decide (slotOf visited.registerMap "val13" = none) &&
              decide (visited.regPool.candidateRegisters "GPR" (input.excludeRegisters ⟨13, 20, "val13", "GPR"⟩) ≠ []) &&
              decide ((liveIntervalList intervals)[13]? = some ⟨13, 20, "val13", "GPR"⟩)) = true := by
    decide +kernel
  obtain ⟨intervals, hintervals, hvisit⟩ := (Option.any_eq_true _ _).mp hvisit
  obtain ⟨input, hinput, hvisit⟩ := (Option.any_eq_true _ _).mp hvisit
  obtain ⟨s, hs, hvisit⟩ := (Option.any_eq_true _ _).mp hvisit
  obtain ⟨visited, hvisited, hvisit⟩ := (Option.any_eq_true _ _).mp hvisit
  obtain ⟨s', hs', hvisit⟩ := (Option.any_eq_true _ _).mp hvisit
  simp only [Bool.and_eq_true, decide_eq_true_eq] at hvisit
  obtain ⟨⟨⟨hslot, hbefore⟩, hfree⟩, hat⟩ := hvisit
  obtain ⟨hlt, hget⟩ := List.getElem?_eq_some_iff.mp hat
  have hforced := h integerRegisters [] instructions ⟨[]⟩ intervals (by decide +kernel) (by decide +kernel)
    (by decide +kernel) (Fallible.toOption_some hintervals)
  refine hfree (hforced.spills input (Fallible.toOption_some hinput) ⟨13, 20, "val13", "GPR"⟩
    visited s' ?_ (Fallible.toOption_some hs') ?_)
  · refine ⟨(liveIntervalList intervals).take 13, (liveIntervalList intervals).drop 14, s, ?_,
      Fallible.toOption_some hs, Fallible.toOption_some hvisited⟩
    rw [← hget, ← List.drop_eq_getElem_cons hlt, List.take_append_drop]
  · exact ⟨"val13", 0, hslot, hbefore ▸ nofun⟩

/-- The theorem at the fourteen values. -/
theorem linearScan_spillsOnlyWhenForced_fourteenValues :
    ∃ intervals : LiveIntervals String, analyze (fourteenValues (loadImmediate "val13" (.str "val13"))) = .ok intervals ∧
      (SpillsOnlyWhenForced integerRegisters [] (fourteenValues (loadImmediate "val13" (.str "val13"))) ⟨[]⟩ intervals ↔
        CallsKnown (fourteenValues (loadImmediate "val13" (.str "val13"))) ∧
          ∀ input, scanInput (fourteenValues (loadImmediate "val13" (.str "val13"))) [] = .ok input →
            ∀ interval visited,
              Visits input (.init integerRegisters input ⟨[]⟩) (liveIntervalList intervals) interval visited →
                visited.SpillForced input interval) := by
  obtain ⟨intervals, hintervals⟩ := Fallible.exists_ok
    (x := analyze (fourteenValues (loadImmediate "val13" (.str "val13")))) (by decide +kernel)
  exact ⟨intervals, hintervals,
    linearScan_spillsOnlyWhenForced_iff (by decide +kernel) (by decide +kernel) hintervals [] ⟨[]⟩⟩

end Riescue.LinearScan
