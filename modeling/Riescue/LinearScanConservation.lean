import Riescue.LinearScanSpills

/-! The registers of the pool along the scan. A register is free or allocated at every step, but a value that takes the
register of another one becomes no active value, so that nothing frees the register when it ends. -/

namespace Riescue.LinearScan
open StableSort (sortBy mem_sortBy)
variable {Ty : Type} [DecidableEq Ty]

/-- The pool has the registers it started with, each of them free or allocated to one value. -/
structure RegisterPool.Conserves (pool start : RegisterPool Ty) : Prop where
  wellFormed : pool.WellFormed
  covers : ∀ reg, reg ∈ start.freeRegs ↔ reg ∈ pool.freeRegs ∨ ∃ tempRegName, pool.allocated tempRegName = some reg

/-- Every allocated register belongs to an active value, or it was handed to one of the values visited that is live at the time. -/
def ScanState.Accounted (s : ScanState Ty) (done : List (Interval Ty)) (time : ℕ) : Prop :=
  ∀ regName reg, s.regPool.allocated regName = some reg →
    (∃ a ∈ s.active, a.regName = regName) ∨ ∃ x ∈ done, time ≤ x.stop ∧ registerOf s.registerMap x.regName = some reg.name

/-- The pool at every step of the loop, and once all its values have expired. -/
structure PoolConserved (input : ScanInput Ty) (init : ScanState Ty) (intervals : List (Interval Ty)) : Prop where
  expired : ∀ before interval after s visited, intervals = before ++ interval :: after → scan input init before = .ok s →
    s.expire interval.start = .ok visited →
      visited.regPool.Conserves init.regPool ∧ visited.Accounted before (interval.start + 1)
  assigned : ∀ before interval after s s', intervals = before ++ interval :: after → scan input init before = .ok s →
    scanStep input s interval = .ok s' →
      s'.regPool.Conserves init.regPool ∧ s'.Accounted (before ++ [interval]) interval.start
  final : ∀ s, scan input init intervals = .ok s → ∀ time, (∀ x ∈ intervals, x.start ≤ time ∧ x.stop ≤ time) →
    ∃ s', s.expire time = .ok s' ∧ ∀ reg ∈ init.regPool.freeRegs, reg ∈ s'.regPool.freeRegs

/-- The value takes the register of the last active value of its type, which ends later. -/
def ScanState.Steals (input : ScanInput Ty) (s : ScanState Ty) (interval : Interval Ty) : Prop :=
  s.underPressure input interval = true ∧ ∃ last, s.lastActive interval.regType = some last ∧ interval.stop < last.stop

/-! ### Conservation -/

namespace RegisterPool
variable {pool pool' start : RegisterPool Ty}

omit [DecidableEq Ty] in
theorem Conserves.giveBack (h : pool.Conserves start) {tempRegName : String} {reg : Register Ty}
    (hreg : pool.allocated tempRegName = some reg) : (pool.giveBack tempRegName reg).Conserves start where
  wellFormed := h.wellFormed.giveBack hreg
  covers := by
    intro other
    rw [h.covers, RegisterPool.giveBack, List.mem_append, List.mem_singleton]
    constructor
    · rintro (hfree | ⟨name, hname⟩)
      · exact .inl (.inl hfree)
      · by_cases heq : name = tempRegName
        · obtain rfl := heq
          exact .inl (.inr (Option.some.inj (hname.symm.trans hreg)))
        · exact .inr ⟨name, allocated_giveBack.mpr ⟨heq, hname⟩⟩
    · rintro ((hfree | rfl) | ⟨name, hname⟩)
      · exact .inl hfree
      · exact .inr ⟨tempRegName, hreg⟩
      · exact .inr ⟨name, (allocated_giveBack.mp hname).2⟩

theorem Conserves.take (h : pool.Conserves start) {tempRegName : String} {reg : Register Ty} (hfree : reg ∈ pool.freeRegs)
    (hfresh : pool.allocated tempRegName = none) : (pool.take tempRegName reg).Conserves start where
  wellFormed := h.wellFormed.take hfree tempRegName
  covers := by
    intro other
    rw [h.covers, (List.perm_cons_erase hfree).mem_iff, List.mem_cons]
    constructor
    · rintro ((rfl | hother) | ⟨name, hname⟩)
      · exact .inr ⟨tempRegName, allocated_take.mpr (.inl ⟨rfl, rfl⟩)⟩
      · exact .inl hother
      · refine .inr ⟨name, allocated_take.mpr (.inr ⟨?_, hname⟩)⟩
        rintro rfl
        exact nomatch hname.symm.trans hfresh
    · rintro (hother | ⟨name, hname⟩)
      · exact .inl (.inr hother)
      · rcases allocated_take.mp hname with ⟨-, rfl⟩ | ⟨-, hold⟩
        · exact .inl (.inl rfl)
        · exact .inr ⟨name, hold⟩

omit [DecidableEq Ty] in
theorem Conserves.releaseAll (h : pool.Conserves start) {expired : List (Interval Ty)}
    (hfree : expired.foldlM (fun pool a => pool.free a.regName) pool = .ok pool') : pool'.Conserves start := by
  induction expired generalizing pool with
  | nil =>
      obtain rfl := Except.ok.inj hfree
      exact h
  | cons a rest ih =>
      rw [List.foldlM_cons] at hfree
      obtain ⟨next, hnext, hfree⟩ := Fallible.bind_ok hfree
      obtain ⟨reg, hreg, rfl⟩ := free_ok hnext
      exact ih (h.giveBack hreg) hfree

omit [DecidableEq Ty] in
/-- The values whose registers are given back have none. -/
theorem allocated_releaseAll {expired : List (Interval Ty)}
    (hfree : expired.foldlM (fun pool a => pool.free a.regName) pool = .ok pool') {regName : String} {reg : Register Ty} :
    pool'.allocated regName = some reg ↔ (∀ a ∈ expired, a.regName ≠ regName) ∧ pool.allocated regName = some reg := by
  induction expired generalizing pool with
  | nil =>
      obtain rfl := Except.ok.inj hfree
      exact ⟨fun h => ⟨nofun, h⟩, And.right⟩
  | cons a rest ih =>
      rw [List.foldlM_cons] at hfree
      obtain ⟨next, hnext, hfree⟩ := Fallible.bind_ok hfree
      obtain ⟨reg', hreg', rfl⟩ := free_ok hnext
      rw [ih hfree, allocated_giveBack, List.forall_mem_cons]
      exact ⟨fun ⟨hrest, hne, h⟩ => ⟨⟨hne.symm, hrest⟩, h⟩, fun ⟨⟨hne, hrest⟩, h⟩ => ⟨hrest, hne.symm, h⟩⟩

end RegisterPool

omit [DecidableEq Ty] in
theorem conserves_expire {start : RegisterPool Ty} {s s' : ScanState Ty} {time : ℕ} (h : s.regPool.Conserves start)
    (hexpire : s.expire time = .ok s') : s'.regPool.Conserves start := by
  obtain ⟨-, -, pool, hpool, rfl⟩ := ScanState.expire_ok hexpire
  exact h.releaseAll hpool

theorem conserves_assign {input : ScanInput Ty} (hinput : input.HardCodesRegisters) {start : RegisterPool Ty}
    {s s' : ScanState Ty} {interval : Interval Ty} (h : s.regPool.Conserves start) (hassign : assign input s interval = .ok s') :
    s'.regPool.Conserves start := by
  unfold assign at hassign
  split_ifs at hassign
  · obtain ⟨last, offset, spilled, -, ⟨-, record, -, rfl⟩ | ⟨-, rfl⟩⟩ := spill_ok hassign
    · exact h
    · exact h
  · obtain ⟨reg, record, rng, hfresh, hreg, -, -, rfl⟩ := place_ok hinput hassign
    exact h.take (RegisterPool.mem_freeRegs_of_candidate hreg).1 hfresh

/-! ### Owners -/

/-- Every allocated register belongs to an active value. -/
def ScanState.Owned (s : ScanState Ty) : Prop :=
  ∀ regName reg, s.regPool.allocated regName = some reg → ∃ a ∈ s.active, a.regName = regName

namespace ScanState.Owned
variable {input : ScanInput Ty} {s s' : ScanState Ty}

omit [DecidableEq Ty] in
theorem accounted (h : s.Owned) (done : List (Interval Ty)) (time : ℕ) : s.Accounted done time :=
  fun regName reg hreg => .inl (h regName reg hreg)

omit [DecidableEq Ty] in
theorem expire (h : s.Owned) {time : ℕ} (hexpire : s.expire time = .ok s') : s'.Owned := by
  obtain ⟨-, -, pool, hpool, rfl⟩ := ScanState.expire_ok hexpire
  intro regName reg hreg
  obtain ⟨hkept, hold⟩ := (RegisterPool.allocated_releaseAll hpool).mp hreg
  obtain ⟨a, ha, hname⟩ := h regName reg hold
  refine ⟨a, List.mem_filter.mpr ⟨mem_sortBy.mpr ha, ?_⟩, hname⟩
  rw [Bool.not_eq_true']
  refine decide_eq_false fun hstop => hkept a (List.mem_filter.mpr ⟨mem_sortBy.mpr ha, decide_eq_true hstop⟩) hname

/-- A step that takes no register of another value leaves every register with an active one. -/
theorem assign (hinput : input.HardCodesRegisters) (h : s.Owned) {interval : Interval Ty} (hno : ¬ s.Steals input interval)
    (hassign : LinearScan.assign input s interval = .ok s') : s'.Owned := by
  unfold LinearScan.assign at hassign
  split_ifs at hassign with hpressure
  · obtain ⟨last, offset, spilled, hlast, ⟨hstop, -⟩ | ⟨-, rfl⟩⟩ := spill_ok hassign
    · exact absurd ⟨hpressure, last, hlast, hstop⟩ hno
    · exact h
  · obtain ⟨reg, record, rng, -, -, -, -, rfl⟩ := place_ok hinput hassign
    intro regName reg' hreg
    rcases RegisterPool.allocated_take.mp hreg with ⟨rfl, -⟩ | ⟨-, hold⟩
    · exact ⟨interval, List.mem_append_right _ (List.mem_singleton_self _), rfl⟩
    · obtain ⟨a, ha, hname⟩ := h regName reg' hold
      exact ⟨a, List.mem_append_left _ ha, hname⟩

theorem scan (hinput : input.HardCodesRegisters) (h : s.Owned) {before after : List (Interval Ty)}
    (hno : ∀ interval visited, Visits input s (before ++ after) interval visited → ¬ visited.Steals input interval)
    (hrun : LinearScan.scan input s before = .ok s') : s'.Owned := by
  induction before generalizing s with
  | nil =>
      obtain rfl := Except.ok.inj hrun
      exact h
  | cons x rest ih =>
      obtain ⟨next, hstep, hrun⟩ := scan_cons_ok hrun
      obtain ⟨visited, hexpire, hassign⟩ := Fallible.bind_ok hstep
      have hnext := (h.expire hexpire).assign hinput (hno x visited (visits_head _ hexpire)) hassign
      exact ih hnext (fun interval visited' hvisits => hno interval visited' (visits_tail hstep hvisits)) hrun

end ScanState.Owned

/-! ### Leaks -/

/-- A register is allocated to a value that was visited and is not active. -/
structure ScanState.Leaks (s : ScanState Ty) (done : List (Interval Ty)) (regName : String) (reg : Register Ty) : Prop where
  allocated : s.regPool.allocated regName = some reg
  inactive : ∀ a ∈ s.active, a.regName ≠ regName
  visited : regName ∈ done.map Interval.regName

namespace ScanState.Leaks
variable {input : ScanInput Ty} {s s' : ScanState Ty} {done : List (Interval Ty)} {regName : String} {reg : Register Ty}

omit [DecidableEq Ty] in
theorem expire (h : s.Leaks done regName reg) {time : ℕ} (hexpire : s.expire time = .ok s') : s'.Leaks done regName reg := by
  obtain ⟨-, hsubset, pool, hpool, rfl⟩ := ScanState.expire_ok hexpire
  refine ⟨(RegisterPool.allocated_releaseAll hpool).mpr ⟨fun a ha => ?_, h.allocated⟩, fun a ha => h.inactive a (hsubset ha),
    h.visited⟩
  exact h.inactive a (mem_sortBy.mp (List.mem_of_mem_filter ha))

theorem assign (hinput : input.HardCodesRegisters) (h : s.Leaks done regName reg) {interval : Interval Ty}
    (hnew : interval.regName ∉ done.map Interval.regName) (hassign : LinearScan.assign input s interval = .ok s') :
    s'.Leaks (interval :: done) regName reg := by
  have hvisited : regName ∈ (interval :: done).map Interval.regName := List.mem_cons_of_mem _ h.visited
  have hne : interval.regName ≠ regName := fun heq => hnew (heq ▸ h.visited)
  unfold LinearScan.assign at hassign
  split_ifs at hassign
  · obtain ⟨last, offset, spilled, -, ⟨-, record, -, rfl⟩ | ⟨-, rfl⟩⟩ := spill_ok hassign
    · exact ⟨h.allocated, fun a ha => h.inactive a (List.mem_of_mem_erase ha), hvisited⟩
    · exact ⟨h.allocated, h.inactive, hvisited⟩
  · obtain ⟨reg', record, rng, -, -, -, -, rfl⟩ := place_ok hinput hassign
    refine ⟨RegisterPool.allocated_take.mpr (.inr ⟨hne.symm, h.allocated⟩), fun a ha => ?_, hvisited⟩
    rcases List.mem_append.mp ha with hold | hself
    · exact h.inactive a hold
    · rwa [List.mem_singleton.mp hself]

theorem scan (hinput : input.HardCodesRegisters) (h : s.Leaks done regName reg) {now : ℕ} {intervals : List (Interval Ty)}
    (hpending : Pending done now intervals) (hrun : LinearScan.scan input s intervals = .ok s') :
    s'.Leaks (intervals.reverse ++ done) regName reg := by
  induction intervals generalizing s done now with
  | nil =>
      obtain rfl := Except.ok.inj hrun
      exact h
  | cons x rest ih =>
      obtain ⟨-, hnew, hpending⟩ := hpending.next
      obtain ⟨next, hstep, hrun⟩ := scan_cons_ok hrun
      obtain ⟨visited, hexpire, hassign⟩ := Fallible.bind_ok hstep
      rw [List.reverse_cons, List.append_assoc]
      exact ih ((h.expire hexpire).assign hinput hnew hassign) hpending hrun

end ScanState.Leaks

/-- Whoever loses its register keeps it in the pool. -/
theorem ScanState.Invariant.leaks_of_steals {input : ScanInput Ty} {s s' : ScanState Ty} {done : List (Interval Ty)}
    {interval : Interval Ty} (hinv : s.Invariant input done interval.start) (hsteals : s.Steals input interval)
    (hassign : LinearScan.assign input s interval = .ok s') : ∃ regName reg, s'.Leaks (interval :: done) regName reg := by
  obtain ⟨hpressure, last, hlast, hstop⟩ := hsteals
  rw [LinearScan.assign, if_pos hpressure] at hassign
  obtain ⟨last', offset, spilled, hlast', hcase⟩ := spill_ok hassign
  obtain rfl := Option.some.inj (hlast.symm.trans hlast')
  obtain ⟨-, record, -, rfl⟩ | ⟨hnot, -⟩ := hcase
  · have hmem := ScanState.mem_active_of_lastActive hlast
    obtain ⟨reg, hreg, -⟩ := hinv.active_owns last hmem
    refine ⟨last.regName, reg, hreg, fun a ha heq => ?_, ?_⟩
    · obtain ⟨hne, ha⟩ := (hinv.active_nodup.mem_erase_iff).mp ha
      exact hne (hinv.eq_of_regName (hinv.active_subset ha) (hinv.active_subset hmem) heq)
    · exact List.mem_cons_of_mem _ (List.mem_map_of_mem (hinv.active_subset hmem))
  · exact absurd hstop hnot

/-! ### Runs -/

/-- The states that the loop reaches. -/
theorem ScanState.Invariant.reached {input : ScanInput Ty} (hinput : input.HardCodesRegisters) {s s' : ScanState Ty}
    {done before after : List (Interval Ty)} {now : ℕ} {start : RegisterPool Ty} (hinv : s.Invariant input done now)
    (hconserves : s.regPool.Conserves start) (hpending : Pending done now (before ++ after))
    (hrun : LinearScan.scan input s before = .ok s') :
    ∃ now', s'.Invariant input (before.reverse ++ done) now' ∧ s'.regPool.Conserves start ∧
      Pending (before.reverse ++ done) now' after ∧
      ∀ time, now ≤ time → (∀ x ∈ before, x.start ≤ time) → now' ≤ time := by
  induction before generalizing s done now with
  | nil =>
      obtain rfl := Except.ok.inj hrun
      exact ⟨now, hinv, hconserves, hpending, fun _ htime _ => htime⟩
  | cons x rest ih =>
      obtain ⟨next, hstep, hrun⟩ := scan_cons_ok hrun
      obtain ⟨visited, hexpire, -, hassign, hnext⟩ := hinv.scanStep hinput hpending hstep
      obtain ⟨now', hinv', hconserves', hpending', hle⟩ :=
        ih hnext (conserves_assign hinput (conserves_expire hconserves hexpire) hassign) hpending.next.2.2 hrun
      rw [List.reverse_cons, List.append_assoc]
      refine ⟨now', hinv', hconserves', hpending', fun time _ hstarts => ?_⟩
      obtain ⟨hx, hrest⟩ := List.forall_mem_cons.mp hstarts
      exact hle time hx hrest

theorem scan_append_ok {input : ScanInput Ty} {s s' : ScanState Ty} {before after : List (Interval Ty)}
    (h : scan input s (before ++ after) = .ok s') : ∃ middle,
      scan input s before = .ok middle ∧ scan input middle after = .ok s' := by
  rw [scan, List.foldlM_append] at h
  exact Fallible.bind_ok h

omit [DecidableEq Ty] in
theorem exists_after (intervals : List (Interval Ty)) : ∃ time, ∀ x ∈ intervals, x.start ≤ time ∧ x.stop ≤ time := by
  induction intervals with
  | nil => exact ⟨0, nofun⟩
  | cons x rest ih =>
      obtain ⟨time, htime⟩ := ih
      refine ⟨x.start + x.stop + time, List.forall_mem_cons.mpr ⟨⟨by omega, by omega⟩, fun y hy => ?_⟩⟩
      obtain ⟨hstart, hstop⟩ := htime y hy
      exact ⟨by omega, by omega⟩

section
variable {input : ScanInput Ty} {init final : ScanState Ty} {intervals : List (Interval Ty)}

/-- A run in which no value takes the register of another one conserves the registers. -/
theorem poolConserved_of_noSteals (hinput : input.HardCodesRegisters) (hinit : init.Invariant input [] 0)
    (hconserves : init.regPool.Conserves init.regPool) (howned : init.Owned) (hpending : Pending [] 0 intervals)
    (hno : ∀ interval visited, Visits input init intervals interval visited → ¬ visited.Steals input interval) :
    PoolConserved input init intervals where
  expired := by
    rintro before interval after s visited rfl hrun hexpire
    obtain ⟨now, -, hconserves', -, -⟩ := hinit.reached hinput hconserves hpending hrun
    exact ⟨conserves_expire hconserves' hexpire, ((howned.scan hinput hno hrun).expire hexpire).accounted _ _⟩
  assigned := by
    rintro before interval after s s' rfl hrun hstep
    obtain ⟨visited, hexpire, hassign⟩ := Fallible.bind_ok hstep
    obtain ⟨now, -, hconserves', -, -⟩ := hinit.reached hinput hconserves hpending hrun
    have hnoSteal := hno interval visited ⟨before, after, s, rfl, hrun, hexpire⟩
    exact ⟨conserves_assign hinput (conserves_expire hconserves' hexpire) hassign,
      (((howned.scan hinput hno hrun).expire hexpire).assign hinput hnoSteal hassign).accounted _ _⟩
  final := by
    intro s hrun time htime
    rw [← List.append_nil intervals] at hpending hno
    obtain ⟨now, hinv, hconserves', -, hle⟩ := hinit.reached hinput hconserves hpending hrun
    obtain ⟨s', hexpire⟩ := hinv.expire_total (hle time (Nat.zero_le _) fun x hx => (htime x hx).1)
    refine ⟨s', hexpire, fun reg hreg => ?_⟩
    rcases ((conserves_expire hconserves' hexpire).covers reg).mp hreg with hfree | ⟨name, hname⟩
    · exact hfree
    · -- its owner would be active, but all have expired
      obtain ⟨a, ha, -⟩ := ((howned.scan hinput hno hrun).expire hexpire) name reg hname
      obtain ⟨-, hsubset, pool, -, rfl⟩ := ScanState.expire_ok hexpire
      have hdone := hinv.active_subset (hsubset ha)
      rw [List.append_nil, List.mem_reverse] at hdone
      have hstop := (List.mem_filter.mp ha).2
      rw [decide_eq_true (htime a hdone).2] at hstop
      exact absurd hstop Bool.false_ne_true

/-- In a run that returns, a register that was taken from a value is never free again. -/
theorem noSteals_of_poolConserved (hinput : input.HardCodesRegisters) (hinit : init.Invariant input [] 0)
    (hconserves : init.regPool.Conserves init.regPool) (hpending : Pending [] 0 intervals)
    (hrun : scan input init intervals = .ok final) (hpool : PoolConserved input init intervals) :
    ∀ interval visited, Visits input init intervals interval visited → ¬ visited.Steals input interval := by
  rintro interval visited ⟨before, after, s, rfl, hbefore, hexpire⟩ hsteals
  obtain ⟨time, htime⟩ := exists_after (before ++ interval :: after)
  obtain ⟨now, hinv, hconserves', hpending', -⟩ := hinit.reached hinput hconserves hpending hbefore
  obtain ⟨hnow, hnew, hrest⟩ := hpending'.next
  obtain ⟨s₁, hs₁, hafter⟩ := scan_append_ok hrun
  obtain rfl := Except.ok.inj (hbefore.symm.trans hs₁)
  obtain ⟨s₂, hstep, hafter⟩ := scan_cons_ok hafter
  obtain ⟨visited', hexpire', hassign⟩ := Fallible.bind_ok hstep
  obtain rfl := Except.ok.inj (hexpire.symm.trans hexpire')
  have hvisited := hinv.expire hnow hexpire
  obtain ⟨regName, reg, hleak⟩ := hvisited.leaks_of_steals hsteals hassign
  have hlast := hleak.scan hinput hrest hafter
  obtain ⟨s', hs', hfree⟩ := hpool.final final hrun time htime
  have hstart : reg ∈ init.regPool.freeRegs :=
    ((conserves_assign hinput (conserves_expire hconserves' hexpire) hassign).covers reg).mpr (.inr ⟨regName, hleak.allocated⟩)
  -- the pool of the end has it free and allocated
  rw [← List.append_nil (before ++ interval :: after)] at hpending
  obtain ⟨-, -, hend, -, -⟩ := hinit.reached hinput hconserves hpending hrun
  have hboth := (conserves_expire hend hs').wellFormed.allocated_notMem _ _ (hlast.expire hs').allocated
  exact hboth (List.mem_map_of_mem (hfree reg hstart))

end

omit [DecidableEq Ty] in
/-- The state before the loop. -/
theorem conserves_init {riscvRegisters : List (Register Ty)} (hregisters : (riscvRegisters.map Register.name).Nodup) :
    (RegisterPool.init riscvRegisters).Conserves (.init riscvRegisters) where
  wellFormed := RegisterPool.wellFormed_init hregisters
  covers := fun _ => ⟨.inl, fun h => h.elim id fun ⟨_, hname⟩ => nomatch hname⟩

/-- The registers of the pool are conserved if no step of the loop takes the register of an active value, and in a run that
returns only then. -/
theorem linearScan_poolConserved_iff {riscvRegisters : List (Register Ty)}
    (hregisters : (riscvRegisters.map Register.name).Nodup) {instructions : List (Instruction Ty)}
    {globalFunctionClobbers : List (String × List (Register Ty))} (rng : RandNum) {intervals : LiveIntervals Ty}
    {input : ScanInput Ty} (hintervals : analyze instructions = .ok intervals)
    (hinput : scanInput instructions globalFunctionClobbers = .ok input) :
    ((∀ interval visited, Visits input (.init riscvRegisters input rng) (liveIntervalList intervals) interval visited →
        ¬ visited.Steals input interval) →
      PoolConserved input (.init riscvRegisters input rng) (liveIntervalList intervals)) ∧
    ∀ final, linearScan riscvRegisters globalFunctionClobbers instructions rng = .ok final →
      PoolConserved input (.init riscvRegisters input rng) (liveIntervalList intervals) →
        ∀ interval visited, Visits input (.init riscvRegisters input rng) (liveIntervalList intervals) interval visited →
          ¬ visited.Steals input interval := by
  have hregs := hardCodesRegisters_scanInput hinput
  have hinit := ScanState.invariant_init hregisters input rng
  have hpending := pending_liveIntervalList (analyze_ok hintervals).1
  have hconserves := conserves_init hregisters
  refine ⟨poolConserved_of_noSteals hregs hinit hconserves (fun _ _ h => nomatch h) hpending, fun final hscan => ?_⟩
  exact noSteals_of_poolConserved hregs hinit hconserves hpending (scan_of_linearScan hintervals hinput hscan)

/-- The theorem at fourteen values, the last of which goes to the stack. -/
theorem linearScan_poolConserved_fourteenValues :
    ∃ (intervals : LiveIntervals String) (input : ScanInput String),
      analyze (fourteenValues (loadImmediate "val13" (.str "val13"))) = .ok intervals ∧
      scanInput (fourteenValues (loadImmediate "val13" (.str "val13"))) [] = .ok input ∧
      ((∀ interval visited, Visits input (.init integerRegisters input ⟨[]⟩) (liveIntervalList intervals) interval visited →
          ¬ visited.Steals input interval) →
        PoolConserved input (.init integerRegisters input ⟨[]⟩) (liveIntervalList intervals)) := by
  let instructions := fourteenValues (loadImmediate "val13" (.str "val13"))
  obtain ⟨intervals, hintervals⟩ := Fallible.exists_ok (x := analyze instructions) (by decide +kernel)
  obtain ⟨input, hinput⟩ := Fallible.exists_ok (x := scanInput instructions []) (by decide +kernel)
  exact ⟨intervals, input, hintervals, hinput,
    (linearScan_poolConserved_iff (by decide +kernel) ⟨[]⟩ hintervals hinput).1⟩

/-- Fourteen values, the last of which is read first. -/
def lastReadFirst : List (Instruction String) :=
  valueNames.map (fun name => loadImmediate name (.str name)) ++ loadImmediate "val13" (.str "val13") ::
    [storeDouble "sd0" "val13" "val0", storeDouble "sd1" "val1" "val2", storeDouble "sd2" "val3" "val4",
      storeDouble "sd3" "val5" "val6", storeDouble "sd4" "val7" "val8", storeDouble "sd5" "val9" "val10",
      storeDouble "sd6" "val11" "val12"]

/-- The last value takes the register of another one, which is not free when all the values have expired. -/
theorem not_linearScan_poolConserved :
    ∃ (intervals : LiveIntervals String) (input : ScanInput String) (final : ScanState String),
      analyze lastReadFirst = .ok intervals ∧ scanInput lastReadFirst [] = .ok input ∧
      linearScan integerRegisters [] lastReadFirst ⟨[]⟩ = .ok final ∧
      ¬ PoolConserved input (.init integerRegisters input ⟨[]⟩) (liveIntervalList intervals) := by
  have hlost : (linearScan integerRegisters [] lastReadFirst ⟨[]⟩).toOption.any (fun final =>
      (final.expire 21).toOption.any fun s' => (RegisterPool.init integerRegisters).freeRegs.any fun reg =>
        !s'.regPool.freeRegs.contains reg) = true := by decide +kernel
  have hends : (analyze lastReadFirst).toOption.any (fun intervals =>
      (liveIntervalList intervals).all fun x => decide (x.start ≤ 21 ∧ x.stop ≤ 21)) = true := by decide +kernel
  obtain ⟨final, hfinal, hlost⟩ := (Option.any_eq_true _ _).mp hlost
  obtain ⟨intervals, hintervals, hends⟩ := (Option.any_eq_true _ _).mp hends
  obtain ⟨input, hinput⟩ := Fallible.exists_ok (x := scanInput lastReadFirst []) (by decide +kernel)
  refine ⟨intervals, input, final, Fallible.toOption_some hintervals, hinput, Fallible.toOption_some hfinal, fun hpool => ?_⟩
  have hrun := scan_of_linearScan (Fallible.toOption_some hintervals) hinput (Fallible.toOption_some hfinal)
  obtain ⟨s', hexpire, hfree⟩ := hpool.final final hrun 21 fun x hx => of_decide_eq_true (List.all_eq_true.mp hends x hx)
  rw [hexpire] at hlost
  obtain ⟨reg, hreg, hmissing⟩ := List.any_eq_true.mp hlost
  rw [List.contains_iff_mem.mpr (hfree reg hreg)] at hmissing
  exact absurd hmissing Bool.false_ne_true

end Riescue.LinearScan
