import Riescue.LinearScanSpills
import Riescue.LibAllocation

/-! What the live intervals and the map of registers say about the program: an interval starts where its value is defined and
ends at its last use, so that a map without stack slots keeps every value in its register while it is still read. -/

namespace Riescue.LinearScan
variable {Ty : Type}

/-! ### The ends of the intervals -/

/-- An instruction of the list uses a value. -/
def UsedAt (instructions : List (Instruction Ty)) (name : String) (j : ℕ) : Prop :=
  ∃ instr, instructions[j]? = some instr ∧ ∃ src ∈ instr.source, src.usedName = some name

theorem get?_analyzeDestination {instr : Instruction Ty} {i : ℕ} {intervals intervals' : LiveIntervals Ty}
    (h : analyzeDestination instr i intervals = .ok intervals') (name : String) :
    (instr.definedName ≠ some name → OrderedDict.get? intervals' name = OrderedDict.get? intervals name) ∧
      (instr.definedName = some name → OrderedDict.get? intervals name = none →
        ∃ interval, OrderedDict.get? intervals' name = some interval ∧ interval.start = i ∧ interval.stop = i) := by
  unfold analyzeDestination at h
  split at h
  · next hdest =>
      obtain rfl := Except.ok.inj h
      refine ⟨fun _ => rfl, fun hname => ?_⟩
      rw [Instruction.definedName, hdest] at hname
      cases hname
  · next dest hdest =>
      split_ifs at h with hregister
      · obtain rfl := Except.ok.inj h
        refine ⟨fun _ => rfl, fun hname => ?_⟩
        rw [Instruction.definedName, hdest] at hname
        obtain ⟨type, val, isRegister⟩ := dest
        obtain rfl : isRegister = false := by simpa using hregister
        cases val <;> cases hname
      · split at h
        · cases h
        · next defined hdefined =>
            rw [hdefined]
            split at h
            · obtain rfl := Except.ok.inj h
              refine ⟨fun hne => OrderedDict.get?_insert_ne _ _ fun heq => hne (congrArg some heq.symm), fun hname _ => ?_⟩
              obtain rfl := Option.some.inj hname
              exact ⟨_, OrderedDict.get?_insert_self _ _ _, rfl, rfl⟩
            · next interval hget =>
                obtain rfl := Except.ok.inj h
                refine ⟨fun hne => OrderedDict.get?_insert_ne _ _ fun heq => hne (congrArg some heq.symm), fun hname hnone => ?_⟩
                obtain rfl := Option.some.inj hname
                cases hget.symm.trans hnone

/-- The first loop leaves alone what no instruction defines. -/
theorem get?_analyzeDestinations {entries : List (Instruction Ty × ℕ)} {start defined : LiveIntervals Ty}
    (h : entries.foldlM (fun intervals entry => analyzeDestination entry.1 entry.2 intervals) start = .ok defined)
    {name : String} (hname : ∀ entry ∈ entries, entry.1.definedName ≠ some name) :
    OrderedDict.get? defined name = OrderedDict.get? start name := by
  induction entries generalizing start with
  | nil => rw [Except.ok.inj h]
  | cons entry rest ih =>
      obtain ⟨hhead, hrest⟩ := List.forall_mem_cons.mp hname
      rw [List.foldlM_cons] at h
      obtain ⟨next, hnext, h⟩ := Fallible.bind_ok h
      exact (ih h hrest).trans ((get?_analyzeDestination hnext name).1 hhead)

/-- The first loop gives a value the interval of its definition. -/
theorem exists_analyzeDestinations {entries : List (Instruction Ty × ℕ)} {start defined : LiveIntervals Ty}
    (h : entries.foldlM (fun intervals entry => analyzeDestination entry.1 entry.2 intervals) start = .ok defined)
    (hnodup : ((entries.map Prod.fst).filterMap Instruction.definedName).Nodup) {name : String}
    (hstart : OrderedDict.get? start name = none) {entry : Instruction Ty × ℕ} (hentry : entry ∈ entries)
    (hname : entry.1.definedName = some name) :
    ∃ interval, OrderedDict.get? defined name = some interval ∧ interval.start = entry.2 ∧ interval.stop = entry.2 := by
  induction entries generalizing start with
  | nil => cases hentry
  | cons head rest ih =>
      rw [List.foldlM_cons] at h
      obtain ⟨next, hnext, hloop⟩ := Fallible.bind_ok h
      obtain ⟨hother, hself⟩ := get?_analyzeDestination hnext name
      rw [List.map_cons] at hnodup
      by_cases hhead : head.1.definedName = some name
      · rw [List.filterMap_cons_some hhead] at hnodup
        obtain ⟨hnotMem, hnodup⟩ := List.nodup_cons.mp hnodup
        have hrest : ∀ entry ∈ rest, entry.1.definedName ≠ some name :=
          fun entry hmem heq => hnotMem (List.mem_filterMap.mpr ⟨entry.1, List.mem_map_of_mem hmem, heq⟩)
        rcases List.mem_cons.mp hentry with rfl | hmem
        · rw [get?_analyzeDestinations hloop hrest]
          exact hself hname hstart
        · exact absurd hname (hrest entry hmem)
      · have hnodup' := hnodup.sublist ((List.sublist_cons_self head.1 (rest.map Prod.fst)).filterMap _)
        have hmem : entry ∈ rest := (List.mem_cons.mp hentry).resolve_left fun heq => hhead (heq ▸ hname)
        exact ih hloop hnodup' ((hother hhead).trans hstart) hmem

/-- The uses extend an interval to the last one. -/
theorem exists_analyzeSources (uses : List (ℕ × Operand Ty)) {start : LiveIntervals Ty} {name : String}
    {interval : Interval Ty} (hget : OrderedDict.get? start name = some interval) :
    ∃ interval', OrderedDict.get? (uses.foldl (fun intervals use => analyzeSource use.1 intervals use.2) start) name =
        some interval' ∧ interval'.start = interval.start ∧ interval.stop ≤ interval'.stop ∧
      (∀ use ∈ uses, use.2.usedName = some name → use.1 ≤ interval'.stop) ∧
      (interval'.stop = interval.stop ∨ ∃ use ∈ uses, use.2.usedName = some name ∧ interval'.stop = use.1) := by
  induction uses generalizing start interval with
  | nil => exact ⟨interval, hget, rfl, le_refl _, fun _ h => absurd h List.not_mem_nil, .inl rfl⟩
  | cons use rest ih =>
      by_cases hname : use.2.usedName = some name
      · have hnext : OrderedDict.get? (analyzeSource use.1 start use.2) name =
            some { interval with stop := max interval.stop use.1 } := by
          rw [analyzeSource, hname]
          dsimp only
          rw [OrderedDict.get?_insert_self, hget]
          rfl
        obtain ⟨interval', hget', hstart, hstop, hall, hlast⟩ := ih hnext
        refine ⟨interval', hget', hstart, (le_max_left _ _).trans hstop, List.forall_mem_cons.mpr ⟨fun _ => ?_, hall⟩, ?_⟩
        · exact (le_max_right _ _).trans hstop
        · rcases hlast with hlast | ⟨other, hother, hlast⟩
          · rcases max_choice interval.stop use.1 with hmax | hmax
            · exact .inl (hlast.trans hmax)
            · exact .inr ⟨use, List.mem_cons_self, hname, hlast.trans hmax⟩
          · exact .inr ⟨other, List.mem_cons_of_mem use hother, hlast⟩
      · have hnext : OrderedDict.get? (analyzeSource use.1 start use.2) name = some interval := by
          rw [analyzeSource]
          cases hused : use.2.usedName with
          | none => exact hget
          | some other =>
              dsimp only
              rw [OrderedDict.get?_insert_ne _ _ fun heq => hname (hused.trans (congrArg some heq.symm))]
              exact hget
        obtain ⟨interval', hget', hstart, hstop, hall, hlast⟩ := ih hnext
        refine ⟨interval', hget', hstart, hstop, List.forall_mem_cons.mpr ⟨fun h => absurd h hname, hall⟩, ?_⟩
        exact hlast.imp_right fun ⟨other, hother, hlast⟩ => ⟨other, List.mem_cons_of_mem use hother, hlast⟩

/-- The uses of a program, with the places of their instructions. -/
def uses (instructions : List (Instruction Ty)) : List (ℕ × Operand Ty) :=
  instructions.zipIdx.flatMap fun entry => entry.1.source.map fun src => (entry.2, src)

theorem mem_uses {instructions : List (Instruction Ty)} {j : ℕ} {src : Operand Ty} :
    (j, src) ∈ uses instructions ↔ ∃ instr, instructions[j]? = some instr ∧ src ∈ instr.source := by
  rw [uses, List.mem_flatMap]
  constructor
  · rintro ⟨⟨instr, i⟩, hentry, hmem⟩
    obtain ⟨src', hsrc, heq⟩ := List.mem_map.mp hmem
    obtain ⟨rfl, rfl⟩ := Prod.mk.inj heq
    exact ⟨instr, List.mk_mem_zipIdx_iff_getElem?.mp hentry, hsrc⟩
  · rintro ⟨instr, hget, hsrc⟩
    exact ⟨(instr, j), List.mk_mem_zipIdx_iff_getElem?.mpr hget, List.mem_map_of_mem hsrc⟩

/-- The second loop goes through the uses. -/
theorem foldl_analyzeSource (instructions : List (Instruction Ty)) (defined : LiveIntervals Ty) :
    instructions.zipIdx.foldl (fun intervals entry => entry.1.source.foldl (analyzeSource entry.2) intervals) defined =
      (uses instructions).foldl (fun intervals use => analyzeSource use.1 intervals use.2) defined := by
  rw [uses, List.foldl_flatMap]
  simp only [List.foldl_map]

/-- The interval of a value reaches from its definition to its last use. -/
theorem exists_interval {instructions : List (Instruction Ty)} {intervals : LiveIntervals Ty}
    (h : analyze instructions = .ok intervals) (hdefined : (instructions.filterMap Instruction.definedName).Nodup)
    {i : ℕ} {instr : Instruction Ty} (hget : instructions[i]? = some instr) {name : String}
    (hname : instr.definedName = some name) :
    ∃ interval, OrderedDict.get? intervals name = some interval ∧ interval.start = i ∧ i ≤ interval.stop ∧
      (∀ j, UsedAt instructions name j → j ≤ interval.stop) ∧
      (i < interval.stop → UsedAt instructions name interval.stop) := by
  obtain ⟨defined, hfirst, h⟩ := Fallible.bind_ok h
  obtain rfl := Except.ok.inj h
  have hnodup : ((instructions.zipIdx.map Prod.fst).filterMap Instruction.definedName).Nodup := by rwa [List.zipIdx_map_fst]
  obtain ⟨first, hfirstGet, hstart, hstop⟩ := exists_analyzeDestinations hfirst hnodup (OrderedDict.get?_nil name)
    (List.mk_mem_zipIdx_iff_getElem?.mpr hget) hname
  rw [foldl_analyzeSource]
  obtain ⟨interval, hintervalGet, hstart', hstop', hall, hlast⟩ := exists_analyzeSources (uses instructions) hfirstGet
  refine ⟨interval, hintervalGet, hstart'.trans hstart, hstop.symm.le.trans hstop', ?_, fun hlt => ?_⟩
  · rintro j ⟨instr', hget', src, hsrc, hused⟩
    exact hall (j, src) (mem_uses.mpr ⟨instr', hget', hsrc⟩) hused
  · rcases hlast with hlast | ⟨⟨j, src⟩, hmem, hused, hlast⟩
    · exact absurd (hlast.trans hstop) (by omega)
    · obtain ⟨instr', hget', hsrc⟩ := mem_uses.mp hmem
      exact ⟨instr', hlast ▸ hget', src, hsrc, hused⟩

theorem mem_clobberMap {instructions : List (Instruction Ty)} {globalFunctionClobbers : List (String × List (Register Ty))}
    {clobbered : List (ℕ × List String)} (h : clobberMap instructions globalFunctionClobbers = .ok clobbered) {i : ℕ}
    {instr : Instruction Ty} (hget : instructions[i]? = some instr) {names : List String}
    (hnames : clobberedBy instructions globalFunctionClobbers instr = .ok (some names)) : (i, names) ∈ clobbered := by
  let adds : Instruction Ty × ℕ → ℕ × List String → Prop := fun entry clobber =>
    clobberedBy instructions globalFunctionClobbers entry.1 = .ok (some clobber.2) ∧ clobber.1 = entry.2
  have hcollects : [] ⊆ clobbered ∧ ∀ entry ∈ instructions.zipIdx, ∀ clobber, adds entry clobber → clobber ∈ clobbered := by
    refine Fallible.foldlM_collects ?_ h
    intro start entry next hnext
    obtain ⟨found, hfound, hnext⟩ := Fallible.bind_ok hnext
    cases found with
    | none =>
        obtain rfl := Except.ok.inj hnext
        refine ⟨List.Subset.refl _, fun clobber hadds => ?_⟩
        cases Except.ok.inj (hfound.symm.trans hadds.1)
    | some found =>
        obtain rfl := Except.ok.inj hnext
        refine ⟨List.subset_append_left _ _, ?_⟩
        rintro ⟨j, names'⟩ ⟨hadds, rfl⟩
        obtain rfl := Option.some.inj (Except.ok.inj (hfound.symm.trans hadds))
        exact List.mem_append_right _ (List.mem_singleton_self _)
  exact hcollects.2 (instr, i) (List.mk_mem_zipIdx_iff_getElem?.mpr hget) (i, names) ⟨hnames, rfl⟩

/-! ### A scan without stack slots -/

variable [DecidableEq Ty]

/-- All registers of the pool, free or allocated, are among some names. -/
structure RegisterPool.Within (names : List String) (pool : RegisterPool Ty) : Prop where
  free : ∀ reg ∈ pool.freeRegs, reg.name ∈ names
  allocated : ∀ tempRegName reg, pool.allocated tempRegName = some reg → reg.name ∈ names

namespace RegisterPool.Within
variable {names : List String} {pool : RegisterPool Ty}

omit [DecidableEq Ty] in
theorem releaseAll (h : pool.Within names) {expired : List (Interval Ty)} {pool' : RegisterPool Ty}
    (hfree : expired.foldlM (fun pool a => pool.free a.regName) pool = .ok pool') : pool'.Within names := by
  induction expired generalizing pool with
  | nil => exact Except.ok.inj hfree ▸ h
  | cons a rest ih =>
      rw [List.foldlM_cons] at hfree
      obtain ⟨next, hnext, hfree⟩ := Fallible.bind_ok hfree
      obtain ⟨reg, hreg, rfl⟩ := RegisterPool.free_ok hnext
      refine ih ⟨fun other hother => ?_, fun tempRegName other hother => ?_⟩ hfree
      · rcases List.mem_append.mp hother with hold | hnew
        · exact h.free other hold
        · exact List.mem_singleton.mp hnew ▸ h.allocated _ reg hreg
      · exact h.allocated tempRegName other (RegisterPool.allocated_giveBack.mp hother).2

theorem take (h : pool.Within names) {reg : Register Ty} (hreg : reg ∈ pool.freeRegs) (tempRegName : String) :
    (pool.take tempRegName reg).Within names where
  free := fun other hother => h.free other (List.erase_subset hother)
  allocated := by
    intro name other hother
    rcases RegisterPool.allocated_take.mp hother with ⟨-, rfl⟩ | ⟨-, hother⟩
    · exact h.free reg hreg
    · exact h.allocated name other hother

end RegisterPool.Within

/-- The values have registers among some names, each the one that it hard-codes. -/
structure ScanState.Registered (input : ScanInput Ty) (names : List String) (s : ScanState Ty) (done : List (Interval Ty)) :
    Prop where
  pool : s.regPool.Within names
  mapped : ∀ x ∈ done, ∃ name ∈ names, registerOf s.registerMap x.regName = some name
  hardCoded : s.HardCoded input done

theorem spilled_assign {input : ScanInput Ty} (hinput : input.HardCodesRegisters) {s s' : ScanState Ty}
    {interval : Interval Ty} (h : assign input s interval = .ok s') (hnone : s'.spilled = []) :
    s.spilled = [] ∧ s.underPressure input interval = false := by
  unfold assign at h
  split_ifs at h with hpressure
  · have hslot : s'.spilled = (s.getSlot interval).2 := by
      unfold spill at h
      split at h
      · cases h
      · obtain ⟨-, -, h⟩ := Fallible.bind_ok h
        dsimp only at h
        split_ifs at h
        · split at h
          · cases h
          · exact (congrArg ScanState.spilled (Except.ok.inj h)).symm
        · exact (congrArg ScanState.spilled (Except.ok.inj h)).symm
    rw [hslot, ScanState.getSlot] at hnone
    split_ifs at hnone with hmem
    · have hnone : s.spilled = [] := hnone
      rw [hnone] at hmem
      cases hmem
    · exact absurd hnone (List.concat_ne_nil interval s.spilled)
  · obtain ⟨reg, record, rng, -, -, -, -, rfl⟩ := place_ok hinput h
    exact ⟨hnone, Bool.eq_false_iff.mpr hpressure⟩

theorem spilled_scan {input : ScanInput Ty} (hinput : input.HardCodesRegisters) {intervals : List (Interval Ty)}
    {s s' : ScanState Ty} (h : LinearScan.scan input s intervals = .ok s') (hnone : s'.spilled = []) : s.spilled = [] := by
  induction intervals generalizing s with
  | nil => exact Except.ok.inj h ▸ hnone
  | cons x rest ih =>
      obtain ⟨s'', hstep, hrest⟩ := scan_cons_ok h
      obtain ⟨visited, hexpire, hassign⟩ := Fallible.bind_ok hstep
      obtain ⟨-, -, pool, -, rfl⟩ := ScanState.expire_ok hexpire
      exact (spilled_assign hinput hassign (ih hrest)).1

/-- A scan that ends without a stack slot leaves every value in a register of the pool, the hard-coded one if there is one. -/
theorem ScanState.Registered.scan {input : ScanInput Ty} (hinput : input.HardCodesRegisters) {names : List String}
    {intervals done : List (Interval Ty)} {s s' : ScanState Ty} {now : ℕ} (h : s.Registered input names done)
    (hinv : s.Invariant input done now) (hpending : Pending done now intervals)
    (hscan : LinearScan.scan input s intervals = .ok s') (hnone : s'.spilled = []) :
    s'.Registered input names (intervals.reverse ++ done) := by
  induction intervals generalizing s done now with
  | nil =>
      obtain rfl := Except.ok.inj hscan
      exact h
  | cons x rest ih =>
      obtain ⟨s'', hstep, hrest⟩ := scan_cons_ok hscan
      obtain ⟨visited, hexpire, hvisited, hassign, hinv''⟩ := hinv.scanStep hinput hpending hstep
      obtain ⟨-, hnew, hnext⟩ := hpending.next
      obtain ⟨hmap, -, pool, hpool, hvisitedEq⟩ := ScanState.expire_ok hexpire
      have hwithin : visited.regPool.Within names := by
        rw [hvisitedEq]
        exact h.pool.releaseAll hpool
      obtain ⟨-, hcalm⟩ := spilled_assign hinput hassign (spilled_scan hinput hrest hnone)
      have hkeeps : visited.KeepsHardCoded input x := by
        intro hpressure
        cases hcalm.symm.trans hpressure
      have hhard : visited.HardCoded input done := by
        intro y hy name hname
        rw [hmap]
        exact h.hardCoded y hy name hname
      have hhard'' := hvisited.hardCoded_assign hinput hnew hkeeps hhard hassign
      rw [assign, if_neg (Bool.eq_false_iff.mp hcalm)] at hassign
      obtain ⟨reg, record, rng, -, hcandidate, hslot, -, rfl⟩ := place_ok hinput hassign
      have hfree := (RegisterPool.mem_freeRegs_of_candidate hcandidate).1
      rw [List.reverse_cons, List.append_assoc]
      refine ih ⟨hwithin.take hfree _, ?_, hhard''⟩ hinv'' hnext hrest
      refine List.forall_mem_cons.mpr ⟨⟨reg.name, hwithin.free reg hfree, ?_⟩, fun y hy => ?_⟩
      · rw [ScanState.occupy, registerOf_insert_self, hslot]
      · rw [ScanState.occupy, ScanState.Invariant.registerOf_other hnew hy, hmap]
        exact h.mapped y hy

end Riescue.LinearScan
