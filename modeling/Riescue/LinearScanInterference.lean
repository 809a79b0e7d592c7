import Mathlib.Data.List.Pairwise
import Riescue.LinearScan

/-! Which registers the scan hands out. Values that are live at the same time never share a register, and none sits in
a register that is clobbered while it lives: a stolen register leaves the pool with the value it was taken from, and its
new value lives inside the interval of the old one. What the scan can lose is a hard-coded register. -/

namespace Riescue.LinearScan
open StableSort (sortBy mem_sortBy sortBy_perm)
variable {Ty : Type} [DecidableEq Ty]

/-- The name of the register of a slot. -/
def Slot.registerName : Slot Ty → Option String
  | .register reg => some reg.name
  | .stack _ => none

/-- The name of the register that a value is mapped to. -/
def registerOf (registerMap : List (String × VariableRecord Ty)) (regName : String) : Option String :=
  (OrderedDict.get? registerMap regName).bind fun record => record.slot.registerName

omit [DecidableEq Ty] in
theorem registerOf_insert_self (registerMap : List (String × VariableRecord Ty)) (regName : String)
    (record : VariableRecord Ty) :
    registerOf (OrderedDict.insert registerMap regName record) regName = record.slot.registerName := by
  rw [registerOf, OrderedDict.get?_insert_self]
  rfl

omit [DecidableEq Ty] in
theorem registerOf_insert_ne (registerMap : List (String × VariableRecord Ty)) {regName other : String}
    (record : VariableRecord Ty) (hne : other ≠ regName) :
    registerOf (OrderedDict.insert registerMap regName record) other = registerOf registerMap other := by
  rw [registerOf, OrderedDict.get?_insert_ne _ _ hne, registerOf]

/-! ### What the parts of a step do -/

namespace ScanState

/-- A value gets a register of the pool. -/
def occupy (s : ScanState Ty) (interval : Interval Ty) (reg : Register Ty) (record : VariableRecord Ty) (rng : RandNum) :
    ScanState Ty :=
  { s with registerMap := OrderedDict.insert s.registerMap interval.regName record
           active := s.active ++ [interval], regPool := s.regPool.take interval.regName reg, rng }

/-- A value takes the register of an active one, which goes to the stack. -/
def steal (s : ScanState Ty) (interval last : Interval Ty) (record : VariableRecord Ty) (offset : ℕ)
    (spilled : List (Interval Ty)) : ScanState Ty :=
  { s with registerMap := OrderedDict.insert (OrderedDict.insert s.registerMap interval.regName record) last.regName
             ⟨last.start, last.stop, .stack offset⟩
           active := s.active.erase last, spilled }

/-- A value goes to the stack. -/
def toStack (s : ScanState Ty) (interval : Interval Ty) (offset : ℕ) (spilled : List (Interval Ty)) : ScanState Ty :=
  { s with registerMap := OrderedDict.insert s.registerMap interval.regName
             ⟨interval.start, interval.stop, .stack offset⟩
           spilled }

end ScanState

theorem ScanState.mem_active_of_lastActive {s : ScanState Ty} {regType : Ty} {last : Interval Ty}
    (h : s.lastActive regType = some last) : last ∈ s.active :=
  List.mem_reverse.mp (List.mem_of_find?_eq_some h)

theorem spill_ok {input : ScanInput Ty} {s s' : ScanState Ty} {interval : Interval Ty}
    (h : spill input s interval = .ok s') :
    ∃ last offset spilled, s.lastActive interval.regType = some last ∧
      ((interval.stop < last.stop ∧ ∃ record, OrderedDict.get? s.registerMap last.regName = some record ∧
          s' = s.steal interval last record offset spilled) ∨
        (¬ interval.stop < last.stop ∧ s' = s.toStack interval offset spilled)) := by
  unfold spill at h
  split at h
  · cases h
  · next last hlast =>
      obtain ⟨-, -, h⟩ := Fallible.bind_ok h
      refine ⟨last, (s.getSlot interval).1, (s.getSlot interval).2, hlast, ?_⟩
      dsimp only at h
      split_ifs at h with hstop
      · split at h
        · cases h
        · next record hrecord => exact .inl ⟨hstop, record, hrecord, (Except.ok.inj h).symm⟩
      · exact .inr ⟨hstop, (Except.ok.inj h).symm⟩

/-- The name of the register that the instruction of a value hard-codes. -/
def ScanInput.hardCodedName (input : ScanInput Ty) (regName : String) : Option String :=
  registerOf input.hardcodedMap regName

/-- Hard-coded values are in registers. -/
def ScanInput.HardCodesRegisters (input : ScanInput Ty) : Prop :=
  ∀ regName record, OrderedDict.get? input.hardcodedMap regName = some record →
    ∃ register, record.slot = .register register

theorem place_ok {input : ScanInput Ty} (hinput : input.HardCodesRegisters) {s s' : ScanState Ty} {interval : Interval Ty}
    (h : place input s interval = .ok s') :
    ∃ reg record rng, s.regPool.allocated interval.regName = none ∧
      reg ∈ s.regPool.candidateRegisters interval.regType (input.excludeRegisters interval) ∧
      record.slot.registerName = some reg.name ∧
      (∀ name, input.hardCodedName interval.regName = some name → name = reg.name) ∧
      s' = s.occupy interval reg record rng := by
  unfold place at h
  dsimp only at h
  split at h
  · next record hrecord =>
      obtain ⟨register, hslot⟩ := hinput _ _ hrecord
      obtain ⟨⟨reg, regPool, rng⟩, hallocate, h⟩ := Fallible.bind_ok h
      obtain ⟨hfresh, hmem, hname, rfl⟩ := RegisterPool.allocate_ok hallocate
      rw [hslot] at hname
      have hslotName : record.slot.registerName = some register.name := by rw [hslot]; rfl
      refine ⟨reg, record, rng, hfresh, hmem, ?_, ?_, (Except.ok.inj h).symm⟩
      · rw [hslotName, hname register rfl]
      · intro name hhard
        rw [ScanInput.hardCodedName, registerOf, hrecord, Option.bind_some, hslotName] at hhard
        rw [← Option.some.inj hhard, hname register rfl]
  · next hrecord =>
      obtain ⟨⟨reg, regPool, rng⟩, hallocate, h⟩ := Fallible.bind_ok h
      obtain ⟨hfresh, hmem, -, rfl⟩ := RegisterPool.allocate_ok hallocate
      refine ⟨reg, _, rng, hfresh, hmem, ?_, ?_, (Except.ok.inj h).symm⟩
      · rfl
      · intro name hhard
        rw [ScanInput.hardCodedName, registerOf, hrecord] at hhard
        cases hhard

/-! ### The invariant -/

/-- What holds once the intervals of `done` have been visited. -/
structure ScanState.Invariant (input : ScanInput Ty) (s : ScanState Ty) (done : List (Interval Ty)) (now : ℕ) : Prop where
  pool : s.regPool.WellFormed
  allocated_done : ∀ regName reg, s.regPool.allocated regName = some reg → ∃ x ∈ done, x.regName = regName
  names : (done.map Interval.regName).Nodup
  active_nodup : s.active.Nodup
  active_subset : s.active ⊆ done
  active_owns : ∀ a ∈ s.active, ∃ reg, s.regPool.allocated a.regName = some reg ∧
    registerOf s.registerMap a.regName = some reg.name
  /-- Whoever was in a free register has ended. -/
  free_ended : ∀ x ∈ done, ∀ name, registerOf s.registerMap x.regName = some name →
    name ∈ s.regPool.freeRegs.map Register.name → x.stop ≤ now
  /-- Whoever was in the register of an active value before has ended. -/
  active_alone : ∀ a ∈ s.active, ∀ x ∈ done, x ≠ a → ∀ name, registerOf s.registerMap a.regName = some name →
    registerOf s.registerMap x.regName = some name → x.stop ≤ a.start
  apart : ∀ x ∈ done, ∀ y ∈ done, x ≠ y → ∀ name, registerOf s.registerMap x.regName = some name →
    registerOf s.registerMap y.regName = some name → x.stop ≤ y.start ∨ y.stop ≤ x.start
  unclobbered : ∀ x ∈ done, ∀ name, registerOf s.registerMap x.regName = some name → name ∉ input.excludeRegisters x
  started : ∀ x ∈ done, x.start ≤ now

namespace ScanState.Invariant
variable {input : ScanInput Ty} {s : ScanState Ty} {done : List (Interval Ty)} {now : ℕ}

omit [DecidableEq Ty] in
theorem eq_of_regName (hinv : s.Invariant input done now) {x y : Interval Ty} (hx : x ∈ done) (hy : y ∈ done)
    (hname : x.regName = y.regName) : x = y :=
  List.inj_on_of_nodup_map hinv.names hx hy hname

omit [DecidableEq Ty] in
theorem later (hinv : s.Invariant input done now) {start : ℕ} (hstart : now ≤ start) : s.Invariant input done start where
  __ := hinv
  free_ended := fun x hx name hname hfree => (hinv.free_ended x hx name hname hfree).trans hstart
  started := fun x hx => (hinv.started x hx).trans hstart

/-- An active value that has ended gives its register back. -/
theorem release (hinv : s.Invariant input done now) {a : Interval Ty} (ha : a ∈ s.active) (hstop : a.stop ≤ now)
    {pool : RegisterPool Ty} (hfree : s.regPool.free a.regName = .ok pool) :
    ({ s with active := s.active.erase a, regPool := pool } : ScanState Ty).Invariant input done now := by
  obtain ⟨reg, hreg, rfl⟩ := RegisterPool.free_ok hfree
  obtain ⟨reg', hreg', howns⟩ := hinv.active_owns a ha
  obtain rfl : reg = reg' := Option.some.inj (hreg.symm.trans hreg')
  have hsubset : s.active.erase a ⊆ s.active := List.erase_subset
  exact {
    pool := hinv.pool.giveBack hreg
    allocated_done := fun regName reg h => hinv.allocated_done regName reg (RegisterPool.allocated_giveBack.mp h).2
    names := hinv.names
    active_nodup := hinv.active_nodup.erase a
    active_subset := fun b hb => hinv.active_subset (hsubset hb)
    active_owns := by
      intro b hb
      obtain ⟨hne, hb⟩ := (hinv.active_nodup.mem_erase_iff).mp hb
      obtain ⟨reg'', hreg'', hname⟩ := hinv.active_owns b hb
      refine ⟨reg'', RegisterPool.allocated_giveBack.mpr ⟨fun heq => hne ?_, hreg''⟩, hname⟩
      exact hinv.eq_of_regName (hinv.active_subset hb) (hinv.active_subset ha) heq
    free_ended := by
      intro x hx name hname hmem
      rw [RegisterPool.giveBack, List.map_append, List.mem_append] at hmem
      rcases hmem with hold | hnew
      · exact hinv.free_ended x hx name hname hold
      · obtain rfl := List.mem_singleton.mp hnew
        by_cases hxa : x = a
        · exact hxa ▸ hstop
        · exact (hinv.active_alone a ha x hx hxa _ howns hname).trans (hinv.started a (hinv.active_subset ha))
    active_alone := fun b hb => hinv.active_alone b (hsubset hb)
    apart := hinv.apart
    unclobbered := hinv.unclobbered
    started := hinv.started }

omit [DecidableEq Ty] in
/-- Fewer values are active. -/
theorem ofSublist (hinv : s.Invariant input done now) {active : List (Interval Ty)} (hsubset : active ⊆ s.active)
    (hnodup : active.Nodup) : ({ s with active } : ScanState Ty).Invariant input done now where
  pool := hinv.pool
  allocated_done := hinv.allocated_done
  names := hinv.names
  active_nodup := hnodup
  active_subset := fun _ hb => hinv.active_subset (hsubset hb)
  active_owns := fun b hb => hinv.active_owns b (hsubset hb)
  free_ended := hinv.free_ended
  active_alone := fun b hb => hinv.active_alone b (hsubset hb)
  apart := hinv.apart
  unclobbered := hinv.unclobbered
  started := hinv.started

theorem releaseAll (hinv : s.Invariant input done now) {expired : List (Interval Ty)} (hsubset : expired ⊆ s.active)
    (hnodup : expired.Nodup) (hstop : ∀ a ∈ expired, a.stop ≤ now) {pool : RegisterPool Ty}
    (hfree : expired.foldlM (fun pool a => pool.free a.regName) s.regPool = .ok pool) :
    ({ s with active := s.active.diff expired, regPool := pool } : ScanState Ty).Invariant input done now := by
  induction expired generalizing s with
  | nil =>
      obtain rfl := Except.ok.inj hfree
      exact hinv
  | cons a rest ih =>
      obtain ⟨hnotMem, hrest⟩ := List.nodup_cons.mp hnodup
      rw [List.foldlM_cons] at hfree
      obtain ⟨pool', hpool', hfree⟩ := Fallible.bind_ok hfree
      obtain ⟨ha, hsubset⟩ := List.cons_subset.mp hsubset
      have hreleased := hinv.release ha (hstop a List.mem_cons_self) hpool'
      rw [List.diff_cons]
      refine ih hreleased (fun b hb => ?_) hrest (fun b hb => hstop b (List.mem_cons_of_mem _ hb)) hfree
      exact (hinv.active_nodup.mem_erase_iff).mpr ⟨fun heq => hnotMem (heq ▸ hb), hsubset hb⟩

end ScanState.Invariant

omit [DecidableEq Ty] in
/-- What `expire` leaves alone. -/
theorem ScanState.expire_ok {s s' : ScanState Ty} {start : ℕ} (h : s.expire start = .ok s') :
    s'.registerMap = s.registerMap ∧ s'.active ⊆ s.active ∧
      ∃ pool, ((sortBy Interval.stop s.active).filter fun a => decide (a.stop ≤ start)).foldlM
          (fun pool a => pool.free a.regName) s.regPool = .ok pool ∧
        s' = { s with active := (sortBy Interval.stop s.active).filter fun a => !decide (a.stop ≤ start)
                      regPool := pool } := by
  obtain ⟨pool, hpool, h⟩ := Fallible.bind_ok h
  obtain rfl := Except.ok.inj h
  exact ⟨rfl, fun a ha => mem_sortBy.mp (List.mem_of_mem_filter ha), pool, hpool, rfl⟩

theorem ScanState.Invariant.expire {input : ScanInput Ty} {s s' : ScanState Ty} {done : List (Interval Ty)}
    {now start : ℕ} (hinv : s.Invariant input done now) (hstart : now ≤ start) (h : s.expire start = .ok s') :
    s'.Invariant input done start := by
  obtain ⟨-, -, pool, hpool, rfl⟩ := ScanState.expire_ok h
  have hsorted : (sortBy Interval.stop s.active).Nodup :=
    (sortBy_perm Interval.stop s.active).nodup_iff.mpr hinv.active_nodup
  have hreleased := (hinv.later hstart).releaseAll (fun a ha => mem_sortBy.mp (List.mem_of_mem_filter ha))
    (hsorted.filter _) (fun a ha => of_decide_eq_true (List.mem_filter.mp ha).2) hpool
  refine hreleased.ofSublist (fun a ha => ?_) (hsorted.filter _)
  obtain ⟨hmem, hstop⟩ := List.mem_filter.mp ha
  refine List.mem_diff_of_mem (mem_sortBy.mp hmem) fun hexpired => ?_
  rw [(List.mem_filter.mp hexpired).2] at hstop
  cases hstop

namespace ScanState.Invariant
variable {input : ScanInput Ty} {s : ScanState Ty} {done : List (Interval Ty)} {interval : Interval Ty}

omit [DecidableEq Ty] in
/-- The other values keep their place when a new one is mapped. -/
theorem registerOf_other {regName : String} (hnew : regName ∉ done.map Interval.regName) {x : Interval Ty} (hx : x ∈ done)
    (registerMap : List (String × VariableRecord Ty)) (record : VariableRecord Ty) :
    registerOf (OrderedDict.insert registerMap regName record) x.regName = registerOf registerMap x.regName :=
  registerOf_insert_ne _ _ fun heq => hnew (heq ▸ List.mem_map_of_mem hx)

theorem occupy (hinv : s.Invariant input done interval.start) (hnew : interval.regName ∉ done.map Interval.regName)
    {reg : Register Ty} {record : VariableRecord Ty} (rng : RandNum)
    (hreg : reg ∈ s.regPool.candidateRegisters interval.regType (input.excludeRegisters interval))
    (hslot : record.slot.registerName = some reg.name) :
    (s.occupy interval reg record rng).Invariant input (interval :: done) interval.start := by
  obtain ⟨hfree, hexclude⟩ := RegisterPool.mem_freeRegs_of_candidate hreg
  have hfreeName : reg.name ∈ s.regPool.freeRegs.map Register.name := List.mem_map_of_mem hfree
  have hnotMem : interval ∉ done := fun h => hnew (List.mem_map_of_mem h)
  have hself : registerOf (s.occupy interval reg record rng).registerMap interval.regName = some reg.name :=
    (registerOf_insert_self _ _ _).trans hslot
  have hother : ∀ {x : Interval Ty}, x ∈ done →
      registerOf (s.occupy interval reg record rng).registerMap x.regName = registerOf s.registerMap x.regName :=
    fun hx => registerOf_other hnew hx _ _
  -- a value that had the register before has ended
  have hended : ∀ x ∈ done, registerOf (s.occupy interval reg record rng).registerMap x.regName = some reg.name →
      x.stop ≤ interval.start := fun x hx h => hinv.free_ended x hx _ ((hother hx).symm.trans h) hfreeName
  have hactive : ∀ a ∈ s.active,
      registerOf (s.occupy interval reg record rng).registerMap a.regName ≠ some reg.name := by
    intro a ha h
    obtain ⟨reg', hreg', howns⟩ := hinv.active_owns a ha
    rw [hother (hinv.active_subset ha), howns] at h
    exact hinv.pool.allocated_notMem _ _ hreg' (Option.some.inj h ▸ hfreeName)
  refine {
    pool := hinv.pool.take hfree _
    allocated_done := ?_
    names := List.nodup_cons.mpr ⟨hnew, hinv.names⟩
    active_nodup := ?_
    active_subset := ?_
    active_owns := ?_
    free_ended := ?_
    active_alone := ?_
    apart := ?_
    unclobbered := ?_
    started := List.forall_mem_cons.mpr ⟨le_rfl, hinv.started⟩ }
  · intro regName reg' h
    rcases RegisterPool.allocated_take.mp h with ⟨rfl, -⟩ | ⟨-, hold⟩
    · exact ⟨interval, List.mem_cons_self, rfl⟩
    · obtain ⟨x, hx, hname⟩ := hinv.allocated_done _ _ hold
      exact ⟨x, List.mem_cons_of_mem _ hx, hname⟩
  · refine hinv.active_nodup.append (List.nodup_singleton _) ?_
    rw [List.disjoint_singleton]
    exact fun h => hnotMem (hinv.active_subset h)
  · intro a ha
    rcases List.mem_append.mp ha with hold | hlast
    · exact List.mem_cons_of_mem _ (hinv.active_subset hold)
    · exact List.mem_singleton.mp hlast ▸ List.mem_cons_self
  · intro a ha
    rcases List.mem_append.mp ha with hold | hlast
    · obtain ⟨reg', hreg', howns⟩ := hinv.active_owns a hold
      have hdone := hinv.active_subset hold
      refine ⟨reg', RegisterPool.allocated_take.mpr (.inr ⟨?_, hreg'⟩), (hother hdone).trans howns⟩
      exact fun heq => hnew (heq ▸ List.mem_map_of_mem hdone)
    · obtain rfl := List.mem_singleton.mp hlast
      exact ⟨reg, RegisterPool.allocated_take.mpr (.inl ⟨rfl, rfl⟩), hself⟩
  · intro x hx name hname hmem
    rcases List.mem_cons.mp hx with rfl | hold
    · obtain rfl := Option.some.inj (hself.symm.trans hname)
      exact absurd hmem (RegisterPool.notMem_take hinv.pool hfree _)
    · exact hinv.free_ended x hold name ((hother hold).symm.trans hname) (RegisterPool.freeRegs_take _ _ _ hmem)
  · intro a ha x hx hne name haname hxname
    rcases List.mem_append.mp ha with hold | hlast
    · rcases List.mem_cons.mp hx with rfl | hxold
      · obtain rfl := Option.some.inj (hself.symm.trans hxname)
        exact absurd haname (hactive a hold)
      · rw [hother (hinv.active_subset hold)] at haname
        rw [hother hxold] at hxname
        exact hinv.active_alone a hold x hxold hne name haname hxname
    · obtain rfl := List.mem_singleton.mp hlast
      obtain rfl := Option.some.inj (hself.symm.trans haname)
      exact hended x ((List.mem_cons.mp hx).resolve_left hne) hxname
  · intro x hx y hy hne name hxname hyname
    rcases List.mem_cons.mp hx with rfl | hxold
    · obtain rfl := Option.some.inj (hself.symm.trans hxname)
      exact .inr (hended y ((List.mem_cons.mp hy).resolve_left (Ne.symm hne)) hyname)
    · rcases List.mem_cons.mp hy with rfl | hyold
      · obtain rfl := Option.some.inj (hself.symm.trans hyname)
        exact .inl (hended x hxold hxname)
      · rw [hother hxold] at hxname
        rw [hother hyold] at hyname
        exact hinv.apart x hxold y hyold hne name hxname hyname
  · intro x hx name hname
    rcases List.mem_cons.mp hx with rfl | hold
    · obtain rfl := Option.some.inj (hself.symm.trans hname)
      exact hexclude
    · exact hinv.unclobbered x hold name ((hother hold).symm.trans hname)

omit [DecidableEq Ty] in
theorem toStack (hinv : s.Invariant input done interval.start) (hnew : interval.regName ∉ done.map Interval.regName)
    (offset : ℕ) (spilled : List (Interval Ty)) :
    (s.toStack interval offset spilled).Invariant input (interval :: done) interval.start := by
  have hself : ∀ name, registerOf (s.toStack interval offset spilled).registerMap interval.regName ≠ some name := by
    intro name h
    cases (registerOf_insert_self _ _ _).symm.trans h
  have hother : ∀ {x : Interval Ty}, x ∈ done →
      registerOf (s.toStack interval offset spilled).registerMap x.regName = registerOf s.registerMap x.regName :=
    fun hx => registerOf_other hnew hx _ _
  -- only the old values are in registers
  have hold : ∀ {x : Interval Ty} {name : String}, x ∈ interval :: done →
      registerOf (s.toStack interval offset spilled).registerMap x.regName = some name →
        x ∈ done ∧ registerOf s.registerMap x.regName = some name := by
    intro x name hx hname
    rcases List.mem_cons.mp hx with rfl | hx
    · exact absurd hname (hself name)
    · exact ⟨hx, (hother hx).symm.trans hname⟩
  exact {
    pool := hinv.pool
    allocated_done := fun regName reg h => by
      obtain ⟨x, hx, hname⟩ := hinv.allocated_done regName reg h
      exact ⟨x, List.mem_cons_of_mem _ hx, hname⟩
    names := List.nodup_cons.mpr ⟨hnew, hinv.names⟩
    active_nodup := hinv.active_nodup
    active_subset := fun a ha => List.mem_cons_of_mem _ (hinv.active_subset ha)
    active_owns := fun a ha => by
      obtain ⟨reg, hreg, howns⟩ := hinv.active_owns a ha
      exact ⟨reg, hreg, (hother (hinv.active_subset ha)).trans howns⟩
    free_ended := fun x hx name hname =>
      hinv.free_ended x (hold hx hname).1 name (hold hx hname).2
    active_alone := fun a ha x hx hne name haname hxname =>
      hinv.active_alone a ha x (hold hx hxname).1 hne name ((hother (hinv.active_subset ha)).symm.trans haname)
        (hold hx hxname).2
    apart := fun x hx y hy hne name hxname hyname =>
      hinv.apart x (hold hx hxname).1 y (hold hy hyname).1 hne name (hold hx hxname).2 (hold hy hyname).2
    unclobbered := fun x hx name hname => hinv.unclobbered x (hold hx hname).1 name (hold hx hname).2
    started := List.forall_mem_cons.mpr ⟨le_rfl, hinv.started⟩ }

omit [DecidableEq Ty] in
/-- What a longer interval is not in is not clobbered in a shorter one. -/
theorem notMem_exclude_of_within {last : Interval Ty} {name : String} (hstart : last.start ≤ interval.start)
    (hstop : interval.stop < last.stop) (hlast : name ∉ input.excludeRegisters last) :
    name ∉ input.excludeRegisters interval := by
  intro hmem
  obtain ⟨entry, hentry, hname⟩ := List.mem_flatMap.mp hmem
  obtain ⟨hentry, hinside⟩ := List.mem_filter.mp hentry
  have hinside := of_decide_eq_true hinside
  refine hlast (List.mem_flatMap.mpr ⟨entry, List.mem_filter.mpr ⟨hentry, decide_eq_true ?_⟩, hname⟩)
  omega

theorem steal (hinv : s.Invariant input done interval.start) (hnew : interval.regName ∉ done.map Interval.regName)
    {last : Interval Ty} (hlast : last ∈ s.active) (hstop : interval.stop < last.stop) {record : VariableRecord Ty}
    (hrecord : OrderedDict.get? s.registerMap last.regName = some record) (offset : ℕ) (spilled : List (Interval Ty)) :
    (s.steal interval last record offset spilled).Invariant input (interval :: done) interval.start := by
  have hdone := hinv.active_subset hlast
  have hne : interval.regName ≠ last.regName := fun h => hnew (h ▸ List.mem_map_of_mem hdone)
  have hself : registerOf (s.steal interval last record offset spilled).registerMap interval.regName =
      registerOf s.registerMap last.regName := by
    rw [ScanState.steal, registerOf_insert_ne _ _ hne, registerOf_insert_self, registerOf, hrecord]
    rfl
  have hstolen : ∀ name, registerOf (s.steal interval last record offset spilled).registerMap last.regName ≠ some name := by
    intro name h
    cases (registerOf_insert_self _ _ _).symm.trans h
  have hother : ∀ {x : Interval Ty}, x ∈ done → x ≠ last →
      registerOf (s.steal interval last record offset spilled).registerMap x.regName =
        registerOf s.registerMap x.regName := by
    intro x hx hxlast
    rw [ScanState.steal, registerOf_insert_ne _ _ fun h => hxlast (hinv.eq_of_regName hx hdone h)]
    exact registerOf_other hnew hx _ _
  -- a value in a register is the new one, or an old one that was there before
  have hcases : ∀ {x : Interval Ty} {name : String}, x ∈ interval :: done →
      registerOf (s.steal interval last record offset spilled).registerMap x.regName = some name →
        (x = interval ∧ registerOf s.registerMap last.regName = some name) ∨
          (x ∈ done ∧ x ≠ last ∧ registerOf s.registerMap x.regName = some name) := by
    intro x name hx hname
    rcases List.mem_cons.mp hx with rfl | hx
    · exact .inl ⟨rfl, hself.symm.trans hname⟩
    · by_cases hxlast : x = last
      · exact absurd (hxlast ▸ hname) (hstolen name)
      · exact .inr ⟨hx, hxlast, (hother hx hxlast).symm.trans hname⟩
  -- who had the register before the value it was taken from has ended
  have hended : ∀ {x : Interval Ty} {name : String}, x ∈ done → x ≠ last → registerOf s.registerMap x.regName = some name →
      registerOf s.registerMap last.regName = some name → x.stop ≤ interval.start := by
    intro x name hx hxlast hxname hname
    exact (hinv.active_alone last hlast x hx hxlast name hname hxname).trans (hinv.started last hdone)
  refine {
    pool := hinv.pool
    allocated_done := fun regName reg h => by
      obtain ⟨x, hx, hname⟩ := hinv.allocated_done regName reg h
      exact ⟨x, List.mem_cons_of_mem _ hx, hname⟩
    names := List.nodup_cons.mpr ⟨hnew, hinv.names⟩
    active_nodup := hinv.active_nodup.erase _
    active_subset := fun a ha => List.mem_cons_of_mem _ (hinv.active_subset (List.erase_subset ha))
    active_owns := ?_
    free_ended := ?_
    active_alone := ?_
    apart := ?_
    unclobbered := ?_
    started := List.forall_mem_cons.mpr ⟨le_rfl, hinv.started⟩ }
  · intro a ha
    obtain ⟨halast, ha⟩ := (hinv.active_nodup.mem_erase_iff).mp ha
    obtain ⟨reg, hreg, howns⟩ := hinv.active_owns a ha
    exact ⟨reg, hreg, (hother (hinv.active_subset ha) halast).trans howns⟩
  · intro x hx name hname hmem
    rcases hcases hx hname with ⟨-, hlastName⟩ | ⟨hx, -, hname⟩
    · obtain ⟨reg, hreg, howns⟩ := hinv.active_owns last hlast
      obtain rfl := Option.some.inj (howns.symm.trans hlastName)
      exact absurd hmem (hinv.pool.allocated_notMem _ _ hreg)
    · exact hinv.free_ended x hx name hname hmem
  · intro a ha x hx hxa name haname hxname
    obtain ⟨halast, ha⟩ := (hinv.active_nodup.mem_erase_iff).mp ha
    rw [hother (hinv.active_subset ha) halast] at haname
    rcases hcases hx hxname with ⟨-, hlastName⟩ | ⟨hx, -, hxname⟩
    · -- two active values in one register
      obtain ⟨reg, hreg, howns⟩ := hinv.active_owns last hlast
      obtain ⟨reg', hreg', howns'⟩ := hinv.active_owns a ha
      have hregName : reg'.name = reg.name :=
        Option.some.inj (howns'.symm.trans (haname.trans (hlastName.symm.trans howns)))
      have hnames := hinv.pool.allocated_injective _ _ _ _ hreg' hreg hregName
      exact absurd (hinv.eq_of_regName (hinv.active_subset ha) hdone hnames) halast
    · exact hinv.active_alone a ha x hx hxa name haname hxname
  · intro x hx y hy hxy name hxname hyname
    rcases hcases hx hxname with ⟨rfl, hlastName⟩ | ⟨hxold, hxlast, hxmap⟩
    · rcases hcases hy hyname with ⟨rfl, -⟩ | ⟨hyold, hylast, hymap⟩
      · exact absurd rfl hxy
      · exact .inr (hended hyold hylast hymap hlastName)
    · rcases hcases hy hyname with ⟨rfl, hlastName⟩ | ⟨hyold, hylast, hymap⟩
      · exact .inl (hended hxold hxlast hxmap hlastName)
      · exact hinv.apart x hxold y hyold hxy name hxmap hymap
  · intro x hx name hname
    rcases hcases hx hname with ⟨rfl, hlastName⟩ | ⟨hx, -, hname⟩
    · exact notMem_exclude_of_within (hinv.started last hdone) hstop (hinv.unclobbered last hdone name hlastName)
    · exact hinv.unclobbered x hx name hname

/-- Every step of the scan keeps the invariant. -/
theorem assign (hinput : input.HardCodesRegisters) (hinv : s.Invariant input done interval.start)
    (hnew : interval.regName ∉ done.map Interval.regName) {s' : ScanState Ty} (h : assign input s interval = .ok s') :
    s'.Invariant input (interval :: done) interval.start := by
  unfold LinearScan.assign at h
  split_ifs at h
  · obtain ⟨last, offset, spilled, hlast, ⟨hstop, record, hrecord, rfl⟩ | ⟨-, rfl⟩⟩ := spill_ok h
    · exact hinv.steal hnew (ScanState.mem_active_of_lastActive hlast) hstop hrecord offset spilled
    · exact hinv.toStack hnew offset spilled
  · obtain ⟨reg, record, rng, -, hreg, hslot, -, rfl⟩ := place_ok hinput h
    exact hinv.occupy hnew rng hreg hslot

end ScanState.Invariant

/-! ### Runs -/

/-- The loop reaches an interval, and this is the state once the old intervals have expired. -/
def Visits (input : ScanInput Ty) (s : ScanState Ty) (intervals : List (Interval Ty)) (interval : Interval Ty)
    (visited : ScanState Ty) : Prop :=
  ∃ before after s', intervals = before ++ interval :: after ∧ scan input s before = .ok s' ∧
    s'.expire interval.start = .ok visited

theorem scan_cons_ok {input : ScanInput Ty} {s s' : ScanState Ty} {x : Interval Ty} {rest : List (Interval Ty)}
    (h : scan input s (x :: rest) = .ok s') : ∃ s'', scanStep input s x = .ok s'' ∧ scan input s'' rest = .ok s' := by
  rw [scan, List.foldlM_cons] at h
  exact Fallible.bind_ok h

theorem visits_head {input : ScanInput Ty} {s visited : ScanState Ty} {interval : Interval Ty}
    (rest : List (Interval Ty)) (h : s.expire interval.start = .ok visited) :
    Visits input s (interval :: rest) interval visited :=
  ⟨[], rest, s, rfl, rfl, h⟩

theorem visits_tail {input : ScanInput Ty} {s s' visited : ScanState Ty} {x interval : Interval Ty}
    {rest : List (Interval Ty)} (hstep : scanStep input s x = .ok s') (h : Visits input s' rest interval visited) :
    Visits input s (x :: rest) interval visited := by
  obtain ⟨before, after, s'', rfl, hscan, hexpire⟩ := h
  refine ⟨x :: before, after, s'', rfl, ?_, hexpire⟩
  rw [scan, List.foldlM_cons, hstep]
  exact hscan

theorem visits_cons {input : ScanInput Ty} {s visited : ScanState Ty} {x interval : Interval Ty}
    {rest : List (Interval Ty)} (h : Visits input s (x :: rest) interval visited) :
    (x = interval ∧ s.expire x.start = .ok visited) ∨
      ∃ s', scanStep input s x = .ok s' ∧ Visits input s' rest interval visited := by
  obtain ⟨before, after, s'', heq, hscan, hexpire⟩ := h
  cases before with
  | nil =>
      obtain ⟨rfl, rfl⟩ := List.cons.inj heq
      obtain rfl := Except.ok.inj hscan
      exact .inl ⟨rfl, hexpire⟩
  | cons head before =>
      obtain ⟨rfl, rfl⟩ := List.cons.inj heq
      obtain ⟨s', hstep, hscan⟩ := scan_cons_ok hscan
      exact .inr ⟨s', hstep, before, after, s'', rfl, hscan, hexpire⟩

/-- The intervals that are still to be visited. -/
structure Pending (done : List (Interval Ty)) (now : ℕ) (intervals : List (Interval Ty)) : Prop where
  sorted : intervals.Pairwise fun left right => left.start ≤ right.start
  later : ∀ x ∈ intervals, now ≤ x.start
  names : (done.map Interval.regName ++ intervals.map Interval.regName).Nodup

omit [DecidableEq Ty] in
theorem Pending.next {done rest : List (Interval Ty)} {now : ℕ} {x : Interval Ty} (h : Pending done now (x :: rest)) :
    now ≤ x.start ∧ x.regName ∉ done.map Interval.regName ∧ Pending (x :: done) x.start rest := by
  obtain ⟨hhead, hsorted⟩ := List.pairwise_cons.mp h.sorted
  have hnames := List.nodup_middle.mp h.names
  refine ⟨h.later x List.mem_cons_self, fun hmem => ?_, hsorted, hhead, hnames⟩
  exact (List.nodup_cons.mp hnames).1 (List.mem_append_left _ hmem)

theorem ScanState.Invariant.scanStep {input : ScanInput Ty} (hinput : input.HardCodesRegisters) {s s' : ScanState Ty}
    {done rest : List (Interval Ty)} {now : ℕ} {x : Interval Ty} (hinv : s.Invariant input done now)
    (hpending : Pending done now (x :: rest)) (h : scanStep input s x = .ok s') :
    ∃ visited, s.expire x.start = .ok visited ∧ visited.Invariant input done x.start ∧
      LinearScan.assign input visited x = .ok s' ∧ s'.Invariant input (x :: done) x.start := by
  obtain ⟨hnow, hnew, -⟩ := hpending.next
  obtain ⟨visited, hexpire, hassign⟩ := Fallible.bind_ok h
  have hvisited := hinv.expire hnow hexpire
  exact ⟨visited, hexpire, hvisited, hassign, hvisited.assign hinput hnew hassign⟩

theorem ScanState.Invariant.scan {input : ScanInput Ty} (hinput : input.HardCodesRegisters)
    {intervals done : List (Interval Ty)} {s s' : ScanState Ty} {now : ℕ} (hinv : s.Invariant input done now)
    (hpending : Pending done now intervals) (h : scan input s intervals = .ok s') :
    ∃ now', s'.Invariant input (intervals.reverse ++ done) now' := by
  induction intervals generalizing s done now with
  | nil =>
      obtain rfl := Except.ok.inj h
      exact ⟨now, hinv⟩
  | cons x rest ih =>
      obtain ⟨s'', hstep, hrest⟩ := scan_cons_ok h
      obtain ⟨visited, -, -, -, hinv''⟩ := hinv.scanStep hinput hpending hstep
      rw [List.reverse_cons, List.append_assoc]
      exact ih hinv'' hpending.next.2.2 hrest

omit [DecidableEq Ty] in
theorem ScanState.invariant_init {riscvRegisters : List (Register Ty)}
    (hregisters : (riscvRegisters.map Register.name).Nodup) (input : ScanInput Ty) (rng : RandNum) :
    (ScanState.init riscvRegisters input rng).Invariant input [] 0 where
  pool := RegisterPool.wellFormed_init hregisters
  allocated_done := fun _ _ h => (nomatch h)
  names := List.nodup_nil
  active_nodup := List.nodup_nil
  active_subset := List.Subset.refl _
  active_owns := fun _ h => (nomatch h)
  free_ended := fun _ h => (nomatch h)
  active_alone := fun _ h => (nomatch h)
  apart := fun _ h => (nomatch h)
  unclobbered := fun _ h => (nomatch h)
  started := fun _ h => (nomatch h)

/-! ### Hard-coded registers -/

/-- No hard-coded register is lost: under pressure, whatever is spilled does not hard-code its register, and a value that
takes the register of another one hard-codes no other register. -/
def ScanState.KeepsHardCoded (input : ScanInput Ty) (s : ScanState Ty) (interval : Interval Ty) : Prop :=
  s.underPressure input interval = true → ∀ last, s.lastActive interval.regType = some last →
    if interval.stop < last.stop then
      input.hardCodedName last.regName = none ∧
        ∀ name, input.hardCodedName interval.regName = some name → registerOf s.registerMap last.regName = some name
    else input.hardCodedName interval.regName = none

/-- The values that hard-code a register are in it. -/
def ScanState.HardCoded (input : ScanInput Ty) (s : ScanState Ty) (values : List (Interval Ty)) : Prop :=
  ∀ x ∈ values, ∀ name, input.hardCodedName x.regName = some name → registerOf s.registerMap x.regName = some name

namespace ScanState.Invariant
variable {input : ScanInput Ty} {s s' : ScanState Ty} {done : List (Interval Ty)} {interval : Interval Ty}

theorem hardCoded_assign (hinput : input.HardCodesRegisters) (hinv : s.Invariant input done interval.start)
    (hnew : interval.regName ∉ done.map Interval.regName) (hkeeps : s.KeepsHardCoded input interval)
    (hhard : s.HardCoded input done) (h : LinearScan.assign input s interval = .ok s') :
    s'.HardCoded input (interval :: done) := by
  unfold LinearScan.assign at h
  split_ifs at h with hpressure
  · obtain ⟨last, offset, spilled, hlast, hcases⟩ := spill_ok h
    have hkeeps := hkeeps hpressure last hlast
    have hdone := hinv.active_subset (ScanState.mem_active_of_lastActive hlast)
    have hne : interval.regName ≠ last.regName := fun heq => hnew (heq ▸ List.mem_map_of_mem hdone)
    rcases hcases with ⟨hstop, record, hrecord, rfl⟩ | ⟨hstop, rfl⟩
    · rw [if_pos hstop] at hkeeps
      refine List.forall_mem_cons.mpr ⟨fun name hname => ?_, fun x hx name hname => ?_⟩
      · rw [ScanState.steal, registerOf_insert_ne _ _ hne, registerOf_insert_self, ← hkeeps.2 name hname, registerOf,
          hrecord]
        rfl
      · have hxlast : x.regName ≠ last.regName := by
          intro heq
          rw [heq, hkeeps.1] at hname
          cases hname
        rw [ScanState.steal, registerOf_insert_ne _ _ hxlast, registerOf_other hnew hx]
        exact hhard x hx name hname
    · rw [if_neg hstop] at hkeeps
      refine List.forall_mem_cons.mpr ⟨fun name hname => ?_, fun x hx name hname => ?_⟩
      · rw [hkeeps] at hname
        cases hname
      · rw [ScanState.toStack, registerOf_other hnew hx]
        exact hhard x hx name hname
  · obtain ⟨reg, record, rng, -, -, hslot, hname, rfl⟩ := place_ok hinput h
    refine List.forall_mem_cons.mpr ⟨fun name hhardName => ?_, fun x hx name hname => ?_⟩
    · rw [ScanState.occupy, registerOf_insert_self, hslot, hname name hhardName]
    · rw [ScanState.occupy, registerOf_other hnew hx]
      exact hhard x hx name hname

/-- A register that is lost is lost by a value that is not active any more. -/
theorem exists_lost (hinv : s.Invariant input done interval.start) (hnew : interval.regName ∉ done.map Interval.regName)
    (hkeeps : ¬ s.KeepsHardCoded input interval) (h : LinearScan.assign input s interval = .ok s') :
    ∃ x ∈ interval :: done, x ∉ s'.active ∧
      ∃ name, input.hardCodedName x.regName = some name ∧ registerOf s'.registerMap x.regName ≠ some name := by
  unfold ScanState.KeepsHardCoded at hkeeps
  push Not at hkeeps
  obtain ⟨hpressure, last, hlast, hkeeps⟩ := hkeeps
  rw [LinearScan.assign, if_pos hpressure] at h
  obtain ⟨last', offset, spilled, hlast', hcases⟩ := spill_ok h
  obtain rfl := Option.some.inj (hlast.symm.trans hlast')
  have hmem := ScanState.mem_active_of_lastActive hlast
  have hdone := hinv.active_subset hmem
  have hne : interval.regName ≠ last.regName := fun heq => hnew (heq ▸ List.mem_map_of_mem hdone)
  have hnotMem : interval ∉ s.active := fun h => hnew (List.mem_map_of_mem (hinv.active_subset h))
  rcases hcases with ⟨hstop, record, hrecord, rfl⟩ | ⟨hstop, rfl⟩
  · rw [if_pos hstop] at hkeeps
    by_cases hnone : input.hardCodedName last.regName = none
    · have hinterval := not_and.mp hkeeps hnone
      push Not at hinterval
      obtain ⟨name, hname, hother⟩ := hinterval
      refine ⟨interval, List.mem_cons_self, fun h => hnotMem (List.erase_subset h), name, hname, ?_⟩
      rw [ScanState.steal, registerOf_insert_ne _ _ hne, registerOf_insert_self]
      rwa [registerOf, hrecord] at hother
    · obtain ⟨name, hname⟩ := Option.ne_none_iff_exists'.mp hnone
      refine ⟨last, List.mem_cons_of_mem _ hdone, fun h => (hinv.active_nodup.mem_erase_iff.mp h).1 rfl, name, hname, ?_⟩
      rw [ScanState.steal, registerOf_insert_self]
      exact nofun
  · rw [if_neg hstop] at hkeeps
    obtain ⟨name, hname⟩ := Option.ne_none_iff_exists'.mp hkeeps
    refine ⟨interval, List.mem_cons_self, hnotMem, name, hname, ?_⟩
    rw [ScanState.toStack, registerOf_insert_self]
    exact nofun

/-- A value that is not active keeps its slot. -/
theorem registerOf_assign (hinput : input.HardCodesRegisters) (hinv : s.Invariant input done interval.start)
    (hnew : interval.regName ∉ done.map Interval.regName) {x : Interval Ty} (hx : x ∈ done) (hactive : x ∉ s.active)
    (h : LinearScan.assign input s interval = .ok s') :
    registerOf s'.registerMap x.regName = registerOf s.registerMap x.regName ∧ x ∉ s'.active := by
  unfold LinearScan.assign at h
  split_ifs at h
  · obtain ⟨last, offset, spilled, hlast, ⟨-, record, -, rfl⟩ | ⟨-, rfl⟩⟩ := spill_ok h
    · have hmem := ScanState.mem_active_of_lastActive hlast
      have hxlast : x.regName ≠ last.regName :=
        fun heq => hactive (hinv.eq_of_regName hx (hinv.active_subset hmem) heq ▸ hmem)
      rw [ScanState.steal, registerOf_insert_ne _ _ hxlast, registerOf_other hnew hx]
      exact ⟨rfl, fun h => hactive (List.erase_subset h)⟩
    · rw [ScanState.toStack, registerOf_other hnew hx]
      exact ⟨rfl, hactive⟩
  · obtain ⟨reg, record, rng, -, -, -, -, rfl⟩ := place_ok hinput h
    rw [ScanState.occupy, registerOf_other hnew hx]
    refine ⟨rfl, fun h => (List.mem_append.mp h).elim hactive fun hlast => ?_⟩
    exact hnew (List.mem_map_of_mem (List.mem_singleton.mp hlast ▸ hx))

end ScanState.Invariant

theorem ScanState.Invariant.registerOf_scan {input : ScanInput Ty} (hinput : input.HardCodesRegisters)
    {intervals done : List (Interval Ty)} {s s' : ScanState Ty} {now : ℕ} (hinv : s.Invariant input done now)
    (hpending : Pending done now intervals) {x : Interval Ty} (hx : x ∈ done) (hactive : x ∉ s.active)
    (h : LinearScan.scan input s intervals = .ok s') :
    registerOf s'.registerMap x.regName = registerOf s.registerMap x.regName := by
  induction intervals generalizing s done now with
  | nil => rw [Except.ok.inj h]
  | cons head rest ih =>
      obtain ⟨s'', hstep, hrest⟩ := scan_cons_ok h
      obtain ⟨visited, hexpire, hvisited, hassign, hinv''⟩ := hinv.scanStep hinput hpending hstep
      obtain ⟨hmap, hsubset, -⟩ := ScanState.expire_ok hexpire
      obtain ⟨hkeeps, hactive''⟩ := hvisited.registerOf_assign hinput hpending.next.2.1 hx
        (fun hmem => hactive (hsubset hmem)) hassign
      rw [ih hinv'' hpending.next.2.2 (List.mem_cons_of_mem _ hx) hactive'' hrest, hkeeps, hmap]

/-- The values with a hard-coded register are all in it at the end if and only if no step loses one. -/
theorem ScanState.Invariant.hardCoded_scan_iff {input : ScanInput Ty} (hinput : input.HardCodesRegisters)
    {intervals done : List (Interval Ty)} {s s' : ScanState Ty} {now : ℕ} (hinv : s.Invariant input done now)
    (hpending : Pending done now intervals) (hhard : s.HardCoded input done)
    (h : LinearScan.scan input s intervals = .ok s') :
    s'.HardCoded input (intervals.reverse ++ done) ↔
      ∀ interval visited, Visits input s intervals interval visited → visited.KeepsHardCoded input interval := by
  induction intervals generalizing s done now with
  | nil =>
      obtain rfl := Except.ok.inj h
      refine ⟨fun _ interval visited hvisits => ?_, fun _ => hhard⟩
      obtain ⟨before, after, -, hnil, -⟩ := hvisits
      exact absurd hnil.symm (by simp)
  | cons head rest ih =>
      obtain ⟨s'', hstep, hrest⟩ := scan_cons_ok h
      obtain ⟨visited, hexpire, hvisited, hassign, hinv''⟩ := hinv.scanStep hinput hpending hstep
      obtain ⟨-, hnew, hnext⟩ := hpending.next
      rw [List.reverse_cons, List.append_assoc]
      by_cases hkeeps : visited.KeepsHardCoded input head
      · have hhard' : visited.HardCoded input done := by
          intro x hx name hname
          rw [(ScanState.expire_ok hexpire).1]
          exact hhard x hx name hname
        rw [List.singleton_append, ih hinv'' hnext (hvisited.hardCoded_assign hinput hnew hkeeps hhard' hassign) hrest]
        constructor
        · intro hall interval visited' hvisits
          rcases visits_cons hvisits with ⟨rfl, hexpire'⟩ | ⟨s₁, hstep', hvisits⟩
          · rwa [Except.ok.inj (hexpire'.symm.trans hexpire)]
          · obtain rfl := Except.ok.inj (hstep'.symm.trans hstep)
            exact hall interval visited' hvisits
        · exact fun hall interval visited' hvisits => hall interval visited' (visits_tail hstep hvisits)
      · constructor
        · intro hfinal
          obtain ⟨x, hx, hactive, name, hname, hlost⟩ := hvisited.exists_lost hnew hkeeps hassign
          refine absurd ?_ hlost
          rw [← hinv''.registerOf_scan hinput hnext hx hactive hrest]
          exact hfinal x (List.mem_append_right _ hx) name hname
        · exact fun hall => absurd (hall head visited (visits_head rest hexpire)) hkeeps

/-- What the map of registers is to guarantee for the live intervals of the values: values that are live at the same time
have different registers, a clobbered register holds no value that is live across the instruction, and a hard-coded
destination register is the register of the value. Clobbers are compared by name, so a list of them has to use the ABI
names of the pool (`t6`, not `x31`). -/
structure InterferenceFree (instructions : List (Instruction Ty)) (intervals : LiveIntervals Ty)
    (clobbered : List (ℕ × List String)) (registerMap : List (String × VariableRecord Ty)) : Prop where
  apart : ∀ x ∈ intervals, ∀ y ∈ intervals, x ≠ y → ∀ name, registerOf registerMap x.1 = some name →
    registerOf registerMap y.1 = some name → x.2.stop ≤ y.2.start ∨ y.2.stop ≤ x.2.start
  unclobbered : ∀ x ∈ intervals, ∀ name, registerOf registerMap x.1 = some name →
    ∀ entry ∈ clobbered, x.2.start < entry.1 → entry.1 < x.2.stop → name ∉ entry.2
  hardCoded : ∀ instr ∈ instructions, ∀ register, instr.hardCoded = some register →
    registerOf registerMap instr.instructionId = some register.name

omit [DecidableEq Ty] in
theorem definedName_of_hardCoded {instr : Instruction Ty} {register : Register Ty}
    (h : instr.hardCoded = some register) : instr.definedName = some instr.instructionId := by
  unfold Instruction.hardCoded at h
  split at h
  · next hdest => rw [Instruction.definedName, hdest]
  · cases h

omit [DecidableEq Ty] in
/-- Every value is defined by one instruction. -/
theorem eq_of_definedName {instructions : List (Instruction Ty)}
    (hdefined : (instructions.filterMap Instruction.definedName).Nodup) {instr instr' : Instruction Ty}
    (hinstr : instr ∈ instructions) (hinstr' : instr' ∈ instructions) {name : String}
    (hname : instr.definedName = some name) (hname' : instr'.definedName = some name) : instr = instr' := by
  have hpairwise := List.pairwise_filterMap.mp hdefined
  have hsymm : Std.Symm fun left right : Instruction Ty => ∀ value, left.definedName = some value →
      ∀ value', right.definedName = some value' → value ≠ value' :=
    ⟨fun left right h value hvalue value' hvalue' => (h value' hvalue' value hvalue).symm⟩
  by_contra hne
  exact hpairwise.forall hinstr hinstr' hne name hname name hname' rfl

theorem hardCodesRegisters_scanInput {instructions : List (Instruction Ty)}
    {globalFunctionClobbers : List (String × List (Register Ty))} {input : ScanInput Ty}
    (hinput : scanInput instructions globalFunctionClobbers = .ok input) : input.HardCodesRegisters := by
  obtain ⟨clobbered, -, h⟩ := Fallible.bind_ok hinput
  obtain rfl := Except.ok.inj h
  intro regName record hget
  obtain ⟨-, -, register, -, hslot, -⟩ := (analyzeHardcoded_entries instructions).1 regName record hget
  exact ⟨register, hslot⟩

/-- The registers that the instructions hard-code are those that the scan knows. -/
theorem hardCodedName_scanInput_iff {instructions : List (Instruction Ty)}
    (hdefined : (instructions.filterMap Instruction.definedName).Nodup)
    {globalFunctionClobbers : List (String × List (Register Ty))} {input : ScanInput Ty}
    (hinput : scanInput instructions globalFunctionClobbers = .ok input) {regName name : String} :
    input.hardCodedName regName = some name ↔
      ∃ instr ∈ instructions, ∃ register, instr.hardCoded = some register ∧ instr.instructionId = regName ∧
        register.name = name := by
  obtain ⟨clobbered, -, h⟩ := Fallible.bind_ok hinput
  obtain rfl := Except.ok.inj h
  obtain ⟨hsound, hcomplete⟩ := analyzeHardcoded_entries instructions
  constructor
  · intro hname
    obtain ⟨record, hget, hslot⟩ := Option.bind_eq_some_iff.mp hname
    obtain ⟨instr, hinstr, register, hhard, hregister, hid⟩ := hsound regName record hget
    rw [hregister] at hslot
    exact ⟨instr, hinstr, register, hhard, hid, Option.some.inj hslot⟩
  · rintro ⟨instr, hinstr, register, hhard, rfl, rfl⟩
    obtain ⟨record, hget⟩ := hcomplete instr hinstr fun h => nomatch h.symm.trans hhard
    obtain ⟨instr', hinstr', register', hhard', hslot, hid⟩ := hsound _ record hget
    have hname' := definedName_of_hardCoded hhard'
    rw [hid] at hname'
    obtain rfl := eq_of_definedName hdefined hinstr hinstr' (definedName_of_hardCoded hhard) hname'
    obtain rfl := Option.some.inj (hhard.symm.trans hhard')
    rw [ScanInput.hardCodedName, registerOf, hget, Option.bind_some, hslot]
    rfl

omit [DecidableEq Ty] in
theorem pending_liveIntervalList {intervals : LiveIntervals Ty} (h : Named intervals) :
    Pending [] 0 (liveIntervalList intervals) where
  sorted := StableSort.sortBy_sorted _ _
  later := fun _ _ => Nat.zero_le _
  names := h.nodup_liveIntervalList

/-- The loop of a call that returns. -/
theorem scan_of_linearScan {riscvRegisters : List (Register Ty)} {instructions : List (Instruction Ty)}
    {globalFunctionClobbers : List (String × List (Register Ty))} {rng : RandNum} {intervals : LiveIntervals Ty}
    {input : ScanInput Ty} {final : ScanState Ty} (hintervals : analyze instructions = .ok intervals)
    (hinput : scanInput instructions globalFunctionClobbers = .ok input)
    (hscan : linearScan riscvRegisters globalFunctionClobbers instructions rng = .ok final) :
    scan input (.init riscvRegisters input rng) (liveIntervalList intervals) = .ok final := by
  rw [linearScan, hintervals] at hscan
  change (scanInput instructions globalFunctionClobbers >>= _) = _ at hscan
  rw [hinput] at hscan
  exact hscan

/-- The map is free of interference if and only if no step of the loop loses a hard-coded register. -/
theorem linearScan_interferenceFree_iff {riscvRegisters : List (Register Ty)}
    (hregisters : (riscvRegisters.map Register.name).Nodup) {instructions : List (Instruction Ty)}
    (hdefined : (instructions.filterMap Instruction.definedName).Nodup)
    {globalFunctionClobbers : List (String × List (Register Ty))} {rng : RandNum} {intervals : LiveIntervals Ty}
    {input : ScanInput Ty} {final : ScanState Ty} (hintervals : analyze instructions = .ok intervals)
    (hinput : scanInput instructions globalFunctionClobbers = .ok input)
    (hscan : linearScan riscvRegisters globalFunctionClobbers instructions rng = .ok final) :
    InterferenceFree instructions intervals input.clobbered final.registerMap ↔
      ∀ interval visited, Visits input (.init riscvRegisters input rng) (liveIntervalList intervals) interval visited →
        visited.KeepsHardCoded input interval := by
  have hrun := scan_of_linearScan hintervals hinput hscan
  have hregs := hardCodesRegisters_scanInput hinput
  obtain ⟨hnamed, hdefines⟩ := analyze_ok hintervals
  have hinit := ScanState.invariant_init hregisters input rng
  have hpending := pending_liveIntervalList hnamed
  obtain ⟨now, hfinal⟩ := hinit.scan hregs hpending hrun
  rw [List.append_nil] at hfinal
  have hlist : ∀ {entry}, entry ∈ intervals → entry.2 ∈ (liveIntervalList intervals).reverse := fun hentry =>
    List.mem_reverse.mpr (StableSort.mem_sortBy.mpr (List.mem_map_of_mem hentry))
  rw [← hinit.hardCoded_scan_iff hregs hpending (fun _ h => (nomatch h)) hrun, List.append_nil]
  constructor
  · intro hfree x hx name hname
    obtain ⟨instr, hinstr, register, hhard, hid, rfl⟩ := (hardCodedName_scanInput_iff hdefined hinput).mp hname
    rw [← hid]
    exact hfree.hardCoded instr hinstr register hhard
  · intro hhard
    refine ⟨fun x hx y hy hne name hxname hyname => ?_, fun x hx name hname entry hentry hstart hstop hmem => ?_,
      fun instr hinstr register hregister => ?_⟩
    · rw [← hnamed.2 x hx] at hxname
      rw [← hnamed.2 y hy] at hyname
      refine hfinal.apart x.2 (hlist hx) y.2 (hlist hy) (fun heq => hne (Prod.ext ?_ heq)) name hxname hyname
      rw [← hnamed.2 x hx, ← hnamed.2 y hy, heq]
    · rw [← hnamed.2 x hx] at hname
      refine hfinal.unclobbered x.2 (hlist hx) name hname (List.mem_flatMap.mpr ⟨entry, ?_, hmem⟩)
      exact List.mem_filter.mpr ⟨hentry, decide_eq_true ⟨hstart, hstop⟩⟩
    · have hid := definedName_of_hardCoded hregister
      obtain ⟨x, hx, hname⟩ := exists_mem_liveIntervalList hnamed (hdefines instr hinstr _ hid)
      rw [← hname]
      refine hhard x (List.mem_reverse.mpr hx) _ ((hardCodedName_scanInput_iff hdefined hinput).mpr ?_)
      exact ⟨instr, hinstr, register, hregister, hname.symm, rfl⟩

/-! A program with fourteen live values: with thirteen of them in registers, the scan spills the last one, whose
instruction hard-codes a register that is free. -/

/-- The integer registers that the allocator hands out, and `t0`. -/
def integerRegisters : List (Register String) :=
  ["t0", "t1", "t2", "t3", "t4", "t5", "t6", "s0", "s1", "s2", "s3", "s4", "s5", "s6", "s7", "s8", "s9", "s10", "s11",
    "a0", "a1", "a2", "a3", "a4", "a5", "a6", "a7"].map fun name => ⟨name, false, "GPR"⟩

/-- An instruction that puts a constant into a register. -/
def loadImmediate (name : String) (destination : OperandVal String) : Instruction String :=
  { name := "li", instructionId := name, destination := some ⟨"GPR", destination, true⟩, source := [], clobbers := [],
    rs1 := none, immediateOperand := none, marker := none }

/-- An instruction that reads two values. -/
def storeDouble (name first second : String) : Instruction String :=
  { name := "sd", instructionId := name, destination := none,
    source := [⟨"GPR", .str first, true⟩, ⟨"GPR", .str second, true⟩], clobbers := [], rs1 := some (.str first),
    immediateOperand := none, marker := none }

def valueNames : List String :=
  ["val0", "val1", "val2", "val3", "val4", "val5", "val6", "val7", "val8", "val9", "val10", "val11", "val12"]

/-- The fourteen values are defined, then read. -/
def fourteenValues (last : Instruction String) : List (Instruction String) :=
  valueNames.map (fun name => loadImmediate name (.str name)) ++ last ::
    [storeDouble "sd0" "val0" "val1", storeDouble "sd1" "val2" "val3", storeDouble "sd2" "val4" "val5",
      storeDouble "sd3" "val6" "val7", storeDouble "sd4" "val8" "val9", storeDouble "sd5" "val10" "val11",
      storeDouble "sd6" "val12" last.instructionId]

/-- The interference freedom of every run that returns a map fails: the value of `li a7` is on the stack. -/
theorem not_linearScan_interferenceFree :
    ¬ ∀ (riscvRegisters : List (Register String)) (instructions : List (Instruction String))
      (globalFunctionClobbers : List (String × List (Register String))) (rng : RandNum)
      (intervals : LiveIntervals String) (input : ScanInput String) (final : ScanState String),
      (riscvRegisters.map Register.name).Nodup → (instructions.filterMap Instruction.definedName).Nodup →
      analyze instructions = .ok intervals → scanInput instructions globalFunctionClobbers = .ok input →
      linearScan riscvRegisters globalFunctionClobbers instructions rng = .ok final →
      InterferenceFree instructions intervals input.clobbered final.registerMap := by
  intro h
  let last := loadImmediate "val13" (.register ⟨"a7", false, "GPR"⟩)
  have hrun : (linearScan integerRegisters [] (fourteenValues last) ⟨[]⟩).toOption.any
      (fun final => decide (registerOf final.registerMap "val13" = none)) = true := by decide +kernel
  obtain ⟨final, hfinal, hnone⟩ := (Option.any_eq_true _ _).mp hrun
  obtain ⟨intervals, hintervals⟩ := Fallible.exists_ok (x := analyze (fourteenValues last)) (by decide +kernel)
  obtain ⟨input, hinput⟩ := Fallible.exists_ok (x := scanInput (fourteenValues last) []) (by decide +kernel)
  have hfree := h integerRegisters (fourteenValues last) [] ⟨[]⟩ intervals input final (by decide +kernel)
    (by decide +kernel) hintervals hinput (Fallible.toOption_some hfinal)
  have hlast := hfree.hardCoded last (by decide +kernel) ⟨"a7", false, "GPR"⟩ rfl
  exact nomatch hlast.symm.trans (of_decide_eq_true hnone)

/-- The theorem at fourteen values of which the last does not hard-code its register. -/
theorem linearScan_interferenceFree_fourteenValues :
    ∃ (intervals : LiveIntervals String) (input : ScanInput String) (final : ScanState String),
      analyze (fourteenValues (loadImmediate "val13" (.str "val13"))) = .ok intervals ∧
      scanInput (fourteenValues (loadImmediate "val13" (.str "val13"))) [] = .ok input ∧
      (InterferenceFree (fourteenValues (loadImmediate "val13" (.str "val13"))) intervals input.clobbered
          final.registerMap ↔
        ∀ interval visited, Visits input (.init integerRegisters input ⟨[]⟩) (liveIntervalList intervals) interval
          visited → visited.KeepsHardCoded input interval) := by
  let instructions := fourteenValues (loadImmediate "val13" (.str "val13"))
  obtain ⟨final, hfinal⟩ := Fallible.exists_ok (x := linearScan integerRegisters [] instructions ⟨[]⟩) (by decide +kernel)
  obtain ⟨intervals, hintervals⟩ := Fallible.exists_ok (x := analyze instructions) (by decide +kernel)
  obtain ⟨input, hinput⟩ := Fallible.exists_ok (x := scanInput instructions []) (by decide +kernel)
  exact ⟨intervals, input, final, hintervals, hinput,
    linearScan_interferenceFree_iff (by decide +kernel) (by decide +kernel) hintervals hinput hfinal⟩

end Riescue.LinearScan
