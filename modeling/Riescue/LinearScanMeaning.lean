import Riescue.LinearScanStackSlots

/-! Which programs keep their meaning: exactly those whose scan needs no stack slot. On a machine whose results are all
different, a value that has a slot is reloaded from what the spill register held before the value was defined. -/

namespace Riescue.LinearScan
open Allocation
variable {Ty : Type}

/-! ### A machine that tells results apart -/

/-- Every result is a number that no register had before. -/
def freshMachine : Machine String (OperandVal Ty) (String × String) String ℕ ℕ :=
  fun _ _ count => ⟨count + 1, fun _ => none, count + 1, none⟩

/-- In front of the instruction at `i`, the values are known by the places of their definitions. -/
structure Known (instructions : List (Instruction Ty)) (i : ℕ) (v : Virtual String String ℕ ℕ) : Prop where
  state : v.state = i
  values : ∀ d < i, ∀ instr, instructions[d]? = some instr → ∀ name, instr.definedName = some name →
    v.values name = some (d + 1)

/-- In front of the instruction at `i`, the machine has seen no larger number than `i`, and the slot of a value holds what
the spill register had before the value was defined. -/
structure Stale (t : Target Ty) (registerMap : List (String × VariableRecord Ty)) (instructions : List (Instruction Ty)) (i : ℕ)
    (s : MachineState ℕ ℕ) : Prop where
  state : s.state = i
  regs : ∀ r, s.regs r ≤ i
  stack : ∀ offset, s.stack offset ≤ i
  slots : ∀ d < i, ∀ instr, instructions[d]? = some instr → ∀ name, instr.definedName = some name →
    ∀ offset, slotOf registerMap name = some (.stack offset) → s.stack (offset * t.bytesPerSpill) ≤ d

/-- No two values that are defined share a slot. -/
def SlotsDistinct (registerMap : List (String × VariableRecord Ty)) (instructions : List (Instruction Ty)) : Prop :=
  ∀ name ∈ instructions.filterMap Instruction.definedName, ∀ name' ∈ instructions.filterMap Instruction.definedName,
    ∀ offset, slotOf registerMap name = some (.stack offset) → slotOf registerMap name' = some (.stack offset) → name = name'

/-- An instruction reads a value from its slot. -/
def ReadsSlot (registerMap : List (String × VariableRecord Ty)) (src : Operand Ty) : Prop :=
  ∃ name offset, src.usedName = some name ∧ slotOf registerMap name = some (.stack offset)

variable {t : Target Ty} {registerMap : List (String × VariableRecord Ty)} {instructions : List (Instruction Ty)}
  {globalFunctionClobbers : List (String × List (Register Ty))} {i : ℕ} {v : Virtual String String ℕ ℕ} {s : MachineState ℕ ℕ}
  {instr : Instruction Ty}

/-- The values that a program defines once are defined at one place. -/
theorem definedAt_inj (hdefined : (instructions.filterMap Instruction.definedName).Nodup) {d d' : ℕ}
    {instr instr' : Instruction Ty}
    (hget : instructions[d]? = some instr) (hget' : instructions[d']? = some instr') {name : String}
    (hname : instr.definedName = some name) (hname' : instr'.definedName = some name) : d = d' := by
  have hpairwise := List.pairwise_filterMap.mp hdefined
  obtain ⟨hd, rfl⟩ := List.getElem?_eq_some_iff.mp hget
  obtain ⟨hd', rfl⟩ := List.getElem?_eq_some_iff.mp hget'
  rcases lt_trichotomy d d' with hlt | heq | hgt
  · exact absurd rfl (List.pairwise_iff_getElem.mp hpairwise d d' hd hd' hlt name hname name hname')
  · exact heq
  · exact absurd rfl (List.pairwise_iff_getElem.mp hpairwise d' d hd' hd hgt name hname' name hname)

theorem drop_eq_cons {rest : List (Instruction Ty)} (h : instructions.drop i = instr :: rest) :
    instructions[i]? = some instr ∧ instructions.drop (i + 1) = rest := by
  constructor
  · rw [← Nat.add_zero i, ← List.getElem?_drop, h]
    rfl
  · rw [← List.tail_drop, h, List.tail_cons]

/-- The last element with a property. -/
theorem exists_last {α : Type} {p : α → Prop} {xs : List α} (h : ∃ x ∈ xs, p x) :
    ∃ front x back, xs = front ++ x :: back ∧ p x ∧ ∀ y ∈ back, ¬ p y := by
  induction xs with
  | nil =>
      obtain ⟨x, hx, -⟩ := h
      cases hx
  | cons x rest ih =>
      by_cases hrest : ∃ y ∈ rest, p y
      · obtain ⟨front, y, back, rfl, hy, hback⟩ := ih hrest
        exact ⟨x :: front, y, back, rfl, hy, hback⟩
      · obtain ⟨y, hy, hp⟩ := h
        obtain rfl : y = x := (List.mem_cons.mp hy).resolve_right fun hmem => hrest ⟨y, hmem, hp⟩
        exact ⟨[], y, rest, rfl, hp, fun z hz hpz => hrest ⟨z, hz, hpz⟩⟩

/-- The rewritten instruction, behind its spill code. -/
theorem run_rewriteInstr [DecidableEq Ty] {Val σ : Type} {codes : List (Code Ty)}
    (h : t.rewriteInstr registerMap instr = .ok codes) (m : Machine String (OperandVal Ty) (String × String) String Val σ)
    (rest : List (Code Ty)) (s : MachineState Val σ) :
    ∃ dest spill sources, t.rewriteDestination registerMap instr.destination = .ok (dest, spill) ∧
      instr.source.mapM (t.rewriteSource registerMap) = .ok sources ∧
      s.run m (codes ++ rest) none =
        ((sources.flatMap Prod.snd).foldl MachineState.spill (spill.foldl MachineState.spill s)).run m
          (.instr instr dest (sources.map Prod.fst) :: rest) none := by
  obtain ⟨dest, spill, sources, hdest, hsources, rfl⟩ := rewriteInstr_ok h
  refine ⟨dest, spill, sources, hdest, hsources, ?_⟩
  have hspill : IsSpillCode spill := by
    rcases rewriteDestination_ok hdest with hspill | ⟨type, name, offset, -, -, hspill⟩
    · rw [hspill]
      exact List.forall_mem_nil _
    · rw [hspill]
      exact List.forall_mem_singleton.mpr fun _ _ _ heq => by cases heq
  have hloads : IsSpillCode (sources.flatMap Prod.snd) := by
    intro code hcode
    obtain ⟨name, tempReg, offset, rfl⟩ := rewriteSources_loads hsources code hcode
    exact fun _ _ _ heq => by cases heq
  rw [List.append_assoc, List.singleton_append, run_spillCode (isSpillCode_append.mpr ⟨hspill, hloads⟩), List.foldl_append]

/-! ### The program on values -/

/-- No instruction of the machine jumps. -/
theorem run_fresh_cons [DecidableEq Ty] {rest : List (Op String String (OperandVal Ty) (String × String) String)}
    {args : List (Arg (OperandVal Ty) ℕ)} (hargs : (instr.source.map (Operand.reads t.getRegister)).mapM v.arg = some args) :
    Virtual.run freshMachine (instr.op t instructions globalFunctionClobbers :: rest) none v =
      (Virtual.run freshMachine rest none
        (v.next (instr.op t instructions globalFunctionClobbers) (freshMachine instr.tag args v.state))).map
          ((instr.tag, args) :: ·) := by
  change (((instr.source.map (Operand.reads t.getRegister)).mapM v.arg).bind fun args => _) = _
  rw [hargs]
  rfl

namespace Known

theorem value (h : Known instructions i v) (hbefore : DefinedBeforeUse instructions) {name : String}
    (hused : UsedAt instructions name i) :
    ∃ d < i, ∃ instr, instructions[d]? = some instr ∧ instr.definedName = some name ∧ v.values name = some (d + 1) := by
  obtain ⟨d, hd, instr, hget, hname⟩ := hbefore i name hused
  exact ⟨d, hd, instr, hget, hname, h.values d hd instr hget name hname⟩

theorem exists_arg (h : Known instructions i v) (hbefore : DefinedBeforeUse instructions)
    (hget : instructions[i]? = some instr) {src : Operand Ty} (hsrc : src ∈ instr.source) :
    ∃ a, v.arg (src.reads t.getRegister) = some a := by
  cases hread : src.reads t.getRegister with
  | fixed r => exact ⟨_, rfl⟩
  | const c => exact ⟨_, rfl⟩
  | value name =>
      obtain ⟨d, -, -, -, -, hvalue⟩ := h.value hbefore ⟨instr, hget, src, hsrc, reads_eq_value_iff.mp hread⟩
      exact ⟨.value (d + 1), by rw [Virtual.arg, hvalue]; rfl⟩

/-- What the instruction at `i` gets in the program on values. -/
theorem exists_args (h : Known instructions i v) (hbefore : DefinedBeforeUse instructions)
    (hget : instructions[i]? = some instr) {source : List (Operand Ty)} (hsource : source ⊆ instr.source) :
    ∃ args, (source.map (Operand.reads t.getRegister)).mapM v.arg = some args ∧ args.length = source.length := by
  induction source with
  | nil => exact ⟨[], rfl, rfl⟩
  | cons src rest ih =>
      obtain ⟨hsrc, hrest⟩ := List.cons_subset.mp hsource
      obtain ⟨a, ha⟩ := h.exists_arg (t := t) hbefore hget hsrc
      obtain ⟨args, hargs, hlength⟩ := ih hrest
      refine ⟨a :: args, ?_, congrArg Nat.succ hlength⟩
      rw [List.map_cons, List.mapM_cons, ha, hargs]
      rfl

variable [DecidableEq Ty]

theorem next (h : Known instructions i v) (hdefined : (instructions.filterMap Instruction.definedName).Nodup)
    (hget : instructions[i]? = some instr) (args : List (Arg (OperandVal Ty) ℕ)) :
    Known instructions (i + 1)
      (v.next (instr.op t instructions globalFunctionClobbers) (freshMachine instr.tag args v.state)) where
  state := congrArg Nat.succ h.state
  values := by
    intro d hd instr' hget' name hname
    change (instr.definedName.elim v.values fun w => Function.update v.values w (some (v.state + 1))) name = some (d + 1)
    rcases Nat.lt_succ_iff_lt_or_eq.mp hd with hlt | rfl
    · cases hdest : instr.definedName with
      | none => exact h.values d hlt instr' hget' name hname
      | some w =>
          have hne : name ≠ w := fun heq => (definedAt_inj hdefined hget' hget hname (heq ▸ hdest)).not_lt hlt
          exact (Function.update_of_ne hne _ _).trans (h.values d hlt instr' hget' name hname)
    · obtain rfl := Option.some.inj (hget.symm.trans hget')
      rw [hname, h.state]
      exact Function.update_self _ _ _

/-- Nothing that a program reads is undefined. -/
theorem exists_run {back : List (Instruction Ty)} (h : Known instructions i v) (hback : instructions.drop i = back)
    (hdefined : (instructions.filterMap Instruction.definedName).Nodup) (hbefore : DefinedBeforeUse instructions) :
    ∃ events, Virtual.run freshMachine (back.map (Instruction.op t instructions globalFunctionClobbers)) none v =
      some events := by
  induction back generalizing i v with
  | nil => exact ⟨[], rfl⟩
  | cons instr rest ih =>
      obtain ⟨hget, hrest⟩ := drop_eq_cons hback
      obtain ⟨args, hargs, -⟩ := h.exists_args (t := t) hbefore hget (List.Subset.refl _)
      obtain ⟨events, hevents⟩ := ih (h.next hdefined hget args) hrest
      refine ⟨(instr.tag, args) :: events, ?_⟩
      rw [List.map_cons, run_fresh_cons hargs, hevents]
      rfl

end Known

/-! ### The program with stack slots -/

namespace Stale
variable [DecidableEq Ty]

/-- A destination is stored before it is computed. -/
theorem spill (h : Stale t registerMap instructions i s) (hget : instructions[i]? = some instr)
    (hdefined : (instructions.filterMap Instruction.definedName).Nodup) (hapart : SlotsDistinct registerMap instructions)
    (hbytes : 0 < t.bytesPerSpill) {dest : Option (Operand Ty)} {spill : List (Code Ty)}
    (hdest : t.rewriteDestination registerMap instr.destination = .ok (dest, spill)) :
    (spill.foldl MachineState.spill s).regs = s.regs ∧ (spill.foldl MachineState.spill s).state = s.state ∧
      (∀ offset, (spill.foldl MachineState.spill s).stack offset ≤ i) ∧
      ∀ d < i + 1, ∀ instr', instructions[d]? = some instr' → ∀ name, instr'.definedName = some name →
        ∀ offset, slotOf registerMap name = some (.stack offset) →
          (spill.foldl MachineState.spill s).stack (offset * t.bytesPerSpill) ≤ d := by
  rcases rewriteDestination_ok hdest with rfl | ⟨type, name₀, offset₀, hdestination, hslot₀, rfl⟩
  · refine ⟨rfl, rfl, h.stack, fun d hd instr' hget' name hname offset hslot => ?_⟩
    rcases Nat.lt_succ_iff_lt_or_eq.mp hd with hlt | rfl
    · exact h.slots d hlt instr' hget' name hname offset hslot
    · exact h.stack _
  · have hname₀ : instr.definedName = some name₀ := by rw [Instruction.definedName, hdestination]
    have hstored : ∀ place, Function.update s.stack (offset₀ * t.bytesPerSpill) (s.regs (t.tempReg type).name) place ≤ i := by
      intro place
      by_cases hplace : place = offset₀ * t.bytesPerSpill
      · rw [hplace, Function.update_self]
        exact h.regs _
      · rw [Function.update_of_ne hplace]
        exact h.stack place
    refine ⟨rfl, rfl, hstored, fun d hd instr' hget' name hname offset hslot => ?_⟩
    rcases Nat.lt_succ_iff_lt_or_eq.mp hd with hlt | rfl
    · -- the slot of another value is another word
      have hplace : offset * t.bytesPerSpill ≠ offset₀ * t.bytesPerSpill := by
        intro heq
        obtain rfl := Nat.eq_of_mul_eq_mul_right hbytes heq
        obtain rfl := hapart name (List.mem_filterMap.mpr ⟨instr', List.mem_of_getElem? hget', hname⟩) name₀
          (List.mem_filterMap.mpr ⟨instr, List.mem_of_getElem? hget, hname₀⟩) offset hslot hslot₀
        exact (definedAt_inj hdefined hget' hget hname hname₀).not_lt hlt
      change Function.update s.stack (offset₀ * t.bytesPerSpill) (s.regs (t.tempReg type).name) (offset * t.bytesPerSpill) ≤ d
      rw [Function.update_of_ne hplace]
      exact h.slots d hlt instr' hget' name hname offset hslot
    · exact hstored _

/-- An instruction that reads no slot. -/
theorem step (h : Stale t registerMap instructions i s) (hget : instructions[i]? = some instr)
    (hdefined : (instructions.filterMap Instruction.definedName).Nodup) (hapart : SlotsDistinct registerMap instructions)
    (hbytes : 0 < t.bytesPerSpill) (hplain : ∀ src ∈ instr.source, ¬ ReadsSlot registerMap src) {codes : List (Code Ty)}
    (hcodes : t.rewriteInstr registerMap instr = .ok codes) (rest : List (Code Ty)) :
    ∃ args s', s.run freshMachine (codes ++ rest) none = (instr.tag, args) :: s'.run freshMachine rest none ∧
      Stale t registerMap instructions (i + 1) s' := by
  obtain ⟨dest, spill, sources, hdest, hsources, hrun⟩ := run_rewriteInstr hcodes freshMachine rest s
  obtain ⟨hregs, hstate, hstack, hslots⟩ := h.spill hget hdefined hapart hbytes hdest
  have hloads : sources.flatMap Prod.snd = [] :=
    rewriteSources_plain hsources fun src hsrc name hused offset hslot => hplain src hsrc ⟨name, offset, hused, hslot⟩
  rw [hloads] at hrun
  refine ⟨_, _, hrun, congrArg Nat.succ (hstate.trans h.state), fun r => ?_, fun offset => (hstack offset).trans (Nat.le_succ i),
    hslots⟩
  have hresult : (spill.foldl MachineState.spill s).state + 1 ≤ i + 1 := (congrArg Nat.succ (hstate.trans h.state)).le
  have hregs' : ∀ r, (spill.foldl MachineState.spill s).regs r ≤ i + 1 := fun r => hregs ▸ (h.regs r).trans (Nat.le_succ i)
  change (Option.elim (MachineState.destination dest) (spill.foldl MachineState.spill s).regs fun r =>
    Function.update (spill.foldl MachineState.spill s).regs r ((spill.foldl MachineState.spill s).state + 1)) r ≤ i + 1
  cases MachineState.destination dest with
  | none => exact hregs' r
  | some w =>
      change Function.update (spill.foldl MachineState.spill s).regs w ((spill.foldl MachineState.spill s).state + 1) r ≤ i + 1
      by_cases hr : r = w
      · rw [hr, Function.update_self]
        exact hresult
      · rw [Function.update_of_ne hr]
        exact hregs' r

/-- An instruction that reads a slot gets an older number than the one of the value. -/
theorem args_ne (h : Stale t registerMap instructions i s) (hknown : Known instructions i v)
    (hget : instructions[i]? = some instr) (hdefined : (instructions.filterMap Instruction.definedName).Nodup)
    (hbefore : DefinedBeforeUse instructions) (hapart : SlotsDistinct registerMap instructions) (hbytes : 0 < t.bytesPerSpill)
    (hreads : ∃ src ∈ instr.source, ReadsSlot registerMap src) {codes : List (Code Ty)}
    (hcodes : t.rewriteInstr registerMap instr = .ok codes) (rest : List (Code Ty)) :
    ∃ args tail, s.run freshMachine (codes ++ rest) none = (instr.tag, args) :: tail ∧
      (instr.source.map (Operand.reads t.getRegister)).mapM v.arg ≠ some args := by
  obtain ⟨dest, spill, sources, hdest, hsources, hrun⟩ := run_rewriteInstr hcodes freshMachine rest s
  obtain ⟨hregs, hstate, hstack, hslots⟩ := h.spill hget hdefined hapart hbytes hdest
  refine ⟨_, _, hrun, fun hargs => ?_⟩
  obtain ⟨front, src, back, hsource, ⟨name, offset, hused, hslot⟩, hlast⟩ := exists_last hreads
  have hmem : src ∈ instr.source := hsource ▸ List.mem_append_right front List.mem_cons_self
  obtain ⟨d, hd, instr', hget', hname', hvalue⟩ := hknown.value hbefore ⟨instr, hget, src, hmem, hused⟩
  have hstale := hslots d (hd.trans (Nat.lt_succ_self i)) instr' hget' name hname' offset hslot
  -- what the sources are rewritten to
  rw [hsource, List.mapM_append, List.mapM_cons] at hsources
  obtain ⟨fronts, hfronts, hsources⟩ := Fallible.bind_ok hsources
  obtain ⟨both, hboth, hsources⟩ := Fallible.bind_ok hsources
  obtain ⟨⟨src', load⟩, hsrc, hboth⟩ := Fallible.bind_ok hboth
  obtain ⟨backs, hbacks, hboth⟩ := Fallible.bind_ok hboth
  obtain rfl := Except.ok.inj hboth
  obtain rfl := Except.ok.inj hsources
  have hbackLoads : backs.flatMap Prod.snd = [] :=
    rewriteSources_plain hbacks fun other hother name hused offset hslot => hlast other hother ⟨name, offset, hused, hslot⟩
  rcases rewriteSource_ok hsrc with ⟨-, hnone⟩ | ⟨name', offset', hused', hslot', rfl, rfl⟩
  · exact hnone name hused offset hslot
  obtain rfl := Option.some.inj (hused.symm.trans hused')
  obtain rfl := Slot.stack.inj (Option.some.inj (hslot.symm.trans hslot'))
  -- what the sources are in the program on values
  have hfrontSubset : front ⊆ instr.source := hsource ▸ List.subset_append_left front (src :: back)
  have hbackSubset : back ⊆ instr.source := hsource ▸ List.subset_append_of_subset_right front (List.subset_cons_self src back)
  obtain ⟨frontArgs, hfrontArgs, hfrontLength⟩ := hknown.exists_args (t := t) hbefore hget hfrontSubset
  obtain ⟨backArgs, hbackArgs, -⟩ := hknown.exists_args (t := t) hbefore hget hbackSubset
  have harg : v.arg (src.reads t.getRegister) = some (.value (d + 1)) := by
    rw [reads_eq_value_iff.mpr hused, Virtual.arg, hvalue]
    rfl
  have hexpected : (instr.source.map (Operand.reads t.getRegister)).mapM v.arg =
      some (frontArgs ++ .value (d + 1) :: backArgs) := by
    rw [hsource, List.map_append, List.map_cons, List.mapM_append, List.mapM_cons, hfrontArgs, harg, hbackArgs]
    rfl
  -- the last load is the one of this source
  have hfrontLoads := (foldl_loads (rewriteSources_loads hfronts) (spill.foldl MachineState.spill s)).1
  rw [hexpected, List.flatMap_append, List.flatMap_cons, hbackLoads, List.append_nil, List.foldl_append, List.map_append,
    List.map_append, List.map_cons, List.map_cons] at hargs
  have hboth := (List.append_inj (Option.some.inj hargs) (by
    rw [List.length_map, List.length_map, hfrontLength, Fallible.length_mapM hfronts])).2
  have hloaded : d + 1 = (spill.foldl MachineState.spill s).stack (offset * t.bytesPerSpill) := by
    rw [← hfrontLoads]
    exact (Arg.value.inj (List.cons.inj hboth).1).trans (Function.update_self _ _ _)
  omega

/-- A program that reads a slot further on gets a different value there. -/
theorem run_ne {back : List (Instruction Ty)} (h : Stale t registerMap instructions i s) (hknown : Known instructions i v)
    (hback : instructions.drop i = back) (hdefined : (instructions.filterMap Instruction.definedName).Nodup)
    (hbefore : DefinedBeforeUse instructions) (hapart : SlotsDistinct registerMap instructions) (hbytes : 0 < t.bytesPerSpill)
    (hreads : ∃ j, i ≤ j ∧ ∃ instr, instructions[j]? = some instr ∧ ∃ src ∈ instr.source, ReadsSlot registerMap src)
    {codes : List (Code Ty)} (hcodes : t.applyLinearScan registerMap back = .ok codes)
    {events : List (Event (OperandVal Ty) (String × String) ℕ)}
    (hrun : Virtual.run freshMachine (back.map (Instruction.op t instructions globalFunctionClobbers)) none v = some events) :
    s.run freshMachine codes none ≠ events := by
  induction back generalizing i v s codes events with
  | nil =>
      obtain ⟨j, hj, instr, hget, -⟩ := hreads
      have hlength := List.drop_eq_nil_iff.mp hback
      exact absurd (List.getElem?_eq_some_iff.mp hget).1 (hlength.trans hj).not_gt
  | cons instr rest ih =>
      obtain ⟨hget, hrest⟩ := drop_eq_cons hback
      obtain ⟨parts, hparts, hflat⟩ := Fallible.bind_ok hcodes
      rw [List.mapM_cons] at hparts
      obtain ⟨head, hhead, hparts⟩ := Fallible.bind_ok hparts
      obtain ⟨tails, htails, hparts⟩ := Fallible.bind_ok hparts
      obtain rfl := Except.ok.inj hparts
      obtain rfl := Except.ok.inj hflat
      have hcodesRest : t.applyLinearScan registerMap rest = .ok tails.flatten := by
        rw [Target.applyLinearScan, htails]
        rfl
      obtain ⟨args, hargs, -⟩ := hknown.exists_args (t := t) hbefore hget (List.Subset.refl _)
      rw [List.map_cons, run_fresh_cons hargs] at hrun
      obtain ⟨restEvents, hrestRun, rfl⟩ := Option.map_eq_some_iff.mp hrun
      rw [List.flatten_cons]
      by_cases hhere : ∃ src ∈ instr.source, ReadsSlot registerMap src
      · obtain ⟨got, tail, hgot, hne⟩ := h.args_ne hknown hget hdefined hbefore hapart hbytes hhere hhead tails.flatten
        rw [hgot]
        intro heq
        have hsame := (Prod.mk.inj (List.cons.inj heq).1).2
        exact hne (hsame ▸ hargs)
      · have hplain : ∀ src ∈ instr.source, ¬ ReadsSlot registerMap src := fun src hsrc hslot => hhere ⟨src, hsrc, hslot⟩
        obtain ⟨got, s', hgot, hs'⟩ := h.step hget hdefined hapart hbytes hplain hhead tails.flatten
        obtain ⟨j, hj, instr', hget', hsrc⟩ := hreads
        have hlater : i + 1 ≤ j := by
          rcases Nat.eq_or_lt_of_le hj with rfl | hlt
          · obtain rfl := Option.some.inj (hget.symm.trans hget')
            exact absurd hsrc hhere
          · exact hlt
        rw [hgot]
        intro heq
        exact ih hs' (hknown.next hdefined hget args) hrest ⟨j, hlater, instr', hget', hsrc⟩ hcodesRest hrestRun
          (List.cons.inj heq).2

end Stale

/-! ### The pass -/

theorem get?_analyzeSources {uses : List (ℕ × Operand Ty)} {start : LiveIntervals Ty} {name : String}
    (h : ∀ use ∈ uses, use.2.usedName ≠ some name) :
    OrderedDict.get? (uses.foldl (fun intervals use => analyzeSource use.1 intervals use.2) start) name =
      OrderedDict.get? start name := by
  induction uses generalizing start with
  | nil => rfl
  | cons use rest ih =>
      obtain ⟨huse, hrest⟩ := List.forall_mem_cons.mp h
      rw [List.foldl_cons, ih hrest, analyzeSource]
      cases hused : use.2.usedName with
      | none => rfl
      | some other => exact OrderedDict.get?_insert_ne _ _ fun heq => huse (hused.trans (congrArg some heq.symm))

/-- An interval is the one of a value that is defined. -/
theorem exists_definedAt {intervals : LiveIntervals Ty} (h : analyze instructions = .ok intervals)
    (hbefore : DefinedBeforeUse instructions) {x : Interval Ty} (hx : x ∈ liveIntervalList intervals) :
    ∃ (d : ℕ) (instr : Instruction Ty), instructions[d]? = some instr ∧ instr.definedName = some x.regName := by
  obtain ⟨hnamed, -⟩ := analyze_ok h
  obtain ⟨entry, hentry, rfl⟩ := List.mem_map.mp (StableSort.mem_sortBy.mp hx)
  obtain ⟨defined, hfirst, hanalyze⟩ := Fallible.bind_ok h
  obtain rfl := Except.ok.inj hanalyze
  by_contra hnone
  push Not at hnone
  have hdefinitions : ∀ entry' ∈ instructions.zipIdx, entry'.1.definedName ≠ some entry.2.regName :=
    fun entry' hmem => hnone entry'.2 entry'.1 (List.mk_mem_zipIdx_iff_getElem?.mp hmem)
  have huses : ∀ use ∈ uses instructions, use.2.usedName ≠ some entry.2.regName := by
    rintro ⟨j, src⟩ hmem hused
    obtain ⟨instr, hget, hsrc⟩ := mem_uses.mp hmem
    obtain ⟨d, -, instr', hget', hname⟩ := hbefore j _ ⟨instr, hget, src, hsrc, hused⟩
    exact hnone d instr' hget' hname
  have hget : OrderedDict.get? ((uses instructions).foldl (fun intervals use => analyzeSource use.1 intervals use.2) defined)
      entry.2.regName = none :=
    (get?_analyzeSources huses).trans ((get?_analyzeDestinations hfirst hdefinitions).trans (OrderedDict.get?_nil _))
  rw [← foldl_analyzeSource, hnamed.2 entry hentry] at hget
  exact absurd (OrderedDict.get?_isSome.mpr (List.mem_map_of_mem hentry)) (by rw [hget]; exact Bool.false_ne_true)

section
variable [DecidableEq Ty]

/-- The rewriting looks up no value that the map does not have. -/
theorem exists_applyLinearScan
    (hdefinitions : ∀ instr ∈ instructions, ∀ name, instr.definedName = some name → (slotOf registerMap name).isSome)
    (huses : ∀ instr ∈ instructions, ∀ src ∈ instr.source, ∀ name, src.usedName = some name →
      (slotOf registerMap name).isSome) :
    ∃ codes, t.applyLinearScan registerMap instructions = .ok codes := by
  have hrecord : ∀ {name}, (slotOf registerMap name).isSome → ∃ record, OrderedDict.get? registerMap name = some record := by
    intro name hslot
    rw [slotOf, Option.isSome_map] at hslot
    exact Option.isSome_iff_exists.mp hslot
  have hdestination : ∀ instr ∈ instructions, ∃ dest, t.rewriteDestination registerMap instr.destination = .ok dest := by
    intro instr hinstr
    have hdefined := hdefinitions instr hinstr
    unfold Instruction.definedName at hdefined
    generalize instr.destination = destination at hdefined ⊢
    rcases destination with _ | ⟨type, val, _ | _⟩
    · exact ⟨_, rfl⟩
    · cases val <;> exact ⟨_, rfl⟩
    · cases val with
      | none => exact ⟨_, rfl⟩
      | int val => exact ⟨_, rfl⟩
      | register register => exact ⟨_, rfl⟩
      | str name =>
          obtain ⟨⟨start, stop, slot⟩, hget⟩ := hrecord (hdefined name rfl)
          simp only [Target.rewriteDestination, hget]
          cases slot <;> exact ⟨_, rfl⟩
  have hsource : ∀ instr ∈ instructions, ∀ src ∈ instr.source, ∃ src', t.rewriteSource registerMap src = .ok src' := by
    intro instr hinstr src hsrc
    have hused := huses instr hinstr src hsrc
    obtain ⟨type, val, _ | _⟩ := src
    · cases val <;> exact ⟨_, rfl⟩
    · cases val with
      | none => exact ⟨_, rfl⟩
      | int val => exact ⟨_, rfl⟩
      | register register => exact ⟨_, rfl⟩
      | str name =>
          by_cases hliteral : isLiteralRegister name = true
          · exact ⟨_, if_pos hliteral⟩
          · obtain ⟨⟨start, stop, slot⟩, hget⟩ := hrecord (hused name (if_neg hliteral))
            simp only [Target.rewriteSource, if_neg hliteral, hget]
            cases slot <;> exact ⟨_, rfl⟩
  have hinstr : ∀ instr ∈ instructions, ∃ codes, t.rewriteInstr registerMap instr = .ok codes := by
    intro instr hinstr
    obtain ⟨dest, hdest⟩ := hdestination instr hinstr
    obtain ⟨sources, hsources⟩ := Fallible.exists_mapM (hsource instr hinstr)
    exact ⟨_, by rw [Target.rewriteInstr, hdest, hsources]; rfl⟩
  obtain ⟨parts, hparts⟩ := Fallible.exists_mapM hinstr
  exact ⟨_, by rw [Target.applyLinearScan, hparts]; rfl⟩

variable {riscvRegisters : List (Register Ty)} {intervals : LiveIntervals Ty} {input : ScanInput Ty} {final : ScanState Ty}
  {rng : RandNum}

omit [DecidableEq Ty] in
/-- The state in front of the loop. -/
theorem ScanState.registered_init (input : ScanInput Ty) (rng : RandNum) :
    (ScanState.init riscvRegisters input rng).Registered input ((RegisterPool.init riscvRegisters).freeRegs.map Register.name)
      [] where
  pool := ⟨fun reg hreg => List.mem_map_of_mem hreg, fun tempRegName reg h => by cases h⟩
  mapped := List.forall_mem_nil _
  hardCoded := fun x hx => absurd hx List.not_mem_nil

omit [DecidableEq Ty] in
theorem ScanState.slotsApart_init (input : ScanInput Ty) (rng : RandNum) :
    (ScanState.init riscvRegisters input rng).SlotsApart [] where
  spilled_subset := List.Subset.refl _
  mapped := List.forall_mem_nil _
  bound := List.forall_mem_nil _
  apart := List.forall_mem_nil _
  long := List.forall_mem_nil _
  exists_spilled := fun h => absurd rfl h

/-- The allocator keeps the meaning of a program exactly when it spills nothing, as long as no instruction reads by its own
name a register that the pool hands out. -/
theorem linearScan_preservesMeaning_iff (hregisters : (riscvRegisters.map Register.name).Nodup)
    (hdefined : (instructions.filterMap Instruction.definedName).Nodup) (hbefore : DefinedBeforeUse instructions)
    (hwidth : 8 ≤ t.regWidth)
    (hfixed : ∀ r, .fixed r ∈ reads (program t globalFunctionClobbers instructions) →
      r ∉ (RegisterPool.init riscvRegisters).freeRegs.map Register.name)
    (hscan : linearScan riscvRegisters globalFunctionClobbers instructions rng = .ok final) :
    ∃ codes, t.applyLinearScan final.registerMap instructions = .ok codes ∧
      (PreservesMeaning t globalFunctionClobbers instructions codes ↔ final.spilled = []) := by
  obtain ⟨intervals, hanalyze, hloop⟩ := Fallible.bind_ok hscan
  obtain ⟨input, hinput, hloop⟩ := Fallible.bind_ok hloop
  obtain ⟨clobbered, hclobbered, hinputEq⟩ := Fallible.bind_ok hinput
  have hregs := hardCodesRegisters_scanInput hinput
  have hinit := ScanState.invariant_init hregisters input rng
  have hpending := pending_liveIntervalList (analyze_ok hanalyze).1
  obtain ⟨now, hfinal⟩ := hinit.scan hregs hpending hloop
  have hslots := (ScanState.slotsApart_init input rng).scan hregs hinit hpending hloop
  rw [List.append_nil] at hfinal hslots
  have hmapped : ∀ {i : ℕ} {instr : Instruction Ty} {name : String}, instructions[i]? = some instr →
      instr.definedName = some name → (slotOf final.registerMap name).isSome := by
    intro i instr name hget hname
    obtain ⟨x, hx, hxname, -⟩ := exists_live hanalyze hdefined hget hname
    exact hxname ▸ hslots.mapped x hx
  obtain ⟨codes, hcodes⟩ : ∃ codes, t.applyLinearScan final.registerMap instructions = .ok codes := by
    refine exists_applyLinearScan (fun instr hinstr name hname => ?_) fun instr hinstr src hsrc name hused => ?_
    · obtain ⟨i, hi, rfl⟩ := List.getElem_of_mem hinstr
      exact hmapped (List.getElem?_eq_getElem hi) hname
    · obtain ⟨j, hj, rfl⟩ := List.getElem_of_mem hinstr
      obtain ⟨i, -, instr', hget, hname⟩ := hbefore j name ⟨_, List.getElem?_eq_getElem hj, src, hsrc, hused⟩
      exact hmapped hget hname
  refine ⟨codes, hcodes, fun hpreserves => ?_, fun hnone => ?_⟩
  · by_contra hspilled
    obtain ⟨x, hx, offset, hslot⟩ := hslots.exists_spilled hspilled
    obtain ⟨d, instr, hget, hname⟩ := exists_definedAt hanalyze hbefore (List.mem_reverse.mp hx)
    obtain ⟨y, hy, hyname, hystart, -, -, hlast⟩ := exists_live hanalyze hdefined hget hname
    obtain rfl := hfinal.eq_of_regName hy hx hyname
    obtain ⟨instr', hget', src, hsrc, hused⟩ := hlast (hystart ▸ hslots.long y hy offset hslot)
    have hapart : SlotsDistinct final.registerMap instructions := by
      intro name hname name' hname' offset hslot hslot'
      obtain ⟨instr, hinstr, hname⟩ := List.mem_filterMap.mp hname
      obtain ⟨instr', hinstr', hname'⟩ := List.mem_filterMap.mp hname'
      obtain ⟨i, hi, rfl⟩ := List.getElem_of_mem hinstr
      obtain ⟨i', hi', rfl⟩ := List.getElem_of_mem hinstr'
      obtain ⟨x, hx, hxname, -⟩ := exists_live hanalyze hdefined (List.getElem?_eq_getElem hi) hname
      obtain ⟨x', hx', hxname', -⟩ := exists_live hanalyze hdefined (List.getElem?_eq_getElem hi') hname'
      rw [← hxname, ← hxname', hslots.apart x hx x' hx' offset (hxname ▸ hslot) (hxname' ▸ hslot')]
    let start : MachineState ℕ ℕ := ⟨fun _ => 0, fun _ => 0, 0⟩
    let values : Virtual String String ℕ ℕ := ⟨fun _ => none, start.regs, start.state⟩
    have hknown : Known instructions 0 values := ⟨rfl, fun d hd => absurd hd (Nat.not_lt_zero d)⟩
    have hstale : Stale t final.registerMap instructions 0 start :=
      ⟨rfl, fun _ => le_refl 0, fun _ => le_refl 0, fun d hd => absurd hd (Nat.not_lt_zero d)⟩
    obtain ⟨events, hevents⟩ : ∃ events,
        Virtual.run freshMachine (program t globalFunctionClobbers instructions) none values = some events :=
      hknown.exists_run List.drop_zero hdefined hbefore
    refine hstale.run_ne hknown List.drop_zero hdefined hbefore hapart (Nat.div_pos hwidth (by decide))
      ⟨_, Nat.zero_le _, instr', hget', src, hsrc, _, offset, hused, hslot⟩ hcodes hevents ?_
    exact hpreserves ℕ ℕ freshMachine (fun op _ args s r hchanged => by cases hchanged) start events hevents
  · have hregistered := (ScanState.registered_init input rng).scan hregs hinit hpending hloop hnone
    rw [List.append_nil] at hregistered
    obtain rfl := Except.ok.inj hinputEq
    have hkept := kept_program (t := t) hanalyze hdefined hclobbered hfinal hregistered hfixed
    obtain ⟨codes', hcodes', hrun⟩ := run_inRegisters (t := t) globalFunctionClobbers instructions instructions
      (inRegisters_program hanalyze hdefined hbefore hinput hregistered)
    obtain rfl := Except.ok.inj (hcodes.symm.trans hcodes')
    intro Val σ m hrespects start events hevents
    rw [hrun Val σ m none start]
    exact run_eq hkept hrespects (fun _ => rfl) (fun _ _ => rfl) rfl hevents

end

/-- Two values that are read by one instruction. -/
def twoValues : List (Instruction String) :=
  [loadImmediate "val0" (.str "val0"), loadImmediate "val1" (.str "val1"), storeDouble "sd0" "val0" "val1"]

theorem definedBeforeUse_twoValues : DefinedBeforeUse twoValues := by
  rintro (_ | _ | _ | j) name ⟨instr, hget, src, hsrc, hused⟩
  · obtain rfl := Option.some.inj hget
    cases hsrc
  · obtain rfl := Option.some.inj hget
    cases hsrc
  · obtain rfl := Option.some.inj hget
    rcases List.mem_pair.mp hsrc with rfl | rfl
    · exact ⟨0, by decide, _, rfl, hused⟩
    · exact ⟨1, by decide, _, rfl, hused⟩
  · cases hget

/-- The theorem with a pool of two registers. -/
theorem linearScan_preservesMeaning_twoValues :
    ∃ final codes, linearScan [⟨"s0", false, "GPR"⟩, ⟨"s1", false, "GPR"⟩] [] twoValues ⟨[]⟩ = .ok final ∧
      Target.applyLinearScan ⟨fun name => ⟨name, false, "GPR"⟩, "FPR", 64⟩ final.registerMap twoValues = .ok codes ∧
      (PreservesMeaning ⟨fun name => ⟨name, false, "GPR"⟩, "FPR", 64⟩ [] twoValues codes ↔ final.spilled = []) := by
  obtain ⟨final, hfinal⟩ : ∃ final, linearScan [⟨"s0", false, "GPR"⟩, ⟨"s1", false, "GPR"⟩] [] twoValues ⟨[]⟩ = .ok final :=
    ⟨_, rfl⟩
  obtain ⟨codes, hcodes, hiff⟩ := linearScan_preservesMeaning_iff
    (t := ⟨fun name => ⟨name, false, "GPR"⟩, "FPR", 64⟩) (by decide) (by decide) definedBeforeUse_twoValues (by decide)
    (fun r hread => by rcases List.mem_pair.mp hread with h | h <;> cases h) hfinal
  exact ⟨final, codes, hfinal, hcodes, hiff⟩

end Riescue.LinearScan
