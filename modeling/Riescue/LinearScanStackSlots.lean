import Riescue.LinearScanRewrite

/-! The stack slots of the scan and what the spill code does with them: slots are never shared, and a value that is given one is
read after its definition. Its slot is stored in front of the instruction that defines it, so that no reload brings it back:
the allocation keeps the meaning of a program exactly when nothing is spilled. -/

namespace Riescue.LinearScan
open Allocation
variable {Ty : Type}

/-! ### Slots are apart -/

theorem slotOf_registerName {record : VariableRecord Ty} {name : String} (h : record.slot.registerName = some name) (offset : ℕ) :
    some record.slot ≠ some (.stack offset) := by
  intro hslot
  rw [Option.some.inj hslot] at h
  cases h

variable [DecidableEq Ty]

/-- What a spill of a new interval does. -/
theorem spill_fresh {input : ScanInput Ty} {s s' : ScanState Ty} {interval : Interval Ty} (hfresh : interval ∉ s.spilled)
    (h : spill input s interval = .ok s') :
    ∃ last, s.lastActive interval.regType = some last ∧
      ((interval.stop < last.stop ∧ ∃ record, OrderedDict.get? s.registerMap last.regName = some record ∧
          s' = s.steal interval last record s.spilled.length (s.spilled ++ [interval])) ∨
        (¬ interval.stop < last.stop ∧ s' = s.toStack interval s.spilled.length (s.spilled ++ [interval]))) := by
  unfold spill at h
  split at h
  · cases h
  · next last hlast =>
      obtain ⟨-, -, h⟩ := Fallible.bind_ok h
      rw [ScanState.getSlot, if_neg hfresh] at h
      refine ⟨last, hlast, ?_⟩
      dsimp only at h
      split_ifs at h with hstop
      · split at h
        · cases h
        · next record hrecord => exact .inl ⟨hstop, record, hrecord, (Except.ok.inj h).symm⟩
      · exact .inr ⟨hstop, (Except.ok.inj h).symm⟩

/-- No two values share a slot, and what has a slot is still read when it gets it. -/
structure ScanState.SlotsApart (s : ScanState Ty) (done : List (Interval Ty)) : Prop where
  spilled_subset : s.spilled ⊆ done
  mapped : ∀ x ∈ done, (slotOf s.registerMap x.regName).isSome
  bound : ∀ x ∈ done, ∀ offset, slotOf s.registerMap x.regName = some (.stack offset) → offset < s.spilled.length
  apart : ∀ x ∈ done, ∀ y ∈ done, ∀ offset, slotOf s.registerMap x.regName = some (.stack offset) →
    slotOf s.registerMap y.regName = some (.stack offset) → x = y
  long : ∀ x ∈ done, ∀ offset, slotOf s.registerMap x.regName = some (.stack offset) → x.start < x.stop
  exists_spilled : s.spilled ≠ [] → ∃ x ∈ done, ∃ offset, slotOf s.registerMap x.regName = some (.stack offset)

namespace ScanState.SlotsApart
variable {input : ScanInput Ty} {s s' : ScanState Ty} {done : List (Interval Ty)} {interval : Interval Ty}

omit [DecidableEq Ty] in
/-- One more value, which is not on the stack. -/
theorem cons (h : s.SlotsApart done) (hspilled : s'.spilled = s.spilled)
    (hsame : ∀ x ∈ done, slotOf s'.registerMap x.regName = slotOf s.registerMap x.regName)
    (hmapped : (slotOf s'.registerMap interval.regName).isSome)
    (hnew : ∀ offset, slotOf s'.registerMap interval.regName ≠ some (.stack offset)) : s'.SlotsApart (interval :: done) where
  spilled_subset := hspilled ▸ fun x hx => List.mem_cons_of_mem interval (h.spilled_subset hx)
  mapped := List.forall_mem_cons.mpr ⟨hmapped, fun x hx => hsame x hx ▸ h.mapped x hx⟩
  bound := by
    refine List.forall_mem_cons.mpr ⟨fun offset hoffset => absurd hoffset (hnew offset), fun x hx offset hoffset => ?_⟩
    exact hspilled ▸ h.bound x hx offset (hsame x hx ▸ hoffset)
  apart := by
    intro x hx y hy offset hxslot hyslot
    rcases List.mem_cons.mp hx with rfl | hx
    · exact absurd hxslot (hnew offset)
    · rcases List.mem_cons.mp hy with rfl | hy
      · exact absurd hyslot (hnew offset)
      · exact h.apart x hx y hy offset (hsame x hx ▸ hxslot) (hsame y hy ▸ hyslot)
  long := by
    refine List.forall_mem_cons.mpr ⟨fun offset hoffset => absurd hoffset (hnew offset), fun x hx offset hoffset => ?_⟩
    exact h.long x hx offset (hsame x hx ▸ hoffset)
  exists_spilled := by
    intro hne
    obtain ⟨x, hx, offset, hoffset⟩ := h.exists_spilled (hspilled ▸ hne)
    exact ⟨x, List.mem_cons_of_mem interval hx, offset, (hsame x hx).trans hoffset⟩

omit [DecidableEq Ty] in
/-- A value gets the next slot. -/
theorem push (h : s.SlotsApart done) {entry : Interval Ty} (hspilled : s'.spilled = s.spilled ++ [entry]) {target : Interval Ty}
    (hentry : entry ∈ done) (htarget : target ∈ done) (hlong : target.start < target.stop)
    (hself : slotOf s'.registerMap target.regName = some (.stack s.spilled.length))
    (hsame : ∀ x ∈ done, x ≠ target → slotOf s'.registerMap x.regName = slotOf s.registerMap x.regName) :
    s'.SlotsApart done where
  spilled_subset := by
    rw [hspilled]
    exact List.append_subset.mpr ⟨h.spilled_subset, List.cons_subset.mpr ⟨hentry, List.nil_subset _⟩⟩
  mapped := by
    intro x hx
    by_cases hxtarget : x = target
    · rw [hxtarget, hself]
      rfl
    · exact hsame x hx hxtarget ▸ h.mapped x hx
  bound := by
    intro x hx offset hoffset
    rw [hspilled, List.length_append, List.length_singleton]
    by_cases hxtarget : x = target
    · rw [hxtarget, hself] at hoffset
      cases hoffset
      exact Nat.lt_succ_self _
    · exact (h.bound x hx offset (hsame x hx hxtarget ▸ hoffset)).trans (Nat.lt_succ_self _)
  apart := by
    have hother : ∀ x ∈ done, x ≠ target → slotOf s'.registerMap x.regName ≠ some (.stack s.spilled.length) := by
      intro x hx hne hslot
      exact absurd (h.bound x hx _ (hsame x hx hne ▸ hslot)) (lt_irrefl _)
    intro x hx y hy offset hxslot hyslot
    by_cases hxtarget : x = target
    · by_cases hytarget : y = target
      · exact hxtarget.trans hytarget.symm
      · rw [hxtarget, hself] at hxslot
        exact absurd (hyslot.trans hxslot.symm) (hother y hy hytarget)
    · by_cases hytarget : y = target
      · rw [hytarget, hself] at hyslot
        exact absurd (hxslot.trans hyslot.symm) (hother x hx hxtarget)
      · exact h.apart x hx y hy offset (hsame x hx hxtarget ▸ hxslot) (hsame y hy hytarget ▸ hyslot)
  long := by
    intro x hx offset hoffset
    by_cases hxtarget : x = target
    · exact hxtarget ▸ hlong
    · exact h.long x hx offset (hsame x hx hxtarget ▸ hoffset)
  exists_spilled := fun _ => ⟨target, htarget, _, hself⟩

theorem assign (h : s.SlotsApart done) (hinput : input.HardCodesRegisters) (hinv : s.Invariant input done interval.start)
    (hnew : interval.regName ∉ done.map Interval.regName) (hactive : ∀ a ∈ s.active, interval.start < a.stop)
    (hassign : LinearScan.assign input s interval = .ok s') :
    s'.SlotsApart (interval :: done) := by
  have hother : ∀ {record}, ∀ x ∈ done, slotOf (OrderedDict.insert s.registerMap interval.regName record) x.regName =
      slotOf s.registerMap x.regName := by
    intro record x hx
    exact slotOf_insert_ne _ _ fun heq => hnew (heq ▸ List.mem_map_of_mem hx)
  have hfresh : interval ∉ s.spilled := fun hmem => hnew (List.mem_map_of_mem (h.spilled_subset hmem))
  unfold LinearScan.assign at hassign
  split_ifs at hassign
  · obtain ⟨last, hlast, hcases⟩ := spill_fresh hfresh hassign
    have hmem := ScanState.mem_active_of_lastActive hlast
    have hdone := hinv.active_subset hmem
    have hne : interval.regName ≠ last.regName := fun heq => hnew (heq ▸ List.mem_map_of_mem hdone)
    obtain ⟨reg, -, hreg⟩ := hinv.active_owns last hmem
    obtain ⟨owned, howned, hslot⟩ := Option.bind_eq_some_iff.mp hreg
    -- with the register of the last active value, the new one has no slot yet
    let taken : ScanState Ty := { s with registerMap := OrderedDict.insert s.registerMap interval.regName owned }
    have htaken : taken.SlotsApart (interval :: done) := by
      refine h.cons rfl (fun x hx => hother x hx) ?_ fun offset => ?_
      · exact congrArg Option.isSome (slotOf_insert_self _ _ _)
      · exact (slotOf_insert_self _ _ _).trans_ne (slotOf_registerName hslot offset)
    have hlast := hactive last hmem
    rcases hcases with ⟨hstop, record, hrecord, rfl⟩ | ⟨hstop, rfl⟩
    · obtain rfl := Option.some.inj (howned.symm.trans hrecord)
      refine htaken.push rfl List.mem_cons_self (List.mem_cons_of_mem interval hdone) ?_ (slotOf_insert_self _ _ _)
        fun x hx hxne => slotOf_insert_ne _ _ fun heq => hxne ?_
      · exact (hinv.started last hdone).trans_lt hlast
      · rcases List.mem_cons.mp hx with rfl | hx
        · exact absurd heq hne
        · exact hinv.eq_of_regName hx hdone heq
    · refine htaken.push rfl List.mem_cons_self List.mem_cons_self (hlast.trans_le (Nat.le_of_not_lt hstop))
        (slotOf_insert_self _ _ _) fun x hx hxne => ?_
      have hx := (List.mem_cons.mp hx).resolve_left hxne
      exact (hother x hx).trans (hother x hx).symm
  · obtain ⟨reg, record, rng, -, -, hslot, -, rfl⟩ := place_ok hinput hassign
    refine h.cons rfl (fun x hx => hother x hx) ?_ fun offset => ?_
    · exact congrArg Option.isSome (slotOf_insert_self _ _ _)
    · exact (slotOf_insert_self _ _ _).trans_ne (slotOf_registerName hslot offset)

theorem scan (hinput : input.HardCodesRegisters) {intervals : List (Interval Ty)} {now : ℕ} (h : s.SlotsApart done)
    (hinv : s.Invariant input done now) (hpending : Pending done now intervals)
    (hscan : LinearScan.scan input s intervals = .ok s') : s'.SlotsApart (intervals.reverse ++ done) := by
  induction intervals generalizing s done now with
  | nil => exact Except.ok.inj hscan ▸ h
  | cons x rest ih =>
      obtain ⟨s'', hstep, hrest⟩ := scan_cons_ok hscan
      obtain ⟨visited, hexpire, hvisited, hassign, hinv''⟩ := hinv.scanStep hinput hpending hstep
      obtain ⟨-, hnew, hnext⟩ := hpending.next
      obtain ⟨-, -, pool, -, heq⟩ := ScanState.expire_ok hexpire
      have hactive : ∀ a ∈ visited.active, x.start < a.stop := by
        intro a ha
        rw [heq] at ha
        have hstop := (List.mem_filter.mp ha).2
        simpa using hstop
      have hsame : visited.SlotsApart done := by
        rw [heq]
        exact ⟨h.spilled_subset, h.mapped, h.bound, h.apart, h.long, h.exists_spilled⟩
      rw [List.reverse_cons, List.append_assoc]
      exact ih (hsame.assign hinput hvisited hnew hactive hassign) hinv'' hnext hrest

end ScanState.SlotsApart

/-! ### Spill code -/

/-- No line is an instruction. -/
def IsSpillCode (codes : List (Code Ty)) : Prop :=
  ∀ code ∈ codes, ∀ instruction dest source, code ≠ .instr instruction dest source

section
variable {Val σ : Type}

omit [DecidableEq Ty] in
theorem isSpillCode_append {left right : List (Code Ty)} : IsSpillCode (left ++ right) ↔ IsSpillCode left ∧ IsSpillCode right :=
  List.forall_mem_append

theorem run_spillCode {m : Machine String (OperandVal Ty) (String × String) String Val σ} {codes rest : List (Code Ty)}
    (h : IsSpillCode codes) (s : MachineState Val σ) :
    s.run m (codes ++ rest) none = (codes.foldl MachineState.spill s).run m rest none := by
  induction codes generalizing s with
  | nil => rfl
  | cons code codes ih =>
      obtain ⟨hcode, hcodes⟩ := List.forall_mem_cons.mp h
      cases code with
      | instr instruction dest source => exact absurd rfl (hcode instruction dest source)
      | store name tempReg offset => exact ih hcodes _
      | load name tempReg offset => exact ih hcodes _

/-- A destination is stored only when its value has a slot. -/
theorem rewriteDestination_ok {t : Target Ty} {registerMap : List (String × VariableRecord Ty)}
    {destination dest : Option (Operand Ty)} {spill : List (Code Ty)}
    (h : t.rewriteDestination registerMap destination = .ok (dest, spill)) :
    spill = [] ∨ ∃ type name offset, destination = some ⟨type, .str name, true⟩ ∧
      slotOf registerMap name = some (.stack offset) ∧ spill = [(t.pushStack type offset).2] := by
  rcases destination with _ | ⟨type, val, _ | _⟩
  · exact .inl (Prod.mk.inj (Except.ok.inj h)).2.symm
  · cases val <;> exact .inl (Prod.mk.inj (Except.ok.inj h)).2.symm
  · cases val with
    | none => exact .inl (Prod.mk.inj (Except.ok.inj h)).2.symm
    | int val => exact .inl (Prod.mk.inj (Except.ok.inj h)).2.symm
    | register register => exact .inl (Prod.mk.inj (Except.ok.inj h)).2.symm
    | str name =>
        unfold Target.rewriteDestination at h
        dsimp only at h
        split at h
        · cases h
        · next record hget =>
            split at h
            · exact .inl (Prod.mk.inj (Except.ok.inj h)).2.symm
            · next offset hslot =>
                refine .inr ⟨type, name, offset, rfl, ?_, (Prod.mk.inj (Except.ok.inj h)).2.symm⟩
                rw [slotOf, hget, Option.map_some, hslot]

/-- A source that reads a value with a slot is loaded, and no other one. -/
theorem rewriteSource_ok {t : Target Ty} {registerMap : List (String × VariableRecord Ty)} {src src' : Operand Ty}
    {load : List (Code Ty)} (h : t.rewriteSource registerMap src = .ok (src', load)) :
    (load = [] ∧ ∀ name, src.usedName = some name → ∀ offset, slotOf registerMap name ≠ some (.stack offset)) ∨
      ∃ name offset, src.usedName = some name ∧ slotOf registerMap name = some (.stack offset) ∧
        src' = ⟨src.type, .register (t.tempReg src.type), true⟩ ∧ load = [(t.popStack src.type offset).2] := by
  have hplain : ∀ {src : Operand Ty}, src.usedName = none → .ok (src, []) = (Except.ok (src', load) : Except AllocFault _) →
      load = [] ∧ ∀ name, src.usedName = some name → ∀ offset, slotOf registerMap name ≠ some (.stack offset) := by
    intro src hunused h
    refine ⟨(Prod.mk.inj (Except.ok.inj h)).2.symm, fun name hname => ?_⟩
    cases hunused.symm.trans hname
  obtain ⟨type, val, _ | _⟩ := src
  · cases val <;> exact .inl (hplain rfl h)
  · cases val with
    | none => exact .inl (hplain rfl h)
    | int val => exact .inl (hplain rfl h)
    | register register => exact .inl (hplain rfl h)
    | str name =>
        by_cases hliteral : isLiteralRegister name = true
        · have hunused : (⟨type, .str name, true⟩ : Operand Ty).usedName = none := if_pos hliteral
          rw [Target.rewriteSource, if_pos hliteral] at h
          refine .inl ⟨(Prod.mk.inj (Except.ok.inj h)).2.symm, fun other hother => ?_⟩
          cases hunused.symm.trans hother
        · have hused : (⟨type, .str name, true⟩ : Operand Ty).usedName = some name := if_neg hliteral
          rw [Target.rewriteSource, if_neg hliteral] at h
          split at h
          · cases h
          · next record hget =>
              split at h
              · next register hslot =>
                  refine .inl ⟨(Prod.mk.inj (Except.ok.inj h)).2.symm, fun other hother offset hstack => ?_⟩
                  obtain rfl := Option.some.inj (hused.symm.trans hother)
                  rw [slotOf, hget, Option.map_some, hslot] at hstack
                  cases hstack
              · next offset hslot =>
                  obtain ⟨rfl, rfl⟩ := Prod.mk.inj (Except.ok.inj h)
                  refine .inr ⟨name, offset, hused, ?_, rfl, rfl⟩
                  rw [slotOf, hget, Option.map_some, hslot]

omit [DecidableEq Ty] in
/-- Loads change registers only. -/
theorem foldl_loads {codes : List (Code Ty)} (h : ∀ code ∈ codes, ∃ name tempReg offset, code = .load name tempReg offset)
    (s : MachineState Val σ) :
    (codes.foldl MachineState.spill s).stack = s.stack ∧ (codes.foldl MachineState.spill s).state = s.state := by
  induction codes generalizing s with
  | nil => exact ⟨rfl, rfl⟩
  | cons code codes ih =>
      obtain ⟨⟨name, tempReg, offset, rfl⟩, hcodes⟩ := List.forall_mem_cons.mp h
      exact ih hcodes _

/-- The spill code in front of the sources are loads. -/
theorem rewriteSources_loads {t : Target Ty} {registerMap : List (String × VariableRecord Ty)} {source : List (Operand Ty)}
    {sources : List (Operand Ty × List (Code Ty))} (h : source.mapM (t.rewriteSource registerMap) = .ok sources) :
    ∀ code ∈ sources.flatMap Prod.snd, ∃ name tempReg offset, code = .load name tempReg offset := by
  induction source generalizing sources with
  | nil =>
      rw [List.mapM_nil] at h
      obtain rfl := Except.ok.inj h
      exact List.forall_mem_nil _
  | cons src rest ih =>
      rw [List.mapM_cons] at h
      obtain ⟨⟨src', load⟩, hsrc, h⟩ := Fallible.bind_ok h
      obtain ⟨others, hothers, h⟩ := Fallible.bind_ok h
      obtain rfl := Except.ok.inj h
      rw [List.flatMap_cons]
      refine List.forall_mem_append.mpr ⟨?_, ih hothers⟩
      rcases rewriteSource_ok hsrc with ⟨hload, -⟩ | ⟨name, offset, -, -, -, hload⟩
      · rw [hload]
        exact List.forall_mem_nil _
      · rw [hload]
        exact List.forall_mem_singleton.mpr ⟨_, _, _, rfl⟩

/-- Sources that read no slot are not loaded. -/
theorem rewriteSources_plain {t : Target Ty} {registerMap : List (String × VariableRecord Ty)} {source : List (Operand Ty)}
    {sources : List (Operand Ty × List (Code Ty))} (h : source.mapM (t.rewriteSource registerMap) = .ok sources)
    (hplain : ∀ src ∈ source, ∀ name, src.usedName = some name → ∀ offset, slotOf registerMap name ≠ some (.stack offset)) :
    sources.flatMap Prod.snd = [] := by
  induction source generalizing sources with
  | nil =>
      rw [List.mapM_nil] at h
      exact Except.ok.inj h ▸ rfl
  | cons src rest ih =>
      rw [List.mapM_cons] at h
      obtain ⟨⟨src', load⟩, hsrc, h⟩ := Fallible.bind_ok h
      obtain ⟨others, hothers, h⟩ := Fallible.bind_ok h
      obtain rfl := Except.ok.inj h
      obtain ⟨hhead, hrest⟩ := List.forall_mem_cons.mp hplain
      rw [List.flatMap_cons, ih hothers hrest, List.append_nil]
      rcases rewriteSource_ok hsrc with ⟨hload, -⟩ | ⟨name, offset, hused, hslot, -⟩
      · exact hload
      · exact absurd hslot (hhead name hused offset)

theorem rewriteInstr_ok {t : Target Ty} {registerMap : List (String × VariableRecord Ty)} {instr : Instruction Ty}
    {codes : List (Code Ty)} (h : t.rewriteInstr registerMap instr = .ok codes) :
    ∃ dest spill sources, t.rewriteDestination registerMap instr.destination = .ok (dest, spill) ∧
      instr.source.mapM (t.rewriteSource registerMap) = .ok sources ∧
      codes = spill ++ sources.flatMap Prod.snd ++ [.instr instr dest (sources.map Prod.fst)] := by
  obtain ⟨⟨dest, spill⟩, hdest, h⟩ := Fallible.bind_ok h
  obtain ⟨sources, hsources, h⟩ := Fallible.bind_ok h
  exact ⟨dest, spill, sources, hdest, hsources, (Except.ok.inj h).symm⟩

end

end Riescue.LinearScan
