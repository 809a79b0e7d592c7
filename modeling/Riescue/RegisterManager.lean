import Mathlib.Data.List.Nodup
import Mathlib.Data.List.Range
import Mathlib.Tactic.Common

/-! The vector registers of `compliance/lib/register_manager.py`. Availability is a list of group leaders for the current
LMUL, and reservations are single registers that were recorded under earlier values of it. -/

namespace Riescue.RegisterManager

/-- The keys of `lmul_map` that a configuration names. -/
inductive Vlmul where
  | m1 | m2 | m4 | m8 | mf2 | mf4 | mf8
  deriving DecidableEq, Repr

/-- The value in `lmul_map`, fractions raised to one. -/
def Vlmul.lmulNum : Vlmul → ℕ
  | .m1 => 1
  | .m2 => 2
  | .m4 => 4
  | .m8 => 8
  | .mf2 => 1
  | .mf4 => 1
  | .mf8 => 1

/-- A run of `rng.shuffle`: any reordering. -/
abbrev Shuffle := { shuffle : List ℕ → List ℕ // ∀ regs, (shuffle regs).Perm regs }

/-- The registers `v{reg}` to `v{reg + lmul - 1}`. -/
def group (lmul reg : ℕ) : List ℕ := List.range' reg lmul

/-- `RegisterManager`, what it keeps of the vector registers. The register `v{i}` is the number `i`. -/
structure Manager where
  availVecRegs : List ℕ
  reserveRegs : List ℕ
  latestLmulVal : ℕ
  deriving DecidableEq, Repr

/-- `list.remove` of a register that is not in the list. -/
inductive RegFault where
  | valueError (reg : ℕ)
  deriving DecidableEq, Repr

namespace Manager

def new (shuffle : Shuffle) : Manager where
  availVecRegs := shuffle.1 (List.range 32)
  reserveRegs := []
  latestLmulVal := 1

/-- `reinit_vregs` -/
def reinitVregs (_ : Manager) : Manager where
  availVecRegs := List.range 32
  reserveRegs := []
  latestLmulVal := 1

/-- `check_for_overlap_with_reserved` -/
def checkForOverlapWithReserved (lmul : ℕ) (initialList reservedList : List ℕ) : List ℕ :=
  initialList.filter fun reg => (group lmul reg).all fun regIndex => regIndex ∉ reservedList

/-- `randomize_regs` with a configuration. -/
def randomizeRegs (m : Manager) (shuffle : Shuffle) (vlmul : Vlmul) (preserveOldAvailabilities preserveOldReservations : Bool) :
    Manager :=
  let lmulNum := vlmul.lmulNum
  let tempAvailRegs := (List.range 32).filter fun reg => lmulNum ∣ reg
  let availVecRegs := if preserveOldReservations then m.availVecRegs else m.availVecRegs ++ m.reserveRegs
  let reserveRegs := if preserveOldReservations then m.reserveRegs else []
  let availVecRegs :=
    if preserveOldAvailabilities then availVecRegs.filter fun reg => reg ∈ tempAvailRegs ∧ reg ∉ reserveRegs
    else tempAvailRegs.filter fun reg => reg ∉ reserveRegs
  { availVecRegs := shuffle.1 (checkForOverlapWithReserved lmulNum availVecRegs reserveRegs)
    reserveRegs
    latestLmulVal := lmulNum }

/-- `update_avail_regs`, with `reserve_overlap_regs`. -/
def updateAvailRegs (m : Manager) (reg : ℕ) : Manager :=
  { m with
    availVecRegs := m.availVecRegs.erase reg
    reserveRegs := m.reserveRegs ++ group m.latestLmulVal reg }

/-- `reserve_reg` -/
def reserveReg (m : Manager) (reg : ℕ) : Manager :=
  { m with
    availVecRegs := if reg ∈ m.availVecRegs ∧ reg ∉ m.reserveRegs then m.availVecRegs.erase reg else m.availVecRegs
    reserveRegs := m.reserveRegs ++ [reg] }

/-- `unreserve_reg` -/
def unreserveReg (m : Manager) (reg : ℕ) : Except RegFault Manager :=
  let availVecRegs :=
    if reg ∈ m.reserveRegs ∧ reg ∉ m.availVecRegs then m.availVecRegs ++ [reg] else m.availVecRegs
  if reg ∈ m.reserveRegs then .ok { m with availVecRegs, reserveRegs := m.reserveRegs.erase reg }
  else .error (.valueError reg)

/-- `get_random_reg`: the leader of the group, when there is one, and the manager afterwards. -/
def getRandomReg (m : Manager) : Option ℕ × Manager :=
  match m.availVecRegs with
  | [] => (none, m)
  | resultReg :: _ => (some resultReg, m.updateAvailRegs resultReg)

end Manager

/-- The operations on the vector registers. `randomize_regs` preserves the reservations. -/
inductive Op where
  | randomizeRegs (shuffle : Shuffle) (vlmul : Vlmul) (preserveOldAvailabilities : Bool)
  | reserveReg (reg : ℕ)
  | unreserveReg (reg : ℕ)
  | getRandomReg
  | reinitVregs

/-- One operation. A failing `unreserve_reg` leaves the manager as it is. -/
def step (m : Manager) : Op → Manager
  | .randomizeRegs shuffle vlmul preserveOldAvailabilities => m.randomizeRegs shuffle vlmul preserveOldAvailabilities true
  | .reserveReg reg => m.reserveReg reg
  | .unreserveReg reg =>
      match m.unreserveReg reg with
      | .ok m' => m'
      | .error _ => m
  | .getRandomReg => m.getRandomReg.2
  | .reinitVregs => m.reinitVregs

/-- The manager after some operations. -/
def after (m : Manager) (ops : List Op) : Manager := ops.foldl step m

/-! ### Runs that keep the groups free -/

/-- What the step may not do to the groups that are available: reserve a register inside one of them, or make a register
available whose group overlaps with them or is reserved in part. -/
def Clean (m : Manager) : Op → Prop
  | .reserveReg reg => ∀ leader ∈ m.availVecRegs, leader ≠ reg → reg ∉ group m.latestLmulVal leader
  | .unreserveReg reg => reg ∈ m.reserveRegs →
      m.reserveRegs.count reg = 1 ∧
      (∀ x ∈ group m.latestLmulVal reg, x ≠ reg → x ∉ m.reserveRegs) ∧
      ∀ leader ∈ m.availVecRegs, ∀ x ∈ group m.latestLmulVal leader, x ∉ group m.latestLmulVal reg
  | _ => True

instance (m : Manager) : (op : Op) → Decidable (Clean m op)
  | .reserveReg reg =>
      inferInstanceAs (Decidable (∀ leader ∈ m.availVecRegs, leader ≠ reg → reg ∉ group m.latestLmulVal leader))
  | .unreserveReg reg =>
      inferInstanceAs (Decidable (reg ∈ m.reserveRegs →
        m.reserveRegs.count reg = 1 ∧
        (∀ x ∈ group m.latestLmulVal reg, x ≠ reg → x ∉ m.reserveRegs) ∧
        ∀ leader ∈ m.availVecRegs, ∀ x ∈ group m.latestLmulVal leader, x ∉ group m.latestLmulVal reg))
  | .randomizeRegs .. => .isTrue trivial
  | .getRandomReg => .isTrue trivial
  | .reinitVregs => .isTrue trivial

/-- A group is taken before the availability is computed anew. -/
def getsFirst : List Op → Bool
  | [] => false
  | .getRandomReg :: _ => true
  | .randomizeRegs .. :: _ => false
  | .reinitVregs :: _ => false
  | .reserveReg _ :: ops => getsFirst ops
  | .unreserveReg _ :: ops => getsFirst ops

/-- Every reservation and unreservation that a group is taken after, before the next `randomize_regs`, is clean. -/
def CleanRun (m : Manager) : List Op → Prop
  | [] => True
  | op :: ops => (getsFirst ops = true → Clean m op) ∧ CleanRun (step m op) ops

instance decidableCleanRun (m : Manager) : (ops : List Op) → Decidable (CleanRun m ops)
  | [] => .isTrue trivial
  | op :: ops =>
      have := decidableCleanRun (step m op) ops
      inferInstanceAs (Decidable ((getsFirst ops = true → Clean m op) ∧ CleanRun (step m op) ops))

/-- Every group that the run takes is unreserved at that moment, and a register of it is in no group taken later, unless
the register is unreserved or all vector registers are reinitialised in between. -/
def GroupsNeverOverlap (m : Manager) (ops : List Op) : Prop :=
  ∀ front back reg, ops = front ++ .getRandomReg :: back → (after m front).getRandomReg.1 = some reg →
    (∀ x ∈ group (after m front).latestLmulVal reg, x ∉ (after m front).reserveRegs) ∧
    ∀ middle back' reg', back = middle ++ .getRandomReg :: back' →
      (after m (front ++ .getRandomReg :: middle)).getRandomReg.1 = some reg' →
        ∀ x ∈ group (after m front).latestLmulVal reg,
          x ∈ group (after m (front ++ .getRandomReg :: middle)).latestLmulVal reg' →
            .unreserveReg x ∈ middle ∨ .reinitVregs ∈ middle

/-! ### What every step keeps -/

/-- No register is available twice, and a group has a register. -/
structure WellFormed (m : Manager) : Prop where
  nodup : m.availVecRegs.Nodup
  positive : 0 < m.latestLmulVal

/-- The available groups are unreserved and do not overlap. -/
structure Free (m : Manager) : Prop where
  unreserved : ∀ leader ∈ m.availVecRegs, ∀ x ∈ group m.latestLmulVal leader, x ∉ m.reserveRegs
  disjoint : ∀ leader ∈ m.availVecRegs, ∀ leader' ∈ m.availVecRegs, leader ≠ leader' →
    ∀ x ∈ group m.latestLmulVal leader, x ∉ group m.latestLmulVal leader'

theorem mem_group {lmul reg x : ℕ} : x ∈ group lmul reg ↔ reg ≤ x ∧ x < reg + lmul := List.mem_range'_1

theorem Vlmul.lmulNum_pos (vlmul : Vlmul) : 0 < vlmul.lmulNum := by cases vlmul <;> decide

/-- Aligned groups overlap only when they are the same. -/
theorem eq_of_mem_group {lmul reg reg' x : ℕ} (hreg : lmul ∣ reg) (hreg' : lmul ∣ reg') (hx : x ∈ group lmul reg)
    (hx' : x ∈ group lmul reg') : reg = reg' := by
  rw [mem_group] at hx hx'
  obtain ⟨k, rfl⟩ := hreg
  obtain ⟨k', rfl⟩ := hreg'
  have hle : ∀ {i j : ℕ}, lmul * i ≤ x → x < lmul * j + lmul → i ≤ j := by
    intro i j hi hj
    have hlt : lmul * i < lmul * (j + 1) := by
      rw [Nat.mul_succ]
      exact lt_of_le_of_lt hi hj
    exact Nat.le_of_lt_succ (Nat.lt_of_mul_lt_mul_left hlt)
  rw [Nat.le_antisymm (hle hx.1 hx'.2) (hle hx'.1 hx.2)]

variable {m : Manager}

theorem unreserveReg_of_mem {reg : ℕ} (hmem : reg ∈ m.reserveRegs) :
    step m (.unreserveReg reg) = { m with
      availVecRegs := if reg ∈ m.availVecRegs then m.availVecRegs else m.availVecRegs ++ [reg]
      reserveRegs := m.reserveRegs.erase reg } := by
  have hok : m.unreserveReg reg = .ok { m with
      availVecRegs := if reg ∈ m.availVecRegs then m.availVecRegs else m.availVecRegs ++ [reg]
      reserveRegs := m.reserveRegs.erase reg } := by
    unfold Manager.unreserveReg
    by_cases havail : reg ∈ m.availVecRegs <;> simp [hmem, havail]
  rw [step, hok]

theorem unreserveReg_of_not_mem {reg : ℕ} (hmem : reg ∉ m.reserveRegs) : step m (.unreserveReg reg) = m := by
  have herror : m.unreserveReg reg = .error (.valueError reg) := by
    unfold Manager.unreserveReg
    exact if_neg hmem
  rw [step, herror]

/-- The available registers after `randomize_regs` are aligned, and their groups are unreserved. -/
theorem mem_randomizeRegs {shuffle : Shuffle} {vlmul : Vlmul} {preserve : Bool} {reg : ℕ}
    (h : reg ∈ (m.randomizeRegs shuffle vlmul preserve true).availVecRegs) :
    vlmul.lmulNum ∣ reg ∧ ∀ x ∈ group vlmul.lmulNum reg, x ∉ m.reserveRegs := by
  have hmem := (shuffle.2 _).mem_iff.mp h
  rw [Manager.checkForOverlapWithReserved, List.mem_filter, List.all_eq_true] at hmem
  refine ⟨?_, fun x hx => of_decide_eq_true (hmem.2 x hx)⟩
  cases preserve with
  | true =>
      have hkept := (List.mem_filter.mp hmem.1).2
      have haligned := (of_decide_eq_true hkept).1
      exact of_decide_eq_true (List.mem_filter.mp haligned).2
  | false =>
      have haligned := (List.mem_filter.mp hmem.1).1
      exact of_decide_eq_true (List.mem_filter.mp haligned).2

theorem WellFormed.step (h : WellFormed m) (op : Op) : WellFormed (step m op) := by
  cases op with
  | randomizeRegs shuffle vlmul preserve =>
      refine ⟨((shuffle.2 _).nodup_iff).mpr (List.Nodup.filter _ ?_), vlmul.lmulNum_pos⟩
      cases preserve with
      | true => exact h.nodup.filter _
      | false => exact (List.nodup_range.filter _).filter _
  | reserveReg reg =>
      refine ⟨?_, h.positive⟩
      change (if reg ∈ m.availVecRegs ∧ reg ∉ m.reserveRegs then m.availVecRegs.erase reg else m.availVecRegs).Nodup
      split_ifs
      · exact h.nodup.erase reg
      · exact h.nodup
  | unreserveReg reg =>
      by_cases hmem : reg ∈ m.reserveRegs
      · rw [unreserveReg_of_mem hmem]
        refine ⟨?_, h.positive⟩
        change (if reg ∈ m.availVecRegs then m.availVecRegs else m.availVecRegs ++ [reg]).Nodup
        split_ifs with havail
        · exact h.nodup
        · rw [← List.concat_eq_append]
          exact h.nodup.concat havail
      · rw [unreserveReg_of_not_mem hmem]
        exact h
  | getRandomReg =>
      change WellFormed m.getRandomReg.2
      unfold Manager.getRandomReg
      split
      · exact h
      · exact ⟨h.nodup.erase _, h.positive⟩
  | reinitVregs => exact ⟨List.nodup_range, Nat.one_pos⟩

/-- `randomize_regs` leaves only free groups, whatever came before. -/
theorem free_randomizeRegs {shuffle : Shuffle} {vlmul : Vlmul} {preserve : Bool} :
    Free (m.randomizeRegs shuffle vlmul preserve true) := by
  refine ⟨fun leader hleader => (mem_randomizeRegs hleader).2, fun leader hleader leader' hleader' hne x hx hx' => hne ?_⟩
  exact eq_of_mem_group (mem_randomizeRegs hleader).1 (mem_randomizeRegs hleader').1 hx hx'

/-- Single registers are free when none is reserved. -/
theorem free_of_single (hlmul : m.latestLmulVal = 1) (hreserved : m.reserveRegs = []) : Free m := by
  refine ⟨fun _ _ _ _ => hreserved ▸ List.not_mem_nil, fun leader _ leader' _ hne x hx hx' => hne ?_⟩
  rw [hlmul] at hx hx'
  exact eq_of_mem_group (Nat.one_dvd _) (Nat.one_dvd _) hx hx'

/-- A clean step keeps the available groups free. -/
theorem Free.step (hfree : Free m) (h : WellFormed m) {op : Op} (hclean : Clean m op) : Free (step m op) := by
  have hself : ∀ reg, reg ∈ group m.latestLmulVal reg := fun reg => mem_group.mpr ⟨le_rfl, Nat.lt_add_of_pos_right h.positive⟩
  cases op with
  | randomizeRegs shuffle vlmul preserve => exact free_randomizeRegs
  | reserveReg reg =>
      -- the register itself is not available any more
      have hother : ∀ leader ∈ (m.reserveReg reg).availVecRegs, leader ∈ m.availVecRegs ∧ leader ≠ reg := by
        intro leader hleader
        change leader ∈ (if reg ∈ m.availVecRegs ∧ reg ∉ m.reserveRegs then m.availVecRegs.erase reg else m.availVecRegs)
          at hleader
        split_ifs at hleader with havail
        · exact ⟨List.mem_of_mem_erase hleader, ((h.nodup.mem_erase_iff).mp hleader).1⟩
        · refine ⟨hleader, ?_⟩
          rintro rfl
          exact havail ⟨hleader, hfree.unreserved leader hleader leader (hself leader)⟩
      refine ⟨fun leader hleader x hx hreserved => ?_, fun leader hleader leader' hleader' => ?_⟩
      · obtain ⟨hleader, hne⟩ := hother leader hleader
        rcases List.mem_append.mp hreserved with hreserved | hreserved
        · exact hfree.unreserved leader hleader x hx hreserved
        · exact hclean leader hleader hne (List.mem_singleton.mp hreserved ▸ hx)
      · exact hfree.disjoint leader (hother leader hleader).1 leader' (hother leader' hleader').1
  | unreserveReg reg =>
      by_cases hmem : reg ∈ m.reserveRegs
      · obtain ⟨hcount, hgroup, hoverlap⟩ := hclean hmem
        have havail : reg ∉ m.availVecRegs := fun havail => hfree.unreserved reg havail reg (hself reg) hmem
        rw [unreserveReg_of_mem hmem, if_neg havail]
        refine ⟨fun leader hleader x hx hreserved => ?_, fun leader hleader leader' hleader' hne x hx hx' => ?_⟩
        · rcases List.mem_append.mp hleader with hleader | hleader
          · exact hfree.unreserved leader hleader x hx (List.mem_of_mem_erase hreserved)
          · obtain rfl := List.mem_singleton.mp hleader
            by_cases hx' : x = leader
            · -- it was reserved once
              subst hx'
              have hpos := List.count_pos_iff.mpr hreserved
              rw [List.count_erase_self, hcount] at hpos
              exact absurd hpos (lt_irrefl _)
            · exact hgroup x hx hx' (List.mem_of_mem_erase hreserved)
        · rcases List.mem_append.mp hleader with hold | hnew <;> rcases List.mem_append.mp hleader' with hold' | hnew'
          · exact hfree.disjoint leader hold leader' hold' hne x hx hx'
          · obtain rfl := List.mem_singleton.mp hnew'
            exact hoverlap leader hold x hx hx'
          · obtain rfl := List.mem_singleton.mp hnew
            exact hoverlap leader' hold' x hx' hx
          · exact hne ((List.mem_singleton.mp hnew).trans (List.mem_singleton.mp hnew').symm)
      · rw [unreserveReg_of_not_mem hmem]
        exact hfree
  | getRandomReg =>
      change Free m.getRandomReg.2
      unfold Manager.getRandomReg
      split
      · exact hfree
      · rename_i reg rest havail
        have hreg : reg ∈ m.availVecRegs := havail ▸ List.mem_cons_self
        refine ⟨fun leader hleader x hx hreserved => ?_, fun leader hleader leader' hleader' =>
          hfree.disjoint leader (List.mem_of_mem_erase hleader) leader' (List.mem_of_mem_erase hleader')⟩
        obtain ⟨hne, hleader⟩ := h.nodup.mem_erase_iff.mp hleader
        rcases List.mem_append.mp hreserved with hreserved | hreserved
        · exact hfree.unreserved leader hleader x hx hreserved
        · exact hfree.disjoint leader hleader reg hreg hne x hx hreserved
  | reinitVregs => exact free_of_single rfl rfl

/-! ### Runs -/

theorem after_append (m : Manager) (front back : List Op) : after m (front ++ back) = after (after m front) back :=
  List.foldl_append

/-- After `randomize_regs` and `reinit_vregs` the available groups are free, whatever came before. -/
theorem free_of_refresh {op : Op} {ops : List Op} (hnot : getsFirst (op :: ops) = false) (hgets : getsFirst ops = true) :
    Free (step m op) := by
  cases op with
  | randomizeRegs shuffle vlmul preserve => exact free_randomizeRegs
  | reinitVregs => exact free_of_single rfl rfl
  | reserveReg reg => exact absurd (hgets.symm.trans hnot) (by decide)
  | unreserveReg reg => exact absurd (hgets.symm.trans hnot) (by decide)
  | getRandomReg => exact absurd (show true = false from hnot) (by decide)

/-- Wherever a clean run takes a group next, the available groups are free. -/
theorem free_after {m : Manager} (h : WellFormed m) {ops back : List Op} (hfree : getsFirst ops = true → Free m)
    (hclean : CleanRun m ops) {front : List Op} (hops : ops = front ++ back) (hgets : getsFirst back = true) :
    WellFormed (after m front) ∧ Free (after m front) := by
  induction front generalizing m ops with
  | nil =>
      subst hops
      exact ⟨h, hfree hgets⟩
  | cons op front ih =>
      subst hops
      obtain ⟨hop, hrest⟩ := hclean
      refine ih (h.step op) (fun hnext => ?_) hrest rfl
      cases hfirst : getsFirst (op :: (front ++ back)) with
      | true => exact (hfree hfirst).step h (hop hnext)
      | false => exact free_of_refresh hfirst hnext

/-- A reserved register stays reserved. -/
theorem reserved_step {op : Op} {x : ℕ} (hx : x ∈ m.reserveRegs) (hunreserve : op ≠ .unreserveReg x)
    (hreinit : op ≠ .reinitVregs) : x ∈ (step m op).reserveRegs := by
  cases op with
  | randomizeRegs shuffle vlmul preserve => exact hx
  | reserveReg reg => exact List.mem_append_left _ hx
  | unreserveReg reg =>
      by_cases hmem : reg ∈ m.reserveRegs
      · rw [unreserveReg_of_mem hmem]
        refine (List.mem_erase_of_ne ?_).mpr hx
        rintro rfl
        exact hunreserve rfl
      · rw [unreserveReg_of_not_mem hmem]
        exact hx
  | getRandomReg =>
      change x ∈ m.getRandomReg.2.reserveRegs
      unfold Manager.getRandomReg
      split
      · exact hx
      · exact List.mem_append_left _ hx
  | reinitVregs => exact absurd rfl hreinit

theorem reserved_after {m : Manager} {ops : List Op} {x : ℕ} (hx : x ∈ m.reserveRegs) (hunreserve : .unreserveReg x ∉ ops)
    (hreinit : .reinitVregs ∉ ops) : x ∈ (after m ops).reserveRegs := by
  induction ops generalizing m with
  | nil => exact hx
  | cons op ops ih =>
      rw [List.mem_cons, not_or] at hunreserve hreinit
      exact ih (reserved_step hx (Ne.symm hunreserve.1) (Ne.symm hreinit.1)) hunreserve.2 hreinit.2

theorem getRandomReg_some {reg : ℕ} (h : m.getRandomReg.1 = some reg) :
    reg ∈ m.availVecRegs ∧ m.getRandomReg.2.reserveRegs = m.reserveRegs ++ group m.latestLmulVal reg := by
  unfold Manager.getRandomReg at h ⊢
  split at h
  · cases h
  · rename_i reg' rest havail
    obtain rfl := Option.some.inj h
    rw [havail]
    exact ⟨List.mem_cons_self, rfl⟩

/-- In a clean run the groups are unreserved when they are taken and stay apart. -/
theorem groupsNeverOverlap_of_cleanRun {shuffle : Shuffle} {ops : List Op} (hclean : CleanRun (.new shuffle) ops) :
    GroupsNeverOverlap (.new shuffle) ops := by
  have hwell : WellFormed (.new shuffle) := ⟨((shuffle.2 _).nodup_iff).mpr List.nodup_range, Nat.one_pos⟩
  have hfree : Free (.new shuffle) := free_of_single rfl rfl
  -- the first half of the property, at every place of the run
  have hunreserved : ∀ front back reg, ops = front ++ .getRandomReg :: back →
      (after (.new shuffle) front).getRandomReg.1 = some reg →
        ∀ x ∈ group (after (.new shuffle) front).latestLmulVal reg, x ∉ (after (.new shuffle) front).reserveRegs := by
    intro front back reg hops hreg
    obtain ⟨-, hfront⟩ := free_after hwell (fun _ => hfree) hclean hops rfl
    exact hfront.unreserved reg (getRandomReg_some hreg).1
  intro front back reg hops hreg
  refine ⟨hunreserved front back reg hops hreg, fun middle back' reg' hback hreg' x hx hx' => ?_⟩
  by_contra hnot
  obtain ⟨hunreserve, hreinit⟩ := not_or.mp hnot
  have htaken : x ∈ (step (after (.new shuffle) front) .getRandomReg).reserveRegs := by
    change x ∈ (after (.new shuffle) front).getRandomReg.2.reserveRegs
    rw [(getRandomReg_some hreg).2]
    exact List.mem_append_right _ hx
  have hkept := reserved_after htaken hunreserve hreinit
  have hlater : after (.new shuffle) (front ++ .getRandomReg :: middle) =
      after (step (after (.new shuffle) front) .getRandomReg) middle := after_append _ _ _
  have hops' : ops = (front ++ .getRandomReg :: middle) ++ .getRandomReg :: back' := by
    rw [hops, hback, List.append_assoc, List.cons_append]
  refine hunreserved _ back' reg' hops' hreg' x hx' ?_
  rw [hlater]
  exact hkept

/-- The order as it is. -/
def inOrder : Shuffle := ⟨fun regs => regs, fun _ => .refl _⟩

/-- Two groups of four registers are taken, the first one is given back, and registers are taken in pairs. -/
theorem groupsNeverOverlap_fours :
    GroupsNeverOverlap (.new inOrder) [.randomizeRegs inOrder .m4 true, .getRandomReg, .getRandomReg, .unreserveReg 0,
      .randomizeRegs inOrder .m2 false, .reserveReg 8, .getRandomReg] :=
  groupsNeverOverlap_of_cleanRun (by decide)

/-- A register inside an available group of four is reserved, and the group is taken. -/
theorem not_groupsNeverOverlap : ¬ ∀ (shuffle : Shuffle) (ops : List Op), GroupsNeverOverlap (.new shuffle) ops := by
  intro h
  have hgroup := (h inOrder [.randomizeRegs inOrder .m4 true, .reserveReg 1, .getRandomReg] [.randomizeRegs inOrder .m4 true,
    .reserveReg 1] [] 0 rfl (by decide)).1
  exact hgroup 1 (by decide) (by decide)

end Riescue.RegisterManager
