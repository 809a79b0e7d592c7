import Riescue.Barrier

/-! The barrier is safe and can be used again. A round has three stages: the harts gather while the flag is
zero, the last one to arrive resets the variables while all others wait for the flag, and the harts depart
while the flag is one; a hart of the next round gets past the check of `depart_counter` only when nobody of
the old round still waits. -/

namespace Riescue.Barrier
open Interleaving RoundBarrier Routines
variable {harts : ℕ} {maxTries : ℤ}

/-- The hart is counted in `arrive_counter`. -/
def arrived : Pc → ℕ
  | .releaseArrive _ | .checkHartsEnded | .loadFlag => 1
  | _ => 0

/-- The hart has arrived and is not yet counted in `depart_counter`. -/
def waiting : Pc → ℕ
  | .checkHartsEnded | .loadFlag | .acquire .two _ | .addDepartCount => 1
  | _ => 0

/-- Where a hart can be while round `k` gathers. -/
def GatherPlace (k : ℕ) (arrive : ℤ) (entered left : ℕ) : Pc → Prop
  | .idle => entered = k ∧ left = k
  | .acquire .zero _ | .loadArriveCount | .loadDepartCount | .releaseNotNumHarts | .waitDepartCount
  | .acquire .one _ | .setFlagZero | .arriveCountNotZero | .checkHartsEnded | .loadFlag =>
      entered = k + 1 ∧ left = k
  | .releaseArrive workReg1 => entered = k + 1 ∧ left = k ∧ workReg1 = arrive
  | _ => False

/-- Where the last hart to arrive is while it resets the variables. -/
def LastPlace (k : ℕ) (mem : Mem harts) (entered left : ℕ) : Pc → Prop
  | .resetArriveCount =>
      entered = k + 1 ∧ left = k ∧ mem.arriveCounter = harts ∧ mem.departCounter = harts
  | .setDepartCount => entered = k + 1 ∧ left = k ∧ mem.arriveCounter = 0 ∧ mem.departCounter = harts
  | .setFlagOne => entered = k + 1 ∧ left = k ∧ mem.arriveCounter = 0 ∧ mem.departCounter = 1
  | _ => False

/-- Where the others are meanwhile. -/
def WaitPlace (k entered left : ℕ) : Pc → Prop
  | .checkHartsEnded | .loadFlag => entered = k + 1 ∧ left = k
  | _ => False

/-- Where a hart can be while round `k` departs and round `k + 1` begins; `drained` when nobody waits. -/
def DepartPlace (drained : Prop) (k entered left : ℕ) : Pc → Prop
  | .idle => entered = k + 1 ∧ left = k + 1
  | .acquire .zero _ | .loadArriveCount | .loadDepartCount | .releaseNotNumHarts | .waitDepartCount =>
      entered = k + 2 ∧ left = k + 1
  | .acquire .one _ | .setFlagZero => drained ∧ entered = k + 2 ∧ left = k + 1
  | .checkHartsEnded | .loadFlag | .acquire .two _ | .addDepartCount | .releaseDepart =>
      entered = k + 1 ∧ left = k
  | _ => False

/-- The three stages of round `k`. -/
inductive Stage (k : ℕ) (config : Config (Fin harts) (Mem harts) Pc) : Prop
  | gather (hflag : config.mem.flag = 0) (hdepart : config.mem.departCounter = harts)
      (harrive : config.mem.arriveCounter = total arrived config.locals)
      (hplace : ∀ i, GatherPlace k config.mem.arriveCounter (config.mem.rounds.entered i)
        (config.mem.rounds.left i) (config.locals i))
  | reset (last : Fin harts) (hflag : config.mem.flag = 0)
      (hlast : LastPlace k config.mem (config.mem.rounds.entered last) (config.mem.rounds.left last)
        (config.locals last))
      (hothers : ∀ i, i ≠ last → WaitPlace k (config.mem.rounds.entered i) (config.mem.rounds.left i)
        (config.locals i))
  | depart (hflag : config.mem.flag = 1) (harrive : config.mem.arriveCounter = 0)
      (hdepart : config.mem.departCounter + total waiting config.locals = harts)
      (hplace : ∀ i, DepartPlace (total waiting config.locals = 0) k (config.mem.rounds.entered i)
        (config.mem.rounds.left i) (config.locals i))

structure Inv (config : Config (Fin harts) (Mem harts) Pc) : Prop where
  lockHeld : LockHeld config.mem.lock (total holds config.locals)
  stage : ∃ k, Stage k config

theorem inv_start : Inv (start : Config (Fin harts) (Mem harts) Pc) where
  lockHeld := by simp [LockHeld, start, holds, total]
  stage := ⟨0, .gather rfl rfl (by simp [start, arrived, total]) fun _ => ⟨rfl, rfl⟩⟩

/-! ### The lock -/

section Step
variable {config : Config (Fin harts) (Mem harts) Pc} {i : Fin harts} {out : Mem harts × Pc}

/-- What a hart at `place_acquire_lock` does: it waits or acquires, and only the lock word changes. -/
theorem acquireAt_cases {site : Site} {state : Acquire} {mem : Mem harts}
    (hout : acquireAt site mem state = some out) :
    ∃ lock next, acquireStep mem.numHartsEnded mem.lock state = some (lock, next) ∧
      out = ({ mem with lock := lock },
        match next with
        | some state => .acquire site state
        | none => acquired site) := by
  unfold acquireAt at hout
  split at hout
  · cases hout
  · exact ⟨_, _, ‹_›, (Option.some.inj hout).symm⟩
  · exact ⟨_, _, ‹_›, (Option.some.inj hout).symm⟩

theorem LockHeld.keep (h : LockHeld config.mem.lock (total holds config.locals))
    (hlock : out.1.lock = config.mem.lock) (hholds : holds out.2 = holds (config.locals i)) :
    LockHeld out.1.lock (total holds (Function.update config.locals i out.2)) := by
  have htotal := total_update holds config.locals i out.2
  have heq : total holds (Function.update config.locals i out.2) = total holds config.locals := by omega
  rwa [hlock, heq]

theorem LockHeld.release (h : LockHeld config.mem.lock (total holds config.locals))
    (hlock : out.1.lock = 0) (hholds : holds (config.locals i) = 1) (hfree : holds out.2 = 0) :
    LockHeld out.1.lock (total holds (Function.update config.locals i out.2)) := by
  have htotal := total_update holds config.locals i out.2
  have hpos := le_total holds config.locals i
  have heq : total holds (Function.update config.locals i out.2) = total holds config.locals - 1 := by
    omega
  rw [hlock, heq]
  exact h.released (by omega)

/-- The lock word counts its holders behind every step. -/
theorem lockHeld_step (h : LockHeld config.mem.lock (total holds config.locals))
    (hout : program maxTries i config.mem (config.locals i) = some out) :
    LockHeld out.1.lock (total holds (Function.update config.locals i out.2)) := by
  cases hpc : config.locals i with
  | acquire site state =>
      have htotal := total_update holds config.locals i out.2
      rw [hpc] at hout htotal
      obtain ⟨lock, next, hacquire, rfl⟩ := acquireAt_cases hout
      cases next with
      | some next =>
          have heq : total holds (Function.update config.locals i (.acquire site next)) =
              total holds config.locals := htotal
          rw [heq]
          exact h.waits hacquire
      | none =>
          have heq : total holds (Function.update config.locals i (acquired site)) =
              total holds config.locals + 1 := by
            cases site <;> exact htotal
          rw [heq]
          exact h.acquires hacquire
  | releaseNotNumHarts =>
      rw [hpc] at hout
      obtain rfl := Option.some.inj hout
      exact LockHeld.release h rfl (by rw [hpc]; rfl) rfl
  | releaseArrive workReg1 =>
      rw [hpc] at hout
      obtain rfl := Option.some.inj hout
      refine LockHeld.release h rfl (by rw [hpc]; rfl) ?_
      dsimp only
      split_ifs <;> rfl
  | releaseDepart =>
      rw [hpc] at hout
      obtain rfl := Option.some.inj hout
      exact LockHeld.release h rfl (by rw [hpc]; rfl) rfl
  | checkHartsEnded =>
      simp only [hpc, program] at hout
      split_ifs at hout
      obtain rfl := Option.some.inj hout
      exact LockHeld.keep h rfl (by rw [hpc]; rfl)
  | loadArriveCount | loadDepartCount | waitDepartCount | loadFlag =>
      rw [hpc] at hout
      obtain rfl := Option.some.inj hout
      refine LockHeld.keep h rfl ?_
      rw [hpc]
      dsimp only
      split_ifs <;> rfl
  | _ =>
      rw [hpc] at hout
      obtain rfl := Option.some.inj hout
      exact LockHeld.keep h rfl (by rw [hpc]; rfl)

/-- Two harts do not hold the lock at once. -/
theorem LockHeld.unique {lock : ℤ} {locals : Fin harts → Pc} (h : LockHeld lock (total holds locals))
    {j : Fin harts} (hji : j ≠ i) (hi : holds (locals i) = 1) : holds (locals j) = 0 := by
  have hpair := add_le_total holds locals hji
  have hone := h.le_one
  omega

/-! ### Gathering -/

theorem gatherPlace_congr {k : ℕ} {arrive arrive' : ℤ} {entered left : ℕ} {pc : Pc}
    (h : GatherPlace k arrive entered left pc) (hpc : arrive' = arrive ∨ holds pc = 0) :
    GatherPlace k arrive' entered left pc := by
  cases pc with
  | releaseArrive workReg1 =>
      rcases hpc with rfl | hholds
      · exact h
      · cases hholds
  | acquire site state => cases site <;> exact h
  | _ => exact h

/-- A move within the gathering stage. -/
theorem Stage.gather_set {k : ℕ} (hflag : out.1.flag = 0) (hdepart : out.1.departCounter = harts)
    (harrive : config.mem.arriveCounter = total arrived config.locals)
    (hcount : out.1.arriveCounter + arrived (config.locals i) =
      config.mem.arriveCounter + arrived out.2)
    (hplace : ∀ j, GatherPlace k config.mem.arriveCounter (config.mem.rounds.entered j)
      (config.mem.rounds.left j) (config.locals j))
    (hothers : ∀ j, j ≠ i → out.1.rounds.entered j = config.mem.rounds.entered j ∧
      out.1.rounds.left j = config.mem.rounds.left j ∧
      (out.1.arriveCounter = config.mem.arriveCounter ∨ holds (config.locals j) = 0))
    (hown : GatherPlace k out.1.arriveCounter (out.1.rounds.entered i) (out.1.rounds.left i) out.2) :
    Stage k (config.set i out) := by
  have htotal := total_update arrived config.locals i out.2
  refine .gather hflag hdepart ?_ ?_
  · change out.1.arriveCounter = (total arrived (Function.update config.locals i out.2) : ℕ)
    omega
  · intro j
    by_cases hji : j = i
    · subst hji
      rwa [Config.set_locals_self]
    · obtain ⟨hentered, hleft, harrive'⟩ := hothers j hji
      rw [Config.set_locals_ne _ hji, Config.set_mem, hentered, hleft]
      exact gatherPlace_congr (hplace j) harrive'

theorem gather_step {k : ℕ} (hlock : LockHeld config.mem.lock (total holds config.locals))
    (hflag : config.mem.flag = 0) (hdepart : config.mem.departCounter = harts)
    (harrive : config.mem.arriveCounter = total arrived config.locals)
    (hplace : ∀ j, GatherPlace k config.mem.arriveCounter (config.mem.rounds.entered j)
      (config.mem.rounds.left j) (config.locals j))
    (hout : program maxTries i config.mem (config.locals i) = some out) :
    Stage k (config.set i out) := by
  have hi := hplace i
  cases hpc : config.locals i with
  | idle =>
      rw [hpc] at hout hi
      obtain rfl := Option.some.inj hout
      refine .gather_set hflag hdepart harrive (by rw [hpc]; rfl) hplace
        (fun j hji => ⟨Rounds.enter_entered_ne _ hji, rfl, Or.inl rfl⟩) ?_
      simp only [GatherPlace, Rounds.enter_entered_self, Rounds.enter_left] at hi ⊢
      omega
  | acquire site state =>
      rw [hpc] at hout hi
      obtain ⟨lock, next, -, rfl⟩ := acquireAt_cases hout
      cases site with
      | two => exact hi.elim
      | zero =>
          cases next <;>
            exact .gather_set hflag hdepart harrive (by rw [hpc]; rfl) hplace
              (fun _ _ => ⟨rfl, rfl, Or.inl rfl⟩) hi
      | one =>
          cases next <;>
            exact .gather_set hflag hdepart harrive (by rw [hpc]; rfl) hplace
              (fun _ _ => ⟨rfl, rfl, Or.inl rfl⟩) hi
  | arriveCountNotZero =>
      rw [hpc] at hout hi
      obtain rfl := Option.some.inj hout
      exact .gather_set hflag hdepart harrive (by rw [hpc]; simp [arrived]) hplace
        (fun j hji => ⟨rfl, rfl, Or.inr (LockHeld.unique hlock hji (by rw [hpc]; rfl))⟩)
        ⟨hi.1, hi.2, rfl⟩
  | releaseArrive workReg1 =>
      rw [hpc] at hout hi
      obtain rfl := Option.some.inj hout
      obtain ⟨hentered, hleft, rfl⟩ := hi
      by_cases hlast : config.mem.arriveCounter = harts
      · -- everyone has arrived, and nobody else is in front of the release
        rw [if_neg (not_not.mpr hlast)]
        refine .reset i hflag ?_ ?_
        · rw [Config.set_locals_self]
          exact ⟨hentered, hleft, hlast, hdepart⟩
        · intro j hji
          have hfree := LockHeld.unique hlock hji (by rw [hpc]; rfl)
          have hall : total arrived config.locals = Fintype.card (Fin harts) := by
            rw [Fintype.card_fin]
            omega
          have hone := eq_one_of_total_eq_card (fun j => by unfold arrived; split <;> omega) hall j
          have hj := hplace j
          rw [Config.set_locals_ne _ hji]
          cases hpcj : config.locals j with
          | checkHartsEnded | loadFlag =>
              rw [hpcj] at hj
              exact hj
          | releaseArrive _ =>
              rw [hpcj] at hfree
              cases hfree
          | _ =>
              rw [hpcj] at hone
              cases hone
      · rw [if_pos hlast]
        exact .gather_set hflag hdepart harrive (by rw [hpc]; rfl) hplace
          (fun _ _ => ⟨rfl, rfl, Or.inl rfl⟩) ⟨hentered, hleft⟩
  | checkHartsEnded =>
      rw [hpc] at hi
      simp only [hpc, program] at hout
      split_ifs at hout
      obtain rfl := Option.some.inj hout
      exact .gather_set hflag hdepart harrive (by rw [hpc]; rfl) hplace
        (fun _ _ => ⟨rfl, rfl, Or.inl rfl⟩) hi
  | loadFlag =>
      rw [hpc] at hi hout
      obtain rfl := Option.some.inj hout
      rw [if_neg (not_not.mpr hflag)]
      exact .gather_set hflag hdepart harrive (by rw [hpc]; rfl) hplace
        (fun _ _ => ⟨rfl, rfl, Or.inl rfl⟩) hi
  | setFlagZero =>
      rw [hpc] at hi hout
      obtain rfl := Option.some.inj hout
      exact .gather_set rfl hdepart harrive (by rw [hpc]; rfl) hplace
        (fun _ _ => ⟨rfl, rfl, Or.inl rfl⟩) hi
  | releaseNotNumHarts =>
      rw [hpc] at hi hout
      obtain rfl := Option.some.inj hout
      exact .gather_set hflag hdepart harrive (by rw [hpc]; rfl) hplace
        (fun _ _ => ⟨rfl, rfl, Or.inl rfl⟩) hi
  | loadArriveCount | loadDepartCount | waitDepartCount =>
      rw [hpc] at hi hout
      obtain rfl := Option.some.inj hout
      split_ifs <;>
        exact .gather_set hflag hdepart harrive (by rw [hpc]; rfl) hplace
          (fun _ _ => ⟨rfl, rfl, Or.inl rfl⟩) hi
  | _ =>
      rw [hpc] at hi
      exact hi.elim

/-! ### Resetting -/

theorem reset_step {k : ℕ} {last : Fin harts} (hflag : config.mem.flag = 0)
    (hlast : LastPlace k config.mem (config.mem.rounds.entered last) (config.mem.rounds.left last)
      (config.locals last))
    (hothers : ∀ j, j ≠ last → WaitPlace k (config.mem.rounds.entered j) (config.mem.rounds.left j)
      (config.locals j))
    (hout : program maxTries i config.mem (config.locals i) = some out) :
    Stage k (config.set i out) := by
  by_cases hi : i = last
  · subst hi
    have hothers' : ∀ j, j ≠ i → WaitPlace k (config.mem.rounds.entered j) (config.mem.rounds.left j)
        ((config.set i out).locals j) := by
      intro j hji
      rw [Config.set_locals_ne _ hji]
      exact hothers j hji
    cases hpc : config.locals i with
    | resetArriveCount =>
        rw [hpc] at hlast hout
        obtain rfl := Option.some.inj hout
        refine .reset i hflag ?_ hothers'
        rw [Config.set_locals_self]
        exact ⟨hlast.1, hlast.2.1, rfl, hlast.2.2.2⟩
    | setDepartCount =>
        rw [hpc] at hlast hout
        obtain rfl := Option.some.inj hout
        refine .reset i hflag ?_ hothers'
        rw [Config.set_locals_self]
        exact ⟨hlast.1, hlast.2.1, hlast.2.2.1, rfl⟩
    | setFlagOne =>
        rw [hpc] at hlast hout
        obtain rfl := Option.some.inj hout
        obtain ⟨hentered, hleft, harrive, hdepart⟩ := hlast
        -- all but the last hart wait
        have hall : total waiting (Function.update config.locals i .loadFlag) =
            Fintype.card (Fin harts) * 1 := by
          refine total_const fun j => ?_
          by_cases hji : j = i
          · subst hji
            rw [Function.update_self]
            rfl
          · rw [Function.update_of_ne hji]
            have hj := hothers j hji
            cases hpcj : config.locals j with
            | checkHartsEnded | loadFlag => rfl
            | _ =>
                rw [hpcj] at hj
                exact hj.elim
        rw [Fintype.card_fin] at hall
        have hcount := total_update waiting config.locals i .loadFlag
        have hcount' := total_update waiting config.locals i .idle
        rw [hpc] at hcount hcount'
        simp only [waiting] at hcount hcount'
        refine .depart rfl harrive ?_ ?_
        · change config.mem.departCounter + (total waiting (Function.update config.locals i .idle) : ℕ) = harts
          omega
        · intro j
          by_cases hji : j = i
          · subst hji
            rw [Config.set_locals_self]
            simp only [DepartPlace, Config.set_mem, Rounds.leave_entered, Rounds.leave_left_self]
            omega
          · rw [Config.set_locals_ne _ hji, Config.set_mem, Rounds.leave_entered,
              Rounds.leave_left_ne _ hji]
            have hj := hothers j hji
            cases hpcj : config.locals j with
            | checkHartsEnded | loadFlag =>
                rw [hpcj] at hj
                exact hj
            | _ =>
                rw [hpcj] at hj
                exact hj.elim
    | _ =>
        rw [hpc] at hlast
        exact hlast.elim
  · have hstay : ∀ pc', WaitPlace k (config.mem.rounds.entered i) (config.mem.rounds.left i) pc' →
        Stage k (config.set i (config.mem, pc')) := by
      intro pc' hpc'
      refine .reset last hflag ?_ ?_
      · rw [Config.set_locals_ne _ (Ne.symm hi)]
        exact hlast
      · intro j hj
        by_cases hji : j = i
        · subst hji
          rwa [Config.set_locals_self]
        · rw [Config.set_locals_ne _ hji]
          exact hothers j hj
    have hwait := hothers i hi
    cases hpc : config.locals i with
    | checkHartsEnded =>
        rw [hpc] at hwait
        simp only [hpc, program] at hout
        split_ifs at hout
        obtain rfl := Option.some.inj hout
        exact hstay _ hwait
    | loadFlag =>
        rw [hpc] at hwait hout
        obtain rfl := Option.some.inj hout
        rw [if_neg (not_not.mpr hflag)]
        exact hstay _ hwait
    | _ =>
        rw [hpc] at hwait
        exact hwait.elim

/-! ### Departing -/

theorem departPlace_mono {drained drained' : Prop} {k entered left : ℕ} {pc : Pc}
    (h : DepartPlace drained k entered left pc) (hdrained : drained → drained') :
    DepartPlace drained' k entered left pc := by
  cases pc with
  | acquire site state =>
      cases site with
      | zero => exact h
      | one => exact ⟨hdrained h.1, h.2⟩
      | two => exact h
  | setFlagZero => exact ⟨hdrained h.1, h.2⟩
  | _ => exact h

/-- A move within the departing stage: nobody begins to wait. -/
theorem Stage.depart_set {k : ℕ} (hflag : out.1.flag = 1) (harrive : out.1.arriveCounter = 0)
    (hdepart : config.mem.departCounter + total waiting config.locals = harts)
    (hcount : out.1.departCounter + waiting out.2 =
      config.mem.departCounter + waiting (config.locals i))
    (hle : waiting out.2 ≤ waiting (config.locals i))
    (hplace : ∀ j, DepartPlace (total waiting config.locals = 0) k (config.mem.rounds.entered j)
      (config.mem.rounds.left j) (config.locals j))
    (hothers : ∀ j, j ≠ i → out.1.rounds.entered j = config.mem.rounds.entered j ∧
      out.1.rounds.left j = config.mem.rounds.left j)
    (hown : DepartPlace (total waiting config.locals = 0) k (out.1.rounds.entered i)
      (out.1.rounds.left i) out.2) : Stage k (config.set i out) := by
  have htotal := total_update waiting config.locals i out.2
  have hdrained : total waiting config.locals = 0 → total waiting (config.set i out).locals = 0 := by
    intro hzero
    change total waiting (Function.update config.locals i out.2) = 0
    omega
  refine .depart hflag harrive ?_ ?_
  · change out.1.departCounter + (total waiting (Function.update config.locals i out.2) : ℕ) = harts
    omega
  · intro j
    by_cases hji : j = i
    · subst hji
      rw [Config.set_locals_self]
      exact departPlace_mono hown hdrained
    · obtain ⟨hentered, hleft⟩ := hothers j hji
      rw [Config.set_locals_ne _ hji, Config.set_mem, hentered, hleft]
      exact departPlace_mono (hplace j) hdrained

/-- The first hart of the next round to clear the flag ends the departing stage. -/
theorem depart_setFlagZero {k : ℕ} (hlock : LockHeld config.mem.lock (total holds config.locals))
    (harrive : config.mem.arriveCounter = 0)
    (hdepart : config.mem.departCounter + total waiting config.locals = harts)
    (hplace : ∀ j, DepartPlace (total waiting config.locals = 0) k (config.mem.rounds.entered j)
      (config.mem.rounds.left j) (config.locals j))
    (hpc : config.locals i = .setFlagZero) :
    Stage (k + 1) (config.set i ({ config.mem with flag := 0 }, .arriveCountNotZero)) := by
  have hi := hplace i
  rw [hpc] at hi
  obtain ⟨hdrained, hi⟩ := hi
  have hwait : ∀ j, waiting (config.locals j) = 0 := total_eq_zero_iff.mp hdrained
  have hothers : ∀ j, j ≠ i → arrived (config.locals j) = 0 ∧
      GatherPlace (k + 1) 0 (config.mem.rounds.entered j) (config.mem.rounds.left j) (config.locals j) := by
    intro j hji
    have hj := hplace j
    have hwaitj := hwait j
    have hfree := LockHeld.unique hlock hji (by rw [hpc]; rfl)
    cases hpcj : config.locals j with
    | idle | loadArriveCount | loadDepartCount | releaseNotNumHarts | waitDepartCount =>
        rw [hpcj] at hj
        exact ⟨rfl, hj⟩
    | acquire site state =>
        rw [hpcj] at hj hwaitj
        cases site with
        | zero => exact ⟨rfl, hj⟩
        | one => exact ⟨rfl, hj.2⟩
        | two => cases hwaitj
    | setFlagZero | releaseDepart =>
        rw [hpcj] at hfree
        cases hfree
    | checkHartsEnded | loadFlag | addDepartCount =>
        rw [hpcj] at hwaitj
        cases hwaitj
    | _ =>
        rw [hpcj] at hj
        exact hj.elim
  have hnone : total arrived (Function.update config.locals i .arriveCountNotZero) = 0 := by
    refine total_eq_zero_iff.mpr fun j => ?_
    by_cases hji : j = i
    · subst hji
      rw [Function.update_self]
      rfl
    · rw [Function.update_of_ne hji]
      exact (hothers j hji).1
  refine .gather rfl ?_ ?_ ?_
  · change config.mem.departCounter = harts
    omega
  · change config.mem.arriveCounter = (total arrived (Function.update config.locals i _) : ℕ)
    rw [hnone, harrive]
    rfl
  · intro j
    rw [Config.set_mem, harrive]
    by_cases hji : j = i
    · subst hji
      rw [Config.set_locals_self]
      exact hi
    · rw [Config.set_locals_ne _ hji]
      exact (hothers j hji).2

theorem depart_step {k : ℕ} (hlock : LockHeld config.mem.lock (total holds config.locals))
    (hflag : config.mem.flag = 1) (harrive : config.mem.arriveCounter = 0)
    (hdepart : config.mem.departCounter + total waiting config.locals = harts)
    (hplace : ∀ j, DepartPlace (total waiting config.locals = 0) k (config.mem.rounds.entered j)
      (config.mem.rounds.left j) (config.locals j))
    (hout : program maxTries i config.mem (config.locals i) = some out) :
    ∃ k', Stage k' (config.set i out) := by
  have hi := hplace i
  -- a move that leaves `depart_counter` and the waiting harts alone
  have hstay : ∀ out : Mem harts × Pc, out.1.flag = 1 → out.1.arriveCounter = 0 →
      out.1.departCounter = config.mem.departCounter → waiting out.2 = waiting (config.locals i) →
      (∀ j, j ≠ i → out.1.rounds.entered j = config.mem.rounds.entered j ∧
        out.1.rounds.left j = config.mem.rounds.left j) →
      DepartPlace (total waiting config.locals = 0) k (out.1.rounds.entered i) (out.1.rounds.left i) out.2 →
      ∃ k', Stage k' (config.set i out) := by
    intro out hflag harrive hcount hwaiting hothers hown
    exact ⟨k, .depart_set hflag harrive hdepart (by rw [hcount, hwaiting]) hwaiting.le hplace hothers hown⟩
  cases hpc : config.locals i with
  | idle =>
      rw [hpc] at hi hout hstay
      obtain rfl := Option.some.inj hout
      refine hstay _ hflag harrive rfl rfl (fun j hji => ⟨Rounds.enter_entered_ne _ hji, rfl⟩) ?_
      simp only [DepartPlace, Rounds.enter_entered_self, Rounds.enter_left] at hi ⊢
      omega
  | acquire site state =>
      rw [hpc] at hi hout hstay
      obtain ⟨lock, next, -, rfl⟩ := acquireAt_cases hout
      cases site <;> cases next <;> exact hstay _ hflag harrive rfl rfl (fun _ _ => ⟨rfl, rfl⟩) hi
  | loadArriveCount =>
      rw [hpc] at hi hout hstay
      obtain rfl := Option.some.inj hout
      rw [if_neg (not_not.mpr harrive)]
      exact hstay _ hflag harrive rfl rfl (fun _ _ => ⟨rfl, rfl⟩) hi
  | loadDepartCount =>
      rw [hpc] at hi hout hstay
      obtain rfl := Option.some.inj hout
      by_cases hdrained : config.mem.departCounter = harts
      · rw [if_neg (not_not.mpr hdrained)]
        exact hstay _ hflag harrive rfl rfl (fun _ _ => ⟨rfl, rfl⟩) ⟨by omega, hi⟩
      · rw [if_pos hdrained]
        exact hstay _ hflag harrive rfl rfl (fun _ _ => ⟨rfl, rfl⟩) hi
  | releaseNotNumHarts =>
      rw [hpc] at hi hout hstay
      obtain rfl := Option.some.inj hout
      exact hstay _ hflag harrive rfl rfl (fun _ _ => ⟨rfl, rfl⟩) hi
  | waitDepartCount =>
      rw [hpc] at hi hout hstay
      obtain rfl := Option.some.inj hout
      by_cases hdrained : config.mem.departCounter = harts
      · rw [if_pos hdrained]
        exact hstay _ hflag harrive rfl rfl (fun _ _ => ⟨rfl, rfl⟩) ⟨by omega, hi⟩
      · rw [if_neg hdrained]
        exact hstay _ hflag harrive rfl rfl (fun _ _ => ⟨rfl, rfl⟩) hi
  | setFlagZero =>
      rw [hpc] at hout
      obtain rfl := Option.some.inj hout
      exact ⟨k + 1, depart_setFlagZero hlock harrive hdepart hplace hpc⟩
  | checkHartsEnded =>
      rw [hpc] at hi hstay
      simp only [hpc, program] at hout
      split_ifs at hout
      obtain rfl := Option.some.inj hout
      exact hstay _ hflag harrive rfl rfl (fun _ _ => ⟨rfl, rfl⟩) hi
  | loadFlag =>
      rw [hpc] at hi hout hstay
      obtain rfl := Option.some.inj hout
      rw [if_pos (by rw [hflag]; decide)]
      exact hstay _ hflag harrive rfl rfl (fun _ _ => ⟨rfl, rfl⟩) hi
  | addDepartCount =>
      rw [hpc] at hi hout
      obtain rfl := Option.some.inj hout
      exact ⟨k, .depart_set hflag harrive hdepart (by rw [hpc]; simp [waiting]) (by simp [waiting]) hplace
        (fun _ _ => ⟨rfl, rfl⟩) hi⟩
  | releaseDepart =>
      rw [hpc] at hi hout hstay
      obtain rfl := Option.some.inj hout
      refine hstay _ hflag harrive rfl rfl (fun j hji => ⟨rfl, Rounds.leave_left_ne _ hji⟩) ?_
      simp only [DepartPlace, Rounds.leave_entered, Rounds.leave_left_self] at hi ⊢
      omega
  | _ =>
      rw [hpc] at hi
      exact hi.elim

/-- One step of any hart keeps the invariant. -/
theorem Inv.step (h : Inv config) (hout : program maxTries i config.mem (config.locals i) = some out) :
    Inv (config.set i out) where
  lockHeld := lockHeld_step h.lockHeld hout
  stage := by
    obtain ⟨k, hstage⟩ := h.stage
    cases hstage with
    | gather hflag hdepart harrive hplace =>
        exact ⟨k, gather_step h.lockHeld hflag hdepart harrive hplace hout⟩
    | reset last hflag hlast hothers => exact ⟨k, reset_step hflag hlast hothers hout⟩
    | depart hflag harrive hdepart hplace =>
        exact depart_step h.lockHeld hflag harrive hdepart hplace hout

end Step

theorem Reachable.inv {config : Config (Fin harts) (Mem harts) Pc}
    (h : Reachable (program maxTries) start config) : Inv config :=
  h.invariant inv_start fun _ _ _ hinv hout => hinv.step hout

/-! ### Safety -/

/-- In every stage all harts are within one round. -/
theorem Stage.bounds {k : ℕ} {config : Config (Fin harts) (Mem harts) Pc} (h : Stage k config) :
    ∃ r, ∀ i, config.mem.rounds.left i ≤ r ∧ r ≤ config.mem.rounds.entered i := by
  cases h with
  | gather hflag hdepart harrive hplace =>
      refine ⟨k, fun i => ?_⟩
      have hi := hplace i
      cases hpc : config.locals i with
      | acquire site state => cases site <;> simp only [hpc, GatherPlace] at hi <;> omega
      | _ => simp only [hpc, GatherPlace] at hi <;> omega
  | reset last hflag hlast hothers =>
      refine ⟨k, fun i => ?_⟩
      by_cases hi : i = last
      · subst hi
        cases hpc : config.locals i with
        | resetArriveCount | setDepartCount | setFlagOne =>
            simp only [hpc, LastPlace] at hlast
            omega
        | _ =>
            rw [hpc] at hlast
            exact hlast.elim
      · have hwait := hothers i hi
        cases hpc : config.locals i with
        | checkHartsEnded | loadFlag =>
            simp only [hpc, WaitPlace] at hwait
            omega
        | _ =>
            rw [hpc] at hwait
            exact hwait.elim
  | depart hflag harrive hdepart hplace =>
      refine ⟨k + 1, fun i => ?_⟩
      have hi := hplace i
      cases hpc : config.locals i with
      | acquire site state => cases site <;> simp only [hpc, DepartPlace] at hi <;> omega
      | _ => simp only [hpc, DepartPlace] at hi <;> omega

/-- The counters stay between zero and the number of harts. -/
theorem Stage.counters {k : ℕ} {config : Config (Fin harts) (Mem harts) Pc} (h : Stage k config) :
    (0 ≤ config.mem.arriveCounter ∧ config.mem.arriveCounter ≤ harts) ∧
      0 ≤ config.mem.departCounter ∧ config.mem.departCounter ≤ harts := by
  cases h with
  | gather hflag hdepart harrive hplace =>
      have hle : total arrived config.locals ≤ Fintype.card (Fin harts) * 1 :=
        total_le fun i => by unfold arrived; split <;> omega
      rw [Fintype.card_fin] at hle
      omega
  | reset last hflag hlast hothers =>
      have hpos := last.pos
      cases hpc : config.locals last with
      | resetArriveCount | setDepartCount | setFlagOne =>
          simp only [hpc, LastPlace] at hlast
          omega
      | _ =>
          rw [hpc] at hlast
          exact hlast.elim
  | depart hflag harrive hdepart hplace =>
      have hle : total waiting config.locals ≤ Fintype.card (Fin harts) * 1 :=
        total_le fun i => by unfold waiting; split <;> omega
      rw [Fintype.card_fin] at hle
      omega

theorem Inv.rounds_safe {config : Config (Fin harts) (Mem harts) Pc} (h : Inv config) :
    config.mem.rounds.Safe := by
  obtain ⟨k, hstage⟩ := h.stage
  obtain ⟨r, hr⟩ := hstage.bounds
  exact fun i j => (hr i).1.trans (hr j).2

/-- A hart outside the barrier has completed every round that it has entered. -/
theorem Stage.entered_idle {k : ℕ} {config : Config (Fin harts) (Mem harts) Pc} (h : Stage k config)
    {i : Fin harts} (hpc : config.locals i = .idle) :
    config.mem.rounds.entered i = config.mem.rounds.left i := by
  cases h with
  | gather hflag hdepart harrive hplace =>
      have hi := hplace i
      simp only [hpc, GatherPlace] at hi
      omega
  | reset last hflag hlast hothers =>
      by_cases hi : i = last
      · subst hi
        rw [hpc] at hlast
        exact hlast.elim
      · have hwait := hothers i hi
        rw [hpc] at hwait
        exact hwait.elim
  | depart hflag harrive hdepart hplace =>
      have hi := hplace i
      simp only [hpc, DepartPlace] at hi
      omega

/-- A hart at the end of the barrier is in the round that it has entered last. -/
theorem Stage.entered_completing {k : ℕ} {config : Config (Fin harts) (Mem harts) Pc}
    (h : Stage k config) {i : Fin harts}
    (hpc : config.locals i = .setFlagOne ∨ config.locals i = .releaseDepart) :
    config.mem.rounds.entered i = config.mem.rounds.left i + 1 := by
  cases h with
  | gather hflag hdepart harrive hplace =>
      have hi := hplace i
      rcases hpc with hpc | hpc <;> simp only [hpc, GatherPlace] at hi
  | reset last hflag hlast hothers =>
      by_cases hi : i = last
      · subst hi
        rcases hpc with hpc | hpc <;> simp only [hpc, LastPlace] at hlast
        omega
      · have hwait := hothers i hi
        rcases hpc with hpc | hpc <;> simp only [hpc, WaitPlace] at hwait
  | depart hflag harrive hdepart hplace =>
      have hi := hplace i
      rcases hpc with hpc | hpc <;> simp only [hpc, DepartPlace] at hi
      omega

/-- The emitted code implements the barrier that its callers rely on: a step either leaves the rounds alone
or is a step of the abstract barrier. -/
theorem Inv.refines {config : Config (Fin harts) (Mem harts) Pc} (h : Inv config) {i : Fin harts}
    {out : Mem harts × Pc} (hout : program maxTries i config.mem (config.locals i) = some out) :
    out.1.rounds = config.mem.rounds ∨ RoundBarrier.Step config.mem.rounds out.1.rounds := by
  obtain ⟨k, hstage⟩ := h.stage
  have hsafe := (h.step hout).rounds_safe
  have hleave : config.mem.rounds.entered i = config.mem.rounds.left i + 1 →
      out.1.rounds = config.mem.rounds.leave i → RoundBarrier.Step config.mem.rounds out.1.rounds := by
    intro hinside hrounds
    rw [hrounds]
    refine .leave _ i hinside fun j => ?_
    have hij := hsafe i j
    rw [Config.set_mem, hrounds, Rounds.leave_left_self, Rounds.leave_entered] at hij
    rwa [hinside]
  cases hpc : config.locals i with
  | idle =>
      rw [hpc] at hout
      obtain rfl := Option.some.inj hout
      exact Or.inr (.enter _ i (hstage.entered_idle hpc))
  | acquire site state =>
      rw [hpc] at hout
      obtain ⟨lock, next, -, rfl⟩ := acquireAt_cases hout
      exact Or.inl rfl
  | checkHartsEnded =>
      simp only [hpc, program] at hout
      split_ifs at hout
      obtain rfl := Option.some.inj hout
      exact Or.inl rfl
  | setFlagOne =>
      rw [hpc] at hout
      obtain rfl := Option.some.inj hout
      exact Or.inr (hleave (hstage.entered_completing (Or.inl hpc)) rfl)
  | releaseDepart =>
      rw [hpc] at hout
      obtain rfl := Option.some.inj hout
      exact Or.inr (hleave (hstage.entered_completing (Or.inr hpc)) rfl)
  | _ =>
      rw [hpc] at hout
      obtain rfl := Option.some.inj hout
      exact Or.inl rfl

/-- No hart completes a barrier that some hart has not entered, one hart at most holds the lock, and the
counters stay in range. -/
structure Safe (config : Config (Fin harts) (Mem harts) Pc) : Prop where
  rounds : ∀ i j, config.mem.rounds.left i ≤ config.mem.rounds.entered j
  exclusive : ∀ i j, holds (config.locals i) = 1 → holds (config.locals j) = 1 → i = j
  arrive : 0 ≤ config.mem.arriveCounter ∧ config.mem.arriveCounter ≤ harts
  depart : 0 ≤ config.mem.departCounter ∧ config.mem.departCounter ≤ harts

theorem barrier_safe {config : Config (Fin harts) (Mem harts) Pc}
    (h : Reachable (program maxTries) start config) : Safe config := by
  have hinv := Reachable.inv h
  obtain ⟨k, hstage⟩ := hinv.stage
  refine ⟨hinv.rounds_safe, ?_, hstage.counters.1, hstage.counters.2⟩
  intro i j hi hj
  by_contra hij
  have hfree := LockHeld.unique hinv.lockHeld hij hj
  omega

/-- Two harts complete a round: hart 0 arrives first and waits, hart 1 resets the variables. -/
theorem barrier_safe_round : ∃ config : Config (Fin 2) (Mem 2) Pc,
    start.run (program 500) [0, 0, 0, 0, 0, 0, 0, 0, 0, 1, 1, 1, 1, 1, 1, 1, 1, 1, 1, 0, 0, 0, 0, 0, 0, 0] =
      some config ∧
    (config.mem.rounds.left 0, config.mem.rounds.left 1) = (1, 1) ∧ Safe config := by
  have hrun : (start.run (program 500) ([0, 0, 0, 0, 0, 0, 0, 0, 0, 1, 1, 1, 1, 1, 1, 1, 1, 1, 1, 0, 0, 0, 0,
      0, 0, 0] : List (Fin 2))).map (fun config => (config.mem.rounds.left 0, config.mem.rounds.left 1)) =
      some (1, 1) := by
    decide +kernel
  obtain ⟨config, hconfig, hleft⟩ := Option.map_eq_some_iff.mp hrun
  exact ⟨config, hconfig, hleft, barrier_safe (Reachable.start.run hconfig)⟩

end Riescue.Barrier
