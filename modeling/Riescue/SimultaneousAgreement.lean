import Riescue.Simultaneous
import Mathlib.Data.Fintype.Lattice

/-! All harts of the simultaneous scheduler do the same in the same round. How often a hart has entered and
left the barrier determines, with the number of its loads, where it stands; the barrier keeps any two harts
less than a round apart, and hart 0 stores `num_runs` where no other hart is in front of the load. -/

namespace Riescue.Simultaneous
open Interleaving RoundBarrier
variable {harts : ℕ} {dtestsSequence : List String}

/-- The number of entries of `os_test_sequence`. -/
abbrev entries (dtestsSequence : List String) : ℕ := (osTestSequence dtestsSequence).length

theorem countdown_getElem? {r : ℕ} (hr : r ≤ entries dtestsSequence) :
    (countdown dtestsSequence)[r]? = some (entries dtestsSequence - r) := by
  have hlt : r < (List.range (entries dtestsSequence + 1)).length := by
    rw [List.length_range]
    omega
  rw [countdown, List.getElem?_reverse hlt, List.length_range, Nat.add_sub_cancel,
    List.getElem?_range (by omega)]

theorem schedule_zero : (schedule dtestsSequence)[0]? = some (none, "test_setup") := rfl

theorem schedule_getElem? {r idx : ℕ} {label : String}
    (hlabel : (osTestSequence dtestsSequence)[idx]? = some label) (hr : r + idx = entries dtestsSequence) :
    (schedule dtestsSequence)[r]? = some (some idx, label) := by
  have hidx : idx < entries dtestsSequence := (List.getElem?_eq_some_iff.mp hlabel).1
  obtain ⟨r, rfl⟩ : ∃ k, r = k + 1 := ⟨r - 1, by omega⟩
  have hpos : entries dtestsSequence - 1 - r = idx := by omega
  have hlt : r < entries dtestsSequence := by omega
  rw [schedule, List.getElem?_cons_succ, List.getElem?_reverse (by rwa [List.length_mapIdx]),
    List.length_mapIdx, hpos, List.getElem?_mapIdx, hlabel]
  rfl

theorem length_schedule : (schedule dtestsSequence).length = entries dtestsSequence + 1 := by
  simp [schedule]

theorem length_countdown : (countdown dtestsSequence).length = entries dtestsSequence + 1 := by
  simp [countdown]

/-- Where a hart stands that has entered the barrier `entered` and left it `left` times. -/
def Place (dtestsSequence : List String) (first : Prop) (entered left : ℕ) (hart : Hart) : Prop :=
  let loads := hart.loads.length
  let jumps := hart.jumps.length
  match hart.pc with
  | .callBarrier .init => entered = 0 ∧ left = 0 ∧ loads = 0 ∧ jumps = 0
  | .inBarrier .init => entered = 1 ∧ left = 0 ∧ loads = 0 ∧ jumps = 0
  | .loadTestSetup => entered = 1 ∧ left = 1 ∧ loads = 0 ∧ jumps = 0
  | .callBarrier .execute =>
      entered = 2 * loads + 1 ∧ left = 2 * loads + 1 ∧ jumps = loads ∧
        (schedule dtestsSequence)[loads]? = some (hart.entry, hart.t1)
  | .inBarrier .execute =>
      entered = 2 * loads + 2 ∧ left = 2 * loads + 1 ∧ jumps = loads ∧
        (schedule dtestsSequence)[loads]? = some (hart.entry, hart.t1)
  | .jumpTest =>
      entered = 2 * loads + 2 ∧ left = 2 * loads + 2 ∧ jumps = loads ∧
        (schedule dtestsSequence)[loads]? = some (hart.entry, hart.t1)
  | .runTest | .loadNumRuns => entered = 2 * loads + 2 ∧ left = 2 * loads + 2 ∧ jumps = loads + 1
  | .callBarrier .dispatch =>
      0 < loads ∧ entered = 2 * loads ∧ left = 2 * loads ∧ jumps = loads ∧
        hart.s10 + loads = entries dtestsSequence
  | .inBarrier .dispatch =>
      0 < loads ∧ entered = 2 * loads + 1 ∧ left = 2 * loads ∧ jumps = loads ∧
        hart.s10 + loads = entries dtestsSequence
  | .storeNumRuns =>
      first ∧ 0 < loads ∧ entered = 2 * loads + 1 ∧ left = 2 * loads + 1 ∧ jumps = loads ∧
        hart.s10 + loads = entries dtestsSequence
  | .loadTestAddr =>
      0 < loads ∧ entered = 2 * loads + 1 ∧ left = 2 * loads + 1 ∧ jumps = loads ∧
        hart.s10 + loads = entries dtestsSequence
  | .finished =>
      loads = entries dtestsSequence + 1 ∧ entered = 2 * loads ∧ left = 2 * loads ∧ jumps = loads

/-- How often hart 0 has stored `num_runs`. -/
def stores (hart : Hart) : ℕ :=
  match hart.pc with
  | .callBarrier .dispatch | .inBarrier .dispatch | .storeNumRuns | .finished => hart.loads.length - 1
  | _ => hart.loads.length

/-- What a hart has recorded and where it stands. -/
structure HartOk (dtestsSequence : List String) (i : Fin harts) (mem : Mem harts) (hart : Hart) : Prop where
  loads : hart.loads = (countdown dtestsSequence).take hart.loads.length
  jumps : hart.jumps = (schedule dtestsSequence).take hart.jumps.length
  bound : hart.loads.length ≤ entries dtestsSequence ∨ hart.pc = .finished
  place : Place dtestsSequence (i.val = 0) (mem.rounds.entered i) (mem.rounds.left i) hart

structure Inv (dtestsSequence : List String) (config : Config (Fin harts) (Mem harts) Hart) : Prop where
  safe : config.mem.rounds.Safe
  numRuns : ∀ i : Fin harts, i.val = 0 →
    config.mem.numRuns + stores (config.locals i) = entries dtestsSequence
  hartOk : ∀ i, HartOk dtestsSequence i config.mem (config.locals i)

theorem HartOk.frame {i : Fin harts} {mem mem' : Mem harts} {hart : Hart}
    (h : HartOk dtestsSequence i mem hart) (hentered : mem'.rounds.entered i = mem.rounds.entered i)
    (hleft : mem'.rounds.left i = mem.rounds.left i) : HartOk dtestsSequence i mem' hart :=
  ⟨h.loads, h.jumps, h.bound, by rw [hentered, hleft]; exact h.place⟩

/-- A move of hart `i` that touches neither another hart's place nor, unless it is hart 0, `num_runs`. -/
theorem Inv.set {config : Config (Fin harts) (Mem harts) Hart} {i : Fin harts} {out : Mem harts × Hart}
    (h : Inv dtestsSequence config) (hsafe : out.1.rounds.Safe)
    (hothers : ∀ j, j ≠ i → out.1.rounds.entered j = config.mem.rounds.entered j ∧
      out.1.rounds.left j = config.mem.rounds.left j)
    (hnumRuns : if i.val = 0 then out.1.numRuns + stores out.2 = entries dtestsSequence
      else out.1.numRuns = config.mem.numRuns)
    (hown : HartOk dtestsSequence i out.1 out.2) : Inv dtestsSequence (config.set i out) where
  safe := hsafe
  numRuns := by
    intro j hj
    by_cases hji : j = i
    · subst hji
      rw [if_pos hj] at hnumRuns
      rwa [Config.set_locals_self]
    · have hi : i.val ≠ 0 := fun hi => hji (Fin.ext (hj.trans hi.symm))
      rw [if_neg hi] at hnumRuns
      rw [Config.set_locals_ne _ hji, Config.set_mem, hnumRuns]
      exact h.numRuns j hj
  hartOk := by
    intro j
    by_cases hji : j = i
    · subst hji
      rwa [Config.set_locals_self]
    · rw [Config.set_locals_ne _ hji]
      exact (h.hartOk j).frame (hothers j hji).1 (hothers j hji).2

/-- The same for a move that leaves `num_runs` and the count of its stores alone. -/
theorem Inv.set_same {config : Config (Fin harts) (Mem harts) Hart} {i : Fin harts}
    {out : Mem harts × Hart} (h : Inv dtestsSequence config) (hsafe : out.1.rounds.Safe)
    (hothers : ∀ j, j ≠ i → out.1.rounds.entered j = config.mem.rounds.entered j ∧
      out.1.rounds.left j = config.mem.rounds.left j)
    (hnumRuns : out.1.numRuns = config.mem.numRuns) (hstores : stores out.2 = stores (config.locals i))
    (hown : HartOk dtestsSequence i out.1 out.2) : Inv dtestsSequence (config.set i out) := by
  refine h.set hsafe hothers ?_ hown
  split_ifs with hi
  · rw [hnumRuns, hstores]
    exact h.numRuns i hi
  · exact hnumRuns

/-- A hart in front of the load finds the value of its own round: hart 0 has stored exactly the values of
the rounds before, whatever it does at the moment. -/
theorem Inv.numRuns_eq {config : Config (Fin harts) (Mem harts) Hart} {i : Fin harts}
    (h : Inv dtestsSequence config) (hpc : (config.locals i).pc = .loadNumRuns) :
    config.mem.numRuns + (config.locals i).loads.length = entries dtestsSequence := by
  let first : Fin harts := ⟨0, i.pos⟩
  have hstores := h.numRuns first rfl
  have hbehind := h.safe i first
  have hahead := h.safe first i
  have hplace := (h.hartOk i).place
  have hplace0 := (h.hartOk first).place
  have hbound := (h.hartOk i).bound
  have hbound0 := (h.hartOk first).bound
  simp only [Place, hpc] at hplace
  rw [hpc] at hbound
  unfold stores at hstores
  unfold Place at hplace0
  cases hpc0 : (config.locals first).pc with
  | callBarrier site => cases site <;> simp only [hpc0] at hplace0 hstores hbound0 <;> omega
  | inBarrier site => cases site <;> simp only [hpc0] at hplace0 hstores hbound0 <;> omega
  | _ =>
      simp only [hpc0] at hplace0 hstores hbound0
      omega

/-- A recorded list stays a prefix when its next element is added. -/
theorem concat_eq_take {α : Type} {recorded full : List α} {x : α}
    (h : recorded = full.take recorded.length) (hx : full[recorded.length]? = some x) :
    recorded ++ [x] = full.take (recorded ++ [x]).length := by
  rw [List.length_append, List.length_singleton, List.take_add_one, ← h, hx]
  rfl

section Step
variable {config : Config (Fin harts) (Mem harts) Hart} {i : Fin harts} {out : Mem harts × Hart}

theorem Inv.step_callBarrier (h : Inv dtestsSequence config) {site : Site}
    (hpc : (config.locals i).pc = .callBarrier site)
    (hout : program dtestsSequence i config.mem (config.locals i) = some out) :
    Inv dtestsSequence (config.set i out) := by
  have hok := h.hartOk i
  have hplace := hok.place
  simp only [program, hpc] at hout
  obtain rfl := Option.some.inj hout
  refine h.set_same (h.safe.enter i) (fun j hji => ⟨Rounds.enter_entered_ne _ hji, rfl⟩) rfl ?_ ?_
  · cases site <;> simp only [stores, hpc]
  · refine ⟨hok.loads, hok.jumps, ?_, ?_⟩
    · simpa [hpc] using hok.bound
    · cases site <;> simp only [Place, hpc, Rounds.enter_entered_self, Rounds.enter_left] at hplace ⊢ <;>
        grind

theorem Inv.step_inBarrier (h : Inv dtestsSequence config) {site : Site}
    (hpc : (config.locals i).pc = .inBarrier site)
    (hout : program dtestsSequence i config.mem (config.locals i) = some out) :
    Inv dtestsSequence (config.set i out) := by
  have hok := h.hartOk i
  have hplace := hok.place
  simp only [program, hpc] at hout
  split_ifs at hout with hleave
  obtain rfl := Option.some.inj hout
  have hinside : config.mem.rounds.entered i = config.mem.rounds.left i + 1 := by
    cases site <;> simp only [Place, hpc] at hplace <;> omega
  refine h.set (h.safe.leave hinside hleave) (fun j hji => ⟨rfl, Rounds.leave_left_ne _ hji⟩) ?_ ?_
  · split_ifs with hi
    · have hnumRuns := h.numRuns i hi
      cases site <;> simp only [stores, hpc, afterBarrier, hi, ne_eq, not_true_eq_false, if_false] at hnumRuns ⊢ <;>
        exact hnumRuns
    · rfl
  · refine ⟨hok.loads, hok.jumps, ?_, ?_⟩
    · have hbound := hok.bound
      rw [hpc] at hbound
      exact Or.inl (hbound.resolve_right (by simp))
    · cases site with
      | init =>
          simp only [Place, hpc, afterBarrier, Rounds.leave_left_self, Rounds.leave_entered] at hplace ⊢
          omega
      | execute =>
          simp only [Place, hpc, afterBarrier, Rounds.leave_left_self, Rounds.leave_entered] at hplace ⊢
          grind
      | dispatch =>
          simp only [Place, hpc, Rounds.leave_left_self, Rounds.leave_entered] at hplace ⊢
          by_cases hi : i.val = 0 <;> simp only [afterBarrier, hi, ne_eq, not_true_eq_false,
            not_false_eq_true, if_true, if_false, true_and] <;> omega

theorem Inv.step_loadTestSetup (h : Inv dtestsSequence config)
    (hpc : (config.locals i).pc = .loadTestSetup)
    (hout : program dtestsSequence i config.mem (config.locals i) = some out) :
    Inv dtestsSequence (config.set i out) := by
  have hok := h.hartOk i
  have hplace := hok.place
  simp only [program, hpc] at hout
  obtain rfl := Option.some.inj hout
  refine h.set_same h.safe (fun _ _ => ⟨rfl, rfl⟩) rfl (by simp only [stores, hpc]) ?_
  refine ⟨hok.loads, hok.jumps, by simpa [hpc] using hok.bound, ?_⟩
  simp only [Place, hpc] at hplace ⊢
  obtain ⟨hentered, hleft, hloads, hjumps⟩ := hplace
  rw [hloads, hjumps, hentered, hleft]
  exact ⟨rfl, rfl, rfl, schedule_zero⟩

theorem Inv.step_jumpTest (h : Inv dtestsSequence config) (hpc : (config.locals i).pc = .jumpTest)
    (hout : program dtestsSequence i config.mem (config.locals i) = some out) :
    Inv dtestsSequence (config.set i out) := by
  have hok := h.hartOk i
  have hplace := hok.place
  simp only [program, hpc] at hout
  obtain rfl := Option.some.inj hout
  simp only [Place, hpc] at hplace
  obtain ⟨hentered, hleft, hjumps, hentry⟩ := hplace
  refine h.set_same h.safe (fun _ _ => ⟨rfl, rfl⟩) rfl (by simp only [stores, hpc]) ?_
  refine ⟨hok.loads, concat_eq_take hok.jumps (hjumps ▸ hentry), by simpa [hpc] using hok.bound, ?_⟩
  simp only [Place, List.length_append, List.length_singleton]
  exact ⟨hentered, hleft, by omega⟩

theorem Inv.step_runTest (h : Inv dtestsSequence config) (hpc : (config.locals i).pc = .runTest)
    (hout : program dtestsSequence i config.mem (config.locals i) = some out) :
    Inv dtestsSequence (config.set i out) := by
  have hok := h.hartOk i
  have hplace := hok.place
  simp only [program, hpc] at hout
  obtain rfl := Option.some.inj hout
  refine h.set_same h.safe (fun _ _ => ⟨rfl, rfl⟩) rfl (by simp only [stores, hpc]) ?_
  refine ⟨hok.loads, hok.jumps, by simpa [hpc] using hok.bound, ?_⟩
  simp only [Place, hpc] at hplace ⊢
  exact hplace

/-- The load: the value is the one of the round, and only the last one is zero. -/
theorem Inv.step_loadNumRuns (h : Inv dtestsSequence config) (hpc : (config.locals i).pc = .loadNumRuns)
    (hout : program dtestsSequence i config.mem (config.locals i) = some out) :
    Inv dtestsSequence (config.set i out) := by
  have hok := h.hartOk i
  have hplace := hok.place
  have hvalue := h.numRuns_eq hpc
  have hnext : (countdown dtestsSequence)[(config.locals i).loads.length]? = some config.mem.numRuns := by
    rw [countdown_getElem? (by omega), ← hvalue, Nat.add_sub_cancel]
  have hloads := concat_eq_take hok.loads hnext
  simp only [Place, hpc] at hplace
  simp only [program, hpc] at hout
  split_ifs at hout with hzero
  · obtain rfl := Option.some.inj hout
    refine h.set_same h.safe (fun _ _ => ⟨rfl, rfl⟩) rfl ?_ ⟨hloads, hok.jumps, Or.inr rfl, ?_⟩
    · simp only [stores, hpc, List.length_append, List.length_singleton, Nat.add_sub_cancel]
    · simp only [Place, List.length_append, List.length_singleton]
      omega
  · obtain rfl := Option.some.inj hout
    refine h.set_same h.safe (fun _ _ => ⟨rfl, rfl⟩) rfl ?_ ⟨hloads, hok.jumps, Or.inl ?_, ?_⟩
    · simp only [stores, hpc, List.length_append, List.length_singleton, Nat.add_sub_cancel]
    · simp only [List.length_append, List.length_singleton]
      omega
    · simp only [Place, List.length_append, List.length_singleton]
      omega

/-- Only hart 0 gets to the store, and it stores the value of the next round. -/
theorem Inv.step_storeNumRuns (h : Inv dtestsSequence config)
    (hpc : (config.locals i).pc = .storeNumRuns)
    (hout : program dtestsSequence i config.mem (config.locals i) = some out) :
    Inv dtestsSequence (config.set i out) := by
  have hok := h.hartOk i
  have hplace := hok.place
  simp only [Place, hpc] at hplace
  obtain ⟨hfirst, hplace⟩ := hplace
  simp only [program, hpc] at hout
  obtain rfl := Option.some.inj hout
  refine h.set h.safe (fun _ _ => ⟨rfl, rfl⟩) ?_ ?_
  · rw [if_pos hfirst]
    simp only [stores]
    omega
  · refine ⟨hok.loads, hok.jumps, by simpa [hpc] using hok.bound, ?_⟩
    simp only [Place]
    exact hplace

theorem Inv.step_loadTestAddr (h : Inv dtestsSequence config)
    (hpc : (config.locals i).pc = .loadTestAddr)
    (hout : program dtestsSequence i config.mem (config.locals i) = some out) :
    Inv dtestsSequence (config.set i out) := by
  have hok := h.hartOk i
  have hplace := hok.place
  simp only [Place, hpc] at hplace
  obtain ⟨hpos, hentered, hleft, hjumps, hs10⟩ := hplace
  simp only [program, hpc] at hout
  obtain ⟨label, hlabel, rfl⟩ := Option.map_eq_some_iff.mp hout
  refine h.set_same h.safe (fun _ _ => ⟨rfl, rfl⟩) rfl (by simp only [stores, hpc]) ?_
  refine ⟨hok.loads, hok.jumps, by simpa [hpc] using hok.bound, ?_⟩
  simp only [Place]
  exact ⟨hentered, hleft, hjumps, schedule_getElem? hlabel (by omega)⟩

/-- One step of any hart keeps the invariant. -/
theorem Inv.step (h : Inv dtestsSequence config)
    (hout : program dtestsSequence i config.mem (config.locals i) = some out) :
    Inv dtestsSequence (config.set i out) := by
  cases hpc : (config.locals i).pc with
  | callBarrier site => exact h.step_callBarrier hpc hout
  | inBarrier site => exact h.step_inBarrier hpc hout
  | loadTestSetup => exact h.step_loadTestSetup hpc hout
  | jumpTest => exact h.step_jumpTest hpc hout
  | runTest => exact h.step_runTest hpc hout
  | loadNumRuns => exact h.step_loadNumRuns hpc hout
  | storeNumRuns => exact h.step_storeNumRuns hpc hout
  | loadTestAddr => exact h.step_loadTestAddr hpc hout
  | finished => simp [program, hpc] at hout

end Step

theorem inv_start : Inv dtestsSequence (start dtestsSequence : Config (Fin harts) (Mem harts) Hart) where
  safe := Rounds.safe_start
  numRuns := fun _ _ => rfl
  hartOk := fun _ => ⟨rfl, rfl, Or.inl (Nat.zero_le _), ⟨rfl, rfl, rfl, rfl⟩⟩

theorem Reachable.inv {config : Config (Fin harts) (Mem harts) Hart}
    (h : Reachable (program dtestsSequence) (start dtestsSequence) config) : Inv dtestsSequence config :=
  h.invariant inv_start fun _ _ _ hinv hout => hinv.step hout

/-! ### Agreement -/

/-- What the harts agree on. -/
structure Agreement (dtestsSequence : List String) (config : Config (Fin harts) (Mem harts) Hart) :
    Prop where
  loads : ∀ i, (config.locals i).loads <+: countdown dtestsSequence
  jumps : ∀ i, (config.locals i).jumps <+: schedule dtestsSequence
  sameValue : ∀ i j (r value value' : ℕ), (config.locals i).loads[r]? = some value →
    (config.locals j).loads[r]? = some value' → value = value'
  sameTest : ∀ i j (r : ℕ) (test test' : Option ℕ × String), (config.locals i).jumps[r]? = some test →
    (config.locals j).jumps[r]? = some test' → test = test'
  finished : ∀ i, (config.locals i).pc = .finished →
    (config.locals i).loads = countdown dtestsSequence ∧
      (config.locals i).jumps = schedule dtestsSequence

theorem getElem?_of_isPrefixOf {α : Type} {recorded full : List α} {r : ℕ} {x : α} (h : recorded <+: full)
    (hx : recorded[r]? = some x) : full[r]? = some x := by
  obtain ⟨rest, rfl⟩ := h
  rw [List.getElem?_append_left (List.getElem?_eq_some_iff.mp hx).1, hx]

theorem Inv.agreement {config : Config (Fin harts) (Mem harts) Hart} (h : Inv dtestsSequence config) :
    Agreement dtestsSequence config := by
  have hloads : ∀ i, (config.locals i).loads <+: countdown dtestsSequence :=
    fun i => (h.hartOk i).loads ▸ List.take_prefix _ _
  have hjumps : ∀ i, (config.locals i).jumps <+: schedule dtestsSequence :=
    fun i => (h.hartOk i).jumps ▸ List.take_prefix _ _
  refine ⟨hloads, hjumps, ?_, ?_, ?_⟩
  · intro i j r value value' hi hj
    have hi' := getElem?_of_isPrefixOf (hloads i) hi
    exact Option.some.inj (hi'.symm.trans (getElem?_of_isPrefixOf (hloads j) hj))
  · intro i j r test test' hi hj
    have hi' := getElem?_of_isPrefixOf (hjumps i) hi
    exact Option.some.inj (hi'.symm.trans (getElem?_of_isPrefixOf (hjumps j) hj))
  · intro i hpc
    have hplace := (h.hartOk i).place
    simp only [Place, hpc] at hplace
    obtain ⟨hlength, -, -, hjumped⟩ := hplace
    refine ⟨(hloads i).eq_of_length ?_, (hjumps i).eq_of_length ?_⟩
    · rw [hlength, length_countdown]
    · rw [hjumped, hlength, length_schedule]

/-- A hart that cannot move has finished or waits for the others. -/
theorem Inv.parked {config : Config (Fin harts) (Mem harts) Hart} (h : Inv dtestsSequence config)
    {i : Fin harts} (hstuck : config.step (program dtestsSequence) i = none) :
    (config.locals i).pc = .finished ∨
      ((∃ site, (config.locals i).pc = .inBarrier site) ∧ ¬config.mem.rounds.MayLeave i) := by
  have hplace := (h.hartOk i).place
  rw [Config.step_eq_none] at hstuck
  cases hpc : (config.locals i).pc with
  | finished => exact Or.inl rfl
  | inBarrier site =>
      refine Or.inr ⟨⟨site, rfl⟩, fun hleave => ?_⟩
      simp [program, hpc, hleave] at hstuck
  | loadTestAddr =>
      simp only [Place, hpc] at hplace
      simp only [program, hpc, Option.map_eq_none_iff, List.getElem?_eq_none_iff] at hstuck
      change entries dtestsSequence ≤ _ at hstuck
      omega
  | loadNumRuns =>
      simp only [program, hpc] at hstuck
      split_ifs at hstuck
  | _ => simp [program, hpc] at hstuck

/-- Where nothing can move, every hart has finished: among the harts that have entered the barrier least
often, one that waits could leave. -/
theorem Inv.finished_of_stuck {config : Config (Fin harts) (Mem harts) Hart}
    (h : Inv dtestsSequence config) (hstuck : ∀ i, config.step (program dtestsSequence) i = none)
    (i : Fin harts) : (config.locals i).pc = .finished := by
  have hnonempty : Nonempty (Fin harts) := ⟨i⟩
  obtain ⟨least, hleast⟩ := Finite.exists_min config.mem.rounds.entered
  have hdone : (config.locals least).pc = .finished := by
    rcases h.parked (hstuck least) with hdone | ⟨-, hstay⟩
    · exact hdone
    · exact absurd hleast hstay
  rcases h.parked (hstuck i) with hi | ⟨⟨site, hi⟩, hstay⟩
  · exact hi
  · refine absurd (fun j => ?_) hstay
    have hplace := (h.hartOk i).place
    have hplace' := (h.hartOk least).place
    have hbound := (h.hartOk i).bound
    have hj := hleast j
    simp only [Place, hdone] at hplace'
    cases site <;> simp only [Place, hi, reduceCtorEq, or_false] at hplace hbound <;> omega

/-- How far a hart has come. -/
def progress (hart : Hart) : ℕ :=
  9 * hart.loads.length +
    match hart.pc with
    | .callBarrier .init | .callBarrier .dispatch | .finished => 0
    | .inBarrier .init | .inBarrier .dispatch => 1
    | .loadTestSetup | .storeNumRuns => 2
    | .loadTestAddr => 3
    | .callBarrier .execute => 4
    | .inBarrier .execute => 5
    | .jumpTest => 6
    | .runTest => 7
    | .loadNumRuns => 8

theorem progress_lt {i : Fin harts} {mem : Mem harts} {hart : Hart} {out : Mem harts × Hart}
    (hout : program dtestsSequence i mem hart = some out) : progress hart < progress out.2 := by
  cases hpc : hart.pc with
  | callBarrier site =>
      simp only [program, hpc] at hout
      obtain rfl := Option.some.inj hout
      cases site <;> simp [progress, hpc]
  | inBarrier site =>
      simp only [program, hpc] at hout
      split_ifs at hout
      obtain rfl := Option.some.inj hout
      cases site with
      | init => simp [progress, hpc, afterBarrier]
      | dispatch =>
          simp only [progress, hpc, afterBarrier]
          split_ifs <;> simp
      | execute => simp [progress, hpc, afterBarrier]
  | loadTestAddr =>
      simp only [program, hpc] at hout
      obtain ⟨label, -, rfl⟩ := Option.map_eq_some_iff.mp hout
      simp [progress, hpc]
  | loadNumRuns =>
      simp only [program, hpc] at hout
      split_ifs at hout <;> obtain rfl := Option.some.inj hout <;> simp [progress, hpc] <;> omega
  | finished => simp [program, hpc] at hout
  | _ =>
      simp only [program, hpc] at hout
      obtain rfl := Option.some.inj hout
      simp [progress, hpc]

theorem Inv.progress_le {config : Config (Fin harts) (Mem harts) Hart} (h : Inv dtestsSequence config)
    (i : Fin harts) : progress (config.locals i) ≤ 9 * entries dtestsSequence + 9 := by
  have hbound := (h.hartOk i).bound
  have hplace := (h.hartOk i).place
  unfold progress
  unfold Place at hplace
  cases hpc : (config.locals i).pc with
  | finished =>
      simp only [hpc] at hplace ⊢
      omega
  | callBarrier site => cases site <;> simp only [hpc, reduceCtorEq, or_false] at hbound ⊢ <;> omega
  | inBarrier site => cases site <;> simp only [hpc, reduceCtorEq, or_false] at hbound ⊢ <;> omega
  | _ =>
      simp only [hpc, reduceCtorEq, or_false] at hbound ⊢
      omega

/-- The harts agree in every state of every run; no run goes on for ever, and where it ends every hart
has finished. -/
theorem simultaneous_agreement (dtestsSequence : List String) (harts : ℕ) :
    (∀ config : Config (Fin harts) (Mem harts) Hart,
      Reachable (program dtestsSequence) (start dtestsSequence) config →
        Agreement dtestsSequence config ∧
        ((∀ i, config.step (program dtestsSequence) i = none) → ∀ i, (config.locals i).pc = .finished)) ∧
    ∀ run : ℕ → Config (Fin harts) (Mem harts) Hart,
      ¬IsRun (program dtestsSequence) (start dtestsSequence) run := by
  refine ⟨fun config h => ⟨(Reachable.inv h).agreement, (Reachable.inv h).finished_of_stuck⟩, ?_⟩
  intro run hrun
  let steps := harts * (9 * entries dtestsSequence + 9) + 1
  have hlong := hrun.le_total (fun _ _ _ _ => progress_lt) steps
  have hshort := total_le (Reachable.inv (hrun.reachable steps)).progress_le
  rw [Fintype.card_fin] at hshort
  omega

end Riescue.Simultaneous
