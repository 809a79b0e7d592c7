import Riescue.SectionsLaidOut

/-! The sections that are only contiguous under a condition: the selfcheck data, the test execution data and the
code. -/

namespace Riescue.Sections
open Addrgen Paging OrderedDict Fallible

variable {cfg : SectionConfig}
variable {layout layout' : Layout} {lin phys lin' phys' : ℕ}

/-! ### Canonical addresses -/

theorem canonicalizeLinAddr_cases (hpaging : cfg.pagingMode ≠ .disable) {orig : ℕ}
    (h : orig < 2 ^ cfg.pagingMode.linearAddrBits) :
    (cfg.canonicalizeLinAddr orig = orig ∧ orig < 2 ^ (cfg.pagingMode.linearAddrBits - 1)) ∨
      cfg.canonicalizeLinAddr orig = orig + (2 ^ 64 - 2 ^ cfg.pagingMode.linearAddrBits) ∧
        2 ^ (cfg.pagingMode.linearAddrBits - 1) ≤ orig := by
  generalize hn : cfg.pagingMode.linearAddrBits = n at h ⊢
  have hbits : 1 ≤ n ∧ n ≤ 57 := by
    subst hn
    cases cfg.pagingMode <;> decide
  obtain ⟨k, rfl⟩ : ∃ k, n = k + 1 := ⟨n - 1, by omega⟩
  have hbit : bitn orig k = orig / 2 ^ k := by
    have hlt : orig / 2 ^ k < 2 := Nat.div_lt_of_lt_mul (by rw [← pow_succ]; exact h)
    rw [bitn, Nat.and_one_is_mod, Nat.shiftRight_eq_div_pow, Nat.mod_eq_of_lt hlt]
  unfold SectionConfig.canonicalizeLinAddr
  dsimp only
  rw [if_neg hpaging, hn, Nat.add_sub_cancel, hbit]
  by_cases hlow : orig < 2 ^ k
  · left
    rw [Nat.div_eq_of_lt hlow]
    exact ⟨rfl, hlow⟩
  · right
    have hone : orig / 2 ^ k = 1 := by
      refine Nat.div_eq_of_lt_le ?_ ?_
      · omega
      · rw [pow_succ] at h
        omega
    refine ⟨?_, by omega⟩
    have hmask : (2 ^ (64 - (k + 1)) - 1) <<< (k + 1) = 2 ^ 64 - 2 ^ (k + 1) := by
      rw [Nat.shiftLeft_eq, Nat.sub_mul, one_mul, ← pow_add, Nat.sub_add_cancel (by omega)]
    rw [if_pos hone, Nat.lor_comm, ← Nat.shiftLeft_add_eq_or_of_lt h, hmask, Nat.add_comm]

/-- One page behind a canonical address is the canonical address of no page but the next one. -/
theorem canonicalizeLinAddr_next (hpaging : cfg.pagingMode ≠ .disable) {orig next : ℕ}
    (horig : orig + 0x2000 ≤ 2 ^ cfg.pagingMode.linearAddrBits)
    (hnext : next + 0x1000 ≤ 2 ^ cfg.pagingMode.linearAddrBits)
    (h : cfg.canonicalizeLinAddr next = cfg.canonicalizeLinAddr orig + 0x1000) : next = orig + 0x1000 := by
  have hsmall : 2 ^ (cfg.pagingMode.linearAddrBits - 1) + 0x1000 < 2 ^ 64 - 2 ^ cfg.pagingMode.linearAddrBits := by
    cases hmode : cfg.pagingMode with
    | disable => exact absurd hmode hpaging
    | _ => decide
  have horigTop : orig < 2 ^ cfg.pagingMode.linearAddrBits := by omega
  have hnextTop : next < 2 ^ cfg.pagingMode.linearAddrBits := by omega
  rcases canonicalizeLinAddr_cases hpaging horigTop with ⟨horig', hlow⟩ | ⟨horig', hhigh⟩ <;>
    rcases canonicalizeLinAddr_cases hpaging hnextTop with ⟨hnext', hlow'⟩ | ⟨hnext', hhigh'⟩ <;>
    omega

theorem addPages_larger {fromReturned : Bool} {call : ℕ → ℕ → ℕ → SectionCall} {count i : ℕ}
    (htraced : AddrGen.Traced layout.gen)
    (h : addPages cfg fromReturned call count i lin phys layout = .ok (lin', phys', layout')) :
    Larger layout layout' := by
  induction count generalizing i lin phys layout with
  | zero =>
      obtain rfl := (Prod.mk.inj (Prod.mk.inj (Except.ok.inj h)).2).2
      exact .refl layout
  | succ count ih =>
      rw [addPages] at h
      obtain ⟨⟨lin₁, phys₁, middle⟩, hfirst, h⟩ := bind_ok h
      have hlarger := addSectionHandler_larger htraced hfirst
      dsimp only at h
      split_ifs at h
      all_goals exact hlarger.trans (ih (hlarger.traced htraced) h)

theorem noPaging_of_ne (hpaging : cfg.pagingMode ≠ .disable) : cfg.noPaging = false := by
  simp [SectionConfig.noPaging, hpaging]

theorem identityMaps_of_ne {call : SectionCall} (hpaging : cfg.pagingMode ≠ .disable)
    (hidentity : call.identityMap = false) : cfg.identityMaps call = false := by
  simp [SectionConfig.identityMaps, hpaging, hidentity]

theorem skips_of_ne {call : SectionCall} (hpaging : cfg.pagingMode ≠ .disable) (hskip : call.skipPageMap = false) :
    cfg.skips call = false := by
  rw [SectionConfig.skips, hskip, noPaging_of_ne hpaging]
  rfl

/-- A group of one page. -/
theorem laidOut_single {group : PageGroup} (hcount : group.count = 1)
    (hfirst : PageAt cfg layout group.mapped (group.name 0) (group.physName 0) lin phys)
    (hsame : group.mapped = false → lin = phys) : LaidOut cfg layout group := by
  refine (laidOut_iff hfirst.registered).mpr ⟨hsame, fun i hi => ?_⟩
  obtain rfl : i = 0 := by omega
  exact hfirst

/-! ### The selfcheck data -/

/-- A mapped section whose block is placed freely: the two addresses are generated one after the other. -/
theorem addSectionHandler_free {call : SectionCall} (htraced : AddrGen.Traced layout.gen)
    (hpaging : cfg.pagingMode ≠ .disable) (hstart : call.startAddr = none) (hstartLin : call.startLinAddr = none)
    (hidentity : call.identityMap = false) (hskip : call.skipPageMap = false)
    (h : addSectionHandler cfg call layout = .ok (lin, phys, layout')) :
    ∃ before orig after, layout.generate (cfg.physAddrConstraint call.size false) = .ok (phys, before) ∧
      before.generate (cfg.linAddrConstraint call.size) = .ok (orig, after) ∧ lin = cfg.canonicalizeLinAddr orig ∧
      orig + call.size ≤ 2 ^ cfg.pagingMode.linearAddrBits ∧
      Adds layout layout' (Within orig call.size) (Within phys call.size) := by
  obtain ⟨placed, hplaced, hadds⟩ := addSectionHandler_ok h
  obtain ⟨hstartOf, hstartLinOf⟩ := @startOf_none cfg call hstart hstartLin
  obtain ⟨before, orig, hphysical, hlinear, hlin, hreserves, _⟩ := allocate_free htraced hstartOf hstartLinOf
    (identityMaps_of_ne hpaging hidentity) (skips_of_ne hpaging hskip) hplaced
  have htracedBefore := htraced.steps (generate_physAddr htraced hphysical).1.steps
  have htop : orig + call.size ≤ 2 ^ cfg.linAddrBits := (generate_linear htracedBefore rfl rfl hlinear).2.2.1
  have hbits : 2 ^ cfg.linAddrBits ≤ 2 ^ cfg.pagingMode.linearAddrBits :=
    Nat.pow_le_pow_right (by decide) (min_le_left _ _)
  exact ⟨before, orig, placed, hphysical, hlinear, hlin, htop.trans hbits, (hadds _ _ hreserves).1⟩

/-- A further page of the selfcheck data gets a linear address of its own, which is not the one behind the block. -/
theorem selfcheck_further (htraced : AddrGen.Traced layout.gen) (hpaging : cfg.pagingMode ≠ .disable)
    {orig count i alloc physAlloc : ℕ} (hcount : 1 < count)
    (htop : orig + 0x1000 * count ≤ 2 ^ cfg.pagingMode.linearAddrBits) (halloc : alloc = cfg.canonicalizeLinAddr orig + 0x1000)
    (htaken : ∀ b, Within orig (0x1000 * count) b → Allocated layout.gen.linearAddrSpace b)
    (h : addSectionHandler cfg (selfcheckCall i alloc physAlloc) layout = .ok (lin, phys, layout')) :
    lin ≠ alloc ∧ Registered layout' true (selfcheckCall i alloc physAlloc).name
      (selfcheckCall i alloc physAlloc).physAddrName lin phys := by
  obtain ⟨placed, hplaced, hadds⟩ := addSectionHandler_ok h
  have hidentity : cfg.identityMaps (selfcheckCall i alloc physAlloc) = false := identityMaps_of_ne hpaging rfl
  have hskips : cfg.skips (selfcheckCall i alloc physAlloc) = false := skips_of_ne hpaging rfl
  have hstart : cfg.startOf (selfcheckCall i alloc physAlloc) = some alloc := by
    rw [SectionConfig.startOf, hidentity]
    rfl
  have hstartLin : cfg.startLinOf (selfcheckCall i alloc physAlloc) = none := by
    rw [SectionConfig.startLinOf, hidentity]
    rfl
  obtain ⟨middle, next, hreserve, hgenerate, rfl, rfl, hreserves⟩ :=
    allocate_start_free htraced (Nat.succ_pos _) hstart hstartLin hidentity hskips hplaced
  have hregistered := (hadds _ _ hreserves).2
  rw [hskips] at hregistered
  have hmiddle := reserve_physical htraced (Nat.succ_pos _) hreserve
  obtain ⟨_, _, hnextTop, hfresh⟩ := generate_linear (htraced.steps hmiddle.steps) rfl rfl hgenerate
  refine ⟨fun heq => ?_, hregistered⟩
  have hbits : 2 ^ cfg.linAddrBits ≤ 2 ^ cfg.pagingMode.linearAddrBits :=
    Nat.pow_le_pow_right (by decide) (min_le_left _ _)
  have hnext : next = orig + 0x1000 :=
    canonicalizeLinAddr_next hpaging (by omega) (hnextTop.trans hbits) (heq.trans halloc)
  refine hfresh next ⟨le_rfl, Nat.lt_add_of_pos_right (Nat.succ_pos _)⟩ ((hmiddle.linear next).mpr (.inr (htaken next ?_)))
  unfold Within
  omega

/-- With paging, the selfcheck data is contiguous only as a single page. -/
theorem addSelfcheckData_laidOut_iff (htraced : AddrGen.Traced layout.gen) (hpaging : cfg.pagingMode ≠ .disable)
    (h : addSelfcheckData cfg layout = .ok layout') :
    LaidOut cfg layout' (selfcheckDataPages cfg) ↔ cfg.numSelfcheckPages ≤ 1 := by
  unfold addSelfcheckData addBlock at h
  obtain ⟨⟨lin', phys', last⟩, hblock, h⟩ := bind_ok h
  obtain rfl := Except.ok.inj h
  obtain ⟨⟨lin, phys, middle⟩, hfirst, hpages⟩ := bind_ok hblock
  have hpos : 0 < cfg.numSelfcheckPages * 0x1000 := free_pos htraced rfl rfl hfirst
  have hsize : 0x1000 ≤ cfg.numSelfcheckPages * 0x1000 := by omega
  have hmapped : (selfcheckDataPages cfg).mapped = true := by
    rw [selfcheckDataPages, noPaging_of_ne hpaging]
    rfl
  obtain ⟨⟨hpage, _⟩, _⟩ := firstPage_free htraced (fun _ => hsize) rfl rfl (plain_of_mapped rfl) hfirst
  constructor
  · intro hlaid
    by_contra hcount
    obtain ⟨_, orig, _, _, _, hlin, htop, hadds⟩ := addSectionHandler_free htraced hpaging rfl rfl rfl rfl hfirst
    obtain ⟨count, hsucc⟩ : ∃ count, cfg.numSelfcheckPages - 1 = count + 1 := ⟨cfg.numSelfcheckPages - 2, by omega⟩
    dsimp only at hpages
    rw [hsucc, addPages] at hpages
    obtain ⟨⟨lin₁, phys₁, middle₁⟩, hsecond, hpages⟩ := bind_ok hpages
    have htracedMiddle : AddrGen.Traced middle.gen := htraced.steps hadds.steps
    have htop' : orig + 0x1000 * cfg.numSelfcheckPages ≤ 2 ^ cfg.pagingMode.linearAddrBits := by
      rwa [Nat.mul_comm]
    have hmany : 1 < cfg.numSelfcheckPages := by omega
    obtain ⟨hne, hregistered⟩ := selfcheck_further htracedMiddle hpaging hmany htop' (by rw [hlin])
      (fun b hb => (hadds.linear b).mpr (.inl (by rwa [Nat.mul_comm] at hb))) hsecond
    have hsecondLarger := addSectionHandler_larger htracedMiddle hsecond
    have hlater := addPages_larger (hsecondLarger.traced htracedMiddle) hpages
    have hfirstLast := (hsecondLarger.trans hlater).registered hpage.registered
    have hthere := ((hlaid lin phys _ hfirstLast.linAddr hfirstLast.physAddr).2 1 hmany).registered.linAddr
    have hgot := (hlater.registered hregistered).linAddr
    exact hne (Prod.mk.inj (Option.some.inj (hgot.symm.trans hthere))).2
  · intro hcount
    have hone : cfg.numSelfcheckPages = 1 := by omega
    rw [hone] at hpages
    obtain ⟨rfl, hrest⟩ := Prod.mk.inj (Except.ok.inj hpages)
    obtain ⟨rfl, rfl⟩ := Prod.mk.inj hrest
    exact laidOut_single hone hpage fun h => absurd h (by rw [hmapped]; decide)

/-- Without paging, a section that gives only one address gets it as both of its addresses. -/
theorem addBlock_disabled {group : PageGroup} {first : SectionCall} {call : ℕ → ℕ → ℕ → SectionCall}
    (htraced : AddrGen.Traced layout.gen) (hdisable : cfg.pagingMode = .disable) (hstart : first.startAddr = none)
    (hstartLin : first.startLinAddr = none) (hsize : first.size = group.count * 0x1000)
    (hname : first.name = group.name 0) (hphysName : first.physAddrName = group.physName 0)
    (hmapped : (!cfg.skips first) = group.mapped) (hcalls : ∀ addr, CallsFor cfg group call addr addr)
    (h : addBlock cfg first call group.count layout = .ok (lin, phys, layout')) : LaidOut cfg layout' group := by
  have hpos : 0 < group.count * 0x1000 := hsize ▸ block_pos htraced hstart hstartLin h
  have hidentity : cfg.identityMaps first = true := identityMaps_of_disable hdisable
  obtain ⟨_, _, hlaid, _⟩ := addBlock_laidOut group htraced (by omega) h hname hphysName hmapped
    (placesFirst_free htraced (fun _ => by omega) hstart hstartLin (.inl hidentity))
    fun lin phys hsame => hsame (.inr hidentity) ▸ hcalls lin
  exact hlaid.laidOut

theorem addSelfcheckData_laidOut (htraced : AddrGen.Traced layout.gen) (hdisable : cfg.pagingMode = .disable)
    (h : addSelfcheckData cfg layout = .ok layout') : LaidOut cfg layout' (selfcheckDataPages cfg) := by
  unfold addSelfcheckData at h
  obtain ⟨⟨lin', phys', last⟩, hblock, h⟩ := bind_ok h
  obtain rfl := Except.ok.inj h
  have hcalls : ∀ addr, CallsFor cfg (selfcheckDataPages cfg) selfcheckCall addr addr := fun addr =>
    callsFor_single (fun _ _ _ _ => rfl) (fun _ hi _ _ => firstOrPhys_of_ne hi) (fun _ _ _ => rfl) (fun _ _ _ => rfl)
      (fun _ _ => rfl) (fun _ _ => rfl) (fun _ _ => .inr (identityMaps_of_disable hdisable)) rfl
  exact addBlock_disabled htraced hdisable rfl rfl rfl rfl rfl rfl hcalls hblock

/-! ### A block that is not reserved in the linear space -/

/-- A block without page tables that is placed freely: its linear addresses are left alone. -/
theorem addSectionHandler_loose {call : SectionCall} (htraced : AddrGen.Traced layout.gen)
    (hpaging : cfg.pagingMode ≠ .disable) (hstart : call.startAddr = none) (hstartLin : call.startLinAddr = none)
    (hidentity : call.identityMap = false) (hskip : call.skipPageMap = true)
    (h : addSectionHandler cfg call layout = .ok (lin, phys, layout')) :
    lin = phys ∧ (TakenBefore cfg call layout ↔ PlainReserved layout phys 0x1000) ∧
      Adds layout layout' (fun _ => False) (Within phys call.size) ∧
      Registered layout' false call.name call.physAddrName phys phys := by
  obtain ⟨placed, hplaced, hadds⟩ := addSectionHandler_ok h
  obtain ⟨hstartOf, hstartLinOf⟩ := @startOf_none cfg call hstart hstartLin
  have hskips : cfg.skips call = true := by
    rw [SectionConfig.skips, hskip]
    rfl
  obtain ⟨rfl, hphysical, hreserves, _⟩ :=
    allocate_free_skips htraced hstartOf hstartLinOf (identityMaps_of_ne hpaging hidentity) hskips hplaced
  obtain ⟨hadds, hregistered⟩ := hadds _ _ hreserves
  rw [hskips] at hregistered
  refine ⟨rfl, ⟨fun htaken => htaken _ _ hphysical, fun htaken phys placed' hgenerate => ?_⟩, hadds, hregistered⟩
  obtain ⟨rfl, _⟩ := Prod.mk.inj (Except.ok.inj (hphysical.symm.trans hgenerate))
  exact htaken

/-- Later pages are behind the block, so that its first page is as reserved as it was before. -/
theorem pageAt_loose_iff {middle : Layout} {name physName : String} {size : ℕ} (hsize : 0x1000 ≤ size)
    (hadds : Adds layout middle (fun _ => False) (Within phys size))
    (hregistered : Registered middle false name physName phys phys) (hlater : LargerFrom middle layout' (phys + 0x1000)) :
    PageAt cfg layout' false name physName phys phys ↔ PlainReserved layout phys 0x1000 := by
  obtain ⟨linear, physical, hlater, hbehind⟩ := hlater
  have hlinear : ∀ b, Within phys 0x1000 b →
      (Allocated layout'.gen.linearAddrSpace b ↔ Allocated layout.gen.linearAddrSpace b) := by
    intro b hb
    rw [hlater.linear, hadds.linear, false_or]
    refine or_iff_right fun h => ?_
    have hle := hbehind b h
    have hlt := hb.2
    omega
  constructor
  · exact fun hpage b hb => (hlinear b hb).mp (hpage.linear b hb)
  · intro htaken
    refine ⟨hlater.registered hregistered, fun b hb => ?_, fun b hb => (hlinear b hb).mpr (htaken b hb)⟩
    exact (hlater.physical b).mpr (.inr ((hadds.physical b).mpr (.inl (within_first hsize hb))))

/-- With all further pages in place, the first page decides. -/
theorem laidOut_iff_first {group : PageGroup} (hcount : group.count ≠ 0)
    (hfirst : Registered layout group.mapped (group.name 0) (group.physName 0) lin phys)
    (hsame : group.mapped = false → lin = phys)
    (hfurther : ∀ i, i ≠ 0 → i < group.count →
      PageAt cfg layout group.mapped (group.name i) (group.physName i) (lin + 0x1000 * i) (phys + 0x1000 * i)) :
    LaidOut cfg layout group ↔ PageAt cfg layout group.mapped (group.name 0) (group.physName 0) lin phys := by
  rw [laidOut_iff hfirst]
  refine ⟨fun h => h.2 0 (Nat.pos_of_ne_zero hcount), fun hpage => ⟨hsame, fun i hi => ?_⟩⟩
  rcases Nat.eq_zero_or_pos i with rfl | hpos
  · exact hpage
  · exact hfurther i hpos.ne' hi

/-! ### The test execution data -/

theorem testExecutionCalls (addr : ℕ) : CallsFor cfg (testExecutionDataPages cfg) testExecutionCall addr addr :=
  callsFor_single (fun _ _ _ _ => rfl) (fun _ hi _ _ => firstOrPhys_of_ne hi) (fun _ _ _ => rfl) (fun _ _ _ => rfl)
    (fun _ _ => rfl) (fun _ _ => rfl) (fun _ _ => .inl rfl) rfl

theorem addTestExecutionData_laidOut (htraced : AddrGen.Traced layout.gen) (hdisable : cfg.pagingMode = .disable)
    (h : addTestExecutionData cfg layout = .ok layout') : LaidOut cfg layout' (testExecutionDataPages cfg) := by
  unfold addTestExecutionData at h
  obtain ⟨⟨lin', phys', last⟩, hblock, h⟩ := bind_ok h
  obtain rfl := Except.ok.inj h
  exact addBlock_disabled htraced hdisable rfl rfl rfl rfl rfl rfl testExecutionCalls hblock

/-- With paging, the first page of the test execution data is reserved in the linear space only by chance. -/
theorem addTestExecutionData_laidOut_iff (htraced : AddrGen.Traced layout.gen) (hpaging : cfg.pagingMode ≠ .disable)
    (h : addTestExecutionData cfg layout = .ok layout') :
    LaidOut cfg layout' (testExecutionDataPages cfg) ↔ TakenBefore cfg (testExecutionFirst cfg) layout := by
  unfold addTestExecutionData addBlock at h
  obtain ⟨⟨lin', phys', last⟩, hblock, h⟩ := bind_ok h
  obtain rfl := Except.ok.inj h
  obtain ⟨⟨lin, phys, middle⟩, hfirst, hpages⟩ := bind_ok hblock
  have hpos : 0 < cfg.numTestExecutionPages * 0x1000 := free_pos htraced rfl rfl hfirst
  have hcount : cfg.numTestExecutionPages ≠ 0 := by omega
  have hsize : 0x1000 ≤ (testExecutionFirst cfg).size := by
    show 0x1000 ≤ cfg.numTestExecutionPages * 0x1000
    omega
  obtain ⟨rfl, htaken, hadds, hregistered⟩ := addSectionHandler_loose htraced hpaging rfl rfl rfl rfl hfirst
  obtain ⟨_, _, hbehind, hfurther⟩ :=
    addPages_further (htraced.steps hadds.steps) hcount (testExecutionCalls lin) hpages
  rw [htaken, laidOut_iff_first hcount (hbehind.registered hregistered) (fun _ => rfl) hfurther]
  exact pageAt_loose_iff hsize hadds hregistered ⟨_, _, hbehind, fun b hb => hb.1⟩

/-! ### The code -/

/-- The layout gets larger behind the addresses, and both move on by the same number of bytes. -/
structure MovesOn (layout layout' : Layout) (lin phys lin' phys' : ℕ) : Prop where
  moved : ∃ bytes, lin' = lin + bytes ∧ phys' = phys + bytes
  larger : LargerFrom layout layout' lin

theorem MovesOn.trans {a b c : Layout} {lin₁ phys₁ lin₂ phys₂ lin₃ phys₃ : ℕ} (hab : MovesOn a b lin₁ phys₁ lin₂ phys₂)
    (hbc : MovesOn b c lin₂ phys₂ lin₃ phys₃) : MovesOn a c lin₁ phys₁ lin₃ phys₃ := by
  obtain ⟨⟨bytes, rfl, rfl⟩, hlarger⟩ := hab
  obtain ⟨⟨bytes', rfl, rfl⟩, hlarger'⟩ := hbc
  exact ⟨⟨bytes + bytes', Nat.add_assoc .., Nat.add_assoc ..⟩, hlarger.trans hlarger' (Nat.le_add_right _ _)⟩

theorem MovesOn.same_iff (h : MovesOn layout layout' lin phys lin' phys') : lin' = phys' ↔ lin = phys := by
  obtain ⟨bytes, rfl, rfl⟩ := h.moved
  exact Nat.add_right_cancel_iff

/-- A loop over pages that are given both addresses. -/
theorem addPages_given {fromReturned : Bool} {name physName : ℕ → String}
    {iscode alwaysSuper alwaysUser skipLinker skipPageMap : Bool} {count i : ℕ} (htraced : AddrGen.Traced layout.gen)
    (hsame : cfg.pagingMode = .disable → lin = phys)
    (h : addPages cfg fromReturned (pageCall name physName iscode alwaysSuper alwaysUser skipLinker skipPageMap) count i
      lin phys layout = .ok (lin', phys', layout')) :
    MovesOn layout layout' lin phys lin' phys' ∧ ∀ k < count, Registered layout' (!(skipPageMap || cfg.noPaging))
      (name (i + k)) (if physName (i + k) = "" then name (i + k) ++ "_phys" else physName (i + k))
      (lin + 0x1000 * k) (phys + 0x1000 * k) := by
  obtain ⟨hlin, hphys, hadds, hpages⟩ := addPages_spec htraced (fun _ _ _ => rfl)
    (fun k => putsPage_given (Nat.succ_pos _) rfl rfl rfl fun hdisable => by rw [hsame hdisable]) h
  exact ⟨⟨⟨_, hlin, hphys⟩, _, _, hadds, fun b hb => hb.1⟩, hpages⟩

/-- Pages with numbers. -/
theorem addNumbered_laidOut {name : String} {count : ℕ} {iscode alwaysSuper alwaysUser skipPageMap : Bool}
    (htraced : AddrGen.Traced layout.gen) (hcount : count ≠ 0)
    (hsame : skipPageMap = true ∨ cfg.noPaging = true → lin = phys) (hdisabled : cfg.pagingMode = .disable → lin = phys)
    (h : addPages cfg false (pageCall (fun i => name ++ toString i) (fun i => "__section_" ++ name ++ toString i) iscode
      alwaysSuper alwaysUser false skipPageMap) count 0 lin phys layout = .ok (lin', phys', layout')) :
    LaidOutAt cfg layout' (numberedPages name count (!(skipPageMap || cfg.noPaging))) lin phys ∧
      MovesOn layout layout' lin phys lin' phys' := by
  have hphysName : ∀ i : ℕ, "__section_" ++ name ++ toString i ≠ "" := by
    intro i
    rw [String.append_assoc]
    exact append_ne_empty _ (by decide)
  have hcalls : CallsFor cfg (numberedPages name count (!(skipPageMap || cfg.noPaging))) (pageCall
      (fun i => name ++ toString i) (fun i => "__section_" ++ name ++ toString i) iscode alwaysSuper alwaysUser false
      skipPageMap) lin phys :=
    callsFor_pageCall (fun _ _ => rfl) (fun i _ => if_neg (hphysName i)) rfl hdisabled
  have hunmapped : (!(skipPageMap || cfg.noPaging)) = false → lin = phys := by
    simpa only [Bool.not_eq_false', Bool.or_eq_true] using hsame
  obtain ⟨hlaid, hlin, hphys, hlarger⟩ := addPages_all (numberedPages name count (!(skipPageMap || cfg.noPaging)))
    htraced hcount (fun _ _ => rfl) (fun _ _ => by exact if_neg (hphysName 0)) hunmapped hcalls h
  exact ⟨hlaid, ⟨_, hlin, hphys⟩, hlarger⟩

theorem addText_laidOut (htraced : AddrGen.Traced layout.gen) (hsame : cfg.pagingMode = .disable → lin = phys)
    (h : addText cfg lin phys layout = .ok (lin', phys', layout')) :
    (cfg.cUsed = true → LaidOutAt cfg layout' (textPages cfg) lin phys) ∧
      MovesOn layout layout' lin phys lin' phys' := by
  unfold addText at h
  split_ifs at h with hused
  · have hcount : (textPages cfg).count ≠ 0 := by
      simp [textPages, SectionConfig.numCTextPages, hused]
    have hunmapped : (textPages cfg).mapped = false → lin = phys := fun h =>
      hsame (disable_of_noPaging ((Bool.not_eq_false' _).mp h))
    have hcalls : CallsFor cfg (textPages cfg) textCall lin phys :=
      callsFor_pageCall (fun _ _ => rfl) (fun i hi => by rw [if_neg hi, if_pos rfl]; exact firstOrPhys_of_ne hi) rfl hsame
    obtain ⟨⟨lin₁, phys₁, middle⟩, hfirst, h⟩ := bind_ok h
    have hputs : PutsPage cfg (textCall 0 lin phys) lin phys :=
      putsPage_given (Nat.succ_pos _) rfl rfl rfl hsame
    obtain ⟨hlaid, hlin, hphys, hlarger⟩ :=
      given_laidOut (textPages cfg) htraced hcount hputs le_rfl rfl rfl rfl hunmapped hcalls hfirst h
    exact ⟨fun _ => hlaid, ⟨_, hlin, hphys⟩, hlarger⟩
  · obtain ⟨rfl, hrest⟩ := Prod.mk.inj (Except.ok.inj h)
    obtain ⟨rfl, rfl⟩ := Prod.mk.inj hrest
    exact ⟨fun hyes => absurd hyes hused, ⟨0, rfl, rfl⟩, .refl _ _⟩

theorem codeSuperCall_eq : codeSuperCall = pageCall (fun i => "code_super_" ++ toString i)
    (fun i => "__section_" ++ "code_super_" ++ toString i) true true false false false := rfl

theorem codeUserCall_eq : codeUserCall = pageCall (fun i => "code_user_" ++ toString i)
    (fun i => "__section_" ++ "code_user_" ++ toString i) true false true false false := rfl

theorem codeMachineCall_eq : codeMachineCall = pageCall (fun i => "code_machine_" ++ toString i)
    (fun i => "__section_" ++ "code_machine_" ++ toString i) true false true false true := rfl

theorem numCodePages_ne_zero : cfg.numCodePages ≠ 0 := by
  unfold SectionConfig.numCodePages
  split_ifs <;> decide

/-- The further pages of the code section itself. -/
theorem codeCalls (hsame : codeSkipPageMap cfg = true ∨ cfg.pagingMode = .disable → lin = phys) :
    CallsFor cfg (codePages cfg) (codePageCall cfg) lin phys where
  name _ _ _ _ := rfl
  physName _ hi _ _ := firstOrPhys_of_ne hi
  skips _ _ _ := rfl
  size _ _ _ := rfl
  puts i k := by
    cases hmachine : codeSkipPageMap cfg with
    | true =>
        rw [hsame (.inl hmachine)]
        refine putsPage_single (Nat.succ_pos _) ?_ ?_ (.inl ?_)
        · simp [codePageCall, hmachine]
        · simp [codePageCall, hmachine]
        · simp [SectionConfig.skips, codePageCall, hmachine]
    | false =>
        refine putsPage_given (Nat.succ_pos _) ?_ ?_ rfl fun hdisable => by rw [hsame (.inr hdisable)]
        · simp [codePageCall, hmachine]
        · simp [codePageCall, hmachine]

/-- The pages behind the first page of the code: only those that are not mapped depend on the addresses. -/
theorem addCodePages_spec (htraced : AddrGen.Traced layout.gen)
    (hsame : codeSkipPageMap cfg = true ∨ cfg.pagingMode = .disable → lin = phys)
    (h : addCodePages cfg lin phys layout = .ok layout') :
    LargerFrom layout layout' (lin + 0x1000) ∧
      (∀ i, i ≠ 0 → i < (codePages cfg).count → PageAt cfg layout' (codePages cfg).mapped ((codePages cfg).name i)
        ((codePages cfg).physName i) (lin + 0x1000 * i) (phys + 0x1000 * i)) ∧
      (cfg.cUsed = true → LaidOut cfg layout' (textPages cfg)) ∧
      LaidOut cfg layout' (numberedPages "code_super_" numSuperCodePages (!cfg.noPaging)) ∧
      LaidOut cfg layout' (numberedPages "code_user_" numUserCodePages (!cfg.noPaging)) ∧
      (LaidOut cfg layout' (numberedPages "code_machine_" numMachineCodePages false) ↔ lin = phys) := by
  unfold addCodePages at h
  obtain ⟨⟨lin₁, phys₁, layout₁⟩, hcode, h⟩ := bind_ok h
  obtain ⟨⟨lin₂, phys₂, layout₂⟩, htext, h⟩ := bind_ok h
  obtain ⟨⟨lin₃, phys₃, layout₃⟩, hsuper, h⟩ := bind_ok h
  obtain ⟨⟨lin₄, phys₄, layout₄⟩, huser, h⟩ := bind_ok h
  obtain ⟨⟨lin₅, phys₅, layout₅⟩, hmachine, h⟩ := bind_ok h
  obtain ⟨⟨lin₆, phys₆, layout₆⟩, hcsrMachine, h⟩ := bind_ok h
  obtain ⟨⟨lin₇, phys₇, layout₇⟩, hcsrSuper, h⟩ := bind_ok h
  obtain rfl := Except.ok.inj h
  have hdisabled : cfg.pagingMode = .disable → lin = phys := fun hdisable => hsame (.inr hdisable)
  obtain ⟨hlin₁, hphys₁, hadds₁, hcodePages⟩ := addPages_further htraced numCodePages_ne_zero (codeCalls hsame) hcode
  have hmoves₁ : MovesOn layout layout₁ (lin + 0x1000) (phys + 0x1000) lin₁ phys₁ := by
    have hpos := Nat.pos_of_ne_zero (@numCodePages_ne_zero cfg)
    have hcount : (codePages cfg).count = cfg.numCodePages := rfl
    exact ⟨⟨0x1000 * (cfg.numCodePages - 1), by omega, by omega⟩, _, _, hadds₁, fun b hb => hb.1⟩
  have hsame₁ : cfg.pagingMode = .disable → lin₁ = phys₁ := fun hdisable =>
    hmoves₁.same_iff.mpr (by rw [hdisabled hdisable])
  have htraced₁ := htraced.steps hadds₁.steps
  obtain ⟨hlaidText, hmoves₂⟩ := addText_laidOut htraced₁ hsame₁ htext
  have hsame₂ := fun hdisable => hmoves₂.same_iff.mpr (hsame₁ hdisable)
  have htraced₂ := hmoves₂.larger.larger.traced htraced₁
  rw [codeSuperCall_eq] at hsuper
  obtain ⟨hlaidSuper, hmoves₃⟩ := addNumbered_laidOut htraced₂ (by decide : numSuperCodePages ≠ 0)
    (fun h => hsame₂ (disable_of_noPaging (h.resolve_left Bool.false_ne_true))) hsame₂ hsuper
  have hsame₃ := fun hdisable => hmoves₃.same_iff.mpr (hsame₂ hdisable)
  have htraced₃ := hmoves₃.larger.larger.traced htraced₂
  rw [codeUserCall_eq] at huser
  obtain ⟨hlaidUser, hmoves₄⟩ := addNumbered_laidOut htraced₃ (by decide : numUserCodePages ≠ 0)
    (fun h => hsame₃ (disable_of_noPaging (h.resolve_left Bool.false_ne_true))) hsame₃ huser
  have hsame₄ := fun hdisable => hmoves₄.same_iff.mpr (hsame₃ hdisable)
  have htraced₄ := hmoves₄.larger.larger.traced htraced₃
  rw [codeMachineCall_eq] at hmachine
  obtain ⟨hmoves₅, hmachinePages⟩ := addPages_given htraced₄ hsame₄ hmachine
  have hsame₅ := fun hdisable => hmoves₅.same_iff.mpr (hsame₄ hdisable)
  have htraced₅ := hmoves₅.larger.larger.traced htraced₄
  obtain ⟨hmoves₆, _⟩ := addPages_given htraced₅ hsame₅ hcsrMachine
  have hsame₆ := fun hdisable => hmoves₆.same_iff.mpr (hsame₅ hdisable)
  obtain ⟨hmoves₇, _⟩ := addPages_given (hmoves₆.larger.larger.traced htraced₅) hsame₆ hcsrSuper
  have hlater₅ := hmoves₆.trans hmoves₇
  have hlater₄ := hmoves₅.trans hlater₅
  have hlater₃ := hmoves₄.trans hlater₄
  have hlater₂ := hmoves₃.trans hlater₃
  have hlater₁ := hmoves₂.trans hlater₂
  have hbefore₄ : lin₄ = phys₄ ↔ lin = phys := by
    rw [(((hmoves₁.trans hmoves₂).trans hmoves₃).trans hmoves₄).same_iff, Nat.add_right_cancel_iff]
  obtain ⟨_, _, hlast₁⟩ := hlater₁.larger.larger
  refine ⟨(hmoves₁.trans hlater₁).larger, fun i hne hi => (hcodePages i hne hi).adds hlast₁,
    fun hused => ((hlaidText hused).larger hlater₂.larger.larger).laidOut,
    (hlaidSuper.larger hlater₃.larger.larger).laidOut, (hlaidUser.larger hlater₄.larger.larger).laidOut, ?_⟩
  rw [← hbefore₄]
  constructor
  · intro hlaid
    have hregistered := hlater₅.larger.larger.registered (hmachinePages 0 (by decide))
    exact ((laidOut_iff hregistered).mp hlaid).1 rfl
  · intro heq
    obtain ⟨hlaid, _⟩ := addNumbered_laidOut htraced₄ (by decide : numMachineCodePages ≠ 0) (fun _ => heq) hsame₄ hmachine
    exact (hlaid.larger hlater₅.larger.larger).laidOut

section Code
variable {runtimeEndAddr : ℕ}

theorem codeCall_size : (codeCall cfg runtimeEndAddr).size = (codeCall cfg 0).size := by
  unfold codeCall
  split_ifs <;> rfl

theorem codeCall_size_le : 0x1000 ≤ (codeCall cfg runtimeEndAddr).size := by
  have hpages : 1 ≤ cfg.numAllCodePages - numMachinePtePages := by
    unfold SectionConfig.numAllCodePages numMachinePtePages numSuperCodePages
    omega
  unfold codeCall
  split_ifs
  · exact Nat.le_mul_of_pos_right _ (Nat.succ_pos _)
  · exact Nat.le_mul_of_pos_right _ hpages
  · exact Nat.le_mul_of_pos_right _ hpages

theorem codeCall_skips : cfg.skips (codeCall cfg runtimeEndAddr) = (codeSkipPageMap cfg || cfg.noPaging) := by
  unfold codeCall
  split_ifs <;> rfl

theorem codeCall_names : (codeCall cfg runtimeEndAddr).name = (codePages cfg).name 0 ∧
    (codeCall cfg runtimeEndAddr).physAddrName = (codePages cfg).physName 0 := by
  unfold codeCall
  split_ifs <;> exact ⟨rfl, rfl⟩

/-- With paging, the block of the unmapped code section is placed at random and left unreserved in the linear space. -/
def LooseCode (cfg : SectionConfig) : Prop :=
  cfg.pagingMode ≠ .disable ∧ cfg.privMode = .machine ∧ cfg.wysiwyg = false ∧ cfg.randomizeCodeLocation = true

theorem codeCall_placed (htraced : AddrGen.Traced layout.gen) (hloose : ¬LooseCode cfg)
    (h : addSectionHandler cfg (codeCall cfg runtimeEndAddr) layout = .ok (lin, phys, layout')) :
    FirstPage cfg (codeCall cfg runtimeEndAddr) layout' lin phys ∧ Larger layout layout' := by
  refine ⟨?_, addSectionHandler_larger htraced h⟩
  have hsize := @codeCall_size_le cfg runtimeEndAddr
  have hskips := @codeCall_skips cfg runtimeEndAddr
  unfold codeCall at h hsize hskips ⊢
  by_cases hwysiwyg : cfg.wysiwyg = true
  · rw [if_pos hwysiwyg] at h hsize ⊢
    exact (firstPage_start htraced hsize rfl rfl h).1
  · rw [if_neg hwysiwyg] at h hsize hskips ⊢
    by_cases hrandomize : cfg.randomizeCodeLocation = true
    · rw [if_pos hrandomize] at h hsize hskips ⊢
      refine (firstPage_free htraced (fun _ => hsize) rfl rfl ?_ h).1
      by_cases hdisable : cfg.pagingMode = .disable
      · exact .inl (identityMaps_of_disable hdisable)
      · have hmachine : ¬cfg.privMode = .machine := fun hmachine =>
          hloose ⟨hdisable, hmachine, by simpa using hwysiwyg, hrandomize⟩
        right
        rw [hskips, noPaging_of_ne hdisable, codeSkipPageMap, decide_eq_false hmachine]
        rfl
    · rw [if_neg hrandomize] at h hsize ⊢
      exact (firstPage_startLin htraced hsize rfl rfl h).1

/-- The block of the page mapped code section has one address exactly when the condition says so. -/
theorem codeCall_agrees (htraced : AddrGen.Traced layout.gen) (hpaging : cfg.pagingMode ≠ .disable)
    (hmapped : codeSkipPageMap cfg = false) (hstart : codeStart cfg layout = .ok runtimeEndAddr)
    (h : addSectionHandler cfg (codeCall cfg runtimeEndAddr) layout = .ok (lin, phys, layout')) :
    CodeAgrees cfg layout ↔ lin = phys := by
  have hpos : 0 < (codeCall cfg runtimeEndAddr).size := Nat.lt_of_lt_of_le (by decide) codeCall_size_le
  have hskips : cfg.skips (codeCall cfg runtimeEndAddr) = false := by
    rw [codeCall_skips, hmapped, noPaging_of_ne hpaging]
    rfl
  obtain ⟨placed, hplaced, -⟩ := addSectionHandler_ok h
  unfold CodeAgrees
  dsimp only
  rw [← @codeCall_size cfg runtimeEndAddr]
  by_cases hwysiwyg : cfg.wysiwyg = true
  · have hidentity : cfg.identityMaps (codeCall cfg runtimeEndAddr) = false :=
      identityMaps_of_ne hpaging (by rw [codeCall, if_pos hwysiwyg])
    have hstartOf : cfg.startOf (codeCall cfg runtimeEndAddr) = some cfg.resetPc := by
      rw [SectionConfig.startOf, hidentity, codeCall, if_pos hwysiwyg]
      rfl
    have hstartLinOf : cfg.startLinOf (codeCall cfg runtimeEndAddr) = none := by
      rw [SectionConfig.startLinOf, hidentity, codeCall, if_pos hwysiwyg]
      rfl
    obtain ⟨middle, orig, hreserve, hgenerate, rfl, rfl, -⟩ :=
      allocate_start_free htraced hpos hstartOf hstartLinOf hidentity hskips hplaced
    rw [if_pos hwysiwyg]
    refine ⟨fun hagrees => hagrees _ _ _ hreserve hgenerate, fun heq middle' orig' placed' hreserve' hgenerate' => ?_⟩
    obtain rfl := Except.ok.inj (hreserve.symm.trans hreserve')
    obtain ⟨rfl, -⟩ := Prod.mk.inj (Except.ok.inj (hgenerate.symm.trans hgenerate'))
    exact heq
  · rw [if_neg hwysiwyg]
    by_cases hrandomize : cfg.randomizeCodeLocation = true
    · have hfree : (codeCall cfg runtimeEndAddr).startAddr = none ∧ (codeCall cfg runtimeEndAddr).startLinAddr = none ∧
          (codeCall cfg runtimeEndAddr).identityMap = false := by
        rw [codeCall, if_neg hwysiwyg, if_pos hrandomize]
        exact ⟨rfl, rfl, rfl⟩
      obtain ⟨hstartOf, hstartLinOf⟩ := @startOf_none cfg _ hfree.1 hfree.2.1
      obtain ⟨middle, orig, hphysical, hlinear, rfl, -⟩ := allocate_free htraced hstartOf hstartLinOf
        (identityMaps_of_ne hpaging hfree.2.2) hskips hplaced
      rw [if_pos hrandomize]
      refine ⟨fun hagrees => hagrees _ _ _ _ hphysical hlinear, fun heq phys' middle' orig' placed' hphys' hlin' => ?_⟩
      obtain ⟨rfl, rfl⟩ := Prod.mk.inj (Except.ok.inj (hphysical.symm.trans hphys'))
      obtain ⟨rfl, -⟩ := Prod.mk.inj (Except.ok.inj (hlinear.symm.trans hlin'))
      exact heq
    · rw [if_neg hrandomize]
      have hend : layout.runtimeEndAddr = some runtimeEndAddr := by
        rw [codeStart, if_neg (by simp [hwysiwyg, hrandomize])] at hstart
        cases hend : layout.runtimeEndAddr with
        | none => rw [hend] at hstart; cases hstart
        | some addr => rw [hend] at hstart; exact congrArg some (Except.ok.inj hstart)
      have hcall : (codeCall cfg runtimeEndAddr).startAddr = none ∧
          (codeCall cfg runtimeEndAddr).startLinAddr = some runtimeEndAddr ∧
          (codeCall cfg runtimeEndAddr).identityMap = cfg.identityMapCode := by
        rw [codeCall, if_neg hwysiwyg, if_neg hrandomize]
        exact ⟨rfl, rfl, rfl⟩
      cases hmap : cfg.identityMapCode with
      | true =>
          have hidentity : cfg.identityMaps (codeCall cfg runtimeEndAddr) = true := by
            rw [SectionConfig.identityMaps, hcall.2.2, hmap]
            rfl
          obtain ⟨⟨-, hsame⟩, -⟩ := firstPage_startLin htraced codeCall_size_le hcall.1 hcall.2.1 h
          exact iff_of_true (.inl rfl) (hsame (.inr hidentity))
      | false =>
          have hidentity := identityMaps_of_ne hpaging (hcall.2.2.trans hmap)
          have hstartOf : cfg.startOf (codeCall cfg runtimeEndAddr) = none := by
            rw [SectionConfig.startOf, hidentity, hcall.1]
            rfl
          have hstartLinOf : cfg.startLinOf (codeCall cfg runtimeEndAddr) = some runtimeEndAddr := by
            rw [SectionConfig.startLinOf, hidentity, hcall.2.1]
            rfl
          obtain ⟨middle, hlinear, hphysical, rfl, -⟩ :=
            allocate_startLin htraced hpos hstartOf hstartLinOf hidentity hskips hplaced
          constructor
          · intro hagrees
            exact (hagrees.resolve_left Bool.false_ne_true _ _ _ _ hend hlinear hphysical).symm
          · intro heq
            refine .inr fun addr middle' phys' placed' haddr hlinear' hphysical' => ?_
            obtain rfl := Option.some.inj (hend.symm.trans haddr)
            obtain rfl := Except.ok.inj (hlinear.symm.trans hlinear')
            obtain ⟨rfl, -⟩ := Prod.mk.inj (Except.ok.inj (hphysical.symm.trans hphysical'))
            exact heq.symm

/-- The sections of the code are contiguous exactly under the condition. -/
theorem addCode_laidOut_iff (htraced : AddrGen.Traced layout.gen) (h : addCode cfg layout = .ok layout') :
    (LaidOut cfg layout' (codePages cfg) ∧ (cfg.cUsed = true → LaidOut cfg layout' (textPages cfg)) ∧
      LaidOut cfg layout' (numberedPages "code_super_" numSuperCodePages (!cfg.noPaging)) ∧
      LaidOut cfg layout' (numberedPages "code_user_" numUserCodePages (!cfg.noPaging)) ∧
      LaidOut cfg layout' (numberedPages "code_machine_" numMachineCodePages false)) ↔
    (cfg.pagingMode = .disable ∨
      if cfg.privMode = .machine then
        cfg.wysiwyg = true ∨ cfg.randomizeCodeLocation = false ∨ TakenBefore cfg (codeCall cfg 0) layout
      else CodeAgrees cfg layout) := by
  unfold addCode at h
  obtain ⟨runtimeEndAddr, hstart, h⟩ := bind_ok h
  obtain ⟨⟨lin, phys, middle⟩, hfirst, h⟩ := bind_ok h
  have hlarger := addSectionHandler_larger htraced hfirst
  obtain ⟨hname, hphysName⟩ := @codeCall_names cfg runtimeEndAddr
  by_cases hloose : LooseCode cfg
  · obtain ⟨hpaging, hmachine, hwysiwyg, hrandomize⟩ := hloose
    have hskip : codeSkipPageMap cfg = true := decide_eq_true hmachine
    have hcall : (codeCall cfg runtimeEndAddr).startAddr = none ∧ (codeCall cfg runtimeEndAddr).startLinAddr = none ∧
        (codeCall cfg runtimeEndAddr).identityMap = false ∧ (codeCall cfg runtimeEndAddr).skipPageMap = true := by
      rw [codeCall, if_neg (by rw [hwysiwyg]; decide), if_pos hrandomize]
      exact ⟨rfl, rfl, rfl, hskip⟩
    obtain ⟨rfl, htaken, hadds, hregistered⟩ :=
      addSectionHandler_loose htraced hpaging hcall.1 hcall.2.1 hcall.2.2.1 hcall.2.2.2 hfirst
    obtain ⟨hbehind, hfurther, htext, hsuper, huser, hcodeMachine⟩ :=
      addCodePages_spec (hlarger.traced htraced) (fun _ => rfl) h
    have hunmapped : (codePages cfg).mapped = false := by
      rw [codePages, hskip]
      rfl
    rw [hname, hphysName, ← hunmapped] at hregistered
    have htaken' : TakenBefore cfg (codeCall cfg 0) layout ↔ PlainReserved layout lin 0x1000 := by
      rw [← htaken, TakenBefore, TakenBefore, @codeCall_size cfg runtimeEndAddr]
    have hpages : LaidOut cfg layout' (codePages cfg) ↔ PlainReserved layout lin 0x1000 := by
      rw [laidOut_iff_first numCodePages_ne_zero (hbehind.larger.registered hregistered) (fun _ => rfl) hfurther]
      rw [hunmapped] at hregistered ⊢
      exact pageAt_loose_iff codeCall_size_le hadds hregistered hbehind
    rw [if_pos hmachine, htaken', ← hpages, hwysiwyg, hrandomize]
    constructor
    · exact fun hall => .inr (.inr (.inr hall.1))
    · rintro (hdisable | hno | hno | hlaid)
      · exact absurd hdisable hpaging
      · exact absurd hno Bool.false_ne_true
      · exact absurd hno.symm Bool.false_ne_true
      · exact ⟨hlaid, htext, hsuper, huser, hcodeMachine.mpr rfl⟩
  · obtain ⟨⟨hpage, hsame⟩, -⟩ := codeCall_placed htraced hloose hfirst
    have hmapped : (!cfg.skips (codeCall cfg runtimeEndAddr)) = (codePages cfg).mapped :=
      congrArg (!·) codeCall_skips
    have hskips : codeSkipPageMap cfg = true → cfg.skips (codeCall cfg runtimeEndAddr) = true := fun hskip => by
      rw [codeCall_skips, hskip]
      rfl
    have hsame' : codeSkipPageMap cfg = true ∨ cfg.pagingMode = .disable → lin = phys := fun h =>
      hsame (h.imp hskips identityMaps_of_disable)
    obtain ⟨hbehind, hfurther, htext, hsuper, huser, hcodeMachine⟩ :=
      addCodePages_spec (hlarger.traced htraced) hsame' h
    rw [hname, hphysName, hmapped] at hpage
    obtain ⟨_, _, hadds, _⟩ := hbehind
    have hunmapped : (codePages cfg).mapped = false → lin = phys := fun h =>
      hsame (.inl ((Bool.not_eq_false' _).mp (hmapped.trans h)))
    have hpages : LaidOut cfg layout' (codePages cfg) :=
      (laidOut_iff_first numCodePages_ne_zero (hadds.registered hpage.registered) hunmapped hfurther).mpr
        (hpage.adds hadds)
    have hall : (LaidOut cfg layout' (codePages cfg) ∧ (cfg.cUsed = true → LaidOut cfg layout' (textPages cfg)) ∧
        LaidOut cfg layout' (numberedPages "code_super_" numSuperCodePages (!cfg.noPaging)) ∧
        LaidOut cfg layout' (numberedPages "code_user_" numUserCodePages (!cfg.noPaging)) ∧
        LaidOut cfg layout' (numberedPages "code_machine_" numMachineCodePages false)) ↔ lin = phys :=
      ⟨fun hall => hcodeMachine.mp hall.2.2.2.2, fun heq => ⟨hpages, htext, hsuper, huser, hcodeMachine.mpr heq⟩⟩
    rw [hall]
    by_cases hpaging : cfg.pagingMode = .disable
    · exact iff_of_true (hsame' (.inr hpaging)) (.inl hpaging)
    · by_cases hmachine : cfg.privMode = .machine
      · rw [if_pos hmachine]
        refine iff_of_true (hsame' (.inl (decide_eq_true hmachine))) (.inr ?_)
        by_contra hnone
        simp only [not_or, Bool.not_eq_true, Bool.not_eq_false] at hnone
        exact hloose ⟨hpaging, hmachine, hnone.1, hnone.2.1⟩
      · rw [if_neg hmachine, codeCall_agrees htraced hpaging (decide_eq_false hmachine) hstart hfirst]
        exact (or_iff_right hpaging).symm

end Code

/-! ### All sections -/

/-- `handle_sections` lays out the multi-page sections contiguously exactly under the condition. -/
theorem handleSections_laidOut_iff {section' : String} (hreachable : AddrGen.Reachable layout.gen)
    (h : handleSections cfg section' layout = .ok layout') :
    (∀ group ∈ pageGroups cfg section' layout, LaidOut cfg layout' group) ↔ Contiguous cfg section' layout := by
  have htraced := hreachable.traced
  unfold handleSections at h
  unfold pageGroups Contiguous
  cases hkind : sectionKind cfg section' layout with
  | runtime =>
      rw [hkind] at h
      obtain ⟨hruntime, huser, hsuper⟩ := addRuntime_laidOut htraced h
      refine iff_of_true (fun group hgroup => ?_) (.inr trivial)
      simp only [List.mem_append, List.mem_ite_nil_right, List.mem_singleton] at hgroup
      rcases hgroup with (rfl | ⟨hne, rfl⟩) | ⟨hne, rfl⟩
      · exact hruntime
      · exact huser hne
      · exact hsuper hne
  | code =>
      rw [hkind] at h
      rw [← addCode_laidOut_iff htraced h]
      constructor
      · intro hall
        refine ⟨hall _ ?_, fun hused => hall _ ?_, hall _ ?_, hall _ ?_, hall _ ?_⟩
        all_goals simp [*]
      · rintro ⟨hcode, htext, hsuper, huser, hmachine⟩ group hgroup
        simp only [List.mem_append, List.mem_ite_nil_right, List.mem_cons, List.not_mem_nil, or_false] at hgroup
        rcases hgroup with (rfl | ⟨hused, rfl⟩) | rfl | rfl | rfl
        · exact hcode
        · exact htext hused
        · exact hsuper
        · exact huser
        · exact hmachine
  | data =>
      rw [hkind] at h
      exact iff_of_true (List.forall_mem_singleton.mpr (addData_laidOut htraced h)) (.inr trivial)
  | cSection =>
      rw [hkind] at h
      exact iff_of_true (List.forall_mem_singleton.mpr (addCSection_laidOut htraced h)) (.inr trivial)
  | hartContext =>
      rw [hkind] at h
      exact iff_of_true (List.forall_mem_singleton.mpr (addHartContext_laidOut htraced h)) (.inr trivial)
  | selfcheckData =>
      rw [hkind] at h
      rw [List.forall_mem_singleton]
      by_cases hpaging : cfg.pagingMode = .disable
      · exact iff_of_true (addSelfcheckData_laidOut htraced hpaging h) (.inl hpaging)
      · rw [addSelfcheckData_laidOut_iff htraced hpaging h]
        exact (or_iff_right hpaging).symm
  | testExecutionData =>
      rw [hkind] at h
      rw [List.forall_mem_singleton]
      by_cases hpaging : cfg.pagingMode = .disable
      · exact iff_of_true (addTestExecutionData_laidOut htraced hpaging h) (.inl hpaging)
      · rw [addTestExecutionData_laidOut_iff htraced hpaging h]
        exact (or_iff_right hpaging).symm
  | _ => exact iff_of_true (fun group hgroup => absurd hgroup List.not_mem_nil) (.inr trivial)

/-! ### A test with and without contiguous sections -/

/-- A supervisor test with sv39 and two pages of selfcheck data. -/
def plainTest : SectionConfig where
  pagingMode := .sv39
  pagingGMode := .disable
  virtualized := false
  privMode := .super
  supportedPrivModes := [.machine, .super]
  wysiwyg := false
  cUsed := false
  moreOsPages := false
  randomizeCodeLocation := false
  identityMapCode := false
  bigBss := false
  smallBss := false
  addGccCstdlibSections := false
  selfcheck := true
  logTestExecution := false
  resetPc := 0x80000000
  numCpus := 1
  repeatTimes := 2
  discreteTests := 200
  hartContextTotalSize := 0x1000
  physicalAddrBits := 52
  pageMapLinearAddrBits := 39
  pageMapPhysicalAddrBits := 52
  ioHtifAddr := none
  ioMaplic := none
  ioSaplic := none
  ioImsicMfile := none
  ioImsicSfile := none
  debugRom := none
  discreteDebugTest := false

/-- The memory of the test: 2 GiB of DRAM. -/
def plainMemory : Memory where
  dramRanges := [⟨0x80000000, 0x80000000, twoGigabytes_pos⟩]
  ioRanges := []
  secureRanges := []
  reservedRanges := []
  customRanges := []

/-- Nothing is placed yet, and every draw is zero. -/
def freshLayout (gen : AddrGen) : Layout where
  gen := gen
  rng := ⟨[]⟩
  randomAddrs := []
  pages := []
  sections := []
  runtimeEndAddr := none
  nextCSectionLinAddr := none

theorem handleSections_laidOut_data : ∃ gen layout', handleSections plainTest "data" (freshLayout gen) = .ok layout' ∧
    ∀ group ∈ pageGroups plainTest "data" (freshLayout gen), LaidOut plainTest layout' group := by
  have hruns : ((AddrGen.init plainMemory false false).toOption.bind fun gen =>
      (handleSections plainTest "data" (freshLayout gen)).toOption.map fun _ => true) = some true := by
    decide +kernel
  obtain ⟨gen, hgen, hruns⟩ := Option.bind_eq_some_iff.mp hruns
  obtain ⟨layout', hhandled, -⟩ := Option.map_eq_some_iff.mp hruns
  refine ⟨gen, layout', toOption_some hhandled, ?_⟩
  have hreachable : AddrGen.Reachable (freshLayout gen).gen := .init (toOption_some hgen)
  exact (handleSections_laidOut_iff hreachable (toOption_some hhandled)).mpr (.inr trivial)

/-- The second page of the selfcheck data is at a physical address made of the linear address of the first. -/
theorem handleSections_not_laidOut : ¬∀ (cfg : SectionConfig) (section' : String) (layout layout' : Layout),
    AddrGen.Reachable layout.gen → handleSections cfg section' layout = .ok layout' →
      ∀ group ∈ pageGroups cfg section' layout, LaidOut cfg layout' group := by
  intro h
  have hruns : ((AddrGen.init plainMemory false false).toOption.bind fun gen =>
      (handleSections plainTest "selfcheck_data" (freshLayout gen)).toOption.map fun layout' =>
        (get? layout'.randomAddrs "selfcheck_data", get? layout'.randomAddrs "__section_selfcheck_data",
          get? layout'.randomAddrs "__section__selfcheck_data_1_phys")) =
      some (some (.linear, 0x2000), some (.physical, 0x80000000), some (.physical, 0x3000)) := by
    decide +kernel
  obtain ⟨gen, hgen, hruns⟩ := Option.bind_eq_some_iff.mp hruns
  obtain ⟨layout', hhandled, hruns⟩ := Option.map_eq_some_iff.mp hruns
  obtain ⟨hlin, hrest⟩ := Prod.mk.inj hruns
  obtain ⟨hphys, hsecond⟩ := Prod.mk.inj hrest
  have hlaid := h plainTest "selfcheck_data" (freshLayout gen) layout' (.init (toOption_some hgen))
    (toOption_some hhandled) (selfcheckDataPages plainTest) (List.mem_singleton.mpr rfl)
  have hpage := (hlaid 0x2000 0x80000000 _ hlin hphys).2 1 (by decide)
  have hthere : get? layout'.randomAddrs "__section__selfcheck_data_1_phys" = some (.physical, 0x80001000) :=
    hpage.registered.physAddr
  rw [hsecond] at hthere
  cases hthere

end Riescue.Sections
