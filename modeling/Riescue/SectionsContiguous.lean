import Riescue.SectionsPages

/-! When the pages of a section are laid out contiguously. -/

namespace Riescue.Sections
open Addrgen Paging OrderedDict Fallible

/-- The pages of a section, by the number of the page. -/
structure PageGroup where
  name : ℕ → String
  physName : ℕ → String
  count : ℕ
  mapped : Bool

/-- The range of a linear address is reserved where the address was generated, before it was made canonical. -/
def LinearReserved (cfg : SectionConfig) (layout : Layout) (lin size : ℕ) : Prop :=
  ∃ start, (start = lin ∨ cfg.canonicalizeLinAddr start = lin) ∧
    ∀ b, Within start size b → Allocated layout.gen.linearAddrSpace b

/-- The range of an address is reserved in the linear space. -/
def PlainReserved (layout : Layout) (lin size : ℕ) : Prop :=
  ∀ b, Within lin size b → Allocated layout.gen.linearAddrSpace b

/-- A page at the two addresses: registered, and reserved in both spaces. -/
structure PageAt (cfg : SectionConfig) (layout : Layout) (mapped : Bool) (name physName : String) (lin phys : ℕ) :
    Prop where
  registered : Registered layout mapped name physName lin phys
  physical : ∀ b, Within phys 0x1000 b → Allocated layout.gen.physicalAddrSpace b
  linear : if mapped then LinearReserved cfg layout lin 0x1000 else PlainReserved layout lin 0x1000

/-- The pages of the group are contiguous, from the addresses of its first page on; without page tables the linear
addresses are the physical ones. -/
def LaidOut (cfg : SectionConfig) (layout : Layout) (group : PageGroup) : Prop :=
  ∀ lin phys type, get? layout.randomAddrs (group.name 0) = some (type, lin) →
    get? layout.randomAddrs (group.physName 0) = some (.physical, phys) →
    (group.mapped = false → lin = phys) ∧ ∀ i < group.count,
      PageAt cfg layout group.mapped (group.name i) (group.physName i) (lin + 0x1000 * i) (phys + 0x1000 * i)

theorem PageAt.adds {cfg : SectionConfig} {layout layout' : Layout} {linear physical : ℕ → Prop} {mapped : Bool}
    {name physName : String} {lin phys : ℕ} (h : PageAt cfg layout mapped name physName lin phys)
    (hadds : Adds layout layout' linear physical) : PageAt cfg layout' mapped name physName lin phys := by
  refine ⟨hadds.registered h.registered, fun b hb => (hadds.physical b).mpr (.inr (h.physical b hb)), ?_⟩
  have hlinear := h.linear
  cases mapped with
  | true =>
      obtain ⟨start, hstart, htaken⟩ := hlinear
      exact ⟨start, hstart, fun b hb => (hadds.linear b).mpr (.inr (htaken b hb))⟩
  | false => exact fun b hb => (hadds.linear b).mpr (.inr (hlinear b hb))

theorem pageAt_of_plain {cfg : SectionConfig} {layout : Layout} {mapped : Bool} {name physName : String} {lin phys : ℕ}
    (hregistered : Registered layout mapped name physName lin phys)
    (hphysical : ∀ b, Within phys 0x1000 b → Allocated layout.gen.physicalAddrSpace b)
    (hlinear : PlainReserved layout lin 0x1000) : PageAt cfg layout mapped name physName lin phys := by
  refine ⟨hregistered, hphysical, ?_⟩
  cases mapped with
  | true => exact ⟨lin, .inl rfl, hlinear⟩
  | false => exact hlinear

/-- What a layout says of a group is decided at the addresses of its first page. -/
theorem laidOut_iff {cfg : SectionConfig} {layout : Layout} {group : PageGroup} {lin phys : ℕ}
    (hfirst : Registered layout group.mapped (group.name 0) (group.physName 0) lin phys) :
    LaidOut cfg layout group ↔ (group.mapped = false → lin = phys) ∧ ∀ i < group.count,
      PageAt cfg layout group.mapped (group.name i) (group.physName i) (lin + 0x1000 * i) (phys + 0x1000 * i) := by
  constructor
  · exact fun h => h lin phys _ hfirst.linAddr hfirst.physAddr
  · intro h lin' phys' type hlin hphys
    obtain rfl : lin = lin' := (Prod.mk.inj (Option.some.inj (hfirst.linAddr.symm.trans hlin))).2
    obtain rfl : phys = phys' := (Prod.mk.inj (Option.some.inj (hfirst.physAddr.symm.trans hphys))).2
    exact h

/-! ### The first page -/

/-- The first call of a section has placed its first page. -/
structure FirstPage (cfg : SectionConfig) (call : SectionCall) (layout : Layout) (lin phys : ℕ) : Prop where
  page : PageAt cfg layout (!cfg.skips call) call.name call.physAddrName lin phys
  same : cfg.skips call = true ∨ cfg.identityMaps call = true → lin = phys

section First
variable {cfg : SectionConfig} {call : SectionCall} {layout layout' : Layout} {lin phys : ℕ}

theorem within_first {start size b : ℕ} (hsize : 0x1000 ≤ size) (hb : Within start 0x1000 b) : Within start size b :=
  ⟨hb.1, hb.2.trans_le (by omega)⟩

theorem Adds.plain {linear physical : ℕ → Prop} (hadds : Adds layout layout' linear physical) {size : ℕ}
    (hlinear : ∀ b, Within lin size b → linear b) : PlainReserved layout' lin size :=
  fun b hb => (hadds.linear b).mpr (.inl (hlinear b hb))

/-- A block that is reserved in both spaces at its own addresses. -/
theorem firstPage_of_both {size : ℕ} (hsize : 0x1000 ≤ size)
    (hadds : Adds layout layout' (Within lin size) (Within phys size))
    (hregistered : Registered layout' (!cfg.skips call) call.name call.physAddrName lin phys)
    (hsame : cfg.skips call = true ∨ cfg.identityMaps call = true → lin = phys) : FirstPage cfg call layout' lin phys :=
  ⟨pageAt_of_plain hregistered (fun b hb => (hadds.physical b).mpr (.inl (within_first hsize hb)))
    (hadds.plain fun _ hb => within_first hsize hb), hsame⟩

/-- A block of a mapped section whose linear address was generated. -/
theorem firstPage_of_generated {size orig : ℕ} (hsize : 0x1000 ≤ size) (hskips : cfg.skips call = false)
    (hidentity : cfg.identityMaps call = false) (hlin : lin = cfg.canonicalizeLinAddr orig)
    (hadds : Adds layout layout' (Within orig size) (Within phys size))
    (hregistered : Registered layout' (!cfg.skips call) call.name call.physAddrName lin phys) :
    FirstPage cfg call layout' lin phys := by
  refine ⟨⟨hregistered, fun b hb => (hadds.physical b).mpr (.inl (within_first hsize hb)), ?_⟩, fun h => ?_⟩
  · rw [hskips, Bool.not_false, if_pos rfl]
    exact ⟨orig, .inr hlin.symm, fun b hb => (hadds.linear b).mpr (.inl (within_first hsize hb))⟩
  · rw [hskips, hidentity] at h
    simp at h

theorem startOf_none (hstart : call.startAddr = none) (hstartLin : call.startLinAddr = none) :
    cfg.startOf call = none ∧ cfg.startLinOf call = none := by
  unfold SectionConfig.startOf SectionConfig.startLinOf
  rw [hstart, hstartLin]
  exact ⟨ite_self _, ite_self _⟩

/-- Nothing is given, and the section is page mapped or identity mapped. -/
theorem firstPage_free (htraced : AddrGen.Traced layout.gen) (hsize : 0 < call.size → 0x1000 ≤ call.size)
    (hstart : call.startAddr = none) (hstartLin : call.startLinAddr = none)
    (hplain : cfg.identityMaps call = true ∨ cfg.skips call = false)
    (h : addSectionHandler cfg call layout = .ok (lin, phys, layout')) :
    FirstPage cfg call layout' lin phys ∧ ∃ linear, Adds layout layout' linear (Within phys call.size) := by
  obtain ⟨placed, hplaced, hadds⟩ := addSectionHandler_ok h
  obtain ⟨hstartOf, hstartLinOf⟩ := @startOf_none cfg call hstart hstartLin
  cases hidentity : cfg.identityMaps call with
  | true =>
      obtain ⟨hsame, hreserves, hpos⟩ := allocate_free_identity htraced hstartOf hstartLinOf hidentity hplaced
      obtain ⟨hadds, hregistered⟩ := hadds _ _ hreserves
      exact ⟨firstPage_of_both (hsize hpos) hadds hregistered fun _ => hsame, _, hadds⟩
  | false =>
      have hskips : cfg.skips call = false := hplain.resolve_left (by rw [hidentity]; decide)
      obtain ⟨_, orig, _, _, hlin, hreserves, hpos⟩ :=
        allocate_free htraced hstartOf hstartLinOf hidentity hskips hplaced
      obtain ⟨hadds, hregistered⟩ := hadds _ _ hreserves
      exact ⟨firstPage_of_generated (hsize hpos) hskips hidentity hlin hadds hregistered, _, hadds⟩

/-- Only the linear start is given. -/
theorem firstPage_startLin (htraced : AddrGen.Traced layout.gen) (hsize : 0x1000 ≤ call.size) {startLin : ℕ}
    (hstart : call.startAddr = none) (hstartLin : call.startLinAddr = some startLin)
    (h : addSectionHandler cfg call layout = .ok (lin, phys, layout')) :
    FirstPage cfg call layout' lin phys ∧ ∃ linear, Adds layout layout' linear (Within phys call.size) := by
  obtain ⟨placed, hplaced, hadds⟩ := addSectionHandler_ok h
  have hpos : 0 < call.size := by omega
  cases hidentity : cfg.identityMaps call with
  | true =>
      have hstartOf : cfg.startOf call = some startLin := by
        rw [SectionConfig.startOf, if_pos hidentity, hstart, hstartLin]
        rfl
      have hstartLinOf : cfg.startLinOf call = none := by rw [SectionConfig.startLinOf, if_pos hidentity]
      obtain ⟨rfl, rfl, hreserves⟩ := allocate_start htraced hpos hstartOf hstartLinOf (.inr hidentity) hplaced
      obtain ⟨hadds, hregistered⟩ := hadds _ _ hreserves
      exact ⟨firstPage_of_both hsize hadds hregistered fun _ => rfl, _, hadds⟩
  | false =>
      have hstartOf : cfg.startOf call = none := by
        rw [SectionConfig.startOf, hidentity, hstart]
        rfl
      have hstartLinOf : cfg.startLinOf call = some startLin := by
        rw [SectionConfig.startLinOf, hidentity, hstartLin]
        rfl
      cases hskips : cfg.skips call with
      | true =>
          obtain ⟨rfl, rfl, hreserves⟩ := allocate_startLin_skips htraced hpos hstartOf hstartLinOf hskips hplaced
          obtain ⟨hadds, hregistered⟩ := hadds _ _ hreserves
          exact ⟨firstPage_of_both hsize hadds hregistered fun _ => rfl, _, hadds⟩
      | false =>
          obtain ⟨_, _, _, rfl, hreserves⟩ :=
            allocate_startLin htraced hpos hstartOf hstartLinOf hidentity hskips hplaced
          obtain ⟨hadds, hregistered⟩ := hadds _ _ hreserves
          refine ⟨firstPage_of_both hsize hadds hregistered fun h => ?_, _, hadds⟩
          rw [hskips, hidentity] at h
          simp at h

/-- Only the physical start is given. -/
theorem firstPage_start (htraced : AddrGen.Traced layout.gen) (hsize : 0x1000 ≤ call.size) {start : ℕ}
    (hstart : call.startAddr = some start) (hstartLin : call.startLinAddr = none)
    (h : addSectionHandler cfg call layout = .ok (lin, phys, layout')) :
    FirstPage cfg call layout' lin phys ∧ phys = start ∧
      ∃ linear, Adds layout layout' linear (Within phys call.size) := by
  obtain ⟨placed, hplaced, hadds⟩ := addSectionHandler_ok h
  have hpos : 0 < call.size := by omega
  have hstartOf : cfg.startOf call = some start := by
    unfold SectionConfig.startOf
    rw [hstart]
    split_ifs <;> rfl
  have hstartLinOf : cfg.startLinOf call = none := by
    unfold SectionConfig.startLinOf
    rw [hstartLin, ite_self]
  by_cases hsame : cfg.skips call = true ∨ cfg.identityMaps call = true
  · obtain ⟨rfl, rfl, hreserves⟩ := allocate_start htraced hpos hstartOf hstartLinOf hsame hplaced
    obtain ⟨hadds, hregistered⟩ := hadds _ _ hreserves
    exact ⟨firstPage_of_both hsize hadds hregistered fun _ => rfl, rfl, _, hadds⟩
  · simp only [not_or, Bool.not_eq_true] at hsame
    obtain ⟨_, orig, _, _, hlin, hphys, hreserves⟩ :=
      allocate_start_free htraced hpos hstartOf hstartLinOf hsame.2 hsame.1 hplaced
    obtain ⟨hadds, hregistered⟩ := hadds _ _ hreserves
    exact ⟨firstPage_of_generated hsize hsame.1 hsame.2 hlin hadds hregistered, hphys, _, hadds⟩

end First

/-! ### A block and its pages -/

/-- The layout only gets larger. -/
def Larger (layout layout' : Layout) : Prop := ∃ linear physical, Adds layout layout' linear physical

theorem Larger.refl (layout : Layout) : Larger layout layout := ⟨_, _, .refl layout⟩

theorem Larger.trans {a b c : Layout} (hab : Larger a b) (hbc : Larger b c) : Larger a c := by
  obtain ⟨_, _, hab⟩ := hab
  obtain ⟨_, _, hbc⟩ := hbc
  exact ⟨_, _, hab.trans hbc⟩

theorem Larger.traced {layout layout' : Layout} (h : Larger layout layout') (htraced : AddrGen.Traced layout.gen) :
    AddrGen.Traced layout'.gen := by
  obtain ⟨_, _, hadds⟩ := h
  exact htraced.steps hadds.steps

theorem Larger.registered {layout layout' : Layout} (h : Larger layout layout') {mapped : Bool} {name physName : String}
    {lin phys : ℕ} (hregistered : Registered layout mapped name physName lin phys) :
    Registered layout' mapped name physName lin phys := by
  obtain ⟨_, _, hadds⟩ := h
  exact hadds.registered hregistered

/-- The pages of the group, from the given addresses on. -/
structure LaidOutAt (cfg : SectionConfig) (layout : Layout) (group : PageGroup) (lin phys : ℕ) : Prop where
  first : Registered layout group.mapped (group.name 0) (group.physName 0) lin phys
  same : group.mapped = false → lin = phys
  pages : ∀ i < group.count,
    PageAt cfg layout group.mapped (group.name i) (group.physName i) (lin + 0x1000 * i) (phys + 0x1000 * i)

theorem LaidOutAt.laidOut {cfg : SectionConfig} {layout : Layout} {group : PageGroup} {lin phys : ℕ}
    (h : LaidOutAt cfg layout group lin phys) : LaidOut cfg layout group :=
  (laidOut_iff h.first).mpr ⟨h.same, h.pages⟩

theorem LaidOutAt.larger {cfg : SectionConfig} {layout layout' : Layout} {group : PageGroup} {lin phys : ℕ}
    (h : LaidOutAt cfg layout group lin phys) (hlarger : Larger layout layout') :
    LaidOutAt cfg layout' group lin phys := by
  obtain ⟨_, _, hadds⟩ := hlarger
  exact ⟨hadds.registered h.first, h.same, fun i hi => (h.pages i hi).adds hadds⟩

/-- The calls for the pages of a group, apart from its first page. -/
structure CallsFor (cfg : SectionConfig) (group : PageGroup) (call : ℕ → ℕ → ℕ → SectionCall) (lin phys : ℕ) :
    Prop where
  name : ∀ i, i ≠ 0 → ∀ lin phys, (call i lin phys).name = group.name i
  physName : ∀ i, i ≠ 0 → ∀ lin phys, (call i lin phys).physAddrName = group.physName i
  skips : ∀ i lin phys, (!cfg.skips (call i lin phys)) = group.mapped
  size : ∀ i lin phys, (call i lin phys).size = 0x1000
  puts : ∀ i k, PutsPage cfg (call i (lin + 0x1000 * k) (phys + 0x1000 * k)) (lin + 0x1000 * k) (phys + 0x1000 * k)

section Block
variable {cfg : SectionConfig} {group : PageGroup} {call : ℕ → ℕ → ℕ → SectionCall} {first : SectionCall}
variable {layout middle layout' : Layout} {lin phys lin' phys' : ℕ} {fromReturned : Bool}

theorem within_further {start k count b : ℕ} (hk : k + 1 < count) (hb : Within (start + 0x1000 * (k + 1)) 0x1000 b) :
    Within (start + 0x1000) (0x1000 * (count - 1)) b := by
  have hfirst : 0x1000 * 1 ≤ 0x1000 * (k + 1) := Nat.mul_le_mul_left _ (Nat.le_add_left 1 k)
  have hlast : 0x1000 * (k + 1) ≤ 0x1000 * (count - 1) := Nat.mul_le_mul_left _ (Nat.le_sub_one_of_lt hk)
  unfold Within at hb ⊢
  generalize 0x1000 * (k + 1) = offset at *
  omega

/-- The pages behind the first page of the group, wherever that page is. -/
theorem addPages_further (htraced : AddrGen.Traced middle.gen) (hcount : group.count ≠ 0)
    (hcalls : CallsFor cfg group call lin phys)
    (h : addPages cfg fromReturned call (group.count - 1) 1 (lin + 0x1000) (phys + 0x1000) middle =
      .ok (lin', phys', layout')) :
    lin' = lin + 0x1000 * group.count ∧ phys' = phys + 0x1000 * group.count ∧
      Adds middle layout' (Within (lin + 0x1000) (0x1000 * (group.count - 1)))
        (Within (phys + 0x1000) (0x1000 * (group.count - 1))) ∧
      ∀ i, i ≠ 0 → i < group.count → PageAt cfg layout' group.mapped (group.name i) (group.physName i)
        (lin + 0x1000 * i) (phys + 0x1000 * i) := by
  have hshift : ∀ start k, start + 0x1000 + 0x1000 * k = start + 0x1000 * (k + 1) := by
    intro start k
    omega
  obtain ⟨hlin', hphys', hadds, hpages⟩ := addPages_spec htraced hcalls.size (fun k => by
    rw [hshift, hshift]
    exact hcalls.puts (1 + k) (k + 1)) h
  refine ⟨by omega, by omega, hadds, fun i hne hi => ?_⟩
  obtain ⟨k, rfl⟩ := Nat.exists_eq_succ_of_ne_zero hne
  have hpage := hpages k (by omega)
  rw [hcalls.name (1 + k) (by omega), hcalls.physName (1 + k) (by omega), hcalls.skips, hshift, hshift,
    Nat.add_comm 1 k] at hpage
  exact pageAt_of_plain hpage (fun b hb => (hadds.physical b).mpr (.inl (within_further hi hb)))
    fun b hb => (hadds.linear b).mpr (.inl (within_further hi hb))

/-- Pages behind the first page of the group complete it. -/
theorem addPages_laidOut (htraced : AddrGen.Traced middle.gen) (hcount : group.count ≠ 0)
    (hfirst : PageAt cfg middle group.mapped (group.name 0) (group.physName 0) lin phys)
    (hsame : group.mapped = false → lin = phys) (hcalls : CallsFor cfg group call lin phys)
    (h : addPages cfg fromReturned call (group.count - 1) 1 (lin + 0x1000) (phys + 0x1000) middle =
      .ok (lin', phys', layout')) :
    LaidOutAt cfg layout' group lin phys ∧ lin' = lin + 0x1000 * group.count ∧ phys' = phys + 0x1000 * group.count ∧
      Adds middle layout' (Within (lin + 0x1000) (0x1000 * (group.count - 1)))
        (Within (phys + 0x1000) (0x1000 * (group.count - 1))) := by
  obtain ⟨hlin', hphys', hadds, hpages⟩ := addPages_further htraced hcount hcalls h
  refine ⟨⟨hadds.registered hfirst.registered, hsame, fun i hi => ?_⟩, hlin', hphys', hadds⟩
  rcases Nat.eq_zero_or_pos i with rfl | hpos
  · exact hfirst.adds hadds
  · exact hpages i hpos.ne' hi

/-- What the first call of a section has to achieve. -/
def PlacesFirst (cfg : SectionConfig) (first : SectionCall) (layout : Layout) : Prop :=
  ∀ lin phys middle, addSectionHandler cfg first layout = .ok (lin, phys, middle) →
    FirstPage cfg first middle lin phys ∧ Larger layout middle

theorem addBlock_laidOut (group : PageGroup) (htraced : AddrGen.Traced layout.gen) (hcount : group.count ≠ 0)
    (h : addBlock cfg first call group.count layout = .ok (lin', phys', layout'))
    (hname : first.name = group.name 0) (hphysName : first.physAddrName = group.physName 0)
    (hmapped : (!cfg.skips first) = group.mapped) (hfirst : PlacesFirst cfg first layout)
    (hcalls : ∀ lin phys, (cfg.skips first = true ∨ cfg.identityMaps first = true → lin = phys) →
      CallsFor cfg group call lin phys) :
    ∃ lin phys, LaidOutAt cfg layout' group lin phys ∧ Larger layout layout' ∧
      (cfg.skips first = true ∨ cfg.identityMaps first = true → lin = phys) ∧
      lin' = lin + 0x1000 * group.count ∧ phys' = phys + 0x1000 * group.count := by
  unfold addBlock at h
  obtain ⟨⟨lin, phys, middle⟩, hplaced, h⟩ := bind_ok h
  obtain ⟨⟨hpage, hsame⟩, hlarger⟩ := hfirst lin phys middle hplaced
  rw [hname, hphysName, hmapped] at hpage
  have hskips : group.mapped = false → lin = phys := by
    intro hunmapped
    rw [← hmapped, Bool.not_eq_false'] at hunmapped
    exact hsame (.inl hunmapped)
  obtain ⟨hlaid, hlin', hphys', hadds⟩ :=
    addPages_laidOut (hlarger.traced htraced) hcount hpage hskips (hcalls lin phys hsame) h
  exact ⟨lin, phys, hlaid, hlarger.trans ⟨_, _, hadds⟩, hsame, hlin', hphys'⟩

/-- The layout gets larger, with linear addresses from the given one on. -/
def LargerFrom (layout layout' : Layout) (lo : ℕ) : Prop :=
  ∃ linear physical, Adds layout layout' linear physical ∧ ∀ b, linear b → lo ≤ b

theorem LargerFrom.larger {lo : ℕ} (h : LargerFrom layout layout' lo) : Larger layout layout' := by
  obtain ⟨_, _, hadds, _⟩ := h
  exact ⟨_, _, hadds⟩

theorem LargerFrom.refl (layout : Layout) (lo : ℕ) : LargerFrom layout layout lo :=
  ⟨_, _, .refl layout, fun _ h => h.elim⟩

theorem LargerFrom.trans {a b c : Layout} {lo lo' : ℕ} (hab : LargerFrom a b lo) (hbc : LargerFrom b c lo')
    (hle : lo ≤ lo') : LargerFrom a c lo := by
  obtain ⟨_, _, hab, hlo⟩ := hab
  obtain ⟨_, _, hbc, hlo'⟩ := hbc
  exact ⟨_, _, hab.trans hbc, fun b hb => hb.elim (fun hb => hle.trans (hlo' b hb)) (hlo b)⟩

/-- A block whose addresses are given, and the pages behind it. -/
theorem given_laidOut (group : PageGroup) (htraced : AddrGen.Traced layout.gen) (hcount : group.count ≠ 0)
    (hputs : PutsPage cfg first lin phys) (hsize : 0x1000 ≤ first.size) (hname : first.name = group.name 0)
    (hphysName : first.physAddrName = group.physName 0) (hmapped : (!cfg.skips first) = group.mapped)
    (hsame : group.mapped = false → lin = phys) (hcalls : CallsFor cfg group call lin phys) {lin₁ phys₁ : ℕ}
    (hfirst : addSectionHandler cfg first layout = .ok (lin₁, phys₁, middle))
    (h : addPages cfg fromReturned call (group.count - 1) 1 (lin₁ + 0x1000) (phys₁ + 0x1000) middle =
      .ok (lin', phys', layout')) :
    LaidOutAt cfg layout' group lin phys ∧ lin' = lin + 0x1000 * group.count ∧ phys' = phys + 0x1000 * group.count ∧
      LargerFrom layout layout' lin := by
  obtain ⟨rfl, rfl, hadds, hregistered⟩ := hputs _ _ _ _ htraced hfirst
  rw [hname, hphysName, hmapped] at hregistered
  have hpage : PageAt cfg middle group.mapped (group.name 0) (group.physName 0) lin₁ phys₁ :=
    pageAt_of_plain hregistered (fun b hb => (hadds.physical b).mpr (.inl (within_first hsize hb)))
      (hadds.plain fun b hb => within_first hsize hb)
  obtain ⟨hlaid, hlin', hphys', hrest⟩ :=
    addPages_laidOut (htraced.steps hadds.steps) hcount hpage hsame hcalls h
  refine ⟨hlaid, hlin', hphys', _, _, hadds.trans hrest, fun b hb => ?_⟩
  rcases hb with hb | hb
  · exact (Nat.le_add_right _ _).trans hb.1
  · exact hb.1

/-- A section whose pages are all added by the loop. -/
theorem addPages_all (group : PageGroup) (htraced : AddrGen.Traced layout.gen) (hcount : group.count ≠ 0)
    (hname : ∀ lin phys, (call 0 lin phys).name = group.name 0)
    (hphysName : ∀ lin phys, (call 0 lin phys).physAddrName = group.physName 0)
    (hsame : group.mapped = false → lin = phys) (hcalls : CallsFor cfg group call lin phys)
    (h : addPages cfg false call group.count 0 lin phys layout = .ok (lin', phys', layout')) :
    LaidOutAt cfg layout' group lin phys ∧ lin' = lin + 0x1000 * group.count ∧ phys' = phys + 0x1000 * group.count ∧
      LargerFrom layout layout' lin := by
  obtain ⟨count, hsucc⟩ := Nat.exists_eq_succ_of_ne_zero hcount
  rw [hsucc, addPages] at h
  obtain ⟨⟨lin₁, phys₁, middle⟩, hfirst, h⟩ := bind_ok h
  have hputs := hcalls.puts 0 0
  simp only [Nat.mul_zero, Nat.add_zero] at hputs
  obtain ⟨rfl, rfl, _⟩ := hputs _ _ _ _ htraced hfirst
  have hrest : addPages cfg false call (group.count - 1) 1 (lin₁ + 0x1000) (phys₁ + 0x1000) middle =
      .ok (lin', phys', layout') := by
    rw [hsucc]
    exact h
  exact given_laidOut group htraced hcount hputs (hcalls.size 0 _ _).ge (hname _ _) (hphysName _ _)
    (hcalls.skips 0 _ _) hsame hcalls hfirst hrest

end Block
end Riescue.Sections
