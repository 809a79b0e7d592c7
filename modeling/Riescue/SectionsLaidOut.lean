import Riescue.SectionsContiguous

/-! Which sections are laid out contiguously, and when. -/

namespace Riescue.Sections
open Addrgen Paging OrderedDict Fallible

/-! ### The pages of every section -/

/-- The physical names of a section whose further pages have no physical name of their own. -/
def firstOrPhys (first further : String) (i : ℕ) : String :=
  if i = 0 then first else further ++ toString i ++ "_phys"

variable (cfg : SectionConfig)

def runtimePages : PageGroup where
  name := firstOr "runtime" "__section__runtime_"
  physName := firstOrPhys "_section_runtime" "__section__runtime_"
  count := numRuntimePages
  mapped := false

def runtimeUserPages : PageGroup where
  name := firstOr "runtime_user" "runtime_user_"
  physName := firstOrPhys "runtime_user_phys" "runtime_user_"
  count := cfg.numUserRuntimePages
  mapped := !cfg.noPaging

def runtimeSPages : PageGroup where
  name := firstOr "runtime_s" "runtime_s_"
  physName := firstOrPhys "runtime_s_phys" "runtime_s_"
  count := cfg.numRuntimeSPages
  mapped := !cfg.noPaging

def codePages : PageGroup where
  name := firstOr "code" "__section__code_"
  physName := firstOrPhys "__section_code" "__section__code_"
  count := cfg.numCodePages
  mapped := !(codeSkipPageMap cfg || cfg.noPaging)

def textPages : PageGroup where
  name := firstOr "text" "__section__text_"
  physName := firstOrPhys "__section_text" "__section__text_"
  count := cfg.numCTextPages
  mapped := !cfg.noPaging

/-- `code_super`, `code_user` and `code_machine`: all pages have names with numbers. -/
def numberedPages (name : String) (count : ℕ) (mapped : Bool) : PageGroup where
  name := fun i => name ++ toString i
  physName := fun i => "__section_" ++ name ++ toString i
  count := count
  mapped := mapped

def dataPages (name : String) : PageGroup where
  name := firstOr name ("__section_" ++ name ++ "_")
  physName := firstOrPhys ("__section_" ++ name) ("__section_" ++ name ++ "_")
  count := cfg.dataSize / 0x1000
  mapped := !cfg.noPaging

def cSectionPages (name : String) : PageGroup where
  name := firstOr name (name ++ "_")
  physName := firstOr ("__section_" ++ name) ("__section_" ++ name ++ "_")
  count := cfg.getPageCount name
  mapped := !cfg.noPaging

def hartContextPages : PageGroup where
  name := firstOr "hart_context" "__page_hart_context_"
  physName := firstOr "__section_hart_context" "__section___page_hart_context_"
  count := cfg.numHartContextPages
  mapped := !cfg.noPaging

def selfcheckDataPages : PageGroup where
  name := firstOr "selfcheck_data" "__section__selfcheck_data_"
  physName := firstOrPhys "__section_selfcheck_data" "__section__selfcheck_data_"
  count := cfg.numSelfcheckPages
  mapped := !cfg.noPaging

def testExecutionDataPages : PageGroup where
  name := firstOr "test_execution_data" "__page_test_execution_data_"
  physName := firstOrPhys "__section_test_execution_data" "__page_test_execution_data_"
  count := cfg.numTestExecutionPages
  mapped := false

/-- The multi-page sections that handling a section places. -/
def pageGroups (section' : String) (layout : Layout) : List PageGroup :=
  match sectionKind cfg section' layout with
  | .runtime =>
      [runtimePages] ++ (if cfg.numUserRuntimePages ≠ 0 then [runtimeUserPages cfg] else []) ++
        if cfg.numRuntimeSPages ≠ 0 then [runtimeSPages cfg] else []
  | .code =>
      [codePages cfg] ++ (if cfg.cUsed then [textPages cfg] else []) ++
        [numberedPages "code_super_" numSuperCodePages (!cfg.noPaging),
          numberedPages "code_user_" numUserCodePages (!cfg.noPaging),
          numberedPages "code_machine_" numMachineCodePages false]
  | .data => [dataPages cfg section']
  | .cSection => [cSectionPages cfg section']
  | .hartContext => [hartContextPages cfg]
  | .selfcheckData => [selfcheckDataPages cfg]
  | .testExecutionData => [testExecutionDataPages cfg]
  | _ => []

/-! ### When they are contiguous -/

/-- Whatever the physical space hands out for the section, its first page is already reserved in the linear space. -/
def TakenBefore (call : SectionCall) (layout : Layout) : Prop :=
  ∀ phys placed, layout.generate (cfg.physAddrConstraint call.size false) = .ok (phys, placed) →
    PlainReserved layout phys 0x1000

/-- The addresses for the block of the page mapped code section happen to be the same, or have to be. -/
def CodeAgrees (layout : Layout) : Prop :=
  let size := (codeCall cfg 0).size
  if cfg.wysiwyg then
    ∀ middle orig placed, layout.reserve .physical cfg.resetPc size = .ok middle →
      middle.generate (cfg.linAddrConstraint size) = .ok (orig, placed) → cfg.canonicalizeLinAddr orig = cfg.resetPc
  else if cfg.randomizeCodeLocation then
    ∀ phys middle orig placed, layout.generate (cfg.physAddrConstraint size false) = .ok (phys, middle) →
      middle.generate (cfg.linAddrConstraint size) = .ok (orig, placed) → cfg.canonicalizeLinAddr orig = phys
  else
    cfg.identityMapCode = true ∨ ∀ runtimeEndAddr middle phys placed, layout.runtimeEndAddr = some runtimeEndAddr →
      layout.reserve .linear runtimeEndAddr size = .ok middle →
      middle.generate (cfg.physAddrConstraint size false) = .ok (phys, placed) → phys = runtimeEndAddr

/-- The condition for a section to be laid out contiguously. -/
def Contiguous (section' : String) (layout : Layout) : Prop :=
  cfg.pagingMode = .disable ∨
    match sectionKind cfg section' layout with
    | .selfcheckData => cfg.numSelfcheckPages ≤ 1
    | .testExecutionData => TakenBefore cfg (testExecutionFirst cfg) layout
    | .code =>
        if cfg.privMode = .machine then
          cfg.wysiwyg = true ∨ cfg.randomizeCodeLocation = false ∨ TakenBefore cfg (codeCall cfg 0) layout
        else CodeAgrees cfg layout
    | _ => True

/-! ### Sections that always are -/

variable {cfg}
variable {layout layout' : Layout} {lin phys lin' phys' : ℕ}

theorem disable_of_noPaging (h : cfg.noPaging = true) : cfg.pagingMode = .disable := by
  simp only [SectionConfig.noPaging, decide_eq_true_eq] at h
  exact h.1

theorem identityMaps_of_disable {call : SectionCall} (h : cfg.pagingMode = .disable) : cfg.identityMaps call = true := by
  simp [SectionConfig.identityMaps, h]

/-- The calls of a section that are given both addresses. -/
theorem callsFor_pageCall {group : PageGroup} {name physName : ℕ → String}
    {iscode alwaysSuper alwaysUser skipLinker skipPageMap : Bool} (hname : ∀ i, i ≠ 0 → name i = group.name i)
    (hphysName : ∀ i, i ≠ 0 → (if physName i = "" then name i ++ "_phys" else physName i) = group.physName i)
    (hmapped : (!(skipPageMap || cfg.noPaging)) = group.mapped) (hsame : cfg.pagingMode = .disable → lin = phys) :
    CallsFor cfg group (pageCall name physName iscode alwaysSuper alwaysUser skipLinker skipPageMap) lin phys where
  name i hi _ _ := hname i hi
  physName i hi _ _ := hphysName i hi
  skips _ _ _ := hmapped
  size _ _ _ := rfl
  puts _ k := putsPage_given (Nat.succ_pos _) rfl rfl rfl fun hdisable => by rw [hsame hdisable]

/-- The calls of a section that are given one address, which is to be both. -/
theorem callsFor_single {group : PageGroup} {call : ℕ → ℕ → ℕ → SectionCall}
    (hname : ∀ i, i ≠ 0 → ∀ lin phys, (call i lin phys).name = group.name i)
    (hphysName : ∀ i, i ≠ 0 → ∀ lin phys, (call i lin phys).physAddrName = group.physName i)
    (hmapped : ∀ i lin phys, (!cfg.skips (call i lin phys)) = group.mapped)
    (hsize : ∀ i lin phys, (call i lin phys).size = 0x1000)
    (hstart : ∀ i addr, (call i addr addr).startAddr = some addr)
    (hstartLin : ∀ i addr, (call i addr addr).startLinAddr = none)
    (hplain : ∀ i addr, cfg.skips (call i addr addr) = true ∨ cfg.identityMaps (call i addr addr) = true)
    (hsame : lin = phys) : CallsFor cfg group call lin phys where
  name := hname
  physName := hphysName
  skips := hmapped
  size := hsize
  puts i k := by
    subst hsame
    exact putsPage_single (by rw [hsize]; exact Nat.succ_pos _) (hstart i _) (hstartLin i _) (hplain i _)

theorem plain_of_mapped {call : SectionCall} (hskip : call.skipPageMap = false) :
    cfg.identityMaps call = true ∨ cfg.skips call = false := by
  by_cases hpaging : cfg.noPaging = true
  · exact .inl (identityMaps_of_disable (disable_of_noPaging hpaging))
  · right
    simp only [Bool.not_eq_true] at hpaging
    rw [SectionConfig.skips, hskip, hpaging]
    rfl

/-- Names that begin with something are names. -/
theorem append_ne_empty {front : String} (back : String) (hfront : front ≠ "") : front ++ back ≠ "" := by
  simp [hfront]

theorem firstOr_of_ne {first further : String} {i : ℕ} (hi : i ≠ 0) : firstOr first further i = further ++ toString i :=
  if_neg hi

theorem firstOrPhys_of_ne {first first' further : String} {i : ℕ} (hi : i ≠ 0) :
    firstOr first further i ++ "_phys" = firstOrPhys first' further i := by
  rw [firstOr_of_ne hi]
  exact (if_neg hi).symm

/-- The first call of a section that is placed freely. -/
theorem placesFirst_free {first : SectionCall} (htraced : AddrGen.Traced layout.gen)
    (hsize : 0 < first.size → 0x1000 ≤ first.size) (hstart : first.startAddr = none)
    (hstartLin : first.startLinAddr = none) (hplain : cfg.identityMaps first = true ∨ cfg.skips first = false) :
    PlacesFirst cfg first layout := by
  intro lin phys middle hfirst
  obtain ⟨hpage, linear, hadds⟩ := firstPage_free htraced hsize hstart hstartLin hplain hfirst
  exact ⟨hpage, _, _, hadds⟩

theorem addData_laidOut {name : String} (htraced : AddrGen.Traced layout.gen)
    (h : addData cfg name layout = .ok layout') : LaidOut cfg layout' (dataPages cfg name) := by
  unfold addData at h
  obtain ⟨⟨lin', phys', last⟩, hblock, h⟩ := bind_ok h
  obtain rfl := Except.ok.inj h
  have hsize : 0x1000 ≤ cfg.dataSize ∧ cfg.dataSize / 0x1000 ≠ 0 := by
    unfold SectionConfig.dataSize
    split_ifs <;> decide
  obtain ⟨lin, phys, hlaid, _⟩ := addBlock_laidOut (dataPages cfg name) htraced hsize.2 hblock rfl
    (if_neg (append_ne_empty name (by decide))) rfl (placesFirst_free htraced (fun _ => hsize.1) rfl rfl (plain_of_mapped rfl))
    fun lin phys hsame => callsFor_pageCall (fun _ _ => rfl) (fun _ hi => firstOrPhys_of_ne hi) rfl
      fun hdisable => hsame (.inr (identityMaps_of_disable hdisable))
  exact hlaid.laidOut

/-- Any call keeps what is there. -/
theorem addSectionHandler_larger {call : SectionCall} (htraced : AddrGen.Traced layout.gen)
    (h : addSectionHandler cfg call layout = .ok (lin, phys, layout')) : Larger layout layout' := by
  obtain ⟨placed, hplaced, hadds⟩ := addSectionHandler_ok h
  exact ⟨_, _, (hadds _ _ ((allocate_moves hplaced).reserves htraced)).1⟩

theorem addSingles_larger {call : ℕ → SectionCall} {numbers : List ℕ} (htraced : AddrGen.Traced layout.gen)
    (h : addSingles cfg call numbers layout = .ok layout') : Larger layout layout' := by
  induction numbers generalizing layout with
  | nil =>
      obtain rfl := Except.ok.inj h
      exact .refl layout
  | cons i rest ih =>
      rw [addSingles] at h
      obtain ⟨⟨lin, phys, middle⟩, hfirst, h⟩ := bind_ok h
      have hlarger := addSectionHandler_larger htraced hfirst
      exact hlarger.trans (ih (hlarger.traced htraced) h)

/-- An empty block is refused by the address generator. -/
theorem free_pos {call : SectionCall} (htraced : AddrGen.Traced layout.gen) (hstart : call.startAddr = none)
    (hstartLin : call.startLinAddr = none) (h : addSectionHandler cfg call layout = .ok (lin, phys, layout')) :
    0 < call.size := by
  obtain ⟨placed, hplaced, _⟩ := addSectionHandler_ok h
  obtain ⟨hstartOf, hstartLinOf⟩ := @startOf_none cfg call hstart hstartLin
  cases hidentity : cfg.identityMaps call with
  | true => exact (allocate_free_identity htraced hstartOf hstartLinOf hidentity hplaced).2.2
  | false =>
      cases hskips : cfg.skips call with
      | true => exact (allocate_free_skips htraced hstartOf hstartLinOf hidentity hskips hplaced).2.2.2
      | false =>
          obtain ⟨_, _, _, _, _, _, hpos⟩ := allocate_free htraced hstartOf hstartLinOf hidentity hskips hplaced
          exact hpos

theorem block_pos {first : SectionCall} {call : ℕ → ℕ → ℕ → SectionCall} {count : ℕ}
    (htraced : AddrGen.Traced layout.gen) (hstart : first.startAddr = none) (hstartLin : first.startLinAddr = none)
    (h : addBlock cfg first call count layout = .ok (lin, phys, layout')) : 0 < first.size := by
  unfold addBlock at h
  obtain ⟨⟨lin, phys, middle⟩, hfirst, _⟩ := bind_ok h
  exact free_pos htraced hstart hstartLin hfirst

theorem addHartContext_laidOut (htraced : AddrGen.Traced layout.gen)
    (h : addHartContext cfg layout = .ok layout') : LaidOut cfg layout' (hartContextPages cfg) := by
  unfold addHartContext at h
  obtain ⟨⟨lin', phys', middle⟩, hblock, h⟩ := bind_ok h
  have hpos : 0 < 0x1000 * cfg.numHartContextPages := block_pos htraced rfl rfl hblock
  have hcount : cfg.numHartContextPages ≠ 0 := (Nat.pos_of_mul_pos_left hpos).ne'
  obtain ⟨lin, phys, hlaid, hlarger, _⟩ := addBlock_laidOut (hartContextPages cfg) htraced hcount hblock rfl rfl rfl
    (placesFirst_free htraced (fun _ => Nat.le_mul_of_pos_right _ (Nat.pos_of_ne_zero hcount)) rfl rfl
      (plain_of_mapped rfl))
    fun lin phys hsame => callsFor_pageCall (fun _ _ => rfl)
      (fun _ hi => if_neg (by rw [firstOr_of_ne hi]; exact append_ne_empty _ (by decide))) rfl
      fun hdisable => hsame (.inr (identityMaps_of_disable hdisable))
  exact (hlaid.larger (addSingles_larger (hlarger.traced htraced) h)).laidOut

/-- Names of further pages that are given, and are not empty. -/
theorem physName_of_ne {name physName : ℕ → String} {i : ℕ} (h : physName i ≠ "") :
    (if physName i = "" then name i ++ "_phys" else physName i) = physName i :=
  if_neg h

theorem getPageCount_pos (name : String) : 0 < cfg.getPageCount name := by
  unfold SectionConfig.getPageCount
  split_ifs <;> decide

/-- No physical start is given. -/
theorem firstPage_free_or_startLin {call : SectionCall} (htraced : AddrGen.Traced layout.gen)
    (hsize : 0x1000 ≤ call.size) (hstart : call.startAddr = none)
    (hplain : cfg.identityMaps call = true ∨ cfg.skips call = false)
    (h : addSectionHandler cfg call layout = .ok (lin, phys, layout')) :
    FirstPage cfg call layout' lin phys ∧ ∃ linear, Adds layout layout' linear (Within phys call.size) := by
  cases hstartLin : call.startLinAddr with
  | none => exact firstPage_free htraced (fun _ => hsize) hstart hstartLin hplain h
  | some startLin => exact firstPage_startLin htraced hsize hstart hstartLin h

theorem addCSection_laidOut {name : String} {isCode : Bool} (htraced : AddrGen.Traced layout.gen)
    (h : addCSection cfg name isCode layout = .ok layout') : LaidOut cfg layout' (cSectionPages cfg name) := by
  unfold addCSection at h
  dsimp only at h
  obtain ⟨⟨lin, phys, middle⟩, hfirst, h⟩ := bind_ok h
  obtain ⟨⟨lin', phys', last⟩, hpages, h⟩ := bind_ok h
  obtain rfl := Except.ok.inj h
  have hcount : 0x1000 ≤ 0x1000 * cfg.getPageCount name := Nat.le_mul_of_pos_right _ (getPageCount_pos name)
  obtain ⟨⟨hpage, hsame⟩, _, hadds⟩ := firstPage_free_or_startLin htraced hcount rfl (plain_of_mapped rfl) hfirst
  have hphysName : ∀ i, firstOr ("__section_" ++ name) ("__section_" ++ name ++ "_") i ≠ "" := by
    intro i
    unfold firstOr
    split_ifs
    · exact append_ne_empty _ (by decide)
    · rw [String.append_assoc, String.append_assoc]
      exact append_ne_empty _ (by decide)
  have hnoted : PageAt cfg { middle with nextCSectionLinAddr := some (lin + 0x1000 * cfg.getPageCount name) }
      (!cfg.noPaging) ((cSectionPages cfg name).name 0) ((cSectionPages cfg name).physName 0) lin phys := by
    have hfirstName : (if "__section_" ++ name = "" then name ++ "_phys" else "__section_" ++ name) =
        "__section_" ++ name := if_neg (append_ne_empty name (by decide))
    obtain ⟨hregistered, hphysical, hlinear⟩ := hpage
    rw [SectionCall.physAddrName, hfirstName] at hregistered
    exact ⟨⟨hregistered.linAddr, hregistered.physAddr, hregistered.page⟩, hphysical, hlinear⟩
  have hunmapped : (cSectionPages cfg name).mapped = false → lin = phys := fun h =>
    hsame (.inl ((Bool.not_eq_false' _).mp h))
  have hcalls : CallsFor cfg (cSectionPages cfg name) (pageCall (firstOr name (name ++ "_"))
      (firstOr ("__section_" ++ name) ("__section_" ++ name ++ "_")) isCode false (!isCode) false false) lin phys :=
    callsFor_pageCall (fun _ _ => rfl) (fun i _ => physName_of_ne (hphysName i)) rfl
      fun hdisable => hsame (.inr (identityMaps_of_disable hdisable))
  have htraced' : AddrGen.Traced
      (Layout.gen { middle with nextCSectionLinAddr := some (lin + 0x1000 * cfg.getPageCount name) }) :=
    htraced.steps hadds.steps
  obtain ⟨hlaid, _⟩ := addPages_laidOut htraced' (getPageCount_pos name).ne' hnoted hunmapped hcalls hpages
  exact hlaid.laidOut

/-! ### The runtime -/

/-- An optional block of pages that are given both addresses, which are the same. -/
theorem addRuntimeBlock_laidOut {call : ℕ → ℕ → ℕ → SectionCall} (group : PageGroup) {addr : ℕ}
    (htraced : AddrGen.Traced layout.gen) (hstart : (call 0 addr addr).startAddr = some addr)
    (hstartLin : (call 0 addr addr).startLinAddr = some addr) (hmap : (call 0 addr addr).identityMap = false)
    (hname : (call 0 addr addr).name = group.name 0) (hphysName : (call 0 addr addr).physAddrName = group.physName 0)
    (hmapped : (!cfg.skips (call 0 addr addr)) = group.mapped) (hcalls : CallsFor cfg group call addr addr)
    (h : addRuntimeBlock cfg (group.count ≠ 0) call group.count addr addr layout = .ok (lin', phys', layout')) :
    (group.count ≠ 0 → LaidOutAt cfg layout' group addr addr) ∧ lin' = phys' ∧ Larger layout layout' := by
  by_cases hcount : group.count = 0
  · simp only [addRuntimeBlock, hcount, ne_eq, not_true_eq_false, decide_false, Bool.false_eq_true, if_false] at h
    obtain ⟨rfl, hrest⟩ := Prod.mk.inj (Except.ok.inj h)
    obtain ⟨rfl, rfl⟩ := Prod.mk.inj hrest
    exact ⟨fun hne => absurd hcount hne, rfl, .refl _⟩
  · rw [addRuntimeBlock, if_pos (decide_eq_true hcount), addBlock] at h
    obtain ⟨⟨lin₁, phys₁, middle⟩, hfirst, h⟩ := bind_ok h
    have hsize : 0x1000 ≤ 0x1000 * group.count := Nat.le_mul_of_pos_right _ (Nat.pos_of_ne_zero hcount)
    have hputs : PutsPage cfg { call 0 addr addr with size := 0x1000 * group.count } addr addr :=
      putsPage_given (Nat.lt_of_lt_of_le (by decide) hsize) hstart hstartLin hmap fun _ => rfl
    obtain ⟨hlaid, rfl, rfl, hlarger⟩ :=
      given_laidOut group htraced hcount hputs hsize hname hphysName hmapped (fun _ => rfl) hcalls hfirst h
    exact ⟨fun _ => hlaid, rfl, hlarger.larger⟩

/-- The pages of the runtime are at the reset address, the optional blocks behind them. -/
theorem addRuntime_laidOut (htraced : AddrGen.Traced layout.gen) (h : addRuntime cfg layout = .ok layout') :
    LaidOut cfg layout' runtimePages ∧ (cfg.numUserRuntimePages ≠ 0 → LaidOut cfg layout' (runtimeUserPages cfg)) ∧
      (cfg.numRuntimeSPages ≠ 0 → LaidOut cfg layout' (runtimeSPages cfg)) := by
  unfold addRuntime at h
  obtain ⟨⟨lin₁, phys₁, first⟩, hruntime, h⟩ := bind_ok h
  obtain ⟨⟨lin₂, phys₂, second⟩, huser, h⟩ := bind_ok h
  obtain ⟨⟨lin₃, phys₃, third⟩, hsuper, h⟩ := bind_ok h
  obtain rfl := Except.ok.inj h
  have hsize : 0x1000 ≤ (runtimeCall cfg).size :=
    Nat.le_mul_of_pos_right _ (by unfold numRuntimePages; omega)
  have hplaces : PlacesFirst cfg (runtimeCall cfg) layout := by
    intro lin phys middle hfirst
    obtain ⟨hpage, _, _, hadds⟩ := firstPage_start htraced hsize rfl rfl hfirst
    exact ⟨hpage, _, _, hadds⟩
  obtain ⟨lin, phys, hlaid, hlarger, hsame, rfl, rfl⟩ := addBlock_laidOut runtimePages htraced (by decide) hruntime rfl
    rfl rfl hplaces fun lin phys hsame => callsFor_single (fun _ _ _ _ => rfl)
      (fun _ hi _ _ => firstOrPhys_of_ne hi) (fun _ _ _ => rfl) (fun _ _ _ => rfl) (fun _ _ => rfl) (fun _ _ => rfl)
      (fun _ _ => .inl rfl) (hsame (.inl rfl))
  obtain rfl := hsame (.inl rfl)
  have hcallsUser : ∀ addr, CallsFor cfg (runtimeUserPages cfg) runtimeUserCall addr addr := fun _ =>
    callsFor_pageCall (fun _ _ => rfl) (fun _ hi => firstOrPhys_of_ne hi) rfl fun _ => rfl
  have hcallsSuper : ∀ addr, CallsFor cfg (runtimeSPages cfg) runtimeSCall addr addr := fun _ =>
    callsFor_pageCall (fun _ _ => rfl) (fun _ hi => firstOrPhys_of_ne hi) rfl fun _ => rfl
  obtain ⟨hlaidUser, rfl, hlargerUser⟩ := addRuntimeBlock_laidOut (runtimeUserPages cfg) (hlarger.traced htraced)
    rfl rfl rfl rfl rfl rfl (hcallsUser _) huser
  have htraced' := hlargerUser.traced (hlarger.traced htraced)
  obtain ⟨hlaidSuper, _, hlargerSuper⟩ := addRuntimeBlock_laidOut (runtimeSPages cfg) htraced' rfl rfl rfl rfl rfl rfl
    (hcallsSuper _) hsuper
  have hend : Larger third { third with runtimeEndAddr := some lin₃ } := ⟨_, _, .same rfl rfl rfl⟩
  exact ⟨(hlaid.larger ((hlargerUser.trans hlargerSuper).trans hend)).laidOut,
    fun hne => ((hlaidUser hne).larger (hlargerSuper.trans hend)).laidOut,
    fun hne => ((hlaidSuper hne).larger hend).laidOut⟩

end Riescue.Sections
