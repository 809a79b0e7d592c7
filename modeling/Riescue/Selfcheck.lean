import Riescue.LibAssembly
import Riescue.LibFletcher
import Riescue.VariableAmo

/-! The checksum of the selfcheck, `runtime/selfcheck.py`: every resource loads its values into `t0`, and each value is
folded into the two sums. At the end of a test the routine saves the sums, or compares them with the saved ones. -/

namespace Riescue.Selfcheck
open Machine (Reg readBytes)
open Assembly Fletcher
open Variables (Variable VariableFault)

abbrev t0 : Reg := 5
abbrev t1 : Reg := 6
abbrev t2 : Reg := 7
abbrev t3 : Reg := 28
abbrev t4 : Reg := 29
abbrev t5 : Reg := 30
abbrev t6 : Reg := 31
abbrev tp : Reg := 4

abbrev Instr := Assembly.Instr String String

/-- `SELFCHECK_CHECKSUM_SIZE` -/
def checksumSize : ℤ := 16

/-- `_fletcher_update` -/
def fletcherUpdate : List Instr :=
  [.add t5 t5 t0, .alu .sltu t1 t5 t0, .add t5 t5 t1, .add t6 t6 t5, .alu .sltu t1 t6 t5, .add t6 t6 t1]

/-- `generate_checksum_update_code`: the code that loads each value of the resource, and the fold behind it. -/
def generateChecksumUpdateCode (loads : List (List Instr)) : List Instr := loads.flatMap fun load => load ++ fletcherUpdate

/-- The loads of a `VariableResource`. -/
def variableLoads (v : Variable) : Except VariableFault (List (List Instr)) :=
  (List.range v.elementCount).mapM fun i : ℕ => do
    let code ← v.load t0 i
    pure (code.map .core)

/-- The load of a `CsrResource`. -/
def csrLoads (csrName : String) : List (List Instr) := [[.csrr t0 csrName]]

inductive Label where
  | saveOrCheck | doSave | doCheck | ret | eotFailed
  deriving DecidableEq, Repr

abbrev Line := Assembly.Line String String Label

abbrev instrs (code : List Instr) : List Line := code.map .instr

/-- The start of `_generate_save_or_check_routine`: the base of the hart, and the sums. -/
def setup : List Instr :=
  [.csrr t0 "mhartid", .core (.li t1 (.symbol "selfcheck_per_hart_size" 0)), .alu .mul t0 t0 t1,
    .core (.li t1 (.symbol "selfcheck_data_pa" 0)), .add t3 t0 t1, .li t5 0, .li t6 0]

def saveCode : List Instr :=
  [.ld t0 0 t3, .addi t4 t3 8, .add t4 t4 t0, .sd t5 0 t4, .sd t6 8 t4, .addi t0 t0 checksumSize, .sd t0 0 t3]

/-- The lines behind `selfcheck__do_check`. -/
def checkLines (loadOffset storeOffset : List Instr) : List Line :=
  instrs (loadOffset ++ [.core (.li t1 (.symbol "selfcheck_per_hart_size" (-8)))]) ++
    .branch .ge t0 t1 .eotFailed :: (instrs [.addi t4 t3 8, .add t4 t4 t0, .ld t1 0 t4] ++
    .branch .ne t5 t1 .eotFailed :: (instrs [.ld t1 8 t4] ++
    .branch .ne t6 t1 .eotFailed :: (instrs (.addi t0 t0 checksumSize :: storeOffset) ++ [.jump .ret])))

/-- `_generate_save_or_check_routine`, with the code of the resources and of the accesses to the two variables. -/
def saveOrCheckRoutine (loads : List (List Instr)) (loadMode loadOffset storeOffset : List Instr) : List Line :=
  .label .saveOrCheck :: (instrs (setup ++ generateChecksumUpdateCode loads ++ loadMode) ++
    .branch .ne t0 0 .doCheck :: .label .doSave :: (instrs saveCode ++
    .jump .ret :: .label .doCheck :: checkLines loadOffset storeOffset))

/-- `Selfcheck`: the two variables of a hart, and the loads of the resources. -/
structure Generator where
  mode : Variable
  checkOffset : Variable
  loads : List (List Instr)
  hmode : mode.size = 8 ∧ mode.IsIndex 0
  hcheckOffset : checkOffset.size = 8 ∧ checkOffset.IsIndex 0

def Generator.generateSaveOrCheckRoutine (selfcheck : Generator) : Except VariableFault (List Line) := do
  let loadMode ← selfcheck.mode.load t0 0
  let loadOffset ← selfcheck.checkOffset.load t0 0
  let storeOffset ← selfcheck.checkOffset.store t0 t6 0
  pure (saveOrCheckRoutine selfcheck.loads (loadMode.map .core) (loadOffset.map .core) (storeOffset.map .core))

/-! ### One value -/

variable {σ : Type} {file : CsrFile σ String 64} {symbols : String → BitVec 64} {scratch : BitVec 64 → Prop}

/-- The values of `t5` and `t6`. -/
def sums (h : Hart 64 σ) : BitVec 64 × BitVec 64 := (h.get t5, h.get t6)

/-- A resource leaves `t3` and `t4`, the pointer to the context, the CSRs and the memory but for its scratch area. -/
structure Kept (scratch : BitVec 64 → Prop) (h h' : Hart 64 σ) : Prop where
  mem : ∀ a, ¬scratch a → h'.core.mem a = h.core.mem a
  csrs : h'.csrs = h.csrs
  reg : ∀ r, r ∉ [t0, t1, t2, t5, t6] → h'.get r = h.get r

theorem Kept.refl (h : Hart 64 σ) : Kept scratch h h := ⟨fun _ _ => rfl, rfl, fun _ _ => rfl⟩

theorem Kept.trans {h₁ h₂ h₃ : Hart 64 σ} (h₁₂ : Kept scratch h₁ h₂) (h₂₃ : Kept scratch h₂ h₃) : Kept scratch h₁ h₃ :=
  ⟨fun a ha => (h₂₃.mem a ha).trans (h₁₂.mem a ha), h₂₃.csrs.trans h₁₂.csrs, fun r hr => (h₂₃.reg r hr).trans (h₁₂.reg r hr)⟩

theorem kept_set (h : Hart 64 σ) {r : Reg} (hr : r ∈ [t0, t1, t2, t5, t6]) (value : BitVec 64) :
    Kept scratch h (h.set r value) := by
  refine ⟨fun a _ => by rw [Hart.mem_set], rfl, fun r' hr' => Hart.get_set_of_ne h ?_ value⟩
  rintro rfl
  exact hr' hr

theorem run_fletcherUpdate (file : CsrFile σ String 64) (symbols : String → BitVec 64) (scratch : BitVec 64 → Prop)
    (h : Hart 64 σ) : ∃ h', runStraight file symbols fletcherUpdate h = some h' ∧
      sums h' = update (sums h) (h.get t0) ∧ Kept scratch h h' := by
  let h₁ := h.set t5 (h.get t5 + h.get t0)
  let h₂ := h₁.set t1 (if h.get t5 + h.get t0 < h.get t0 then 1 else 0)
  let h₃ := h₂.set t5 (endAround (h.get t5) (h.get t0))
  let h₄ := h₃.set t6 (h.get t6 + endAround (h.get t5) (h.get t0))
  let h₅ := h₄.set t1 (carry (h.get t6) (endAround (h.get t5) (h.get t0)))
  refine ⟨h₅.set t6 (endAround (h.get t6) (endAround (h.get t5) (h.get t0))), rfl, rfl, ?_⟩
  exact ((((((kept_set h (by decide) _).trans (kept_set h₁ (by decide) _)).trans (kept_set h₂ (by decide) _)).trans
    (kept_set h₃ (by decide) _)).trans (kept_set h₄ (by decide) _)).trans (kept_set h₅ (by decide) _))

/-! ### The resources -/

/-- The code puts the value into `t0`, in every state the resources before it can leave. -/
def Feeds (file : CsrFile σ String 64) (symbols : String → BitVec 64) (scratch : BitVec 64 → Prop) (h : Hart 64 σ)
    (load : List Instr) (value : BitVec 64) : Prop :=
  ∀ h₁, Kept scratch h h₁ → ∃ h₂, runStraight file symbols load h₁ = some h₂ ∧ h₂.get t0 = value ∧ sums h₂ = sums h₁ ∧
    Kept scratch h₁ h₂

/-- The resources fold their values, one after the other. -/
theorem run_generateChecksumUpdateCode {h : Hart 64 σ} {loads : List (List Instr)} {values : List (BitVec 64)}
    (hfeeds : List.Forall₂ (Feeds file symbols scratch h) loads values) {h₁ : Hart 64 σ} (hkept : Kept scratch h h₁) :
    ∃ h₂, runStraight file symbols (generateChecksumUpdateCode loads) h₁ = some h₂ ∧
      sums h₂ = values.foldl update (sums h₁) ∧ Kept scratch h h₂ := by
  induction hfeeds generalizing h₁ with
  | nil => exact ⟨h₁, rfl, rfl, hkept⟩
  | @cons load value loads values hfeed _ ih =>
      obtain ⟨loaded, hload, hvalue, hsums, hloaded⟩ := hfeed h₁ hkept
      obtain ⟨folded, hfold, hupdate, hfolded⟩ := run_fletcherUpdate file symbols scratch loaded
      obtain ⟨h₂, hrest, hchecksum, hkept₂⟩ := ih ((hkept.trans hloaded).trans hfolded)
      refine ⟨h₂, ?_, ?_, hkept₂⟩
      · rw [generateChecksumUpdateCode, List.flatMap_cons, List.append_assoc, runStraight_append hload,
          runStraight_append hfold]
        exact hrest
      · rw [hchecksum, hupdate, hvalue, hsums, List.foldl_cons]

/-- The value of a CSR. -/
theorem feeds_csr (file : CsrFile σ String 64) (symbols : String → BitVec 64) (scratch : BitVec 64 → Prop) (h : Hart 64 σ)
    (csrName : String) : Feeds file symbols scratch h [.csrr t0 csrName] (file.read h.csrs csrName) := by
  intro h₁ hkept
  refine ⟨h₁.set t0 (file.read h₁.csrs csrName), rfl, ?_, rfl, kept_set h₁ (by decide) _⟩
  rw [Hart.get_set_self h₁ (by decide), hkept.csrs]

/-- The bytes are no scratch area. -/
def Apart (scratch : BitVec 64 → Prop) (n : ℕ) (addr : BitVec 64) : Prop := ∀ i < n, ¬scratch (addr + BitVec.ofNat 64 i)

theorem Kept.readBytes {h h' : Hart 64 σ} (hkept : Kept scratch h h') {n : ℕ} {addr : BitVec 64}
    (hapart : Apart scratch n addr) : readBytes h'.core.mem n addr = readBytes h.core.mem n addr :=
  Machine.readBytes_congr fun i hi => hkept.mem _ (hapart i hi)

/-- The value of an element of a variable. -/
def elementValue (symbols : String → BitVec 64) (h : Hart 64 σ) (v : Variable) (index : ℤ) : BitVec 64 :=
  (readBytes h.core.mem v.size (Variables.elementAddress symbols h.core v index true)).signExtend 64

/-- No byte of the element is scratch area. -/
def ElementApart (symbols : String → BitVec 64) (scratch : BitVec 64 → Prop) (h : Hart 64 σ) (v : Variable) (index : ℤ) :
    Prop := Apart scratch v.size (Variables.elementAddress symbols h.core v index true)

theorem Kept.elementAddress {h h' : Hart 64 σ} (hkept : Kept scratch h h') (v : Variable) (index : ℤ) :
    Variables.elementAddress symbols h'.core v index true = Variables.elementAddress symbols h.core v index true :=
  Variables.elementAddress_congr (hkept.reg tp (by decide))

theorem Kept.elementValue {h h' : Hart 64 σ} (hkept : Kept scratch h h') {v : Variable} {index : ℤ}
    (hapart : ElementApart symbols scratch h v index) : elementValue symbols h' v index = elementValue symbols h v index := by
  rw [Selfcheck.elementValue, Selfcheck.elementValue, hkept.elementAddress, hkept.readBytes hapart]

theorem wide_of_mem {size : ℕ} (hsize : size ∈ [1, 2, 4, 8]) : 8 * size ≤ 64 := by
  simp only [List.mem_cons, List.not_mem_nil, or_false] at hsize
  omega

/-- The load of an element sets `t0`. -/
theorem run_variableLoad {v : Variable} {index : ℤ} (hindex : v.IsIndex index) (hsize : v.size ∈ [1, 2, 4, 8]) :
    ∃ code, v.load t0 index = .ok code ∧ ∀ h : Hart 64 σ, ∃ h',
      runStraight file symbols (code.map .core) h = some h' ∧ h'.get t0 = elementValue symbols h v index ∧
      h'.core.mem = h.core.mem ∧ h'.csrs = h.csrs ∧ ∀ r, r ≠ t0 → h'.get r = h.get r := by
  obtain ⟨code, hload, hrun⟩ := @Variables.run_load 64 _ _ hindex hsize t0 true
  refine ⟨code, hload, fun h => ?_⟩
  obtain ⟨core, hcore, hmem, -, hdest, hother⟩ := hrun symbols h.core
  refine ⟨{ h with core }, ?_, ?_, hmem, rfl, fun r hr => hother r hr⟩
  · rw [runStraight_core, hcore, if_pos (wide_of_mem hsize)]
    rfl
  · have haddress : Variables.accessAddress symbols h.core v index true t0 =
        Variables.elementAddress symbols h.core v index true := by
      rw [Variables.accessAddress, Variables.computedAddress_eq (by decide) fun _ => by decide, ite_self]
    rw [elementValue, ← haddress]
    exact hdest (by decide)

theorem kept_of_load {h h' : Hart 64 σ} (hmem : h'.core.mem = h.core.mem) (hcsrs : h'.csrs = h.csrs)
    (hother : ∀ r, r ≠ t0 → h'.get r = h.get r) : Kept scratch h h' := by
  refine ⟨fun a _ => by rw [hmem], hcsrs, fun r hr => hother r ?_⟩
  rintro rfl
  exact hr (by decide)

/-- The values of a variable, element by element. -/
theorem variableLoads_feeds {v : Variable} (hsize : v.size ∈ [1, 2, 4, 8]) {h : Hart 64 σ}
    (hapart : ∀ i < v.elementCount, ElementApart symbols scratch h v i) :
    ∃ loads, variableLoads v = .ok loads ∧ List.Forall₂ (Feeds file symbols scratch h) loads
      ((List.range v.elementCount).map fun i : ℕ => elementValue symbols h v i) := by
  have hmapM : ∀ indices : List ℕ, (∀ i ∈ indices, i < v.elementCount) →
      ∃ loads, indices.mapM (fun i : ℕ => do let code ← v.load t0 i; pure (code.map Instr.core)) = Except.ok loads ∧
        List.Forall₂ (Feeds file symbols scratch h) loads (indices.map fun i : ℕ => elementValue symbols h v i) := by
    intro indices hindices
    induction indices with
    | nil => exact ⟨[], rfl, .nil⟩
    | cons i indices ih =>
        obtain ⟨hi, hrest⟩ := List.forall_mem_cons.mp hindices
        obtain ⟨loads, hloads, hfeeds⟩ := ih hrest
        obtain ⟨code, hload, hrun⟩ := @run_variableLoad σ file symbols v i ⟨by omega, by omega⟩ hsize
        refine ⟨code.map .core :: loads, ?_, .cons ?_ hfeeds⟩
        · rw [List.mapM_cons, hload, hloads]
          rfl
        · intro h₁ hkept
          obtain ⟨h₂, hrun₂, hvalue, hmem, hcsrs, hother⟩ := hrun h₁
          refine ⟨h₂, hrun₂, hvalue.trans (hkept.elementValue (hapart i hi)), ?_, kept_of_load hmem hcsrs hother⟩
          exact Prod.ext (hother t5 (by decide)) (hother t6 (by decide))
  exact hmapM _ fun i hi => List.mem_range.mp hi

/-! ### The routine -/

/-- The base of the hart. -/
def base (file : CsrFile σ String 64) (symbols : String → BitVec 64) (h : Hart 64 σ) : BitVec 64 :=
  file.read h.csrs "mhartid" * symbols "selfcheck_per_hart_size" + symbols "selfcheck_data_pa"

/-- Where the sums of this check were saved. -/
def savedAddress (file : CsrFile σ String 64) (symbols : String → BitVec 64) (selfcheck : Generator) (h : Hart 64 σ) :
    BitVec 64 := base file symbols h + 8 + elementValue symbols h selfcheck.checkOffset 0

/-- In front of the routine the resources have the values. -/
def ResourcesFeed (file : CsrFile σ String 64) (symbols : String → BitVec 64) (scratch : BitVec 64 → Prop)
    (selfcheck : Generator) (h : Hart 64 σ) (values : List (BitVec 64)) : Prop :=
  ∀ h₁, runStraight file symbols setup h = some h₁ → List.Forall₂ (Feeds file symbols scratch h₁) selfcheck.loads values

/-- A hart in front of the routine in check mode: the resources have the values, the offset is inside the region of the
hart, and the sums are saved there. -/
structure Checks (file : CsrFile σ String 64) (symbols : String → BitVec 64) (scratch : BitVec 64 → Prop)
    (selfcheck : Generator) (h : Hart 64 σ) (values : List (BitVec 64)) (saved : BitVec 64 × BitVec 64) : Prop where
  feeds : ResourcesFeed file symbols scratch selfcheck h values
  mode : elementValue symbols h selfcheck.mode 0 ≠ 0
  inside : (elementValue symbols h selfcheck.checkOffset 0).toInt <
    (symbols "selfcheck_per_hart_size" + BitVec.ofInt 64 (-8)).toInt
  saved1 : readBytes h.core.mem 8 (savedAddress file symbols selfcheck h) = saved.1
  saved2 : readBytes h.core.mem 8 (savedAddress file symbols selfcheck h + 8) = saved.2
  modeApart : ElementApart symbols scratch h selfcheck.mode 0
  offsetApart : ElementApart symbols scratch h selfcheck.checkOffset 0
  savedApart : Apart scratch 8 (savedAddress file symbols selfcheck h) ∧
    Apart scratch 8 (savedAddress file symbols selfcheck h + 8)

theorem run_setup (file : CsrFile σ String 64) (symbols : String → BitVec 64) (h : Hart 64 σ) :
    ∃ h₁, runStraight file symbols setup h = some h₁ ∧ h₁.get t3 = base file symbols h ∧ sums h₁ = (0#64, 0#64) ∧
      h₁.core.mem = h.core.mem ∧ h₁.get tp = h.get tp := by
  refine ⟨_, rfl, ?_, rfl, rfl, rfl⟩
  show file.read h.csrs "mhartid" * (symbols "selfcheck_per_hart_size" + BitVec.ofInt 64 0) +
    (symbols "selfcheck_data_pa" + BitVec.ofInt 64 0) = base file symbols h
  rw [Variables.add_ofInt_zero, Variables.add_ofInt_zero, base]

theorem elementValue_congr {h h' : Hart 64 σ} (hmem : h'.core.mem = h.core.mem) (hget : h'.get tp = h.get tp) (v : Variable)
    (index : ℤ) : elementValue symbols h' v index = elementValue symbols h v index := by
  rw [elementValue, elementValue, hmem, Variables.elementAddress_congr hget]

/-- A doubleword behind `t4` is compared with a sum. -/
theorem exits_compare {code : List Line} (hfailed : linesAt .eotFailed code = none) {sum : Reg} (hsum : sum ≠ t1) (offset : ℤ)
    (rest : List Line) (h : Hart 64 σ) :
    ∃ h' : Hart 64 σ, sums h' = sums h ∧ h'.core.mem = h.core.mem ∧ h'.get t4 = h.get t4 ∧
      ∀ exit out, Exits file symbols code (instrs [.ld t1 offset t4] ++ .branch .ne sum t1 .eotFailed :: rest) h exit out ↔
        if h.get sum = readBytes h.core.mem 8 (h.get t4 + BitVec.ofInt 64 offset) then Exits file symbols code rest h' exit out
        else exit = .to .eotFailed ∧ out = h' := by
  obtain ⟨h', hstep, hword, hmem, -, hother⟩ := step_ld file symbols h (by decide : t1 ≠ 0) offset t4
  refine ⟨h', Prod.ext (hother t5 (by decide)) (hother t6 (by decide)), hmem, hother t4 (by decide), fun exit out => ?_⟩
  have hrun : runStraight file symbols [.ld t1 offset t4] h = some h' := by rw [runStraight_cons hstep, runStraight_nil]
  have hne : Cond.holds (h'.get sum) (h'.get t1) .ne =
      decide (h.get sum ≠ readBytes h.core.mem 8 (h.get t4 + BitVec.ofInt 64 offset)) := by
    rw [hother sum hsum, hword]
    rfl
  refine (exits_straight hrun).trans ?_
  split_ifs with hequal
  · exact exits_not_branch (hne.trans (decide_eq_false (not_not.mpr hequal)))
  · exact exits_branch_out (hne.trans (decide_eq_true hequal)) hfailed

/-- The two compared words, in a state behind the fold. -/
theorem exits_checkLines {code : List Line} (hfailed : linesAt .eotFailed code = none) (hret : linesAt .ret code = none)
    {v : Variable} (hsize : v.size ∈ [1, 2, 4, 8]) (hindex : v.IsIndex 0) {h : Hart 64 σ} {address : BitVec 64}
    (haddress : h.get t3 + 8 + elementValue symbols h v 0 = address)
    (hinside : (elementValue symbols h v 0).toInt < (symbols "selfcheck_per_hart_size" + BitVec.ofInt 64 (-8)).toInt)
    {loadOffset storeOffset : Variables.Code} (hload : v.load t0 0 = .ok loadOffset)
    (hstore : v.store t0 t6 0 = .ok storeOffset) :
    (∃ out, Exits file symbols code (checkLines (loadOffset.map .core) (storeOffset.map .core)) h (.to .eotFailed) out) ↔
      sums h ≠ (readBytes h.core.mem 8 address, readBytes h.core.mem 8 (address + 8)) := by
  obtain ⟨loadOffset', hload', hrunLoad⟩ := @run_variableLoad σ file symbols v 0 hindex hsize
  obtain rfl := Except.ok.inj (hload'.symm.trans hload)
  obtain ⟨storeOffset', hstore', hrunStore⟩ := @Variables.run_store 64 _ _ hindex hsize t0 (by decide) true
  obtain rfl := Except.ok.inj (hstore'.symm.trans hstore)
  obtain ⟨h₁, hrun₁, hoffset, hmem₁, -, hother₁⟩ := hrunLoad h
  let h₂ := h₁.set t1 (symbols "selfcheck_per_hart_size" + BitVec.ofInt 64 (-8))
  have hrun₂ : runStraight file symbols (loadOffset'.map .core ++
      [.core (.li t1 (.symbol "selfcheck_per_hart_size" (-8)))]) h = some h₂ := runStraight_append hrun₁ _
  have ht3 : h₂.get t3 = h.get t3 := (Hart.get_set_of_ne h₁ (by decide) _).trans (hother₁ t3 (by decide))
  have ht0 : h₂.get t0 = elementValue symbols h v 0 := (Hart.get_set_of_ne h₁ (by decide) _).trans hoffset
  have hge : Cond.holds (h₂.get t0) (h₂.get t1) .ge = false := by
    have ht1 : h₂.get t1 = symbols "selfcheck_per_hart_size" + BitVec.ofInt 64 (-8) :=
      Hart.get_set_self h₁ (by decide) _
    rw [ht0, ht1, Cond.holds, decide_eq_false_iff_not]
    omega
  let hskip := h₂.set t4 (h₂.get t3 + BitVec.ofInt 64 8)
  let h₃ := hskip.set t4 (hskip.get t4 + hskip.get t0)
  have hrun₃ : runStraight file symbols [.addi t4 t3 8, .add t4 t4 t0] h₂ = some h₃ := rfl
  have height : BitVec.ofInt 64 8 = 8 := by decide
  have ht4 : h₃.get t4 = address := by
    rw [Hart.get_set_self hskip (by decide), Hart.get_set_self h₂ (by decide), Hart.get_set_of_ne h₂ (by decide), height, ht3,
      ht0, haddress]
  have hmem₃ : h₃.core.mem = h.core.mem :=
    (Hart.mem_set hskip t4 _).trans ((Hart.mem_set h₂ t4 _).trans ((Hart.mem_set h₁ t1 _).trans hmem₁))
  have hother₃ : ∀ r, r ≠ t4 → r ≠ t1 → r ≠ t0 → h₃.get r = h.get r := fun r hrt4 hrt1 hrt0 =>
    (Hart.get_set_of_ne hskip hrt4 _).trans ((Hart.get_set_of_ne h₂ hrt4 _).trans
      ((Hart.get_set_of_ne h₁ hrt1 _).trans (hother₁ r hrt0)))
  have hsums₃ : sums h₃ = sums h :=
    Prod.ext (hother₃ t5 (by decide) (by decide) (by decide)) (hother₃ t6 (by decide) (by decide) (by decide))
  obtain ⟨h₄, hsums₄, hmem₄, ht4₄, hfirst⟩ := @exits_compare σ file symbols code hfailed t5 (by decide) 0
    (instrs [.ld t1 8 t4] ++ .branch .ne t6 t1 .eotFailed ::
      (instrs (.addi t0 t0 checksumSize :: storeOffset'.map .core) ++ [.jump .ret])) h₃
  obtain ⟨h₅, -, -, -, hsecond⟩ := @exits_compare σ file symbols code hfailed t6 (by decide) 8
    (instrs (.addi t0 t0 checksumSize :: storeOffset'.map .core) ++ [.jump .ret]) h₄
  -- behind the comparisons nothing can fail
  have hend : ∀ out, ¬Exits file symbols code (instrs (.addi t0 t0 checksumSize :: storeOffset'.map .core) ++ [.jump .ret])
      h₅ (.to .eotFailed) out := by
    intro out hout
    obtain ⟨core₆, hcore₆, -⟩ := hrunStore symbols (h₅.set t0 (h₅.get t0 + BitVec.ofInt 64 checksumSize)).core
    have hrun₆ : runStraight file symbols (.addi t0 t0 checksumSize :: storeOffset'.map .core) h₅ =
        some { h₅ with core := core₆ } := by
      have haddi : step file symbols h₅ (.addi t0 t0 checksumSize) =
          some (h₅.set t0 (h₅.get t0 + BitVec.ofInt 64 checksumSize)) := rfl
      rw [runStraight_cons haddi, runStraight_core, hcore₆, if_pos (wide_of_mem hsize)]
      rfl
    have hexit := ((exits_straight hrun₆).trans (exits_jump_out hret)).mp hout
    cases hexit.1
  have hbefore : ∀ out, Exits file symbols code (checkLines (loadOffset'.map .core) (storeOffset'.map .core)) h
      (.to .eotFailed) out ↔ Exits file symbols code (instrs [.ld t1 0 t4] ++ .branch .ne t5 t1 .eotFailed ::
        (instrs [.ld t1 8 t4] ++ .branch .ne t6 t1 .eotFailed ::
          (instrs (.addi t0 t0 checksumSize :: storeOffset'.map .core) ++ [.jump .ret]))) h₃ (.to .eotFailed) out :=
    fun out => (exits_straight hrun₂).trans ((exits_not_branch hge).trans (exits_straight hrun₃))
  have ht5 : h₃.get t5 = h.get t5 := congrArg Prod.fst hsums₃
  have ht6 : h₄.get t6 = h.get t6 := congrArg Prod.snd (hsums₄.trans hsums₃)
  simp only [hbefore, hfirst, hsecond]
  rw [ht4₄, ht4, ht5, ht6, hmem₄, hmem₃, Variables.add_ofInt_zero, height, ne_eq, sums, Prod.mk.injEq, not_and_or]
  split_ifs with hword₁ hword₂
  · exact iff_of_false (fun ⟨out, hout⟩ => hend out hout) (not_or.mpr ⟨not_not.mpr hword₁, not_not.mpr hword₂⟩)
  · exact iff_of_true ⟨h₅, trivial, rfl⟩ (.inr hword₂)
  · exact iff_of_true ⟨h₄, trivial, rfl⟩ (.inl hword₁)

/-- In check mode the test fails exactly when the sums are not the saved ones. -/
theorem check_failed_iff {selfcheck : Generator} {lines : List Line} {h : Hart 64 σ} {values : List (BitVec 64)}
    {saved : BitVec 64 × BitVec 64} (hlines : selfcheck.generateSaveOrCheckRoutine = .ok lines)
    (hchecks : Checks file symbols scratch selfcheck h values saved) :
    (∃ out, Exits file symbols lines lines h (.to .eotFailed) out) ↔ checksum values ≠ saved := by
  obtain ⟨loadMode, hmode, hlines⟩ := Fallible.bind_ok hlines
  obtain ⟨loadOffset, hoffset, hlines⟩ := Fallible.bind_ok hlines
  obtain ⟨storeOffset, hstore, hlines⟩ := Fallible.bind_ok hlines
  obtain rfl := Except.ok.inj hlines
  have hmodeSize : selfcheck.mode.size ∈ [1, 2, 4, 8] := by rw [selfcheck.hmode.1]; decide
  have hoffsetSize : selfcheck.checkOffset.size ∈ [1, 2, 4, 8] := by rw [selfcheck.hcheckOffset.1]; decide
  obtain ⟨loadMode', hmode', hrunMode⟩ := @run_variableLoad σ file symbols _ _ selfcheck.hmode.2 hmodeSize
  obtain rfl := Except.ok.inj (hmode'.symm.trans hmode)
  obtain ⟨h₁, hrun₁, hbase, hzero, hmem₁, htp₁⟩ := run_setup file symbols h
  obtain ⟨h₂, hrun₂, hchecksum, hkept⟩ := run_generateChecksumUpdateCode (hchecks.feeds h₁ hrun₁) (Kept.refl h₁)
  obtain ⟨h₃, hrun₃, hvalue, hmem₃, hcsrs₃, hother₃⟩ := hrunMode h₂
  have hkept₃ : Kept scratch h₁ h₃ := hkept.trans (kept_of_load hmem₃ hcsrs₃ hother₃)
  have helement : ∀ v index, elementValue symbols h₁ v index = elementValue symbols h v index :=
    elementValue_congr hmem₁ htp₁
  have hapart : ∀ {v index}, ElementApart symbols scratch h v index → ElementApart symbols scratch h₁ v index := by
    intro v index hv
    rwa [ElementApart, Variables.elementAddress_congr htp₁]
  have hmodeValue : h₃.get t0 = elementValue symbols h selfcheck.mode 0 := by
    rw [hvalue, hkept.elementValue (hapart hchecks.modeApart), helement]
  have hrun : runStraight file symbols (setup ++ generateChecksumUpdateCode selfcheck.loads ++ loadMode'.map .core) h =
      some h₃ := by
    rw [List.append_assoc, runStraight_append hrun₁, runStraight_append hrun₂, hrun₃]
  have hne : Cond.holds (h₃.get t0) (h₃.get 0) .ne = true := by
    rw [hmodeValue, Hart.get_zero]
    simpa [Cond.holds] using hchecks.mode
  have hoffsetValue : elementValue symbols h₃ selfcheck.checkOffset 0 = elementValue symbols h selfcheck.checkOffset 0 := by
    rw [hkept₃.elementValue (hapart hchecks.offsetApart), helement]
  have hsums : sums h₃ = checksum values :=
    (Prod.ext (hother₃ t5 (by decide)) (hother₃ t6 (by decide))).trans (hchecksum.trans (by rw [hzero, checksum]))
  have haddress : h₃.get t3 + 8 + elementValue symbols h₃ selfcheck.checkOffset 0 =
      savedAddress file symbols selfcheck h := by
    rw [hkept₃.reg t3 (by decide), hbase, hoffsetValue, savedAddress]
  have hread : ∀ {address}, Apart scratch 8 address → readBytes h₃.core.mem 8 address = readBytes h.core.mem 8 address := by
    intro address haddress
    rw [hkept₃.readBytes haddress, hmem₁]
  generalize hcode : saveOrCheckRoutine selfcheck.loads (loadMode'.map .core) (loadOffset.map .core)
    (storeOffset.map .core) = code
  have htarget : ∀ target, target ≠ .saveOrCheck → target ≠ .doSave → target ≠ .doCheck → linesAt target code = none := by
    intro target h₁ h₂ h₃
    rw [← hcode, saveOrCheckRoutine, checkLines]
    simp only [linesAt, linesAt_instrs, Ne.symm h₁, Ne.symm h₂, Ne.symm h₃, if_false]
  have hcheck : linesAt .doCheck code = some (checkLines (loadOffset.map .core) (storeOffset.map .core)) := by
    rw [← hcode, saveOrCheckRoutine]
    simp only [linesAt, linesAt_instrs, reduceCtorEq, if_false, if_true]
  have hexits : ∀ out, Exits file symbols code code h (.to .eotFailed) out ↔
      Exits file symbols code (checkLines (loadOffset.map .core) (storeOffset.map .core)) h₃ (.to .eotFailed) out := by
    intro out
    have hstart : Exits file symbols code code h (.to .eotFailed) out ↔ Exits file symbols code
        (saveOrCheckRoutine selfcheck.loads (loadMode'.map .core) (loadOffset.map .core) (storeOffset.map .core)) h
        (.to .eotFailed) out := by rw [hcode]
    rw [hstart, saveOrCheckRoutine, exits_label, exits_straight hrun, exits_branch hne hcheck]
  rw [exists_congr hexits, exits_checkLines (htarget _ (by decide) (by decide) (by decide))
    (htarget _ (by decide) (by decide) (by decide)) hoffsetSize selfcheck.hcheckOffset.2 haddress
    (hoffsetValue ▸ hchecks.inside) hoffset hstore, hsums, hread hchecks.savedApart.1, hread hchecks.savedApart.2,
    hchecks.saved1, hchecks.saved2]

/-! ### Detection -/

/-- In either mode the sums are the Fletcher sums modulo `2 ^ 64 - 1`, and no second carry is lost. A check with one other
value than the saved run fails, unless the two values are the two zeros of the modulus and another value is not zero. -/
theorem selfcheck_failed_iff {selfcheck : Generator} {lines : List Line}
    (hlines : selfcheck.generateSaveOrCheckRoutine = .ok lines) :
    (∀ (h : Hart 64 σ) (values : List (BitVec 64)), ResourcesFeed file symbols scratch selfcheck h values →
      ∃ h', runStraight file symbols (setup ++ generateChecksumUpdateCode selfcheck.loads) h = some h' ∧
        (h'.get t5).toNat ≡ sum1 values [MOD 2 ^ 64 - 1] ∧ (h'.get t6).toNat ≡ sum2 values [MOD 2 ^ 64 - 1]) ∧
    (∀ h : Hart 64 σ,
      (∃ h', runStraight file symbols (fletcherUpdate.take 2) h = some h' ∧ (h'.get t5).toNat + (h'.get t1).toNat < 2 ^ 64) ∧
      (∃ h', runStraight file symbols (fletcherUpdate.take 5) h = some h' ∧ (h'.get t6).toNat + (h'.get t1).toNat < 2 ^ 64)) ∧
    ∀ (h : Hart 64 σ) (front back : List (BitVec 64)) (x y : BitVec 64), x ≠ y →
      Checks file symbols scratch selfcheck h (front ++ y :: back) (checksum (front ++ x :: back)) →
      ((∃ out, Exits file symbols lines lines h (.to .eotFailed) out) ↔
        ¬(BothZeros x y ∧ ∃ value ∈ front ++ back, value ≠ 0#64)) := by
  refine ⟨fun h values hfeeds => ?_, fun h => ⟨⟨_, rfl, ?_⟩, ⟨_, rfl, ?_⟩⟩, fun h front back x y hne hchecks => ?_⟩
  · obtain ⟨h₁, hrun₁, -, hzero, -, -⟩ := run_setup file symbols h
    obtain ⟨h₂, hrun₂, hchecksum, -⟩ := run_generateChecksumUpdateCode (hfeeds h₁ hrun₁) (Kept.refl h₁)
    rw [hzero, ← checksum] at hchecksum
    obtain ⟨hmod1, hmod2⟩ := checksum_modEq (by decide : 0 < 64) values
    rw [← hchecksum] at hmod1 hmod2
    exact ⟨h₂, by rw [runStraight_append hrun₁, hrun₂], hmod1, hmod2⟩
  · exact carry_not_lost (by decide) (h.get t5) (h.get t0)
  · exact carry_not_lost (by decide) (h.get t6) (endAround (h.get t5) (h.get t0))
  · rw [check_failed_iff hlines hchecks, ne_comm, checksum_replace (by decide) front back hne]

/-- The area of the GPRs, behind the two variables of the selfcheck. -/
def gprSaveArea : Variable :=
  { name := "gpr_save_area", value := 0, size := 8, offset := 16, hartVariable := true, elementCount := 32 }

/-- The area and a CSR as resources, and the variables of the first hart. -/
def gprsAndVtype (gprLoads : List (List Instr)) : Generator where
  mode := { name := "selfcheck_mode", value := 0, size := 8, offset := 0, hartVariable := true }
  checkOffset := { name := "selfcheck_check_offset", value := 0, size := 8, offset := 8, hartVariable := true }
  loads := gprLoads ++ csrLoads "vtype"
  hmode := ⟨rfl, by decide, by decide⟩
  hcheckOffset := ⟨rfl, by decide, by decide⟩

/-- No CSR is set. -/
def zeroCsrs : CsrFile Unit String 64 where
  read _ _ := 0
  write csrs _ _ := csrs

/-- The region of the hart starts at `0x1000`, with room for two checks. -/
def regionSymbols (name : String) : BitVec 64 := if name = "selfcheck_data_pa" then 0x1000 else 40

/-- Check mode, with the sums 1 and 33 saved. In the area of the GPRs the first one is 1, and each byte of the second one
is the given one. -/
def checkHart (byte : BitVec 8) : Hart 64 Unit where
  core := {
    reg := fun _ => 0x2000
    mem := fun a =>
      if a ∈ [0x2000, 0x2010, 0x1008] then 1 else if a = 0x1010 then 33
      else if 0x2018 ≤ a ∧ a < 0x2020 then byte else 0
    accesses := [] }
  csrs := ()

/-- The values of the GPRs and of the CSR behind the second GPR. -/
def zeros : List (BitVec 64) := List.replicate 31 0

/-- The second GPR, of eight equal bytes. -/
def secondGpr (byte : BitVec 8) : BitVec 64 := BitVec.ofNat 64 (byte.toNat * 0x0101010101010101)

theorem checksum_zeros : checksum ([1] ++ 0 :: zeros) = (1, 33) ∧ checksum ([1] ++ secondGpr 0xff :: zeros) = (1, 33) := by
  constructor <;> simp [checksum, zeros, List.replicate, update, endAround, carry, secondGpr]

/-- What two runs find in the memory. -/
theorem checkHart_finds : ∀ byte ∈ [5#8, 0xff#8],
    (List.range 32).map (fun i : ℕ => elementValue regionSymbols (checkHart byte) gprSaveArea i) ++ [0] =
      [1] ++ secondGpr byte :: zeros ∧
    elementValue regionSymbols (checkHart byte) (gprsAndVtype []).mode 0 ≠ 0 ∧
    (elementValue regionSymbols (checkHart byte) (gprsAndVtype []).checkOffset 0).toInt <
      (regionSymbols "selfcheck_per_hart_size" + BitVec.ofInt 64 (-8)).toInt ∧
    readBytes (checkHart byte).core.mem 8 (savedAddress zeroCsrs regionSymbols (gprsAndVtype []) (checkHart byte)) = 1 ∧
    readBytes (checkHart byte).core.mem 8
      (savedAddress zeroCsrs regionSymbols (gprsAndVtype []) (checkHart byte) + 8) = 33 := by
  decide +kernel

theorem checks_checkHart {gprLoads : List (List Instr)} (hloads : variableLoads gprSaveArea = .ok gprLoads)
    {byte : BitVec 8} (hbyte : byte ∈ [5#8, 0xff#8]) :
    Checks zeroCsrs regionSymbols (fun _ => False) (gprsAndVtype gprLoads) (checkHart byte)
      ([1] ++ secondGpr byte :: zeros) (checksum ([1] ++ 0 :: zeros)) := by
  obtain ⟨hvalues, hmode, hinside, hsaved1, hsaved2⟩ := checkHart_finds byte hbyte
  have hapart : ∀ n addr, Apart (fun _ => False) n addr := fun _ _ _ _ hscratch => hscratch
  rw [checksum_zeros.1]
  refine ⟨fun h₁ hrun₁ => ?_, hmode, hinside, hsaved1, hsaved2, hapart _ _, hapart _ _, hapart _ _, hapart _ _⟩
  obtain ⟨h₁', hrun₁', -, -, hmem, htp⟩ := run_setup zeroCsrs regionSymbols (checkHart byte)
  obtain rfl := Option.some.inj (hrun₁'.symm.trans hrun₁)
  obtain ⟨loads, hloads', hfeeds⟩ := @variableLoads_feeds Unit zeroCsrs regionSymbols (fun _ => False) gprSaveArea (by decide)
    h₁' fun _ _ => hapart _ _
  obtain rfl := Except.ok.inj (hloads.symm.trans hloads')
  simp only [elementValue_congr hmem htp] at hfeeds
  rw [← hvalues]
  exact List.rel_append hfeeds (.cons (feeds_csr zeroCsrs regionSymbols (fun _ => False) h₁' "vtype") .nil)

theorem generate_gprsAndVtype (gprLoads : List (List Instr)) :
    ∃ lines, (gprsAndVtype gprLoads).generateSaveOrCheckRoutine = .ok lines := ⟨_, rfl⟩

/-- The second GPR is not zero as in the saved run. -/
theorem selfcheck_failed_iff_gprs : ∃ gprLoads lines out, variableLoads gprSaveArea = .ok gprLoads ∧
    (gprsAndVtype gprLoads).generateSaveOrCheckRoutine = .ok lines ∧
    Exits zeroCsrs regionSymbols lines lines (checkHart 5) (.to .eotFailed) out := by
  obtain ⟨gprLoads, hloads⟩ := Fallible.exists_ok (x := variableLoads gprSaveArea) (by decide)
  obtain ⟨lines, hlines⟩ := generate_gprsAndVtype gprLoads
  have hdetect := @selfcheck_failed_iff Unit zeroCsrs regionSymbols (fun _ => False) (gprsAndVtype gprLoads) lines hlines
  have hfailed := hdetect.2.2 (checkHart 5) [1] zeros 0 (secondGpr 5) (by decide)
    (checks_checkHart hloads List.mem_cons_self)
  obtain ⟨out, hout⟩ := hfailed.mpr fun h => by
    rcases h.1 with ⟨-, h⟩ | ⟨h, -⟩
    · exact absurd h (by decide)
    · exact absurd h (by decide)
  exact ⟨gprLoads, lines, out, hloads, hlines, hout⟩

/-- The second GPR is `2 ^ 64 - 1`, behind the value 1. -/
theorem not_selfcheck_failed_ones :
    ¬ ∀ (selfcheck : Generator) (lines : List Line) (h : Hart 64 Unit) (front back : List (BitVec 64)) (x y : BitVec 64),
      x ≠ y → selfcheck.generateSaveOrCheckRoutine = .ok lines →
      Checks zeroCsrs regionSymbols (fun _ => False) selfcheck h (front ++ y :: back) (checksum (front ++ x :: back)) →
      ∃ out, Exits zeroCsrs regionSymbols lines lines h (.to .eotFailed) out := by
  intro hclaim
  obtain ⟨gprLoads, hloads⟩ := Fallible.exists_ok (x := variableLoads gprSaveArea) (by decide)
  obtain ⟨lines, hlines⟩ := generate_gprsAndVtype gprLoads
  have hchecks := checks_checkHart hloads (List.mem_cons_of_mem _ List.mem_cons_self)
  have hfailed := hclaim _ lines _ [1] zeros 0 (secondGpr 0xff) (by decide) hlines hchecks
  exact (check_failed_iff hlines hchecks).mp hfailed (checksum_zeros.2.trans checksum_zeros.1.symm)

end Riescue.Selfcheck
