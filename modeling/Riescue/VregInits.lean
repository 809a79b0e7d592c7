import Mathlib.Data.List.Pairwise
import Mathlib.Data.Rat.Floor
import Riescue.LibExcept
import Riescue.LibOrderedDict
import Riescue.LibSectionData
import Riescue.LibSeparated

/-! The initial values of vector registers, `VecInstrVregInitializer` of `lib/instr_setup/vector/utilities.py`: each register
gets a place in a page of memory, `get_inits` of a page emits the values, and the loads read them from there. -/

namespace Riescue.VregInits
open SectionData

abbrev Text := List Char

inductive InitFault where
  | assertionError
  | keyError
  | zeroDivisionError
  deriving DecidableEq, Repr

/-- The `vl` of a register: a number of elements, or a word. -/
inductive Vl where
  | number (elements : ℕ)
  | word (name : String)
  deriving DecidableEq, Repr

structure VregConfig where
  vl : Vl
  eew : ℕ
  lmul : ℚ

structure Offset where
  offset : ℕ
  size : ℕ
  initialValue : List ℕ

structure Page where
  label : Text
  size : ℕ
  number : ℕ
  offsets : List Offset

namespace Page

def linAddr (page : Page) : Text :=
  "vreg_inits_".toList ++ Nat.toDigits 10 page.number ++ "_".toList ++ page.label ++ "_lin".toList

def addOffsets (page : Page) (offsets : List Offset) : Page := { page with offsets := page.offsets ++ offsets }

/-- The end of the last offset, zero for an empty page. -/
def lastOffsetEnd (page : Page) : ℕ :=
  match page.offsets.getLast? with
  | none => 0
  | some last => last.offset + last.size

end Page

/-- The data directives that `get_inits` chooses from. -/
inductive SizeLabel where
  | dword | word | hword | byte
  deriving DecidableEq, Repr

/-- The bytes that the assembler emits for a number. -/
def SizeLabel.bytes : SizeLabel → ℕ
  | .dword => 8
  | .word => 4
  | .hword => 2
  | .byte => 1

def sizeLabel (elementSize : ℕ) : SizeLabel :=
  if elementSize = 64 then .dword else if elementSize = 32 then .word else if elementSize = 16 then .hword else .byte

/-- A line of `get_inits`. -/
inductive InitLine where
  | initMemory (linAddr : Text)
  | org (offset : ℕ)
  | data (label : SizeLabel) (values : List ℕ)
  deriving DecidableEq

def Offset.inits (offset : Offset) : Except InitFault (List InitLine) :=
  if offset.initialValue.length = 0 then .error .zeroDivisionError
  else
    let elementSize := offset.size / offset.initialValue.length
    .ok [.org offset.offset, .data (sizeLabel elementSize) offset.initialValue]

def Page.getInits (page : Page) : Except InitFault (List InitLine) := do
  let lines ← page.offsets.mapM Offset.inits
  .ok (.initMemory page.linAddr :: lines.flatten)

/-! ### The initializer -/

/-- The initializer of an instruction. Two registers are free for the addresses. -/
structure Initializer where
  label : Text
  tempRegs : List String
  pages : List Page
  vregsToPagesAndOffsets : List (String × (Text × Offset))
  vregsToInitialValues : List (String × List ℕ)
  vregsToConfigs : List (String × VregConfig)
  tempRegs_length : 1 < tempRegs.length

/-- `VecInstrVregInitializer(label, temp_regs, vl)` -/
def start (label : Text) (tempRegs : List String) (h : 1 < tempRegs.length) : Initializer := ⟨label, tempRegs, [], [], [], [], h⟩

/-- `compute_vreg_group_size` of a configuration -/
def computeVregGroupSize (config : VregConfig) (vlen : ℕ) : Except InitFault ℕ :=
  match config.vl with
  | .number elements => .ok (config.eew * elements)
  | .word name => if name = "vlmax" ∨ name = "zero" then .ok ⌊config.lmul * vlen⌋.toNat else .error .assertionError

/-- The default of the parameter `vlen`, which no caller sets. -/
def defaultVlen : ℕ := 256

namespace Initializer

def newPage (init : Initializer) (pageSize : ℕ) : Page := ⟨init.label, pageSize, init.pages.length, []⟩

def requestAnotherPage (init : Initializer) (pageSize : ℕ) : Initializer :=
  { init with pages := init.pages ++ [init.newPage pageSize] }

def groupSize (init : Initializer) (vreg : String) : Except InitFault ℕ :=
  match OrderedDict.get? init.vregsToConfigs vreg with
  | none => .error .keyError
  | some config => computeVregGroupSize config defaultVlen

end Initializer

/-- `check_if_vreg_would_fit`, on the size of the register -/
def wouldFit (page : Page) (groupSize : ℕ) : Bool :=
  let remainingSpace : ℤ :=
    if page.offsets.length = 0 then page.size else (page.size : ℤ) - page.lastOffsetEnd
  decide (remainingSpace ≥ groupSize)

/-- `add_vreg_to_page` -/
def addVregToPage (page : Page) (groupSize : ℕ) (initialValue : List ℕ) : Page × Offset :=
  let offset : Offset := ⟨page.lastOffsetEnd, groupSize, initialValue⟩
  (page.addOffsets [offset], offset)

/-- The loop over the pages: the first page with room is taken. -/
def assignToPage (groupSize : ℕ) (initialValue : List ℕ) : List Page → Option (List Page × (Text × Offset))
  | [] => none
  | page :: pages =>
      if wouldFit page groupSize then
        let (page', offset) := addVregToPage page groupSize initialValue
        some (page' :: pages, (page.linAddr, offset))
      else
        (assignToPage groupSize initialValue pages).map fun (pages', place) => (page :: pages', place)

namespace Initializer

def place (init : Initializer) (vreg : String) (pages : List Page) (place : Text × Offset) : Initializer :=
  { init with
    pages := pages
    vregsToPagesAndOffsets := OrderedDict.insert init.vregsToPagesAndOffsets vreg place }

/-- The register is placed in one of the pages, or in a new one. -/
def assign (init : Initializer) (vreg : String) (groupSize : ℕ) (initialValue : List ℕ) : Except InitFault Initializer :=
  match assignToPage groupSize initialValue init.pages with
  | some (pages, taken) => .ok (init.place vreg pages taken)
  | none =>
      let lastPage := init.newPage 0x1000
      if wouldFit lastPage groupSize then
        let (lastPage', offset) := addVregToPage lastPage groupSize initialValue
        .ok (init.place vreg (init.pages ++ [lastPage']) (lastPage.linAddr, offset))
      else .error .assertionError

/-- `test_assign_vreg_to_page` -/
def testAssignVregToPage (init : Initializer) (vreg : String) : Except InitFault Initializer := do
  let groupSize ← init.groupSize vreg
  let initialValue ← (OrderedDict.get? init.vregsToInitialValues vreg).elim (.error .keyError) .ok
  init.assign vreg groupSize initialValue

/-- There is a page. -/
def firstPage (init : Initializer) : Initializer :=
  if init.pages.length = 0 then init.requestAnotherPage 0x1000 else init

end Initializer

/-- The arguments of `add_vreg`. -/
structure Call where
  vreg : String
  initialValue : List ℕ
  config : VregConfig

namespace Initializer

/-- The values and the configuration of the register are kept. -/
def configure (init : Initializer) (call : Call) : Initializer :=
  { init with
    vregsToInitialValues := OrderedDict.insert init.vregsToInitialValues call.vreg call.initialValue
    vregsToConfigs := OrderedDict.insert init.vregsToConfigs call.vreg call.config }

/-- `add_vreg` -/
def addVreg (init : Initializer) (call : Call) : Except InitFault Initializer :=
  match OrderedDict.get? init.firstPage.vregsToInitialValues call.vreg with
  | some _ => .ok init.firstPage
  | none => (init.firstPage.configure call).testAssignVregToPage call.vreg

/-- `add_vreg`, called several times. -/
def addVregs (init : Initializer) (calls : List Call) : Except InitFault Initializer := calls.foldlM addVreg init

end Initializer

/-! ### The loads -/

/-- The parameters of `get_vloads` and what it reads of the setup. -/
structure LoadSetup where
  activeConfig : Bool
  forceIntegerLmul : Bool
  overrideEew : Option ℕ
  wholeRegisterLoad : Bool
  numericalVl : ℤ
  makeVtypeCode : ℚ → ℕ → ℕ

namespace LoadSetup

def lmul (setup : LoadSetup) (config : VregConfig) : ℚ := if setup.forceIntegerLmul then max 1 config.lmul else config.lmul

def eew (setup : LoadSetup) (config : VregConfig) : ℕ := (setup.overrideEew.filter (· ≠ 0)).getD config.eew

end LoadSetup

/-- A line of `get_vloads`. -/
inductive LoadLine where
  | comment (lmul : ℚ) (eew : ℕ)
  | liVtype (rd : String) (vtypeCode : ℕ)
  | li (rd : String) (number : ℤ)
  | liSymbol (rd : String) (symbol : Text)
  | vsetvl (rd rs1 rs2 : String)
  | add (rd rs1 rs2 : String)
  | load (mnemonic : Text) (vreg base : String)

/-- The width in the name of a load. -/
def stringifiedEew (eew : ℕ) : Text :=
  if eew = 8 then "8".toList else if eew = 16 then "16".toList else if eew = 32 then "32".toList else "64".toList

def chooseVload (eew : ℕ) : Text := "vle".toList ++ stringifiedEew eew ++ ".v".toList

def chooseWholeRegisterVload (lmul : ℚ) (eew : ℕ) : Text :=
  let normalizedLmul := ⌊max 1 lmul⌋.toNat
  "vl".toList ++ Nat.toDigits 10 normalizedLmul ++ "re".toList ++ stringifiedEew eew ++ ".v".toList

namespace Initializer

def temp0 (init : Initializer) : String := init.tempRegs.get ⟨0, Nat.lt_of_succ_lt init.tempRegs_length⟩

def temp1 (init : Initializer) : String := init.tempRegs.get ⟨1, init.tempRegs_length⟩

/-- The lines that set the vector configuration of a register. -/
def configLines (init : Initializer) (setup : LoadSetup) (config : VregConfig) : List LoadLine :=
  if setup.activeConfig then
    let vl : ℤ :=
      match config.vl with
      | .number elements => elements
      | .word _ => setup.numericalVl
    let (lmul, eew) := (setup.lmul config, setup.eew config)
    [.comment lmul eew, .liVtype init.temp0 (setup.makeVtypeCode lmul eew)] ++
      if vl ≠ -1 then [.li init.temp1 vl, .vsetvl "x5" init.temp1 init.temp0] else [.vsetvl "x5" "x0" init.temp0]
  else []

/-- The lines that load a register from its place. -/
def loadLines (init : Initializer) (setup : LoadSetup) (vreg : String) (config : VregConfig) (place : Text × Offset) :
    List LoadLine :=
  let (lmul, eew) := (setup.lmul config, setup.eew config)
  [.liSymbol init.temp0 place.1, .li init.temp1 place.2.offset, .add init.temp0 init.temp0 init.temp1,
    .load (if setup.wholeRegisterLoad then chooseWholeRegisterVload lmul eew else chooseVload eew) vreg init.temp0]

/-- The turn of the loop of `get_vloads` for a register. -/
def vloadsOf (init : Initializer) (setup : LoadSetup) (entry : String × (Text × Offset)) : Except InitFault (List LoadLine) :=
  match OrderedDict.get? init.vregsToConfigs entry.1 with
  | none => .error .keyError
  | some config => .ok (init.configLines setup config ++ init.loadLines setup entry.1 config entry.2)

/-- `get_vloads` -/
def getVloads (init : Initializer) (setup : LoadSetup) : Except InitFault (List LoadLine) := do
  let lines ← init.vregsToPagesAndOffsets.mapM (init.vloadsOf setup)
  .ok lines.flatten

end Initializer
/-! ### What is asked of the layout -/

def InitLine.line? : InitLine → Option Line
  | .initMemory _ => none
  | .org offset => some (.org offset)
  | .data label values => some (.data label.bytes values)

/-- The contents of the page's memory. -/
def Page.contents (page : Page) : Option (List ℕ) :=
  match page.getInits with
  | .error _ => none
  | .ok lines => assemble (lines.filterMap InitLine.line?) []

/-- The bytes of the values of a register. -/
def Call.bytes (call : Call) : ℕ := call.initialValue.length * (call.config.eew / 8)

/-- The place of a register, as the initializer has it. -/
structure Placement (init : Initializer) (call : Call) (page : Page) (offset : Offset) : Prop where
  mem : page ∈ init.pages
  entry : OrderedDict.get? init.vregsToPagesAndOffsets call.vreg = some (page.linAddr, offset)

/-- The values stand where they are loaded from. -/
structure Initializer.LaidOut (init : Initializer) (calls : List Call) : Prop where
  pages : (init.pages.map Page.linAddr).Nodup
  placed : ∀ call ∈ calls, ∃ page offset, Placement init call page offset
  data : ∀ call ∈ calls, ∀ page offset, Placement init call page offset → ∃ contents, page.contents = some contents ∧
    ∀ (i : ℕ) (hi : i < call.initialValue.length), StandsAt contents (offset.offset + i * (call.config.eew / 8))
      (littleEndian (call.config.eew / 8) call.initialValue[i])
  inside : ∀ call ∈ calls, ∀ page offset, Placement init call page offset → offset.offset + call.bytes ≤ page.size
  disjoint : ∀ call ∈ calls, ∀ other ∈ calls, call.vreg ≠ other.vreg → ∀ page offset offset',
    Placement init call page offset → Placement init other page offset' →
      offset.offset + call.bytes ≤ offset'.offset ∨ offset'.offset + other.bytes ≤ offset.offset
  loads : ∀ setup, ∃ lines, init.getVloads setup = .ok lines ∧ ∀ call ∈ calls, ∀ page offset,
    Placement init call page offset → init.loadLines setup call.vreg call.config (page.linAddr, offset) <:+: lines

/-- The list has as many values as the configuration asks for. -/
def Vl.Counts (vl : Vl) (elements : ℕ) (vlmax : ℚ) : Prop :=
  match vl with
  | .number count => 1 ≤ count ∧ (count : ℚ) ≤ vlmax ∧ elements = count
  | .word name => (name = "vlmax" ∨ name = "zero") ∧ (elements : ℚ) = vlmax

/-- A register group within a page, with its values. -/
structure Call.Valid (call : Call) (vlen : ℕ) : Prop where
  eew : call.config.eew ∈ [8, 16, 32, 64]
  lmul : call.config.lmul ∈ [1 / 8, 1 / 4, 1 / 2, 1, 2, 4, (8 : ℚ)]
  eew_le : (call.config.eew : ℚ) ≤ call.config.lmul * vlen
  le_page : call.config.lmul * vlen ≤ 32768
  elements : call.config.vl.Counts call.initialValue.length (call.config.lmul * vlen / call.config.eew)
  values : ∀ value ∈ call.initialValue, value < 2 ^ call.config.eew

/-- The size in bits, as a size in bytes, is no more than a page; or the size is computed for the vector length that is
there, or it is large enough and the elements are bytes. -/
def Call.Servable (call : Call) (vlen : ℕ) : Prop :=
  match call.config.vl with
  | .number number => call.config.eew * number ≤ 4096
  | .word _ => vlen = 256 ∨ call.config.eew = 8 ∧ 256 ≤ vlen ∧ vlen ≤ 2048

/-! ### The size of a register -/

/-- What the size that is computed does for a register: it is enough, and the directive that is chosen fits the elements. -/
structure Sized (size elements eew : ℕ) : Prop where
  pos : 0 < elements
  bytes : elements * (eew / 8) ≤ size
  label : (sizeLabel (size / elements)).bytes = eew / 8

theorem sizeLabel_bytes {eew : ℕ} (heew : eew ∈ [8, 16, 32, 64]) : (sizeLabel eew).bytes = eew / 8 := by
  simp only [List.mem_cons, List.not_mem_nil, or_false] at heew
  rcases heew with rfl | rfl | rfl | rfl <;> rfl

theorem sizeLabel_of_le {elementSize : ℕ} (h : elementSize ≤ 8) : sizeLabel elementSize = .byte := by
  rw [sizeLabel, if_neg (by omega), if_neg (by omega), if_neg (by omega)]

/-- The size in bits is enough for bytes. -/
theorem sized_mul {elements eew : ℕ} (heew : eew ∈ [8, 16, 32, 64]) (h : 0 < elements) : Sized (eew * elements) elements eew where
  pos := h
  bytes := by
    rw [Nat.mul_comm eew]
    exact Nat.mul_le_mul_left elements (Nat.div_le_self eew 8)
  label := by rw [Nat.mul_div_cancel _ h, sizeLabel_bytes heew]

/-- The size of a group for the default vector length. -/
theorem exists_groupSize {lmul : ℚ} (hlmul : lmul ∈ [1 / 8, 1 / 4, 1 / 2, 1, 2, 4, (8 : ℚ)]) :
    ∃ size : ℕ, lmul * defaultVlen = size ∧ ⌊lmul * defaultVlen⌋.toNat = size ∧ size ≤ 4096 := by
  have hexact : ∃ size : ℕ, lmul * defaultVlen = size ∧ size ≤ 4096 := by
    rw [show ((defaultVlen : ℕ) : ℚ) = 256 from rfl]
    simp only [List.mem_cons, List.not_mem_nil, or_false] at hlmul
    rcases hlmul with rfl | rfl | rfl | rfl | rfl | rfl | rfl
    · exact ⟨32, by norm_num, by decide⟩
    · exact ⟨64, by norm_num, by decide⟩
    · exact ⟨128, by norm_num, by decide⟩
    · exact ⟨256, by norm_num, by decide⟩
    · exact ⟨512, by norm_num, by decide⟩
    · exact ⟨1024, by norm_num, by decide⟩
    · exact ⟨2048, by norm_num, by decide⟩
  obtain ⟨size, hsize, hle⟩ := hexact
  refine ⟨size, hsize, ?_, hle⟩
  rw [hsize, Int.floor_natCast, Int.toNat_natCast]

theorem Call.Valid.sized {call : Call} {vlen : ℕ} (hvalid : call.Valid vlen) (hservable : call.Servable vlen) :
    ∃ size, computeVregGroupSize call.config defaultVlen = .ok size ∧ size ≤ 0x1000 ∧
      Sized size call.initialValue.length call.config.eew := by
  have helements := hvalid.elements
  unfold Call.Servable at hservable
  unfold computeVregGroupSize
  cases hvl : call.config.vl with
  | number number =>
      rw [hvl] at helements hservable
      obtain ⟨hpos, -, heq⟩ := helements
      rw [heq]
      exact ⟨_, rfl, hservable, sized_mul hvalid.eew hpos⟩
  | word name =>
      rw [hvl] at helements hservable
      obtain ⟨hname, heq⟩ := helements
      obtain ⟨size, hsize, hfloor, hle⟩ := exists_groupSize hvalid.lmul
      refine ⟨size, (if_pos hname).trans (congrArg Except.ok hfloor), hle, ?_⟩
      have heew : 0 < call.config.eew := by
        have hmem := hvalid.eew
        simp only [List.mem_cons, List.not_mem_nil, or_false] at hmem
        omega
      have heew' : (0 : ℚ) < call.config.eew := by exact_mod_cast heew
      -- the bits of the elements are the bits of the group
      have hbits : (call.initialValue.length : ℚ) * call.config.eew * 256 = size * vlen := by
        have hdefault : call.config.lmul * 256 = size := hsize
        rw [heq, div_mul_cancel₀ _ heew'.ne', ← hdefault]
        ring
      have hnat : call.initialValue.length * call.config.eew * 256 = size * vlen := by exact_mod_cast hbits
      have hpos : 0 < call.initialValue.length := by
        have hone : (1 : ℚ) ≤ call.initialValue.length := by
          rw [heq, le_div_iff₀ heew', one_mul]
          exact hvalid.eew_le
        exact_mod_cast hone
      rcases hservable with rfl | ⟨hbyte, hmin, hmax⟩
      · have hmul : size = call.config.eew * call.initialValue.length := by
          rw [Nat.mul_comm call.config.eew]
          omega
        rw [hmul]
        exact sized_mul hvalid.eew hpos
      · rw [hbyte] at hnat ⊢
        refine ⟨hpos, ?_, ?_⟩
        · have hbound := Nat.mul_le_mul_left size hmax
          omega
        · have hsmall : size ≤ 8 * call.initialValue.length := by
            have hbound := Nat.mul_le_mul_left size hmin
            omega
          rw [sizeLabel_of_le]
          · rfl
          · exact Nat.div_le_of_le_mul (by rwa [Nat.mul_comm] at hsmall)

/-! ### One call -/

theorem wouldFit_iff {page : Page} {size : ℕ} : wouldFit page size = true ↔ page.lastOffsetEnd + size ≤ page.size := by
  unfold wouldFit
  rw [decide_eq_true_eq]
  split
  next hempty =>
    have hend : page.lastOffsetEnd = 0 := by rw [Page.lastOffsetEnd, List.length_eq_zero_iff.mp hempty]; rfl
    omega
  next => omega

theorem assignToPage_some {size : ℕ} {initialValue : List ℕ} {pages pages' : List Page} {place : Text × Offset}
    (h : assignToPage size initialValue pages = some (pages', place)) :
    ∃ front page back, pages = front ++ page :: back ∧ page.lastOffsetEnd + size ≤ page.size ∧
      pages' = front ++ (addVregToPage page size initialValue).1 :: back ∧
      place = (page.linAddr, (addVregToPage page size initialValue).2) := by
  induction pages generalizing pages' with
  | nil => cases h
  | cons page pages ih =>
      unfold assignToPage at h
      split at h
      next hfit =>
        obtain ⟨rfl, rfl⟩ := Prod.mk.inj (Option.some.inj h)
        exact ⟨[], page, pages, rfl, wouldFit_iff.mp hfit, rfl, rfl⟩
      next =>
        obtain ⟨⟨rest, taken⟩, hrest, heq⟩ := Option.map_eq_some_iff.mp h
        obtain ⟨rfl, rfl⟩ := Prod.mk.inj heq
        obtain ⟨front, taker, back, rfl, hfit, rfl, hplace⟩ := ih hrest
        exact ⟨page :: front, taker, back, rfl, hfit, rfl, hplace⟩

/-- More pages are requested. -/
inductive Extended (init : Initializer) : Initializer → Prop
  | refl : Extended init init
  | step {base : Initializer} (h : Extended init base) : Extended init (base.requestAnotherPage 0x1000)

theorem Extended.trans {init middle base : Initializer} (h : Extended init middle) (h' : Extended middle base) :
    Extended init base := by
  induction h' with
  | refl => exact h
  | step _ ih => exact .step ih

namespace Initializer

/-- The register is known and has its place in a page. -/
def added (init : Initializer) (call : Call) (size : ℕ) (front : List Page) (page : Page) (back : List Page) : Initializer :=
  (init.configure call).place call.vreg (front ++ (addVregToPage page size call.initialValue).1 :: back)
    (page.linAddr, (addVregToPage page size call.initialValue).2)

theorem assign_eq (init : Initializer) (call : Call) {size : ℕ} (hle : size ≤ 0x1000) :
    ∃ base front page back, Extended init base ∧ base.pages = front ++ page :: back ∧
      page.lastOffsetEnd + size ≤ page.size ∧
      (init.configure call).assign call.vreg size call.initialValue = .ok (base.added call size front page back) := by
  unfold assign
  rw [show (init.configure call).pages = init.pages from rfl]
  cases hassign : assignToPage size call.initialValue init.pages with
  | some result =>
      obtain ⟨pages', place⟩ := result
      obtain ⟨front, page, back, hpages, hfit, rfl, rfl⟩ := assignToPage_some hassign
      exact ⟨init, front, page, back, .refl, hpages, hfit, rfl⟩
  | none =>
      have hfit : (init.newPage 0x1000).lastOffsetEnd + size ≤ (init.newPage 0x1000).size := by
        show 0 + size ≤ 0x1000
        omega
      exact ⟨init.requestAnotherPage 0x1000, init.pages, init.newPage 0x1000, [], .step .refl, rfl, hfit,
        if_pos (wouldFit_iff.mpr hfit)⟩

theorem testAssignVregToPage_eq (init : Initializer) {call : Call} {size : ℕ}
    (hsize : computeVregGroupSize call.config defaultVlen = .ok size) :
    (init.configure call).testAssignVregToPage call.vreg = (init.configure call).assign call.vreg size call.initialValue := by
  have hgroup : (init.configure call).groupSize call.vreg = .ok size := by
    unfold groupSize configure
    rw [OrderedDict.get?_insert_self]
    exact hsize
  have hvalue : OrderedDict.get? (init.configure call).vregsToInitialValues call.vreg = some call.initialValue :=
    OrderedDict.get?_insert_self _ _ _
  rw [testAssignVregToPage, hgroup, hvalue]
  rfl

theorem extended_firstPage (init : Initializer) : Extended init init.firstPage := by
  unfold firstPage
  split
  · exact .step .refl
  · exact .refl

/-- A new register is placed in a page with room for it. -/
theorem addVreg_eq (init : Initializer) {call : Call} {size : ℕ}
    (hnew : OrderedDict.get? init.vregsToInitialValues call.vreg = none)
    (hsize : computeVregGroupSize call.config defaultVlen = .ok size) (hle : size ≤ 0x1000) :
    ∃ base front page back, Extended init base ∧ base.pages = front ++ page :: back ∧
      page.lastOffsetEnd + size ≤ page.size ∧ init.addVreg call = .ok (base.added call size front page back) := by
  obtain ⟨base, front, page, back, hbase, hpages, hfit, hassign⟩ := init.firstPage.assign_eq call hle
  have hvalues : init.firstPage.vregsToInitialValues = init.vregsToInitialValues := by
    unfold firstPage
    split <;> rfl
  refine ⟨base, front, page, back, init.extended_firstPage.trans hbase, hpages, hfit, ?_⟩
  rw [addVreg, hvalues, hnew, ← hassign]
  exact init.firstPage.testAssignVregToPage_eq hsize

end Initializer

/-! ### Every call -/

theorem linAddr_inj {page page' : Page} (hlabel : page.label = page'.label) (h : page.linAddr = page'.linAddr) :
    page.number = page'.number := by
  have hdigits : ∀ number : ℕ, '_' ∉ Nat.toDigits 10 number := fun _ => Nat.underscore_not_in_toDigits
  unfold Page.linAddr at h
  rw [hlabel] at h
  simp only [List.append_assoc] at h
  have hnumbers := (Separated.append_stop_inj (hdigits _) (hdigits _) (List.append_cancel_left h)).1
  rw [← Nat.ofDigitChars_ten_toDigits (n := page.number), hnumbers, Nat.ofDigitChars_ten_toDigits]

/-- The places of a page lie one behind the other, and the values of each fit. -/
structure Page.Packed (page : Page) : Prop where
  size : page.size = 0x1000
  sorted : page.offsets.Pairwise fun offset next => offset.offset + offset.size ≤ next.offset
  last : ∀ offset ∈ page.offsets, offset.offset + offset.size ≤ page.lastOffsetEnd
  fits : page.lastOffsetEnd ≤ page.size
  filled : ∀ offset ∈ page.offsets, ∃ eew, Sized offset.size offset.initialValue.length eew

theorem lastOffsetEnd_addVregToPage (page : Page) (size : ℕ) (initialValue : List ℕ) :
    (addVregToPage page size initialValue).1.lastOffsetEnd = page.lastOffsetEnd + size := by
  show Page.lastOffsetEnd { page with offsets := page.offsets ++ [_] } = _
  rw [Page.lastOffsetEnd, List.getLast?_concat]

theorem Page.Packed.add {page : Page} (h : page.Packed) {size eew : ℕ} {initialValue : List ℕ}
    (hfit : page.lastOffsetEnd + size ≤ page.size) (hsized : Sized size initialValue.length eew) :
    (addVregToPage page size initialValue).1.Packed where
  size := h.size
  sorted := by
    refine List.pairwise_append.mpr ⟨h.sorted, List.pairwise_singleton _ _, fun offset hoffset next hnext => ?_⟩
    rw [List.mem_singleton.mp hnext]
    exact h.last offset hoffset
  last := by
    intro offset hoffset
    rw [lastOffsetEnd_addVregToPage]
    rcases List.mem_append.mp hoffset with hold | hnew
    · exact (h.last offset hold).trans (Nat.le_add_right _ _)
    · rw [List.mem_singleton.mp hnew]
  fits := by
    rw [lastOffsetEnd_addVregToPage]
    exact hfit
  filled := by
    intro offset hoffset
    rcases List.mem_append.mp hoffset with hold | hnew
    · exact h.filled offset hold
    · rw [List.mem_singleton.mp hnew]
      exact ⟨eew, hsized⟩

/-- What holds of the initializer behind some calls. -/
structure Inv (calls : List Call) (init : Initializer) : Prop where
  named : ∀ page ∈ init.pages, page.label = init.label
  numbered : init.pages.map Page.number = List.range init.pages.length
  packed : ∀ page ∈ init.pages, page.Packed
  values : init.vregsToInitialValues.map Prod.fst = calls.map Call.vreg
  configs : ∀ call ∈ calls, OrderedDict.get? init.vregsToConfigs call.vreg = some call.config
  keys : init.vregsToPagesAndOffsets.map Prod.fst = calls.map Call.vreg
  entries : ∀ entry ∈ init.vregsToPagesAndOffsets, ∃ page ∈ init.pages, entry.2.1 = page.linAddr ∧ entry.2.2 ∈ page.offsets
  apart : init.vregsToPagesAndOffsets.Pairwise fun entry next =>
    entry.2.1 = next.2.1 → entry.2.2.offset + entry.2.2.size ≤ next.2.2.offset
  sized : ∀ call ∈ calls, ∃ place, OrderedDict.get? init.vregsToPagesAndOffsets call.vreg = some place ∧
    place.2.initialValue = call.initialValue ∧ Sized place.2.size call.initialValue.length call.config.eew

theorem inv_start (label : Text) (tempRegs : List String) (h : 1 < tempRegs.length) : Inv [] (start label tempRegs h) where
  named := nofun
  numbered := rfl
  packed := nofun
  values := rfl
  configs := nofun
  keys := rfl
  entries := nofun
  apart := .nil
  sized := nofun

namespace Inv
variable {calls : List Call} {init : Initializer}

theorem requestAnotherPage (h : Inv calls init) : Inv calls (init.requestAnotherPage 0x1000) where
  named := by
    intro page hpage
    rcases List.mem_append.mp hpage with hold | hnew
    · exact h.named page hold
    · rw [List.mem_singleton.mp hnew]
      rfl
  numbered := by
    show (init.pages ++ [init.newPage 0x1000]).map Page.number = List.range (init.pages ++ [init.newPage 0x1000]).length
    rw [List.map_append, h.numbered, List.length_append, List.length_singleton, List.range_succ]
    rfl
  packed := by
    intro page hpage
    rcases List.mem_append.mp hpage with hold | hnew
    · exact h.packed page hold
    · rw [List.mem_singleton.mp hnew]
      exact ⟨rfl, .nil, nofun, Nat.zero_le _, nofun⟩
  values := h.values
  configs := h.configs
  keys := h.keys
  entries := fun entry hentry => (h.entries entry hentry).imp fun page hpage => ⟨List.mem_append_left _ hpage.1, hpage.2⟩
  apart := h.apart
  sized := h.sized

theorem extended (h : Inv calls init) {base : Initializer} (hbase : Extended init base) : Inv calls base := by
  induction hbase with
  | refl => exact h
  | step _ ih => exact ih.requestAnotherPage

theorem nodup_linAddr (h : Inv calls init) : (init.pages.map Page.linAddr).Nodup := by
  have hnumbers : (init.pages.map Page.number).Nodup := h.numbered ▸ List.nodup_range
  refine List.Nodup.map_on (fun page hpage page' hpage' heq => ?_) (List.Nodup.of_map _ hnumbers)
  exact List.inj_on_of_nodup_map hnumbers hpage hpage' (linAddr_inj ((h.named page hpage).trans (h.named page' hpage').symm) heq)

/-- A register that is new takes the place behind the last one of a page. -/
theorem added (h : Inv calls init) {call : Call} {size : ℕ} (hnew : call.vreg ∉ calls.map Call.vreg) {front back : List Page}
    {page : Page} (hpages : init.pages = front ++ page :: back) (hfit : page.lastOffsetEnd + size ≤ page.size)
    (hsized : Sized size call.initialValue.length call.config.eew) :
    Inv (calls ++ [call]) (init.added call size front page back) := by
  let page' := (addVregToPage page size call.initialValue).1
  let offset := (addVregToPage page size call.initialValue).2
  have hmem : page ∈ init.pages := by
    rw [hpages]
    exact List.mem_append_right _ List.mem_cons_self
  have hold : ∀ other ∈ init.pages, other = page ∨ other ∈ front ++ page' :: back := by
    intro other hother
    rw [hpages] at hother
    simp only [List.mem_append, List.mem_cons] at hother ⊢
    tauto
  have hpages' : ∀ other ∈ front ++ page' :: back, other = page' ∨ other ∈ init.pages := by
    intro other hother
    rw [hpages]
    simp only [List.mem_append, List.mem_cons] at hother ⊢
    tauto
  have hentries : (init.added call size front page back).vregsToPagesAndOffsets =
      init.vregsToPagesAndOffsets ++ [(call.vreg, (page.linAddr, offset))] :=
    OrderedDict.insert_eq_append _ (h.keys ▸ hnew)
  have hvalues : (init.added call size front page back).vregsToInitialValues =
      init.vregsToInitialValues ++ [(call.vreg, call.initialValue)] :=
    OrderedDict.insert_eq_append _ (h.values ▸ hnew)
  have hother : ∀ other ∈ calls, other.vreg ≠ call.vreg := fun other hother heq =>
    hnew (heq ▸ List.mem_map_of_mem hother)
  refine ⟨?_, ?_, ?_, ?_, ?_, ?_, ?_, ?_, ?_⟩
  · intro other hmem'
    rcases hpages' other hmem' with rfl | hmem'
    · exact h.named page hmem
    · exact h.named other hmem'
  · have hnumbered := h.numbered
    rw [hpages] at hnumbered
    show (front ++ page' :: back).map Page.number = List.range (front ++ page' :: back).length
    rw [List.map_append, List.map_cons, List.length_append, List.length_cons] at hnumbered ⊢
    exact hnumbered
  · intro other hmem'
    rcases hpages' other hmem' with rfl | hmem'
    · exact (h.packed page hmem).add hfit hsized
    · exact h.packed other hmem'
  · rw [hvalues, List.map_append, h.values, List.map_append]
    rfl
  · intro other hmem'
    rcases List.mem_append.mp hmem' with hmem' | hmem'
    · exact (OrderedDict.get?_insert_ne _ _ (hother other hmem')).trans (h.configs other hmem')
    · rw [List.mem_singleton.mp hmem']
      exact OrderedDict.get?_insert_self _ _ _
  · rw [hentries, List.map_append, h.keys, List.map_append]
    rfl
  · intro entry hentry
    rw [hentries] at hentry
    rcases List.mem_append.mp hentry with hentry | hentry
    · obtain ⟨taken, htaken, hlin, hoffset⟩ := h.entries entry hentry
      rcases hold taken htaken with rfl | hkept
      · exact ⟨page', List.mem_append_right _ List.mem_cons_self, hlin, List.mem_append_left _ hoffset⟩
      · exact ⟨taken, hkept, hlin, hoffset⟩
    · rw [List.mem_singleton.mp hentry]
      exact ⟨page', List.mem_append_right _ List.mem_cons_self, rfl, List.mem_append_right _ List.mem_cons_self⟩
  · rw [hentries]
    refine List.pairwise_append.mpr ⟨h.apart, List.pairwise_singleton _ _, fun entry hentry next hnext hlin => ?_⟩
    obtain rfl := List.mem_singleton.mp hnext
    obtain ⟨taken, htaken, hlin', hoffset⟩ := h.entries entry hentry
    -- the entry is one of the page that is taken now
    obtain rfl := List.inj_on_of_nodup_map h.nodup_linAddr htaken hmem (hlin'.symm.trans hlin)
    exact (h.packed taken htaken).last _ hoffset
  · intro other hmem'
    rcases List.mem_append.mp hmem' with hmem' | hmem'
    · obtain ⟨place, hplace, hvalue, hsize⟩ := h.sized other hmem'
      exact ⟨place, (OrderedDict.get?_insert_ne _ _ (hother other hmem')).trans hplace, hvalue, hsize⟩
    · rw [List.mem_singleton.mp hmem']
      exact ⟨_, OrderedDict.get?_insert_self _ _ _, rfl, hsized⟩

end Inv

/-- The step: a call that is valid and served keeps the invariant. -/
theorem Inv.addVreg {calls : List Call} {init : Initializer} (h : Inv calls init) {call : Call} {vlen : ℕ}
    (hnew : call.vreg ∉ calls.map Call.vreg) (hvalid : call.Valid vlen) (hservable : call.Servable vlen) :
    ∃ init', init.addVreg call = .ok init' ∧ Inv (calls ++ [call]) init' := by
  obtain ⟨size, hsize, hle, hsized⟩ := hvalid.sized hservable
  have hunknown : OrderedDict.get? init.vregsToInitialValues call.vreg = none :=
    OrderedDict.get?_eq_none (h.values ▸ hnew)
  obtain ⟨base, front, page, back, hbase, hpages, hfit, hadd⟩ := init.addVreg_eq hunknown hsize hle
  exact ⟨_, hadd, (h.extended hbase).added hnew hpages hfit hsized⟩

/-- The run: behind all the calls the invariant holds. -/
theorem Inv.addVregs {calls : List Call} {init : Initializer} (h : Inv calls init) {vlen : ℕ} {more : List Call}
    (hnodup : ((calls ++ more).map Call.vreg).Nodup) (hvalid : ∀ call ∈ more, call.Valid vlen)
    (hservable : ∀ call ∈ more, call.Servable vlen) :
    ∃ init', init.addVregs more = .ok init' ∧ Inv (calls ++ more) init' := by
  induction more generalizing calls init with
  | nil => exact ⟨init, rfl, by rwa [List.append_nil]⟩
  | cons call more ih =>
      have hnew : call.vreg ∉ calls.map Call.vreg := by
        rw [List.map_append, List.map_cons] at hnodup
        exact fun hmem => (List.nodup_append.mp hnodup).2.2 _ hmem _ List.mem_cons_self rfl
      obtain ⟨hvalid, hvalids⟩ := List.forall_mem_cons.mp hvalid
      obtain ⟨hservable, hservables⟩ := List.forall_mem_cons.mp hservable
      obtain ⟨next, hnext, hinv⟩ := h.addVreg hnew hvalid hservable
      rw [List.append_cons] at hnodup ⊢
      obtain ⟨init', hrun, hinv'⟩ := ih hinv hnodup hvalids hservables
      refine ⟨init', ?_, hinv'⟩
      rw [Initializer.addVregs, List.foldlM_cons, hnext]
      exact hrun

/-! ### The layout -/

/-- The numbers of a place. -/
def Offset.chunk (offset : Offset) : Chunk :=
  ⟨offset.offset, (sizeLabel (offset.size / offset.initialValue.length)).bytes, offset.initialValue⟩

theorem contents_eq {page : Page} (h : page.Packed) :
    page.contents = assemble ((page.offsets.map Offset.chunk).flatMap Chunk.lines) [] := by
  have hinits : page.offsets.mapM Offset.inits = .ok (page.offsets.map fun offset =>
      [.org offset.offset, .data (sizeLabel (offset.size / offset.initialValue.length)) offset.initialValue]) := by
    refine Fallible.mapM_ok fun offset hoffset => ?_
    obtain ⟨eew, hsized⟩ := h.filled offset hoffset
    exact if_neg hsized.pos.ne'
  have hlines : page.getInits = .ok (.initMemory page.linAddr :: (page.offsets.map fun offset =>
      [InitLine.org offset.offset, .data (sizeLabel (offset.size / offset.initialValue.length)) offset.initialValue]).flatten) := by
    rw [Page.getInits, hinits]
    rfl
  have hfilter : ∀ offsets : List Offset, ((offsets.map fun offset =>
      [InitLine.org offset.offset, .data (sizeLabel (offset.size / offset.initialValue.length)) offset.initialValue]).flatten).filterMap
        InitLine.line? = (offsets.map Offset.chunk).flatMap Chunk.lines := by
    intro offsets
    induction offsets with
    | nil => rfl
    | cons offset offsets ih =>
        rw [List.map_cons, List.flatten_cons, List.filterMap_append, ih, List.map_cons, List.flatMap_cons]
        rfl
  rw [Page.contents, hlines]
  exact congrArg (assemble · []) (hfilter page.offsets)

theorem Sized.chunk_last {offset : Offset} {eew : ℕ} (h : Sized offset.size offset.initialValue.length eew) :
    offset.chunk.last ≤ offset.offset + offset.size := by
  refine Nat.add_le_add_left ?_ _
  show (sizeLabel _).bytes * offset.initialValue.length ≤ offset.size
  rw [h.label, Nat.mul_comm]
  exact h.bytes

/-- The contents of a page end inside of it, and every place holds its numbers. -/
theorem Page.Packed.exists_contents {page : Page} (h : page.Packed) : ∃ contents, page.contents = some contents ∧
    contents.length ≤ page.size ∧
    ∀ offset ∈ page.offsets, StandsAt contents offset.offset offset.chunk.bytes := by
  have hlast : ∀ offset ∈ page.offsets, offset.chunk.last ≤ offset.offset + offset.size := fun offset hoffset =>
    (h.filled offset hoffset).elim fun _ hsized => hsized.chunk_last
  have hsorted : (page.offsets.map Offset.chunk).Pairwise fun chunk next => chunk.last ≤ next.position := by
    rw [List.pairwise_map]
    exact h.sorted.imp_of_mem fun hmem _ hle => (hlast _ hmem).trans hle
  have hlimit : ∀ chunk ∈ page.offsets.map Offset.chunk, chunk.last ≤ page.size := by
    intro chunk hchunk
    obtain ⟨offset, hoffset, rfl⟩ := List.mem_map.mp hchunk
    exact ((hlast offset hoffset).trans (h.last offset hoffset)).trans h.fits
  have hstart : ∀ chunk ∈ page.offsets.map Offset.chunk, ([] : List ℕ).length ≤ chunk.position := fun _ _ => Nat.zero_le _
  obtain ⟨contents, hassemble, -, hle, hstands⟩ := assemble_chunks (Nat.zero_le page.size) hstart hsorted hlimit
  exact ⟨contents, (contents_eq h).trans hassemble, hle, fun offset hoffset => hstands _ (List.mem_map_of_mem hoffset)⟩

namespace Inv
variable {calls : List Call} {init : Initializer}

/-- The place of a register is one of its page, with its values. -/
theorem place (h : Inv calls init) {call : Call} (hcall : call ∈ calls) {page : Page} {offset : Offset}
    (hplace : Placement init call page offset) : offset ∈ page.offsets ∧ offset.initialValue = call.initialValue ∧
      Sized offset.size call.initialValue.length call.config.eew := by
  obtain ⟨place, hget, hvalue, hsized⟩ := h.sized call hcall
  obtain rfl := Option.some.inj (hget.symm.trans hplace.entry)
  obtain ⟨taken, htaken, hlin, hoffset⟩ := h.entries _ (OrderedDict.mem_of_get? hplace.entry)
  obtain rfl := List.inj_on_of_nodup_map h.nodup_linAddr hplace.mem htaken hlin
  exact ⟨hoffset, hvalue, hsized⟩

theorem data (h : Inv calls init) {call : Call} (hcall : call ∈ calls) {page : Page} {offset : Offset}
    (hplace : Placement init call page offset) : ∃ contents, page.contents = some contents ∧
      ∀ (i : ℕ) (hi : i < call.initialValue.length), StandsAt contents (offset.offset + i * (call.config.eew / 8))
        (littleEndian (call.config.eew / 8) call.initialValue[i]) := by
  obtain ⟨hoffset, hvalue, hsized⟩ := h.place hcall hplace
  obtain ⟨contents, hcontents, -, hstands⟩ := (h.packed page hplace.mem).exists_contents
  have hbytes : offset.chunk.bytes = call.initialValue.flatMap (littleEndian (call.config.eew / 8)) := by
    show offset.initialValue.flatMap (littleEndian (sizeLabel _).bytes) = _
    rw [hvalue, hsized.label]
  exact ⟨contents, hcontents, fun i hi => (hbytes ▸ hstands offset hoffset).getElem hi⟩

theorem disjoint (h : Inv calls init) {call other : Call} (hcall : call ∈ calls) (hother : other ∈ calls)
    (hne : call.vreg ≠ other.vreg) {page : Page} {offset offset' : Offset} (hplace : Placement init call page offset)
    (hplace' : Placement init other page offset') :
    offset.offset + call.bytes ≤ offset'.offset ∨ offset'.offset + other.bytes ≤ offset.offset := by
  let separate (entry next : String × (Text × Offset)) : Prop := entry.2.1 = next.2.1 →
    entry.2.2.offset + entry.2.2.size ≤ next.2.2.offset ∨ next.2.2.offset + next.2.2.size ≤ entry.2.2.offset
  have hsymm : Std.Symm separate := ⟨fun _ _ hle heq => (hle heq.symm).symm⟩
  have hseparate : init.vregsToPagesAndOffsets.Pairwise separate := h.apart.imp fun hle heq => .inl (hle heq)
  have hpair := hseparate.forall (OrderedDict.mem_of_get? hplace.entry) (OrderedDict.mem_of_get? hplace'.entry)
    (fun heq => hne (Prod.mk.inj heq).1) rfl
  have hbytes := (h.place hcall hplace).2.2.bytes
  have hbytes' := (h.place hother hplace').2.2.bytes
  exact hpair.imp (fun hle => (Nat.add_le_add_left hbytes _).trans hle) (fun hle => (Nat.add_le_add_left hbytes' _).trans hle)

/-- Every register is loaded from its place. -/
theorem loads (h : Inv calls init) (setup : LoadSetup) : ∃ lines, init.getVloads setup = .ok lines ∧
    ∀ call ∈ calls, ∀ page offset, Placement init call page offset →
      init.loadLines setup call.vreg call.config (page.linAddr, offset) <:+: lines := by
  let turn (entry : String × (Text × Offset)) : List LoadLine :=
    ((OrderedDict.get? init.vregsToConfigs entry.1).map fun config =>
      init.configLines setup config ++ init.loadLines setup entry.1 config entry.2).getD []
  have hturn : ∀ entry ∈ init.vregsToPagesAndOffsets, init.vloadsOf setup entry = .ok (turn entry) := by
    intro entry hentry
    have hkey : entry.1 ∈ calls.map Call.vreg := h.keys ▸ List.mem_map_of_mem hentry
    obtain ⟨call, hcall, hvreg⟩ := List.mem_map.mp hkey
    have hconfig : OrderedDict.get? init.vregsToConfigs entry.1 = some call.config := hvreg ▸ h.configs call hcall
    simp only [Initializer.vloadsOf, turn, hconfig]
    rfl
  refine ⟨(init.vregsToPagesAndOffsets.map turn).flatten, ?_, fun call hcall page offset hplace => ?_⟩
  · rw [Initializer.getVloads, Fallible.mapM_ok hturn]
    rfl
  · have hmem := List.mem_map_of_mem (f := turn) (OrderedDict.mem_of_get? hplace.entry)
    have hlines : turn (call.vreg, (page.linAddr, offset)) =
        init.configLines setup call.config ++ init.loadLines setup call.vreg call.config (page.linAddr, offset) := by
      show ((OrderedDict.get? init.vregsToConfigs call.vreg).map _).getD [] = _
      rw [h.configs call hcall]
      rfl
    rw [hlines] at hmem
    exact (List.suffix_append _ _).isInfix.trans (List.infix_of_mem_flatten hmem)

theorem laidOut (h : Inv calls init) : init.LaidOut calls where
  pages := h.nodup_linAddr
  placed := by
    intro call hcall
    obtain ⟨place, hget, -, -⟩ := h.sized call hcall
    obtain ⟨page, hpage, hlin, -⟩ := h.entries _ (OrderedDict.mem_of_get? hget)
    exact ⟨page, place.2, hpage, hlin ▸ hget⟩
  data := fun _ hcall _ _ => h.data hcall
  inside := by
    intro call hcall page offset hplace
    obtain ⟨hoffset, -, hsized⟩ := h.place hcall hplace
    have hpacked := h.packed page hplace.mem
    exact ((Nat.add_le_add_left hsized.bytes _).trans (hpacked.last offset hoffset)).trans hpacked.fits
  disjoint := fun _ hcall _ hother hne _ _ _ => h.disjoint hcall hother hne
  loads := h.loads

end Inv

/-- Registers whose size in bits is no more than a page and is computed for the vector length that is there are laid out where
they are loaded from, whatever is added in which order. -/
theorem laidOut_of_servable {vlen : ℕ} (label : Text) (tempRegs : List String) (htemps : 1 < tempRegs.length)
    {calls : List Call} (hvalid : ∀ call ∈ calls, call.Valid vlen) (hdistinct : (calls.map Call.vreg).Nodup)
    (hservable : ∀ call ∈ calls, call.Servable vlen) :
    ∃ init, (start label tempRegs htemps).addVregs calls = .ok init ∧ init.LaidOut calls := by
  obtain ⟨init, hrun, hinv⟩ := (inv_start label tempRegs htemps).addVregs hdistinct hvalid hservable
  exact ⟨init, hrun, hinv.laidOut⟩

/-- Four words, and a group of bytes up to its end. -/
def wordsAndBytes : List Call :=
  [⟨"v8", [1, 2, 3, 4], .number 4, 32, 1⟩, ⟨"v16", List.replicate 32 7, .word "vlmax", 8, 1⟩]

theorem valid_wordsAndBytes : ∀ call ∈ wordsAndBytes, call.Valid 256 := by
  refine List.forall_mem_cons.mpr ⟨⟨by decide, by simp, by norm_num, by norm_num, ?_, by decide⟩,
    List.forall_mem_singleton.mpr ⟨by decide, by simp, by norm_num, by norm_num, ?_, by decide⟩⟩
  · exact ⟨by decide, by norm_num, rfl⟩
  · exact ⟨.inl rfl, by norm_num [List.length_replicate]⟩

theorem laidOut_wordsAndBytes : ∃ init, (start "add".toList ["x10", "x11"] (by decide)).addVregs wordsAndBytes = .ok init ∧
    init.LaidOut wordsAndBytes :=
  laidOut_of_servable "add".toList ["x10", "x11"] (by decide) valid_wordsAndBytes (by decide)
    (List.forall_mem_cons.mpr ⟨(by decide : 32 * 4 ≤ 4096), List.forall_mem_singleton.mpr (.inl rfl)⟩)

/-- A kibibyte of values, in eight registers. -/
def kibibyte : Call := ⟨"v8", List.replicate 128 0, .number 128, 64, 8⟩

/-- It is taken for more than a page. -/
theorem not_laidOut_kibibyte : kibibyte.Valid 1024 ∧
    (start "add".toList ["x10", "x11"] (by decide)).addVregs [kibibyte] = .error .assertionError := by
  refine ⟨⟨by decide, by simp [kibibyte], by norm_num [kibibyte], by norm_num [kibibyte], ?_, ?_⟩, rfl⟩
  · exact ⟨by decide, by norm_num [kibibyte], List.length_replicate⟩
  · intro value hvalue
    rw [List.eq_of_mem_replicate hvalue]
    decide

end Riescue.VregInits
