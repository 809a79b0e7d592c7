import Riescue.Sections

/-! `handle_sections`: which pages every section has, and from which addresses each of them starts. -/

namespace Riescue.Sections
open Addrgen Paging OrderedDict

/-! ### The sections of a test -/

def numRuntimePages : ℕ := 16
def numSuperCodePages : ℕ := 128
def numUserCodePages : ℕ := 128
def numMachineCodePages : ℕ := 128
def numMachineCsrPages : ℕ := 1
def numSuperCsrPages : ℕ := 1
/-- The walk is inline, no separate page is needed. -/
def numMachinePtePages : ℕ := 0

def selfcheckChecksumSize : ℕ := 16

def testExecutionDataPerHartSize : ℕ := (8 + 8 + 128 * 16 + 0xFFF) / 0x1000 * 0x1000

def gccCstdlibSections : List String :=
  ["text.srand", "text.rand", "text.memcpy", "text.memcmptext.acos", "text.asin", "text.exp", "text.log",
    "text.log10", "text.sqrt", "text.atan", "text.cos", "text.sin", "text.tan", "text.exp2", "text.sqrtf",
    "text.cbrt", "text.expm1", "text.log1p", "text.nan", "text.log2", "text.with_errno", "text.xflow",
    "text.__math_uflow", "text.__math_may_uflow", "text.__math_oflow", "text.__math_divzero",
    "text.__math_invalid", "text.__math_check_uflow", "text.__math_check_oflow", "text.__ieee754_sqrt",
    "text.__ieee754_sqrtf", "text.fabs", "text.finite", "text.__kernel_cos", "text.__kernel_sin",
    "text.__kernel_tan", "text.__ieee754_acos", "text.__ieee754_asin", "text.__ieee754_exp",
    "text.__ieee754_log", "text.__ieee754_log10", "text.__ieee754_rem_pio2", "text.pow",
    "text.__kernel_rem_pio2", "text.__ieee754_pow", "text.floor", "text.scalbn", "text.qsort",
    "text.memmove", "text.__fp_lock", "text.stdio_exit_handler", "text.cleanup_stdio", "text.__fp_unlock",
    "sdata._impure_ptr", "data._impure_data", "data.__sglue", "sdata.__malloc_sbrk_base",
    "sdata.__malloc_trim_threshold", "data.__malloc_av_"]

namespace SectionConfig
variable (cfg : SectionConfig)

def osDataSections : List String :=
  ["os_data", "hart_context"] ++ (if cfg.selfcheck then ["selfcheck_data"] else []) ++
    if cfg.logTestExecution then ["test_execution_data"] else []

def ioSections : List String :=
  ["io_htif"] ++ (if cfg.ioMaplic.isSome then ["maplic"] else []) ++
    (if cfg.ioSaplic.isSome then ["saplic"] else []) ++
    (if cfg.ioImsicMfile.isSome then ["imsic_mfile"] else []) ++
    (if cfg.ioImsicSfile.isSome then ["imsic_sfile"] else []) ++
    if cfg.debugRom.isSome then ["debug_rom"] else []

def cUsedSections : List String :=
  ["bss", "sbss", "sdata", "c_text", "rela.c_text", "c_stack", "rodata", "data", "c_comment", "symtab", "strtab"] ++
    if cfg.addGccCstdlibSections then gccCstdlibSections else []

def sectionsToProcess : List String :=
  ["data", "runtime", "code"] ++ cfg.osDataSections ++ cfg.ioSections ++ if cfg.cUsed then cfg.cUsedSections else []

/-! ### Numbers of pages -/

def numUserRuntimePages : ℕ := if cfg.privMode = .user then 1 else 0
def numRuntimeSPages : ℕ := if .super ∈ cfg.supportedPrivModes then 4 else 0
def numCodePages : ℕ := if cfg.moreOsPages then 500 else 128
def numCTextPages : ℕ := if cfg.cUsed then 30 else 0

/-- The pages of the code section and the sections behind it. -/
def numAllCodePages : ℕ :=
  cfg.numCodePages + numSuperCodePages + numUserCodePages + numMachineCodePages + numMachineCsrPages +
    numSuperCsrPages + numMachinePtePages + cfg.numCTextPages

/-- `get_page_count` -/
def getPageCount (section' : String) : ℕ :=
  if section' = "bss" then
    if cfg.bigBss then 3080 else if cfg.smallBss then 200 else 30
  else if section' = "c_stack" then 400
  else if section' = "rodata" then 75
  else if section' ∈ gccCstdlibSections then 1
  else 30

/-- The size of the `data` sections. -/
def dataSize : ℕ := if cfg.cUsed then 0xF0000 else 0x2000

def numHartContextPages : ℕ := (cfg.hartContextTotalSize + 0x1000 - 1) / 0x1000

def numSelfcheckPages : ℕ :=
  let perHartSize := 8 + selfcheckChecksumSize * cfg.repeatTimes * (cfg.discreteTests + 2)
  (perHartSize * cfg.numCpus + 0xFFF) / 0x1000

def numTestExecutionPages : ℕ := (cfg.numCpus * testExecutionDataPerHartSize + 0xFFF) / 0x1000

end SectionConfig

/-- The name of a page of a section; the first page has the name of the section itself. -/
def firstOr (first : String) (further : String) (i : ℕ) : String := if i = 0 then first else further ++ toString i

variable (cfg : SectionConfig)

/-! ### runtime -/

def runtimeCall : SectionCall where
  name := "runtime"
  size :=
    0x1000 * (numRuntimePages + cfg.numUserRuntimePages + cfg.numRuntimeSPages +
      if cfg.randomizeCodeLocation then 0 else cfg.numAllCodePages)
  iscode := true
  physName := "_section_runtime"
  startAddr := some cfg.resetPc
  skipPageMap := true

/-- A further page of the runtime, at its physical address only. -/
def runtimePageCall (i _allocLinAddr allocPhysAddr : ℕ) : SectionCall where
  name := firstOr "runtime" "__section__runtime_" i
  size := 0x1000
  iscode := true
  startAddr := some allocPhysAddr
  skipPageMap := true

/-- A section that is placed as one block and then page by page behind the block before it. -/
def addBlock (first : SectionCall) (call : ℕ → ℕ → ℕ → SectionCall) (count : ℕ) (layout : Layout) :
    Except SectionFault (ℕ × ℕ × Layout) := do
  let (linAddr, physAddr, layout) ← addSectionHandler cfg first layout
  addPages cfg true call (count - 1) 1 (linAddr + 0x1000) (physAddr + 0x1000) layout

def runtimeUserCall : ℕ → ℕ → ℕ → SectionCall :=
  pageCall (firstOr "runtime_user" "runtime_user_") (fun _ => "") true false true false false

def runtimeSCall : ℕ → ℕ → ℕ → SectionCall :=
  pageCall (firstOr "runtime_s" "runtime_s_") (fun _ => "") true true false false false

/-- The optional blocks behind the runtime. -/
def addRuntimeBlock (present : Bool) (call : ℕ → ℕ → ℕ → SectionCall) (count linAddr physAddr : ℕ)
    (layout : Layout) : Except SectionFault (ℕ × ℕ × Layout) :=
  if present then addBlock cfg { call 0 linAddr physAddr with size := 0x1000 * count } call count layout
  else .ok (linAddr, physAddr, layout)

def addRuntime (layout : Layout) : Except SectionFault Layout := do
  let (linAddr, physAddr, layout) ← addBlock cfg (runtimeCall cfg) runtimePageCall numRuntimePages layout
  let (linAddr, physAddr, layout) ←
    addRuntimeBlock cfg (cfg.numUserRuntimePages ≠ 0) runtimeUserCall cfg.numUserRuntimePages linAddr physAddr layout
  let (linAddr, _, layout) ←
    addRuntimeBlock cfg (cfg.numRuntimeSPages ≠ 0) runtimeSCall cfg.numRuntimeSPages linAddr physAddr layout
  pure { layout with runtimeEndAddr := some linAddr }

/-! ### code -/

def codeSkipPageMap : Bool := decide (cfg.privMode = .machine)

/-- The block of the code section; with loader code, the block has one more page. -/
def codeCall (runtimeEndAddr : ℕ) : SectionCall :=
  let pages := cfg.numAllCodePages - numMachinePtePages
  if cfg.wysiwyg then
    { name := "code", size := 0x1000 * (pages + 1), iscode := true, startAddr := some cfg.resetPc
      physName := "__section_code", skipPageMap := codeSkipPageMap cfg }
  else if cfg.randomizeCodeLocation then
    { name := "code", size := 0x1000 * pages, iscode := true, physName := "__section_code"
      skipPageMap := codeSkipPageMap cfg }
  else
    { name := "code", size := 0x1000 * cfg.numAllCodePages, iscode := true, startLinAddr := some runtimeEndAddr
      physName := "__section_code", skipPageMap := codeSkipPageMap cfg, identityMap := cfg.identityMapCode }

/-- A further page of the code; in machine mode only its linear address is given, as its physical one. -/
def codePageCall (i allocLinAddr allocPhysAddr : ℕ) : SectionCall where
  name := firstOr "code" "__section__code_" i
  size := 0x1000
  iscode := true
  startAddr := some (if codeSkipPageMap cfg then allocLinAddr else allocPhysAddr)
  startLinAddr := if codeSkipPageMap cfg then none else some allocLinAddr
  skipPageMap := codeSkipPageMap cfg

def textCall : ℕ → ℕ → ℕ → SectionCall :=
  pageCall (firstOr "text" "__section__text_") (fun i => if i = 0 then "__section_text" else "") true false false
    false false

def codeSuperCall : ℕ → ℕ → ℕ → SectionCall :=
  pageCall (fun i => "code_super_" ++ toString i) (fun i => "__section_code_super_" ++ toString i) true true false
    false false

def codeUserCall : ℕ → ℕ → ℕ → SectionCall :=
  pageCall (fun i => "code_user_" ++ toString i) (fun i => "__section_code_user_" ++ toString i) true false true
    false false

def codeMachineCall : ℕ → ℕ → ℕ → SectionCall :=
  pageCall (fun i => "code_machine_" ++ toString i) (fun i => "__section_code_machine_" ++ toString i) true false true
    false true

def csrMachineCall : ℕ → ℕ → ℕ → SectionCall :=
  pageCall (fun i => "csr_machine_" ++ toString i) (fun i => "__section_csr_machine_" ++ toString i) true false false
    false true

def csrSuperCall : ℕ → ℕ → ℕ → SectionCall :=
  pageCall (fun i => "csr_super_" ++ toString i) (fun i => "__section_csr_super_" ++ toString i) true true false
    false false

/-- The text of the C code: the first page moves on from the addresses it has got. -/
def addText (linAddr physAddr : ℕ) (layout : Layout) : Except SectionFault (ℕ × ℕ × Layout) :=
  if cfg.cUsed then do
    let (linAddr, physAddr, layout) ← addSectionHandler cfg (textCall 0 linAddr physAddr) layout
    addPages cfg false textCall (cfg.numCTextPages - 1) 1 (linAddr + 0x1000) (physAddr + 0x1000) layout
  else .ok (linAddr, physAddr, layout)

/-- Only the block that follows the runtime asks where the runtime ends. -/
def codeStart (layout : Layout) : Except SectionFault ℕ :=
  if cfg.wysiwyg ∨ cfg.randomizeCodeLocation then .ok 0
  else
    match layout.runtimeEndAddr with
    | none => .error .noRuntimeEndAddr
    | some runtimeEndAddr => .ok runtimeEndAddr

/-- The pages behind the first page of the code. -/
def addCodePages (linAddr physAddr : ℕ) (layout : Layout) : Except SectionFault Layout := do
  let (linAddr, physAddr, layout) ←
    addPages cfg false (codePageCall cfg) (cfg.numCodePages - 1) 1 (linAddr + 0x1000) (physAddr + 0x1000) layout
  let (linAddr, physAddr, layout) ← addText cfg linAddr physAddr layout
  let (linAddr, physAddr, layout) ← addPages cfg false codeSuperCall numSuperCodePages 0 linAddr physAddr layout
  let (linAddr, physAddr, layout) ← addPages cfg false codeUserCall numUserCodePages 0 linAddr physAddr layout
  let (linAddr, physAddr, layout) ← addPages cfg false codeMachineCall numMachineCodePages 0 linAddr physAddr layout
  let (linAddr, physAddr, layout) ← addPages cfg false csrMachineCall numMachineCsrPages 0 linAddr physAddr layout
  let (_, _, layout) ← addPages cfg false csrSuperCall numSuperCsrPages 0 linAddr physAddr layout
  pure layout

def addCode (layout : Layout) : Except SectionFault Layout := do
  let runtimeEndAddr ← codeStart cfg layout
  let (linAddr, physAddr, layout) ← addSectionHandler cfg (codeCall cfg runtimeEndAddr) layout
  addCodePages cfg linAddr physAddr layout

/-! ### data -/

/-- The calls for a section whose block is placed freely. -/
def dataCall (name : String) : ℕ → ℕ → ℕ → SectionCall :=
  pageCall (firstOr name ("__section_" ++ name ++ "_")) (fun _ => "") false false false false false

def addData (name : String) (layout : Layout) : Except SectionFault Layout := do
  let first : SectionCall := { name := name, size := cfg.dataSize, iscode := false, physName := "__section_" ++ name }
  let (_, _, layout) ← addBlock cfg first (dataCall name) (cfg.dataSize / 0x1000) layout
  pure layout

/-- A C section: contiguous linear addresses from one section to the next. -/
def addCSection (name : String) (isCode : Bool) (layout : Layout) : Except SectionFault Layout := do
  let count := cfg.getPageCount name
  let first : SectionCall :=
    { name := name, size := 0x1000 * count, iscode := isCode, physName := "__section_" ++ name, alwaysUser := !isCode
      startLinAddr := layout.nextCSectionLinAddr }
  let (linAddr, physAddr, layout) ← addSectionHandler cfg first layout
  let layout := { layout with nextCSectionLinAddr := some (linAddr + 0x1000 * count) }
  let call := pageCall (firstOr name (name ++ "_")) (firstOr ("__section_" ++ name) ("__section_" ++ name ++ "_"))
    isCode false (!isCode) false false
  let (_, _, layout) ← addPages cfg true call (count - 1) 1 (linAddr + 0x1000) (physAddr + 0x1000) layout
  pure layout

/-- Sections of one page, one for each number. -/
def addSingles (call : ℕ → SectionCall) : List ℕ → Layout → Except SectionFault Layout
  | [], layout => .ok layout
  | i :: rest, layout => do
      let (_, _, layout) ← addSectionHandler cfg (call i) layout
      addSingles call rest layout

def hartContextCall : ℕ → ℕ → ℕ → SectionCall :=
  pageCall (firstOr "hart_context" "__page_hart_context_")
    (firstOr "__section_hart_context" "__section___page_hart_context_") false false false true false

def hartStackCall (hid : ℕ) : SectionCall where
  name := "hart_stack_" ++ toString hid
  size := 0x1000
  iscode := false
  physName := "__section_hart_stack_" ++ toString hid

def addHartContext (layout : Layout) : Except SectionFault Layout := do
  let first : SectionCall :=
    { name := "hart_context", size := 0x1000 * cfg.numHartContextPages, iscode := false
      physName := "__section_hart_context" }
  let (_, _, layout) ← addBlock cfg first hartContextCall cfg.numHartContextPages layout
  addSingles cfg hartStackCall (List.range cfg.numCpus) layout

/-- A further page of the selfcheck data, at the linear address as its physical one. -/
def selfcheckCall (i allocAddr _allocPhysAddr : ℕ) : SectionCall where
  name := firstOr "selfcheck_data" "__section__selfcheck_data_" i
  size := 0x1000
  iscode := false
  startAddr := some allocAddr

def addSelfcheckData (layout : Layout) : Except SectionFault Layout := do
  let first : SectionCall :=
    { name := "selfcheck_data", size := cfg.numSelfcheckPages * 0x1000, iscode := false
      physName := "__section_selfcheck_data" }
  let (_, _, layout) ← addBlock cfg first selfcheckCall cfg.numSelfcheckPages layout
  pure layout

def testExecutionCall (i allocAddr _allocPhysAddr : ℕ) : SectionCall where
  name := firstOr "test_execution_data" "__page_test_execution_data_" i
  size := 0x1000
  iscode := false
  startAddr := some allocAddr
  skipPageMap := true

def testExecutionFirst : SectionCall where
  name := "test_execution_data"
  size := cfg.numTestExecutionPages * 0x1000
  iscode := false
  physName := "__section_test_execution_data"
  skipPageMap := true

def addTestExecutionData (layout : Layout) : Except SectionFault Layout := do
  let (_, _, layout) ← addBlock cfg (testExecutionFirst cfg) testExecutionCall cfg.numTestExecutionPages layout
  pure layout

/-! ### Devices -/

/-- The pages of a device, one step apart; every page is given the whole size. -/
def ioCall (name : String) (size step start i : ℕ) : SectionCall where
  name := name ++ toString i
  size := size
  iscode := false
  identityMap := true
  startAddr := some (start + step * i)

/-- `maplic` and `saplic` -/
def addAplic (name : String) (region : Option IoRegion) (layout : Layout) : Except SectionFault Layout :=
  match region with
  | none => .ok layout
  | some region =>
      addSingles cfg (ioCall name region.size 0x1000 region.addr) (List.range ((region.size + 0xFFF) / 0x1000)) layout

/-- `imsic_mfile` and `imsic_sfile` -/
def addImsic (name : String) (region : Option IoRegion) (layout : Layout) : Except SectionFault Layout :=
  match region with
  | none => .ok layout
  | some region => addSingles cfg (ioCall name 0x1000 region.size region.addr) (List.range cfg.numCpus) layout

def ioHtifCall : SectionCall where
  name := "io_htif"
  size := 0x80
  iscode := false
  identityMap := true
  startAddr := cfg.ioHtifAddr

def debugRomCall (region : IoRegion) : SectionCall where
  name := "debug_rom"
  size := max ((region.size + 0x1000 - 1) / 0x1000 * 0x1000) 0x1000
  iscode := true
  startAddr := some region.addr

/-! ### handle_sections -/

/-- The branches of `handle_sections`. -/
inductive SectionKind where
  | ignored | debugRom | runtime | code | data | cSection | hartContext | ioHtif | maplic | saplic | imsicMfile
  | imsicSfile | selfcheckData | testExecutionData
  deriving DecidableEq, Repr

def sectionKind (section' : String) (layout : Layout) : SectionKind :=
  if section' ∉ cfg.sectionsToProcess then .ignored
  else if section' = "debug_rom" then .debugRom
  else if cfg.wysiwyg ∧ (get? layout.randomAddrs "code").isSome then .ignored
  else if section' = "runtime" then .runtime
  else if section' = "code" then .code
  else if section' = "data" ∨ section' = "os_data" then .data
  else if cfg.cUsed ∧ section' ∈ cfg.cUsedSections then .cSection
  else if section' = "hart_context" then .hartContext
  else if section' = "io_htif" then .ioHtif
  else if section' = "maplic" then .maplic
  else if section' = "saplic" then .saplic
  else if section' = "imsic_mfile" then .imsicMfile
  else if section' = "imsic_sfile" then .imsicSfile
  -- `text` is not handled on its own
  else if section' = "text" then .ignored
  else if section' = "selfcheck_data" then .selfcheckData
  else if section' = "test_execution_data" then .testExecutionData
  -- "Unknown section"
  else .ignored

def addDebugRom (layout : Layout) : Except SectionFault Layout :=
  match cfg.discreteDebugTest, cfg.debugRom with
  | true, some region => addSingles cfg (fun _ => debugRomCall region) [0] layout
  | _, _ => .ok layout

/-- `handle_sections` -/
def handleSections (section' : String) (layout : Layout) : Except SectionFault Layout :=
  match sectionKind cfg section' layout with
  | .ignored => .ok layout
  | .debugRom => addDebugRom cfg layout
  | .runtime => addRuntime cfg layout
  | .code => addCode cfg layout
  | .data => addData cfg section' layout
  | .cSection => addCSection cfg section' (section'.contains "runtime") layout
  | .hartContext => addHartContext cfg layout
  | .ioHtif => addSingles cfg (fun _ => ioHtifCall cfg) [0] layout
  | .maplic => addAplic cfg "maplic_" cfg.ioMaplic layout
  | .saplic => addAplic cfg "saplic_" cfg.ioSaplic layout
  | .imsicMfile => addImsic cfg "imsic_mfile_" cfg.ioImsicMfile layout
  | .imsicSfile => addImsic cfg "imsic_sfile_" cfg.ioImsicSfile layout
  | .selfcheckData => addSelfcheckData cfg layout
  | .testExecutionData => addTestExecutionData cfg layout

end Riescue.Sections
