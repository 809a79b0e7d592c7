import Mathlib.Data.List.Nodup
import Riescue.VariableLayout

/-! The data section of the operating system and its equates, `append_os_data` and `generate_equates` of `runtime/opsys.py`: pointers,
the strings of the RVCP messages and the shared variables. -/

namespace Riescue.OsData
open Layout Variables

abbrev Text := List Char

/-- The strings of the RVCP messages. -/
inductive RvcpString where
  | prefixStr | testnameStr | passedStr | failedStr | spaceStr | newlineStr
  deriving DecidableEq, Repr

/-- The equate of a string. -/
def RvcpString.name : RvcpString → String
  | .prefixStr => "rvcp_prefix_str"
  | .testnameStr => "rvcp_testname_str"
  | .passedStr => "rvcp_passed_str"
  | .failedStr => "rvcp_failed_str"
  | .spaceStr => "rvcp_space_str"
  | .newlineStr => "rvcp_newline_str"

/-- A label of the section: `{name}_ptr`, `{name}_mem` of an interrupt handler, `{name}_data` of a string, and the labels of the
variables. -/
inductive OsLabel where
  | pointer (name : String)
  | interrupt (name : String)
  | rvcp (string : RvcpString)
  | ofVariables (label : Label)
  deriving DecidableEq

/-- What a line of the section emits. -/
inductive OsDatum where
  | address (label : String)
  | asciz (text : Text)
  | ofVariables (datum : Datum)
  deriving DecidableEq

abbrev OsLine := Directive OsLabel OsDatum

/-- The parts of `OpSys` and of its pool that the section is made of. A dictionary has a key once. -/
structure OpSys where
  xlen : Xlen
  runtimePointers : List (String × String)
  interruptHandlerPointers : List (String × String)
  rvcpPrintEnabled : Bool
  testname : Text
  hartCount : ℕ
  mpActive : Bool
  runtimePointers_nodup : (runtimePointers.map Prod.fst).Nodup
  interruptHandlerPointers_nodup : (interruptHandlerPointers.map Prod.fst).Nodup

/-- The characters of an assembler string: a backslash and a letter are one. -/
def unescape : Text → Text
  | [] => []
  | '\\' :: 'n' :: rest => '\n' :: unescape rest
  | '\\' :: c :: rest => c :: unescape rest
  | c :: rest => c :: unescape rest

/-- The bytes of `.asciz`. -/
def ascizSize (text : Text) : ℕ := ((unescape text).map Char.utf8Size).sum + 1

/-- `.dword` or `.word` -/
def OpSys.varSize (sys : OpSys) : ℕ :=
  match sys.xlen with
  | .xlen64 => 8
  | .xlen32 => 4

/-- The text of a string in the assembly. -/
def OpSys.rvcpText (sys : OpSys) : RvcpString → Text
  | .prefixStr => "RVCP: Test File ".toList
  | .testnameStr => sys.testname
  | .passedStr => "PASSED".toList
  | .failedStr => "FAILED".toList
  | .spaceStr => " ".toList
  | .newlineStr => "\\n".toList

def rvcpStrings : List RvcpString := [.prefixStr, .testnameStr, .passedStr, .failedStr, .spaceStr, .newlineStr]

def OpSys.pointerBlocks (sys : OpSys) : List (Block OsLabel OsDatum) :=
  sys.runtimePointers.map fun (name, label) => ⟨.pointer name, sys.varSize, .address label⟩

def OpSys.interruptBlocks (sys : OpSys) : List (Block OsLabel OsDatum) :=
  sys.interruptHandlerPointers.map fun (name, label) => ⟨.interrupt name, sys.varSize, .address label⟩

def OpSys.rvcpBlocks (sys : OpSys) : List (Block OsLabel OsDatum) :=
  rvcpStrings.map fun string => ⟨.rvcp string, ascizSize (sys.rvcpText string), .asciz (sys.rvcpText string)⟩

/-- `append_os_data`, the lines of `.os_data`. -/
def OpSys.appendOsData (sys : OpSys) (shared : BaseMemory) : List OsLine :=
  blockLines sys.pointerBlocks ++ blockLines sys.interruptBlocks ++
    (if sys.rvcpPrintEnabled then blockLines sys.rvcpBlocks ++ [.balign 8] else []) ++
    (SharedMemory.allocate shared).map (Directive.map OsLabel.ofVariables OsDatum.ofVariables)

/-- `build_text` -/
def buildText (variableName : String) (offset : ℤ) : List Equate :=
  [⟨variableName, "os_data", offset⟩, ⟨variableName ++ "_pa", "os_data_pa", offset⟩]

/-- The equates that are written, and `offset_adder`. -/
abbrev Adder := List Equate × ℕ

/-- An item of a size. -/
def Adder.add (s : Adder) (item : String × ℕ) : Adder := (s.1 ++ buildText item.1 s.2, s.2 + item.2)

/-- The string as Python has it. -/
def OpSys.rvcpChars (sys : OpSys) : RvcpString → Text
  | .newlineStr => ['\n']
  | string => sys.rvcpText string

/-- `hart_context_pa_equates` -/
def hartContextPaEquates (context : BaseMemory) (hartCount : ℕ) : List Equate :=
  (List.range hartCount).map fun hartId =>
    ⟨s!"hart_context_{hartId}_pa", "hart_context_pa", (HartContext.perHartSize context * hartId : ℕ)⟩

/-- `generate_equates` -/
def OpSys.generateEquates (sys : OpSys) (shared context : BaseMemory) : List Equate :=
  let osVariableSize := sys.varSize
  let s : Adder := ([], 0)
  let s := (sys.runtimePointers.map fun pointer => (pointer.1, osVariableSize)).foldl Adder.add s
  let s := (sys.interruptHandlerPointers.map fun pointer => (pointer.1, osVariableSize)).foldl Adder.add s
  let s :=
    if sys.rvcpPrintEnabled then
      let s := (rvcpStrings.map fun string => (string.name, (sys.rvcpChars string).length + 1)).foldl Adder.add s
      (s.1, (s.2 + 7) / 8 * 8)
    else s
  s.1 ++ SharedMemory.equates shared s.2 ++ SharedMemory.paEquates shared s.2 ++
    hartContextPaEquates context sys.hartCount ++
    (if sys.mpActive then [] else HartContext.equates context)

/-! ### The items of the section -/

/-- The items in front of the variables: their equates and their blocks. -/
def OpSys.items (sys : OpSys) : List (String × Block OsLabel OsDatum) :=
  (sys.runtimePointers.map fun (name, label) => (name, ⟨.pointer name, sys.varSize, .address label⟩)) ++
    (sys.interruptHandlerPointers.map fun (name, label) => (name, ⟨.interrupt name, sys.varSize, .address label⟩)) ++
    (if sys.rvcpPrintEnabled then
      rvcpStrings.map fun string =>
        (string.name, ⟨.rvcp string, ascizSize (sys.rvcpText string), .asciz (sys.rvcpText string)⟩)
    else [])

/-- Every item with its name and its label. -/
def OpSys.named (sys : OpSys) (shared : BaseMemory) : List (String × OsLabel) :=
  (sys.items.map fun item => (item.1, item.2.label)) ++ shared.vars.map fun v => (v.name, .ofVariables (.mem v.name))

/-- An equate gives an item its name and the offset at which the item is emitted. -/
def Locates (sys : OpSys) (shared : BaseMemory) (start : ℕ) (symbol : String → String) (equate : Equate)
    (item : String × OsLabel) : Prop :=
  equate.symbol = symbol item.1 ∧
    ∃ position : ℕ, find (isNamed item.2) start (sys.appendOsData shared) = some position ∧ position = start + equate.offset

/-- The equates of both kinds locate every item. -/
structure EquatesMatch (sys : OpSys) (shared context : BaseMemory) (start : ℕ) : Prop where
  equates : List.Forall₂ (Locates sys shared start id)
    ((sys.generateEquates shared context).filter (·.base = "os_data")) (sys.named shared)
  paEquates : List.Forall₂ (Locates sys shared start (· ++ "_pa"))
    ((sys.generateEquates shared context).filter (·.base = "os_data_pa")) (sys.named shared)

/-- The characters of a test name. -/
def Printable (text : Text) : Prop := ∀ c ∈ text, 0x20 ≤ c.toNat ∧ c.toNat ≤ 0x7e ∧ c ≠ '"' ∧ c ≠ '\\'

theorem unescape_of_notMem {text : Text} (h : '\\' ∉ text) : unescape text = text := by
  fun_induction unescape text with
  | case1 => rfl
  | case2 rest ih => exact absurd List.mem_cons_self h
  | case3 c rest hne ih => exact absurd List.mem_cons_self h
  | case4 c rest hn hother ih => rw [ih fun hmem => h (List.mem_cons_of_mem _ hmem)]

theorem ascizSize_printable {text : Text} (h : Printable text) : ascizSize text = text.length + 1 := by
  have hsize : ∀ c ∈ text, c.utf8Size = 1 := fun c hc => Char.utf8Size_eq_one_iff.mpr (by
    obtain ⟨-, hle, -⟩ := h c hc
    exact UInt32.le_iff_toNat_le.mpr (hle.trans (by decide)))
  rw [ascizSize, unescape_of_notMem fun hmem => (h _ hmem).2.2.2 rfl, List.map_congr_left hsize, List.map_const',
    List.sum_replicate_nat, Nat.mul_one]

/-- The bytes of a string are those that the equates count. -/
theorem ascizSize_rvcp {sys : OpSys} (h : Printable sys.testname) (string : RvcpString) :
    ascizSize (sys.rvcpText string) = (sys.rvcpChars string).length + 1 := by
  cases string with
  | testnameStr => exact ascizSize_printable h
  | prefixStr => rfl
  | passedStr => rfl
  | failedStr => rfl
  | spaceStr => rfl
  | newlineStr => rfl

/-- The labels in front of the variables are distinct. -/
theorem nodup_labels (sys : OpSys) : (sys.items.map fun item => item.2.label).Nodup := by
  have hpointers : (sys.runtimePointers.map fun pointer => OsLabel.pointer pointer.1).Nodup := by
    rw [show (fun pointer : String × String => OsLabel.pointer pointer.1) = OsLabel.pointer ∘ Prod.fst from rfl, ← List.map_map]
    exact sys.runtimePointers_nodup.map fun _ _ h => OsLabel.pointer.inj h
  have hinterrupts : (sys.interruptHandlerPointers.map fun pointer => OsLabel.interrupt pointer.1).Nodup := by
    rw [show (fun pointer : String × String => OsLabel.interrupt pointer.1) = OsLabel.interrupt ∘ Prod.fst from rfl,
      ← List.map_map]
    exact sys.interruptHandlerPointers_nodup.map fun _ _ h => OsLabel.interrupt.inj h
  have hrvcp : ((if sys.rvcpPrintEnabled then rvcpStrings.map OsLabel.rvcp else [])).Nodup := by
    split_ifs
    · exact List.Nodup.map (fun _ _ h => OsLabel.rvcp.inj h) (by decide)
    · exact List.nodup_nil
  have hlabels : sys.items.map (fun item => item.2.label) =
      (sys.runtimePointers.map fun pointer => OsLabel.pointer pointer.1) ++
        (sys.interruptHandlerPointers.map fun pointer => OsLabel.interrupt pointer.1) ++
        (if sys.rvcpPrintEnabled then rvcpStrings.map OsLabel.rvcp else []) := by
    rw [OpSys.items, List.map_append, List.map_append, List.map_map, List.map_map, apply_ite (List.map _), List.map_map]
    rfl
  rw [hlabels, List.nodup_append, List.nodup_append]
  refine ⟨⟨hpointers, hinterrupts, ?_⟩, hrvcp, ?_⟩
  · intro a ha b hb
    obtain ⟨pointer, -, rfl⟩ := List.mem_map.mp ha
    obtain ⟨handler, -, rfl⟩ := List.mem_map.mp hb
    exact OsLabel.noConfusion
  · intro a ha b hb
    have hstring : ∃ string, b = OsLabel.rvcp string := by
      split_ifs at hb
      · obtain ⟨string, -, rfl⟩ := List.mem_map.mp hb
        exact ⟨string, rfl⟩
      · exact absurd hb List.not_mem_nil
    obtain ⟨string, rfl⟩ := hstring
    rcases List.mem_append.mp ha with ha | ha
    · obtain ⟨pointer, -, rfl⟩ := List.mem_map.mp ha
      exact OsLabel.noConfusion
    · obtain ⟨handler, -, rfl⟩ := List.mem_map.mp ha
      exact OsLabel.noConfusion

/-! ### The walk over the items -/

/-- The equates of one kind for items that follow each other. -/
def placed (symbol : String → String) (base : String) : ℕ → List (String × ℕ) → List Equate
  | _, [] => []
  | offset, item :: rest => ⟨symbol item.1, base, offset⟩ :: placed symbol base (offset + item.2) rest

/-- The equates that a loop writes. -/
def built : ℕ → List (String × ℕ) → List Equate
  | _, [] => []
  | offset, item :: rest => buildText item.1 offset ++ built (offset + item.2) rest

theorem foldl_add (items : List (String × ℕ)) (equates : List Equate) (offset : ℕ) :
    items.foldl Adder.add (equates, offset) = (equates ++ built offset items, offset + (items.map Prod.snd).sum) := by
  induction items generalizing equates offset with
  | nil => exact Prod.ext (List.append_nil _).symm rfl
  | cons item rest ih =>
      show rest.foldl Adder.add (equates ++ buildText item.1 offset, offset + item.2) = _
      rw [ih, built, List.map_cons, List.sum_cons, List.append_assoc, Nat.add_assoc]

theorem built_append (front back : List (String × ℕ)) (offset : ℕ) :
    built offset (front ++ back) = built offset front ++ built (offset + (front.map Prod.snd).sum) back := by
  induction front generalizing offset with
  | nil => rfl
  | cons item rest ih =>
      rw [List.cons_append, built, built, ih, List.map_cons, List.sum_cons, List.append_assoc, Nat.add_assoc]

theorem filter_built (items : List (String × ℕ)) (offset : ℕ) :
    (built offset items).filter (·.base = "os_data") = placed id "os_data" offset items ∧
      (built offset items).filter (·.base = "os_data_pa") = placed (· ++ "_pa") "os_data_pa" offset items := by
  induction items generalizing offset with
  | nil => exact ⟨rfl, rfl⟩
  | cons item rest ih =>
      obtain ⟨hequates, hpa⟩ := ih (offset + item.2)
      rw [built, List.filter_append, List.filter_append, hequates, hpa]
      exact ⟨rfl, rfl⟩

/-- An item with its name and its size. -/
def sized (item : String × Block OsLabel OsDatum) : String × ℕ := (item.1, item.2.size)

theorem sum_sized (items : List (String × Block OsLabel OsDatum)) :
    ((items.map sized).map Prod.snd).sum = blockBytes (items.map Prod.snd) := by
  rw [blockBytes, List.map_map, List.map_map]
  rfl

/-- The lines of the items and what follows them. -/
theorem appendOsData_eq (sys : OpSys) (shared : BaseMemory) : sys.appendOsData shared =
    blockLines (sys.items.map Prod.snd) ++ ((if sys.rvcpPrintEnabled then [.balign 8] else []) ++
      (SharedMemory.allocate shared).map (Directive.map OsLabel.ofVariables OsDatum.ofVariables)) := by
  have hitems : sys.items.map Prod.snd =
      sys.pointerBlocks ++ sys.interruptBlocks ++ (if sys.rvcpPrintEnabled then sys.rvcpBlocks else []) := by
    rw [OpSys.items, List.map_append, List.map_append, List.map_map, List.map_map, apply_ite (List.map _), List.map_map]
    rfl
  rw [hitems, OpSys.appendOsData, blockLines_append, blockLines_append]
  cases sys.rvcpPrintEnabled with
  | false => simp only [Bool.false_eq_true, if_false, List.append_assoc, List.nil_append]; rfl
  | true => simp only [if_true, List.append_assoc]

/-- The bytes in front of the variables. -/
def OpSys.headBytes (sys : OpSys) : ℕ :=
  let bytes := blockBytes (sys.items.map Prod.snd)
  if sys.rvcpPrintEnabled then (bytes + 7) / 8 * 8 else bytes

/-- The equates follow the items. -/
theorem generateEquates_eq {sys : OpSys} (h : Printable sys.testname) (shared context : BaseMemory) :
    sys.generateEquates shared context = built 0 (sys.items.map sized) ++ SharedMemory.equates shared sys.headBytes ++
      SharedMemory.paEquates shared sys.headBytes ++ hartContextPaEquates context sys.hartCount ++
      (if sys.mpActive then [] else HartContext.equates context) := by
  have hstrings : (rvcpStrings.map fun string => (string.name, (sys.rvcpChars string).length + 1)) =
      rvcpStrings.map fun string => (string.name, ascizSize (sys.rvcpText string)) :=
    List.map_congr_left fun string _ => by rw [ascizSize_rvcp h]
  have hitems : sys.items.map sized = (sys.runtimePointers.map fun pointer => (pointer.1, sys.varSize)) ++
      (sys.interruptHandlerPointers.map fun pointer => (pointer.1, sys.varSize)) ++
      (if sys.rvcpPrintEnabled then rvcpStrings.map fun string => (string.name, ascizSize (sys.rvcpText string)) else []) := by
    rw [OpSys.items, List.map_append, List.map_append, List.map_map, List.map_map, apply_ite (List.map _), List.map_map]
    rfl
  rw [OpSys.generateEquates, OpSys.headBytes, ← sum_sized, hitems, hstrings]
  cases sys.rvcpPrintEnabled with
  | false => simp only [Bool.false_eq_true, if_false, List.append_nil, foldl_add, built_append, List.map_append, List.sum_append,
      List.nil_append, Nat.zero_add]
  | true => simp only [if_true, foldl_add, built_append, List.map_append, List.sum_append, List.nil_append, Nat.zero_add]

/-! ### Positions -/

/-- The walk: the items that are still to come stand behind the bytes of those before. -/
theorem forall₂_placed {lines back : List OsLine} {start : ℕ} (symbol : String → String) (base : String)
    {before items : List (String × Block OsLabel OsDatum)}
    (hlines : lines = blockLines ((before ++ items).map Prod.snd) ++ back)
    (hnodup : ((before ++ items).map fun item => item.2.label).Nodup) :
    List.Forall₂ (fun (equate : Equate) (item : String × OsLabel) => equate.symbol = symbol item.1 ∧
        ∃ position : ℕ, find (isNamed item.2) start lines = some position ∧ position = start + equate.offset)
      (placed symbol base (blockBytes (before.map Prod.snd)) (items.map sized))
      (items.map fun item => (item.1, item.2.label)) := by
  induction items generalizing before with
  | nil => exact .nil
  | cons item rest ih =>
      have hsplit : before ++ item :: rest = (before ++ [item]) ++ rest := by rw [List.append_assoc, List.singleton_append]
      refine .cons ⟨rfl, start + blockBytes (before.map Prod.snd), ?_, Int.natCast_add _ _⟩ ?_
      · have hfresh : ∀ other ∈ before.map Prod.snd, other.label ≠ item.2.label := by
          intro other hother heq
          obtain ⟨earlier, hearlier, rfl⟩ := List.mem_map.mp hother
          rw [List.map_append, List.nodup_append] at hnodup
          exact hnodup.2.2 _ (List.mem_map_of_mem hearlier) _ List.mem_cons_self heq
        rw [hlines, List.map_append, List.map_cons]
        exact find_blockLines hfresh start back
      · have hbytes : blockBytes (before.map Prod.snd) + item.2.size = blockBytes ((before ++ [item]).map Prod.snd) := by
          rw [blockBytes, blockBytes, List.map_append, List.map_append, List.sum_append]
          rfl
        show List.Forall₂ _ (placed symbol base (blockBytes (before.map Prod.snd) + item.2.size) (rest.map sized)) _
        rw [hbytes]
        exact ih (hsplit ▸ hlines) (hsplit ▸ hnodup)

theorem finish_head (sys : OpSys) {start : ℕ} (hstart : 8 ∣ start) :
    finish start (blockLines (sys.items.map Prod.snd) ++ (if sys.rvcpPrintEnabled then [.balign 8] else []) : List OsLine) =
      start + sys.headBytes := by
  rw [finish_append, finish_blockLines, OpSys.headBytes]
  cases sys.rvcpPrintEnabled with
  | false => rfl
  | true =>
      show alignUp 8 (start + blockBytes (sys.items.map Prod.snd)) = start + (blockBytes (sys.items.map Prod.snd) + 7) / 8 * 8
      rw [alignUp]
      omega

/-- The label of a variable stands at its offset from the first of them. -/
theorem find_variable {m : BaseMemory} {calls : List Registration} (h : Registered m false 0 calls) {v : Variable}
    (hv : v ∈ m.vars) (position : ℕ) :
    ∃ found : ℕ, find (isLabel (.mem v.name)) position (SharedMemory.allocate m) = some found ∧ found = position + v.offset := by
  obtain ⟨before, after, hvars, hnames, hoffset⟩ := h.split hv
  have hother : ∀ line ∈ before.flatMap (SharedMemory.variableLines m), isLabel (.mem v.name) line = false := by
    intro line hline
    obtain ⟨u, hu, hmem⟩ := List.mem_flatMap.mp hline
    rcases List.mem_cons.mp hmem with rfl | hmem
    · exact decide_eq_false fun heq => hnames u hu (Label.mem.inj heq)
    · obtain ⟨j, -, rfl⟩ := List.mem_map.mp hmem
      rfl
  have hlines : SharedMemory.allocate m = before.flatMap (SharedMemory.variableLines m) ++
      .label (.mem v.name) :: ((SharedMemory.variableLines m v).tail ++ after.flatMap (SharedMemory.variableLines m)) := by
    rw [SharedMemory.allocate, hvars, List.flatMap_append]
    rfl
  refine ⟨position + m.variableSize * (before.map Variable.elementCount).sum, ?_, ?_⟩
  · have hlabel : isLabel (.mem v.name) (.label (.mem v.name)) = true := decide_eq_true rfl
    rw [hlines, find_append_cons hother hlabel, (emitsSlots_shared m).finish_flatMap]
  · rw [hoffset, Int.zero_add]
    rfl

/-- No label in front of the variables is the label of one. -/
theorem head_not_variable (sys : OpSys) (name : String) :
    ∀ line ∈ (blockLines (sys.items.map Prod.snd) ++ (if sys.rvcpPrintEnabled then [.balign 8] else []) : List OsLine),
      isNamed (.ofVariables (.mem name)) line = false := by
  intro line hline
  rcases List.mem_append.mp hline with hblocks | halign
  · refine isNamed_blockLines (fun block hblock heq => ?_) line hblocks
    obtain ⟨item, hitem, rfl⟩ := List.mem_map.mp hblock
    rw [OpSys.items] at hitem
    rcases List.mem_append.mp hitem with hpointer | hrvcp
    · rcases List.mem_append.mp hpointer with hpointer | hinterrupt
      · obtain ⟨pointer, -, rfl⟩ := List.mem_map.mp hpointer
        cases heq
      · obtain ⟨pointer, -, rfl⟩ := List.mem_map.mp hinterrupt
        cases heq
    · split_ifs at hrvcp
      · obtain ⟨string, -, rfl⟩ := List.mem_map.mp hrvcp
        cases heq
      · exact absurd hrvcp List.not_mem_nil
  · split_ifs at halign
    · rw [List.mem_singleton.mp halign]
      rfl
    · exact absurd halign List.not_mem_nil

theorem isNamed_map (name : String) (line : Line) :
    isNamed (.ofVariables (.mem name)) (line.map OsLabel.ofVariables OsDatum.ofVariables) = isLabel (.mem name) line := by
  cases line with
  | label other => exact decide_eq_decide.mpr ⟨fun heq => OsLabel.ofVariables.inj heq, congrArg OsLabel.ofVariables⟩
  | balign alignment => rfl
  | data size datum => rfl
  | space size => rfl

/-- The equates of the variables locate them. -/
theorem forall₂_variables {sys : OpSys} {shared : BaseMemory} {calls : List Registration}
    (h : Registered shared false 0 calls) {start : ℕ} (hstart : 8 ∣ start) (symbol : String → String) (base : String) :
    List.Forall₂ (Locates sys shared start symbol)
      (shared.vars.map fun v => (⟨symbol v.name, base, v.offset + sys.headBytes⟩ : Equate))
      (shared.vars.map fun v => (v.name, .ofVariables (.mem v.name))) := by
  rw [List.forall₂_map_left_iff, List.forall₂_map_right_iff, List.forall₂_same]
  intro v hv
  obtain ⟨found, hfound, hposition⟩ := find_variable h hv (start + sys.headBytes)
  have hoffset : (found : ℤ) = start + (v.offset + sys.headBytes) := by omega
  refine ⟨rfl, found, ?_, hoffset⟩
  rw [appendOsData_eq, ← List.append_assoc, find_append (head_not_variable sys v.name), finish_head sys hstart, find_map]
  simp only [isNamed_map]
  exact hfound

/-- The equates of one base among those of the variables. -/
theorem filter_variables (vars : List Variable) (symbol : String → String) (base other : String) (adder : ℤ) :
    (vars.map fun v => (⟨symbol v.name, base, v.offset + adder⟩ : Equate)).filter (·.base = other) =
      if base = other then vars.map fun v => ⟨symbol v.name, base, v.offset + adder⟩ else [] := by
  split_ifs with hbase
  · exact List.filter_eq_self.mpr fun equate hequate => by
      obtain ⟨v, -, rfl⟩ := List.mem_map.mp hequate
      exact decide_eq_true hbase
  · exact List.filter_eq_nil_iff.mpr fun equate hequate => by
      obtain ⟨v, -, rfl⟩ := List.mem_map.mp hequate
      exact fun heq => hbase (of_decide_eq_true heq)

/-- The equates of the harts have other bases. -/
theorem filter_hart (sys : OpSys) (context : BaseMemory) {base : String}
    (hbase : base ≠ "hart_context_pa" ∧ base ≠ "hart_context") :
    (hartContextPaEquates context sys.hartCount ++
      (if sys.mpActive then [] else HartContext.equates context)).filter (·.base = base) = [] := by
  refine List.filter_eq_nil_iff.mpr fun equate hequate heq => ?_
  have hother : equate.base = base := of_decide_eq_true heq
  rcases List.mem_append.mp hequate with hpa | hsingle
  · obtain ⟨hartId, -, rfl⟩ := List.mem_map.mp hpa
    exact hbase.1 hother.symm
  · split_ifs at hsingle
    · exact absurd hsingle List.not_mem_nil
    · obtain ⟨v, -, rfl⟩ := List.mem_map.mp hsingle
      exact hbase.2 hother.symm

/-- Every equate of the section gives the position at which its item is emitted, from the start of the section. -/
theorem equatesMatch {sys : OpSys} (hname : Printable sys.testname) {xlen : Xlen} {amoEnabled : Bool}
    {calls : List Registration} {shared : BaseMemory}
    (hshared : (SharedMemory.new xlen amoEnabled).registerAll false calls = .ok shared) (context : BaseMemory) {start : ℕ}
    (hstart : 0x1000 ∣ start) : EquatesMatch sys shared context start := by
  obtain ⟨hregistered, -⟩ := registered_shared hshared
  have height : 8 ∣ start := Nat.dvd_trans (by decide) hstart
  have hitems : ∀ symbol base, List.Forall₂ (Locates sys shared start symbol) (placed symbol base 0 (sys.items.map sized))
      (sys.items.map fun item => (item.1, item.2.label)) := fun symbol base =>
    @forall₂_placed _ _ start symbol base [] _ (appendOsData_eq sys shared) (nodup_labels sys)
  have hvariables : ∀ symbol base, List.Forall₂ (Locates sys shared start symbol)
      (shared.vars.map fun v => (⟨symbol v.name, base, v.offset + sys.headBytes⟩ : Equate))
      (shared.vars.map fun v => (v.name, .ofVariables (.mem v.name))) := fun symbol base =>
    forall₂_variables hregistered height symbol base
  obtain ⟨hlinear, hphysical⟩ := filter_built (sys.items.map sized) 0
  have hfilter : ∀ base, base ≠ "hart_context_pa" ∧ base ≠ "hart_context" →
      (sys.generateEquates shared context).filter (·.base = base) =
        (built 0 (sys.items.map sized)).filter (·.base = base) ++
          ((SharedMemory.equates shared sys.headBytes).filter (·.base = base) ++
            (SharedMemory.paEquates shared sys.headBytes).filter (·.base = base)) := by
    intro base hbase
    rw [generateEquates_eq hname, List.append_assoc, List.filter_append, filter_hart sys context hbase, List.append_nil,
      List.filter_append, List.filter_append, List.append_assoc]
  constructor
  · have hnone : (SharedMemory.paEquates shared sys.headBytes).filter (·.base = "os_data") = [] :=
      (filter_variables shared.vars (· ++ "_pa") "os_data_pa" "os_data" sys.headBytes).trans (if_neg (by decide))
    have hall : (SharedMemory.equates shared sys.headBytes).filter (·.base = "os_data") = _ :=
      (filter_variables shared.vars id "os_data" "os_data" sys.headBytes).trans (if_pos rfl)
    rw [hfilter "os_data" (by decide), hlinear, hnone, hall, List.append_nil]
    exact List.rel_append (hitems id "os_data") (hvariables id "os_data")
  · have hnone : (SharedMemory.equates shared sys.headBytes).filter (·.base = "os_data_pa") = [] :=
      (filter_variables shared.vars id "os_data" "os_data_pa" sys.headBytes).trans (if_neg (by decide))
    have hall : (SharedMemory.paEquates shared sys.headBytes).filter (·.base = "os_data_pa") = _ :=
      (filter_variables shared.vars (· ++ "_pa") "os_data_pa" "os_data_pa" sys.headBytes).trans (if_pos rfl)
    rw [hfilter "os_data_pa" (by decide), hphysical, hnone, hall, List.nil_append]
    exact List.rel_append (hitems _ "os_data_pa") (hvariables _ "os_data_pa")

/-- The section of one hart with a pointer, an interrupt handler, a test name and two variables. -/
def oneHart : OpSys where
  xlen := .xlen64
  runtimePointers := [("passed_addr", "passed")]
  interruptHandlerPointers := [("m_timer", "handler")]
  rvcpPrintEnabled := true
  testname := ['t', '0']
  hartCount := 1
  mpActive := false
  runtimePointers_nodup := List.nodup_singleton _
  interruptHandlerPointers_nodup := List.nodup_singleton _

theorem printable_oneHart : Printable oneHart.testname := by
  have hall : oneHart.testname.all (fun c => 0x20 ≤ c.toNat ∧ c.toNat ≤ 0x7e ∧ c ≠ '"' ∧ c ≠ '\\') = true := by decide
  exact fun c hc => of_decide_eq_true (List.all_eq_true.mp hall c hc)

theorem equatesMatch_oneHart : ∃ shared,
    (SharedMemory.new .xlen64 true).registerAll false
      [{ name := "flags", value := 0 }, { name := "pte", value := 0, elementCount := 3 }] = .ok shared ∧
    Printable oneHart.testname ∧ 0x1000 ∣ 0x1000 ∧
    EquatesMatch oneHart shared (HartContext.new .xlen64 true) 0x1000 := by
  obtain ⟨shared, hshared⟩ : ∃ shared, (SharedMemory.new .xlen64 true).registerAll false
      [{ name := "flags", value := 0 }, { name := "pte", value := 0, elementCount := 3 }] = .ok shared := ⟨_, rfl⟩
  exact ⟨shared, hshared, printable_oneHart, Nat.dvd_refl _, equatesMatch printable_oneHart hshared _ (Nat.dvd_refl _)⟩

end Riescue.OsData
