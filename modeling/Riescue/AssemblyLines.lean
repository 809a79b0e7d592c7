import Riescue.LibExcept
import Riescue.LibSeparated
import Mathlib.Data.List.Chain
import Mathlib.Data.List.Infix
import Mathlib.Data.List.TakeWhile
import Mathlib.Tactic.Common

/-! The lines of a test, `AssemblyWriter.find_and_replace_assembly`: the scan copies the input line by line, leaves out
the `;#pma_hint` directives and appends the code of the other directives behind their lines. What it appends comes
from the pool, the CSR manager and the runtime and is a parameter. -/

namespace Riescue.AssemblyWriter
variable {ε : Type}

/-! ### Text -/

/-- A line, or an entry of the result, which has code behind the first line. -/
abbrev Line := List Char

instance lawfulBEqLine : LawfulBEq Line := inferInstance

def startsWith (start : String) (line : Line) : Bool := start.toList.isPrefixOf line

/-- `pattern in line` -/
def contains (pattern : String) : Line → Bool
  | [] => pattern.toList.isEmpty
  | c :: rest => startsWith pattern (c :: rest) || contains pattern rest

/-- The characters that `strip` removes. -/
def isSpace (c : Char) : Bool :=
  c.val ∈ [0x20, 0x85, 0xa0, 0x1680, 0x2028, 0x2029, 0x202f, 0x205f, 0x3000] ||
    (0x09 ≤ c.val && c.val ≤ 0x0d) || (0x1c ≤ c.val && c.val ≤ 0x1f) || (0x2000 ≤ c.val && c.val ≤ 0x200a)

def strip (line : Line) : Line := (line.dropWhile isSpace).reverse.dropWhile isSpace |>.reverse

/-- Code behind a line. -/
def withCode (line code : Line) : Line := line ++ '\n' :: code

/-- `"\n\t" + "\n\t".join(replaced_lines)` -/
def withLines (line : Line) (replacedLines : List Line) : Line :=
  line ++ "\n\t".toList ++ "\n\t".toList.intercalate replacedLines

/-! ### The writer -/

/-- What the writer makes of a `;#csr_rw` line: the pattern does not match, the pool has no access for it, or code. -/
inductive CsrRw where
  | noMatch
  | notFound
  | code (code : Line)
  deriving DecidableEq, Repr

/-- The configuration, the code that other parts of the framework give for the directives, and their exceptions. -/
structure Writer (ε : Type) where
  singleAssemblyFile : Bool
  wysiwyg : Bool
  hooks : ℕ
  sdtrigSupported : Bool
  /-- The `.section` lines of a `;#init_memory` line. -/
  initMemory : Line → Except ε (List Line)
  /-- The code of the trigger directives, none where a CSR access or an earlier configuration is missing. -/
  triggerConfigs : List (Except ε (Option Line))
  triggerDisables : List (Except ε (Option Line))
  triggerEnables : List (Except ε (Option Line))
  csrRw : Line → Except ε CsrRw
  readPte : Line → Except ε (Option Line)
  writePte : Line → Except ε (Option Line)
  testPassed : List Line
  testFailed : List Line

structure Scan where
  parsedLines : List Line
  sectionCodeFound : Bool
  inPmaHint : Bool
  triggerConfigIdx : ℕ
  triggerDisableIdx : ℕ
  triggerEnableIdx : ℕ

namespace Writer
variable (w : Writer ε)

/-- What `.section .code,` is replaced by. -/
def sectionCode : Line :=
  (if !(w.singleAssemblyFile && !w.wysiwyg && decide (w.hooks = 0)) then ".section .code, \"ax\""
    else ".section .code, \"aw\"").toList

/-- The code of the next trigger directive of a kind. -/
def triggerCode (codes : List (Except ε (Option Line))) (idx : ℕ) : Except ε (Option Line) :=
  if w.sdtrigSupported then codes[idx]?.getD (.ok none) else .ok none

/-- A line with its code, if there is any. -/
def appendCode (line : Line) (code : Option Line) : Line :=
  match code with
  | some code => withCode line code
  | none => line

/-- A directive that walks the page tables, with the code that its pattern gives. -/
def replacePte (directive : String) (walk : Line → Except ε (Option Line)) (line : Line) : Except ε Line :=
  if startsWith directive (strip line) then appendCode line <$> walk (strip line) else pure line

/-- The directives behind `;#csr_rw`. -/
def replacePteAndEnd (line : Line) : Except ε Line := do
  let line ← replacePte ";#read_pte" w.readPte line
  let line ← replacePte ";#write_pte" w.writePte line
  let line := if startsWith ";#test_passed" (strip line) then withLines line w.testPassed else line
  pure (if startsWith ";#test_failed" (strip line) then withLines line w.testFailed else line)

/-- `line + "\n" + section + "\n"` for each section. -/
def withSections (line : Line) (sections : List Line) : Line :=
  sections.foldl (fun line sectionLine => withCode line (sectionLine ++ ['\n'])) line

def replaceInitMemory (line : Line) : Except ε Line :=
  if startsWith ";#init_memory" line then withSections line <$> w.initMemory line else pure line

/-- What is left to do for the line of a `;#csr_rw` directive. -/
def lookupCsrRw (line : Line) : Except ε CsrRw :=
  if startsWith ";#csr_rw" (strip line) then w.csrRw (strip line) else pure .noMatch

/-- A line outside the hints, from `;#init_memory` on. -/
def replaceDirectives (s : Scan) (line : Line) : Except ε Scan := do
  let line ← w.replaceInitMemory line
  if startsWith ";#trigger_config(" (strip line) then
    let code ← w.triggerCode w.triggerConfigs s.triggerConfigIdx
    pure { s with
      triggerConfigIdx := s.triggerConfigIdx + 1
      parsedLines := s.parsedLines ++ [appendCode line code] }
  else if startsWith ";#trigger_disable(" (strip line) then
    let code ← w.triggerCode w.triggerDisables s.triggerDisableIdx
    pure { s with
      triggerDisableIdx := s.triggerDisableIdx + 1
      parsedLines := s.parsedLines ++ [appendCode line code] }
  else if startsWith ";#trigger_enable(" (strip line) then
    let code ← w.triggerCode w.triggerEnables s.triggerEnableIdx
    pure { s with
      triggerEnableIdx := s.triggerEnableIdx + 1
      parsedLines := s.parsedLines ++ [appendCode line code] }
  else
    match ← w.lookupCsrRw line with
    -- `continue`: the line of a directive without an access is left out
    | .notFound => pure s
    | .noMatch => do
        let line ← w.replacePteAndEnd line
        pure { s with parsedLines := s.parsedLines ++ [line] }
    | .code code => do
        let line ← w.replacePteAndEnd (withCode line code)
        pure { s with parsedLines := s.parsedLines ++ [line] }

/-- `line.strip().startswith(";#pma_hint")` -/
def opensPmaHint (line : Line) : Bool := startsWith ";#pma_hint" (strip line)

/-- The test for the line that closes a hint. -/
def closesPmaHint (line : Line) : Bool := contains ")" (strip line) && !startsWith "#" (strip line)

/-- The body of the loop. -/
def step (s : Scan) (line : Line) : Except ε Scan :=
  if opensPmaHint line then pure { s with inPmaHint := true }
  else if s.inPmaHint then pure (if closesPmaHint line then { s with inPmaHint := false } else s)
  else if contains ".section .code," line && !s.sectionCodeFound then
    w.replaceDirectives { s with sectionCodeFound := true } w.sectionCode
  else w.replaceDirectives s line

/-- `find_and_replace_assembly` -/
def findAndReplaceAssembly (assemblyContent : Line) : Except ε (List Line) := do
  let s ← (assemblyContent.splitOn '\n').foldlM w.step ⟨[], false, false, 0, 0, 0⟩
  pure s.parsedLines

/-! ### What must be left of the input -/

/-- An entry of the result without the text behind the line. -/
def firstLine (entry : Line) : Line := entry.takeWhile (· ≠ '\n')

/-- The lines outside the hints; a hint ends with the line that has its closing parenthesis, which can be the line that
opens it. -/
def outsideHints : Bool → List Line → List Line
  | _, [] => []
  | inHint, line :: rest =>
      if opensPmaHint line || inHint then outsideHints (!closesPmaHint line) rest
      else line :: outsideHints false rest

/-- The first line that names the code section is replaced, the whole line, by its documented form. -/
def replaceSectionCode : List Line → List Line
  | [] => []
  | line :: rest => if contains ".section .code," line then w.sectionCode :: rest else line :: replaceSectionCode rest

/-- No code is lost: the result without what is appended is the input without the hints. -/
def LosesNoCode (assemblyContent : Line) (result : List Line) : Prop :=
  result.map firstLine = w.replaceSectionCode (outsideHints false (assemblyContent.splitOn '\n'))

end Writer

/-! ### When no code is lost -/

namespace Writer

/-- A hint that is closed on its own line is followed by another hint or by nothing. -/
def HintsClosedLater (lines : List Line) : Prop :=
  lines.IsChain fun line next => opensPmaHint line = true → closesPmaHint line = true → opensPmaHint next = true

/-- The pool has the access of a `;#csr_rw` line. -/
def csrFound (w : Writer ε) (line : Line) : Bool :=
  !(startsWith ";#csr_rw" (strip line) &&
    match w.csrRw (strip line) with
    | .ok .notFound => true
    | _ => false)

end Writer

/-! ### Starts of lines -/

theorem startsWith_iff {start : String} {line : Line} : startsWith start line = true ↔ start.toList <+: line :=
  List.isPrefixOf_iff_prefix

/-- A line starts with one directive only. -/
theorem startsWith_exclusive {start other : String} {line : Line} (h : startsWith start line = true)
    (hne : startsWith start other.toList = false) (hne' : startsWith other start.toList = false) :
    startsWith other line = false := by
  by_contra hother
  rw [Bool.not_eq_false] at hother
  rcases List.prefix_or_prefix_of_prefix (startsWith_iff.mp h) (startsWith_iff.mp hother) with hpre | hpre
  · exact Bool.false_ne_true (hne.symm.trans (startsWith_iff.mpr hpre))
  · exact Bool.false_ne_true (hne'.symm.trans (startsWith_iff.mpr hpre))

theorem dropWhile_isSpace_append {word : Line} (hword : ∀ c ∈ word, isSpace c = false) (hne : word ≠ []) (line : Line) :
    (word ++ line).dropWhile isSpace = word ++ line := by
  cases word with
  | nil => exact absurd rfl hne
  | cons c word => exact List.dropWhile_cons_of_neg (Bool.eq_false_iff.mp (hword c List.mem_cons_self))

/-- Stripping keeps a word without spaces at the start. -/
theorem startsWith_strip {start : String} {line : Line} (h : startsWith start line = true)
    (hall : start.toList.all (fun c => !isSpace c) = true) (hne : start.toList ≠ []) :
    startsWith start (strip line) = true := by
  have hword : ∀ c ∈ start.toList, isSpace c = false := fun c hc => by simpa using List.all_eq_true.mp hall c hc
  obtain ⟨rest, rfl⟩ := startsWith_iff.mp h
  rw [startsWith_iff, strip, dropWhile_isSpace_append hword hne, List.reverse_append, List.dropWhile_append]
  have hreverse : start.toList.reverse.dropWhile isSpace = start.toList.reverse := by
    have hreversed : ∀ c ∈ start.toList.reverse, isSpace c = false := fun c hc => hword c (List.mem_reverse.mp hc)
    have hdrop := dropWhile_isSpace_append hreversed (mt List.reverse_eq_nil_iff.mp hne) []
    rwa [List.append_nil] at hdrop
  split_ifs
  · rw [hreverse, List.reverse_reverse]
  · rw [List.reverse_append, List.reverse_reverse]
    exact List.prefix_append _ _

/-! ### What is appended -/

namespace Writer
variable {w : Writer ε}

@[simp] theorem firstLine_withCode (line code : Line) : firstLine (withCode line code) = firstLine line := by
  induction line with
  | nil => rfl
  | cons c line ih =>
      by_cases hc : c = '\n'
      · rw [hc]
        rfl
      · have hkeep : decide (c ≠ '\n') = true := decide_eq_true hc
        have hcons : ∀ entry : Line, firstLine (c :: entry) = c :: firstLine entry := fun entry =>
          List.takeWhile_cons_of_pos hkeep
        calc firstLine (withCode (c :: line) code)
          _ = c :: firstLine (withCode line code) := hcons _
          _ = c :: firstLine line := by rw [ih]
          _ = firstLine (c :: line) := (hcons line).symm

@[simp] theorem firstLine_withLines (line : Line) (replacedLines : List Line) :
    firstLine (withLines line replacedLines) = firstLine line := by
  have hcode : withLines line replacedLines = withCode line ('\t' :: ['\n', '\t'].intercalate replacedLines) := by
    rw [withLines, List.append_assoc]
    rfl
  rw [hcode, firstLine_withCode]

@[simp] theorem firstLine_appendCode (line : Line) (code : Option Line) :
    firstLine (appendCode line code) = firstLine line := by
  cases code with
  | none => rfl
  | some code => exact firstLine_withCode line code

theorem firstLine_sectionCode : firstLine w.sectionCode = w.sectionCode := by
  rw [sectionCode]
  split_ifs <;> rfl

theorem replacePte_firstLine {directive : String} {walk : Line → Except ε (Option Line)} {line line' : Line}
    (h : replacePte directive walk line = .ok line') : firstLine line' = firstLine line := by
  rw [replacePte] at h
  split_ifs at h
  · obtain ⟨code, -, rfl⟩ := Fallible.map_ok h
    exact firstLine_appendCode line code
  · exact congrArg firstLine (Except.ok.inj h).symm

theorem replacePteAndEnd_firstLine {line line' : Line} (h : w.replacePteAndEnd line = .ok line') :
    firstLine line' = firstLine line := by
  obtain ⟨line₁, hread, h⟩ := Fallible.bind_ok h
  obtain ⟨line₂, hwrite, h⟩ := Fallible.bind_ok h
  rw [← replacePte_firstLine hread, ← replacePte_firstLine hwrite]
  obtain rfl := Except.ok.inj h
  split_ifs <;> simp

end Writer

/-! ### One line -/

namespace Writer
variable {w : Writer ε}

theorem csrFound_of_directive {directive : String} {line : Line} (h : startsWith directive (strip line) = true)
    (hne : startsWith directive ";#csr_rw".toList = false) (hne' : startsWith ";#csr_rw" directive.toList = false) :
    w.csrFound line = true := by
  rw [csrFound, startsWith_exclusive h hne hne']
  rfl

theorem withSections_prefix (line : Line) (sections : List Line) :
    line <+: withSections line sections ∧ firstLine (withSections line sections) = firstLine line := by
  induction sections generalizing line with
  | nil => exact ⟨List.prefix_rfl, rfl⟩
  | cons sectionLine rest ih =>
      obtain ⟨hpre, hfirst⟩ := ih (withCode line (sectionLine ++ ['\n']))
      exact ⟨(List.prefix_append _ _).trans hpre, hfirst.trans (firstLine_withCode _ _)⟩

/-- A line is extended by `;#init_memory`, which is no `;#csr_rw`. -/
theorem replaceInitMemory_ok {line line' : Line} (h : w.replaceInitMemory line = .ok line') :
    firstLine line' = firstLine line ∧ w.csrFound line' = w.csrFound line := by
  rw [replaceInitMemory] at h
  split_ifs at h with hinit
  · obtain ⟨sections, -, rfl⟩ := Fallible.map_ok h
    obtain ⟨hpre, hfirst⟩ := withSections_prefix line sections
    have hfound : ∀ entry : Line, startsWith ";#init_memory" entry = true → w.csrFound entry = true := by
      intro entry hentry
      have hstrip := startsWith_strip hentry (by decide) (by decide)
      exact csrFound_of_directive hstrip (by decide) (by decide)
    have hextended := startsWith_iff.mpr ((startsWith_iff.mp hinit).trans hpre)
    exact ⟨hfirst, (hfound _ hextended).trans (hfound line hinit).symm⟩
  · obtain rfl := Except.ok.inj h
    exact ⟨rfl, rfl⟩

theorem csrFound_of_lookup {line : Line} {csrRw : CsrRw} (h : w.lookupCsrRw line = .ok csrRw) :
    w.csrFound line = !decide (csrRw = .notFound) := by
  rw [lookupCsrRw] at h
  rw [csrFound]
  split_ifs at h with hstart
  · rw [hstart, h]
    cases csrRw <;> rfl
  · rw [Bool.eq_false_iff.mpr hstart, ← Except.ok.inj h]
    rfl

/-- What a line outside the hints does: its own entry, unless it is a `;#csr_rw` without an access. -/
structure Copied (w : Writer ε) (line : Line) (s s' : Scan) : Prop where
  inPmaHint : s'.inPmaHint = s.inPmaHint
  sectionCodeFound : s'.sectionCodeFound = s.sectionCodeFound
  parsedLines : s'.parsedLines.map firstLine = s.parsedLines.map firstLine ++ ([line].filter w.csrFound).map firstLine

theorem parsedLines_append {line entry : Line} (hfirst : firstLine entry = firstLine line)
    (hfound : w.csrFound line = true) (parsedLines : List Line) :
    (parsedLines ++ [entry]).map firstLine =
      parsedLines.map firstLine ++ ([line].filter w.csrFound).map firstLine := by
  rw [List.map_append, List.filter_cons_of_pos hfound, List.filter_nil, List.map_cons, List.map_cons, hfirst]

theorem replaceDirectives_copied {line : Line} {s s' : Scan} (h : w.replaceDirectives s line = .ok s') :
    w.Copied line s s' := by
  obtain ⟨line₁, hinit, h⟩ := Fallible.bind_ok h
  obtain ⟨hfirst, hfound⟩ := replaceInitMemory_ok hinit
  have happend : ∀ code, firstLine (appendCode line₁ code) = firstLine line := fun code =>
    (firstLine_appendCode line₁ code).trans hfirst
  split_ifs at h with hconfig hdisable henable
  · obtain ⟨code, -, h⟩ := Fallible.bind_ok h
    obtain rfl := Except.ok.inj h
    have hcsr := hfound.symm.trans (csrFound_of_directive hconfig (by decide) (by decide))
    exact ⟨rfl, rfl, parsedLines_append (happend _) hcsr _⟩
  · obtain ⟨code, -, h⟩ := Fallible.bind_ok h
    obtain rfl := Except.ok.inj h
    have hcsr := hfound.symm.trans (csrFound_of_directive hdisable (by decide) (by decide))
    exact ⟨rfl, rfl, parsedLines_append (happend _) hcsr _⟩
  · obtain ⟨code, -, h⟩ := Fallible.bind_ok h
    obtain rfl := Except.ok.inj h
    have hcsr := hfound.symm.trans (csrFound_of_directive henable (by decide) (by decide))
    exact ⟨rfl, rfl, parsedLines_append (happend _) hcsr _⟩
  · obtain ⟨csrRw, hcsrRw, h⟩ := Fallible.bind_ok h
    have hcsr := hfound.symm.trans (csrFound_of_lookup hcsrRw)
    cases csrRw with
    | notFound =>
        obtain rfl := Except.ok.inj h
        refine ⟨rfl, rfl, ?_⟩
        rw [List.filter_cons_of_neg (by rw [hcsr]; exact Bool.false_ne_true)]
        exact (List.append_nil _).symm
    | noMatch =>
        obtain ⟨line₂, hrest, h⟩ := Fallible.bind_ok h
        obtain rfl := Except.ok.inj h
        exact ⟨rfl, rfl, parsedLines_append ((replacePteAndEnd_firstLine hrest).trans hfirst) hcsr _⟩
    | code code =>
        obtain ⟨line₂, hrest, h⟩ := Fallible.bind_ok h
        obtain rfl := Except.ok.inj h
        have hfirst₂ : firstLine line₂ = firstLine line :=
          (replacePteAndEnd_firstLine hrest).trans ((firstLine_withCode _ _).trans hfirst)
        exact ⟨rfl, rfl, parsedLines_append hfirst₂ hcsr _⟩

end Writer

/-! ### The whole scan -/

namespace Writer
variable {w : Writer ε}

/-- The lines that the loop does not skip. -/
def copiedLines : Bool → List Line → List Line
  | _, [] => []
  | inPmaHint, line :: rest =>
      if opensPmaHint line then copiedLines true rest
      else if inPmaHint then copiedLines (!closesPmaHint line) rest
      else line :: copiedLines false rest

/-- The lines with the code section in its documented form, when it has not been found before. -/
def sectionReplaced (w : Writer ε) (sectionCodeFound : Bool) (lines : List Line) : List Line :=
  if sectionCodeFound then lines else w.replaceSectionCode lines

theorem sectionReplaced_cons_of_not {line : Line} {found : Bool}
    (h : (contains ".section .code," line && !found) = false) (rest : List Line) :
    w.sectionReplaced found (line :: rest) = line :: w.sectionReplaced found rest := by
  cases found with
  | true => rfl
  | false =>
      have hline : contains ".section .code," line = false := by simpa using h
      rw [sectionReplaced, sectionReplaced, if_neg Bool.false_ne_true, if_neg Bool.false_ne_true, replaceSectionCode,
        hline, if_neg Bool.false_ne_true]

theorem sectionReplaced_cons_of_contains {line : Line} {found : Bool}
    (h : (contains ".section .code," line && !found) = true) (rest : List Line) :
    w.sectionReplaced found (line :: rest) = w.sectionCode :: w.sectionReplaced true rest := by
  rw [Bool.and_eq_true, Bool.not_eq_true'] at h
  rw [h.2, sectionReplaced, if_neg Bool.false_ne_true, replaceSectionCode, if_pos h.1]
  rfl

theorem foldlM_step {lines : List Line} {s s' : Scan} (h : lines.foldlM w.step s = .ok s') :
    s'.parsedLines.map firstLine = s.parsedLines.map firstLine ++
      ((w.sectionReplaced s.sectionCodeFound (copiedLines s.inPmaHint lines)).filter w.csrFound).map firstLine := by
  induction lines generalizing s with
  | nil =>
      obtain rfl := Except.ok.inj h
      have hnil : w.sectionReplaced s.sectionCodeFound [] = [] := by
        rw [sectionReplaced]
        split_ifs <;> rfl
      rw [copiedLines, hnil]
      exact (List.append_nil _).symm
  | cons line rest ih =>
      rw [List.foldlM_cons] at h
      obtain ⟨s₁, hstep, h⟩ := Fallible.bind_ok h
      rw [ih h]
      rw [step] at hstep
      rw [copiedLines]
      split_ifs at hstep ⊢ with hopens hinHint hcloses hsection
      · obtain rfl := Except.ok.inj hstep
        rfl
      · obtain rfl := Except.ok.inj hstep
        rw [hcloses]
        rfl
      · obtain rfl := Except.ok.inj hstep
        rw [Bool.eq_false_iff.mpr hcloses, hinHint]
        rfl
      · have hcopied := replaceDirectives_copied hstep
        rw [sectionReplaced_cons_of_contains hsection, hcopied.parsedLines, hcopied.sectionCodeFound, hcopied.inPmaHint,
          Bool.eq_false_iff.mpr hinHint, List.append_assoc, ← List.map_append, ← List.filter_append]
        rfl
      · have hcopied := replaceDirectives_copied hstep
        rw [sectionReplaced_cons_of_not (Bool.eq_false_iff.mpr hsection), hcopied.parsedLines, hcopied.sectionCodeFound,
          hcopied.inPmaHint, Bool.eq_false_iff.mpr hinHint, List.append_assoc, ← List.map_append, ← List.filter_append]
        rfl

/-! ### The lines outside the hints -/

/-- The loop skips what belongs to a hint, and possibly more. -/
theorem copiedLines_sublist {inPmaHint inHint : Bool} (himp : inHint = true → inPmaHint = true) (lines : List Line) :
    List.Sublist (copiedLines inPmaHint lines) (outsideHints inHint lines) := by
  induction lines generalizing inPmaHint inHint with
  | nil => exact List.Sublist.refl _
  | cons line rest ih =>
      rw [copiedLines, outsideHints]
      cases hopens : opensPmaHint line with
      | true => exact ih fun _ => rfl
      | false =>
          cases inHint with
          | true =>
              rw [himp rfl]
              exact ih id
          | false =>
              cases inPmaHint with
              | true => exact (ih fun h => absurd h Bool.false_ne_true).cons line
              | false => exact (ih id).cons_cons line

/-- The loop skips no more than the hints exactly when each hint is closed behind its first line or another one
follows. -/
theorem copiedLines_eq_iff (inHint : Bool) (lines : List Line) :
    copiedLines inHint lines = outsideHints inHint lines ↔ HintsClosedLater lines := by
  induction lines generalizing inHint with
  | nil => exact iff_of_true rfl List.IsChain.nil
  | cons line rest ih =>
      rw [HintsClosedLater, List.isChain_cons]
      cases hopens : opensPmaHint line with
      | false =>
          have hchain : copiedLines inHint (line :: rest) = outsideHints inHint (line :: rest) ↔ HintsClosedLater rest := by
            rw [copiedLines, outsideHints, hopens]
            cases inHint with
            | true => exact ih _
            | false => exact List.cons_inj_right line |>.trans (ih false)
          exact hchain.trans (and_iff_right fun _ _ h => absurd h Bool.false_ne_true).symm
      | true =>
          rw [copiedLines, outsideHints, hopens, if_pos rfl, Bool.true_or, if_pos rfl]
          cases hcloses : closesPmaHint line with
          | false => exact (ih true).trans (and_iff_right fun _ _ _ h => absurd h Bool.false_ne_true).symm
          | true =>
              cases rest with
              | nil => exact iff_of_true rfl ⟨fun _ h => (nomatch h), List.IsChain.nil⟩
              | cons next more =>
                  cases hnext : opensPmaHint next with
                  | true =>
                      -- another hint opens, whatever the state of the loop
                      have hsame : copiedLines true (next :: more) = copiedLines false (next :: more) := by
                        rw [copiedLines, copiedLines, hnext, if_pos rfl, if_pos rfl]
                      rw [hsame]
                      refine (ih false).trans (and_iff_right fun y hy _ _ => ?_).symm
                      rw [← Option.some.inj hy, hnext]
                  | false =>
                      -- the loop skips the line behind the hint
                      refine iff_of_false (fun heq => ?_) fun hchain => ?_
                      · have hlength := congrArg List.length heq
                        rw [copiedLines, outsideHints, hnext, if_neg Bool.false_ne_true, if_pos rfl, Bool.false_or,
                          if_neg (by decide), List.length_cons] at hlength
                        have hle : (copiedLines (!closesPmaHint next) more).length ≤ (outsideHints false more).length :=
                          (copiedLines_sublist (fun h => absurd h Bool.false_ne_true) more).length_le
                        omega
                      · have hopensNext := hchain.1 next rfl rfl rfl
                        exact Bool.false_ne_true (hnext.symm.trans hopensNext)

end Writer

/-! ### Lines of the input -/

namespace Writer
variable {w : Writer ε}

theorem firstLine_eq_self {line : Line} (h : '\n' ∉ line) : firstLine line = line := by
  rw [firstLine, List.takeWhile_eq_self_iff]
  exact fun c hc => decide_eq_true fun heq => h (heq ▸ hc)

theorem outsideHints_subset (inHint : Bool) (lines : List Line) : outsideHints inHint lines ⊆ lines := by
  induction lines generalizing inHint with
  | nil => exact List.Subset.refl _
  | cons line rest ih =>
      rw [outsideHints]
      split_ifs
      · exact List.subset_cons_of_subset _ (ih _)
      · exact List.cons_subset_cons _ (ih _)

theorem mem_replaceSectionCode {lines : List Line} {line : Line} (h : line ∈ w.replaceSectionCode lines) :
    line = w.sectionCode ∨ line ∈ lines := by
  induction lines with
  | nil => cases h
  | cons head rest ih =>
      rw [replaceSectionCode] at h
      split_ifs at h
      · exact (List.mem_cons.mp h).imp_right (List.mem_cons_of_mem _)
      · rcases List.mem_cons.mp h with rfl | hmem
        · exact Or.inr List.mem_cons_self
        · exact (ih hmem).imp_right (List.mem_cons_of_mem _)

@[simp] theorem length_replaceSectionCode (lines : List Line) : (w.replaceSectionCode lines).length = lines.length := by
  induction lines with
  | nil => rfl
  | cons line rest ih =>
      rw [replaceSectionCode]
      split_ifs
      · rfl
      · rw [List.length_cons, List.length_cons, ih]

/-- The lines that must be left carry no text behind them. -/
theorem firstLine_of_kept {content line : Line} {lines : List Line} (hlines : lines ⊆ content.splitOn '\n')
    (h : line ∈ w.replaceSectionCode lines) : firstLine line = line := by
  rcases mem_replaceSectionCode h with rfl | hmem
  · exact firstLine_sectionCode
  · exact firstLine_eq_self (Separated.sep_notMem_splitOn (hlines hmem))

/-- The result without what is appended: the lines that the loop copies and whose CSR access is found. -/
theorem findAndReplaceAssembly_firstLines {content : Line} {result : List Line}
    (h : w.findAndReplaceAssembly content = .ok result) :
    result.map firstLine =
      (w.replaceSectionCode (copiedLines false (content.splitOn '\n'))).filter w.csrFound := by
  obtain ⟨s, hloop, h⟩ := Fallible.bind_ok h
  obtain rfl := Except.ok.inj h
  have hsublist : List.Sublist (copiedLines false (content.splitOn '\n')) (outsideHints false (content.splitOn '\n')) :=
    copiedLines_sublist id _
  have hsubset := List.Subset.trans hsublist.subset (outsideHints_subset false _)
  calc s.parsedLines.map firstLine
    _ = ((w.replaceSectionCode (copiedLines false (content.splitOn '\n'))).filter w.csrFound).map firstLine :=
        foldlM_step hloop
    _ = (w.replaceSectionCode (copiedLines false (content.splitOn '\n'))).filter w.csrFound :=
        (List.map_congr_left fun line hline => firstLine_of_kept hsubset (List.mem_filter.mp hline).1).trans (List.map_id _)

/-- No code is lost exactly when every hint that is closed on its own line is followed by another hint or by nothing,
and every `;#csr_rw` line finds its access. -/
theorem findAndReplaceAssembly_losesNoCode_iff (w : Writer ε) {content : Line} {result : List Line}
    (h : w.findAndReplaceAssembly content = .ok result) :
    w.LosesNoCode content result ↔ HintsClosedLater (content.splitOn '\n') ∧
      ∀ line ∈ w.replaceSectionCode (outsideHints false (content.splitOn '\n')), w.csrFound line = true := by
  rw [LosesNoCode, findAndReplaceAssembly_firstLines h, ← copiedLines_eq_iff false]
  have hsublist : List.Sublist (copiedLines false (content.splitOn '\n')) (outsideHints false (content.splitOn '\n')) :=
    copiedLines_sublist id _
  constructor
  · intro heq
    have hlength := congrArg List.length heq
    have hfilter := List.length_filter_le w.csrFound (w.replaceSectionCode (copiedLines false (content.splitOn '\n')))
    rw [length_replaceSectionCode] at hlength hfilter
    have hcopied : copiedLines false (content.splitOn '\n') = outsideHints false (content.splitOn '\n') :=
      hsublist.eq_of_length_le (by omega)
    rw [hcopied] at heq
    exact ⟨hcopied, fun line hline => List.of_mem_filter (heq.symm ▸ hline)⟩
  · rintro ⟨hcopied, hfound⟩
    rw [hcopied]
    exact List.filter_eq_self.mpr hfound

end Writer

namespace Writer

/-- A writer without any code to append but an end of the test. -/
def plainWriter : Writer Empty where
  singleAssemblyFile := false
  wysiwyg := false
  hooks := 0
  sdtrigSupported := false
  initMemory := fun _ => .ok []
  triggerConfigs := []
  triggerDisables := []
  triggerEnables := []
  csrRw := fun _ => .ok (.code "csrr t2, mstatus".toList)
  readPte := fun _ => .ok none
  writePte := fun _ => .ok none
  testPassed := ["j passed".toList]
  testFailed := ["j failed".toList]

/-- A hint over two lines between ordinary lines and directives. -/
def twoLineHint : Line := ";#csr_rw(mstatus, read)\n;#pma_hint(name=a,\nsize=4)\nnop\n;#test_passed()".toList

/-- The hint is left out and every other line is kept. -/
theorem findAndReplaceAssembly_losesNoCode_twoLineHint :
    let result : List Line := [";#csr_rw(mstatus, read)\ncsrr t2, mstatus".toList, "nop".toList,
      ";#test_passed()\n\tj passed".toList]
    plainWriter.LosesNoCode twoLineHint result ↔ HintsClosedLater (twoLineHint.splitOn '\n') ∧
      ∀ line ∈ plainWriter.replaceSectionCode (outsideHints false (twoLineHint.splitOn '\n')),
        plainWriter.csrFound line = true :=
  findAndReplaceAssembly_losesNoCode_iff plainWriter (Fallible.toOption_some (by decide +kernel))

/-- A hint on a single line, as the parser requires it. -/
def oneLineHint : Line := ";#pma_hint(name=a, adjacent=true)\nli t0, 1\naddi t0, t0, 1".toList

/-- The rest of the test is skipped. -/
theorem not_findAndReplaceAssembly_losesNoCode :
    (plainWriter.findAndReplaceAssembly oneLineHint).toOption = some [] ∧
      outsideHints false (oneLineHint.splitOn '\n') = ["li t0, 1".toList, "addi t0, t0, 1".toList] ∧
      ¬ plainWriter.LosesNoCode oneLineHint [] := by
  refine ⟨by decide +kernel, by decide +kernel, ?_⟩
  rw [LosesNoCode]
  decide +kernel

end Writer

end Riescue.AssemblyWriter
