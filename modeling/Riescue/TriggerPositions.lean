import Riescue.TriggerDirectives

/-! When the trigger directives of a test are expanded with their own parameters: the run of the writer is followed by the counters
of the directives, the code shows the parameters it is made of, and both together compare the positions. -/

namespace Riescue.TriggerDirectives
open AssemblyWriter (Line Writer startsWith strip withCode)
open DirectiveArgs Sdtrig TriggerConfig
variable {ε : Type}

/-! ### The run of the writer -/

section Run
variable {w : Writer (Fault ε)}

def viewOf (s : AssemblyWriter.Scan) : View where
  inPmaHint := s.inPmaHint
  sectionCodeFound := s.sectionCodeFound
  count
    | .config => s.triggerConfigIdx
    | .disable => s.triggerDisableIdx
    | .enable => s.triggerEnableIdx

/-- The code of the directives of a kind. -/
def codes (w : Writer (Fault ε)) : Kind → List (Except (Fault ε) (Option Line))
  | .config => w.triggerConfigs
  | .disable => w.triggerDisables
  | .enable => w.triggerEnables

theorem kindOf_initMemory {line : Line} (h : startsWith ";#init_memory" line = true) : kindOf line = none := by
  have hstrip := AssemblyWriter.startsWith_strip h (by decide) (by decide)
  unfold kindOf
  rw [AssemblyWriter.startsWith_exclusive hstrip (by decide) (by decide),
    AssemblyWriter.startsWith_exclusive hstrip (by decide) (by decide),
    AssemblyWriter.startsWith_exclusive hstrip (by decide) (by decide)]
  rfl

/-- The sections of a `;#init_memory` line make no trigger directive. -/
theorem kindOf_replaceInitMemory {line line' : Line} (h : w.replaceInitMemory line = .ok line') :
    kindOf line' = kindOf line ∧ (kindOf line ≠ none → line' = line) := by
  unfold Writer.replaceInitMemory at h
  split_ifs at h with hinit
  · obtain ⟨sections, -, rfl⟩ := Fallible.map_ok h
    have hprefix := (AssemblyWriter.startsWith_iff.mp hinit).trans (Writer.withSections_prefix line sections).1
    have hnone := kindOf_initMemory hinit
    exact ⟨(kindOf_initMemory (AssemblyWriter.startsWith_iff.mpr hprefix)).trans hnone.symm, fun hne => absurd hnone hne⟩
  · obtain rfl := Except.ok.inj h
    exact ⟨rfl, fun _ => rfl⟩

/-- What the replacement of the directives does to the view. -/
def Replaces (w : Writer (Fault ε)) (line : Line) (s s' : AssemblyWriter.Scan) : Option Kind → Prop
  | none => viewOf s' = viewOf s ∧ s.parsedLines <+: s'.parsedLines
  | some kind => ∃ code, w.triggerCode (codes w kind) ((viewOf s).count kind) = .ok code ∧
      s'.parsedLines = s.parsedLines ++ [Writer.appendCode line code] ∧
      viewOf s' = { viewOf s with count := Function.update (viewOf s).count kind ((viewOf s).count kind + 1) }

theorem replaceDirectives_replaces {line : Line} {s s' : AssemblyWriter.Scan} (h : w.replaceDirectives s line = .ok s') :
    Replaces w line s s' (kindOf line) := by
  obtain ⟨line₁, hinit, h⟩ := Fallible.bind_ok h
  obtain ⟨hkind, hsame⟩ := kindOf_replaceInitMemory hinit
  have hcount : ∀ {v v' : View}, v'.inPmaHint = v.inPmaHint → v'.sectionCodeFound = v.sectionCodeFound →
      (∀ kind, v'.count kind = v.count kind) → v' = v := by
    rintro ⟨inPmaHint, sectionCodeFound, count⟩ ⟨inPmaHint', sectionCodeFound', count'⟩ hhint hsection hcount
    obtain rfl : count' = count := funext hcount
    obtain rfl : inPmaHint' = inPmaHint := hhint
    obtain rfl : sectionCodeFound' = sectionCodeFound := hsection
    rfl
  -- a trigger directive, by its kind
  have htrigger : ∀ (kind : Kind) {code : Option Line}, kindOf line₁ = some kind →
      w.triggerCode (codes w kind) ((viewOf s).count kind) = .ok code →
      s'.parsedLines = s.parsedLines ++ [Writer.appendCode line₁ code] → s'.inPmaHint = s.inPmaHint →
      s'.sectionCodeFound = s.sectionCodeFound →
      (∀ other, (viewOf s').count other = Function.update (viewOf s).count kind ((viewOf s).count kind + 1) other) →
      Replaces w line s s' (kindOf line) := by
    intro kind code hline hcode hparsed hhint hsection hother
    rw [← hkind, hline]
    have hline₁ := hsame (by rw [← hkind, hline]; exact nofun)
    exact ⟨code, hcode, hline₁ ▸ hparsed, hcount hhint hsection hother⟩
  split_ifs at h with hconfig hdisable henable
  · obtain ⟨code, hcode, h⟩ := Fallible.bind_ok h
    obtain rfl := Except.ok.inj h
    refine htrigger .config (if_pos hconfig) hcode rfl rfl rfl fun other => ?_
    cases other <;> rfl
  · obtain ⟨code, hcode, h⟩ := Fallible.bind_ok h
    obtain rfl := Except.ok.inj h
    refine htrigger .disable ((if_neg hconfig).trans (if_pos hdisable)) hcode rfl rfl rfl fun other => ?_
    cases other <;> rfl
  · obtain ⟨code, hcode, h⟩ := Fallible.bind_ok h
    obtain rfl := Except.ok.inj h
    refine htrigger .enable ((if_neg hconfig).trans ((if_neg hdisable).trans (if_pos henable))) hcode rfl rfl rfl
      fun other => ?_
    cases other <;> rfl
  · have hnone : kindOf line = none :=
      hkind.symm.trans ((if_neg hconfig).trans ((if_neg hdisable).trans (if_neg henable)))
    rw [hnone]
    obtain ⟨csrRw, -, h⟩ := Fallible.bind_ok h
    cases csrRw with
    | notFound =>
        obtain rfl := Except.ok.inj h
        exact ⟨rfl, List.prefix_rfl⟩
    | noMatch =>
        obtain ⟨line₂, -, h⟩ := Fallible.bind_ok h
        obtain rfl := Except.ok.inj h
        exact ⟨rfl, List.prefix_append _ _⟩
    | code code =>
        obtain ⟨line₂, -, h⟩ := Fallible.bind_ok h
        obtain rfl := Except.ok.inj h
        exact ⟨rfl, List.prefix_append _ _⟩

theorem kindOf_sectionCode (w : Writer (Fault ε)) : kindOf w.sectionCode = none := by
  unfold Writer.sectionCode
  split_ifs <;> decide

/-- One line of the content. -/
theorem step_view {line : Line} {s s' : AssemblyWriter.Scan} (h : w.step s line = .ok s') :
    viewOf s' = (viewOf s).step line ∧ s.parsedLines <+: s'.parsedLines ∧
      ((viewOf s).reaches line = true → ∀ kind, kindOf line = some kind →
        ∃ code, w.triggerCode (codes w kind) ((viewOf s).count kind) = .ok code ∧
          s'.parsedLines = s.parsedLines ++ [Writer.appendCode line code]) := by
  unfold Writer.step at h
  unfold View.step View.reaches
  have hhint : (viewOf s).inPmaHint = s.inPmaHint := rfl
  have hfound : (viewOf s).sectionCodeFound = s.sectionCodeFound := rfl
  rw [hhint, hfound]
  split_ifs at h with hopens hinHint hcloses hsection
  · obtain rfl := Except.ok.inj h
    rw [if_pos hopens, hopens]
    exact ⟨rfl, List.prefix_rfl, nofun⟩
  · obtain rfl := Except.ok.inj h
    rw [if_neg hopens, if_pos hinHint, hinHint, hcloses]
    refine ⟨rfl, List.prefix_rfl, fun hreaches => ?_⟩
    rw [Bool.not_true, Bool.and_false, Bool.false_and] at hreaches
    cases hreaches
  · obtain rfl := Except.ok.inj h
    rw [if_neg hopens, if_pos hinHint, hinHint, Bool.eq_false_iff.mpr hcloses]
    refine ⟨?_, List.prefix_rfl, fun hreaches => ?_⟩
    · unfold viewOf
      rw [hinHint]
      rfl
    · rw [Bool.not_true, Bool.and_false, Bool.false_and] at hreaches
      cases hreaches
  · have hreplaces := replaceDirectives_replaces h
    rw [kindOf_sectionCode] at hreplaces
    rw [if_neg hopens, if_neg hinHint, if_pos hsection, hsection]
    refine ⟨hreplaces.1, hreplaces.2, fun hreaches => ?_⟩
    rw [Bool.not_true, Bool.and_false] at hreaches
    cases hreaches
  · have hreplaces := replaceDirectives_replaces h
    rw [if_neg hopens, if_neg hinHint, if_neg hsection]
    cases hkind : kindOf line with
    | none =>
        rw [hkind] at hreplaces
        exact ⟨hreplaces.1, hreplaces.2, fun _ _ hsome => nomatch hsome⟩
    | some kind =>
        rw [hkind] at hreplaces
        obtain ⟨code, hcode, hparsed, hview⟩ := hreplaces
        refine ⟨hview, hparsed ▸ List.prefix_append _ _, fun _ other hother => ?_⟩
        obtain rfl := Option.some.inj hother
        exact ⟨code, hcode, hparsed⟩

theorem foldlM_view {lines : List Line} {s s' : AssemblyWriter.Scan} (h : lines.foldlM w.step s = .ok s') :
    viewOf s' = lines.foldl View.step (viewOf s) ∧ s.parsedLines <+: s'.parsedLines := by
  induction lines generalizing s with
  | nil =>
      obtain rfl := Except.ok.inj h
      exact ⟨rfl, List.prefix_rfl⟩
  | cons line lines ih =>
      rw [List.foldlM_cons] at h
      obtain ⟨s₁, hline, h⟩ := Fallible.bind_ok h
      obtain ⟨hview₁, hprefix₁, -⟩ := step_view hline
      obtain ⟨hview, hprefix⟩ := ih h
      exact ⟨hview.trans (congrArg (lines.foldl View.step ·) hview₁), hprefix₁.trans hprefix⟩

theorem view_start : viewOf ⟨[], false, false, 0, 0, 0⟩ = {} := by
  have hcount : (viewOf ⟨[], false, false, 0, 0, 0⟩).count = fun _ => 0 := funext fun kind => by cases kind <;> rfl
  exact congrArg (View.mk false false) hcount

/-- The entry of a directive is its line with the code at the position of the directive. -/
theorem entryAt_iff {content : Text} {result before after : List Line} {line : Line} {kind : Kind}
    (hresult : w.findAndReplaceAssembly content = .ok result) (hlines : content.splitOn '\n' = before ++ line :: after)
    (hreaches : (view before).reaches line = true) (hkind : kindOf line = some kind) :
    ∃ code, w.triggerCode (codes w kind) ((view before).count kind) = .ok code ∧
      ∀ entry, EntryAt w result before entry ↔ entry = Writer.appendCode line code := by
  obtain ⟨last, hrun, hlast⟩ := Fallible.bind_ok hresult
  obtain rfl := Except.ok.inj hlast
  rw [hlines, List.foldlM_append] at hrun
  obtain ⟨s, hbefore, hrun⟩ := Fallible.bind_ok hrun
  rw [List.foldlM_cons] at hrun
  obtain ⟨s', hline, hafter⟩ := Fallible.bind_ok hrun
  have hview : viewOf s = view before := (foldlM_view hbefore).1.trans (congrArg (before.foldl View.step ·) view_start)
  obtain ⟨-, -, hentry⟩ := step_view hline
  rw [hview] at hentry
  obtain ⟨code, hcode, hparsed⟩ := hentry hreaches kind hkind
  obtain ⟨rest, hrest⟩ := (foldlM_view hafter).2
  have hget : last.parsedLines[s.parsedLines.length]? = some (Writer.appendCode line code) := by
    rw [← hrest, hparsed, List.append_assoc, List.getElem?_append_right (Nat.le_refl _), Nat.sub_self]
    rfl
  refine ⟨code, hcode, fun entry => ⟨?_, ?_⟩⟩
  · rintro ⟨s₀, hs₀, hentry₀⟩
    obtain rfl := Except.ok.inj (hbefore.symm.trans hs₀)
    exact Option.some.inj (hentry₀.symm.trans hget)
  · rintro rfl
    exact ⟨s, hbefore, hget⟩

end Run

/-! ### Reading the code -/

theorem notMem_of_isWord {text : Text} (h : IsWord text) {c : Char} (hc : isPlain c = false) : c ∉ text := fun hmem =>
  Bool.false_ne_true (hc.symm.trans (h.mem hmem).1)

theorem newline_notMem_writeLines {load : Line} (hload : '\n' ∉ load) (csrId : ℕ) :
    ∀ line ∈ writeLines load csrId, '\n' ∉ line := by
  have hid : '\n' ∉ "li t0, ".toList ++ decimal csrId :=
    List.not_mem_append (by decide) (notMem_of_isWord (decimal_isWord csrId) (by decide))
  unfold writeLines
  simp only [List.forall_mem_cons, List.not_mem_nil, false_imp_iff, implies_true, and_true]
  exact ⟨hload, by decide, hid, by decide, by decide, by decide⟩

theorem newline_notMem_loadIndex (index : ℤ) : '\n' ∉ loadIndex index :=
  List.not_mem_append (by decide) (notMem_of_isWord (decimal_isWord index) (by decide))

theorem newline_notMem_loadTdata1 (value : ℕ) : '\n' ∉ loadTdata1 value :=
  List.not_mem_append (by decide) (notMem_of_isWord (toDigits_isWord (by decide) (by decide) value) (by decide))

theorem loadAddr_cases (randomAddr : Text → Bool) (addr : Text) :
    loadAddr randomAddr addr = "li t2, ".toList ++ addr ∨ loadAddr randomAddr addr = "la t2, ".toList ++ addr :=
  Or.imp (fun hconstant => if_pos hconstant) (fun hlabel => if_neg hlabel) (Classical.em _)

theorem newline_notMem_loadAddr {randomAddr : Text → Bool} {addr : Text} (h : '\n' ∉ addr) : '\n' ∉ loadAddr randomAddr addr := by
  rcases loadAddr_cases randomAddr addr with heq | heq
  · exact heq ▸ List.not_mem_append (by decide) h
  · exact heq ▸ List.not_mem_append (by decide) h

/-- The comment in front of the code. -/
theorem newline_notMem_comment {start rest : Line} (hstart : '\n' ∉ start) (index : ℤ) (hrest : '\n' ∉ rest) :
    '\n' ∉ start ++ decimal index ++ rest :=
  List.not_mem_append (List.not_mem_append hstart (notMem_of_isWord (decimal_isWord index) (by decide))) hrest

theorem newline_notMem_configLines {randomAddr : Text → Bool} {config : ParsedTriggerConfig} (h : '\n' ∉ config.addr)
    (value : ℕ) : ∀ line ∈ configLines randomAddr config value, '\n' ∉ line := by
  have hcomment : '\n' ∉ "# ;#trigger_config(index=".toList ++ decimal config.index ++ ", type=".toList ++
      config.triggerType.value.toList ++ [')'] := by
    have hrest : '\n' ∉ ", type=".toList ++ (config.triggerType.value.toList ++ [')']) := by
      cases config.triggerType <;> decide
    have hall := newline_notMem_comment (by decide : '\n' ∉ "# ;#trigger_config(index=".toList) config.index hrest
    rwa [← List.append_assoc, ← List.append_assoc] at hall
  unfold configLines
  intro line hline
  simp only [List.mem_append, List.mem_singleton] at hline
  rcases hline with (((rfl | hline) | hline) | hline) | hline
  · exact hcomment
  · exact newline_notMem_writeLines (newline_notMem_loadIndex _) _ line hline
  · exact newline_notMem_writeLines (by decide) _ line hline
  · split_ifs at hline
    · exact newline_notMem_writeLines (newline_notMem_loadAddr h) _ line hline
    · cases hline
  · exact newline_notMem_writeLines (newline_notMem_loadTdata1 value) _ line hline

theorem newline_notMem_disableLines (index : ℤ) (tselectId tdata1Id : ℕ) :
    ∀ line ∈ disableLines index tselectId tdata1Id, '\n' ∉ line := by
  unfold disableLines
  intro line hline
  simp only [List.mem_append, List.mem_singleton] at hline
  rcases hline with (rfl | hline) | hline
  · exact newline_notMem_comment (by decide) index (by decide)
  · exact newline_notMem_writeLines (newline_notMem_loadIndex _) _ line hline
  · exact newline_notMem_writeLines (by decide) _ line hline

theorem newline_notMem_enableLines (index : ℤ) (value tselectId tdata1Id : ℕ) :
    ∀ line ∈ enableLines index value tselectId tdata1Id, '\n' ∉ line := by
  unfold enableLines
  intro line hline
  simp only [List.mem_append, List.mem_singleton] at hline
  rcases hline with (rfl | hline) | hline
  · exact newline_notMem_comment (by decide) index (by decide)
  · exact newline_notMem_writeLines (newline_notMem_loadIndex _) _ line hline
  · exact newline_notMem_writeLines (newline_notMem_loadTdata1 value) _ line hline

theorem writeLines_inj {front front' : List Line} {load load' : Line} {csrId csrId' : ℕ}
    (h : front ++ writeLines load csrId = front' ++ writeLines load' csrId') : front = front' ∧ load = load' := by
  obtain ⟨hfront, hwrite⟩ := List.append_inj' h rfl
  exact ⟨hfront, (List.cons.inj hwrite).1⟩

theorem loadTdata1_inj {value value' : ℕ} (h : loadTdata1 value = loadTdata1 value') : value = value' :=
  toDigits_inj (by decide) (by decide) (List.append_cancel_left h)

theorem loadAddr_inj {randomAddr : Text → Bool} {addr addr' : Text} (h : loadAddr randomAddr addr = loadAddr randomAddr addr') :
    addr = addr' := by
  have hne : ∀ rest rest' : Text, "li t2, ".toList ++ rest ≠ "la t2, ".toList ++ rest' := fun rest rest' heq =>
    absurd (congrArg (·[1]?) heq) (by decide : some 'i' ≠ some 'a')
  rcases loadAddr_cases randomAddr addr with heq | heq <;> rcases loadAddr_cases randomAddr addr' with heq' | heq' <;>
    rw [heq, heq'] at h
  · exact List.append_cancel_left h
  · exact absurd h (hne _ _)
  · exact absurd h.symm (hne _ _)
  · exact List.append_cancel_left h

theorem triggerType_value_inj {type type' : TriggerType} (h : type.value = type'.value) : type = type' := by
  have hread := (triggerType_strToEnum type).symm.trans ((congrArg TriggerType.strToEnum h).trans (triggerType_strToEnum type'))
  exact Except.ok.inj hread

/-- The code shows the parameters that it is made of. -/
theorem configLines_inj {randomAddr : Text → Bool} {config config' : ParsedTriggerConfig} {value value' : ℕ}
    (h : configLines randomAddr config value = configLines randomAddr config' value') :
    config.index = config'.index ∧ config.triggerType = config'.triggerType ∧
      (config'.triggerType ≠ .icount → config.addr = config'.addr) ∧ value = value' := by
  unfold configLines at h
  obtain ⟨hfront, hvalue⟩ := writeLines_inj h
  have hcomment := (List.cons.inj (show _ :: _ = _ :: _ from hfront)).1
  simp only [List.append_assoc] at hcomment
  have hindex := Separated.append_stop_inj (notMem_of_isWord (decimal_isWord config.index) (by decide))
    (notMem_of_isWord (decimal_isWord config'.index) (by decide)) (List.append_cancel_left hcomment)
  have htype : config.triggerType = config'.triggerType :=
    triggerType_value_inj (String.toList_inj.mp (List.append_cancel_right
      (List.append_cancel_left (show " type=".toList ++ _ = " type=".toList ++ _ from hindex.2))))
  refine ⟨decimal_inj hindex.1, htype, fun hne => ?_, loadTdata1_inj hvalue⟩
  rw [htype, if_pos hne, if_pos hne] at hfront
  exact loadAddr_inj (writeLines_inj hfront).2

/-- The code of two configurations that agree, with the same ids. -/
theorem configLines_congr {randomAddr : Text → Bool} {own config : ParsedTriggerConfig} (h : Agree own config) (value : ℕ) :
    configLines randomAddr { own with csrIds := config.csrIds } value = configLines randomAddr config value := by
  have haddr : (if config.triggerType ≠ .icount then writeLines (loadAddr randomAddr own.addr) config.csrIds.2.2 else []) =
      if config.triggerType ≠ .icount then writeLines (loadAddr randomAddr config.addr) config.csrIds.2.2 else [] := by
    split_ifs with hne
    · rw [h.addr hne]
    · rfl
  unfold configLines
  dsimp only
  rw [h.index, h.triggerType, haddr]

theorem comment_inj {start : Line} {index index' : ℤ} {rest rest' : List Line}
    (h : (start ++ decimal index ++ [')']) :: rest = (start ++ decimal index' ++ [')']) :: rest') : index = index' := by
  have hcomment := (List.cons.inj h).1
  rw [List.append_assoc, List.append_assoc] at hcomment
  exact decimal_inj (List.append_cancel_right (List.append_cancel_left hcomment))

theorem disableLines_inj {index index' : ℤ} {tselectId tselectId' tdata1Id tdata1Id' : ℕ}
    (h : disableLines index tselectId tdata1Id = disableLines index' tselectId' tdata1Id') : index = index' := comment_inj h

theorem enableLines_inj {index index' : ℤ} {value value' tselectId tselectId' tdata1Id tdata1Id' : ℕ}
    (h : enableLines index value tselectId tdata1Id = enableLines index' value' tselectId' tdata1Id') :
    index = index' ∧ value = value' := ⟨comment_inj h, loadTdata1_inj (writeLines_inj h).2⟩

/-- Two lines with the same entry have the same code. -/
theorem withCode_unlines_inj {line : Line} {lines lines' : List Line} (hlines : ∀ l ∈ lines, '\n' ∉ l)
    (hlines' : ∀ l ∈ lines', '\n' ∉ l) (h : withCode line (unlines lines) = withCode line (unlines lines')) : lines = lines' :=
  Separated.terminated_inj hlines hlines' (List.cons.inj (List.append_cancel_left h)).2

theorem withCode_ne (line code : Line) : withCode line code ≠ line := fun h =>
  List.cons_ne_nil '\n' code (List.append_right_eq_self.mp h)

/-! ### When every directive has its own parameters -/

theorem params_fields {config config' : ParsedTriggerConfig} (h : params config = params config') :
    config.index = config'.index ∧ config.triggerType = config'.triggerType ∧ config.addr = config'.addr ∧
      tdata1 config = tdata1 config' := by
  have hread : ∀ {β : Type} (field : ParsedTriggerConfig → β), field (params config) = field (params config') := fun field =>
    congrArg field h
  exact ⟨hread (·.index), hread (·.triggerType), hread (·.addr), hread tdata1⟩

theorem Agree.of_params {own config config' : ParsedTriggerConfig} (h : Agree own config)
    (hparams : params config = params config') :
    Agree own config' := by
  obtain ⟨hindex, htype, haddr, htdata1⟩ := params_fields hparams
  exact ⟨h.index.trans hindex, h.triggerType.trans htype, fun hne => (h.addr (htype ▸ hne)).trans haddr, h.tdata1.trans htdata1⟩

theorem lastConfig_params {configs configs' : List ParsedTriggerConfig} (h : configs.map params = configs'.map params)
    (index : ℤ) :
    (lastConfig index configs).map params = (lastConfig index configs').map params := by
  have hfind : ∀ configs : List ParsedTriggerConfig,
      (lastConfig index configs).map params = (configs.map params).reverse.find? (·.index = index) := by
    intro configs
    rw [← List.map_reverse, List.find?_map]
    rfl
  rw [hfind, hfind, h]

/-- Lists with the same images have related entries. -/
theorem getElem?_of_map_eq {α β γ : Type} {f : α → γ} {g : β → γ} {xs : List α} {ys : List β} (h : xs.map f = ys.map g) (n : ℕ) :
    (xs[n]?).map f = (ys[n]?).map g := by rw [← List.getElem?_map, ← List.getElem?_map, h]

section Positions
variable {f : Framework ε} {file : Text} {out : Output}

/-- What the directives of a run are made of. -/
theorem run_facts (h : f.run file = .ok out) :
    Takes out.pool (outsideBodies false (readlines file)) ∧ Registered out.pool.config ∧
      (f.writer out.pool).findAndReplaceAssembly out.content = .ok out.result := by
  obtain ⟨parsed, hparse, h⟩ := Fallible.bind_ok h
  obtain ⟨content, -, h⟩ := Fallible.bind_ok h
  obtain ⟨result, hresult, h⟩ := Fallible.bind_ok h
  obtain rfl := Except.ok.inj h
  have htakes := takes_parse hparse
  obtain ⟨hconfigs, hregistered⟩ := generated_pool (f.generated parsed) parsed (registered_parse hparse)
  exact ⟨⟨(congrArg _ hconfigs).trans htakes.config, htakes.disable, htakes.enable⟩, hregistered, hresult⟩

variable {before : List Line} {line : Line} {code : Option Line}

theorem config_iff (htakes : Takes out.pool (outsideBodies false (readlines file)))
    (hcode : ((out.pool.config.triggerConfigs.map (configCode (f.randomAddr out.pool)))[(view before).count .config]?).getD
      (.ok none) = (.ok code : Except (Fault ε) _)) :
    (Writer.appendCode line code = line ∨ ExpandsOwn (f.randomAddr out.pool) before line (Writer.appendCode line code) .config) ↔
      AlignedAt out.pool.config file before line .config := by
  have hparams : ((out.pool.config.triggerConfigs)[(view before).count .config]?).map params =
      ((takenConfigs file)[(view before).count .config]?).map params := getElem?_of_map_eq htakes.config _
  rw [List.getElem?_map] at hcode
  cases hget : (out.pool.config.triggerConfigs)[(view before).count .config]? with
  | none =>
      rw [hget] at hcode hparams
      obtain rfl := Except.ok.inj hcode
      refine iff_of_true (.inl rfl) fun config hconfig => ?_
      rw [hconfig] at hparams
      cases hparams
  | some config =>
      rw [hget] at hcode hparams
      cases htaken : (takenConfigs file)[(view before).count .config]? with
      | none =>
          rw [htaken] at hparams
          cases hparams
      | some taken =>
          rw [htaken] at hparams
          replace hparams := Option.some.inj hparams
          obtain ⟨value, hvalue, hcode⟩ := Fallible.bind_ok (show configCode (f.randomAddr out.pool) config = .ok code from hcode)
          replace hvalue := Fallible.mapError_ok hvalue
          obtain rfl := Except.ok.inj hcode
          -- the address is on one line
          have haddr : '\n' ∉ config.addr := by
            obtain ⟨source, -, hsource⟩ := List.mem_filterMap.mp (List.mem_of_getElem? htaken)
            rw [(params_fields hparams).2.2.1]
            exact ownConfig_addr hsource
          constructor
          · intro hexpands config' hconfig'
            obtain rfl := Option.some.inj (htaken.symm.trans hconfig')
            rcases hexpands with hself | ⟨own, ownValue, csrIds, hown, htdata1, hentry⟩
            · exact absurd hself (withCode_ne _ _)
            · have hownAddr : '\n' ∉ own.addr := ownConfig_addr hown
              have hlines := withCode_unlines_inj (newline_notMem_configLines haddr value)
                (@newline_notMem_configLines _ { own with csrIds } hownAddr ownValue) hentry
              obtain ⟨hindex, htype, haddr', rfl⟩ := configLines_inj hlines
              have hagree : Agree own config := ⟨hindex.symm, htype.symm, fun hne => (haddr' (htype ▸ hne)).symm,
                htdata1.trans hvalue.symm⟩
              exact ⟨own, hown, hagree.of_params hparams⟩
          · intro haligned
            obtain ⟨own, hown, hagree⟩ := haligned taken htaken
            replace hagree := hagree.of_params hparams.symm
            exact .inr ⟨own, value, config.csrIds, hown, hagree.tdata1.trans hvalue,
              congrArg (fun lines => withCode line (unlines lines)) (configLines_congr hagree value).symm⟩

theorem disable_iff (htakes : Takes out.pool (outsideBodies false (readlines file)))
    (hcode : ((out.pool.triggerDisable.map fun disable => disableCode out.pool.config disable.index)[(view before).count
      .disable]?).getD (.ok none) = (.ok code : Except (Fault ε) _)) :
    (Writer.appendCode line code = line ∨ ExpandsOwn (f.randomAddr out.pool) before line (Writer.appendCode line code) .disable) ↔
      AlignedAt out.pool.config file before line .disable := by
  have hindices : (out.pool.triggerDisable[(view before).count .disable]?).map (·.index) =
      (takenIndices .disable file)[(view before).count .disable]? := by
    rw [takenIndices, ← htakes.disable, List.getElem?_map]
  rw [List.getElem?_map] at hcode
  cases hget : out.pool.triggerDisable[(view before).count .disable]? with
  | none =>
      rw [hget] at hcode hindices
      obtain rfl := Except.ok.inj hcode
      exact iff_of_true (.inl rfl) fun index hindex => nomatch hindices.trans hindex
  | some disable =>
      rw [hget] at hcode hindices
      replace hcode : disableCode out.pool.config disable.index = .ok code := hcode
      unfold disableCode at hcode
      cases hids : accessIds out.pool.config with
      | none =>
          rw [hids] at hcode
          obtain rfl := Except.ok.inj hcode
          refine iff_of_true (.inl rfl) fun index _ hsome => ?_
          rw [hids] at hsome
          cases hsome
      | some ids =>
          rw [hids] at hcode
          obtain rfl := Except.ok.inj hcode
          constructor
          · intro hexpands index hindex _
            obtain rfl := Option.some.inj (hindices.trans hindex)
            rcases hexpands with hself | ⟨own, tselectId, tdata1Id, hown, hentry⟩
            · exact absurd hself (withCode_ne _ _)
            · have hlines := withCode_unlines_inj (newline_notMem_disableLines _ _ _) (newline_notMem_disableLines _ _ _) hentry
              rw [hown]
              exact congrArg some (disableLines_inj hlines).symm
          · intro haligned
            have hown := haligned disable.index hindices.symm (by rw [hids]; rfl)
            exact .inr ⟨disable.index, ids.1, ids.2, hown, rfl⟩

theorem enable_iff (htakes : Takes out.pool (outsideBodies false (readlines file))) (hregistered : Registered out.pool.config)
    (hcode : ((out.pool.triggerEnable.map fun enable => enableCode out.pool.config enable.index)[(view before).count
      .enable]?).getD (.ok none) = (.ok code : Except (Fault ε) _)) :
    (Writer.appendCode line code = line ∨ ExpandsOwn (f.randomAddr out.pool) before line (Writer.appendCode line code) .enable) ↔
      AlignedAt out.pool.config file before line .enable := by
  have hindices : (out.pool.triggerEnable[(view before).count .enable]?).map (·.index) =
      (takenIndices .enable file)[(view before).count .enable]? := by
    rw [takenIndices, ← htakes.enable, List.getElem?_map]
  rw [List.getElem?_map] at hcode
  cases hget : out.pool.triggerEnable[(view before).count .enable]? with
  | none =>
      rw [hget] at hcode hindices
      obtain rfl := Except.ok.inj hcode
      exact iff_of_true (.inl rfl) fun index config hindex => nomatch hindices.trans hindex
  | some enable =>
      rw [hget] at hcode hindices
      replace hcode : enableCode out.pool.config enable.index = .ok code := hcode
      unfold enableCode at hcode
      have hlast : (lastConfig enable.index out.pool.config.triggerConfigs).map params =
          (lastConfig enable.index (takenConfigs file)).map params := lastConfig_params htakes.config _
      cases hconfig : lastConfig enable.index out.pool.config.triggerConfigs with
      | none =>
          rw [hconfig] at hcode hlast
          obtain rfl := Except.ok.inj hcode
          refine iff_of_true (.inl rfl) fun index config hindex htaken => ?_
          obtain rfl := Option.some.inj (hindices.trans hindex)
          rw [htaken] at hlast
          cases hlast
      | some config =>
          have hne : out.pool.config.triggerConfigs ≠ [] := by
            intro hnil
            rw [hnil] at hconfig
            cases hconfig
          obtain ⟨ids, hids⟩ := Option.isSome_iff_exists.mp (accessIds_isSome hregistered hne)
          rw [hconfig, hids] at hcode
          obtain ⟨value, hvalue, hcode⟩ := Fallible.bind_ok hcode
          replace hvalue := Fallible.mapError_ok hvalue
          obtain rfl := Except.ok.inj hcode
          rw [hconfig] at hlast
          constructor
          · intro hexpands index later hindex hlater
            obtain rfl := Option.some.inj (hindices.trans hindex)
            rw [hlater] at hlast
            have htdata1 := (params_fields (Option.some.inj hlast)).2.2.2
            rcases hexpands with hself | ⟨own, earlier, ownValue, tselectId, tdata1Id, hown, hearlier, hownValue, hentry⟩
            · exact absurd hself (withCode_ne _ _)
            · have hlines := withCode_unlines_inj (newline_notMem_enableLines _ _ _ _) (newline_notMem_enableLines _ _ _ _) hentry
              obtain ⟨rfl, rfl⟩ := enableLines_inj hlines
              exact ⟨hown, earlier, hearlier, hownValue.trans (hvalue.symm.trans htdata1)⟩
          · intro haligned
            cases htaken : lastConfig enable.index (takenConfigs file) with
            | none =>
                rw [htaken] at hlast
                cases hlast
            | some later =>
                rw [htaken] at hlast
                have htdata1 := (params_fields (Option.some.inj hlast)).2.2.2
                obtain ⟨hown, earlier, hearlier, hsame⟩ := haligned enable.index later hindices.symm htaken
                exact .inr ⟨enable.index, earlier, value, ids.1, ids.2, hown, hearlier,
                  hsame.trans (htdata1.symm.trans hvalue), rfl⟩

/-- One line that the writer reaches. -/
theorem entry_iff (h : f.run file = .ok out) {before after : List Line} {line : Line} {kind : Kind}
    (hlines : out.content.splitOn '\n' = before ++ line :: after) (hreaches : (view before).reaches line = true)
    (hkind : kindOf line = some kind) :
    (∀ entry, EntryAt (f.writer out.pool) out.result before entry →
        entry = line ∨ ExpandsOwn (f.randomAddr out.pool) before line entry kind) ↔
      ((f.base out.pool).sdtrigSupported = true → AlignedAt out.pool.config file before line kind) := by
  obtain ⟨htakes, hregistered, hresult⟩ := run_facts h
  have hsupported : (f.writer out.pool).sdtrigSupported = (f.base out.pool).sdtrigSupported := rfl
  obtain ⟨code, hcode, hentry⟩ := entryAt_iff hresult hlines hreaches hkind
  simp only [hentry, forall_eq]
  unfold Writer.triggerCode at hcode
  rw [hsupported] at hcode
  split_ifs at hcode with hsdtrig
  · refine Iff.trans ?_ (imp_iff_right hsdtrig).symm
    cases kind with
    | config => exact config_iff htakes hcode
    | disable => exact disable_iff htakes hcode
    | enable => exact enable_iff htakes hregistered hcode
  · obtain rfl := Except.ok.inj hcode
    exact iff_of_true (.inl rfl) fun hsdtrig' => absurd hsdtrig' hsdtrig

/-- In every run the trigger directives that reach the writer have their own parameters exactly when the positions of the lines
that are taken and that are reached agree, unless the triggers are not supported at all. -/
theorem ownParameters_iff (h : f.run file = .ok out) :
    OwnParameters (f.writer out.pool) (f.randomAddr out.pool) out.content out.result ↔
      ((f.base out.pool).sdtrigSupported = true → Aligned out.pool.config file out.content) := by
  constructor
  · intro hown hsdtrig before line after kind hlines hreaches hkind
    exact (entry_iff h hlines hreaches hkind).mp (fun entry => hown before line after kind entry hlines hreaches hkind) hsdtrig
  · intro haligned before line after kind entry hlines hreaches hkind
    exact (entry_iff h hlines hreaches hkind).mpr
      (fun hsdtrig => haligned hsdtrig before line after kind hlines hreaches hkind) entry

end Positions

/-- A framework with triggers that generates nothing. -/
def plainFramework : Framework Empty where
  others := fun _ _ => .ok none
  generated := fun _ => ⟨[], [], []⟩
  base := fun _ =>
    { singleAssemblyFile := false
      wysiwyg := false
      hooks := 0
      sdtrigSupported := true
      initMemory := fun _ => .ok []
      triggerConfigs := []
      triggerDisables := []
      triggerEnables := []
      csrRw := fun _ => .ok .noMatch
      readPte := fun _ => .ok none
      writePte := fun _ => .ok none
      testPassed := []
      testFailed := [] }
  randomAddr := fun _ _ => false

def codeSection : Line := ".section .code, \"ax\"".toList

/-- A trigger that is configured and enabled. -/
def enabledTrigger : Text :=
  codeSection ++ "\n;#trigger_config(index=0, addr=there)\n;#trigger_disable(index=0)\n;#trigger_enable(index=0)\n".toList

theorem ownParameters_iff_enabledTrigger : ∃ out, plainFramework.run enabledTrigger = .ok out ∧
    (OwnParameters (plainFramework.writer out.pool) (plainFramework.randomAddr out.pool) out.content out.result ↔
      ((plainFramework.base out.pool).sdtrigSupported = true → Aligned out.pool.config enabledTrigger out.content)) := by
  obtain ⟨out, hrun⟩ := Fallible.exists_ok (by decide +kernel : (plainFramework.run enabledTrigger).toOption.isSome)
  exact ⟨out, hrun, ownParameters_iff hrun⟩

def withoutAddr : Line := ";#trigger_config(index=0, type=load)".toList

/-- A configuration without the address that it requires, in front of another one. -/
def skippedConfig : Text :=
  codeSection ++ '\n' :: withoutAddr ++ "\n;#trigger_config(index=1, type=store, addr=there)\n".toList

/-- The line that the parser skips is expanded with the parameters of the next one. -/
theorem not_ownParameters_skippedConfig : ∃ out, plainFramework.run skippedConfig = .ok out ∧
    ¬ OwnParameters (plainFramework.writer out.pool) (plainFramework.randomAddr out.pool) out.content out.result := by
  obtain ⟨out, hrun⟩ := Fallible.exists_ok (by decide +kernel : (plainFramework.run skippedConfig).toOption.isSome)
  have hcontent : out.content = skippedConfig := by
    have hmap : (plainFramework.run skippedConfig).toOption.map (·.content) = some skippedConfig := by decide +kernel
    rw [hrun] at hmap
    exact Option.some.inj hmap
  have hlines : out.content.splitOn '\n' =
      [codeSection] ++ withoutAddr :: [";#trigger_config(index=1, type=store, addr=there)".toList, []] := by
    rw [hcontent]
    decide +kernel
  refine ⟨out, hrun, fun hown => ?_⟩
  have hreaches : (view [codeSection]).reaches withoutAddr = true := by decide +kernel
  have hkind : kindOf withoutAddr = some .config := by decide +kernel
  have haligned := (entry_iff hrun hlines hreaches hkind).mp
    (fun entry => hown _ _ _ _ entry hlines hreaches hkind) rfl
  have htaken : ((takenConfigs skippedConfig)[(view [codeSection]).count .config]?).isSome := by decide +kernel
  obtain ⟨config, hconfig⟩ := Option.isSome_iff_exists.mp htaken
  obtain ⟨own, hsome, -⟩ := haligned config hconfig
  have hnone : ownConfig withoutAddr = none := by decide +kernel
  exact nomatch hnone.symm.trans hsome

end Riescue.TriggerDirectives
