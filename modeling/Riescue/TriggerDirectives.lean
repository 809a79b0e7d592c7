import Riescue.TriggerConfig

/-! The trigger directives of a test, from the file to the assembly: `Parser.parse` collects them in the order of the file, and
`AssemblyWriter.find_and_replace_assembly` expands the lines that it reaches, which counters, one for each kind, match to what was
parsed. -/

namespace Riescue.TriggerDirectives
open AssemblyWriter (Line Writer isSpace startsWith contains strip withCode)
open AssemblyWriter.Writer (opensPmaHint closesPmaHint)
open DirectiveArgs Sdtrig TriggerConfig

inductive Kind where
  | config | disable | enable
  deriving DecidableEq, Repr

def Kind.start : Kind → String
  | .config => ";#trigger_config("
  | .disable => ";#trigger_disable("
  | .enable => ";#trigger_enable("

/-- The kind of a line that is a trigger directive. -/
def kindOf (line : Line) : Option Kind :=
  if startsWith ";#trigger_config(" (strip line) then some .config
  else if startsWith ";#trigger_disable(" (strip line) then some .disable
  else if startsWith ";#trigger_enable(" (strip line) then some .enable else none

/-! ### Parser -/

/-- `ParsedTriggerDisable` and `ParsedTriggerEnable` -/
structure ParsedTriggerIndex where
  index : ℤ
  triggerId : ℕ
  deriving DecidableEq, Repr

structure Pool where
  config : TriggerConfig.Parser := {}
  triggerDisable : List ParsedTriggerIndex := []
  triggerEnable : List ParsedTriggerIndex := []
  discreteDebugTest : Option (List Line) := none

/-- `self._collecting_discrete_debug_test` and `self._discrete_debug_test_body` are behind the pool. -/
structure ParserState where
  pool : Pool := {}
  collecting : Bool := false
  body : List Line := []

inductive Fault (ε : Type) where
  | parse (fault : ParseFault)
  | trigger (fault : TriggerFault)
  | discreteDebugTest (message : String)
  | noCodeSection
  | other (fault : ε)
  deriving DecidableEq, Repr

variable {ε : Type}

/-- The access that a `;#csr_rw` line registers under a CSR and a pool key, by the next id; the other directives register none
and can fail. -/
abbrev Others (ε : Type) := Line → ℕ → Except ε (Option ((String × String) × ParsedCsrAccess))

/-- `add_parsed_csr_access` -/
def addParsedCsrAccess (p : TriggerConfig.Parser) (access : (String × String) × ParsedCsrAccess) : TriggerConfig.Parser :=
  match OrderedDict.get? p.csrAccesses access.1 with
  | some _ => p
  | none => { p with csrAccesses := OrderedDict.insert p.csrAccesses access.1 access.2 }

/-- The directives that are no trigger directives. -/
def parseOther (others : Others ε) (line : Line) (p : TriggerConfig.Parser) : Except (Fault ε) TriggerConfig.Parser :=
  match others line p.csrId with
  | .error fault => .error (.other fault)
  | .ok none => .ok p
  | .ok (some access) => .ok { addParsedCsrAccess p access with csrId := p.csrId + 1 }

/-- The index of a `;#trigger_disable` or `;#trigger_enable` line; a line that the pattern does not match has none. -/
def parseIndex (kind : Kind) (line : Line) : Except ParseFault (Option ℤ) :=
  match content kind.start (strip line) with
  | none => .ok none
  | some args => some <$> intArg (parseDirectiveArgs args) "index" 0

/-- `parse_trigger_disable` -/
def parseTriggerDisable (line : Line) (pool : Pool) : Except ParseFault Pool := do
  match ← parseIndex .disable line with
  | none => pure pool
  | some index => pure { pool with
      triggerDisable := pool.triggerDisable ++ [⟨index, pool.config.triggerId⟩]
      config := { pool.config with triggerId := pool.config.triggerId + 1 } }

/-- `parse_trigger_enable` -/
def parseTriggerEnable (line : Line) (pool : Pool) : Except ParseFault Pool := do
  match ← parseIndex .enable line with
  | none => pure pool
  | some index => pure { pool with
      triggerEnable := pool.triggerEnable ++ [⟨index, pool.config.triggerId⟩]
      config := { pool.config with triggerId := pool.config.triggerId + 1 } }

/-- The trigger directives of `parse`. -/
def parseTrigger (line : Line) (pool : Pool) : Except ParseFault Pool :=
  match kindOf line with
  | none => .ok pool
  | some .config => (parseTriggerConfig line pool.config).map fun config => { pool with config }
  | some .disable => parseTriggerDisable line pool
  | some .enable => parseTriggerEnable line pool

def multipleDebugTests : String := "multiple ;#discrete_debug_test() not allowed; only one per test file"

/-- `set_parsed_discrete_debug_test` -/
def setParsedDiscreteDebugTest (s : ParserState) : Except (Fault ε) ParserState :=
  match s.pool.discreteDebugTest with
  | some _ => .error (.discreteDebugTest multipleDebugTests)
  | none => .ok { pool := { s.pool with discreteDebugTest := some s.body } }

/-- `;#discrete_debug_test` with an empty pair of brackets or without. -/
def takesNoParameters (stripped : Line) : Bool :=
  let rest := stripped.drop ";#discrete_debug_test".length
  match rest.dropWhile isSpace with
  | '(' :: inner =>
      match inner.dropWhile isSpace with
      | ')' :: after => after.all isSpace
      | _ => false
  | _ => rest.isEmpty

/-- `_parse_discrete_debug_test_start` -/
def parseDiscreteDebugTestStart (line : Line) (s : ParserState) : Except (Fault ε) ParserState :=
  if s.collecting ∨ s.pool.discreteDebugTest.isSome then .error (.discreteDebugTest multipleDebugTests)
  else if !takesNoParameters (strip line) then
    .error (.discreteDebugTest
      ";#discrete_debug_test() does not take parameters; use ;#discrete_debug_test or ;#discrete_debug_test()")
  else .ok { s with collecting := true, body := [] }

/-- The line ends the body of a `;#discrete_debug_test`. -/
def endsBody (line : Line) : Bool := startsWith ";#" line || startsWith ".section" (strip line)

/-- A line outside a body. -/
def parseDirective (others : Others ε) (s : ParserState) (line : Line) : Except (Fault ε) ParserState :=
  if startsWith ";#discrete_debug_test" line then parseDiscreteDebugTestStart line s
  else do
    let config ← parseOther others line s.pool.config
    let pool ← (parseTrigger line { s.pool with config }).mapError .parse
    pure { s with pool }

/-- The loop of `parse`. -/
def parseLine (others : Others ε) (s : ParserState) (line : Line) : Except (Fault ε) ParserState :=
  if s.collecting then
    if endsBody line then do
      let s ← setParsedDiscreteDebugTest s
      parseDirective others s line
    else .ok { s with body := s.body ++ [line] }
  else parseDirective others s line

/-- `readlines`, without the ends of the lines. -/
def readlines (file : Text) : List Line :=
  let lines := file.splitOn '\n'
  if lines.getLast? = some [] then lines.dropLast else lines

/-- `Parser.parse` -/
def parse (others : Others ε) (file : Text) : Except (Fault ε) Pool := do
  let s ← (readlines file).foldlM (parseLine others) {}
  if s.collecting then do
    let s ← setParsedDiscreteDebugTest s
    pure s.pool
  else pure s.pool

/-! ### Code -/

/-- Lines with their ends. -/
def unlines (lines : List Line) : Text := lines.flatMap (· ++ ['\n'])

/-- A forced machine write of a CSR through the jump table, behind the line that loads `t2`. -/
def writeLines (load : Line) (csrId : ℕ) : List Line :=
  [load, "li x31, machine_csr_jump_table_flags".toList, "li t0, ".toList ++ decimal csrId, "sd t0, 0(x31)".toList,
    "li x31, 0xf0001005".toList, "ecall".toList]

def loadIndex (index : ℤ) : Line := "li t2, ".toList ++ decimal index

def loadTdata1 (value : ℕ) : Line := "li t2, 0x".toList ++ Nat.toDigits 16 value

/-- The line that loads `tdata2`: a number or the name of a random address is a constant, anything else a label. -/
def loadAddr (randomAddr : Text → Bool) (addr : Text) : Line :=
  let base := if '+' ∈ addr then strip (addr.takeWhile (· ≠ '+')) else addr
  if startsWith "0x" addr || (!addr.isEmpty && addr.all Char.isDigit) || randomAddr addr || randomAddr base then
    "li t2, ".toList ++ addr
  else "la t2, ".toList ++ addr

/-- The code of a configuration with its value of `tdata1`. -/
def configLines (randomAddr : Text → Bool) (config : ParsedTriggerConfig) (value : ℕ) : List Line :=
  let (tselectId, tdata1Id, tdata2Id) := config.csrIds
  ["# ;#trigger_config(index=".toList ++ decimal config.index ++ ", type=".toList ++ config.triggerType.value.toList ++ [')']] ++
    writeLines (loadIndex config.index) tselectId ++ writeLines "li t2, 0".toList tdata1Id ++
    (if config.triggerType ≠ .icount then writeLines (loadAddr randomAddr config.addr) tdata2Id else []) ++
    writeLines (loadTdata1 value) tdata1Id

/-- The code that a `;#trigger_disable` line is replaced by. -/
def disableLines (index : ℤ) (tselectId tdata1Id : ℕ) : List Line :=
  ["# ;#trigger_disable(index=".toList ++ decimal index ++ [')']] ++ writeLines (loadIndex index) tselectId ++
    writeLines "li t2, 0".toList tdata1Id

/-- The code that a `;#trigger_enable` line is replaced by. -/
def enableLines (index : ℤ) (value tselectId tdata1Id : ℕ) : List Line :=
  ["# ;#trigger_enable(index=".toList ++ decimal index ++ [')']] ++ writeLines (loadIndex index) tselectId ++
    writeLines (loadTdata1 value) tdata1Id

/-- The ids of the forced machine writes of `tselect` and `tdata1`. -/
def accessIds (p : TriggerConfig.Parser) : Option (ℕ × ℕ) :=
  match OrderedDict.get? p.csrAccesses ("tselect", "write_force_machine"),
    OrderedDict.get? p.csrAccesses ("tdata1", "write_force_machine") with
  | some tselect, some tdata1 => some (tselect.csrId, tdata1.csrId)
  | _, _ => none

/-- `next((c for c in reversed(configs) if c.index == index), None)` -/
def lastConfig (index : ℤ) (configs : List ParsedTriggerConfig) : Option ParsedTriggerConfig :=
  configs.reverse.find? (·.index = index)

/-- The value of `tdata1`, or the exception of the functions that build it. -/
def tdata1Value (config : ParsedTriggerConfig) : Except (Fault ε) ℕ := (tdata1 config).mapError .trigger

def configCode (randomAddr : Text → Bool) (config : ParsedTriggerConfig) : Except (Fault ε) (Option Line) := do
  let value ← tdata1Value config
  pure (some (unlines (configLines randomAddr config value)))

def disableCode (p : TriggerConfig.Parser) (index : ℤ) : Except (Fault ε) (Option Line) :=
  match accessIds p with
  | none => .ok none
  | some (tselectId, tdata1Id) => .ok (some (unlines (disableLines index tselectId tdata1Id)))

def enableCode (p : TriggerConfig.Parser) (index : ℤ) : Except (Fault ε) (Option Line) :=
  match lastConfig index p.triggerConfigs, accessIds p with
  | some config, some (tselectId, tdata1Id) => do
      let value ← tdata1Value config
      pure (some (unlines (enableLines index value tselectId tdata1Id)))
  | _, _ => .ok none

/-! ### Writer -/

/-- What is generated between the header and the test and behind them, and the accesses that this registers. -/
structure Generated where
  runtime : Text
  data : Text
  csrAccesses : List ((String × String) × ParsedCsrAccess)

/-- The pool when the lines are replaced. -/
def Generated.pool (generated : Generated) (pool : Pool) : Pool :=
  { pool with config := generated.csrAccesses.foldl addParsedCsrAccess pool.config }

/-- The line of the first code section, in `split_rasm_sections`. -/
def codeSectionIdx (lines : List Line) : Option ℕ := do
  let code ← lines.findIdx? fun line => contains ".section .code" line && !contains "_" line
  let super := (lines.findIdx? (contains ".section .code_super_0")).getD code
  let machine := (lines.findIdx? (contains ".section .code_machine_0")).getD code
  pure (min code (min super machine))

/-- The text in which the directives are replaced: what is generated stands between the header and the test. -/
def assemblyContent (generated : Generated) (file : Text) : Except (Fault ε) Text :=
  match codeSectionIdx (readlines file) with
  | none => .error .noCodeSection
  | some idx =>
      let header := unlines ((readlines file).take idx)
      .ok (header ++ generated.runtime ++ file.drop header.length ++ generated.data)

/-- What the rest of the framework contributes: the other directives, what is generated, the writer without the trigger
directives, and the names of random addresses. -/
structure Framework (ε : Type) where
  others : Others ε
  generated : Pool → Generated
  base : Pool → Writer (Fault ε)
  randomAddr : Pool → Text → Bool

structure Output where
  pool : Pool
  content : Text
  result : List Line

/-- The writer with the code of the trigger directives of the pool. -/
def Framework.writer (f : Framework ε) (pool : Pool) : Writer (Fault ε) :=
  { f.base pool with
    triggerConfigs := pool.config.triggerConfigs.map (configCode (f.randomAddr pool))
    triggerDisables := pool.triggerDisable.map fun disable => disableCode pool.config disable.index
    triggerEnables := pool.triggerEnable.map fun enable => enableCode pool.config enable.index }

/-- The way of a test from its file to the lines of the assembly. -/
def Framework.run (f : Framework ε) (file : Text) : Except (Fault ε) Output := do
  let parsed ← parse f.others file
  let pool := (f.generated parsed).pool parsed
  let content ← assemblyContent (f.generated parsed) file
  let result ← (f.writer pool).findAndReplaceAssembly content
  pure { pool, content, result }

/-! ### Own parameters -/

/-- The configuration that the line stands for by itself: what the parser takes from it when it has seen no other line. -/
def ownConfig (line : Line) : Option ParsedTriggerConfig :=
  match kindOf line, parseTriggerConfig line {} with
  | some .config, .ok p => p.triggerConfigs.head?
  | _, _ => none

/-- The index on a line of the kind. -/
def ownIndex (kind : Kind) (line : Line) : Option ℤ :=
  match parseIndex kind line with
  | .ok index => if kindOf line = some kind then index else none
  | .error _ => none

/-- What the loop of the writer keeps besides the result. -/
structure View where
  inPmaHint : Bool := false
  sectionCodeFound : Bool := false
  count : Kind → ℕ := fun _ => 0

/-- The line is outside the hints and not the one that opens the code section. -/
def View.reaches (v : View) (line : Line) : Bool :=
  !opensPmaHint line && !v.inPmaHint && !(contains ".section .code," line && !v.sectionCodeFound)

def View.step (v : View) (line : Line) : View :=
  if opensPmaHint line then { v with inPmaHint := true }
  else if v.inPmaHint then { v with inPmaHint := !closesPmaHint line }
  else if contains ".section .code," line && !v.sectionCodeFound then { v with sectionCodeFound := true }
  else
    match kindOf line with
    | none => v
    | some kind => { v with count := Function.update v.count kind (v.count kind + 1) }

def view (before : List Line) : View := before.foldl View.step {}

/-- The entry of the result for the line behind these lines. -/
def EntryAt (w : Writer (Fault ε)) (result before : List Line) (entry : Line) : Prop :=
  ∃ s, before.foldlM w.step ⟨[], false, false, 0, 0, 0⟩ = .ok s ∧ result[s.parsedLines.length]? = some entry

/-- The line with the code of the parameters that are written on it; to enable a trigger is to write the `tdata1` of the last
configuration of the index before the line. -/
def ExpandsOwn (randomAddr : Text → Bool) (before : List Line) (line entry : Line) : Kind → Prop
  | .config => ∃ own value csrIds, ownConfig line = some own ∧ tdata1 own = .ok value ∧
      entry = withCode line (unlines (configLines randomAddr { own with csrIds } value))
  | .disable => ∃ index tselectId tdata1Id, ownIndex .disable line = some index ∧
      entry = withCode line (unlines (disableLines index tselectId tdata1Id))
  | .enable => ∃ index own value tselectId tdata1Id, ownIndex .enable line = some index ∧
      lastConfig index (before.filterMap ownConfig) = some own ∧ tdata1 own = .ok value ∧
      entry = withCode line (unlines (enableLines index value tselectId tdata1Id))

/-- Each trigger directive that reaches the writer is left as it is or expanded with its own parameters. -/
def OwnParameters (w : Writer (Fault ε)) (randomAddr : Text → Bool) (content : Text) (result : List Line) : Prop :=
  ∀ before line after kind entry, content.splitOn '\n' = before ++ line :: after → (view before).reaches line = true →
    kindOf line = some kind → EntryAt w result before entry → entry = line ∨ ExpandsOwn randomAddr before line entry kind

/-! ### Positions -/

/-- The lines outside the bodies of `;#discrete_debug_test`. -/
def outsideBodies : Bool → List Line → List Line
  | _, [] => []
  | collecting, line :: rest =>
      if collecting && !endsBody line then outsideBodies true rest
      else if startsWith ";#discrete_debug_test" line then outsideBodies true rest
      else line :: outsideBodies false rest

/-- The configurations that the parser takes, one after the other. -/
def takenConfigs (file : Text) : List ParsedTriggerConfig := (outsideBodies false (readlines file)).filterMap ownConfig

def takenIndices (kind : Kind) (file : Text) : List ℤ := (outsideBodies false (readlines file)).filterMap (ownIndex kind)

/-- The same trigger is configured in the same way. -/
structure Agree (own config : ParsedTriggerConfig) : Prop where
  index : own.index = config.index
  triggerType : own.triggerType = config.triggerType
  addr : config.triggerType ≠ .icount → own.addr = config.addr
  tdata1 : tdata1 own = TriggerConfig.tdata1 config

/-- The line that the parser takes at the position at which the writer reaches this one has the same parameters, if there is
one; and the last configuration of the file that an enabled trigger has is, in its `tdata1`, the last one before the line. -/
def AlignedAt (p : TriggerConfig.Parser) (file : Text) (before : List Line) (line : Line) : Kind → Prop
  | .config => ∀ config, (takenConfigs file)[(view before).count .config]? = some config →
      ∃ own, ownConfig line = some own ∧ Agree own config
  | .disable => ∀ index, (takenIndices .disable file)[(view before).count .disable]? = some index →
      (accessIds p).isSome → ownIndex .disable line = some index
  | .enable => ∀ index config, (takenIndices .enable file)[(view before).count .enable]? = some index →
      lastConfig index (takenConfigs file) = some config →
      ownIndex .enable line = some index ∧ ∃ own, lastConfig index (before.filterMap ownConfig) = some own ∧
        tdata1 own = tdata1 config

def Aligned (p : TriggerConfig.Parser) (file content : Text) : Prop :=
  ∀ before line after kind, content.splitOn '\n' = before ++ line :: after → (view before).reaches line = true →
    kindOf line = some kind → AlignedAt p file before line kind

/-! ### What the parser takes -/

/-- A configuration without the ids. -/
def params (config : ParsedTriggerConfig) : ParsedTriggerConfig := { config with triggerId := 0, csrIds := (0, 0, 0) }

/-- What a configuration line does depends on the line alone, up to the ids. -/
theorem parseTriggerConfig_ok {line : Line} {p p' : TriggerConfig.Parser} (h : parseTriggerConfig line p = .ok p') :
    (p' = p ∧ ∀ q, parseTriggerConfig line q = .ok q) ∨
      ∃ (own : ParsedTriggerConfig) (config : ℕ → ℕ × ℕ × ℕ → ParsedTriggerConfig) (needsTdata2 : Bool),
        '\n' ∉ own.addr ∧ (∀ triggerId csrIds, params (config triggerId csrIds) = own) ∧
          p' = addTriggerConfig p config needsTdata2 ∧
          ∀ q, parseTriggerConfig line q = .ok (addTriggerConfig q config needsTdata2) := by
  unfold parseTriggerConfig at h ⊢
  cases hargs : configArgs line with
  | none =>
      rw [hargs] at h
      exact .inl ⟨(Except.ok.inj h).symm, fun q => rfl⟩
  | some args =>
      rw [hargs] at h
      dsimp only at h ⊢
      obtain ⟨index, hindex, h⟩ := Fallible.bind_ok h
      obtain ⟨triggerType, htype, h⟩ := Fallible.bind_ok h
      obtain ⟨action, haction, h⟩ := Fallible.bind_ok h
      obtain ⟨size, hsize, h⟩ := Fallible.bind_ok h
      obtain ⟨chain, hchain, h⟩ := Fallible.bind_ok h
      obtain ⟨matchType, hmatch, h⟩ := Fallible.bind_ok h
      obtain ⟨count, hcount, h⟩ := Fallible.bind_ok h
      obtain ⟨pending, hpending, h⟩ := Fallible.bind_ok h
      rw [hindex, htype, haction, hsize, hchain, hmatch, hcount, hpending]
      split_ifs at h with hskip
      · refine .inl ⟨(Except.ok.inj h).symm, fun q => ?_⟩
        exact if_pos hskip
      · let addr := (OrderedDict.get? (parseDirectiveArgs args) "addr".toList).getD []
        let privMode := parsePrivMode ((OrderedDict.get? (parseDirectiveArgs args) "priv_mode".toList).getD "m,s,u,vs,vu".toList)
        let config : ℕ → ℕ × ℕ × ℕ → ParsedTriggerConfig := fun triggerId csrIds =>
          { index, triggerType, addr, action, size, chain, matchType, privMode, count, pending, triggerId, csrIds }
        refine .inr ⟨config 0 (0, 0, 0), config, decide (triggerType ≠ .icount), fun hmem => ?_, fun triggerId csrIds => rfl,
          (Except.ok.inj h).symm, fun q => ?_⟩
        swap
        · exact if_neg hskip
        have haddr : ∀ c ∈ (OrderedDict.get? (parseDirectiveArgs args) "addr".toList).getD [], c ∈ args := by
          intro c hc
          cases hget : OrderedDict.get? (parseDirectiveArgs args) "addr".toList with
          | none =>
              rw [hget] at hc
              cases hc
          | some value =>
              rw [hget] at hc
              exact mem_parseDirectiveArgs (OrderedDict.mem_of_get? hget) hc
        exact newline_notMem_content hargs (haddr _ hmem)

/-- One more line of a configuration. -/
theorem parseTriggerConfig_params {line : Line} (hkind : kindOf line = some .config) {p p' : TriggerConfig.Parser}
    (h : parseTriggerConfig line p = .ok p') :
    p'.triggerConfigs.map params = p.triggerConfigs.map params ++ (ownConfig line).toList.map params := by
  unfold ownConfig
  rw [hkind]
  rcases parseTriggerConfig_ok h with ⟨rfl, hall⟩ | ⟨own, config, needsTdata2, -, hparams, rfl, hall⟩
  · rw [hall {}]
    exact (List.append_nil _).symm
  · rw [hall {}]
    obtain ⟨triggerId, csrIds, hhere⟩ := addTriggerConfig_triggerConfigs p config needsTdata2
    obtain ⟨triggerId', csrIds', hown⟩ := addTriggerConfig_triggerConfigs {} config needsTdata2
    dsimp only
    rw [hhere, hown, List.map_append]
    show _ ++ [params (config triggerId csrIds)] = _ ++ [params (config triggerId' csrIds')]
    rw [hparams, hparams]

theorem ownConfig_kind {line : Line} {own : ParsedTriggerConfig} (h : ownConfig line = some own) :
    kindOf line = some .config := by
  unfold ownConfig at h
  split at h
  · assumption
  · cases h

theorem ownConfig_addr {line : Line} {own : ParsedTriggerConfig} (h : ownConfig line = some own) : '\n' ∉ own.addr := by
  unfold ownConfig at h
  split at h
  · next p hkind hparse =>
      rcases parseTriggerConfig_ok hparse with ⟨rfl, -⟩ | ⟨read, config, needsTdata2, haddr, hparams, rfl, -⟩
      · cases h
      · obtain ⟨triggerId, csrIds, hhere⟩ := addTriggerConfig_triggerConfigs {} config needsTdata2
        rw [hhere] at h
        obtain rfl := Option.some.inj h
        rw [← hparams triggerId csrIds] at haddr
        exact haddr
  · cases h

theorem ownIndex_kind {kind : Kind} {line : Line} {index : ℤ} (h : ownIndex kind line = some index) :
    kindOf line = some kind := by
  unfold ownIndex at h
  split at h
  · split_ifs at h
    assumption
  · cases h

theorem ownIndex_of_parse {kind : Kind} {line : Line} (hkind : kindOf line = some kind) {index : Option ℤ}
    (h : parseIndex kind line = .ok index) : ownIndex kind line = index := by
  unfold ownIndex
  rw [h]
  exact if_pos hkind

/-- The pool has taken these lines. -/
structure Takes (pool : Pool) (lines : List Line) : Prop where
  config : pool.config.triggerConfigs.map params = (lines.filterMap ownConfig).map params
  disable : pool.triggerDisable.map (·.index) = lines.filterMap (ownIndex .disable)
  enable : pool.triggerEnable.map (·.index) = lines.filterMap (ownIndex .enable)

theorem filterMap_concat {α β : Type} (f : α → Option β) (lines : List α) (line : α) :
    (lines ++ [line]).filterMap f = lines.filterMap f ++ (f line).toList := by
  rw [List.filterMap_append]
  cases h : f line with
  | none => rw [List.filterMap_cons_none h, List.filterMap_nil, Option.toList_none]
  | some value => rw [List.filterMap_cons_some h, List.filterMap_nil, Option.toList_some]

/-- A line of another kind gives no configuration and no index. -/
theorem ownConfig_of_ne {line : Line} (h : kindOf line ≠ some .config) : ownConfig line = none :=
  Option.eq_none_iff_forall_not_mem.mpr fun _ hown => h (ownConfig_kind hown)

theorem ownIndex_of_ne {kind : Kind} {line : Line} (h : kindOf line ≠ some kind) : ownIndex kind line = none :=
  Option.eq_none_iff_forall_not_mem.mpr fun _ hown => h (ownIndex_kind hown)

theorem Takes.parseTrigger {pool pool' : Pool} {lines : List Line} (h : Takes pool lines) {line : Line}
    (hparse : parseTrigger line pool = .ok pool') : Takes pool' (lines ++ [line]) := by
  -- what the line adds to each of the three lists
  have hconcat : ∀ {added : Pool}, added.config.triggerConfigs.map params =
      pool.config.triggerConfigs.map params ++ (ownConfig line).toList.map params →
      added.triggerDisable.map (·.index) = pool.triggerDisable.map (·.index) ++ (ownIndex .disable line).toList →
      added.triggerEnable.map (·.index) = pool.triggerEnable.map (·.index) ++ (ownIndex .enable line).toList →
      Takes added (lines ++ [line]) := by
    intro added hconfig hdisable henable
    refine ⟨?_, ?_, ?_⟩
    · rw [hconfig, h.config, filterMap_concat, List.map_append]
    · rw [hdisable, h.disable, filterMap_concat]
    · rw [henable, h.enable, filterMap_concat]
  have hnil : ∀ {α : Type} (xs : List α), xs = xs ++ (none : Option α).toList := fun xs => (List.append_nil xs).symm
  unfold TriggerDirectives.parseTrigger at hparse
  cases hkind : kindOf line with
  | none =>
      have hne : ∀ kind, kindOf line ≠ some kind := fun kind heq => nomatch hkind.symm.trans heq
      rw [hkind] at hparse
      obtain rfl := Except.ok.inj hparse
      exact hconcat (by rw [ownConfig_of_ne (hne _)]; exact hnil _) (by rw [ownIndex_of_ne (hne _)]; exact hnil _)
        (by rw [ownIndex_of_ne (hne _)]; exact hnil _)
  | some kind =>
      rw [hkind] at hparse
      have hne : ∀ {other : Kind}, kind ≠ other → kindOf line ≠ some other := fun hother heq =>
        hother (Option.some.inj (hkind.symm.trans heq))
      cases kind with
      | config =>
          obtain ⟨config, hconfig, rfl⟩ := Fallible.map_ok hparse
          exact hconcat (parseTriggerConfig_params hkind hconfig)
            (by rw [ownIndex_of_ne (hne (by decide))]; exact hnil _) (by rw [ownIndex_of_ne (hne (by decide))]; exact hnil _)
      | disable =>
          obtain ⟨index, hindex, hparse⟩ := Fallible.bind_ok hparse
          have hown := ownIndex_of_parse hkind hindex
          have hconfig := ownConfig_of_ne (hne (by decide : Kind.disable ≠ .config))
          have henable := ownIndex_of_ne (hne (by decide : Kind.disable ≠ .enable))
          cases index with
          | none =>
              obtain rfl := Except.ok.inj hparse
              exact hconcat (by rw [hconfig]; exact hnil _) (by rw [hown]; exact hnil _) (by rw [henable]; exact hnil _)
          | some index =>
              obtain rfl := Except.ok.inj hparse
              refine hconcat (by rw [hconfig]; exact hnil _) ?_ (by rw [henable]; exact hnil _)
              rw [hown, List.map_append]
              rfl
      | enable =>
          obtain ⟨index, hindex, hparse⟩ := Fallible.bind_ok hparse
          have hown := ownIndex_of_parse hkind hindex
          have hconfig := ownConfig_of_ne (hne (by decide : Kind.enable ≠ .config))
          have hdisable := ownIndex_of_ne (hne (by decide : Kind.enable ≠ .disable))
          cases index with
          | none =>
              obtain rfl := Except.ok.inj hparse
              exact hconcat (by rw [hconfig]; exact hnil _) (by rw [hdisable]; exact hnil _) (by rw [hown]; exact hnil _)
          | some index =>
              obtain rfl := Except.ok.inj hparse
              refine hconcat (by rw [hconfig]; exact hnil _) (by rw [hdisable]; exact hnil _) ?_
              rw [hown, List.map_append]
              rfl

/-! ### The whole file -/

@[simp] theorem addParsedCsrAccess_triggerConfigs (p : TriggerConfig.Parser) (access : (String × String) × ParsedCsrAccess) :
    (addParsedCsrAccess p access).triggerConfigs = p.triggerConfigs := by
  unfold addParsedCsrAccess
  split <;> rfl

theorem parseOther_triggerConfigs {others : Others ε} {line : Line} {p p' : TriggerConfig.Parser}
    (h : parseOther others line p = .ok p') : p'.triggerConfigs = p.triggerConfigs := by
  unfold parseOther at h
  split at h
  · cases h
  · exact congrArg _ (Except.ok.inj h).symm
  · obtain rfl := Except.ok.inj h
    exact addParsedCsrAccess_triggerConfigs p _

/-- What the pool takes of the lines that are left in the state of the parser. -/
theorem Takes.parseDirective {others : Others ε} {s s' : ParserState} {lines : List Line} (h : Takes s.pool lines) {line : Line}
    (hparse : parseDirective others s line = .ok s') :
    if startsWith ";#discrete_debug_test" line then Takes s'.pool lines ∧ s'.collecting = true
    else Takes s'.pool (lines ++ [line]) ∧ s'.collecting = s.collecting := by
  unfold TriggerDirectives.parseDirective at hparse
  split_ifs at hparse ⊢
  · unfold parseDiscreteDebugTestStart at hparse
    split_ifs at hparse
    obtain rfl := Except.ok.inj hparse
    exact ⟨h, rfl⟩
  · obtain ⟨config, hother, hparse⟩ := Fallible.bind_ok hparse
    obtain ⟨pool, htrigger, hparse⟩ := Fallible.bind_ok hparse
    obtain rfl := Except.ok.inj hparse
    have hpool : Takes { s.pool with config } lines := ⟨by rw [parseOther_triggerConfigs hother, h.config], h.disable, h.enable⟩
    exact ⟨hpool.parseTrigger (Fallible.mapError_ok htrigger), rfl⟩

theorem setParsedDiscreteDebugTest_ok {s s' : ParserState} (h : (setParsedDiscreteDebugTest s : Except (Fault ε) _) = .ok s') :
    s'.pool.config = s.pool.config ∧ s'.pool.triggerDisable = s.pool.triggerDisable ∧
      s'.pool.triggerEnable = s.pool.triggerEnable ∧ s'.collecting = false := by
  unfold setParsedDiscreteDebugTest at h
  split at h
  · cases h
  · obtain rfl := Except.ok.inj h
    exact ⟨rfl, rfl, rfl, rfl⟩

theorem Takes.setParsed {s s' : ParserState} {lines : List Line} (h : Takes s.pool lines)
    (hset : (setParsedDiscreteDebugTest s : Except (Fault ε) _) = .ok s') : Takes s'.pool lines := by
  obtain ⟨hconfig, hdisable, henable, -⟩ := setParsedDiscreteDebugTest_ok hset
  exact ⟨hconfig ▸ h.config, hdisable ▸ h.disable, henable ▸ h.enable⟩

/-- Over the lines the parser takes those outside the bodies. -/
theorem Takes.foldlM {others : Others ε} {rest : List Line} {s s' : ParserState} {lines : List Line} (h : Takes s.pool lines)
    (hrun : rest.foldlM (parseLine others) s = .ok s') : Takes s'.pool (lines ++ outsideBodies s.collecting rest) := by
  induction rest generalizing s lines with
  | nil =>
      obtain rfl := Except.ok.inj hrun
      rw [outsideBodies, List.append_nil]
      exact h
  | cons line rest ih =>
      rw [List.foldlM_cons] at hrun
      obtain ⟨s₁, hline, hrun⟩ := Fallible.bind_ok hrun
      -- a line outside the bodies, from the state behind a body that ends here
      have hdirective : ∀ {s₀ : ParserState}, Takes s₀.pool lines → s₀.collecting = false →
          TriggerDirectives.parseDirective others s₀ line = .ok s₁ → Takes s'.pool
            (lines ++ if startsWith ";#discrete_debug_test" line then outsideBodies true rest
              else line :: outsideBodies false rest) := by
        intro s₀ h₀ hcollecting hparse
        have hnext := h₀.parseDirective hparse
        split_ifs at hnext ⊢
        · exact hnext.2 ▸ ih hnext.1 hrun
        · have hrest := ih hnext.1 hrun
          rw [hnext.2, hcollecting, List.append_assoc, List.singleton_append] at hrest
          exact hrest
      unfold parseLine at hline
      rw [outsideBodies]
      cases hcollecting : s.collecting with
      | false =>
          rw [hcollecting] at hline
          exact hdirective h hcollecting hline
      | true =>
          rw [hcollecting] at hline
          cases hends : endsBody line with
          | false =>
              rw [hends] at hline
              obtain rfl := Except.ok.inj hline
              exact @ih { s with collecting := true, body := s.body ++ [line] } lines h hrun
          | true =>
              rw [hends] at hline
              obtain ⟨s₀, hset, hparse⟩ := Fallible.bind_ok hline
              exact hdirective (h.setParsed hset) (setParsedDiscreteDebugTest_ok hset).2.2.2 hparse

theorem takes_parse {others : Others ε} {file : Text} {pool : Pool} (h : parse others file = .ok pool) :
    Takes pool (outsideBodies false (readlines file)) := by
  obtain ⟨s, hrun, h⟩ := Fallible.bind_ok h
  have hstart : Takes ({} : ParserState).pool [] := ⟨rfl, rfl, rfl⟩
  have htakes := hstart.foldlM hrun
  split_ifs at h
  · obtain ⟨s₀, hset, h⟩ := Fallible.bind_ok h
    obtain rfl := Except.ok.inj h
    exact htakes.setParsed hset
  · obtain rfl := Except.ok.inj h
    exact htakes

/-! ### Accesses -/

/-- The CSR has a forced machine write. -/
def HasAccess (p : TriggerConfig.Parser) (csrName : String) : Prop :=
  (OrderedDict.get? p.csrAccesses (csrName, "write_force_machine")).isSome

theorem get?_insert_isSome {κ ν : Type} [DecidableEq κ] {dict : List (κ × ν)} {key : κ}
    (h : (OrderedDict.get? dict key).isSome) (other : κ) (value : ν) :
    (OrderedDict.get? (OrderedDict.insert dict other value) key).isSome := by
  by_cases heq : key = other
  · rw [heq, OrderedDict.get?_insert_self]
    rfl
  · rwa [OrderedDict.get?_insert_ne dict value heq]

theorem HasAccess.add {p : TriggerConfig.Parser} {csrName : String} (h : HasAccess p csrName)
    (access : (String × String) × ParsedCsrAccess) : HasAccess (addParsedCsrAccess p access) csrName := by
  unfold addParsedCsrAccess
  split
  · exact h
  · exact get?_insert_isSome h _ _

theorem HasAccess.writeAccess {p : TriggerConfig.Parser} {csrName : String} (h : HasAccess p csrName) (other : String) :
    HasAccess (TriggerConfig.writeAccess p other).1 csrName := by
  unfold TriggerConfig.writeAccess
  split
  · exact h
  · exact get?_insert_isSome h _ _

theorem hasAccess_writeAccess (p : TriggerConfig.Parser) (csrName : String) :
    HasAccess (TriggerConfig.writeAccess p csrName).1 csrName := by
  unfold TriggerConfig.writeAccess
  split
  · next hget => exact Option.isSome_of_eq_some hget
  · exact Option.isSome_of_eq_some (OrderedDict.get?_insert_self _ _ _)

/-- Where there is a configuration, `tselect` and `tdata1` can be written. -/
def Registered (p : TriggerConfig.Parser) : Prop := p.triggerConfigs ≠ [] → HasAccess p "tselect" ∧ HasAccess p "tdata1"

theorem Registered.add {p : TriggerConfig.Parser} (h : Registered p) (access : (String × String) × ParsedCsrAccess) :
    Registered (addParsedCsrAccess p access) := fun hne => by
  rw [addParsedCsrAccess_triggerConfigs] at hne
  exact ⟨(h hne).1.add access, (h hne).2.add access⟩

theorem registered_addTriggerConfig (p : TriggerConfig.Parser) (config : ℕ → ℕ × ℕ × ℕ → ParsedTriggerConfig)
    (needsTdata2 : Bool) : Registered (addTriggerConfig p config needsTdata2) := by
  intro _
  have htselect := (hasAccess_writeAccess p "tselect").writeAccess "tdata1"
  have htdata1 := hasAccess_writeAccess (TriggerConfig.writeAccess p "tselect").1 "tdata1"
  cases needsTdata2 with
  | false => exact ⟨htselect, htdata1⟩
  | true => exact ⟨htselect.writeAccess "tdata2", htdata1.writeAccess "tdata2"⟩

theorem accessIds_isSome {p : TriggerConfig.Parser} (h : Registered p) (hne : p.triggerConfigs ≠ []) :
    (accessIds p).isSome := by
  obtain ⟨htselect, htdata1⟩ := h hne
  obtain ⟨tselect, htselect⟩ := Option.isSome_iff_exists.mp htselect
  obtain ⟨tdata1, htdata1⟩ := Option.isSome_iff_exists.mp htdata1
  rw [accessIds, htselect, htdata1]
  rfl

theorem Registered.parseOther {others : Others ε} {line : Line} {p p' : TriggerConfig.Parser} (h : Registered p)
    (hother : parseOther others line p = .ok p') : Registered p' := by
  unfold TriggerDirectives.parseOther at hother
  split at hother
  · cases hother
  · exact Except.ok.inj hother ▸ h
  · obtain rfl := Except.ok.inj hother
    exact h.add _

theorem Registered.parseTrigger {line : Line} {pool pool' : Pool} (h : Registered pool.config)
    (htrigger : parseTrigger line pool = .ok pool') : Registered pool'.config := by
  unfold TriggerDirectives.parseTrigger at htrigger
  split at htrigger
  · exact Except.ok.inj htrigger ▸ h
  · obtain ⟨config, hconfig, rfl⟩ := Fallible.map_ok htrigger
    rcases parseTriggerConfig_ok hconfig with ⟨rfl, -⟩ | ⟨own, config, needsTdata2, -, -, rfl, -⟩
    · exact h
    · exact registered_addTriggerConfig _ _ _
  · obtain ⟨index, -, htrigger⟩ := Fallible.bind_ok htrigger
    cases index with
    | none => exact Except.ok.inj htrigger ▸ h
    | some index => exact Except.ok.inj htrigger ▸ h
  · obtain ⟨index, -, htrigger⟩ := Fallible.bind_ok htrigger
    cases index with
    | none => exact Except.ok.inj htrigger ▸ h
    | some index => exact Except.ok.inj htrigger ▸ h

theorem Registered.parseDirective {others : Others ε} {s s' : ParserState} {line : Line} (h : Registered s.pool.config)
    (hparse : parseDirective others s line = .ok s') : Registered s'.pool.config := by
  unfold TriggerDirectives.parseDirective at hparse
  split_ifs at hparse
  · unfold parseDiscreteDebugTestStart at hparse
    split_ifs at hparse
    exact Except.ok.inj hparse ▸ h
  · obtain ⟨config, hother, hparse⟩ := Fallible.bind_ok hparse
    obtain ⟨pool, htrigger, hparse⟩ := Fallible.bind_ok hparse
    obtain rfl := Except.ok.inj hparse
    have hpool : Registered ({ s.pool with config } : Pool).config := h.parseOther hother
    exact hpool.parseTrigger (Fallible.mapError_ok htrigger)

theorem Registered.foldlM {others : Others ε} {lines : List Line} {s s' : ParserState} (h : Registered s.pool.config)
    (hrun : lines.foldlM (parseLine others) s = .ok s') : Registered s'.pool.config := by
  induction lines generalizing s with
  | nil => exact Except.ok.inj hrun ▸ h
  | cons line lines ih =>
      rw [List.foldlM_cons] at hrun
      obtain ⟨s₁, hline, hrun⟩ := Fallible.bind_ok hrun
      refine ih ?_ hrun
      unfold parseLine at hline
      split_ifs at hline
      · obtain ⟨s₀, hset, hparse⟩ := Fallible.bind_ok hline
        have hs₀ : Registered s₀.pool.config := (setParsedDiscreteDebugTest_ok hset).1 ▸ h
        exact hs₀.parseDirective hparse
      · exact Except.ok.inj hline ▸ h
      · exact h.parseDirective hline

theorem registered_parse {others : Others ε} {file : Text} {pool : Pool} (h : parse others file = .ok pool) :
    Registered pool.config := by
  obtain ⟨s, hrun, h⟩ := Fallible.bind_ok h
  have hregistered := Registered.foldlM (fun hne => absurd rfl hne : Registered ({} : ParserState).pool.config) hrun
  split_ifs at h
  · obtain ⟨s₀, hset, h⟩ := Fallible.bind_ok h
    obtain rfl := Except.ok.inj h
    exact (setParsedDiscreteDebugTest_ok hset).1 ▸ hregistered
  · obtain rfl := Except.ok.inj h
    exact hregistered

/-- The accesses of the runtime change no configuration. -/
theorem generated_pool (generated : Generated) (pool : Pool) (h : Registered pool.config) :
    (generated.pool pool).config.triggerConfigs = pool.config.triggerConfigs ∧ Registered (generated.pool pool).config := by
  have hfold : ∀ (accesses : List ((String × String) × ParsedCsrAccess)) (p : TriggerConfig.Parser), Registered p →
      (accesses.foldl addParsedCsrAccess p).triggerConfigs = p.triggerConfigs ∧
        Registered (accesses.foldl addParsedCsrAccess p) := by
    intro accesses
    induction accesses with
    | nil => exact fun p hp => ⟨rfl, hp⟩
    | cons access accesses ih =>
        intro p hp
        obtain ⟨hconfigs, hregistered⟩ := ih (addParsedCsrAccess p access) (hp.add access)
        exact ⟨hconfigs.trans (addParsedCsrAccess_triggerConfigs p access), hregistered⟩
  exact hfold generated.csrAccesses pool.config h

end Riescue.TriggerDirectives
