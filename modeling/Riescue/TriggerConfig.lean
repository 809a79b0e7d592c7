import Riescue.DirectiveArgs
import Riescue.Sdtrig

/-! The configuration of triggers: the steps of a test plan that emit `;#trigger_config` lines, `compliance/test_plan/actions/debug.py`,
and `Parser.parse_trigger_config`, which reads the lines back. -/

namespace Riescue.TriggerConfig
open AssemblyWriter (isSpace strip)
open DirectiveArgs Sdtrig

/-! ### Steps -/

/-- `ctx.env.priv` -/
inductive Privilege where
  | m | s | u
  deriving DecidableEq, Repr

structure Env where
  priv : Privilege
  virtualized : Bool
  deriving DecidableEq, Repr

/-- The privilege modes of a step, with the sentinel of the environment. -/
inductive PrivToken where
  | mode (mode : PrivMode)
  | any
  | env
  deriving DecidableEq, Repr

/-- A directive string that the trigger module accepts. -/
structure Spelling {α : Type} (strToEnum : String → Except TriggerFault α) where
  text : String
  value : α
  accepted : strToEnum text = .ok value

abbrev ActionName := Spelling TriggerAction.strToEnum

abbrev MatchName := Spelling TriggerMatch.strToEnum

/-- A symbol, a number or an expression: one argument of a directive. -/
structure Address where
  text : Text
  nonempty : text ≠ []
  trimmed : Trimmed text
  plain : ∀ c ∈ text, isPlain c = true

/-- The configuration steps, each with what its action reads. -/
inductive Step where
  | execute (index : ℤ) (addr : Address) (action : ActionName) (matchName : MatchName) (privMode : List PrivToken)
  | load (index : ℤ) (addr : Address) (action : ActionName) (size : ℤ) (matchName : MatchName) (privMode : List PrivToken)
  | store (index : ℤ) (addr : Address) (action : ActionName) (size : ℤ) (matchName : MatchName) (privMode : List PrivToken)
  | loadStore (index : ℤ) (addr : Address) (action : ActionName) (matchName : MatchName) (privMode : List PrivToken)
  | icount (count : ℤ) (action : ActionName) (pending : ℤ) (privMode : List PrivToken)
  | itrigger (index interruptMask : ℤ) (action : ActionName) (privMode : List PrivToken)
  | etrigger (index exceptionMask : ℤ) (action : ActionName) (privMode : List PrivToken)

/-- `_resolve_env_priv` -/
def resolveEnvPriv (env : Env) : PrivMode :=
  match env.priv with
  | .m => .m
  | .s => if env.virtualized then .vs else .s
  | .u => if env.virtualized then .vu else .u

def PrivToken.resolve (env : Env) : PrivToken → String
  | .mode privMode => privMode.token
  | .any => "any"
  | .env => (resolveEnvPriv env).token

/-- `_DIRECTIVE_DEFAULT_PRIV_MODE` -/
def directiveDefaultPrivMode : List String := ["m", "s", "u"]

/-- `[a,b,c]` -/
def bracketed (tokens : List Text) : Text := '[' :: [','].intercalate tokens ++ [']']

/-- `_priv_mode_fragment` -/
def privModeFragment (privMode : List PrivToken) (env : Env) : Option Text :=
  let tokens := privMode.map (PrivToken.resolve env)
  if tokens = directiveDefaultPrivMode then none else some (bracketed (tokens.map String.toList))

/-- `_match_fragment` -/
def matchFragment (matchName : MatchName) : Option Text :=
  if matchName.text ≠ "equal" then some matchName.text.toList else none

/-- The arguments of a `;#trigger_config` line, those in an `Option` as far as they are written. -/
structure Fragments where
  index : Text
  type : TriggerType
  addr : Option Text := none
  count : Option Text := none
  action : Text
  size : Option Text := none
  privMode : Option Text
  matchName : Option Text := none
  pending : Option Text := none

def Fragments.entries (f : Fragments) : List (String × Option Text) :=
  [("index", some f.index), ("type", some f.type.value.toList), ("addr", f.addr), ("count", f.count), ("action", some f.action),
    ("size", f.size), ("priv_mode", f.privMode), ("match", f.matchName), ("pending", f.pending)]

def directive (f : Fragments) : Text := ";#trigger_config(".toList ++ renderArgs (argsOf f.entries) ++ ")\n".toList

/-- The size of a load or store, left out where it is 4. -/
def sizeFragment (size : ℤ) : Option Text := if size ≠ 4 then some (decimal size) else none

def pendingFragment (pending : ℤ) : Option Text := if pending ≠ 0 then some (decimal pending) else none

/-- `forced_modes` of an `icount` step -/
def forcedModes (privMode : List PrivToken) (env : Env) : List PrivToken :=
  if privMode = [.env] then [.mode (resolveEnvPriv env)] else privMode

/-- The arguments that `_build_directive` writes. -/
def fragments (env : Env) : Step → Fragments
  | .execute index addr action matchName privMode =>
      { index := decimal index, type := .execute, addr := some addr.text, action := action.text.toList,
        privMode := privModeFragment privMode env, matchName := matchFragment matchName }
  | .load index addr action size matchName privMode =>
      { index := decimal index, type := .load, addr := some addr.text, action := action.text.toList,
        size := sizeFragment size, privMode := privModeFragment privMode env, matchName := matchFragment matchName }
  | .store index addr action size matchName privMode =>
      { index := decimal index, type := .store, addr := some addr.text, action := action.text.toList,
        size := sizeFragment size, privMode := privModeFragment privMode env, matchName := matchFragment matchName }
  | .loadStore index addr action matchName privMode =>
      { index := decimal index, type := .loadStore, addr := some addr.text, action := action.text.toList,
        privMode := privModeFragment privMode env, matchName := matchFragment matchName }
  | .icount count action pending privMode =>
      { index := decimal 8, type := .icount, count := some (decimal count), action := action.text.toList,
        privMode := privModeFragment (forcedModes privMode env) env, pending := pendingFragment pending }
  | .itrigger index interruptMask action privMode =>
      { index := decimal index, type := .itrigger, addr := some (hex interruptMask), action := action.text.toList,
        privMode := privModeFragment privMode env }
  | .etrigger index exceptionMask action privMode =>
      { index := decimal index, type := .etrigger, addr := some (hex exceptionMask), action := action.text.toList,
        privMode := privModeFragment privMode env }

/-- `_build_directive` -/
def buildDirective (env : Env) (step : Step) : Text := directive (fragments env step)

/-! ### Parser -/

/-- `ParsedTriggerConfig` -/
structure ParsedTriggerConfig where
  index : ℤ
  triggerType : TriggerType
  addr : Text
  action : TriggerAction
  size : ℤ
  chain : ℤ
  matchType : TriggerMatch
  privMode : List String
  count : ℤ
  pending : ℤ
  triggerId : ℕ
  csrIds : ℕ × ℕ × ℕ
  deriving DecidableEq, Repr

/-- `ParsedCsrAccess`, with the values of a forced machine write as defaults. -/
structure ParsedCsrAccess where
  csrName : String
  label : String
  csrId : ℕ
  privMode : String := "machine"
  readWriteSetClear : String := "write"
  forceMachineRw : Bool := true
  hypervisor : Bool := false
  deriving DecidableEq, Repr

/-- What the parser keeps: the accesses by CSR and pool key, the configurations, and the next ids. -/
structure Parser where
  csrAccesses : List ((String × String) × ParsedCsrAccess) := []
  triggerConfigs : List ParsedTriggerConfig := []
  csrId : ℕ := 1
  triggerId : ℕ := 1
  deriving DecidableEq, Repr

inductive ParseFault where
  | notANumber (text : Text)
  | trigger (fault : TriggerFault)
  deriving DecidableEq, Repr

def intArg (args : List (Text × Text)) (key : String) (default : ℤ) : Except ParseFault ℤ :=
  match OrderedDict.get? args key.toList with
  | none => .ok default
  | some text =>
      match int text with
      | some number => .ok number
      | none => .error (.notANumber text)

def enumArg {α : Type} (strToEnum : String → Except TriggerFault α) (args : List (Text × Text)) (key default : String) :
    Except ParseFault α :=
  let text := ((OrderedDict.get? args key.toList).map String.ofList).getD default
  match strToEnum text with
  | .ok value => .ok value
  | .error fault => .error (.trigger fault)

/-- `text.strip(chars)` -/
def stripChars (chars text : Text) : Text := ((text.dropWhile (· ∈ chars)).reverse.dropWhile (· ∈ chars)).reverse

/-- The tokens of `priv_mode=[m,s,u]`. -/
def parsePrivMode (raw : Text) : List String :=
  ((((stripChars "[]".toList raw).splitOn ',').map strip).filter (· ≠ [])).map String.ofList

/-- What the pattern `^;#trigger_config\((.+)\)` captures. -/
def configArgs (line : Text) : Option Text := content ";#trigger_config(" (strip line)

/-- The id of a forced machine write of the CSR, which is registered once. -/
def writeAccess (p : Parser) (csrName : String) : Parser × ℕ :=
  match OrderedDict.get? p.csrAccesses (csrName, "write_force_machine") with
  | some access => (p, access.csrId)
  | none =>
      let access : ParsedCsrAccess :=
        { csrName, label := s!"trigger_config_{p.triggerId}_{csrName}_write", csrId := p.csrId }
      ({ p with csrAccesses := OrderedDict.insert p.csrAccesses (csrName, "write_force_machine") access,
                csrId := p.csrId + 1 }, p.csrId)

/-- `add_parsed_trigger_config`, behind the accesses; an `icount` trigger has no `tdata2`. -/
def addTriggerConfig (p : Parser) (config : ℕ → ℕ × ℕ × ℕ → ParsedTriggerConfig) (needsTdata2 : Bool) : Parser :=
  let (p, tselect) := writeAccess p "tselect"
  let (p, tdata1) := writeAccess p "tdata1"
  let (p, tdata2) := if needsTdata2 then writeAccess p "tdata2" else (p, 0)
  { p with triggerConfigs := p.triggerConfigs ++ [config p.triggerId (tselect, tdata1, tdata2)], triggerId := p.triggerId + 1 }

/-- `parse_trigger_config`, with a warning in place of a configuration where an `mcontrol6` trigger has no address. -/
def parseTriggerConfig (line : Text) (p : Parser) : Except ParseFault Parser :=
  match configArgs line with
  | none => .ok p
  | some content => do
      let args := parseDirectiveArgs content
      let index ← intArg args "index" 0
      let triggerType ← enumArg TriggerType.strToEnum args "type" "execute"
      let addr := (OrderedDict.get? args "addr".toList).getD []
      let action ← enumArg TriggerAction.strToEnum args "action" "breakpoint"
      let size ← intArg args "size" 4
      let chain ← intArg args "chain" 0
      let matchType ← enumArg TriggerMatch.strToEnum args "match" "equal"
      let count ← intArg args "count" 0
      let pending ← intArg args "pending" 0
      let privMode := parsePrivMode ((OrderedDict.get? args "priv_mode".toList).getD "m,s,u,vs,vu".toList)
      if triggerType ∉ [TriggerType.icount, .itrigger, .etrigger] ∧ addr = [] then .ok p
      else .ok (addTriggerConfig p (fun triggerId csrIds =>
        { index, triggerType, addr, action, size, chain, matchType, privMode, count, pending, triggerId, csrIds })
        (triggerType ≠ .icount))

/-- The value of `tdata1` that the writer builds. -/
def tdata1 (config : ParsedTriggerConfig) : Except TriggerFault ℕ :=
  match config.triggerType with
  | .icount => buildTdata1Icount config.count config.action config.privMode config.pending
  | .itrigger => buildTdata1Itrigger config.action config.privMode
  | .etrigger => buildTdata1Etrigger config.action config.privMode
  | triggerType =>
      buildTdata1Mcontrol6 triggerType config.action config.size config.chain config.matchType config.privMode

/-! ### Round Trip -/

/-- The modes that a token stands for. -/
def PrivToken.modes (env : Env) : PrivToken → List PrivMode
  | .mode privMode => [privMode]
  | .any => PrivMode.all
  | .env => [resolveEnvPriv env]

def Step.privMode : Step → List PrivToken
  | .execute _ _ _ _ privMode => privMode
  | .load _ _ _ _ _ privMode => privMode
  | .store _ _ _ _ _ privMode => privMode
  | .loadStore _ _ _ _ privMode => privMode
  | .icount _ _ _ privMode => privMode
  | .itrigger _ _ _ privMode => privMode
  | .etrigger _ _ _ privMode => privMode

/-- The configuration has what the step asks for. Of an interrupt or exception trigger the address is the mask. -/
def Describes (config : ParsedTriggerConfig) : Step → Prop
  | .execute index addr action matchName _ =>
      config.triggerType = .execute ∧ config.index = index ∧ config.addr = addr.text ∧ config.action = action.value ∧
        config.matchType = matchName.value
  | .load index addr action size matchName _ =>
      config.triggerType = .load ∧ config.index = index ∧ config.addr = addr.text ∧ config.action = action.value ∧
        config.size = size ∧ config.matchType = matchName.value
  | .store index addr action size matchName _ =>
      config.triggerType = .store ∧ config.index = index ∧ config.addr = addr.text ∧ config.action = action.value ∧
        config.size = size ∧ config.matchType = matchName.value
  | .loadStore index addr action matchName _ =>
      config.triggerType = .loadStore ∧ config.index = index ∧ config.addr = addr.text ∧ config.action = action.value ∧
        config.matchType = matchName.value
  | .icount count action pending _ =>
      config.triggerType = .icount ∧ config.index = 8 ∧ config.action = action.value ∧ config.count = count ∧
        config.pending = pending
  | .itrigger index interruptMask action _ =>
      config.triggerType = .itrigger ∧ config.index = index ∧ config.addr = hex interruptMask ∧ config.action = action.value
  | .etrigger index exceptionMask action _ =>
      config.triggerType = .etrigger ∧ config.index = index ∧ config.addr = hex exceptionMask ∧ config.action = action.value

/-- The line of the step gives one more configuration, as the step describes it, and its trigger is enabled in the modes of the
step. -/
def Survives (env : Env) (step : Step) (p : Parser) : Prop :=
  ∃ p' config value, parseTriggerConfig (buildDirective env step) p = .ok p' ∧
    p'.triggerConfigs = p.triggerConfigs ++ [config] ∧ Describes config step ∧ tdata1 config = .ok value ∧
    ∀ mode, Enables value mode ↔ mode ∈ step.privMode.flatMap (PrivToken.modes env)

/-! ### Words of a Directive -/

theorem isWordChar_of_toLower {c : Char} (hc : isWordChar c.toLower = true) : isWordChar c = true := by
  by_cases hupper : c.val ≥ 'A'.val ∧ c.val ≤ 'Z'.val
  · have hlow : 65 ≤ c.toNat := UInt32.le_iff_toNat_le.mp hupper.1
    have hhigh : c.toNat ≤ 90 := UInt32.le_iff_toNat_le.mp hupper.2
    have hletters : ∀ n < 91, 65 ≤ n → isWordChar (Char.ofNat n) = true := by decide
    have hletter := hletters c.toNat (by omega) hlow
    rwa [Char.ofNat_toNat] at hletter
  · have hlower : c.toLower = c := dif_neg hupper
    rwa [hlower] at hc

/-- The characters of a name are those of its spellings, up to case. -/
theorem isWord_of_toLower {text : String} (h : IsWord text.toLower.toList) : IsWord text.toList := by
  obtain ⟨hne, hall⟩ := h
  have hlist : text.toLower.toList = text.toList.map Char.toLower := String.toList_map
  rw [hlist] at hne hall
  refine ⟨fun hnil => hne (by rw [hnil]; rfl), List.all_eq_true.mpr fun c hc => ?_⟩
  exact isWordChar_of_toLower (List.all_eq_true.mp hall c.toLower (List.mem_map_of_mem hc))

theorem actionName_isWord (action : ActionName) : IsWord action.text.toList := by
  have haccepted := action.accepted
  unfold TriggerAction.strToEnum at haccepted
  split at haccepted
  · next value hfind =>
      have hname := List.find?_some hfind
      apply isWord_of_toLower
      rw [← of_decide_eq_true hname]
      cases value <;> exact ⟨by decide, by decide⟩
  · cases haccepted

theorem matchName_isWord (matchName : MatchName) : IsWord matchName.text.toList := by
  have haccepted := matchName.accepted
  unfold TriggerMatch.strToEnum at haccepted
  split at haccepted
  · next value hfind =>
      have hname := List.find?_some hfind
      apply isWord_of_toLower
      rw [← of_decide_eq_true hname]
      cases value <;> exact ⟨by decide, by decide⟩
  · cases haccepted

theorem Address.isValue (addr : Address) : IsValue addr.text where
  inert := inert_of_plain addr.plain
  trimmed := addr.trimmed
  nonempty := addr.nonempty
  line hmem := absurd (addr.plain _ hmem) (by decide)

/-! ### Lists of modes -/

/-- A token has no comma and no bracket. -/
theorem resolve_isWord (env : Env) (token : PrivToken) : IsWord (token.resolve env).toList := by
  have htoken : ∀ mode : PrivMode, IsWord mode.token.toList := by
    intro mode
    cases mode <;> exact ⟨by decide, by decide⟩
  cases token with
  | mode privMode => exact htoken privMode
  | any => exact (⟨by decide, by decide⟩ : IsWord "any".toList)
  | env => exact htoken (resolveEnvPriv env)

theorem mem_intercalate {tokens : List Text} {c : Char} (hc : c ∈ [','].intercalate tokens) :
    c = ',' ∨ ∃ token ∈ tokens, c ∈ token := by
  induction tokens with
  | nil => cases hc
  | cons token rest ih =>
      cases rest with
      | nil =>
          rw [List.intercalate_singleton] at hc
          exact .inr ⟨token, List.mem_cons_self, hc⟩
      | cons next rest =>
          rw [List.intercalate_cons_cons, List.mem_append, List.mem_append, List.mem_singleton] at hc
          rcases hc with (hc | hc) | hc
          · exact .inr ⟨token, List.mem_cons_self, hc⟩
          · exact .inl hc
          · exact (ih hc).imp_right fun ⟨token', htoken', hmem⟩ => ⟨token', List.mem_cons_of_mem _ htoken', hmem⟩

theorem bracketed_isValue {tokens : List Text} (htokens : ∀ token ∈ tokens, IsWord token) : IsValue (bracketed tokens) := by
  have hinner : ∀ c ∈ [','].intercalate tokens, isInner c = true ∧ c ≠ '\n' := by
    intro c hc
    obtain rfl | ⟨token, htoken, hmem⟩ := mem_intercalate hc
    · exact ⟨by decide, by decide⟩
    · have hplain := ((htokens token htoken).mem hmem).1
      refine ⟨isInner_of_isPlain hplain, ?_⟩
      rintro rfl
      exact absurd hplain (by decide)
  refine ⟨inert_brackets (inside_of_inner fun c hc => (hinner c hc).1), ?_, nofun, ?_⟩
  · have hends : ∀ c, isSpace c = false → Trimmed [c] := fun c hc =>
      Separated.Trimmed.of_forall (List.forall_mem_singleton.mpr hc)
    exact @Separated.Trimmed.append _ _ ['['] [']'] (hends _ (by decide)) (hends _ (by decide)) nofun nofun _
  · intro hmem
    rw [bracketed, List.mem_append, List.mem_cons, List.mem_singleton] at hmem
    rcases hmem with (h | h) | h
    · exact absurd h (by decide)
    · exact (hinner _ h).2 rfl
    · exact absurd h (by decide)

theorem dropWhile_append_of_not {p : Char → Bool} {inner back : Text} (hinner : ∀ c ∈ inner, p c = false) (hne : inner ≠ []) :
    (inner ++ back).dropWhile p = inner ++ back := by
  cases inner with
  | nil => exact absurd rfl hne
  | cons c inner => exact List.dropWhile_cons_of_neg (Bool.eq_false_iff.mp (hinner c List.mem_cons_self))

/-- The brackets at the ends are stripped. -/
theorem stripChars_brackets {inner : Text} (hinner : ∀ c ∈ inner, c ∉ "[]".toList) :
    stripChars "[]".toList ('[' :: inner ++ [']']) = inner := by
  have hnot : ∀ c ∈ inner, decide (c ∈ "[]".toList) = false := fun c hc => decide_eq_false (hinner c hc)
  have hnot' : ∀ c ∈ inner.reverse, decide (c ∈ "[]".toList) = false := fun c hc => hnot c (List.mem_reverse.mp hc)
  rw [stripChars, List.cons_append, List.dropWhile_cons_of_pos (by decide)]
  by_cases hne : inner = []
  · subst hne
    decide
  · have hback := @dropWhile_append_of_not _ _ [] hnot' (mt List.reverse_eq_nil_iff.mp hne)
    rw [List.append_nil] at hback
    rw [dropWhile_append_of_not hnot hne, List.reverse_append, List.reverse_singleton, List.singleton_append,
      List.dropWhile_cons_of_pos (by decide), hback, List.reverse_reverse]

/-- The brackets go, and the tokens are split again. -/
theorem parsePrivMode_bracketed {tokens : List Text} (htokens : ∀ token ∈ tokens, IsWord token) :
    parsePrivMode (bracketed tokens) = tokens.map String.ofList := by
  have hinner : ∀ c ∈ [','].intercalate tokens, c ∉ "[]".toList := by
    intro c hc hbracket
    obtain rfl | ⟨token, htoken, hmem⟩ := mem_intercalate hc
    · exact absurd hbracket (by decide)
    · exact of_decide_eq_true ((htokens token htoken).mem hmem).1 ((by decide : "[]".toList ⊆ special) hbracket)
  have hcomma : ∀ token ∈ tokens, ',' ∉ token := fun token htoken hmem =>
    absurd ((htokens token htoken).mem hmem).1 (by decide)
  have hstrip : tokens.map strip = tokens := by
    conv_rhs => rw [← List.map_id tokens]
    exact List.map_congr_left fun token htoken => (htokens token htoken).trimmed.strip
  have hkeep : tokens.filter (fun token => decide (token ≠ [])) = tokens :=
    List.filter_eq_self.mpr fun token htoken => decide_eq_true (htokens token htoken).1
  rw [parsePrivMode, bracketed, stripChars_brackets hinner]
  by_cases hne : tokens = []
  · subst hne
    decide
  · rw [List.splitOn_intercalate ',' hcomma hne, hstrip, hkeep]

/-! ### Parsing -/

/-- The values of the line can be read back. -/
def Fragments.IsReadable (f : Fragments) : Prop := ∀ entry ∈ f.entries, ∀ value ∈ entry.2, IsValue value

theorem entries_nodup (f : Fragments) : (f.entries.map Prod.fst).Nodup := by
  have hkeys : f.entries.map Prod.fst =
      ["index", "type", "addr", "count", "action", "size", "priv_mode", "match", "pending"] := rfl
  rw [hkeys]
  decide

theorem isArg_of_isReadable {f : Fragments} (hf : f.IsReadable) : ∀ arg ∈ argsOf f.entries, IsArg arg := by
  intro arg harg
  obtain ⟨key, hmem, hkey⟩ := mem_argsOf.mp harg
  have hkeys : ∀ key ∈ f.entries.map Prod.fst, IsWord key.toList := by
    have hall : ∀ key ∈ ["index", "type", "addr", "count", "action", "size", "priv_mode", "match", "pending"],
        key.toList ≠ [] ∧ key.toList.all isWordChar = true := by decide
    exact hall
  exact ⟨hkey ▸ hkeys key (List.mem_map_of_mem hmem), hf _ hmem _ rfl⟩

theorem configArgs_directive {f : Fragments} (hf : f.IsReadable) :
    configArgs (directive f) = some (renderArgs (argsOf f.entries)) := by
  have hargs := isArg_of_isReadable hf
  have hne : argsOf f.entries ≠ [] := nofun
  have hnil := renderArgs_ne_nil hne
  have hstrip : strip (directive f) = ";#trigger_config(".toList ++ renderArgs (argsOf f.entries) ++ [')'] := by
    have hopen : IsWord ";#trigger_config(".toList := ⟨by decide, by decide⟩
    have hclose : IsWord [')'] := ⟨nofun, by decide⟩
    have htrimmed : Trimmed (";#trigger_config(".toList ++ renderArgs (argsOf f.entries) ++ [')']) :=
      Separated.Trimmed.append hopen.trimmed hclose.trimmed hopen.1 hclose.1 _
    have hend : ")\n".toList = [')', '\n'] := by decide
    have hline : directive f = [] ++ (";#trigger_config(".toList ++ renderArgs (argsOf f.entries) ++ [')']) ++ ['\n'] := by
      unfold directive
      rw [hend]
      simp only [List.nil_append, List.append_assoc, List.cons_append]
    have haround : Around (";#trigger_config(".toList ++ renderArgs (argsOf f.entries) ++ [')']) (directive f) :=
      ⟨[], ['\n'], Separated.blanks_nil, Separated.blanks_singleton (by decide), hline⟩
    exact haround.strip htrimmed (List.append_ne_nil_of_right_ne_nil _ nofun)
  rw [configArgs, hstrip, List.append_assoc, content_line hnil (newline_notMem_renderArgs hargs)]

/-- What the parser makes of the arguments of a line. -/
theorem get?_directive {f : Fragments} {key : String} {value : Option Text} (hmem : (key, value) ∈ f.entries) :
    OrderedDict.get? (argsOf f.entries) key.toList = value := get?_argsOf (entries_nodup f) hmem

def intOf (text : Option Text) (default : ℤ) : Option ℤ :=
  match text with
  | none => some default
  | some text => int text

theorem intArg_directive {f : Fragments} {key : String} {value : Option Text} (hmem : (key, value) ∈ f.entries)
    {default number : ℤ} (hnumber : intOf value default = some number) :
    intArg (argsOf f.entries) key default = .ok number := by
  rw [intArg, get?_directive hmem]
  cases value with
  | none => exact congrArg Except.ok (Option.some.inj hnumber)
  | some text =>
      have hint : int text = some number := hnumber
      dsimp only
      rw [hint]

theorem enumArg_directive {α : Type} {strToEnum : String → Except TriggerFault α} {f : Fragments} {key : String}
    {value : Option Text} (hmem : (key, value) ∈ f.entries) {default : String} {result : α}
    (hresult : strToEnum ((value.map String.ofList).getD default) = .ok result) :
    enumArg strToEnum (argsOf f.entries) key default = .ok result := by
  unfold enumArg
  rw [get?_directive hmem]
  dsimp only
  rw [hresult]

theorem triggerType_strToEnum (type : TriggerType) : TriggerType.strToEnum type.value = .ok type := by
  cases type <;> decide +kernel

theorem nodup_argsOf (f : Fragments) : ((argsOf f.entries).map Prod.fst).Nodup := by
  apply (keys_argsOf f.entries).nodup
  have hmap := (entries_nodup f).map (fun _ _ => String.toList_inj.mp : Function.Injective String.toList)
  rwa [List.map_map] at hmap

theorem chain_notMem (f : Fragments) : OrderedDict.get? (argsOf f.entries) "chain".toList = none := by
  apply OrderedDict.get?_eq_none
  intro hmem
  have hkey := (keys_argsOf f.entries).subset hmem
  exact absurd hkey (by simp [Fragments.entries])

theorem writeAccess_triggerConfigs (p : Parser) (csrName : String) :
    (writeAccess p csrName).1.triggerConfigs = p.triggerConfigs := by
  unfold writeAccess
  split <;> rfl

theorem addTriggerConfig_triggerConfigs (p : Parser) (config : ℕ → ℕ × ℕ × ℕ → ParsedTriggerConfig) (needsTdata2 : Bool) :
    ∃ triggerId csrIds, (addTriggerConfig p config needsTdata2).triggerConfigs =
      p.triggerConfigs ++ [config triggerId csrIds] := by
  have htdata1 := (writeAccess_triggerConfigs (writeAccess p "tselect").1 "tdata1").trans (writeAccess_triggerConfigs p "tselect")
  cases needsTdata2 with
  | false => exact ⟨_, _, congrArg (· ++ [_]) htdata1⟩
  | true => exact ⟨_, _, congrArg (· ++ [_]) ((writeAccess_triggerConfigs _ "tdata2").trans htdata1)⟩

/-- The configuration of a line, from the readings of its arguments. -/
theorem parseTriggerConfig_directive {f : Fragments} (hf : f.IsReadable) (p : Parser) {index size count pending : ℤ}
    {action : TriggerAction} {matchType : TriggerMatch} (hindex : intOf (some f.index) 0 = some index)
    (haction : TriggerAction.strToEnum (String.ofList f.action) = .ok action) (hsize : intOf f.size 4 = some size)
    (hmatch : TriggerMatch.strToEnum ((f.matchName.map String.ofList).getD "equal") = .ok matchType)
    (hcount : intOf f.count 0 = some count) (hpending : intOf f.pending 0 = some pending)
    (haddr : f.type ∈ [TriggerType.icount, .itrigger, .etrigger] ∨ f.addr.getD [] ≠ []) :
    ∃ p' triggerId csrIds, parseTriggerConfig (directive f) p = .ok p' ∧ p'.triggerConfigs = p.triggerConfigs ++
      [{ index, triggerType := f.type, addr := f.addr.getD [], action, size, chain := 0, matchType,
         privMode := parsePrivMode (f.privMode.getD "m,s,u,vs,vu".toList), count, pending, triggerId, csrIds }] := by
  have hargs : parseDirectiveArgs (renderArgs (argsOf f.entries)) = argsOf f.entries :=
    parseDirectiveArgs_renderArgs (isArg_of_isReadable hf) (nodup_argsOf f)
  have haddrKey : OrderedDict.get? (argsOf f.entries) "addr".toList = f.addr := get?_directive (by simp [Fragments.entries])
  have hprivKey : OrderedDict.get? (argsOf f.entries) "priv_mode".toList = f.privMode :=
    get?_directive (by simp [Fragments.entries])
  have htype : enumArg TriggerType.strToEnum (argsOf f.entries) "type" "execute" = .ok f.type := by
    refine @enumArg_directive _ _ f _ (some f.type.value.toList) (by simp [Fragments.entries]) _ _ ?_
    rw [Option.map_some, String.ofList_toList, Option.getD_some, triggerType_strToEnum]
  have haction' : enumArg TriggerAction.strToEnum (argsOf f.entries) "action" "breakpoint" = .ok action :=
    @enumArg_directive _ _ f _ (some f.action) (by simp [Fragments.entries]) _ _ haction
  have hmatch' := @enumArg_directive _ _ f "match" _ (by simp [Fragments.entries]) _ _ hmatch
  have hindex' := @intArg_directive f "index" _ (by simp [Fragments.entries]) _ _ hindex
  have hsize' := @intArg_directive f "size" _ (by simp [Fragments.entries]) _ _ hsize
  have hcount' := @intArg_directive f "count" _ (by simp [Fragments.entries]) _ _ hcount
  have hpending' := @intArg_directive f "pending" _ (by simp [Fragments.entries]) _ _ hpending
  have hchain : intArg (argsOf f.entries) "chain" 0 = .ok 0 := by rw [intArg, chain_notMem]
  have haddress : ¬ (f.type ∉ [TriggerType.icount, .itrigger, .etrigger] ∧ f.addr.getD [] = []) :=
    fun h => haddr.elim h.1 fun hne => hne h.2
  obtain ⟨triggerId, csrIds, hconfigs⟩ := addTriggerConfig_triggerConfigs p (fun triggerId csrIds =>
    { index, triggerType := f.type, addr := f.addr.getD [], action, size, chain := 0, matchType,
      privMode := parsePrivMode (f.privMode.getD "m,s,u,vs,vu".toList), count, pending, triggerId, csrIds }) (f.type ≠ .icount)
  refine ⟨_, triggerId, csrIds, ?_, hconfigs⟩
  unfold parseTriggerConfig
  rw [configArgs_directive hf]
  dsimp only
  rw [hargs, hindex', htype, haction', hsize', hchain, hmatch', hcount', hpending', haddrKey, hprivKey]
  exact if_neg haddress

/-! ### Directives of steps -/

theorem isReadable_of {f : Fragments} (hindex : IsWord f.index) (hname : IsWord f.action) (haddr : ∀ v ∈ f.addr, IsValue v)
    (hcount : ∀ v ∈ f.count, IsValue v) (hsize : ∀ v ∈ f.size, IsValue v) (hprivMode : ∀ v ∈ f.privMode, IsValue v)
    (hmatch : ∀ v ∈ f.matchName, IsValue v) (hpending : ∀ v ∈ f.pending, IsValue v) : f.IsReadable := by
  have htype : IsWord f.type.value.toList := by
    cases f.type <;> exact ⟨by decide, by decide⟩
  have hsome : ∀ {text : Text}, IsWord text → ∀ v ∈ some text, IsValue v := by
    rintro text htext v ⟨⟩
    exact htext.isValue
  unfold Fragments.IsReadable Fragments.entries
  simp only [List.forall_mem_cons, List.not_mem_nil, false_imp_iff, implies_true, and_true]
  exact ⟨hsome hindex, hsome htype, haddr, hcount, hsome hname, hsize, hprivMode, hmatch, hpending⟩

theorem decimal_mem (number : ℤ) : ∀ v ∈ some (decimal number), IsValue v := by
  rintro v ⟨⟩
  exact (decimal_isWord number).isValue

theorem hex_mem (number : ℤ) : ∀ v ∈ some (hex number), IsValue v := by
  rintro v ⟨⟩
  exact (hex_isWord number).isValue

theorem address_mem (addr : Address) : ∀ v ∈ some addr.text, IsValue v := by
  rintro v ⟨⟩
  exact addr.isValue

/-- A number that is left out at its default, written out and read back. -/
theorem sizeFragment_mem (size : ℤ) : ∀ v ∈ sizeFragment size, IsValue v := by
  unfold sizeFragment
  split_ifs
  · exact decimal_mem size
  · exact nofun

theorem pendingFragment_mem (pending : ℤ) : ∀ v ∈ pendingFragment pending, IsValue v := by
  unfold pendingFragment
  split_ifs
  · exact decimal_mem pending
  · exact nofun

theorem matchFragment_mem (matchName : MatchName) : ∀ v ∈ matchFragment matchName, IsValue v := by
  unfold matchFragment
  split_ifs
  · rintro v ⟨⟩
    exact (matchName_isWord matchName).isValue
  · exact nofun

theorem resolve_words (privMode : List PrivToken) (env : Env) :
    ∀ token ∈ (privMode.map (PrivToken.resolve env)).map String.toList, IsWord token := by
  intro token htoken
  obtain ⟨text, htext, rfl⟩ := List.mem_map.mp htoken
  obtain ⟨privToken, -, rfl⟩ := List.mem_map.mp htext
  exact resolve_isWord env privToken

theorem privModeFragment_mem (privMode : List PrivToken) (env : Env) : ∀ v ∈ privModeFragment privMode env, IsValue v := by
  unfold privModeFragment
  dsimp only
  split_ifs
  · exact nofun
  · rintro v ⟨⟩
    exact bracketed_isValue (resolve_words privMode env)

theorem intOf_sizeFragment (size : ℤ) : intOf (sizeFragment size) 4 = some size := by
  unfold sizeFragment
  split_ifs with h
  · exact int_decimal size
  · exact congrArg some (not_not.mp h).symm

theorem intOf_pendingFragment (pending : ℤ) : intOf (pendingFragment pending) 0 = some pending := by
  unfold pendingFragment
  split_ifs with h
  · exact int_decimal pending
  · exact congrArg some (not_not.mp h).symm

theorem strToEnum_matchFragment (matchName : MatchName) :
    TriggerMatch.strToEnum (((matchFragment matchName).map String.ofList).getD "equal") = .ok matchName.value := by
  unfold matchFragment
  split_ifs with h
  · rw [Option.map_some, Option.getD_some, String.ofList_toList]
    exact matchName.accepted
  · rw [Option.map_none, Option.getD_none, ← not_not.mp h]
    exact matchName.accepted

theorem strToEnum_action (action : ActionName) :
    TriggerAction.strToEnum (String.ofList action.text.toList) = .ok action.value := by
  rw [String.ofList_toList]
  exact action.accepted

theorem strToEnum_equal : TriggerMatch.strToEnum "equal" = .ok .equal := by decide +kernel

/-- Resolving the sentinel early changes nothing. -/
theorem privModeFragment_forcedModes (privMode : List PrivToken) (env : Env) :
    privModeFragment (forcedModes privMode env) env = privModeFragment privMode env := by
  unfold forcedModes
  split_ifs with h
  · rw [h]
    rfl
  · rfl

/-- What the parser reads of the modes. -/
def readModes (env : Env) (step : Step) : List String :=
  parsePrivMode ((privModeFragment step.privMode env).getD "m,s,u,vs,vu".toList)

theorem parse_buildDirective (env : Env) (step : Step) (p : Parser) :
    ∃ p' config, parseTriggerConfig (buildDirective env step) p = .ok p' ∧ p'.triggerConfigs = p.triggerConfigs ++ [config] ∧
      Describes config step ∧ config.privMode = readModes env step := by
  cases step with
  | execute index addr action matchName privMode =>
      have hread : (fragments env (.execute index addr action matchName privMode)).IsReadable :=
        isReadable_of (decimal_isWord index) (actionName_isWord action) (address_mem addr) nofun nofun
          (privModeFragment_mem privMode env) (matchFragment_mem matchName) nofun
      obtain ⟨p', triggerId, csrIds, hparse, hconfigs⟩ := parseTriggerConfig_directive hread p (int_decimal index)
        (strToEnum_action action) rfl (strToEnum_matchFragment matchName) rfl rfl (.inr addr.nonempty)
      exact ⟨p', _, hparse, hconfigs, ⟨rfl, rfl, rfl, rfl, rfl⟩, rfl⟩
  | load index addr action size matchName privMode =>
      have hread : (fragments env (.load index addr action size matchName privMode)).IsReadable :=
        isReadable_of (decimal_isWord index) (actionName_isWord action) (address_mem addr) nofun (sizeFragment_mem size)
          (privModeFragment_mem privMode env) (matchFragment_mem matchName) nofun
      obtain ⟨p', triggerId, csrIds, hparse, hconfigs⟩ := parseTriggerConfig_directive hread p (int_decimal index)
        (strToEnum_action action) (intOf_sizeFragment size) (strToEnum_matchFragment matchName) rfl rfl (.inr addr.nonempty)
      exact ⟨p', _, hparse, hconfigs, ⟨rfl, rfl, rfl, rfl, rfl, rfl⟩, rfl⟩
  | store index addr action size matchName privMode =>
      have hread : (fragments env (.store index addr action size matchName privMode)).IsReadable :=
        isReadable_of (decimal_isWord index) (actionName_isWord action) (address_mem addr) nofun (sizeFragment_mem size)
          (privModeFragment_mem privMode env) (matchFragment_mem matchName) nofun
      obtain ⟨p', triggerId, csrIds, hparse, hconfigs⟩ := parseTriggerConfig_directive hread p (int_decimal index)
        (strToEnum_action action) (intOf_sizeFragment size) (strToEnum_matchFragment matchName) rfl rfl (.inr addr.nonempty)
      exact ⟨p', _, hparse, hconfigs, ⟨rfl, rfl, rfl, rfl, rfl, rfl⟩, rfl⟩
  | loadStore index addr action matchName privMode =>
      have hread : (fragments env (.loadStore index addr action matchName privMode)).IsReadable :=
        isReadable_of (decimal_isWord index) (actionName_isWord action) (address_mem addr) nofun nofun
          (privModeFragment_mem privMode env) (matchFragment_mem matchName) nofun
      obtain ⟨p', triggerId, csrIds, hparse, hconfigs⟩ := parseTriggerConfig_directive hread p (int_decimal index)
        (strToEnum_action action) rfl (strToEnum_matchFragment matchName) rfl rfl (.inr addr.nonempty)
      exact ⟨p', _, hparse, hconfigs, ⟨rfl, rfl, rfl, rfl, rfl⟩, rfl⟩
  | icount count action pending privMode =>
      have hread : (fragments env (.icount count action pending privMode)).IsReadable :=
        isReadable_of (decimal_isWord 8) (actionName_isWord action) nofun (decimal_mem count) nofun
          (privModeFragment_mem _ env) nofun (pendingFragment_mem pending)
      obtain ⟨p', triggerId, csrIds, hparse, hconfigs⟩ := parseTriggerConfig_directive hread p (int_decimal 8)
        (strToEnum_action action) rfl strToEnum_equal (int_decimal count) (intOf_pendingFragment pending)
        (.inl (.head _))
      refine ⟨p', _, hparse, hconfigs, ⟨rfl, rfl, rfl, rfl, rfl⟩, ?_⟩
      rw [readModes, Step.privMode, ← privModeFragment_forcedModes]
      rfl
  | itrigger index interruptMask action privMode =>
      have hread : (fragments env (.itrigger index interruptMask action privMode)).IsReadable :=
        isReadable_of (decimal_isWord index) (actionName_isWord action) (hex_mem interruptMask) nofun nofun
          (privModeFragment_mem privMode env) nofun nofun
      obtain ⟨p', triggerId, csrIds, hparse, hconfigs⟩ := parseTriggerConfig_directive hread p (int_decimal index)
        (strToEnum_action action) rfl strToEnum_equal rfl rfl (.inl (.tail _ (.head _)))
      exact ⟨p', _, hparse, hconfigs, ⟨rfl, rfl, rfl, rfl⟩, rfl⟩
  | etrigger index exceptionMask action privMode =>
      have hread : (fragments env (.etrigger index exceptionMask action privMode)).IsReadable :=
        isReadable_of (decimal_isWord index) (actionName_isWord action) (hex_mem exceptionMask) nofun nofun
          (privModeFragment_mem privMode env) nofun nofun
      obtain ⟨p', triggerId, csrIds, hparse, hconfigs⟩ := parseTriggerConfig_directive hread p (int_decimal index)
        (strToEnum_action action) rfl strToEnum_equal rfl rfl (.inl (.tail _ (.tail _ (.head _))))
      exact ⟨p', _, hparse, hconfigs, ⟨rfl, rfl, rfl, rfl⟩, rfl⟩

/-! ### Enabled modes -/

theorem expand_resolve (env : Env) (token : PrivToken) :
    PrivMode.expand (token.resolve env) = .ok (token.modes env) := by
  have hmode : ∀ mode : PrivMode, PrivMode.expand mode.token = .ok [mode] := by
    intro mode
    cases mode <;> decide +kernel
  cases token with
  | mode privMode => exact hmode privMode
  | any => rfl
  | env => exact hmode (resolveEnvPriv env)

theorem mapM_expand (env : Env) (privMode : List PrivToken) :
    (privMode.map (PrivToken.resolve env)).mapM PrivMode.expand = .ok (privMode.map (PrivToken.modes env)) := by
  induction privMode with
  | nil => rfl
  | cons token rest ih =>
      rw [List.map_cons, List.mapM_cons, expand_resolve, ih]
      rfl

theorem names_resolve (env : Env) (privMode : List PrivToken) (mode : PrivMode) :
    Names (privMode.map (PrivToken.resolve env)) mode ↔ mode ∈ privMode.flatMap (PrivToken.modes env) := by
  constructor
  · rintro ⟨expanded, hexpanded, hmode⟩
    obtain rfl := Except.ok.inj ((mapM_expand env privMode).symm.trans hexpanded)
    exact hmode
  · exact fun hmode => ⟨_, mapM_expand env privMode, hmode⟩

theorem exists_tdata1 {config : ParsedTriggerConfig} {expanded : List (List PrivMode)}
    (hexpanded : config.privMode.mapM PrivMode.expand = .ok expanded) :
    ∃ value, tdata1 config = .ok value ∧ ∀ mode, Enables value mode ↔ Names config.privMode mode := by
  have hbits : ∃ bits, modesToPrivBits config.privMode = .ok bits := by
    rw [modesToPrivBits, hexpanded]
    exact ⟨_, rfl⟩
  obtain ⟨bits, hbits⟩ := hbits
  have hmcontrol : ∀ triggerType access, accessBits triggerType = .ok access → ∃ value,
      buildTdata1Mcontrol6 triggerType config.action config.size config.chain config.matchType config.privMode = .ok value ∧
        ∀ mode, Enables value mode ↔ Names config.privMode mode := by
    intro triggerType access haccess
    have hbuild : ∃ value, buildTdata1Mcontrol6 triggerType config.action config.size config.chain config.matchType
        config.privMode = .ok value := by
      rw [buildTdata1Mcontrol6, hbits, haccess]
      exact ⟨_, rfl⟩
    obtain ⟨value, hvalue⟩ := hbuild
    exact ⟨value, hvalue, enables_buildTdata1Mcontrol6 hvalue⟩
  have hcause : ∀ type, type = 4 ∨ type = 5 → ∃ value, buildTdata1Cause type config.action config.privMode = .ok value ∧
      ∀ mode, Enables value mode ↔ Names config.privMode mode := by
    intro type htype
    have hbuild : ∃ value, buildTdata1Cause type config.action config.privMode = .ok value := by
      rw [buildTdata1Cause, hbits]
      exact ⟨_, rfl⟩
    obtain ⟨value, hvalue⟩ := hbuild
    exact ⟨value, hvalue, enables_buildTdata1Cause htype hvalue⟩
  unfold tdata1
  cases config.triggerType with
  | execute => exact hmcontrol .execute _ rfl
  | load => exact hmcontrol .load _ rfl
  | store => exact hmcontrol .store _ rfl
  | loadStore => exact hmcontrol .loadStore _ rfl
  | icount =>
      have hbuild : ∃ value, buildTdata1Icount config.count config.action config.privMode config.pending = .ok value := by
        rw [buildTdata1Icount, hbits]
        exact ⟨_, rfl⟩
      obtain ⟨value, hvalue⟩ := hbuild
      exact ⟨value, hvalue, enables_buildTdata1Icount hvalue⟩
  | itrigger => exact hcause 4 (.inl rfl)
  | etrigger => exact hcause 5 (.inr rfl)

theorem readModes_eq (env : Env) (step : Step) :
    readModes env step = if step.privMode.map (PrivToken.resolve env) = directiveDefaultPrivMode then defaultPrivMode
      else step.privMode.map (PrivToken.resolve env) := by
  unfold readModes privModeFragment
  dsimp only
  split_ifs with h
  · decide
  · rw [Option.getD_some, parsePrivMode_bracketed (resolve_words step.privMode env), List.map_map]
    conv_rhs => rw [← List.map_id (step.privMode.map (PrivToken.resolve env))]
    exact List.map_congr_left fun token _ => String.ofList_toList

theorem survives_of_ne {env : Env} {step : Step} (hne : step.privMode.map (PrivToken.resolve env) ≠ directiveDefaultPrivMode)
    (p : Parser) : Survives env step p := by
  obtain ⟨p', config, hparse, hconfigs, hdescribes, hmodes⟩ := parse_buildDirective env step p
  rw [readModes_eq, if_neg hne] at hmodes
  obtain ⟨value, hvalue, henables⟩ := exists_tdata1 (hmodes ▸ mapM_expand env step.privMode)
  refine ⟨p', config, value, hparse, hconfigs, hdescribes, hvalue, fun mode => ?_⟩
  rw [henables, hmodes, names_resolve]

/-- The step asks for three modes, and the parser enables all five. -/
theorem not_survives_of_eq {env : Env} {step : Step}
    (heq : step.privMode.map (PrivToken.resolve env) = directiveDefaultPrivMode) (p : Parser) : ¬ Survives env step p := by
  rintro ⟨p₁, config₁, value, hparse₁, hconfigs₁, -, hvalue, henables⟩
  obtain ⟨p', config, hparse, hconfigs, -, hmodes⟩ := parse_buildDirective env step p
  obtain rfl := Except.ok.inj (hparse₁.symm.trans hparse)
  obtain rfl : config₁ = config := by
    have hlists := List.append_cancel_left (hconfigs₁.symm.trans hconfigs)
    exact List.head_eq_of_cons_eq hlists
  rw [readModes_eq, if_pos heq] at hmodes
  have hall : defaultPrivMode.mapM PrivMode.expand = .ok [[.m], [.s], [.u], [.vs], [.vu]] := by decide +kernel
  obtain ⟨value', hvalue', henables'⟩ := exists_tdata1 (hmodes ▸ hall)
  obtain rfl := Except.ok.inj (hvalue.symm.trans hvalue')
  have hvs : Names defaultPrivMode .vs := ⟨_, hall, by decide⟩
  have hthree : ∀ mode, Names directiveDefaultPrivMode mode → mode ∈ [PrivMode.m, .s, .u] := by
    rintro mode ⟨expanded, hexpanded, hmode⟩
    have hexpand : directiveDefaultPrivMode.mapM PrivMode.expand = .ok [[.m], [.s], [.u]] := by decide +kernel
    obtain rfl := Except.ok.inj (hexpanded.symm.trans hexpand)
    exact hmode
  have hmem := (henables .vs).mp ((henables' .vs).mpr (hmodes ▸ hvs))
  rw [← names_resolve, heq] at hmem
  exact absurd (hthree .vs hmem) (by decide)

/-- The writer leaves `priv_mode` out for a list of modes that is not the one the parser takes then. -/
theorem survives_iff (env : Env) (step : Step) (p : Parser) :
    Survives env step p ↔ step.privMode.map (PrivToken.resolve env) ≠ directiveDefaultPrivMode :=
  ⟨fun h heq => not_survives_of_eq heq p h, fun hne => survives_of_ne hne p⟩

/-- `ConfigureExecuteTrigger(index=0, addr="target", priv_mode=("m", "s", "u"))`, with the actions and matches of the module. -/
def executeThree : Step :=
  .execute 0 ⟨"target".toList, by decide, DirectiveArgs.IsWord.trimmed ⟨by decide, by decide⟩, List.all_eq_true.mp (by decide)⟩
    ⟨"breakpoint", .breakpoint, by decide +kernel⟩ ⟨"equal", .equal, strToEnum_equal⟩ [.mode .m, .mode .s, .mode .u]

theorem not_survives_executeThree : ¬ Survives ⟨.m, false⟩ executeThree {} := not_survives_of_eq rfl {}

end Riescue.TriggerConfig
