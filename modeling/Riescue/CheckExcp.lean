import Mathlib.Data.Int.Notation
import Mathlib.Logic.Function.Basic
import Mathlib.Tactic.Common

/-! Expected exceptions, `TrapHandler.check_excp` and the code around it: `OS_SETUP_CHECK_EXCP` stores what the next
exception should be in the hart-local `check_excp_*` variables, the exception path of the handlers compares and clears
them and returns to the stored address. -/

namespace Riescue.TrapHandler

abbrev Word := BitVec 64

/-- The expectation variables, without their `check_excp_`. -/
inductive Variable where
  | expectedMode | expectedCause | skipPcCheck | expectedPc | expectedTval | expectedHtval | gvaCheck
  | returnPc | reExecute | disableTriggers
  deriving DecidableEq, Repr

/-- The hart-local variables that belong to the check. -/
structure HartContext where
  vars : Variable → Word
  /-- `check_excp`, one byte: the check is enabled. -/
  checkExcp : BitVec 8
  actualPc : Word
  actualCause : Word

/-- The values that `runtime.py` registers. -/
def HartContext.initial : HartContext where
  vars
    | .expectedPc | .returnPc => -1
    | .expectedCause => 0xFF
    | _ => 0
  checkExcp := 1
  actualPc := -1
  actualCause := 0xFF

/-- `deleg_mode_str`: machine mode, supervisor mode, and supervisor mode with `deleg_virtualized`. -/
inductive Handler where
  | m | hs | s
  deriving DecidableEq, Repr

/-- `current_mode`, the `CHECK_EXCP_MODE_*` equates. -/
def Handler.currentMode : Handler → Word
  | m => 1
  | hs => 2
  | s => 3

/-- What a handler reads of the machine: the CSRs of the trap, the function number of a system call, the length of
the faulting instruction, and the shared counter of ignored exceptions. -/
structure Trap where
  cause : Word
  x31 : Word
  epc : Word
  tval : Word
  /-- `htval` or `mtval2` -/
  htval : Word
  /-- The GVA bit of `hstatus` or `mstatus`. -/
  gva : Bool
  compressed : Bool
  excpIgnoredCount : ℤ

/-- How a handler ends. -/
inductive Exit where
  | returned (pc : Word)
  | testFailed
  | softEndTest
  | syscall
  | panic
  deriving DecidableEq, Repr

def IGNORED_EXCP_MAX_COUNT : ℤ := 5000

/-- The configuration that the exception path is generated from. -/
structure Settings where
  skipInstructionForUnexpected : Bool
  /-- The memory allocation API is there. -/
  cfiles : Bool
  /-- A machine mode test with paging. -/
  machinePaging : Bool

/-! ### The exception path -/

namespace HartContext

/-- The value of a variable and the context in which it is cleared. -/
def loadAndClear (ctx : HartContext) (var : Variable) : Word × HartContext :=
  (ctx.vars var, { ctx with vars := Function.update ctx.vars var 0 })

end HartContext

/-- The labels that `check_excp` jumps to. -/
inductive Target where
  | returnToHost
  | unexpectedException
  deriving DecidableEq, Repr

/-- The comparisons that the virtualized handler leaves out. -/
def checkHtvalAndGva (trap : Trap) (ctx : HartContext) : Target × HartContext :=
  let (expectedHtval, ctx) := ctx.loadAndClear .expectedHtval
  if expectedHtval ≠ 0 ∧ trap.htval ≠ expectedHtval then (.unexpectedException, ctx)
  else
    let (gvaCheck, ctx) := ctx.loadAndClear .gvaCheck
    if gvaCheck ≠ 0 ∧ trap.gva = false then (.unexpectedException, ctx) else (.returnToHost, ctx)

/-- `check_excp` -/
def checkExcp (handler : Handler) (trap : Trap) (ctx : HartContext) : Target × HartContext :=
  if ctx.checkExcp = 0 then (.returnToHost, { ctx with checkExcp := 1 })
  else
    let (expectedMode, ctx) := ctx.loadAndClear .expectedMode
    if expectedMode ≠ 0 ∧ expectedMode ≠ handler.currentMode then (.unexpectedException, ctx)
    else
      let (expectedCause, ctx) := ctx.loadAndClear .expectedCause
      if trap.cause ≠ expectedCause then (.unexpectedException, ctx)
      else
        let (skipPcCheck, ctx) := ctx.loadAndClear .skipPcCheck
        if skipPcCheck ≠ 0 then (.returnToHost, ctx)
        else
          let (expectedPc, ctx) := ctx.loadAndClear .expectedPc
          let actualPc := ctx.actualPc
          let ctx := { ctx with actualPc := 0 }
          if expectedPc ≠ actualPc then (.unexpectedException, ctx)
          else
            let (expectedTval, ctx) := ctx.loadAndClear .expectedTval
            if expectedTval ≠ 0 ∧ trap.tval ≠ expectedTval then (.unexpectedException, ctx)
            else if handler = .s then (.returnToHost, ctx)
            else checkHtvalAndGva trap ctx

/-- `return_to_host`: the stored address is consumed, and the flags behind it. The walk over the triggers that the last
flag asks for does not touch the variables. -/
def returnToHost (handler : Handler) (trap : Trap) (ctx : HartContext) : Exit × HartContext :=
  let (returnPc, ctx) := ctx.loadAndClear .returnPc
  let (reExecute, ctx) := ctx.loadAndClear .reExecute
  let xepc := if reExecute ≠ 0 then trap.epc else returnPc
  if handler = .m then (.returned xepc, (ctx.loadAndClear .disableTriggers).2) else (.returned xepc, ctx)

/-- The jump for an exception that was not expected; with `skip_instruction_for_unexpected` the handler returns behind
the instruction. -/
def unexpectedException (skipInstructionForUnexpected : Bool) (trap : Trap) : Exit :=
  if skipInstructionForUnexpected then
    if IGNORED_EXCP_MAX_COUNT ≤ trap.excpIgnoredCount then .softEndTest
    else .returned (trap.epc + if trap.compressed then 2 else 4)
  else .testFailed

/-- The function numbers that `syscall_table` knows. -/
def functionNumbers (settings : Settings) : List Word :=
  [0xf0000001, 0xf0000002, 0xf0000003, 0xf0001001, 0xf0001002, 0xf0001003, 0xf0001004, 0xf0001005, 0xf0001006,
    0xf0001007, 0xf0001008, 0xf0002001] ++ if settings.cfiles then [0x70003001] else []

def Trap.isEcall (trap : Trap) : Bool := 8 ≤ trap.cause.toNat ∧ trap.cause.toNat ≤ 11

/-- The trap as the check sees it, with the cause in `t1`: for an ECALL of a machine mode test with paging,
`syscall_table` has left the bits of MPP there. -/
def Trap.atCheck (settings : Settings) (trap : Trap) : Trap :=
  if trap.isEcall ∧ settings.machinePaging then { trap with cause := 0x1800 } else trap

/-- The handler from `check_exception_label` on. -/
def checkException (settings : Settings) (handler : Handler) (trap : Trap) (ctx : HartContext) :
    Exit × HartContext :=
  match checkExcp handler trap { ctx with actualCause := trap.cause, actualPc := trap.epc } with
  | (.returnToHost, ctx) => returnToHost handler trap ctx
  | (.unexpectedException, ctx) => (unexpectedException settings.skipInstructionForUnexpected trap, ctx)

/-- The handler from `exception_handler_label` on. System calls leave the exception path before the check; an ECALL
with another value in `x31` comes back to it. -/
def exceptionPath (settings : Settings) (handler : Handler) (trap : Trap) (ctx : HartContext) : Exit × HartContext :=
  if trap.isEcall ∧ handler ≠ .m then (.panic, ctx)
  else if trap.isEcall ∧ trap.x31 ∈ functionNumbers settings then (.syscall, ctx)
  else checkException settings handler (trap.atCheck settings) ctx

/-! ### Runs of a test -/

/-- The arguments of `OS_SETUP_CHECK_EXCP`. -/
structure SetupCheckExcp where
  expectedCause : Word
  expectedPc : Word
  returnPc : Word
  expectedTval : Word := 0
  expectedHtval : Word := 0
  skipPcCheck : Word := 0
  gvaCheck : Word := 0
  expectedMode : Word := 0
  reExecute : Word := 0
  disableTriggersAfter : Word := 0

def SetupCheckExcp.value (setup : SetupCheckExcp) : Variable → Word
  | .expectedMode => setup.expectedMode
  | .expectedCause => setup.expectedCause
  | .skipPcCheck => setup.skipPcCheck
  | .expectedPc => setup.expectedPc
  | .expectedTval => setup.expectedTval
  | .expectedHtval => setup.expectedHtval
  | .gvaCheck => setup.gvaCheck
  | .returnPc => setup.returnPc
  | .reExecute => setup.reExecute
  | .disableTriggers => setup.disableTriggersAfter

inductive Event where
  | setupCheckExcp (setup : SetupCheckExcp)
  | skipCheckExcp (returnPc : Word)
  | exception (handler : Handler) (trap : Trap)

/-- The context after an event, unless the test has ended. -/
def step (settings : Settings) (ctx : HartContext) : Event → Option HartContext
  | .setupCheckExcp setup => some { ctx with vars := setup.value }
  | .skipCheckExcp returnPc => some { ctx with vars := Function.update ctx.vars .returnPc returnPc, checkExcp := 0 }
  | .exception handler trap =>
      match exceptionPath settings handler trap ctx with
      | (.returned _, ctx) | (.syscall, ctx) => some ctx
      | _ => none

def run (settings : Settings) (events : List Event) : Option HartContext :=
  events.foldlM (step settings) .initial

/-- An exception of the run and the context that the handler finds. -/
def Taken (settings : Settings) (events : List Event) (handler : Handler) (trap : Trap) (ctx : HartContext) : Prop :=
  ∃ before after, events = before ++ .exception handler trap :: after ∧ run settings before = some ctx

/-- No expectation is left. -/
structure Consumed (ctx : HartContext) : Prop where
  vars : ∀ var, ctx.vars var = 0
  checkExcp : ctx.checkExcp = 1

/-! ### What each way through the check clears -/

/-- The ways through `check_excp`, by the jump that leaves it. -/
inductive Path where
  | disabled | wrongMode | wrongCause | pcCheckSkipped | wrongPc | wrongTval | wrongHtval | wrongGva | accepted
  deriving DecidableEq, Repr

/-- The way that an exception takes, with the cause that the check finds. -/
def path (handler : Handler) (trap : Trap) (ctx : HartContext) : Path :=
  if ctx.checkExcp = 0 then .disabled
  else if ctx.vars .expectedMode ≠ 0 ∧ ctx.vars .expectedMode ≠ handler.currentMode then .wrongMode
  else if trap.cause ≠ ctx.vars .expectedCause then .wrongCause
  else if ctx.vars .skipPcCheck ≠ 0 then .pcCheckSkipped
  else if ctx.vars .expectedPc ≠ trap.epc then .wrongPc
  else if ctx.vars .expectedTval ≠ 0 ∧ trap.tval ≠ ctx.vars .expectedTval then .wrongTval
  else if handler = .s then .accepted
  else if ctx.vars .expectedHtval ≠ 0 ∧ trap.htval ≠ ctx.vars .expectedHtval then .wrongHtval
  else if ctx.vars .gvaCheck ≠ 0 ∧ trap.gva = false then .wrongGva
  else .accepted

namespace Path

def unexpected : Path → Bool
  | wrongMode | wrongCause | wrongPc | wrongTval | wrongHtval | wrongGva => true
  | disabled | pcCheckSkipped | accepted => false

/-- The variables that the check clears on the way. -/
def checked (handler : Handler) : Path → List Variable
  | disabled => []
  | wrongMode => [.expectedMode]
  | wrongCause => [.expectedMode, .expectedCause]
  | pcCheckSkipped => [.expectedMode, .expectedCause, .skipPcCheck]
  | wrongPc => [.expectedMode, .expectedCause, .skipPcCheck, .expectedPc]
  | wrongTval => [.expectedMode, .expectedCause, .skipPcCheck, .expectedPc, .expectedTval]
  | wrongHtval => [.expectedMode, .expectedCause, .skipPcCheck, .expectedPc, .expectedTval, .expectedHtval]
  | wrongGva => [.expectedMode, .expectedCause, .skipPcCheck, .expectedPc, .expectedTval, .expectedHtval, .gvaCheck]
  | accepted =>
      [.expectedMode, .expectedCause, .skipPcCheck, .expectedPc, .expectedTval] ++
        if handler = .s then [] else [.expectedHtval, .gvaCheck]

/-- The variables that are cleared before the return: only machine mode consumes the trigger flag, and an ignored
exception leaves the address. -/
def cleared (handler : Handler) (path : Path) : List Variable :=
  path.checked handler ++
    if path.unexpected then [] else [.returnPc, .reExecute] ++ if handler = .m then [.disableTriggers] else []

end Path

/-- Every variable that the handler does not clear on this way is zero already. -/
def LeavesNothing (settings : Settings) (handler : Handler) (trap : Trap) (ctx : HartContext) : Prop :=
  ∀ var ∉ (path handler (trap.atCheck settings) ctx).cleared handler, ctx.vars var = 0

/-! ### The check clears what its way says -/

/-- The variables of a list are cleared. -/
def clearVars (cleared : List Variable) (vars : Variable → Word) : Variable → Word :=
  fun var => if var ∈ cleared then 0 else vars var

theorem clearVars_append (first second : List Variable) (vars : Variable → Word) :
    clearVars second (clearVars first vars) = clearVars (first ++ second) vars := by
  funext var
  by_cases hfirst : var ∈ first <;> by_cases hsecond : var ∈ second <;> simp [clearVars, hfirst, hsecond]

theorem update_eq_clearVars (vars : Variable → Word) (var : Variable) :
    Function.update vars var 0 = clearVars [var] vars := by
  funext other
  by_cases heq : other = var
  · rw [heq, Function.update_self, clearVars, if_pos List.mem_cons_self]
  · rw [Function.update_of_ne heq, clearVars, if_neg (mt List.mem_singleton.mp heq)]

/-- The target of the check and the context after it, when the exception takes a way. -/
structure Checked (handler : Handler) (path : Path) (ctx : HartContext) (out : Target × HartContext) : Prop where
  target : out.1 = if path.unexpected then .unexpectedException else .returnToHost
  vars : out.2.vars = clearVars (path.checked handler) ctx.vars
  checkExcp : out.2.checkExcp = if ctx.checkExcp = 0 then 1 else ctx.checkExcp

theorem checkExcp_checked (handler : Handler) (trap : Trap) {ctx : HartContext} (hpc : ctx.actualPc = trap.epc) :
    Checked handler (path handler trap ctx) ctx (checkExcp handler trap ctx) := by
  rw [path]
  simp only [checkExcp, checkHtvalAndGva, HartContext.loadAndClear, Function.update_apply, reduceCtorEq, if_false, hpc]
  split_ifs with hdisabled hmode hcause hskip hpc htval hs hhtval hgva
  · exact ⟨rfl, rfl, (if_pos hdisabled).symm⟩
  all_goals refine ⟨rfl, ?_, (if_neg hdisabled).symm⟩
  all_goals simp only [update_eq_clearVars, clearVars_append, Path.checked]
  -- only the accepted way depends on the handler
  all_goals first
    | rfl
    | rw [if_pos hs]; rfl
    | rw [if_neg hs]; rfl

theorem returnToHost_vars (handler : Handler) (trap : Trap) (ctx : HartContext) :
    (returnToHost handler trap ctx).2.vars =
        clearVars ([.returnPc, .reExecute] ++ if handler = .m then [.disableTriggers] else []) ctx.vars ∧
      (returnToHost handler trap ctx).2.checkExcp = ctx.checkExcp := by
  simp only [returnToHost, HartContext.loadAndClear, update_eq_clearVars, clearVars_append]
  by_cases hm : handler = .m
  · rw [if_pos hm, if_pos hm]
    exact ⟨rfl, rfl⟩
  · rw [if_neg hm, if_neg hm]
    exact ⟨rfl, rfl⟩

/-- The variables after a check that returns, from the way the exception takes. -/
theorem checkException_returned {settings : Settings} {handler : Handler} {trap : Trap} {ctx ctx' : HartContext}
    {pc : Word} (h : checkException settings handler trap ctx = (.returned pc, ctx')) :
    ctx'.vars = clearVars ((path handler trap ctx).cleared handler) ctx.vars ∧
      ctx'.checkExcp = if ctx.checkExcp = 0 then 1 else ctx.checkExcp := by
  rw [checkException] at h
  have hchecked := checkExcp_checked handler trap
    (show HartContext.actualPc { ctx with actualCause := trap.cause, actualPc := trap.epc } = trap.epc from rfl)
  have hpath : path handler trap { ctx with actualCause := trap.cause, actualPc := trap.epc } = path handler trap ctx :=
    rfl
  rw [hpath] at hchecked
  rcases hcheck : checkExcp handler trap { ctx with actualCause := trap.cause, actualPc := trap.epc } with ⟨target, out⟩
  rw [hcheck] at h hchecked
  obtain ⟨htarget, hvars, henabled⟩ := hchecked
  cases hunexpected : (path handler trap ctx).unexpected with
  | true =>
      obtain rfl : target = .unexpectedException := htarget.trans (if_pos hunexpected)
      obtain rfl : out = ctx' := (Prod.mk.inj h).2
      rw [Path.cleared, hunexpected, if_pos rfl, List.append_nil]
      exact ⟨hvars, henabled⟩
  | false =>
      obtain rfl : target = .returnToHost := htarget.trans (if_neg (Bool.eq_false_iff.mp hunexpected))
      have hout : (returnToHost handler trap out).2 = ctx' := (congrArg Prod.snd h)
      rw [Path.cleared, hunexpected, if_neg Bool.false_ne_true, ← clearVars_append, ← hvars, ← hout, ← henabled]
      exact returnToHost_vars handler trap out

theorem checkException_ne_syscall {settings : Settings} {handler : Handler} {trap : Trap} {ctx ctx' : HartContext} :
    checkException settings handler trap ctx ≠ (.syscall, ctx') := by
  intro h
  rw [checkException] at h
  split at h
  · rw [returnToHost] at h
    split_ifs at h <;> cases h
  · rw [unexpectedException] at h
    split_ifs at h <;> cases h

theorem exceptionPath_returned {settings : Settings} {handler : Handler} {trap : Trap} {ctx ctx' : HartContext}
    {pc : Word} (h : exceptionPath settings handler trap ctx = (.returned pc, ctx')) :
    ctx'.vars = clearVars ((path handler (trap.atCheck settings) ctx).cleared handler) ctx.vars ∧
      ctx'.checkExcp = if ctx.checkExcp = 0 then 1 else ctx.checkExcp := by
  rw [exceptionPath] at h
  split_ifs at h with hpanic hsyscall
  · cases h
  · cases h
  · exact checkException_returned h

/-! ### Runs -/

variable {settings : Settings}

/-- The check is enabled or disabled. -/
def Enabled (ctx : HartContext) : Prop := ctx.checkExcp = 0 ∨ ctx.checkExcp = 1

theorem exceptionPath_syscall {handler : Handler} {trap : Trap} {ctx ctx' : HartContext}
    (h : exceptionPath settings handler trap ctx = (.syscall, ctx')) : ctx' = ctx := by
  rw [exceptionPath] at h
  split_ifs at h with hpanic hsyscall
  · cases h
  · exact (Prod.mk.inj h).2.symm
  · exact absurd h checkException_ne_syscall

theorem step_enabled {ctx ctx' : HartContext} {event : Event} (henabled : Enabled ctx)
    (h : step settings ctx event = some ctx') : Enabled ctx' := by
  cases event with
  | setupCheckExcp setup =>
      obtain rfl := Option.some.inj h
      exact henabled
  | skipCheckExcp returnPc =>
      obtain rfl := Option.some.inj h
      exact Or.inl rfl
  | exception handler trap =>
      rw [step] at h
      split at h
      · next pc out hexit =>
        obtain rfl := Option.some.inj h
        rw [Enabled, (exceptionPath_returned hexit).2]
        rcases henabled with hzero | hone
        · exact Or.inr (if_pos hzero)
        · rw [hone]
          exact Or.inr rfl
      · next out hexit =>
        obtain rfl := Option.some.inj h
        exact exceptionPath_syscall hexit ▸ henabled
      · cases h

theorem run_enabled {events : List Event} {ctx : HartContext}
    (h : run settings events = some ctx) : Enabled ctx := by
  have hfrom : ∀ (events : List Event) (start : HartContext), Enabled start →
      events.foldlM (step settings) start = some ctx → Enabled ctx := by
    intro events
    induction events with
    | nil =>
        intro start hstart h
        exact Option.some.inj h ▸ hstart
    | cons event rest ih =>
        intro start hstart h
        rw [List.foldlM_cons] at h
        obtain ⟨next, hnext, h⟩ := Option.bind_eq_some_iff.mp h
        exact ih next (step_enabled hstart hnext) h
  exact hfrom events _ (Or.inr rfl) h

/-- One exception that returns consumes every expectation exactly when its way through the check leaves nothing. -/
theorem exceptionPath_consumed_iff {handler : Handler} {trap : Trap} {ctx ctx' : HartContext} {pc : Word}
    (henabled : Enabled ctx)
    (h : exceptionPath settings handler trap ctx = (.returned pc, ctx')) :
    Consumed ctx' ↔ LeavesNothing settings handler trap ctx := by
  obtain ⟨hvars, hcheck⟩ := exceptionPath_returned h
  have hone : ctx'.checkExcp = 1 := by
    rw [hcheck]
    rcases henabled with hzero | hone
    · exact if_pos hzero
    · rw [hone]
      rfl
  constructor
  · intro hconsumed var hvar
    have hzero := hconsumed.vars var
    rwa [hvars, clearVars, if_neg hvar] at hzero
  · intro hleaves
    refine ⟨fun var => ?_, hone⟩
    rw [hvars, clearVars]
    split_ifs with hvar
    · rfl
    · exact hleaves var hvar

/-- Every exception of a run that returns to the test consumes all expectations exactly when each of them takes a way
that clears what is set. -/
theorem run_consumed_iff (settings : Settings) (events : List Event) :
    (∀ handler trap ctx, Taken settings events handler trap ctx → ∀ pc ctx',
        exceptionPath settings handler trap ctx = (.returned pc, ctx') → Consumed ctx') ↔
      ∀ handler trap ctx, Taken settings events handler trap ctx →
        (∃ pc ctx', exceptionPath settings handler trap ctx = (.returned pc, ctx')) →
          LeavesNothing settings handler trap ctx := by
  refine forall₃_congr fun handler trap ctx => forall_congr' fun htaken => ?_
  obtain ⟨before, after, -, hrun⟩ := htaken
  have henabled := run_enabled hrun
  constructor
  · rintro hconsumed ⟨pc, ctx', hexit⟩
    exact (exceptionPath_consumed_iff henabled hexit).mp (hconsumed pc ctx' hexit)
  · intro hleaves pc ctx' hexit
    exact (exceptionPath_consumed_iff henabled hexit).mpr (hleaves ⟨pc, ctx', hexit⟩)

/-- An illegal instruction is expected anywhere, with a trap value. -/
def skippedPcCheck : SetupCheckExcp where
  expectedCause := 2
  expectedPc := 0x1000
  returnPc := 0x1004
  expectedTval := 0x73
  skipPcCheck := 1

def illegalInstruction : Trap where
  cause := 2
  x31 := 0
  epc := 0x1000
  tval := 0x73
  htval := 0
  gva := false
  compressed := false
  excpIgnoredCount := 0

/-- The defaults. -/
def plain : Settings where
  skipInstructionForUnexpected := false
  cfiles := false
  machinePaging := false

/-- The context behind the macro. -/
def skippedContext : HartContext := { HartContext.initial with vars := skippedPcCheck.value }

/-- The jump behind the skipped check of the address leaves the expected address and the expected trap value. -/
theorem not_run_consumed :
    ¬ ∀ handler trap ctx, Taken plain [.setupCheckExcp skippedPcCheck, .exception .m illegalInstruction] handler trap ctx →
      ∀ pc ctx', exceptionPath plain handler trap ctx = (.returned pc, ctx') → Consumed ctx' := by
  intro hconsumed
  have htaken : Taken plain [.setupCheckExcp skippedPcCheck, .exception .m illegalInstruction] .m illegalInstruction
      skippedContext := ⟨[.setupCheckExcp skippedPcCheck], [], rfl, rfl⟩
  have hreturned : (exceptionPath plain .m illegalInstruction skippedContext).1 = .returned 0x1004 := by decide
  have hleft : (exceptionPath plain .m illegalInstruction skippedContext).2.vars .expectedTval = 0x73 := by decide
  have hzero : (exceptionPath plain .m illegalInstruction skippedContext).2.vars .expectedTval = 0 :=
    (hconsumed _ _ _ htaken _ _ (Prod.ext hreturned rfl)).vars .expectedTval
  exact absurd (hleft.symm.trans hzero) (by decide)

end Riescue.TrapHandler
