import Mathlib

/-! Register allocation of code that runs forwards. A program computes named values; a location puts every value in a
register. Where no instruction writes the register of a value that is still read behind it, the program on registers reads
what the program on values reads, whatever its instructions compute and wherever they jump ahead to. -/

namespace Allocation
variable {V R C I L Val σ : Type}

/-- What an operand reads: a value, a register that the program names itself, or nothing but a constant. -/
inductive Read (V R C : Type) where
  | value (v : V)
  | fixed (r : R)
  | const (c : C)
  deriving DecidableEq, Repr

/-- What an instruction gets for an operand. -/
inductive Arg (C Val : Type) where
  | value (a : Val)
  | const (c : C)
  deriving DecidableEq, Repr

/-- An instruction, by what tells its effect, what it reads, the value it defines, and the registers it may change besides. -/
structure Op (V R C I L : Type) where
  tag : I
  reads : List (Read V R C)
  dest : Option V
  clobbers : List R
  label : Option L

/-- The effect of an instruction: its result, the other registers it changes, and where it jumps ahead to. -/
structure Effect (R L Val σ : Type) where
  result : Val
  changed : R → Option Val
  state : σ
  target : Option L

abbrev Machine (R C I L Val σ : Type) := I → List (Arg C Val) → σ → Effect R L Val σ

/-- An instruction that was executed, with what it got. -/
abbrev Event (C I Val : Type) := I × List (Arg C Val)

/-- A jump ahead passes the instructions in front of its label. -/
def Op.passed [DecidableEq L] (op : Op V R C I L) (pending : Option L) : Bool :=
  pending.isSome && decide (op.label ≠ pending)

/-- The instructions change no registers but those that they clobber. -/
def Respects (m : Machine R C I L Val σ) (ops : List (Op V R C I L)) : Prop :=
  ∀ op ∈ ops, ∀ args s r, ((m op.tag args s).changed r).isSome → r ∈ op.clobbers

/-! ### The program on values -/

structure Virtual (V R Val σ : Type) where
  values : V → Option Val
  fixed : R → Val
  state : σ

namespace Virtual

def arg (s : Virtual V R Val σ) : Read V R C → Option (Arg C Val)
  | .value v => (s.values v).map .value
  | .fixed r => some (.value (s.fixed r))
  | .const c => some (.const c)

variable [DecidableEq V]

def next (s : Virtual V R Val σ) (op : Op V R C I L) (effect : Effect R L Val σ) : Virtual V R Val σ where
  values := op.dest.elim s.values fun v => Function.update s.values v (some effect.result)
  fixed := fun r => (effect.changed r).getD (s.fixed r)
  state := effect.state

/-- The events of a run; there is none if an instruction reads a value that was not defined. -/
def run [DecidableEq L] (m : Machine R C I L Val σ) :
    List (Op V R C I L) → Option L → Virtual V R Val σ → Option (List (Event C I Val))
  | [], _, _ => some []
  | op :: rest, pending, s =>
      if op.passed pending then run m rest pending s
      else
        (op.reads.mapM s.arg).bind fun args =>
          let effect := m op.tag args s.state
          (run m rest effect.target (s.next op effect)).map ((op.tag, args) :: ·)

end Virtual

/-! ### The program on registers -/

structure Located (R Val σ : Type) where
  regs : R → Val
  state : σ

namespace Located

def arg (loc : V → R) (s : Located R Val σ) : Read V R C → Arg C Val
  | .value v => .value (s.regs (loc v))
  | .fixed r => .value (s.regs r)
  | .const c => .const c

variable [DecidableEq R]

/-- The other registers change before the result is written. -/
def next (s : Located R Val σ) (dest : Option R) (effect : Effect R L Val σ) : Located R Val σ where
  regs :=
    let changed := fun r => (effect.changed r).getD (s.regs r)
    dest.elim changed fun r => Function.update changed r effect.result
  state := effect.state

def run [DecidableEq L] (m : Machine R C I L Val σ) (loc : V → R) :
    List (Op V R C I L) → Option L → Located R Val σ → List (Event C I Val)
  | [], _, _ => []
  | op :: rest, pending, s =>
      if op.passed pending then run m loc rest pending s
      else
        let args := op.reads.map (s.arg loc)
        let effect := m op.tag args s.state
        (op.tag, args) :: run m loc rest effect.target (s.next (op.dest.map loc) effect)

end Located

/-! ### Locations that keep what is read -/

/-- The values that are defined, and the operands that are read. -/
def defs (ops : List (Op V R C I L)) : List V := ops.filterMap Op.dest

def reads (ops : List (Op V R C I L)) : List (Read V R C) := ops.flatMap Op.reads

/-- No register is written between the definition of the value in it and a read of that value. -/
structure Kept (loc : V → R) (ops : List (Op V R C I L)) : Prop where
  apart : ∀ before op after, ops = before ++ op :: after → ∀ w, op.dest = some w → ∀ v ∈ defs before, v ≠ w →
    .value v ∈ reads after → loc v ≠ loc w
  unclobbered : ∀ before op after, ops = before ++ op :: after → ∀ v ∈ defs before, .value v ∈ reads after →
    op.dest ≠ some v → loc v ∉ op.clobbers
  fixed : ∀ r, .fixed r ∈ reads ops → ∀ v ∈ defs ops, loc v ≠ r

/-- Once `before` has run, the registers hold the values that `after` reads. -/
structure Agrees (loc : V → R) (before after : List (Op V R C I L)) (s : Virtual V R Val σ) (t : Located R Val σ) : Prop where
  state : t.state = s.state
  defined : ∀ v a, s.values v = some a → v ∈ defs before
  value : ∀ v a, s.values v = some a → .value v ∈ reads after → t.regs (loc v) = a
  fixed : ∀ r, .fixed r ∈ reads after → t.regs r = s.fixed r

theorem defs_concat (before : List (Op V R C I L)) (op : Op V R C I L) :
    defs (before ++ [op]) = defs before ++ op.dest.toList := by
  rw [defs, List.filterMap_append, List.filterMap_cons, List.filterMap_nil]
  cases op.dest <;> rfl

theorem reads_cons (op : Op V R C I L) (after : List (Op V R C I L)) : reads (op :: after) = op.reads ++ reads after :=
  List.flatMap_cons

theorem mem_defs_concat {before : List (Op V R C I L)} {op : Op V R C I L} {v : V} :
    v ∈ defs (before ++ [op]) ↔ v ∈ defs before ∨ op.dest = some v := by
  rw [defs_concat, List.mem_append, Option.mem_toList]

variable {loc : V → R} {before after : List (Op V R C I L)} {op : Op V R C I L} {s : Virtual V R Val σ} {t : Located R Val σ}

theorem Agrees.pass (h : Agrees loc before (op :: after) s t) : Agrees loc (before ++ [op]) after s t where
  state := h.state
  defined := fun v a hv => mem_defs_concat.mpr (.inl (h.defined v a hv))
  value := fun v a hv hread => h.value v a hv (reads_cons op after ▸ List.mem_append_right _ hread)
  fixed := fun r hread => h.fixed r (reads_cons op after ▸ List.mem_append_right _ hread)

/-- An operand of the next instruction. -/
theorem Agrees.arg (h : Agrees loc before (op :: after) s t) {read : Read V R C} (hread : read ∈ op.reads) {a : Arg C Val}
    (ha : s.arg read = some a) : t.arg loc read = a := by
  have hmem : read ∈ reads (op :: after) := reads_cons op after ▸ List.mem_append_left _ hread
  cases read with
  | value v =>
      obtain ⟨x, hx, rfl⟩ := Option.map_eq_some_iff.mp ha
      exact congrArg Arg.value (h.value v x hx hmem)
  | fixed r =>
      rw [← Option.some.inj ha]
      exact congrArg Arg.value (h.fixed r hmem)
  | const c => exact Option.some.inj ha

theorem Agrees.args (h : Agrees loc before (op :: after) s t) {args : List (Arg C Val)}
    (hargs : op.reads.mapM s.arg = some args) : op.reads.map (t.arg loc) = args := by
  have hall : ∀ (some_reads : List (Read V R C)) (args : List (Arg C Val)), some_reads ⊆ op.reads →
      some_reads.mapM s.arg = some args → some_reads.map (t.arg loc) = args := by
    intro some_reads
    induction some_reads with
    | nil =>
        intro args _ hargs
        exact Option.some.inj hargs
    | cons read rest ih =>
        intro args hsubset hargs
        rw [List.mapM_cons] at hargs
        obtain ⟨a, ha, hargs⟩ := Option.bind_eq_some_iff.mp hargs
        obtain ⟨others, hothers, hargs⟩ := Option.bind_eq_some_iff.mp hargs
        obtain ⟨hread, hrest⟩ := List.cons_subset.mp hsubset
        rw [List.map_cons, h.arg hread ha, ih others hrest hothers]
        exact Option.some.inj hargs
  exact hall op.reads args (List.Subset.refl _) hargs

variable [DecidableEq V] [DecidableEq R]

theorem Agrees.next (h : Agrees loc before (op :: after) s t) (hkept : Kept loc (before ++ op :: after))
    (effect : Effect R L Val σ) (hrespects : ∀ r, (effect.changed r).isSome → r ∈ op.clobbers) :
    Agrees loc (before ++ [op]) after (s.next op effect) (t.next (op.dest.map loc) effect) := by
  have hchanged : ∀ {r}, r ∉ op.clobbers → effect.changed r = none := by
    intro r hr
    rw [← Option.not_isSome_iff_eq_none]
    exact fun hsome => hr (hrespects r hsome)
  refine ⟨rfl, fun v a hv => ?_, fun v a hv hread => ?_, fun r hread => ?_⟩
  · rw [mem_defs_concat]
    cases hdest : op.dest with
    | none =>
        rw [Virtual.next, hdest] at hv
        exact .inl (h.defined v a hv)
    | some w =>
        by_cases hvw : v = w
        · exact .inr (congrArg some hvw.symm)
        · rw [Virtual.next, hdest] at hv
          exact .inl (h.defined v a ((Function.update_of_ne hvw _ _).symm.trans hv))
  · have hmem : .value v ∈ reads (op :: after) := reads_cons op after ▸ List.mem_append_right _ hread
    cases hdest : op.dest with
    | none =>
        rw [Virtual.next, hdest] at hv
        have hclobber := hkept.unclobbered before op after rfl v (h.defined v a hv) hread
          (by rw [hdest]; exact (Option.some_ne_none v).symm)
        change (effect.changed (loc v)).getD (t.regs (loc v)) = a
        rw [hchanged hclobber]
        exact h.value v a hv hmem
    | some w =>
        rw [Virtual.next, hdest] at hv
        change Function.update s.values w (some effect.result) v = some a at hv
        change Function.update (fun r => (effect.changed r).getD (t.regs r)) (loc w) effect.result (loc v) = a
        by_cases hvw : v = w
        · rw [hvw, Function.update_self] at hv
          rw [hvw, Function.update_self]
          exact Option.some.inj hv
        · rw [Function.update_of_ne hvw] at hv
          have hdefined := h.defined v a hv
          have hclobber := hkept.unclobbered before op after rfl v hdefined hread
            (by rw [hdest]; exact fun heq => hvw (Option.some.inj heq).symm)
          rw [Function.update_of_ne (hkept.apart before op after rfl w hdest v hdefined hvw hread), hchanged hclobber]
          exact h.value v a hv hmem
  · have hmem : .fixed r ∈ reads (op :: after) := reads_cons op after ▸ List.mem_append_right _ hread
    have hprogram : .fixed r ∈ reads (before ++ op :: after) := by
      rw [reads, List.flatMap_append]
      exact List.mem_append_right _ hmem
    have hother : (t.next (op.dest.map loc) effect).regs r = (effect.changed r).getD (t.regs r) := by
      cases hdest : op.dest with
      | none => rfl
      | some w =>
          have hw : w ∈ defs (before ++ op :: after) := by
            rw [defs, List.filterMap_append, List.filterMap_cons, hdest]
            exact List.mem_append_right _ List.mem_cons_self
          exact Function.update_of_ne (hkept.fixed r hprogram w hw).symm effect.result fun r => (effect.changed r).getD (t.regs r)
    rw [hother, h.fixed r hmem]
    rfl

variable [DecidableEq L]

theorem Agrees.run {m : Machine R C I L Val σ} (h : Agrees loc before after s t) (hkept : Kept loc (before ++ after))
    (hrespects : Respects m (before ++ after)) {pending : Option L} {events : List (Event C I Val)}
    (hrun : s.run m after pending = some events) : t.run m loc after pending = events := by
  induction after generalizing before s t pending events with
  | nil => exact Option.some.inj hrun
  | cons op after ih =>
      have hsplit : before ++ op :: after = before ++ [op] ++ after := List.append_cons before op after
      rw [Virtual.run] at hrun
      rw [Located.run]
      by_cases hpassed : op.passed pending = true
      · rw [if_pos hpassed] at hrun ⊢
        exact ih h.pass (hsplit ▸ hkept) (hsplit ▸ hrespects) hrun
      · rw [if_neg hpassed] at hrun ⊢
        obtain ⟨args, hargs, hrun⟩ := Option.bind_eq_some_iff.mp hrun
        obtain ⟨rest, hrest, rfl⟩ := Option.map_eq_some_iff.mp hrun
        have hchanged := hrespects op (List.mem_append_right _ List.mem_cons_self) args s.state
        have hnext := h.next hkept (m op.tag args s.state) hchanged
        rw [h.args hargs, h.state]
        exact congrArg _ (ih hnext (hsplit ▸ hkept) (hsplit ▸ hrespects) hrest)

/-- A program reads from registers what it reads from values. -/
theorem run_eq {m : Machine R C I L Val σ} {ops : List (Op V R C I L)} (hkept : Kept loc ops) (hrespects : Respects m ops)
    (hvalues : ∀ v, s.values v = none) (hfixed : ∀ r, .fixed r ∈ reads ops → t.regs r = s.fixed r)
    (hstate : t.state = s.state) {pending : Option L} {events : List (Event C I Val)}
    (hrun : s.run m ops pending = some events) : t.run m loc ops pending = events := by
  have hundefined : ∀ v a, s.values v ≠ some a := fun v a hv => Option.some_ne_none a (hv.symm.trans (hvalues v))
  have hagrees : Agrees loc [] ops s t :=
    { state := hstate
      defined := fun v a hv => absurd hv (hundefined v a)
      value := fun v a hv => absurd hv (hundefined v a)
      fixed := hfixed }
  exact hagrees.run hkept hrespects hrun

end Allocation
