import Riescue.LegalizerFaithful
import Riescue.LibDataflow
import Riescue.TestPlanIds

/-! The legalized list as a program over values. Labels neither read nor write values, so each pass is described by the
instructions alone: the first one puts the loads in front of the instructions it keeps, the second one the casts, and
both number what they insert. -/

namespace Riescue.Legalizer
open Fallible Dataflow
open TestPlan (IdKind)
variable {Ty : Type}

/-! ### Values -/

/-- The value that an operand reads, with the type it takes; a literal register is no value. -/
def Operand.read (src : Operand Ty) : Option (String × Ty) :=
  (src.registerVal.filter fun val => !isLiteralRegister val).map fun val => (val, src.type)

def Op.reads (o : Op Ty) : List (String × Ty) := o.source.filterMap Operand.read

/-- The name of the value that an instruction writes: the register allocator takes the id of the instruction when its
destination is a hard-coded register. -/
def Op.valueName (o : Op Ty) (dest : Operand Ty) : String :=
  match dest.val with
  | .str val => val
  | _ => o.instructionId

def Op.writes (o : Op Ty) : List (String × Ty) :=
  o.destination.toList.map fun dest => (o.valueName dest, dest.type)

namespace Instruction

def reads : Instruction Ty → List (String × Ty)
  | .label _ => []
  | .op o => o.reads

def writes : Instruction Ty → List (String × Ty)
  | .label _ => []
  | .op o => o.writes

def op? : Instruction Ty → Option (Op Ty)
  | .label _ => none
  | .op o => some o

end Instruction

theorem erases_labels : Erases Instruction.reads Instruction.writes Op.reads Op.writes
    (Instruction.op? : Instruction Ty → Option (Op Ty)) where
  none := by
    rintro (l | o) h
    · exact ⟨rfl, rfl⟩
    · cases h
  some := by
    rintro (l | o) kept h
    · cases h
    · obtain rfl := Option.some.inj h
      exact ⟨rfl, rfl⟩

theorem read_eq_some {src : Operand Ty} {read : String × Ty} :
    src.read = some read ↔
      src.registerVal = some read.1 ∧ isLiteralRegister read.1 = false ∧ src.type = read.2 := by
  simp [Operand.read, Option.filter_eq_some_iff, Prod.ext_iff, and_assoc]

theorem mem_reads {o : Op Ty} {read : String × Ty} : read ∈ o.reads ↔
    ∃ src ∈ o.source, src.registerVal = some read.1 ∧ isLiteralRegister read.1 = false ∧ src.type = read.2 := by
  simp only [Op.reads, List.mem_filterMap, read_eq_some]

theorem mem_writes {o : Op Ty} {write : String × Ty} : write ∈ o.writes ↔
    ∃ dest, o.destination = some dest ∧ (o.valueName dest, dest.type) = write := by
  simp [Op.writes]

/-- The instructions of a list, without the labels. -/
def ops (emitted : List (Emitted Ty)) : List (Op Ty) := emitted.filterMap fun entry => entry.instruction.op?

@[simp] theorem ops_append (emitted emitted' : List (Emitted Ty)) : ops (emitted ++ emitted') = ops emitted ++ ops emitted' :=
  List.filterMap_append

@[simp] theorem ops_op (origin : Origin) (o : Op Ty) : ops [⟨origin, .op o⟩] = [o] := rfl

@[simp] theorem ops_label (origin : Origin) (l : Label) : ops ([⟨origin, .label l⟩] : List (Emitted Ty)) = [] := rfl

@[simp] theorem ops_map (origin : Origin) (program : List (Op Ty)) :
    ops (program.map fun o => ⟨origin, .op o⟩) = program := by
  simp [ops, List.filterMap_map, Instruction.op?]

theorem mem_ops {emitted : List (Emitted Ty)} {o : Op Ty} : o ∈ ops emitted ↔ ∃ entry ∈ emitted, entry.instruction = .op o := by
  rw [ops, List.mem_filterMap]
  refine exists_congr fun entry => and_congr_right fun _ => ?_
  cases hentry : entry.instruction <;> simp [Instruction.op?]

theorem wellFormed_iff_ops {emitted : List (Emitted Ty)} :
    WellFormed Instruction.reads Instruction.writes (emitted.map Emitted.instruction) ↔
      WellFormed Op.reads Op.writes (ops emitted) := by
  rw [erases_labels.wellFormed_iff, List.filterMap_map]
  rfl

/-! ### The first pass -/

/-- The values that an instruction needs a load for. -/
def Op.loads (o : Op Ty) (resolvedIds : List String) : List String := o.source.filterMap (Operand.unresolved resolvedIds)

/-- The instructions that the first pass keeps, each with the ids that are resolved there: one that needs a load is
dropped behind a plain label. -/
def keptOps (resolvedIds : List String) (behindPlain : Bool) : List (Instruction Ty) → List (List String × Op Ty)
  | [] => []
  | .label l :: rest => keptOps (l.instructionId :: resolvedIds) (!l.namedFaultLabel) rest
  | .op o :: rest =>
      let resolvedIds := o.instructionId :: resolvedIds
      if behindPlain && !(o.loads resolvedIds).isEmpty then keptOps resolvedIds false rest
      else (resolvedIds, o) :: keptOps resolvedIds false rest

/-- A load of a value. -/
structure LoadOf (val : String) (li : Op Ty) : Prop where
  reads : li.reads = []
  destination : ∃ dest, li.destination = some dest ∧ dest.val = .str val
  instructionId : li.instructionId = val

/-- The first pass on the instructions it keeps: a load for every operand that needs one. -/
inductive Filled : List (List String × Op Ty) → List (Op Ty) → Prop where
  | nil : Filled [] []
  | cons {ids : List String} {o : Op Ty} {kept lis program}
      (hlis : List.Forall₂ LoadOf (o.loads ids) lis) (hrest : Filled kept program) :
      Filled ((ids, o) :: kept) (lis ++ o :: program)

theorem loadValue_loadOf {ctx ctx' : LoweringContext Ty} {val : String} {emitted : Emitted Ty}
    (h : loadValue ctx val = .ok (emitted, ctx')) :
    ctx'.valueCount = ctx.valueCount ∧ ∃ li, emitted = ⟨.li, .op li⟩ ∧ LoadOf val li := by
  obtain ⟨⟨li, ctx1⟩, hload, h⟩ := bind_ok h
  have hsource := (loadImmediate_spec hload).2.2
  have hcount : ctx1.valueCount = ctx.valueCount := by
    unfold loadImmediate at hload
    dsimp only at hload
    split at hload
    · obtain ⟨-, rfl⟩ := Prod.mk.inj (Except.ok.inj hload)
      rfl
    · cases hload
  dsimp only at h
  split at h
  · cases h
  · obtain ⟨rfl, rfl⟩ := Prod.mk.inj (Except.ok.inj h)
    refine ⟨hcount, _, rfl, List.eq_nil_iff_forall_not_mem.mpr fun read hread => ?_, ⟨_, rfl, rfl⟩, rfl⟩
    obtain ⟨src, hsrc, hval, -⟩ := mem_reads.mp hread
    rw [hsource src hsrc] at hval
    cases hval

theorem resolveSources_loads {resolvedIds : List String} {source : List (Operand Ty)} {ctx ctx' : LoweringContext Ty}
    {lis : List (Emitted Ty)} (h : resolveSources resolvedIds source ctx = .ok (lis, ctx')) :
    ctx'.valueCount = ctx.valueCount ∧ ∃ program : List (Op Ty), lis = program.map (fun li => ⟨.li, .op li⟩) ∧
      List.Forall₂ LoadOf (source.filterMap (Operand.unresolved resolvedIds)) program := by
  induction source generalizing ctx lis with
  | nil =>
      obtain ⟨rfl, rfl⟩ := Prod.mk.inj (Except.ok.inj h)
      exact ⟨rfl, [], rfl, .nil⟩
  | cons src source ih =>
      rw [resolveSources] at h
      cases hval : src.unresolved resolvedIds with
      | none =>
          rw [hval] at h
          rw [List.filterMap_cons_none hval]
          exact ih h
      | some val =>
          rw [hval] at h
          obtain ⟨⟨li, ctx1⟩, hload, h⟩ := bind_ok h
          obtain ⟨⟨rest, ctx2⟩, hrest, h⟩ := bind_ok h
          obtain ⟨rfl, rfl⟩ := Prod.mk.inj (Except.ok.inj h)
          obtain ⟨hcount, li, rfl, hli⟩ := loadValue_loadOf hload
          obtain ⟨hcount', program, rfl, hprogram⟩ := ih hrest
          rw [List.filterMap_cons_some hval]
          exact ⟨hcount'.trans hcount, li :: program, rfl, .cons hli hprogram⟩

/-- `instructions[i - 1]` is a plain label. -/
def behindPlainLabel : Option (Instruction Ty) → Bool
  | some (.label l) => !l.namedFaultLabel
  | _ => false

/-- The label in front of an instruction is the last entry of the list so far. -/
def EndsWith (previous : Option (Instruction Ty)) (acc : List (Emitted Ty)) : Prop :=
  ∀ l, previous = some (.label l) → acc.getLast? = some ⟨.given, .label l⟩

theorem endsWith_concat (instruction : Instruction Ty) (acc : List (Emitted Ty)) :
    EndsWith (some instruction) (acc ++ [⟨.given, instruction⟩]) := by
  intro l hl
  obtain rfl := Option.some.inj hl
  exact List.getLast?_concat

theorem endsWith_op (o : Op Ty) (acc : List (Emitted Ty)) : EndsWith (some (.op o)) acc := by
  intro l hl
  cases hl

/-- One turn of the first pass for an instruction: it is dropped, or emitted behind its loads. -/
theorem resolveLiLoop_op {ids : List String} {previous : Option (Instruction Ty)} {acc out : List (Emitted Ty)} {o : Op Ty}
    {rest : List (Instruction Ty)} {ctx ctx' : LoweringContext Ty} (hends : EndsWith previous acc)
    (h : resolveLiLoop ids previous acc (.op o :: rest) ctx = .ok (out, ctx')) :
    ∃ ctx1 : LoweringContext Ty, ctx1.valueCount = ctx.valueCount ∧
      if behindPlainLabel previous && !(o.loads (o.instructionId :: ids)).isEmpty then
        resolveLiLoop (o.instructionId :: ids) (some (.op o)) acc rest ctx1 = .ok (out, ctx')
      else ∃ lis acc', List.Forall₂ LoadOf (o.loads (o.instructionId :: ids)) lis ∧ ops acc' = ops acc ++ lis ++ [o] ∧
        resolveLiLoop (o.instructionId :: ids) (some (.op o)) acc' rest ctx1 = .ok (out, ctx') := by
  rw [resolveLiLoop] at h
  split_ifs at h
  obtain ⟨⟨lis, ctx1⟩, hsources, h⟩ := bind_ok h
  obtain ⟨hcount, program, rfl, hprogram⟩ := resolveSources_loads hsources
  refine ⟨ctx1, hcount, ?_⟩
  have hprogram : List.Forall₂ LoadOf (o.loads (o.instructionId :: ids)) program := hprogram
  generalize o.loads (o.instructionId :: ids) = vals at hprogram ⊢
  cases hprogram with
  | nil =>
      rw [List.isEmpty_nil, Bool.not_true, Bool.and_false, if_neg Bool.false_ne_true]
      refine ⟨[], acc ++ [] ++ [⟨.given, .op o⟩], .nil, by simp, ?_⟩
      rcases previous with _ | (_ | _) <;> exact h
  | @cons _ li _ lis hli hlis =>
      rw [List.isEmpty_cons, Bool.not_false, Bool.and_true]
      rcases previous with _ | l | o'
      · exact ⟨_, _, .cons hli hlis, by rw [ops_append, ops_append, ops_map, ops_op], h⟩
      · rw [List.map_cons] at h
        dsimp only at h
        cases hplain : l.namedFaultLabel with
        | false =>
            rw [if_pos hplain] at h
            rw [if_pos (by rw [behindPlainLabel, hplain, Bool.not_false])]
            exact h
        | true =>
            rw [if_neg (by rw [hplain]; decide), hends l rfl] at h
            rw [if_neg (by rw [behindPlainLabel, hplain]; decide)]
            refine ⟨li :: lis, _, .cons hli hlis, ?_, h⟩
            obtain ⟨acc, rfl⟩ := List.getLast?_eq_some_iff.mp (hends l rfl)
            have hlis : ops (⟨.li, .op li⟩ :: lis.map fun li => ⟨.li, .op li⟩) = li :: lis := ops_map .li (li :: lis)
            rw [List.dropLast_concat, ops_append, ops_append, ops_append, hlis, ops_append, ops_label, ops_op,
              List.append_nil, List.append_nil]
      · exact ⟨_, _, .cons hli hlis, by rw [ops_append, ops_append, ops_map, ops_op], h⟩

theorem resolveLiLoop_label {ids : List String} {previous : Option (Instruction Ty)} {acc out : List (Emitted Ty)} {l : Label}
    {rest : List (Instruction Ty)} {ctx ctx' : LoweringContext Ty}
    (h : resolveLiLoop ids previous acc (.label l :: rest) ctx = .ok (out, ctx')) :
    resolveLiLoop (l.instructionId :: ids) (some (.label l)) (acc ++ [⟨.given, .label l⟩]) rest ctx = .ok (out, ctx') := by
  rw [resolveLiLoop] at h
  split_ifs at h
  obtain ⟨⟨lis, ctx1⟩, hsources, h⟩ := bind_ok h
  obtain ⟨rfl, rfl⟩ := Prod.mk.inj (Except.ok.inj hsources)
  dsimp only at h
  rw [List.append_nil] at h
  rcases previous with _ | (_ | _) <;> exact h

/-- The first pass emits the program of the instructions it keeps. -/
theorem resolveLiLoop_filled {rest : List (Instruction Ty)} {ids : List String} {previous : Option (Instruction Ty)}
    {acc out : List (Emitted Ty)} {ctx ctx' : LoweringContext Ty} (hends : EndsWith previous acc)
    (h : resolveLiLoop ids previous acc rest ctx = .ok (out, ctx')) :
    ctx'.valueCount = ctx.valueCount ∧
      ∃ program, ops out = ops acc ++ program ∧ Filled (keptOps ids (behindPlainLabel previous) rest) program := by
  induction rest generalizing ids previous acc ctx with
  | nil =>
      obtain ⟨rfl, rfl⟩ := Prod.mk.inj (Except.ok.inj h)
      exact ⟨rfl, [], (List.append_nil _).symm, .nil⟩
  | cons instruction rest ih =>
      cases instruction with
      | label l =>
          obtain ⟨hcount, program, hops, hfilled⟩ := ih (endsWith_concat _ acc) (resolveLiLoop_label h)
          exact ⟨hcount, program, by rw [hops, ops_append, ops_label, List.append_nil], hfilled⟩
      | op o =>
          obtain ⟨ctx1, hcount1, hturn⟩ := resolveLiLoop_op hends h
          rw [keptOps]
          split_ifs at hturn with hdropped
          · obtain ⟨hcount, program, hops, hfilled⟩ := ih (endsWith_op o _) hturn
            rw [if_pos hdropped]
            exact ⟨hcount.trans hcount1, program, hops, hfilled⟩
          · obtain ⟨lis, acc', hlis, hacc, hturn⟩ := hturn
            obtain ⟨hcount, program, hops, hfilled⟩ := ih (endsWith_op o _) hturn
            rw [if_neg hdropped]
            refine ⟨hcount.trans hcount1, lis ++ o :: program, ?_, .cons hlis hfilled⟩
            rw [hops, hacc]
            simp

theorem resolveLiImmediates_filled {instructions : List (Instruction Ty)} {ctx ctx' : LoweringContext Ty}
    {emitted : List (Emitted Ty)} (h : resolveLiImmediates instructions ctx = .ok (emitted, ctx')) :
    ctx'.valueCount = ctx.valueCount ∧ Filled (keptOps [] false instructions) (ops emitted) := by
  have hends : EndsWith none ([] : List (Emitted Ty)) := fun l hl => by cases hl
  obtain ⟨hcount, program, hops, hfilled⟩ := resolveLiLoop_filled hends h
  exact ⟨hcount, (hops : ops emitted = program) ▸ hfilled⟩

/-! ### The second pass -/

/-- What the legalizer relies on of `filter(destination_type, source_type, category=CAST)`: the casts have a
destination of the one type and a register operand `rs1` of the other, and no operand of a fresh object is filled in. -/
structure FiltersCasts (catalog : InstructionCatalog Ty) : Prop where
  destination : ∀ target source, ∀ cast ∈ catalog.casts target source, ∀ dest, cast.destination = some dest → dest.type = target
  rs1 : ∀ target source, ∀ cast ∈ catalog.casts target source, ∀ src ∈ cast.source, src.name = "rs1" →
    src.isRegister = true ∧ src.type = source
  unfilled : ∀ target source, ∀ cast ∈ catalog.casts target source, ∀ src ∈ cast.source, src.registerVal = none

/-- A cast that reads the destination of a producer and writes the value of a number. -/
structure CastOf (n : ℕ) (ty : Ty) (dest : Operand Ty) (cast : Op Ty) : Prop where
  writes : cast.writes = [(IdKind.value.id n, ty)]
  reads : cast.reads = ({ dest with isRegister := true } : Operand Ty).read.toList

section Casts
variable (destRegisters : String → Option (Instruction Ty))

/-- A source operand that the second pass leaves alone. -/
def NoCast (src : Operand Ty) : Prop :=
  ∀ val producer, src.registerVal = some val → destRegisters val = some producer →
    ∃ dest, producer.destination = some dest ∧ dest.type = src.type

/-- The casts for the source operands of one instruction, numbered from `n` on, and the operands after it. -/
inductive CastsOf : ℕ → List (Operand Ty) → List (Op Ty) → List (Operand Ty) → ℕ → Prop where
  | nil {n} : CastsOf n [] [] [] n
  | keep {n m src source casts source'} (hkeep : NoCast destRegisters src) (hrest : CastsOf n source casts source' m) :
      CastsOf n (src :: source) casts (src :: source') m
  | cast {n m : ℕ} {src : Operand Ty} {source casts source' val producer dest cast}
      (hval : src.registerVal = some val) (hproducer : destRegisters val = some producer)
      (hdest : producer.destination = some dest) (htype : dest.type ≠ src.type) (hcast : CastOf n src.type dest cast)
      (hrest : CastsOf (n + 1) source casts source' m) :
      CastsOf n (src :: source) (cast :: casts) ({ src with val := .str (IdKind.value.id n) } :: source') m

/-- The second pass on a program. -/
inductive Rewired : ℕ → List (Op Ty) → List (Op Ty) → ℕ → Prop where
  | nil {n} : Rewired n [] [] n
  | cons {n m k : ℕ} {o : Op Ty} {program casts source out} (hcasts : CastsOf destRegisters n o.source casts source m)
      (hrest : Rewired m program out k) : Rewired n (o :: program) (casts ++ { o with source := source } :: out) k

end Casts

theorem reads_setSourceVal {val : OperandVal} {source : List (Operand Ty)} {ty : Ty}
    (hrs1 : ∀ src ∈ source, src.name = "rs1" → src.isRegister = true ∧ src.type = ty)
    (hunfilled : ∀ src ∈ source, src.registerVal = none) {found : Operand Ty}
    (hfound : source.find? (fun src => src.name = "rs1") = some found) :
    (setSourceVal "rs1" val source).filterMap Operand.read =
      ({ found with type := ty, isRegister := true, val := val } : Operand Ty).read.toList := by
  induction source with
  | nil => cases hfound
  | cons src source ih =>
      have hnone : ∀ other ∈ source, other.read = none := fun other hother => by
        rw [Operand.read, hunfilled other (List.mem_cons_of_mem _ hother)]
        rfl
      rw [setSourceVal]
      by_cases hname : src.name = "rs1"
      · rw [List.find?_cons_of_pos (by simpa using hname)] at hfound
        obtain rfl := Option.some.inj hfound
        obtain ⟨hregister, htype⟩ := hrs1 src List.mem_cons_self hname
        have htail : source.filterMap Operand.read = [] := List.filterMap_eq_nil_iff.mpr hnone
        rw [if_pos hname, ← hregister, ← htype, List.filterMap_cons, htail]
        cases ({ src with val := val } : Operand Ty).read <;> rfl
      · rw [List.find?_cons_of_neg (by simpa using hname)] at hfound
        have hread : src.read = none := by
          rw [Operand.read, hunfilled src List.mem_cons_self]
          rfl
        rw [if_neg hname, List.filterMap_cons_none hread]
        exact ih (fun other hother => hrs1 other (List.mem_cons_of_mem _ hother))
          (fun other hother => hunfilled other (List.mem_cons_of_mem _ hother)) hfound

theorem rewireCast_castOf {catalog : InstructionCatalog Ty} (hcatalog : FiltersCasts catalog) {ty : Ty} {cast : Op Ty}
    {dest : Operand Ty} {ctx ctx' : LoweringContext Ty} {emitted : Emitted Ty} {valueId : String}
    (hcast : cast ∈ catalog.casts ty dest.type) (h : rewireCast cast dest ctx = .ok (emitted, valueId, ctx')) :
    ctx'.instructionCatalog = ctx.instructionCatalog ∧ ctx'.valueCount = ctx.valueCount + 1 ∧
      valueId = IdKind.value.id ctx.valueCount ∧
      ∃ o, emitted = ⟨.cast, .op o⟩ ∧ CastOf ctx.valueCount ty dest o := by
  unfold rewireCast at h
  dsimp only at h
  split at h
  · cases h
  · cases h
  · rename_i castDest rs1 hdest hrs1
    obtain ⟨rfl, hpair⟩ := Prod.mk.inj (Except.ok.inj h)
    obtain ⟨rfl, rfl⟩ := Prod.mk.inj hpair
    refine ⟨rfl, rfl, rfl, _, rfl, ?_, ?_⟩
    · rw [← hcatalog.destination ty dest.type cast hcast castDest hdest]
      rfl
    · refine (reads_setSourceVal (hcatalog.rs1 ty dest.type cast hcast) (hcatalog.unfilled ty dest.type cast hcast)
        hrs1).trans ?_
      rfl

theorem ops_faultLabel {entry : Emitted Ty} (h : entry.instruction.isFaultLabel = true) : ops [entry] = [] := by
  obtain ⟨origin, l | o⟩ := entry
  · rfl
  · cases h

section Casts
variable [DecidableEq Ty] {destRegisters : String → Option (Instruction Ty)}

theorem resolveCasts_castsOf {source source' : List (Operand Ty)} {ctx ctx' : LoweringContext Ty}
    {casts : List (Emitted Ty)} (hcatalog : FiltersCasts ctx.instructionCatalog)
    (h : resolveCasts destRegisters source ctx = .ok (casts, source', ctx')) :
    ctx'.instructionCatalog = ctx.instructionCatalog ∧
      ∃ program : List (Op Ty), casts = program.map (fun o => ⟨.cast, .op o⟩) ∧
        CastsOf destRegisters ctx.valueCount source program source' ctx'.valueCount := by
  induction source generalizing ctx casts source' with
  | nil =>
      obtain ⟨rfl, hpair⟩ := Prod.mk.inj (Except.ok.inj h)
      obtain ⟨rfl, rfl⟩ := Prod.mk.inj hpair
      exact ⟨rfl, [], rfl, .nil⟩
  | cons src source ih =>
      -- the operand stays as it is, and so do the casts of the others
      have hskip : NoCast destRegisters src →
          (resolveCasts destRegisters source ctx >>= fun rest => pure (rest.1, src :: rest.2.1, rest.2.2)) =
            .ok (casts, source', ctx') →
          ctx'.instructionCatalog = ctx.instructionCatalog ∧
            ∃ program : List (Op Ty), casts = program.map (fun o => ⟨.cast, .op o⟩) ∧
              CastsOf destRegisters ctx.valueCount (src :: source) program source' ctx'.valueCount := by
        intro hkeep h
        obtain ⟨⟨casts, source, ctx1⟩, hrest, h⟩ := bind_ok h
        obtain ⟨rfl, hpair⟩ := Prod.mk.inj (Except.ok.inj h)
        obtain ⟨rfl, rfl⟩ := Prod.mk.inj hpair
        obtain ⟨hsame, program, rfl, hcasts⟩ := ih hcatalog hrest
        exact ⟨hsame, program, rfl, .keep hkeep hcasts⟩
      rw [resolveCasts] at h
      cases hval : src.registerVal with
      | none =>
          rw [hval] at h
          exact hskip (fun val producer hval' => by rw [hval] at hval'; cases hval') h
      | some val =>
          rw [hval] at h
          dsimp only at h
          cases hproducer : destRegisters val with
          | none =>
              rw [hproducer] at h
              refine hskip (fun val' producer hval' hproducer' => ?_) h
              obtain rfl := Option.some.inj (hval.symm.trans hval')
              rw [hproducer] at hproducer'
              cases hproducer'
          | some producer =>
              rw [hproducer] at h
              dsimp only at h
              cases hdest : producer.destination with
              | none =>
                  rw [hdest] at h
                  cases h
              | some dest =>
                  rw [hdest] at h
                  dsimp only at h
                  split_ifs at h with htype
                  · refine hskip (fun val' producer' hval' hproducer' => ?_) h
                    obtain rfl := Option.some.inj (hval.symm.trans hval')
                    obtain rfl := Option.some.inj (hproducer.symm.trans hproducer')
                    exact ⟨dest, hdest, htype⟩
                  · split at h
                    · cases h
                    · rename_i cast rng hchoice
                      have hmem : cast ∈ ctx.instructionCatalog.casts src.type dest.type :=
                        RandNum.randomEntryIn_mem (by rw [hchoice])
                      obtain ⟨⟨emitted, valueId, ctx1⟩, hcast, h⟩ := bind_ok h
                      obtain ⟨⟨rest, source, ctx2⟩, hrest, h⟩ := bind_ok h
                      obtain ⟨rfl, hpair⟩ := Prod.mk.inj (Except.ok.inj h)
                      obtain ⟨rfl, rfl⟩ := Prod.mk.inj hpair
                      obtain ⟨hsame1, hcount1, rfl, o, rfl, hcastOf⟩ := rewireCast_castOf hcatalog hmem hcast
                      have hsame1 : ctx1.instructionCatalog = ctx.instructionCatalog := hsame1
                      have hcount1 : ctx1.valueCount = ctx.valueCount + 1 := hcount1
                      obtain ⟨hsame2, program, rfl, hcasts⟩ := ih (hsame1 ▸ hcatalog) hrest
                      rw [hcount1] at hcasts
                      exact ⟨hsame2.trans hsame1, o :: program, rfl, .cast hval hproducer hdest htype hcastOf hcasts⟩

theorem insertCastsLoop_rewired {held : Option (Emitted Ty)} {instructions out : List (Emitted Ty)}
    {ctx ctx' : LoweringContext Ty} (hcatalog : FiltersCasts ctx.instructionCatalog)
    (hheld : ops held.toList = [])
    (h : insertCastsLoop destRegisters held instructions ctx = .ok (out, ctx')) :
    Rewired destRegisters ctx.valueCount (ops instructions) (ops out) ctx'.valueCount := by
  induction instructions generalizing held ctx out with
  | nil =>
      obtain ⟨rfl, rfl⟩ := Prod.mk.inj (Except.ok.inj h)
      exact .nil
  | cons entry rest ih =>
      have hcons : ops (entry :: rest) = ops [entry] ++ ops rest := ops_append [entry] rest
      rw [insertCastsLoop] at h
      split_ifs at h with hfault
      · rw [hcons, ops_faultLabel hfault, List.nil_append]
        exact @ih (some entry) _ _ hcatalog (ops_faultLabel hfault) h
      · obtain ⟨⟨casts, source, ctx1⟩, hcasts, h⟩ := bind_ok h
        obtain ⟨⟨casted, ctx2⟩, hrest, h⟩ := bind_ok h
        obtain ⟨rfl, rfl⟩ := Prod.mk.inj (Except.ok.inj h)
        obtain ⟨hsame, program, rfl, hcastsOf⟩ := resolveCasts_castsOf hcatalog hcasts
        have hrewired := ih (hsame ▸ hcatalog) rfl hrest
        obtain ⟨origin, l | o⟩ := entry
        · have hcastsOf : CastsOf destRegisters ctx.valueCount [] program source ctx1.valueCount := hcastsOf
          generalize ctx.valueCount = n at hcastsOf ⊢
          generalize hm : ctx1.valueCount = m at hcastsOf
          cases hcastsOf
          rw [hm] at hrewired
          have hlabel : ops (⟨origin, .label l⟩ :: casted) = ops casted := rfl
          rw [hcons, ops_label, List.nil_append, ops_append, ops_append, hheld]
          exact hrewired
        · have hout : ops (⟨origin, .op { o with source := source }⟩ :: casted) =
              { o with source := source } :: ops casted := rfl
          rw [hcons, ops_op, List.singleton_append, ops_append, ops_append, ops_map, hheld, List.append_nil]
          exact .cons hcastsOf hrewired

theorem insertCasts_rewired {instructions out : List (Emitted Ty)} {ctx ctx' : LoweringContext Ty}
    (hcatalog : FiltersCasts ctx.instructionCatalog) (h : insertCasts instructions ctx = .ok (out, ctx')) :
    Rewired (destRegister instructions) ctx.valueCount (ops instructions) (ops out) ctx'.valueCount :=
  insertCastsLoop_rewired hcatalog rfl h

end Casts

end Riescue.Legalizer
