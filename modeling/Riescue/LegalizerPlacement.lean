import Riescue.Legalizer
import Riescue.LibExcept

/-! What each pass of the legalizer does when it succeeds, as a relation between its input and its
output. The contents of the inserted instructions depend on the random choices; where they go does not. -/

namespace Riescue.Legalizer
open Fallible
variable {Ty : Type}

/-! ### The first pass -/

/-- An emitted `li` defines a value that the instruction reads and nothing has defined. -/
structure LiFor (catalog : InstructionCatalog Ty) (resolvedIds : List String)
    (source : List (Operand Ty)) (emitted : Emitted Ty) : Prop where
  origin : emitted.origin = .li
  isOp : emitted.instruction.isFaultLabel = false
  reads : ∀ src ∈ emitted.instruction.source, src.registerVal = none
  value : ∃ src ∈ source, src.unresolved resolvedIds = some emitted.instruction.instructionId
  type : emitted.instruction.destination.map Operand.type = catalog.li.destination.map Operand.type
  isSome : emitted.instruction.destination.isSome

/-- The `li` instructions of one instruction: one for each value that needs it. -/
structure Loads (catalog : InstructionCatalog Ty) (resolvedIds : List String)
    (source : List (Operand Ty)) (lis : List (Emitted Ty)) : Prop where
  each : ∀ emitted ∈ lis, LiFor catalog resolvedIds source emitted
  all : ∀ src ∈ source, ∀ val, src.unresolved resolvedIds = some val →
    ∃ emitted ∈ lis, emitted.instruction.instructionId = val

/-- The instruction reads a register that no instruction so far defines. -/
def NeedsLi (resolvedIds : List String) (instruction : Instruction Ty) : Prop :=
  ∃ src ∈ instruction.source, ∃ val, src.unresolved resolvedIds = some val

theorem Loads.eq_nil_iff {catalog : InstructionCatalog Ty} {resolvedIds : List String}
    {instruction : Instruction Ty} {lis : List (Emitted Ty)}
    (h : Loads catalog resolvedIds instruction.source lis) :
    lis = [] ↔ ¬NeedsLi resolvedIds instruction := by
  constructor
  · rintro rfl ⟨src, hsrc, val, hval⟩
    obtain ⟨emitted, hemitted, -⟩ := h.all src hsrc val hval
    exact List.not_mem_nil hemitted
  · intro hnone
    refine List.eq_nil_iff_forall_not_mem.mpr fun emitted hemitted => hnone ?_
    obtain ⟨src, hsrc, hval⟩ := (h.each emitted hemitted).value
    exact ⟨src, hsrc, _, hval⟩

theorem mem_setSourceVal {name : String} {val : OperandVal} {source : List (Operand Ty)}
    {src : Operand Ty} (h : src ∈ setSourceVal name val source) :
    ∃ src' ∈ source, src.isRegister = src'.isRegister := by
  induction source with
  | nil => exact absurd h List.not_mem_nil
  | cons head source ih =>
      rw [setSourceVal] at h
      split_ifs at h
      · rcases List.mem_cons.mp h with rfl | h
        · exact ⟨head, List.mem_cons_self, rfl⟩
        · exact ⟨src, List.mem_cons_of_mem head h, rfl⟩
      · rcases List.mem_cons.mp h with rfl | h
        · exact ⟨src, List.mem_cons_self, rfl⟩
        · obtain ⟨src', hmem, hsame⟩ := ih h
          exact ⟨src', List.mem_cons_of_mem head hmem, hsame⟩

theorem registerVal_of_not_isRegister {src : Operand Ty} (h : src.isRegister = false) :
    src.registerVal = none := by
  simp [Operand.registerVal, h]

theorem loadImmediate_spec {ctx ctx' : LoweringContext Ty} {li : Op Ty}
    (h : loadImmediate ctx = .ok (li, ctx')) :
    ctx'.instructionCatalog = ctx.instructionCatalog ∧
      li.destination = ctx.instructionCatalog.li.destination ∧
      ∀ src ∈ li.source, src.registerVal = none := by
  unfold loadImmediate at h
  dsimp only at h
  split at h
  · obtain ⟨rfl, rfl⟩ := Prod.mk.inj (Except.ok.inj h)
    refine ⟨rfl, rfl, fun src hsrc => ?_⟩
    obtain ⟨src', hmem, hsame⟩ := mem_setSourceVal hsrc
    exact registerVal_of_not_isRegister
      (hsame.trans (ctx.instructionCatalog.li_source src' hmem))
  · cases h

theorem loadValue_spec {ctx ctx' : LoweringContext Ty} {val : String} {emitted : Emitted Ty}
    (h : loadValue ctx val = .ok (emitted, ctx')) {resolvedIds : List String}
    {source : List (Operand Ty)} (hval : ∃ src ∈ source, src.unresolved resolvedIds = some val) :
    ctx'.instructionCatalog = ctx.instructionCatalog ∧
      emitted.instruction.instructionId = val ∧
      LiFor ctx.instructionCatalog resolvedIds source emitted := by
  obtain ⟨⟨li, ctx1⟩, hload, h⟩ := bind_ok h
  obtain ⟨hcatalog, hdestination, hsource⟩ := loadImmediate_spec hload
  dsimp only at h
  cases hdest : li.destination with
  | none =>
      rw [hdest] at h
      cases h
  | some liDest =>
      rw [hdest] at h
      obtain ⟨rfl, rfl⟩ := Prod.mk.inj (Except.ok.inj h)
      refine ⟨hcatalog, rfl, rfl, rfl, hsource, hval, ?_, rfl⟩
      rw [← hdestination, hdest]
      rfl

theorem LiFor.weaken {catalog : InstructionCatalog Ty} {resolvedIds : List String}
    {source : List (Operand Ty)} {emitted : Emitted Ty} (src : Operand Ty)
    (h : LiFor catalog resolvedIds source emitted) :
    LiFor catalog resolvedIds (src :: source) emitted := by
  obtain ⟨src', hmem, hval⟩ := h.value
  exact ⟨h.origin, h.isOp, h.reads, ⟨src', List.mem_cons_of_mem src hmem, hval⟩, h.type, h.isSome⟩

theorem resolveSources_spec {resolvedIds : List String} {source : List (Operand Ty)}
    {ctx ctx' : LoweringContext Ty} {lis : List (Emitted Ty)}
    (h : resolveSources resolvedIds source ctx = .ok (lis, ctx')) :
    ctx'.instructionCatalog = ctx.instructionCatalog ∧
      Loads ctx.instructionCatalog resolvedIds source lis := by
  induction source generalizing ctx lis with
  | nil =>
      obtain ⟨rfl, rfl⟩ := Prod.mk.inj (Except.ok.inj h)
      exact ⟨rfl, fun _ h => absurd h List.not_mem_nil, fun _ h => absurd h List.not_mem_nil⟩
  | cons src source ih =>
      rw [resolveSources] at h
      cases hval : src.unresolved resolvedIds with
      | none =>
          rw [hval] at h
          obtain ⟨hcatalog, hloads⟩ := ih h
          refine ⟨hcatalog, fun emitted hemitted => (hloads.each emitted hemitted).weaken src, ?_⟩
          intro other hother val hsome
          rcases List.mem_cons.mp hother with rfl | hother
          · rw [hval] at hsome
            cases hsome
          · exact hloads.all other hother val hsome
      | some val =>
          rw [hval] at h
          obtain ⟨⟨li, ctx1⟩, hload, h⟩ := bind_ok h
          obtain ⟨⟨rest, ctx2⟩, hrest, h⟩ := bind_ok h
          obtain ⟨rfl, rfl⟩ := Prod.mk.inj (Except.ok.inj h)
          obtain ⟨hcatalog1, hid, hli⟩ :=
            loadValue_spec hload ⟨src, List.mem_cons_self (l := source), hval⟩
          obtain ⟨hcatalog2, hloads⟩ := ih hrest
          rw [hcatalog1] at hcatalog2 hloads
          refine ⟨hcatalog2, fun emitted hemitted => ?_, fun other hother val' hsome => ?_⟩
          · rcases List.mem_cons.mp hemitted with rfl | hemitted
            · exact hli
            · exact (hloads.each emitted hemitted).weaken src
          · rcases List.mem_cons.mp hother with rfl | hother
            · exact ⟨li, List.mem_cons_self, hid.trans (Option.some.inj (hval.symm.trans hsome))⟩
            · obtain ⟨emitted, hmem, hid'⟩ := hloads.all other hother val' hsome
              exact ⟨emitted, List.mem_cons_of_mem li hmem, hid'⟩

/-- The first pass on the rest of the list, after the instructions of the given ids: the loads of an
instruction go in front of it, or in front of the label before it; after a plain label the instruction
is lost with its loads. -/
inductive Placed (catalog : InstructionCatalog Ty) :
    List String → List (Instruction Ty) → List (Emitted Ty) → Prop where
  | nil {ids} : Placed catalog ids [] []
  | op {ids} {o : Op Ty} {rest lis emitted}
      (hfresh : o.instructionId ∉ ids)
      (hloads : Loads catalog (o.instructionId :: ids) o.source lis)
      (hrest : Placed catalog (o.instructionId :: ids) rest emitted) :
      Placed catalog ids (.op o :: rest) (lis ++ ⟨.given, .op o⟩ :: emitted)
  | label {ids} {l : Label} {rest emitted}
      (hfresh : l.instructionId ∉ ids)
      (hnext : ∀ next after, rest = next :: after →
        ¬NeedsLi (next.instructionId :: l.instructionId :: ids) next)
      (hrest : Placed catalog (l.instructionId :: ids) rest emitted) :
      Placed catalog ids (.label l :: rest) (⟨.given, .label l⟩ :: emitted)
  | hoisted {ids} {l : Label} {o : Op Ty} {rest lis emitted}
      (hfresh : l.instructionId ∉ ids) (hfresh' : o.instructionId ∉ l.instructionId :: ids)
      (hfault : l.namedFaultLabel = true)
      (hneeds : NeedsLi (o.instructionId :: l.instructionId :: ids) (.op o))
      (hloads : Loads catalog (o.instructionId :: l.instructionId :: ids) o.source lis)
      (hrest : Placed catalog (o.instructionId :: l.instructionId :: ids) rest emitted) :
      Placed catalog ids (.label l :: .op o :: rest)
        (lis ++ ⟨.given, .label l⟩ :: ⟨.given, .op o⟩ :: emitted)
  | lost {ids} {l : Label} {o : Op Ty} {rest emitted}
      (hfresh : l.instructionId ∉ ids) (hfresh' : o.instructionId ∉ l.instructionId :: ids)
      (hplain : l.namedFaultLabel = false)
      (hneeds : NeedsLi (o.instructionId :: l.instructionId :: ids) (.op o))
      (hrest : Placed catalog (o.instructionId :: l.instructionId :: ids) rest emitted) :
      Placed catalog ids (.label l :: .op o :: rest) (⟨.given, .label l⟩ :: emitted)

theorem not_needsLi_label {resolvedIds : List String} (l : Label) :
    ¬NeedsLi resolvedIds (.label l : Instruction Ty) := by
  rintro ⟨src, hsrc, -⟩
  exact List.not_mem_nil hsrc

/-- The loop of the first pass, with the label it has just emitted still in reach. -/
theorem resolveLiLoop_placed (rest : List (Instruction Ty)) :
    (∀ ids previous acc ctx out ctx', (∀ l, previous ≠ some (.label l)) →
      resolveLiLoop ids previous acc rest ctx = .ok (out, ctx') →
      ctx'.instructionCatalog = ctx.instructionCatalog ∧
        ∃ emitted, out = acc ++ emitted ∧ Placed ctx.instructionCatalog ids rest emitted) ∧
    (∀ (ids : List String) (l : Label) acc ctx out ctx', l.instructionId ∉ ids →
      resolveLiLoop (l.instructionId :: ids) (some (.label l)) (acc ++ [⟨.given, .label l⟩]) rest ctx =
        .ok (out, ctx') →
      ctx'.instructionCatalog = ctx.instructionCatalog ∧
        ∃ emitted, out = acc ++ emitted ∧
          Placed ctx.instructionCatalog ids (.label l :: rest) emitted) := by
  induction rest with
  | nil =>
      constructor
      · intro ids previous acc ctx out ctx' _ h
        obtain ⟨rfl, rfl⟩ := Prod.mk.inj (Except.ok.inj h)
        exact ⟨rfl, [], (List.append_nil _).symm, .nil⟩
      · intro ids l acc ctx out ctx' hfresh h
        obtain ⟨rfl, rfl⟩ := Prod.mk.inj (Except.ok.inj h)
        exact ⟨rfl, _, rfl, .label hfresh nofun .nil⟩
  | cons instruction rest ih =>
      obtain ⟨ihop, ihlabel⟩ := ih
      constructor
      · intro ids previous acc ctx out ctx' hprevious h
        rw [resolveLiLoop] at h
        split_ifs at h with hfresh
        obtain ⟨⟨lis, ctx1⟩, hsources, h⟩ := bind_ok h
        obtain ⟨hcatalog, hloads⟩ := resolveSources_spec hsources
        have h : resolveLiLoop (instruction.instructionId :: ids) (some instruction)
            (acc ++ lis ++ [⟨.given, instruction⟩]) rest ctx1 = .ok (out, ctx') := by
          dsimp only at h
          split at h
          · exact absurd rfl (hprevious _)
          · exact h
        cases instruction with
        | label l =>
            obtain rfl := hloads.eq_nil_iff.mpr (not_needsLi_label l)
            obtain ⟨hcatalog', emitted, hout, hplaced⟩ := ihlabel ids l _ ctx1 out ctx' hfresh h
            rw [hcatalog] at hcatalog' hplaced
            exact ⟨hcatalog', emitted, by rw [hout, List.append_nil], hplaced⟩
        | op o =>
            obtain ⟨hcatalog', emitted, hout, hplaced⟩ := ihop _ _ _ ctx1 out ctx' (by simp) h
            rw [hcatalog] at hcatalog' hplaced
            exact ⟨hcatalog', _, by simp [hout], .op hfresh hloads hplaced⟩
      · intro ids l acc ctx out ctx' hfresh h
        rw [resolveLiLoop] at h
        split_ifs at h with hfresh'
        obtain ⟨⟨lis, ctx1⟩, hsources, h⟩ := bind_ok h
        obtain ⟨hcatalog, hloads⟩ := resolveSources_spec hsources
        dsimp only at h
        cases instruction with
        | label l' =>
            obtain rfl := hloads.eq_nil_iff.mpr (not_needsLi_label l')
            obtain ⟨hcatalog', emitted, hout, hplaced⟩ := ihlabel _ l' _ ctx1 out ctx' hfresh' h
            rw [hcatalog] at hcatalog' hplaced
            refine ⟨hcatalog', _, by simp [hout], .label hfresh ?_ hplaced⟩
            intro next after heq
            obtain ⟨rfl, -⟩ := List.cons.inj heq
            exact not_needsLi_label l'
        | op o =>
            cases lis with
            | nil =>
                obtain ⟨hcatalog', emitted, hout, hplaced⟩ := ihop _ _ _ ctx1 out ctx' (by simp) h
                rw [hcatalog] at hcatalog' hplaced
                refine ⟨hcatalog', _, by simp [hout],
                  .label hfresh ?_ (.op hfresh' hloads hplaced)⟩
                intro next after heq
                obtain ⟨rfl, -⟩ := List.cons.inj heq
                exact hloads.eq_nil_iff.mp rfl
            | cons li lis =>
                have hneeds : NeedsLi (o.instructionId :: l.instructionId :: ids) (.op o) :=
                  not_not.mp fun hnot => List.cons_ne_nil li lis (hloads.eq_nil_iff.mpr hnot)
                dsimp only at h
                split_ifs at h with hplain
                · obtain ⟨hcatalog', emitted, hout, hplaced⟩ := ihop _ _ _ ctx1 out ctx' (by simp) h
                  rw [hcatalog] at hcatalog' hplaced
                  exact ⟨hcatalog', _, by simp [hout], .lost hfresh hfresh' hplain hneeds hplaced⟩
                · rw [List.getLast?_concat, List.dropLast_concat] at h
                  obtain ⟨hcatalog', emitted, hout, hplaced⟩ := ihop _ _ _ ctx1 out ctx' (by simp) h
                  rw [hcatalog] at hcatalog' hplaced
                  exact ⟨hcatalog', _, by simp [hout],
                    .hoisted hfresh hfresh' (by simpa using hplain) hneeds hloads hplaced⟩

theorem resolveLiImmediates_placed {instructions : List (Instruction Ty)}
    {ctx ctx' : LoweringContext Ty} {emitted : List (Emitted Ty)}
    (h : resolveLiImmediates instructions ctx = .ok (emitted, ctx')) :
    Placed ctx.instructionCatalog [] instructions emitted := by
  obtain ⟨-, _, hout, hplaced⟩ := (resolveLiLoop_placed instructions).1 _ _ _ _ _ _ (by simp) h
  rw [hout]
  exact hplaced

/-! ### The second pass -/

/-- A source operand reads a value whose producer has another type. -/
def NeedsCast (destRegisters : String → Option (Instruction Ty)) (source : List (Operand Ty)) : Prop :=
  ∃ src ∈ source, ∃ val producer producerDest, src.registerVal = some val ∧
    destRegisters val = some producer ∧ producer.destination = some producerDest ∧
    producerDest.type ≠ src.type

/-- The same operand object, whose value may have been assigned to. -/
def SameOperand (src src' : Operand Ty) : Prop := ∃ val, src' = { src with val := val }

/-- The same instruction object: only the values of its source operands may have changed. -/
def SameObject (given emitted : Instruction Ty) : Prop :=
  ∃ source, emitted = given.withSource source ∧ List.Forall₂ SameOperand given.source source

theorem SameObject.label {l : Label} {emitted : Instruction Ty} (h : SameObject (.label l) emitted) :
    emitted = .label l := h.choose_spec.1

theorem SameObject.op {o : Op Ty} {emitted : Instruction Ty} (h : SameObject (.op o) emitted) :
    ∃ o', emitted = .op o' := by
  obtain ⟨source, rfl, -⟩ := h
  exact ⟨_, rfl⟩

theorem sameObject_refl (instruction : Instruction Ty) : SameObject instruction instruction := by
  refine ⟨instruction.source, by cases instruction <;> rfl, ?_⟩
  exact List.forall₂_same.mpr fun src _ => ⟨src.val, rfl⟩

/-- What `_resolve_casts` returns for the source operands of one instruction. -/
structure Casts (destRegisters : String → Option (Instruction Ty)) (source : List (Operand Ty))
    (casts : List (Emitted Ty)) (source' : List (Operand Ty)) : Prop where
  origin : ∀ cast ∈ casts, cast.origin = .cast
  nil_iff : casts = [] ↔ ¬NeedsCast destRegisters source
  same : List.Forall₂ SameOperand source source'
  defined : ∀ src ∈ source, ∀ val producer, src.registerVal = some val →
    destRegisters val = some producer → producer.destination.isSome

theorem needsCast_cons {destRegisters : String → Option (Instruction Ty)} {src : Operand Ty}
    {source : List (Operand Ty)} :
    NeedsCast destRegisters (src :: source) ↔
      NeedsCast destRegisters [src] ∨ NeedsCast destRegisters source := by
  simp [NeedsCast]

/-- An operand that needs no cast leaves the casts of the others as they are. -/
theorem Casts.skip {destRegisters : String → Option (Instruction Ty)} {src : Operand Ty}
    {source source' : List (Operand Ty)} {casts : List (Emitted Ty)}
    (h : Casts destRegisters source casts source') (hskip : ¬NeedsCast destRegisters [src])
    (hdefined : ∀ val producer, src.registerVal = some val → destRegisters val = some producer →
      producer.destination.isSome) :
    Casts destRegisters (src :: source) casts (src :: source') := by
  refine ⟨h.origin, ?_, .cons ⟨src.val, rfl⟩ h.same, ?_⟩
  · rw [h.nil_iff, needsCast_cons, or_iff_right hskip]
  · intro other hother
    rcases List.mem_cons.mp hother with rfl | hother
    · exact hdefined
    · exact h.defined other hother

theorem rewireCast_origin {cast : Op Ty} {producerDest : Operand Ty} {ctx ctx' : LoweringContext Ty}
    {emitted : Emitted Ty} {valueId : String}
    (h : rewireCast cast producerDest ctx = .ok (emitted, valueId, ctx')) :
    emitted.origin = .cast := by
  unfold rewireCast at h
  dsimp only at h
  split at h
  · cases h
  · cases h
  · obtain ⟨rfl, -⟩ := Prod.mk.inj (Except.ok.inj h)
    rfl

section Casting
variable [DecidableEq Ty] {destRegisters : String → Option (Instruction Ty)}

theorem resolveCasts_spec {source source' : List (Operand Ty)} {ctx ctx' : LoweringContext Ty}
    {casts : List (Emitted Ty)}
    (h : resolveCasts destRegisters source ctx = .ok (casts, source', ctx')) :
    Casts destRegisters source casts source' := by
  induction source generalizing ctx ctx' casts source' with
  | nil =>
      obtain ⟨rfl, hpair⟩ := Prod.mk.inj (Except.ok.inj h)
      obtain ⟨rfl, -⟩ := Prod.mk.inj hpair
      exact ⟨fun _ h => absurd h List.not_mem_nil, by simp [NeedsCast], .nil,
        fun _ h => absurd h List.not_mem_nil⟩
  | cons src source ih =>
      rw [resolveCasts] at h
      cases hval : src.registerVal with
      | none =>
          rw [hval] at h
          obtain ⟨⟨casts, source, ctx1⟩, hrest, h⟩ := bind_ok h
          obtain ⟨rfl, hpair⟩ := Prod.mk.inj (Except.ok.inj h)
          obtain ⟨rfl, -⟩ := Prod.mk.inj hpair
          exact (ih hrest).skip (by simp [NeedsCast, hval]) (by simp [hval])
      | some val =>
          rw [hval] at h
          dsimp only at h
          cases hproducer : destRegisters val with
          | none =>
              rw [hproducer] at h
              obtain ⟨⟨casts, source, ctx1⟩, hrest, h⟩ := bind_ok h
              obtain ⟨rfl, hpair⟩ := Prod.mk.inj (Except.ok.inj h)
              obtain ⟨rfl, -⟩ := Prod.mk.inj hpair
              refine (ih hrest).skip (by simp [NeedsCast, hval, hproducer]) ?_
              intro val' producer hval' hproducer'
              obtain rfl := Option.some.inj (hval.symm.trans hval')
              rw [hproducer] at hproducer'
              cases hproducer'
          | some producer =>
              rw [hproducer] at h
              dsimp only at h
              cases hdest : producer.destination with
              | none =>
                  rw [hdest] at h
                  cases h
              | some producerDest =>
                  rw [hdest] at h
                  dsimp only at h
                  split_ifs at h with htype
                  · obtain ⟨⟨casts, source, ctx1⟩, hrest, h⟩ := bind_ok h
                    obtain ⟨rfl, hpair⟩ := Prod.mk.inj (Except.ok.inj h)
                    obtain ⟨rfl, -⟩ := Prod.mk.inj hpair
                    refine (ih hrest).skip (by simp [NeedsCast, hval, hproducer, hdest, htype]) ?_
                    intro val' producer' hval' hproducer'
                    obtain rfl := Option.some.inj (hval.symm.trans hval')
                    obtain rfl := Option.some.inj (hproducer.symm.trans hproducer')
                    simp [hdest]
                  · split at h
                    · cases h
                    · obtain ⟨⟨cast, valueId, ctx1⟩, hcast, h⟩ := bind_ok h
                      obtain ⟨⟨rest, source, ctx2⟩, hrest, h⟩ := bind_ok h
                      obtain ⟨rfl, hpair⟩ := Prod.mk.inj (Except.ok.inj h)
                      obtain ⟨rfl, -⟩ := Prod.mk.inj hpair
                      have hcasts := ih hrest
                      refine ⟨fun other hother => ?_, ?_, .cons ⟨_, rfl⟩ hcasts.same, ?_⟩
                      · rcases List.mem_cons.mp hother with rfl | hother
                        · exact rewireCast_origin hcast
                        · exact hcasts.origin other hother
                      · refine iff_of_false (List.cons_ne_nil _ _) (not_not.mpr ?_)
                        exact ⟨src, List.mem_cons_self, val, producer, producerDest, hval, hproducer,
                          hdest, htype⟩
                      · intro other hother val' producer' hval' hproducer'
                        rcases List.mem_cons.mp hother with rfl | hother
                        · obtain rfl := Option.some.inj (hval.symm.trans hval')
                          obtain rfl := Option.some.inj (hproducer.symm.trans hproducer')
                          simp [hdest]
                        · exact hcasts.defined other hother val' producer' hval' hproducer'

end Casting

/-- The second pass on the rest of the list, with the fault label it holds back: the casts of an
instruction go in front of that label. A label held back is lost when another one comes, or the end. -/
inductive Casted (destRegisters : String → Option (Instruction Ty)) :
    Option (Emitted Ty) → List (Emitted Ty) → List (Emitted Ty) → Prop where
  | nil {held} : Casted destRegisters held [] []
  | hold {held emitted rest out}
      (hfault : emitted.instruction.isFaultLabel = true)
      (hrest : Casted destRegisters (some emitted) rest out) :
      Casted destRegisters held (emitted :: rest) out
  | emit {held emitted rest casts source out}
      (hother : emitted.instruction.isFaultLabel = false)
      (hcasts : Casts destRegisters emitted.instruction.source casts source)
      (hrest : Casted destRegisters none rest out) :
      Casted destRegisters held (emitted :: rest)
        (casts ++ held.toList ++ { emitted with
          instruction := emitted.instruction.withSource source } :: out)

theorem insertCastsLoop_casted [DecidableEq Ty]
    {destRegisters : String → Option (Instruction Ty)} {held : Option (Emitted Ty)}
    {instructions out : List (Emitted Ty)} {ctx ctx' : LoweringContext Ty}
    (h : insertCastsLoop destRegisters held instructions ctx = .ok (out, ctx')) :
    Casted destRegisters held instructions out := by
  induction instructions generalizing held ctx ctx' out with
  | nil =>
      obtain ⟨rfl, -⟩ := Prod.mk.inj (Except.ok.inj h)
      exact .nil
  | cons emitted rest ih =>
      rw [insertCastsLoop] at h
      split_ifs at h with hfault
      · exact .hold hfault (ih h)
      · obtain ⟨⟨casts, source, ctx1⟩, hcasts, h⟩ := bind_ok h
        obtain ⟨⟨casted, ctx2⟩, hrest, h⟩ := bind_ok h
        obtain ⟨rfl, -⟩ := Prod.mk.inj (Except.ok.inj h)
        exact .emit (by simpa using hfault) (resolveCasts_spec hcasts) (ih hrest)

end Riescue.Legalizer
