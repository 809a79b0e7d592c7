import Riescue.LegalizerProgram

/-! Exactly when the legalized list is well formed. The casts only write values of new numbers, so a read is judged by the
program of the first pass; what that program writes is then read off the input. -/

namespace Riescue.Legalizer
open Fallible Dataflow
open TestPlan (IdKind)
variable {Ty : Type}

/-! ### New values -/

/-- The name is none of the values with a number from `n` on. -/
def Old (n : ℕ) (name : String) : Prop := ∀ k, n ≤ k → name ≠ IdKind.value.id k

/-- The values with the numbers from `n` to `m`. -/
def numbered (n m : ℕ) : List String := (List.range' n (m - n)).map IdKind.value.id

theorem mem_numbered {n m : ℕ} {name : String} : name ∈ numbered n m ↔ ∃ k, n ≤ k ∧ k < m ∧ name = IdKind.value.id k := by
  simp only [numbered, List.mem_map, List.mem_range'_1]
  constructor
  · rintro ⟨k, ⟨hle, hlt⟩, rfl⟩
    exact ⟨k, hle, by omega, rfl⟩
  · rintro ⟨k, hle, hlt, rfl⟩
    exact ⟨k, ⟨hle, by omega⟩, rfl⟩

theorem nodup_numbered (n m : ℕ) : (numbered n m).Nodup :=
  List.Nodup.map (fun _ _ h => (IdKind.id_injective h).2) List.nodup_range'

theorem numbered_append {n m k : ℕ} (hnm : n ≤ m) (hmk : m ≤ k) : numbered n m ++ numbered m k = numbered n k := by
  have hrange : List.range' n (m - n) ++ List.range' m (k - m) = List.range' n (k - n) := by
    have hsplit := @List.range'_append_1 n (m - n) (k - m)
    rw [Nat.add_sub_cancel' hnm] at hsplit
    rw [hsplit]
    congr 1
    omega
  rw [numbered, numbered, numbered, ← List.map_append, hrange]

section Rewiring
variable {destRegisters : String → Option (Instruction Ty)}

theorem CastsOf.le {n m : ℕ} {source source' : List (Operand Ty)} {casts : List (Op Ty)}
    (h : CastsOf destRegisters n source casts source' m) : n ≤ m := by
  induction h with
  | nil => exact Nat.le_refl _
  | keep _ _ ih => exact ih
  | cast _ _ _ _ _ _ ih => omega

theorem CastsOf.names {n m : ℕ} {source source' : List (Operand Ty)} {casts : List (Op Ty)}
    (h : CastsOf destRegisters n source casts source' m) : names Op.writes casts = numbered n m := by
  induction h with
  | nil => simp [numbered]
  | keep _ _ ih => exact ih
  | @cast n m _ _ _ _ _ _ _ _ _ _ _ _ hcast hrest ih =>
      have hone : numbered n (n + 1) = [IdKind.value.id n] := by
        simp [numbered, List.range'_succ]
      rw [names_cons, ih, hcast.writes, ← numbered_append (Nat.le_succ n) hrest.le, hone]
      rfl

theorem Rewired.le {n m : ℕ} {program out : List (Op Ty)} (h : Rewired destRegisters n program out m) : n ≤ m := by
  induction h with
  | nil => exact Nat.le_refl _
  | cons hcasts _ ih => exact hcasts.le.trans ih

theorem Rewired.names {n m : ℕ} {program out : List (Op Ty)} (h : Rewired destRegisters n program out m) :
    (names Op.writes out).Perm (names Op.writes program ++ numbered n m) := by
  induction h with
  | nil => simp [numbered]
  | @cons n m k o program casts source out hcasts hrest ih =>
      have hsame : ({ o with source := source } : Op Ty).writes = o.writes := rfl
      rw [names_append, names_cons, names_cons, hsame, hcasts.names, ← numbered_append hcasts.le hrest.le]
      have hcomm : (numbered n m ++ (o.writes.map Prod.fst ++ Dataflow.names Op.writes program)).Perm
          (o.writes.map Prod.fst ++ Dataflow.names Op.writes program ++ numbered n m) := List.perm_append_comm
      refine ((ih.append_left _).append_left _).trans ?_
      simpa only [List.append_assoc] using hcomm.append_right (numbered m k)

end Rewiring

/-! ### The reads of a program and those after its casts -/

/-- The values that a program writes are those the second pass finds, under their names. -/
structure Producers (destRegisters : String → Option (Instruction Ty)) (program : List (Op Ty)) : Prop where
  found : ∀ val producer dest, destRegisters val = some producer → producer.destination = some dest →
    (val, dest.type) ∈ program.flatMap Op.writes ∧ ∀ name, dest.val = .str name → name = val
  isSome : ∀ val ∈ names Op.writes program, ∃ producer, destRegisters val = some producer

/-- The read of a value that is cast from a hard-coded register. -/
def FromHardCoded (destRegisters : String → Option (Instruction Ty)) (read : String × Ty) : Prop :=
  ∃ producer dest, destRegisters read.1 = some producer ∧ producer.destination = some dest ∧
    (∀ name, dest.val ≠ .str name) ∧ dest.type ≠ read.2

/-- The read of a value is sound before the casts: it is written once, and above, or it is cast from a hard-coded
register. -/
def Sound (destRegisters : String → Option (Instruction Ty)) (total : List String) (above : List (String × Ty))
    (read : String × Ty) : Prop :=
  FromHardCoded destRegisters read ∨ (total.count read.1 = 1 ∧ read.1 ∈ above.map Prod.fst)

theorem snd_eq_of_count {writes : List (String × Ty)} {val : String} {ty ty' : Ty}
    (hcount : (writes.map Prod.fst).count val = 1) (h : (val, ty) ∈ writes) (h' : (val, ty') ∈ writes) : ty = ty' := by
  induction writes with
  | nil => exact absurd h List.not_mem_nil
  | cons write writes ih =>
      rw [List.map_cons, List.count_cons] at hcount
      have hnone : ∀ {ty : Ty}, write.1 = val → (val, ty) ∉ writes := by
        intro ty hval hmem
        have hpos : 0 < (writes.map Prod.fst).count val :=
          List.count_pos_iff.mpr (List.mem_map_of_mem (f := Prod.fst) hmem)
        simp only [hval, beq_self_eq_true, if_true] at hcount
        omega
      rcases List.mem_cons.mp h with rfl | h <;> rcases List.mem_cons.mp h' with heq | h'
      · exact (congrArg Prod.snd heq).symm
      · exact absurd h' (hnone rfl)
      · exact absurd h (hnone (congrArg Prod.fst heq).symm)
      · refine ih ?_ h h'
        have hpos : 0 < (writes.map Prod.fst).count val :=
          List.count_pos_iff.mpr (List.mem_map_of_mem (f := Prod.fst) h)
        split_ifs at hcount <;> omega

section Reading
variable {destRegisters : String → Option (Instruction Ty)} {program : List (Op Ty)} {total : List String} {n₀ k₀ : ℕ}

/-- The names of the program with its casts: those of the program, once each of the new values. -/
structure Totals (program : List (Op Ty)) (total : List String) (n₀ k₀ : ℕ) : Prop where
  old : ∀ val, Old n₀ val → total.count val = (names Op.writes program).count val
  new : ∀ k, n₀ ≤ k → k < k₀ → total.count (IdKind.value.id k) = 1

/-- What is defined above, with the casts and without them. -/
structure Aligned (program : List (Op Ty)) (n₀ : ℕ) (above aboveCasts : List (String × Ty)) : Prop where
  old : ∀ write : String × Ty, Old n₀ write.1 → (write ∈ aboveCasts ↔ write ∈ above)
  subset : above ⊆ program.flatMap Op.writes

theorem Aligned.append_casts {above aboveCasts : List (String × Ty)} (h : Aligned program n₀ above aboveCasts)
    {casts : List (String × Ty)} (hcasts : ∀ write ∈ casts, ¬Old n₀ write.1) :
    Aligned program n₀ above (aboveCasts ++ casts) := by
  refine ⟨fun write hold => ?_, h.subset⟩
  rw [List.mem_append, h.old write hold, or_iff_left fun hmem => hcasts write hmem hold]

theorem not_old_id {k : ℕ} (h : n₀ ≤ k) : ¬Old n₀ (IdKind.value.id k) := fun hold => hold k h rfl

/-- A read that is not from a hard-coded register has its value written above with the type that its producer has. -/
theorem sound_iff_mem (hproducers : Producers destRegisters program) {above : List (String × Ty)}
    (hsubset : above ⊆ program.flatMap Op.writes) {val : String} {ty : Ty} (hhard : ¬FromHardCoded destRegisters (val, ty))
    (readTy : Ty) (hty : ∀ producer dest, destRegisters val = some producer → producer.destination = some dest →
      dest.type = readTy)
    (hdest : ∀ producer, destRegisters val = some producer → ∃ dest, producer.destination = some dest) :
    Sound destRegisters (names Op.writes program) above (val, ty) ↔
      (names Op.writes program).count val = 1 ∧ (val, readTy) ∈ above := by
  rw [Sound, or_iff_right hhard]
  refine and_congr_right fun hcount => ⟨fun hmem => ?_, fun hmem => List.mem_map.mpr ⟨_, hmem, rfl⟩⟩
  obtain ⟨⟨name, writeTy⟩, hwrite, rfl⟩ := List.mem_map.mp hmem
  have hname : name ∈ names Op.writes program := List.mem_map.mpr ⟨_, hsubset hwrite, rfl⟩
  obtain ⟨producer, hproducer⟩ := hproducers.isSome name hname
  obtain ⟨dest, hdestination⟩ := hdest producer hproducer
  obtain ⟨hfound, -⟩ := hproducers.found name producer dest hproducer hdestination
  rw [← hty producer dest hproducer hdestination]
  obtain rfl := snd_eq_of_count hcount (hsubset hwrite) hfound
  exact hwrite

end Reading

theorem forall_reads_cons {P : String × Ty → Prop} {src : Operand Ty} {source : List (Operand Ty)} :
    (∀ read ∈ (src :: source).filterMap Operand.read, P read) ↔
      (∀ read, src.read = some read → P read) ∧ ∀ read ∈ source.filterMap Operand.read, P read := by
  cases hread : src.read with
  | none => simp [List.filterMap_cons_none hread]
  | some read => simp [List.filterMap_cons_some hread]

section Reading
variable {destRegisters : String → Option (Instruction Ty)} {program : List (Op Ty)} {total : List String} {n₀ k₀ : ℕ}
  {above aboveCasts : List (String × Ty)}

/-- An operand that needs no cast. -/
theorem NoCast.sound_iff {src : Operand Ty} (hkeep : NoCast destRegisters src) (hproducers : Producers destRegisters program)
    (htotals : Totals program total n₀ k₀) (haligned : Aligned program n₀ above aboveCasts) {read : String × Ty}
    (hread : src.read = some read) (hold : Old n₀ read.1) :
    (total.count read.1 = 1 ∧ read ∈ aboveCasts) ↔ Sound destRegisters (names Op.writes program) above read := by
  obtain ⟨val, ty⟩ := read
  obtain ⟨hval, -, rfl⟩ := read_eq_some.mp hread
  have htype : ∀ producer dest, destRegisters val = some producer → producer.destination = some dest → dest.type = src.type := by
    intro producer dest hproducer hdest
    obtain ⟨dest', hdest', htype⟩ := hkeep val producer hval hproducer
    obtain rfl := Option.some.inj (hdest.symm.trans hdest')
    exact htype
  rw [sound_iff_mem hproducers haligned.subset ?_ src.type htype ?_, htotals.old val hold, haligned.old _ hold]
  · rintro ⟨producer, dest, hproducer, hdest, -, hne⟩
    exact hne (htype producer dest hproducer hdest)
  · intro producer hproducer
    obtain ⟨dest, hdest, -⟩ := hkeep val producer hval hproducer
    exact ⟨dest, hdest⟩

/-- An operand whose value is cast: the cast has to read it instead. -/
theorem CastOf.checked_iff {n : ℕ} {src dest : Operand Ty} {val : String} {producer : Instruction Ty} {cast : Op Ty}
    (hcast : CastOf n src.type dest cast) (hval : src.registerVal = some val) (hproducer : destRegisters val = some producer)
    (hdest : producer.destination = some dest) (htype : dest.type ≠ src.type)
    (hproducers : Producers destRegisters program) (htotals : Totals program total n₀ k₀)
    (haligned : Aligned program n₀ above aboveCasts) (hold : ∀ read, src.read = some read → Old n₀ read.1) :
    Checked Op.reads total aboveCasts cast ↔
      ∀ read, src.read = some read → Sound destRegisters (names Op.writes program) above read := by
  obtain ⟨-, hname⟩ := hproducers.found val producer dest hproducer hdest
  rw [Checked, hcast.reads]
  by_cases hstr : ∃ name, dest.val = .str name
  · obtain ⟨name, hstr⟩ := hstr
    obtain rfl := hname name hstr
    have hregister : ({ dest with isRegister := true } : Operand Ty).registerVal = some name := by
      simp [Operand.registerVal, hstr]
    cases hliteral : isLiteralRegister name with
    | true =>
        have hnone : ∀ {src : Operand Ty}, src.registerVal = some name → src.read = none := by
          intro src hsrc
          simp [Operand.read, hsrc, hliteral, Option.filter]
        simp [hnone hval, hnone hregister]
    | false =>
        have hread : src.read = some (name, src.type) := read_eq_some.mpr ⟨hval, hliteral, rfl⟩
        have hcastRead : ({ dest with isRegister := true } : Operand Ty).read = some (name, dest.type) :=
          read_eq_some.mpr ⟨hregister, hliteral, rfl⟩
        have hhard : ¬FromHardCoded destRegisters (name, src.type) := by
          rintro ⟨producer', dest', hproducer', hdest', hnone, -⟩
          obtain rfl := Option.some.inj (hproducer.symm.trans hproducer')
          obtain rfl := Option.some.inj (hdest.symm.trans hdest')
          exact hnone name hstr
        have hsound := sound_iff_mem hproducers haligned.subset hhard dest.type
          (fun producer' dest' hproducer' hdest' => by
            obtain rfl := Option.some.inj (hproducer.symm.trans hproducer')
            obtain rfl := Option.some.inj (hdest.symm.trans hdest')
            rfl)
          (fun producer' hproducer' => ⟨dest, Option.some.inj (hproducer.symm.trans hproducer') ▸ hdest⟩)
        have hold : Old n₀ name := hold _ hread
        simp only [hread, hcastRead, Option.toList_some, List.mem_singleton, forall_eq, Option.some.injEq, forall_eq']
        rw [hsound, htotals.old name hold, haligned.old (name, dest.type) hold]
  · have hnone : ({ dest with isRegister := true } : Operand Ty).read = none := by
      cases hdestVal : dest.val with
      | str name => exact absurd ⟨name, hdestVal⟩ hstr
      | none => simp [Operand.read, Operand.registerVal]
      | int val => simp [Operand.read, Operand.registerVal]
    rw [hnone]
    refine iff_of_true (fun read hread => absurd hread List.not_mem_nil) fun read hread => Or.inl ?_
    obtain ⟨hval', -, hty⟩ := read_eq_some.mp hread
    obtain rfl := Option.some.inj (hval.symm.trans hval')
    exact ⟨producer, dest, hproducer, hdest, fun name hname => hstr ⟨name, hname⟩, hty ▸ htype⟩

theorem CastsOf.writes_new {n m : ℕ} {source source' : List (Operand Ty)} {casts : List (Op Ty)}
    (h : CastsOf destRegisters n source casts source' m) (hn : n₀ ≤ n) : ∀ write ∈ casts.flatMap Op.writes, ¬Old n₀ write.1 := by
  intro write hwrite
  have hname : write.1 ∈ Dataflow.names Op.writes casts := List.mem_map_of_mem hwrite
  rw [h.names] at hname
  obtain ⟨k, hk, -, heq⟩ := mem_numbered.mp hname
  rw [heq]
  exact not_old_id (hn.trans hk)

/-- The casts of an instruction and the instruction behind them read what is written once and above exactly when the
reads of the instruction are sound before the casts. -/
theorem CastsOf.checked_iff {n m : ℕ} {source source' : List (Operand Ty)} {casts : List (Op Ty)}
    (h : CastsOf destRegisters n source casts source' m) (hproducers : Producers destRegisters program)
    (htotals : Totals program total n₀ k₀) (haligned : Aligned program n₀ above aboveCasts) (hn : n₀ ≤ n) (hm : m ≤ k₀)
    (hold : ∀ read ∈ source.filterMap Operand.read, Old n₀ read.1) :
    (Along Op.writes (Checked Op.reads total) aboveCasts casts ∧
        ∀ read ∈ source'.filterMap Operand.read,
          total.count read.1 = 1 ∧ read ∈ aboveCasts ++ casts.flatMap Op.writes) ↔
      ∀ read ∈ source.filterMap Operand.read, Sound destRegisters (Dataflow.names Op.writes program) above read := by
  induction h generalizing aboveCasts with
  | nil => simp [Along]
  | @keep n m src source casts source' hkeep hrest ih =>
      obtain ⟨holdHead, hold⟩ := forall_reads_cons.mp hold
      rw [forall_reads_cons, forall_reads_cons, ← ih haligned hn hm hold, ← and_assoc, and_comm (a := Along _ _ _ _), and_assoc]
      refine and_congr_left fun _ => forall_congr' fun read => imp_congr_right fun hread => ?_
      have hread' := holdHead read hread
      rw [List.mem_append, or_iff_left fun hmem => hrest.writes_new hn read hmem hread']
      exact hkeep.sound_iff hproducers htotals haligned hread hread'
  | @cast n m src source casts source' val producer dest cast hval hproducer hdest htype hcast hrest ih =>
      obtain ⟨holdHead, hold⟩ := forall_reads_cons.mp hold
      have haligned' : Aligned program n₀ above (aboveCasts ++ cast.writes) := by
        refine haligned.append_casts fun write hwrite => ?_
        rw [hcast.writes] at hwrite
        rw [List.mem_singleton.mp hwrite]
        exact not_old_id hn
      -- the operand reads what its cast has just written
      have hnew : ∀ read, ({ src with val := .str (IdKind.value.id n) } : Operand Ty).read = some read →
          total.count read.1 = 1 ∧ read ∈ aboveCasts ++ (cast :: casts).flatMap Op.writes := by
        intro read hread
        obtain ⟨hname, -, hty⟩ := read_eq_some.mp hread
        have hregister : src.isRegister = true := by
          cases hisRegister : src.isRegister with
          | true => rfl
          | false => simp [Operand.registerVal, hisRegister] at hval
        have hread : read = (IdKind.value.id n, src.type) := by
          rw [Operand.registerVal, hregister] at hname
          exact Prod.ext (Option.some.inj hname).symm hty.symm
        rw [hread, List.flatMap_cons, hcast.writes]
        refine ⟨htotals.new n hn (Nat.lt_of_lt_of_le (Nat.lt_of_succ_le hrest.le) hm), ?_⟩
        exact List.mem_append_right _ (List.mem_append_left _ List.mem_cons_self)
      rw [forall_reads_cons, forall_reads_cons, and_iff_right hnew, ← ih haligned' (Nat.le_succ_of_le hn) hm hold, Along,
        hcast.checked_iff hval hproducer hdest htype hproducers htotals haligned holdHead, and_assoc, List.flatMap_cons,
        List.append_assoc]

/-- The program with its casts is checked along exactly when the reads of the program are sound. -/
theorem Rewired.checked_iff {n m : ℕ} {rest out : List (Op Ty)} (h : Rewired destRegisters n rest out m)
    (hproducers : Producers destRegisters program) (htotals : Totals program total n₀ k₀)
    (haligned : Aligned program n₀ above aboveCasts) (hn : n₀ ≤ n) (hm : m ≤ k₀) (hrest : rest ⊆ program)
    (hold : ∀ o ∈ rest, ∀ read ∈ o.reads, Old n₀ read.1) :
    Along Op.writes (Checked Op.reads total) aboveCasts out ↔
      Along Op.writes (fun above o => ∀ read ∈ o.reads, Sound destRegisters (Dataflow.names Op.writes program) above read)
        above rest := by
  induction h generalizing above aboveCasts with
  | nil => exact Iff.rfl
  | @cons n m k o rest casts source out hcasts hout ih =>
      have hmem : o ∈ program := hrest List.mem_cons_self
      have hwrites : ({ o with source := source } : Op Ty).writes = o.writes := rfl
      have haligned' : Aligned program n₀ (above ++ o.writes) (aboveCasts ++ casts.flatMap Op.writes ++ o.writes) := by
        have hold := (haligned.append_casts (hcasts.writes_new hn)).old
        refine ⟨fun write hwrite => ?_, List.append_subset.mpr ⟨haligned.subset, fun write hwrite => ?_⟩⟩
        · rw [List.mem_append, hold write hwrite, List.mem_append]
        · exact List.mem_flatMap.mpr ⟨o, hmem, hwrite⟩
      rw [along_append, Along, Along, hwrites, ← and_assoc,
        ih haligned' (hn.trans hcasts.le) hm (fun other hother => hrest (List.mem_cons_of_mem o hother))
          (fun other hother => hold other (List.mem_cons_of_mem o hother))]
      exact and_congr_left' (hcasts.checked_iff hproducers htotals haligned hn (hout.le.trans hm) (hold o List.mem_cons_self))

end Reading

/-! ### What the first pass writes -/

/-- The values that the first pass writes, once for each write: the loads and the results of the instructions it keeps. -/
def written (kept : List (List String × Op Ty)) : List String :=
  kept.flatMap fun k => k.2.loads k.1 ++ k.2.writes.map Prod.fst

/-- The value of a read is held by a hard-coded register of another type, which its cast reads instead. -/
def HardCoded (kept : List (List String × Op Ty)) (read : String × Ty) : Prop :=
  ∃ k ∈ kept, k.2.instructionId = read.1 ∧
    ∃ dest, k.2.destination = some dest ∧ (∀ val, dest.val ≠ .str val) ∧ dest.type ≠ read.2

/-- The value of every read of an instruction that is kept is written once, by another instruction or by a single load,
or it is held by a hard-coded register of another type. -/
def SinglyWritten (instructions : List (Instruction Ty)) : Prop :=
  ∀ k ∈ keptOps [] false instructions, ∀ read ∈ k.2.reads,
    HardCoded (keptOps [] false instructions) read ∨
      (read.1 ∉ k.2.writes.map Prod.fst ∧ (written (keptOps [] false instructions)).count read.1 = 1)

/-- What the elaborator and the context leave: a destination names the value of its own instruction unless it is
hard-coded, and the numbers from the counter on are not in use. -/
structure Elaborated (instructions : List (Instruction Ty)) (ctx : LoweringContext Ty) : Prop where
  destination : ∀ o, .op o ∈ instructions → ∀ dest, o.destination = some dest → ∀ val, dest.val = .str val →
    val = o.instructionId
  ids : ∀ instruction ∈ instructions, Old ctx.valueCount instruction.instructionId
  reads : ∀ o, .op o ∈ instructions → ∀ read ∈ o.reads, Old ctx.valueCount read.1

/-- A destination that names the value of its own instruction unless it is hard-coded. -/
def OwnDestination (o : Op Ty) : Prop :=
  ∀ dest, o.destination = some dest → ∀ val, dest.val = .str val → val = o.instructionId

theorem OwnDestination.valueName {o : Op Ty} (h : OwnDestination o) {dest : Operand Ty} (hdest : o.destination = some dest) :
    o.valueName dest = o.instructionId := by
  unfold Op.valueName
  split
  · rename_i val hval
    exact h dest hdest val hval
  · rfl

theorem OwnDestination.of_mem_writes {o : Op Ty} (h : OwnDestination o) {val : String}
    (hval : val ∈ o.writes.map Prod.fst) : val = o.instructionId := by
  obtain ⟨write, hwrite, rfl⟩ := List.mem_map.mp hval
  obtain ⟨dest, hdest, rfl⟩ := mem_writes.mp hwrite
  exact h.valueName hdest

theorem LoadOf.names {val : String} {li : Op Ty} (h : LoadOf val li) : li.writes.map Prod.fst = [val] := by
  obtain ⟨dest, hdest, hval⟩ := h.destination
  simp [Op.writes, hdest, Op.valueName, hval]

theorem LoadOf.ownDestination {val : String} {li : Op Ty} (h : LoadOf val li) : OwnDestination li := by
  intro dest hdest name hname
  obtain ⟨dest', hdest', hval⟩ := h.destination
  obtain rfl := Option.some.inj (hdest.symm.trans hdest')
  exact (OperandVal.str.inj (hname.symm.trans hval)).trans h.instructionId.symm

theorem names_of_loads {vals : List String} {lis : List (Op Ty)} (h : List.Forall₂ LoadOf vals lis) :
    names Op.writes lis = vals := by
  induction h with
  | nil => rfl
  | cons hli _ ih => rw [names_cons, ih, hli.names, List.singleton_append]

theorem Filled.names {kept : List (List String × Op Ty)} {program : List (Op Ty)} (h : Filled kept program) :
    names Op.writes program = written kept := by
  induction h with
  | nil => rfl
  | cons hlis _ ih =>
      rw [names_append, names_cons, ih, names_of_loads hlis, written, written, List.flatMap_cons, List.append_assoc]

theorem exists_of_mem_loads {vals : List String} {lis : List (Op Ty)} (h : List.Forall₂ LoadOf vals lis) {li : Op Ty}
    (hli : li ∈ lis) : ∃ val ∈ vals, LoadOf val li := by
  induction h with
  | nil => exact absurd hli List.not_mem_nil
  | cons hload _ ih =>
      rcases List.mem_cons.mp hli with rfl | hli
      · exact ⟨_, List.mem_cons_self, hload⟩
      · obtain ⟨val, hval, hload⟩ := ih hli
        exact ⟨val, List.mem_cons_of_mem _ hval, hload⟩

/-- An instruction of the program is one that is kept, or a load for one. -/
theorem Filled.mem {kept : List (List String × Op Ty)} {program : List (Op Ty)} (h : Filled kept program) {o : Op Ty}
    (ho : o ∈ program) : (∃ k ∈ kept, k.2 = o) ∨ ∃ k ∈ kept, ∃ val ∈ k.2.loads k.1, LoadOf val o := by
  induction h with
  | nil => exact absurd ho List.not_mem_nil
  | @cons ids o' kept lis program hlis _ ih =>
      rcases List.mem_append.mp ho with ho | ho
      · exact Or.inr ⟨_, List.mem_cons_self, exists_of_mem_loads hlis ho⟩
      · rcases List.mem_cons.mp ho with rfl | ho
        · exact Or.inl ⟨_, List.mem_cons_self, rfl⟩
        · rcases ih ho with ⟨k, hk, hko⟩ | ⟨k, hk, hval⟩
          · exact Or.inl ⟨k, List.mem_cons_of_mem _ hk, hko⟩
          · exact Or.inr ⟨k, List.mem_cons_of_mem _ hk, hval⟩

theorem Filled.kept_mem {kept : List (List String × Op Ty)} {program : List (Op Ty)} (h : Filled kept program)
    {k : List String × Op Ty} (hk : k ∈ kept) : k.2 ∈ program := by
  induction h with
  | nil => exact absurd hk List.not_mem_nil
  | cons _ _ ih =>
      refine List.mem_append_right _ ?_
      rcases List.mem_cons.mp hk with rfl | hk
      · exact List.mem_cons_self
      · exact List.mem_cons_of_mem _ (ih hk)

theorem mem_keptOps {ids : List String} {behindPlain : Bool} {rest : List (Instruction Ty)} {k : List String × Op Ty}
    (h : k ∈ keptOps ids behindPlain rest) : .op k.2 ∈ rest ∧ ids ⊆ k.1 ∧ k.2.instructionId ∈ k.1 := by
  induction rest generalizing ids behindPlain with
  | nil => exact absurd h List.not_mem_nil
  | cons instruction rest ih =>
      -- what holds of the instructions behind this one
      have hbehind : ∀ {behindPlain}, k ∈ keptOps (instruction.instructionId :: ids) behindPlain rest →
          .op k.2 ∈ instruction :: rest ∧ ids ⊆ k.1 ∧ k.2.instructionId ∈ k.1 := by
        intro behindPlain h
        obtain ⟨hmem, hids, hid⟩ := ih h
        exact ⟨List.mem_cons_of_mem _ hmem, fun val hval => hids (List.mem_cons_of_mem _ hval), hid⟩
      cases instruction with
      | label l => exact hbehind h
      | op o =>
          rw [keptOps] at h
          split_ifs at h
          · exact hbehind h
          · rcases List.mem_cons.mp h with rfl | h
            · exact ⟨List.mem_cons_self, List.subset_cons_self _ _, List.mem_cons_self⟩
            · exact hbehind h

/-- The instructions that are kept come in order: a later one has more ids resolved, and its own is not among the
earlier ones. -/
def Before (k k' : List String × Op Ty) : Prop := k.1 ⊆ k'.1 ∧ k'.2.instructionId ∉ k.1

theorem pairwise_keptOps {ids : List String} {behindPlain : Bool} {rest : List (Instruction Ty)}
    (hnodup : (rest.map Instruction.instructionId).Nodup) (hnew : ∀ instruction ∈ rest, instruction.instructionId ∉ ids) :
    (keptOps ids behindPlain rest).Pairwise Before := by
  induction rest generalizing ids behindPlain with
  | nil => exact .nil
  | cons instruction rest ih =>
      obtain ⟨hnotMem, htail⟩ := List.nodup_cons.mp hnodup
      have hnew' : ∀ other ∈ rest, other.instructionId ∉ instruction.instructionId :: ids := by
        intro other hother hmem
        rcases List.mem_cons.mp hmem with heq | hmem
        · exact hnotMem (List.mem_map.mpr ⟨other, hother, heq⟩)
        · exact hnew other (List.mem_cons_of_mem _ hother) hmem
      cases instruction with
      | label l => exact ih htail hnew'
      | op o =>
          rw [keptOps]
          split_ifs
          · exact ih htail hnew'
          · refine .cons (fun k' hk' => ?_) (ih htail hnew')
            obtain ⟨hmem, hids, -⟩ := mem_keptOps hk'
            exact ⟨hids, hnew' _ hmem⟩

/-- An id that is resolved is not written any more. -/
theorem not_mem_written {k : List String × Op Ty} {kept : List (List String × Op Ty)} (hbefore : ∀ k' ∈ kept, Before k k')
    (hown : ∀ k' ∈ kept, OwnDestination k'.2) {val : String} (hval : val ∈ k.1) : val ∉ written kept := by
  intro hmem
  obtain ⟨k', hk', hmem⟩ := List.mem_flatMap.mp hmem
  obtain ⟨hsubset, hid⟩ := hbefore k' hk'
  rcases List.mem_append.mp hmem with hmem | hmem
  · obtain ⟨src, -, hsrc⟩ := List.mem_filterMap.mp hmem
    exact (unresolved_eq_some.mp hsrc).2.1 (hsubset hval)
  · rw [(hown k' hk').of_mem_writes hmem] at hval
    exact hid hval

theorem mem_loads_of_read {o : Op Ty} {ids : List String} {read : String × Ty} (h : read ∈ o.reads) (hnew : read.1 ∉ ids) :
    read.1 ∈ o.loads ids := by
  obtain ⟨src, hsrc, hval, hliteral, -⟩ := mem_reads.mp h
  exact List.mem_filterMap.mpr ⟨src, hsrc, unresolved_eq_some.mpr ⟨hval, hnew, hliteral⟩⟩

section Condition
variable {destRegisters : String → Option (Instruction Ty)}

theorem along_of_reads_eq_nil {P : List (String × Ty) → String × Ty → Prop} {above : List (String × Ty)} {lis : List (Op Ty)}
    (h : ∀ li ∈ lis, li.reads = []) : Along Op.writes (fun above o => ∀ read ∈ o.reads, P above read) above lis := by
  rw [along_iff_split]
  rintro front li back rfl read hread
  rw [h li (List.mem_append_right _ List.mem_cons_self)] at hread
  exact absurd hread List.not_mem_nil

/-- The reads of the program are sound exactly when the values they name are written once, and not by the reader. -/
theorem Filled.sound_iff {kept kept₀ : List (List String × Op Ty)} {program : List (Op Ty)} (h : Filled kept program)
    (hbefore : kept.Pairwise Before) (hown : ∀ k ∈ kept, OwnDestination k.2)
    (hhard : ∀ read, FromHardCoded destRegisters read ↔ HardCoded kept₀ read) {above : List (String × Ty)} {total : List String}
    (htotal : total = above.map Prod.fst ++ written kept) :
    Along Op.writes (fun above o => ∀ read ∈ o.reads, Sound destRegisters total above read) above program ↔
      ∀ k ∈ kept, ∀ read ∈ k.2.reads,
        HardCoded kept₀ read ∨ (read.1 ∉ k.2.writes.map Prod.fst ∧ total.count read.1 = 1) := by
  induction h generalizing above with
  | nil => exact iff_of_true trivial fun k hk => absurd hk List.not_mem_nil
  | @cons ids o kept lis program hlis hfilled ih =>
      obtain ⟨hhead, hbefore⟩ := List.pairwise_cons.mp hbefore
      have hown' : ∀ k ∈ kept, OwnDestination k.2 := fun k hk => hown k (List.mem_cons_of_mem _ hk)
      have hlisNames : (lis.flatMap Op.writes).map Prod.fst = o.loads ids := names_of_loads hlis
      have hlisReads : ∀ li ∈ lis, li.reads = [] := by
        intro li hli
        obtain ⟨val, -, hload⟩ := exists_of_mem_loads hlis hli
        exact hload.reads
      have htotal' : total = above.map Prod.fst ++ o.loads ids ++ o.writes.map Prod.fst ++ written kept := by
        rw [htotal, written, List.flatMap_cons]
        simp [written]
      have hnext := @ih hbefore hown' (above ++ lis.flatMap Op.writes ++ o.writes)
        (by rw [htotal', List.map_append, List.map_append, hlisNames])
      rw [along_append, Along, hnext, and_iff_right (along_of_reads_eq_nil hlisReads), List.forall_mem_cons]
      refine and_congr_left' (forall₂_congr fun read hread => ?_)
      rw [Sound, hhard, List.map_append, hlisNames, htotal']
      refine or_congr_right ?_
      rw [and_comm]
      refine and_congr_left fun hcount => ?_
      rw [List.count_append, List.count_append] at hcount
      constructor
      · intro hmem hwrites
        have hfirst := List.count_pos_iff.mpr hmem
        have hsecond : 0 < (o.writes.map Prod.fst).count read.1 := List.count_pos_iff.mpr hwrites
        omega
      · intro hwrites
        by_contra hmem
        have hlate : read.1 ∉ written kept := by
          refine not_mem_written hhead hown' ?_
          by_contra hnew
          exact hmem (List.mem_append_right _ (mem_loads_of_read hread hnew))
        rw [List.count_eq_zero.mpr hmem, List.count_eq_zero.mpr hwrites, List.count_eq_zero.mpr hlate] at hcount
        omega

end Condition

/-! ### The entries of the first pass -/

section Entries
variable {catalog : InstructionCatalog Ty} {ids : List String} {instructions : List (Instruction Ty)}
  {emitted : List (Emitted Ty)}

/-- The ids of the instructions are different, and new. -/
theorem Placed.nodup (h : Placed catalog ids instructions emitted) :
    (instructions.map Instruction.instructionId).Nodup ∧ ∀ instruction ∈ instructions, instruction.instructionId ∉ ids := by
  have hcons : ∀ {ids : List String} {instruction : Instruction Ty} {rest : List (Instruction Ty)},
      instruction.instructionId ∉ ids →
      ((rest.map Instruction.instructionId).Nodup ∧ ∀ other ∈ rest, other.instructionId ∉ instruction.instructionId :: ids) →
      ((instruction :: rest).map Instruction.instructionId).Nodup ∧
        ∀ other ∈ instruction :: rest, other.instructionId ∉ ids := by
    rintro ids instruction rest hfresh ⟨hnodup, hnew⟩
    refine ⟨List.nodup_cons.mpr ⟨fun hmem => ?_, hnodup⟩, fun other hother => ?_⟩
    · obtain ⟨other, hother, heq⟩ := List.mem_map.mp hmem
      exact hnew other hother (heq ▸ List.mem_cons_self)
    · rcases List.mem_cons.mp hother with rfl | hother
      · exact hfresh
      · exact fun hmem => hnew other hother (List.mem_cons_of_mem _ hmem)
  induction h with
  | nil => exact ⟨.nil, fun _ hmem => absurd hmem List.not_mem_nil⟩
  | op hfresh _ _ ih => exact hcons hfresh ih
  | label hfresh _ _ ih => exact hcons hfresh ih
  | hoisted hfresh hfresh' _ _ _ _ ih => exact hcons hfresh (hcons hfresh' ih)
  | lost hfresh hfresh' _ _ _ ih => exact hcons hfresh (hcons hfresh' ih)

/-- A given entry is the last one of its id. -/
theorem Placed.destRegister_given (h : Placed catalog ids instructions emitted) {entry : Emitted Ty} (hentry : entry ∈ emitted)
    (hgiven : entry.origin = .given) : destRegister emitted entry.instruction.instructionId = some entry.instruction := by
  obtain ⟨front, back, rfl, hback⟩ := h.split_given hentry hgiven
  exact destRegister_of_split hback

theorem loads_isEmpty_iff {o : Op Ty} : (o.loads ids).isEmpty = true ↔ ¬NeedsLi ids (.op o) := by
  rw [List.isEmpty_iff, Op.loads, List.filterMap_eq_nil_iff]
  simp [NeedsLi, Instruction.source, Option.eq_none_iff_forall_ne_some]

/-- Behind a label that changes nothing for its successor, the instructions are kept as behind any other. -/
theorem keptOps_behind {behindPlain : Bool} (hnext : ∀ next after, instructions = next :: after →
    ¬NeedsLi (next.instructionId :: ids) next) : keptOps ids behindPlain instructions = keptOps ids false instructions := by
  match instructions, hnext with
  | [], _ => rfl
  | .label l :: rest, _ => rfl
  | .op o :: rest, hnext =>
      have hempty := loads_isEmpty_iff.mpr (hnext _ _ rfl)
      have hempty : (o.loads (o.instructionId :: ids)).isEmpty = true := hempty
      simp only [keptOps, hempty, Bool.not_true, Bool.and_false]

/-- The instructions that are kept are given entries. -/
theorem Placed.kept_mem (h : Placed catalog ids instructions emitted) {k : List String × Op Ty}
    (hk : k ∈ keptOps ids false instructions) : (⟨.given, .op k.2⟩ : Emitted Ty) ∈ emitted := by
  induction h with
  | nil => exact absurd hk List.not_mem_nil
  | op _ _ _ ih =>
      rw [keptOps, Bool.false_and, if_neg Bool.false_ne_true] at hk
      refine List.mem_append_right _ ?_
      rcases List.mem_cons.mp hk with rfl | hk
      · exact List.mem_cons_self
      · exact List.mem_cons_of_mem _ (ih hk)
  | label _ hnext _ ih =>
      rw [keptOps, keptOps_behind hnext] at hk
      exact List.mem_cons_of_mem _ (ih hk)
  | @hoisted _ l o _ _ _ _ _ hfault _ _ _ ih =>
      rw [keptOps, keptOps, hfault, Bool.not_true, Bool.false_and, if_neg Bool.false_ne_true] at hk
      refine List.mem_append_right _ (List.mem_cons_of_mem _ ?_)
      rcases List.mem_cons.mp hk with rfl | hk
      · exact List.mem_cons_self
      · exact List.mem_cons_of_mem _ (ih hk)
  | @lost ids l o _ _ _ _ hplain hneeds _ ih =>
      have hempty : (o.loads (o.instructionId :: l.instructionId :: ids)).isEmpty = false := by
        rw [Bool.eq_false_iff, ne_eq, loads_isEmpty_iff, not_not]
        exact hneeds
      rw [keptOps, keptOps, hplain, hempty, Bool.not_false, Bool.and_true, if_pos rfl] at hk
      exact List.mem_cons_of_mem _ (ih hk)

end Entries

/-! ### The condition on the input -/

section Input
variable {instructions : List (Instruction Ty)} {ctx : LoweringContext Ty} {emitted : List (Emitted Ty)}

theorem Elaborated.ownDestination (h : Elaborated instructions ctx) {ids : List String} {behindPlain : Bool}
    {k : List String × Op Ty} (hk : k ∈ keptOps ids behindPlain instructions) : OwnDestination k.2 :=
  h.destination k.2 (mem_keptOps hk).1

/-- The values that the first pass writes have names that are in use. -/
theorem Elaborated.old_written (h : Elaborated instructions ctx) {val : String}
    (hval : val ∈ written (keptOps [] false instructions)) : Old ctx.valueCount val := by
  obtain ⟨k, hk, hval⟩ := List.mem_flatMap.mp hval
  have hmem := (mem_keptOps hk).1
  rcases List.mem_append.mp hval with hval | hval
  · obtain ⟨src, hsrc, hunresolved⟩ := List.mem_filterMap.mp hval
    obtain ⟨hregister, -, hliteral⟩ := unresolved_eq_some.mp hunresolved
    exact h.reads k.2 hmem (val, src.type) (mem_reads.mpr ⟨src, hsrc, hregister, hliteral, rfl⟩)
  · rw [(h.ownDestination hk).of_mem_writes hval]
    exact h.ids _ hmem

theorem Filled.ownDestination (h : Filled (keptOps [] false instructions) (ops emitted))
    (helaborated : Elaborated instructions ctx)
    {o : Op Ty} (ho : o ∈ ops emitted) : OwnDestination o := by
  rcases h.mem ho with ⟨k, hk, rfl⟩ | ⟨-, -, val, -, hload⟩
  · exact helaborated.ownDestination hk
  · exact hload.ownDestination

theorem Filled.old_reads (h : Filled (keptOps [] false instructions) (ops emitted)) (helaborated : Elaborated instructions ctx) :
    ∀ o ∈ ops emitted, ∀ read ∈ o.reads, Old ctx.valueCount read.1 := by
  intro o ho read hread
  rcases h.mem ho with ⟨k, hk, rfl⟩ | ⟨-, -, val, -, hload⟩
  · exact helaborated.reads k.2 (mem_keptOps hk).1 read hread
  · rw [hload.reads] at hread
    exact absurd hread List.not_mem_nil

/-- The second pass finds the instructions that write the values. -/
theorem Filled.producers (h : Filled (keptOps [] false instructions) (ops emitted)) (helaborated : Elaborated instructions ctx) :
    Producers (destRegister emitted) (ops emitted) where
  found := by
    intro val producer dest hproducer hdest
    obtain ⟨entry, hentry, hproducer, hid⟩ := mem_of_destRegister hproducer
    cases producer with
    | label l => cases hdest
    | op o =>
        have ho : o ∈ ops emitted := mem_ops.mpr ⟨entry, hentry, hproducer⟩
        have hown := h.ownDestination helaborated ho
        have hid : o.instructionId = val := hid
        refine ⟨List.mem_flatMap.mpr ⟨o, ho, mem_writes.mpr ⟨dest, hdest, ?_⟩⟩, fun name hname => ?_⟩
        · rw [hown.valueName hdest, hid]
        · exact (hown dest hdest name hname).trans hid
  isSome := by
    intro val hval
    obtain ⟨write, hwrite, rfl⟩ := List.mem_map.mp hval
    obtain ⟨o, ho, hwrite⟩ := List.mem_flatMap.mp hwrite
    obtain ⟨entry, hentry, hop⟩ := mem_ops.mp ho
    refine exists_destRegister ⟨entry, hentry, ?_⟩
    rw [hop]
    exact ((h.ownDestination helaborated ho).of_mem_writes (List.mem_map_of_mem hwrite)).symm

/-- The second pass finds a hard-coded register where the input has one. -/
theorem Placed.fromHardCoded_iff {catalog : InstructionCatalog Ty} (h : Placed catalog [] instructions emitted)
    (hfilled : Filled (keptOps [] false instructions) (ops emitted)) (read : String × Ty) :
    FromHardCoded (destRegister emitted) read ↔ HardCoded (keptOps [] false instructions) read := by
  constructor
  · rintro ⟨producer, dest, hproducer, hdest, hnone, htype⟩
    obtain ⟨entry, hentry, hproducer, hid⟩ := mem_of_destRegister hproducer
    cases producer with
    | label l => cases hdest
    | op o =>
        rcases hfilled.mem (mem_ops.mpr ⟨entry, hentry, hproducer⟩) with ⟨k, hk, rfl⟩ | ⟨-, -, val, -, hload⟩
        · exact ⟨k, hk, hid, dest, hdest, hnone, htype⟩
        · obtain ⟨dest', hdest', hval⟩ := hload.destination
          obtain rfl := Option.some.inj (hdest.symm.trans hdest')
          exact absurd hval (hnone val)
  · rintro ⟨k, hk, hid, dest, hdest, hnone, htype⟩
    have hfound : destRegister emitted k.2.instructionId = some (.op k.2) := h.destRegister_given (h.kept_mem hk) rfl
    rw [hid] at hfound
    exact ⟨.op k.2, dest, hfound, hdest, hnone, htype⟩

theorem Rewired.totals {destRegisters : String → Option (Instruction Ty)} {n m : ℕ} {program out : List (Op Ty)}
    (h : Rewired destRegisters n program out m) (hold : ∀ val ∈ Dataflow.names Op.writes program, Old n val) :
    Totals program (Dataflow.names Op.writes out) n m where
  old := by
    intro val hval
    have hnew : val ∉ numbered n m := by
      intro hmem
      obtain ⟨k, hle, -, rfl⟩ := mem_numbered.mp hmem
      exact not_old_id hle hval
    rw [h.names.count_eq, List.count_append, List.count_eq_zero.mpr hnew, Nat.add_zero]
  new := by
    intro k hle hlt
    have hnone : IdKind.value.id k ∉ Dataflow.names Op.writes program := fun hmem => not_old_id hle (hold _ hmem)
    rw [h.names.count_eq, List.count_append, List.count_eq_zero.mpr hnone, Nat.zero_add]
    exact List.count_eq_one_of_mem (nodup_numbered n m) (mem_numbered.mpr ⟨k, hle, hlt, rfl⟩)

/-- The legalized list is well formed exactly when the first pass writes every value once that is read. -/
theorem legalize_wellFormed_iff [DecidableEq Ty] {out : List (Emitted Ty)} (hcatalog : FiltersCasts ctx.instructionCatalog)
    (helaborated : Elaborated instructions ctx) (h : legalize instructions ctx = .ok out) :
    WellFormed Instruction.reads Instruction.writes (out.map Emitted.instruction) ↔ SinglyWritten instructions := by
  obtain ⟨⟨emitted, ctx1⟩, hfirst, h⟩ := bind_ok h
  obtain ⟨⟨casted, ctx2⟩, hsecond, h⟩ := bind_ok h
  obtain rfl := Except.ok.inj h
  obtain ⟨hcount, hfilled⟩ := resolveLiImmediates_filled hfirst
  have hplaced := resolveLiImmediates_placed hfirst
  have hsame : ctx1.instructionCatalog = ctx.instructionCatalog :=
    ((resolveLiLoop_placed instructions).1 _ _ _ _ _ _ (by simp) hfirst).1
  have hrewired := insertCasts_rewired (hsame ▸ hcatalog) hsecond
  rw [hcount] at hrewired
  have hold : ∀ val ∈ names Op.writes (ops emitted), Old ctx.valueCount val := by
    intro val hval
    rw [hfilled.names] at hval
    exact helaborated.old_written hval
  have haligned : Aligned (ops emitted) ctx.valueCount [] [] := ⟨fun _ _ => Iff.rfl, List.nil_subset _⟩
  have hchecked := hrewired.checked_iff (hfilled.producers helaborated) (hrewired.totals hold) haligned (Nat.le_refl _)
    (Nat.le_refl _) (List.Subset.refl _) (hfilled.old_reads helaborated)
  have htotal : written (keptOps [] false instructions) =
      ([] : List (String × Ty)).map Prod.fst ++ written (keptOps [] false instructions) := rfl
  have hsound := hfilled.sound_iff (pairwise_keptOps hplaced.nodup.1 hplaced.nodup.2)
    (fun k hk => helaborated.ownDestination hk) (hplaced.fromHardCoded_iff hfilled) htotal
  rw [wellFormed_iff_ops, wellFormed_iff_along, hchecked, hfilled.names, hsound]
  rfl

end Input

/-! ### Concrete lists -/

theorem old_id {n k : ℕ} (h : k < n) : Old n (IdKind.value.id k) := by
  intro k' hle heq
  obtain ⟨-, rfl⟩ := IdKind.id_injective heq
  omega

/-- Integer and floating-point registers. -/
inductive RegisterType where
  | int | float
  deriving DecidableEq, Repr

/-- A catalog whose only casts are moves. -/
def moveCatalog : InstructionCatalog RegisterType where
  li := ⟨"li", "", some ⟨"rd", .int, .none, true⟩, [⟨"imm", .int, .none, false⟩]⟩
  casts := fun target source => [⟨"fmv", "", some ⟨"rd", target, .none, true⟩, [⟨"rs1", source, .none, true⟩]⟩]
  li_source := by decide

def moveContext : LoweringContext RegisterType := ⟨moveCatalog, ⟨[7, 5, 3]⟩, 2⟩

theorem filtersCasts_moveCatalog : FiltersCasts moveCatalog where
  destination := by
    intro target source cast hcast dest hdest
    obtain rfl := List.mem_singleton.mp hcast
    obtain rfl := Option.some.inj hdest
    rfl
  rs1 := by
    intro target source cast hcast src hsrc _
    obtain rfl := List.mem_singleton.mp hcast
    obtain rfl := List.mem_singleton.mp hsrc
    exact ⟨rfl, rfl⟩
  unfilled := by
    intro target source cast hcast src hsrc
    obtain rfl := List.mem_singleton.mp hcast
    obtain rfl := List.mem_singleton.mp hsrc
    rfl

/-- An instruction of id `r1` that reads `r0`, which nothing defines, from registers of these types. -/
def readsValue (types : List RegisterType) : Instruction RegisterType :=
  .op ⟨"fadd", "r1", some ⟨"rd", .float, .str "r1", true⟩, types.map fun ty => ⟨"rs", ty, .str "r0", true⟩⟩

theorem elaborated_readsValue (types : List RegisterType) : Elaborated [readsValue types] moveContext where
  destination := by
    intro o ho dest hdest val hval
    obtain rfl := Instruction.op.inj (List.mem_singleton.mp ho)
    obtain rfl := Option.some.inj hdest
    exact (OperandVal.str.inj hval).symm
  ids := by
    intro instruction hmem
    obtain rfl := List.mem_singleton.mp hmem
    exact old_id (by decide : 1 < 2)
  reads := by
    intro o ho read hread
    obtain rfl := Instruction.op.inj (List.mem_singleton.mp ho)
    obtain ⟨src, hsrc, hval, -⟩ := mem_reads.mp hread
    obtain ⟨ty, -, rfl⟩ := List.mem_map.mp hsrc
    rw [← Option.some.inj hval]
    exact old_id (by decide : 0 < 2)

/-- One operand reads the value: it gets a load and a cast, and the list is well formed. -/
theorem legalize_wellFormed_iff_readsValue : ∃ out, legalize [readsValue [.float]] moveContext = .ok out ∧ out.length = 3 ∧
    WellFormed Instruction.reads Instruction.writes (out.map Emitted.instruction) := by
  have hlength : (legalize [readsValue [.float]] moveContext).toOption.map List.length = some 3 := by decide +kernel
  obtain ⟨out, hout, hlength⟩ := Option.map_eq_some_iff.mp hlength
  have hout : legalize [readsValue [.float]] moveContext = .ok out := toOption_some hout
  refine ⟨out, hout, hlength, (legalize_wellFormed_iff filtersCasts_moveCatalog (elaborated_readsValue _) hout).mpr ?_⟩
  intro k hk read hread
  obtain rfl := List.mem_singleton.mp hk
  obtain rfl := List.mem_singleton.mp hread
  exact Or.inr ⟨by decide, by decide⟩

/-- Two operands read the value: each gets a load of its own, and the value is written twice. -/
theorem not_legalize_wellFormed : ¬∀ (instructions : List (Instruction RegisterType)) (ctx : LoweringContext RegisterType)
    (out : List (Emitted RegisterType)), FiltersCasts ctx.instructionCatalog → Elaborated instructions ctx →
    legalize instructions ctx = .ok out →
    WellFormed Instruction.reads Instruction.writes (out.map Emitted.instruction) := by
  intro hall
  have hrun : (legalize [readsValue [.int, .int]] moveContext).toOption.map (fun out =>
      ((out.map Emitted.instruction).getLast?, (names Instruction.writes (out.map Emitted.instruction)).count "r0")) =
      some (some (readsValue [.int, .int]), 2) := by decide +kernel
  obtain ⟨out, hout, hpair⟩ := Option.map_eq_some_iff.mp hrun
  obtain ⟨hlast, hcount⟩ := Prod.mk.inj hpair
  obtain ⟨front, hfront⟩ := List.getLast?_eq_some_iff.mp hlast
  have hwellFormed := hall _ _ out filtersCasts_moveCatalog (elaborated_readsValue _) (toOption_some hout)
  have honce := (hwellFormed front _ [] hfront ("r0", .int) (by decide)).1
  rw [hcount] at honce
  exact absurd honce (by decide)

end Riescue.Legalizer
