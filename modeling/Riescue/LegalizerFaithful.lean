import Riescue.LegalizerOrder

/-! Exactly when legalization gives the input back. The first theorem follows both passes along the list;
the conditions on the labels are then stated for the list as a whole. -/

namespace Riescue.Legalizer
open Fallible
variable {Ty : Type} {named : Label → Prop} {catalog : InstructionCatalog Ty}
  {destRegisters : String → Option (Instruction Ty)}

section Cases
variable {tight : Prop} {ids : List String} {held : Option Label} {instructions : List (Instruction Ty)}
  {emitted out : List (Emitted Ty)}

/-- Both passes give the rest of the list back, with the label held back in front of it, exactly when the
list starts as it may and every label in it is followed by what it may be followed by. -/
def PassesFaithful (named : Label → Prop) (destRegisters : String → Option (Instruction Ty))
    (ids : List String) (instructions : List (Instruction Ty)) (emitted : List (Emitted Ty)) : Prop :=
  ∀ (tight : Prop) (held : Option Label) (out : List (Emitted Ty)),
    (∀ l, held = some l → l.instructionPointer = true) →
    Casted destRegisters (heldEntry held) emitted out →
    (held ≠ none ∨ tight → ∀ next rest, instructions = next :: rest →
      ¬NeedsLi (next.instructionId :: ids) next) →
    (Keeps named tight (heldInput held ++ instructions) out ↔
      Start (CastIn destRegisters) tight ids instructions held ∧
        AllLabels named (CastIn destRegisters) ids instructions)

theorem passesFaithful_nil : PassesFaithful named destRegisters ids [] [] := by
  intro tight held out _ hcasted _
  cases hcasted
  cases held with
  | none => simp [Keeps, heldInput, Start, TightStart, AllLabels]
  | some f => simp [Keeps, heldInput, Start, HeldStart]

/-- Tightness has no effect behind an instruction that is no label. -/
theorem start_of_not_tight (needsCast : Instruction Ty → Prop) :
    Start needsCast False ids instructions none := fun h => h.elim

theorem passesFaithful_op {o : Op Ty} {lis : List (Emitted Ty)}
    (hloads : Loads catalog (o.instructionId :: ids) o.source lis)
    (hrest : PassesFaithful named destRegisters (o.instructionId :: ids) instructions emitted) :
    PassesFaithful named destRegisters ids (.op o :: instructions)
      (lis ++ ⟨.given, .op o⟩ :: emitted) := by
  intro tight held out _ hcasted hfirst
  have hnil : lis = [] ↔ ¬NeedsLi (o.instructionId :: ids) (.op o) := Loads.eq_nil_iff hloads
  -- the rest after the instruction itself, without anything held back
  have hafter : ∀ {out' : List (Emitted Ty)}, Casted destRegisters none emitted out' →
      (Keeps named False instructions out' ↔
        AllLabels named (CastIn destRegisters) (o.instructionId :: ids) instructions) := by
    intro out' h
    have := hrest False none out' nofun h (by simp)
    rwa [and_iff_right (start_of_not_tight _)] at this
  by_cases hlis : lis = []
  · subst hlis
    obtain ⟨casts, entry, out', rfl, hcasts, hcastOrigin, horigin, hsame, hcasted⟩ := hcasted.op
    have hkeeps : Keeps named tight (heldInput held ++ .op o :: instructions)
        (casts ++ (heldEntry held).toList ++ entry :: out') ↔
          (tight → casts = []) ∧ Keeps named False instructions out' := by
      rw [List.append_assoc, keeps_inserted hcastOrigin, keeps_held _ horigin hsame]
      simp [Instruction.Marked]
    rw [hkeeps, hafter hcasted, hcasts]
    refine and_congr_left fun _ => ?_
    cases held with
    | none => simp [Start, TightStart, CastIn, Instruction.source]
    | some f => simp [Start, HeldStart, CastIn, Instruction.source, Instruction.isFaultLabel]
  · have hneeds := not_not.mp (mt hnil.mpr hlis)
    have hfree : ¬(held ≠ none ∨ tight) := fun h => hfirst h _ _ rfl hneeds
    obtain ⟨hheld, htight⟩ := not_or.mp hfree
    obtain rfl := not_not.mp hheld
    obtain ⟨inserted, out1, rfl, -, hinserted, hcasted⟩ := hcasted.loads hloads.each hlis
    obtain ⟨casts, entry, out', rfl, -, hcastOrigin, horigin, hsame, hcasted⟩ := hcasted.op
    have hkeeps : Keeps named tight (.op o :: instructions)
        (inserted ++ (casts ++ entry :: out')) ↔ Keeps named False instructions out' := by
      rw [keeps_inserted hinserted, keeps_inserted hcastOrigin, keeps_op horigin hsame]
      simp [htight]
    simp only [heldInput, heldEntry, Option.map_none, Option.toList_none, List.nil_append,
      List.append_nil]
    rw [hkeeps, hafter hcasted]
    exact (and_iff_right fun h => absurd h htight).symm

theorem passesFaithful_label {l : Label}
    (hnext : ∀ next rest, instructions = next :: rest →
      ¬NeedsLi (next.instructionId :: l.instructionId :: ids) next)
    (hcount : givenCount emitted ≤ instructions.length)
    (hrest : PassesFaithful named destRegisters (l.instructionId :: ids) instructions emitted) :
    PassesFaithful named destRegisters ids (.label l :: instructions)
      (⟨.given, .label l⟩ :: emitted) := by
  intro tight held out hflag hcasted hfirst
  rcases hcasted.label with ⟨hfault, hback⟩ | ⟨hplain, out', hout, hback⟩
  · cases held with
    | some f =>
        -- the held label is overwritten
        refine iff_of_false (not_keeps_of_lt ?_) ?_
        · have hle : givenCount out ≤ 1 + givenCount emitted := hback.givenCount_le
          have hlength : (heldInput (some f) ++ Instruction.label l :: instructions).length =
            1 + (instructions.length + 1) := List.length_append
          omega
        · rintro ⟨⟨⟨next, rest, heq, hnot⟩, -⟩, -⟩
          obtain ⟨rfl, -⟩ := List.cons.inj heq
          simp [Instruction.isFaultLabel, hfault] at hnot
    | none =>
        have hiff : Keeps named tight (.label l :: instructions) out ↔ _ :=
          hrest tight (some l) out (by simp [hfault]) hback fun _ => hnext
        refine hiff.trans ?_
        rw [AllLabels, ← and_assoc]
        refine and_congr_left fun _ => ?_
        constructor
        · rintro ⟨hheld, hloads, hcasts⟩
          refine ⟨fun htight => ⟨?_, ?_⟩, ⟨?_, fun _ => hheld, ?_, ?_⟩⟩
          · intro next rest heq
            obtain ⟨rfl, -⟩ := List.cons.inj heq
            exact not_castIn_label l
          · intro b next rest heq
            obtain ⟨hb, hback⟩ := List.cons.inj heq
            obtain rfl := Instruction.label.inj hb
            exact ⟨hnext next rest hback, fun _ => hcasts htight next rest hback⟩
          · exact fun next rest heq hneeds => absurd hneeds (hnext next rest heq)
          · simp [hfault]
          · intro _ b next rest heq
            refine ⟨hloads b next rest heq, fun hb => ?_⟩
            obtain ⟨first, _, hfirst, hplain⟩ := hheld
            obtain ⟨rfl, -⟩ := List.cons.inj (hfirst.symm.trans heq)
            simp [Instruction.isFaultLabel, hb] at hplain
        · rintro ⟨hstart, hafter⟩
          refine ⟨hafter.held hfault, fun b next rest heq =>
            (hafter.labels (Or.inl hfault) b next rest heq).1, fun htight next rest heq => ?_⟩
          exact ((hstart htight).2 l next rest (by rw [heq])).2 hfault
  · have hkeeps : Keeps named tight (heldInput held ++ .label l :: instructions) out ↔
        Keeps named (l.Marked named ∧ instructions ≠ []) instructions out' := by
      rw [hout]
      exact keeps_held held rfl (sameObject_refl _)
    have hiff : Keeps named (l.Marked named ∧ instructions ≠ []) instructions out' ↔ _ :=
      hrest _ none out' nofun hback fun _ => hnext
    rw [hkeeps, hiff, AllLabels, ← and_assoc]
    refine and_congr_left fun _ => ?_
    have hstart : Start (CastIn destRegisters) tight ids (.label l :: instructions) held := by
      have hlabel : ∀ next rest, .label l :: instructions = next :: rest →
          ¬CastIn destRegisters next := by
        intro next rest heq
        obtain ⟨rfl, -⟩ := List.cons.inj heq
        exact not_castIn_label l
      have hloads : ∀ (b : Label) next rest, .label l :: instructions = .label b :: next :: rest →
          ¬NeedsLi (next.instructionId :: b.instructionId :: ids) next ∧ b.instructionPointer = false := by
        intro b next rest heq
        obtain ⟨hb, hback⟩ := List.cons.inj heq
        obtain rfl := Instruction.label.inj hb
        exact ⟨hnext next rest hback, hplain⟩
      cases held with
      | none => exact fun _ => ⟨hlabel, fun b next rest heq =>
          ⟨(hloads b next rest heq).1, by simp [(hloads b next rest heq).2]⟩⟩
      | some f => exact ⟨⟨_, _, rfl, hplain⟩, fun b next rest heq => (hloads b next rest heq).1,
          fun _ => hlabel⟩
    rw [and_iff_right hstart]
    constructor
    · intro htight
      refine ⟨fun next rest heq hneeds => absurd hneeds (hnext next rest heq), by simp [hplain], ?_, ?_⟩
      · intro hmarked _ next rest heq
        exact (htight ⟨hmarked, heq ▸ List.cons_ne_nil _ _⟩).1 next rest heq
      · intro hmarked b next rest heq
        exact (htight ⟨hmarked, heq ▸ List.cons_ne_nil _ _⟩).2 b next rest heq
    · exact fun hafter htight => ⟨hafter.casts htight.1 hplain, hafter.labels htight.1⟩

theorem passesFaithful_hoisted {l : Label} {o : Op Ty} {lis : List (Emitted Ty)}
    (hfault : l.namedFaultLabel = true)
    (hneeds : NeedsLi (o.instructionId :: l.instructionId :: ids) (.op o))
    (hloads : Loads catalog (o.instructionId :: l.instructionId :: ids) o.source lis)
    (hrest : PassesFaithful named destRegisters (o.instructionId :: l.instructionId :: ids)
      instructions emitted) :
    PassesFaithful named destRegisters ids (.label l :: .op o :: instructions)
      (lis ++ ⟨.given, .label l⟩ :: ⟨.given, .op o⟩ :: emitted) := by
  intro tight held out hflag hcasted _
  have hlis : lis ≠ [] := fun h =>
    (Loads.eq_nil_iff hloads).mp h hneeds
  obtain ⟨inserted, out1, hout, hne, hinserted, hcasted1⟩ := hcasted.loads hloads.each hlis
  cases held with
  | some f =>
      -- the loads come between the held label and the next one
      refine iff_of_false ?_ fun h => h.1.2.1 l _ _ rfl hneeds
      rw [hout]
      intro hkeeps
      have hkeeps : Keeps named _ _ (inserted ++ out1) :=
        (keeps_given rfl (sameObject_refl (.label f))).mp hkeeps
      exact hne (((keeps_inserted hinserted).mp hkeeps).1
        ⟨Or.inl (hflag f rfl), List.cons_ne_nil _ _⟩)
  | none =>
      have hkeeps : Keeps named tight (.label l :: .op o :: instructions) out ↔
          ¬tight ∧ Keeps named tight (.label l :: .op o :: instructions) out1 := by
        rw [hout]
        exact (keeps_inserted hinserted).trans (and_congr_left fun _ =>
          ⟨fun h htight => hne (h htight), fun h htight => absurd htight h⟩)
      have hstart : Start (CastIn destRegisters) tight ids (.label l :: .op o :: instructions) none ↔
          ¬tight :=
        ⟨fun h htight => ((h htight).2 l _ _ rfl).1 hneeds, fun h htight => absurd htight h⟩
      refine hkeeps.trans ((and_congr_right fun htight => ?_).trans (and_congr_left' hstart.symm))
      have hafter : AfterLabel named (CastIn destRegisters) ids l (.op o :: instructions) ↔
          (l.Marked named → l.instructionPointer = false → ¬CastIn destRegisters (.op o)) := by
        refine ⟨fun h hmarked hflag => h.casts hmarked hflag _ _ rfl, fun h => ⟨fun _ _ _ _ => hfault,
          fun _ => ⟨_, _, rfl, rfl⟩, fun hmarked hflag next rest heq => ?_, ?_⟩⟩
        · obtain ⟨rfl, -⟩ := List.cons.inj heq
          exact h hmarked hflag
        · intro _ b next rest heq
          cases (List.cons.inj heq).1
      have hback : ∀ {out' : List (Emitted Ty)}, Casted destRegisters none emitted out' →
          (Keeps named False instructions out' ↔
            AllLabels named (CastIn destRegisters) (o.instructionId :: l.instructionId :: ids)
              instructions) := by
        intro out' h
        have := hrest False none out' nofun h (by simp)
        rwa [and_iff_right (start_of_not_tight _)] at this
      rw [AllLabels, AllLabels, hafter]
      rcases hcasted1.label with ⟨hflag, hcasted2⟩ | ⟨hflag, out2, rfl, hcasted2⟩
      · obtain ⟨casts, entry, out', rfl, -, hcastOrigin, horigin, hsame, hcasted3⟩ := hcasted2.op
        rw [List.append_assoc, keeps_inserted hcastOrigin, ← hback hcasted3]
        refine (and_iff_right fun h => absurd h htight).trans ?_
        refine (keeps_held (some l) horigin hsame).trans ?_
        simp [Instruction.Marked, hflag]
      · obtain ⟨casts, entry, out', rfl, hcasts, hcastOrigin, horigin, hsame, hcasted3⟩ := hcasted2.op
        refine (keeps_given rfl (sameObject_refl (.label l))).trans ?_
        simp only [Option.toList_none, List.append_nil]
        rw [keeps_inserted hcastOrigin, keeps_op horigin hsame, hback hcasted3, hcasts]
        simp [Instruction.Marked, hflag, CastIn, Instruction.source]

theorem passesFaithful_lost {l : Label} {o : Op Ty} (hplain : l.namedFaultLabel = false)
    (hneeds : NeedsLi (o.instructionId :: l.instructionId :: ids) (.op o))
    (hcount : givenCount emitted ≤ instructions.length) :
    PassesFaithful named destRegisters ids (.label l :: .op o :: instructions)
      (⟨.given, .label l⟩ :: emitted) := by
  intro tight held out _ hcasted _
  refine iff_of_false (not_keeps_of_lt ?_) ?_
  · have hle := hcasted.givenCount_le
    rw [givenCount_given rfl, ← length_heldInput] at hle
    rw [List.length_append, List.length_cons, List.length_cons]
    omega
  · rintro ⟨-, hafter, -⟩
    rw [hafter.loads _ _ rfl hneeds] at hplain
    cases hplain

end Cases

theorem Placed.passesFaithful {ids : List String} {instructions : List (Instruction Ty)}
    {emitted : List (Emitted Ty)} (h : Placed catalog ids instructions emitted) :
    PassesFaithful named destRegisters ids instructions emitted := by
  induction h with
  | nil => exact passesFaithful_nil
  | op _ hloads _ ih => exact passesFaithful_op hloads ih
  | label _ hnext hrest ih => exact passesFaithful_label hnext hrest.givenCount_le ih
  | hoisted _ _ hfault hneeds hloads _ ih => exact passesFaithful_hoisted hfault hneeds hloads ih
  | lost _ _ hplain hneeds hrest _ => exact passesFaithful_lost hplain hneeds hrest.givenCount_le

/-! ### The registers of the second pass -/

/-- The type of the register that holds a value: that of the instruction which defines it, or that of a
`li` when none does. -/
def producerType (catalog : InstructionCatalog Ty) (instructions : List (Instruction Ty)) (val : String) :
    Option Ty :=
  match instructions.find? fun producer => producer.instructionId = val with
  | some producer => producer.destination.map Operand.type
  | none => if isLiteralRegister val then none else catalog.li.destination.map Operand.type

/-- The instruction reads a register of another type than it takes. -/
def ReadsOtherType (catalog : InstructionCatalog Ty) (instructions : List (Instruction Ty))
    (instruction : Instruction Ty) : Prop :=
  ∃ src ∈ instruction.source, ∃ val ty, src.registerVal = some val ∧
    producerType catalog instructions val = some ty ∧ ty ≠ src.type

theorem unresolved_eq_some {resolvedIds : List String} {src : Operand Ty} {val : String} :
    src.unresolved resolvedIds = some val ↔
      src.registerVal = some val ∧ val ∉ resolvedIds ∧ isLiteralRegister val = false := by
  simp [Operand.unresolved, Option.filter_eq_some_iff]

section Producers
variable {needsCast : Instruction Ty → Prop} {ids : List String} {instructions : List (Instruction Ty)}
  {emitted : List (Emitted Ty)}

/-- The entry is a `li` of a value that is not defined yet. -/
theorem LiFor.fresh {source : List (Operand Ty)} {entry : Emitted Ty}
    (h : LiFor catalog ids source entry) : entry.instruction.instructionId ∉ ids ∧
      isLiteralRegister entry.instruction.instructionId = false := by
  obtain ⟨src, -, hval⟩ := h.value
  exact (unresolved_eq_some.mp hval).2

/-- An entry of the first pass is an instruction of the list, or a `li` of a value that is not defined
before it. -/
theorem Placed.mem (h : Placed catalog ids instructions emitted) {entry : Emitted Ty}
    (hentry : entry ∈ emitted) : entry.instruction.instructionId ∉ ids ∧
      (entry.instruction ∈ instructions ∨
        (isLiteralRegister entry.instruction.instructionId = false ∧
          entry.instruction.destination.map Operand.type = catalog.li.destination.map Operand.type)) := by
  induction h with
  | nil => exact absurd hentry List.not_mem_nil
  | op hfresh hloads _ ih =>
      rcases List.mem_append.mp hentry with hentry | hentry
      · have hli := hloads.each entry hentry
        exact ⟨fun hmem => hli.fresh.1 (List.mem_cons_of_mem _ hmem),
          Or.inr ⟨hli.fresh.2, hli.type⟩⟩
      · rcases List.mem_cons.mp hentry with rfl | hentry
        · exact ⟨hfresh, Or.inl List.mem_cons_self⟩
        · obtain ⟨hid, hcase⟩ := ih hentry
          exact ⟨fun hmem => hid (List.mem_cons_of_mem _ hmem),
            hcase.imp_left (List.mem_cons_of_mem _)⟩
  | label hfresh _ _ ih =>
      rcases List.mem_cons.mp hentry with rfl | hentry
      · exact ⟨hfresh, Or.inl List.mem_cons_self⟩
      · obtain ⟨hid, hcase⟩ := ih hentry
        exact ⟨fun hmem => hid (List.mem_cons_of_mem _ hmem),
          hcase.imp_left (List.mem_cons_of_mem _)⟩
  | hoisted hfresh hfresh' _ _ hloads _ ih =>
      rcases List.mem_append.mp hentry with hentry | hentry
      · have hli := hloads.each entry hentry
        exact ⟨fun hmem => hli.fresh.1 (List.mem_cons_of_mem _ (List.mem_cons_of_mem _ hmem)),
          Or.inr ⟨hli.fresh.2, hli.type⟩⟩
      · rcases List.mem_cons.mp hentry with rfl | hentry
        · exact ⟨hfresh, Or.inl List.mem_cons_self⟩
        · rcases List.mem_cons.mp hentry with rfl | hentry
          · exact ⟨fun hmem => hfresh' (List.mem_cons_of_mem _ hmem),
              Or.inl (List.mem_cons_of_mem _ List.mem_cons_self)⟩
          · obtain ⟨hid, hcase⟩ := ih hentry
            exact ⟨fun hmem => hid (List.mem_cons_of_mem _ (List.mem_cons_of_mem _ hmem)),
              hcase.imp_left fun h => List.mem_cons_of_mem _ (List.mem_cons_of_mem _ h)⟩
  | lost hfresh _ _ _ _ ih =>
      rcases List.mem_cons.mp hentry with rfl | hentry
      · exact ⟨hfresh, Or.inl List.mem_cons_self⟩
      · obtain ⟨hid, hcase⟩ := ih hentry
        exact ⟨fun hmem => hid (List.mem_cons_of_mem _ (List.mem_cons_of_mem _ hmem)),
          hcase.imp_left fun h => List.mem_cons_of_mem _ (List.mem_cons_of_mem _ h)⟩

theorem Placed.ne_of_mem (h : Placed catalog ids instructions emitted) {val : String} (hval : val ∈ ids) :
    ∀ entry ∈ emitted, entry.instruction.instructionId ≠ val := fun _ hentry heq =>
  (h.mem hentry).1 (heq ▸ hval)

/-- A given entry is the last one of its id. -/
theorem Placed.split_given (h : Placed catalog ids instructions emitted) {entry : Emitted Ty} (hentry : entry ∈ emitted)
    (hgiven : entry.origin = .given) : ∃ front back, emitted = front ++ entry :: back ∧
      ∀ other ∈ back, other.instruction.instructionId ≠ entry.instruction.instructionId := by
  have hloaded : ∀ {ids source} {lis : List (Emitted Ty)}, Loads catalog ids source lis → entry ∉ lis := by
    intro ids source lis hloads hmem
    rw [(hloads.each entry hmem).origin] at hgiven
    cases hgiven
  induction h with
  | nil => exact absurd hentry List.not_mem_nil
  | @op _ o _ lis _ _ hloads hrest ih =>
      rcases List.mem_cons.mp ((List.mem_append.mp hentry).resolve_left (hloaded hloads)) with rfl | hentry
      · exact ⟨_, _, rfl, hrest.ne_of_mem List.mem_cons_self⟩
      · obtain ⟨front, back, rfl, hback⟩ := ih hentry
        exact ⟨lis ++ ⟨.given, .op o⟩ :: front, back, by simp, hback⟩
  | @label _ l _ _ _ _ hrest ih =>
      rcases List.mem_cons.mp hentry with rfl | hentry
      · exact ⟨[], _, rfl, hrest.ne_of_mem List.mem_cons_self⟩
      · obtain ⟨front, back, rfl, hback⟩ := ih hentry
        exact ⟨⟨.given, .label l⟩ :: front, back, rfl, hback⟩
  | @hoisted _ l o _ lis _ _ hfresh' _ _ hloads hrest ih =>
      rcases List.mem_cons.mp ((List.mem_append.mp hentry).resolve_left (hloaded hloads)) with rfl | hentry
      · refine ⟨lis, _, rfl, fun other hother => ?_⟩
        rcases List.mem_cons.mp hother with rfl | hother
        · exact fun heq => hfresh' (List.mem_cons.mpr (Or.inl heq))
        · exact hrest.ne_of_mem (List.mem_cons_of_mem _ List.mem_cons_self) other hother
      · rcases List.mem_cons.mp hentry with rfl | hentry
        · exact ⟨lis ++ [⟨.given, .label l⟩], _, by simp, hrest.ne_of_mem List.mem_cons_self⟩
        · obtain ⟨front, back, rfl, hback⟩ := ih hentry
          exact ⟨lis ++ ⟨.given, .label l⟩ :: ⟨.given, .op o⟩ :: front, back, by simp, hback⟩
  | @lost _ l _ _ _ _ _ _ _ hrest ih =>
      rcases List.mem_cons.mp hentry with rfl | hentry
      · exact ⟨[], _, rfl, hrest.ne_of_mem (List.mem_cons_of_mem _ List.mem_cons_self)⟩
      · obtain ⟨front, back, rfl, hback⟩ := ih hentry
        exact ⟨⟨.given, .label l⟩ :: front, back, rfl, hback⟩

/-- When nothing is lost, every instruction is a given entry. -/
theorem Placed.mem_given (h : Placed catalog ids instructions emitted)
    (hlabels : AllLabels named needsCast ids instructions) {producer : Instruction Ty}
    (hproducer : producer ∈ instructions) : (⟨.given, producer⟩ : Emitted Ty) ∈ emitted := by
  induction h with
  | nil => exact absurd hproducer List.not_mem_nil
  | op _ _ _ ih =>
      refine List.mem_append_right _ ?_
      rcases List.mem_cons.mp hproducer with rfl | hproducer
      · exact List.mem_cons_self
      · exact List.mem_cons_of_mem _ (ih hlabels hproducer)
  | label _ _ _ ih =>
      rcases List.mem_cons.mp hproducer with rfl | hproducer
      · exact List.mem_cons_self
      · exact List.mem_cons_of_mem _ (ih hlabels.2 hproducer)
  | hoisted _ _ _ _ _ _ ih =>
      refine List.mem_append_right _ ?_
      rcases List.mem_cons.mp hproducer with rfl | hproducer
      · exact List.mem_cons_self
      · refine List.mem_cons_of_mem _ ?_
        rcases List.mem_cons.mp hproducer with rfl | hproducer
        · exact List.mem_cons_self
        · exact List.mem_cons_of_mem _ (ih hlabels.2 hproducer)
  | lost _ _ hplain hneeds _ _ =>
      rw [hlabels.1.loads _ _ rfl hneeds] at hplain
      cases hplain

/-- When nothing is lost, every value that the list reads and does not define is loaded. -/
theorem Placed.loaded (h : Placed catalog ids instructions emitted)
    (hlabels : AllLabels named needsCast ids instructions) {val : String} (hids : val ∉ ids)
    (hval : ∀ other ∈ instructions, other.instructionId ≠ val) (hliteral : isLiteralRegister val = false)
    {instruction : Instruction Ty} (hmem : instruction ∈ instructions) {src : Operand Ty}
    (hsrc : src ∈ instruction.source) (hregister : src.registerVal = some val) :
    ∃ entry ∈ emitted, entry.instruction.instructionId = val := by
  induction h with
  | nil => exact absurd hmem List.not_mem_nil
  | @op _ o _ lis _ _ hloads _ ih =>
      have hids' : val ∉ o.instructionId :: _ :=
        List.not_mem_cons_of_ne_of_not_mem (hval _ List.mem_cons_self).symm hids
      rcases List.mem_cons.mp hmem with rfl | hmem
      · obtain ⟨entry, hentry, hid⟩ :=
          hloads.all src hsrc val (unresolved_eq_some.mpr ⟨hregister, hids', hliteral⟩)
        exact ⟨entry, List.mem_append_left _ hentry, hid⟩
      · obtain ⟨entry, hentry, hid⟩ := ih hlabels hids'
          (fun other hother => hval other (List.mem_cons_of_mem _ hother)) hmem
        exact ⟨entry, List.mem_append_right _ (List.mem_cons_of_mem _ hentry), hid⟩
  | @label _ l _ _ _ _ _ ih =>
      have hids' : val ∉ l.instructionId :: _ :=
        List.not_mem_cons_of_ne_of_not_mem (hval _ List.mem_cons_self).symm hids
      rcases List.mem_cons.mp hmem with rfl | hmem
      · exact absurd hsrc List.not_mem_nil
      · obtain ⟨entry, hentry, hid⟩ := ih hlabels.2 hids'
          (fun other hother => hval other (List.mem_cons_of_mem _ hother)) hmem
        exact ⟨entry, List.mem_cons_of_mem _ hentry, hid⟩
  | @hoisted _ l o _ lis _ _ _ _ _ hloads _ ih =>
      have hids' : val ∉ l.instructionId :: _ :=
        List.not_mem_cons_of_ne_of_not_mem (hval _ List.mem_cons_self).symm hids
      have hids'' : val ∉ o.instructionId :: l.instructionId :: _ :=
        List.not_mem_cons_of_ne_of_not_mem
          (hval _ (List.mem_cons_of_mem _ List.mem_cons_self)).symm hids'
      rcases List.mem_cons.mp hmem with rfl | hmem
      · exact absurd hsrc List.not_mem_nil
      · rcases List.mem_cons.mp hmem with rfl | hmem
        · obtain ⟨entry, hentry, hid⟩ :=
            hloads.all src hsrc val (unresolved_eq_some.mpr ⟨hregister, hids'', hliteral⟩)
          exact ⟨entry, List.mem_append_left _ hentry, hid⟩
        · obtain ⟨entry, hentry, hid⟩ := ih hlabels.2 hids'' (fun other hother => hval other
            (List.mem_cons_of_mem _ (List.mem_cons_of_mem _ hother))) hmem
          exact ⟨entry, List.mem_append_right _ (List.mem_cons_of_mem _
            (List.mem_cons_of_mem _ hentry)), hid⟩
  | lost _ _ hplain hneeds _ _ =>
      rw [hlabels.1.loads _ _ rfl hneeds] at hplain
      cases hplain

theorem destRegister_of_split {front back : List (Emitted Ty)} {entry : Emitted Ty}
    (hback : ∀ other ∈ back, other.instruction.instructionId ≠ entry.instruction.instructionId) :
    destRegister (front ++ entry :: back) entry.instruction.instructionId =
      some entry.instruction := by
  have hnone : (back.reverse.find? fun other =>
      other.instruction.instructionId = entry.instruction.instructionId) = none :=
    List.find?_eq_none.mpr fun other hother => by simpa using hback other (List.mem_reverse.mp hother)
  simp [destRegister, hnone]

theorem mem_of_destRegister {val : String} {instruction : Instruction Ty}
    (h : destRegister emitted val = some instruction) :
    ∃ entry ∈ emitted, entry.instruction = instruction ∧ instruction.instructionId = val := by
  obtain ⟨entry, hfind, rfl⟩ := Option.map_eq_some_iff.mp h
  exact ⟨entry, List.mem_reverse.mp (List.mem_of_find?_eq_some hfind), rfl,
    by simpa using List.find?_some hfind⟩

theorem exists_destRegister {val : String}
    (h : ∃ entry ∈ emitted, entry.instruction.instructionId = val) :
    ∃ instruction, destRegister emitted val = some instruction := by
  obtain ⟨entry, hentry, hid⟩ := h
  have hsome : (emitted.reverse.find? fun other => other.instruction.instructionId = val).isSome :=
    List.find?_isSome.mpr ⟨entry, List.mem_reverse.mpr hentry, by simpa using hid⟩
  obtain ⟨found, hfound⟩ := Option.isSome_iff_exists.mp hsome
  exact ⟨found.instruction, by simp [destRegister, hfound]⟩

/-- When nothing is lost, the second pass finds for a value the type that the input gives it. -/
theorem Placed.producerType (h : Placed catalog [] instructions emitted)
    (hlabels : AllLabels named needsCast [] instructions) {instruction : Instruction Ty}
    (hmem : instruction ∈ instructions) {src : Operand Ty} (hsrc : src ∈ instruction.source)
    {val : String} (hregister : src.registerVal = some val) :
    (destRegister emitted val).bind (fun producer => producer.destination.map Operand.type) =
      producerType catalog instructions val := by
  unfold Legalizer.producerType
  cases hfind : instructions.find? fun producer => producer.instructionId = val with
  | some producer =>
      have hid : producer.instructionId = val := by simpa using List.find?_some hfind
      obtain ⟨front, back, rfl, hback⟩ := h.split_given (h.mem_given hlabels (List.mem_of_find?_eq_some hfind)) rfl
      have := @destRegister_of_split Ty front back ⟨.given, producer⟩ hback
      rw [← hid, this]
      rfl
  | none =>
      have hval : ∀ other ∈ instructions, other.instructionId ≠ val := fun other hother =>
        by simpa using List.find?_eq_none.mp hfind other hother
      -- any entry of this id is a `li`
      have hentry : ∀ producer, destRegister emitted val = some producer →
          isLiteralRegister val = false ∧
            producer.destination.map Operand.type = catalog.li.destination.map Operand.type := by
        intro producer hproducer
        obtain ⟨entry, hentry, rfl, hid⟩ := mem_of_destRegister hproducer
        obtain ⟨-, hgiven | hli⟩ := h.mem hentry
        · exact absurd hid (hval _ hgiven)
        · rwa [hid] at hli
      cases hliteral : isLiteralRegister val with
      | true =>
          cases hproducer : destRegister emitted val with
          | none => rfl
          | some producer =>
              have := (hentry producer hproducer).1
              rw [hliteral] at this
              cases this
      | false =>
          obtain ⟨producer, hproducer⟩ := exists_destRegister
            (h.loaded hlabels List.not_mem_nil hval hliteral hmem hsrc hregister)
          rw [hproducer]
          exact (hentry producer hproducer).2

theorem Placed.castIn_iff (h : Placed catalog [] instructions emitted)
    (hlabels : AllLabels named needsCast [] instructions) {instruction : Instruction Ty}
    (hmem : instruction ∈ instructions) :
    CastIn (destRegister emitted) instruction ↔ ReadsOtherType catalog instructions instruction := by
  constructor
  · rintro ⟨src, hsrc, val, producer, producerDest, hregister, hproducer, hdest, htype⟩
    refine ⟨src, hsrc, val, producerDest.type, hregister, ?_, htype⟩
    rw [← h.producerType hlabels hmem hsrc hregister, hproducer, Option.bind_some, hdest]
    rfl
  · rintro ⟨src, hsrc, val, ty, hregister, htype, hne⟩
    rw [← h.producerType hlabels hmem hsrc hregister] at htype
    obtain ⟨producer, hproducer, hdest⟩ := Option.bind_eq_some_iff.mp htype
    obtain ⟨producerDest, hdest', rfl⟩ := Option.map_eq_some_iff.mp hdest
    exact ⟨src, hsrc, val, producer, producerDest, hregister, hproducer, hdest', hne⟩

end Producers

/-! ### The condition on the input -/

/-- Where the passes leave the list intact. A label in front of an instruction that needs a load has to be
named as a fault label; a label with the flag is followed by something, and not by another one with the
flag; a marked label without the flag stands in front of no cast; and no load, nor a cast behind a
second label with the flag, comes in front of the label after a marked one. -/
structure Legalizable (named : Label → Prop) (catalog : InstructionCatalog Ty)
    (instructions : List (Instruction Ty)) : Prop where
  loads : ∀ front l next back, instructions = front ++ .label l :: next :: back →
    NeedsLi ((front ++ [.label l, next]).map Instruction.instructionId) next →
    l.namedFaultLabel = true
  held : ∀ front l back, instructions = front ++ .label l :: back → l.instructionPointer = true →
    ∃ next rest, back = next :: rest ∧ next.isFaultLabel = false
  casts : ∀ front l next back, instructions = front ++ .label l :: next :: back →
    l.Marked named → l.instructionPointer = false → ¬ReadsOtherType catalog instructions next
  labels : ∀ front l b next back, instructions = front ++ .label l :: .label b :: next :: back →
    l.Marked named →
    ¬NeedsLi ((front ++ [.label l, .label b, next]).map Instruction.instructionId) next ∧
      (b.instructionPointer = true → ¬ReadsOtherType catalog instructions next)

theorem needsLi_congr {ids ids' : List String} (h : ∀ val, val ∈ ids ↔ val ∈ ids')
    (instruction : Instruction Ty) : NeedsLi ids instruction ↔ NeedsLi ids' instruction := by
  simp only [NeedsLi, unresolved_eq_some, h]

section Condition
variable {needsCast needsCast' : Instruction Ty → Prop} {ids : List String}
  {instructions : List (Instruction Ty)}

theorem AfterLabel.congr {l : Label} (h : ∀ x ∈ instructions, needsCast x ↔ needsCast' x)
    (hafter : AfterLabel named needsCast ids l instructions) :
    AfterLabel named needsCast' ids l instructions := by
  refine ⟨hafter.loads, hafter.held, fun hmarked hflag next rest heq => ?_,
    fun hmarked b next rest heq => ?_⟩
  · rw [← h next (by rw [heq]; exact List.mem_cons_self)]
    exact hafter.casts hmarked hflag next rest heq
  · rw [← h next (by rw [heq]; exact List.mem_cons_of_mem _ List.mem_cons_self)]
    exact hafter.labels hmarked b next rest heq

theorem AllLabels.congr (h : ∀ x ∈ instructions, needsCast x ↔ needsCast' x)
    (hlabels : AllLabels named needsCast ids instructions) :
    AllLabels named needsCast' ids instructions := by
  induction instructions generalizing ids with
  | nil => trivial
  | cons instruction rest ih =>
      have hrest := fun x hx => h x (List.mem_cons_of_mem instruction hx)
      cases instruction with
      | label l => exact ⟨hlabels.1.congr hrest, ih hrest hlabels.2⟩
      | op o => exact ih hrest hlabels

theorem allLabels_iff_split : AllLabels named needsCast ids instructions ↔
    ∀ front l back, instructions = front ++ .label l :: back →
      AfterLabel named needsCast ((front.map Instruction.instructionId).reverse ++ ids) l back := by
  induction instructions generalizing ids with
  | nil => exact iff_of_true trivial fun front l back h => by cases front <;> cases h
  | cons instruction rest ih =>
      have hcons : ∀ front : List (Instruction Ty),
          ((instruction :: front).map Instruction.instructionId).reverse ++ ids =
            (front.map Instruction.instructionId).reverse ++ instruction.instructionId :: ids :=
        fun front => by simp
      have hrest : AllLabels named needsCast (instruction.instructionId :: ids) rest ↔
          ∀ front l back, instruction :: rest = (instruction :: front) ++ .label l :: back →
            AfterLabel named needsCast
              (((instruction :: front).map Instruction.instructionId).reverse ++ ids) l back := by
        simp only [hcons, List.cons_append, List.cons.injEq, true_and]
        exact ih
      constructor
      · intro h front l back heq
        cases front with
        | nil =>
            obtain ⟨rfl, rfl⟩ := List.cons.inj heq
            exact h.1
        | cons head front =>
            obtain rfl := (List.cons.inj heq).1
            cases instruction with
            | label l' => exact hrest.mp h.2 front l back heq
            | op o => exact hrest.mp h front l back heq
      · intro h
        have htail := hrest.mpr fun front l back heq => h _ l back heq
        cases instruction with
        | label l => exact ⟨h [] l rest rfl, htail⟩
        | op o => exact htail

theorem allLabels_iff_legalizable :
    AllLabels named (ReadsOtherType catalog instructions) [] instructions ↔
      Legalizable named catalog instructions := by
  have hone : ∀ (front : List (Instruction Ty)) (l : Label) (next : Instruction Ty),
      NeedsLi (next.instructionId :: l.instructionId ::
        ((front.map Instruction.instructionId).reverse ++ [])) next ↔
      NeedsLi ((front ++ [.label l, next]).map Instruction.instructionId) next := by
    refine fun front l next => needsLi_congr (fun val => ?_) next
    simp only [List.map_append, List.mem_append, List.mem_cons, List.mem_reverse, List.map_cons,
      List.map_nil, List.not_mem_nil, Instruction.instructionId]
    tauto
  have htwo : ∀ (front : List (Instruction Ty)) (l b : Label) (next : Instruction Ty),
      NeedsLi (next.instructionId :: b.instructionId :: l.instructionId ::
        ((front.map Instruction.instructionId).reverse ++ [])) next ↔
      NeedsLi ((front ++ [.label l, .label b, next]).map Instruction.instructionId) next := by
    refine fun front l b next => needsLi_congr (fun val => ?_) next
    simp only [List.map_append, List.mem_append, List.mem_cons, List.mem_reverse, List.map_cons,
      List.map_nil, List.not_mem_nil, Instruction.instructionId]
    tauto
  rw [allLabels_iff_split]
  constructor
  · intro h
    refine ⟨fun front l next back heq hneeds => ?_, fun front l back heq => ?_,
      fun front l next back heq hmarked hflag => ?_, fun front l b next back heq hmarked => ?_⟩
    · exact (h front l _ heq).loads next back rfl ((hone front l next).mpr hneeds)
    · exact (h front l back heq).held
    · exact (h front l _ heq).casts hmarked hflag next back rfl
    · rw [← htwo]
      exact (h front l _ heq).labels hmarked b next back rfl
  · intro h front l back heq
    refine ⟨fun next rest hback hneeds => ?_, h.held front l back heq,
      fun hmarked hflag next rest hback => ?_, fun hmarked b next rest hback => ?_⟩
    · exact h.loads front l next rest (by rw [heq, hback]) ((hone front l next).mp hneeds)
    · exact h.casts front l next rest (by rw [heq, hback]) hmarked hflag
    · rw [htwo]
      exact h.labels front l b next rest (by rw [heq, hback]) hmarked

end Condition

/-- Legalization loses and reorders nothing, and keeps every marked label in front of its successor,
exactly when the list is legalizable. -/
theorem legalize_faithful_iff [DecidableEq Ty] (named : Label → Prop)
    {instructions : List (Instruction Ty)} {ctx : LoweringContext Ty} {out : List (Emitted Ty)}
    (h : legalize instructions ctx = .ok out) :
    Faithful named instructions out ↔ Legalizable named ctx.instructionCatalog instructions := by
  obtain ⟨⟨emitted, ctx1⟩, hfirst, h⟩ := bind_ok h
  obtain ⟨⟨casted, ctx2⟩, hsecond, h⟩ := bind_ok h
  obtain rfl := Except.ok.inj h
  have hplaced := resolveLiImmediates_placed hfirst
  have hcasted := insertCastsLoop_casted hsecond
  have hkeeps : Keeps named False instructions casted ↔ _ :=
    (hplaced.passesFaithful : PassesFaithful named _ _ _ _) False none casted nofun hcasted (by simp)
  rw [← keeps_iff, hkeeps, and_iff_right (start_of_not_tight _), ← allLabels_iff_legalizable]
  exact ⟨fun h => h.congr fun x hx => hplaced.castIn_iff h hx,
    fun h => h.congr fun x hx => (hplaced.castIn_iff h hx).symm⟩

/-! ### Concrete lists -/

/-- A catalog of one register type and no casts. -/
def plainCatalog : InstructionCatalog Unit where
  li := ⟨"li", "", some ⟨"rd", (), .none, true⟩, [⟨"imm", (), .none, false⟩]⟩
  casts := fun _ _ => []
  li_source := by decide

def plainContext : LoweringContext Unit := ⟨plainCatalog, ⟨[7]⟩, 0⟩

/-- An instruction that reads `r0`, which nothing defines. -/
def readsUndefined : Instruction Unit := .op ⟨"jr", "i0", none, [⟨"rs1", (), .str "r0", true⟩]⟩

/-- The load of `r0`. -/
def loadOfUndefined : Emitted Unit :=
  ⟨.li, .op ⟨"li", "r0", some ⟨"rd", (), .str "r0", true⟩, [⟨"imm", (), .int 10, false⟩]⟩⟩

def faultLabel : Instruction Unit := .label ⟨"l0", "fault_label_0", true⟩

def otherFaultLabel : Instruction Unit := .label ⟨"l1", "fault_label_1", true⟩

def plainLabel : Instruction Unit := .label ⟨"l2", "loop", false⟩

/-- The load goes in front of the fault label. -/
theorem legalize_faithful_iff_faultLabel :
    Faithful (fun l => l.namedFaultLabel = true) [faultLabel, readsUndefined]
        [loadOfUndefined, ⟨.given, faultLabel⟩, ⟨.given, readsUndefined⟩] ↔
      Legalizable (fun l => l.namedFaultLabel = true) plainCatalog [faultLabel, readsUndefined] :=
  @legalize_faithful_iff Unit _ _ _ plainContext _ (by decide +kernel)

def nop : Instruction Unit := .op ⟨"nop", "i1", none, []⟩

/-- Behind a plain label an instruction that needs a load is lost, and of two consecutive fault labels the
first one is. -/
theorem legalize_loses :
    (legalize [plainLabel, readsUndefined] plainContext = .ok [⟨.given, plainLabel⟩] ∧
      ∀ named, ¬Faithful named [plainLabel, readsUndefined] [⟨.given, plainLabel⟩]) ∧
    (legalize [faultLabel, otherFaultLabel, nop] plainContext =
        .ok [⟨.given, otherFaultLabel⟩, ⟨.given, nop⟩] ∧
      ∀ named, ¬Faithful named [faultLabel, otherFaultLabel, nop]
        [⟨.given, otherFaultLabel⟩, ⟨.given, nop⟩]) := by
  refine ⟨⟨by decide +kernel, fun named h => ?_⟩, by decide +kernel, fun named h => ?_⟩
  · have := h.order.length_eq
    simp at this
  · have := h.order.length_eq
    simp at this

end Riescue.Legalizer
