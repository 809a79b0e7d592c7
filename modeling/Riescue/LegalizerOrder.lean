import Riescue.LegalizerPlacement

/-! What survives legalization. The output is read entry by entry against the input: the passes keep
every instruction, and every fault label in front of its successor, exactly when no label stands where
one of them drops an instruction, overwrites a held label or inserts behind a label. -/

namespace Riescue.Legalizer
variable {Ty : Type}

/-- A label marked as a fault label: by its flag, or by the further notion `named`. -/
def Label.Marked (named : Label → Prop) (l : Label) : Prop :=
  l.instructionPointer = true ∨ named l

def Instruction.Marked (named : Label → Prop) : Instruction Ty → Prop
  | .label l => l.Marked named
  | .op _ => False

/-- Without its inserted instructions the output is the input, and nothing is inserted between a marked
label and the instruction that follows it. -/
structure Faithful (named : Label → Prop) (instructions : List (Instruction Ty))
    (out : List (Emitted Ty)) : Prop where
  order : List.Forall₂ SameObject instructions
    ((out.filter fun emitted => emitted.origin = .given).map Emitted.instruction)
  labels : ∀ front l inserted back, out = front ++ ⟨.given, .label l⟩ :: inserted :: back →
    l.Marked named → inserted.origin ≠ .given → ∀ emitted ∈ back, emitted.origin ≠ .given

/-! ### Reading the output against the input -/

/-- The output gives the input back. `tight` says that a marked label has just been read and that its
successor is still to come. -/
def Keeps (named : Label → Prop) (tight : Prop) (instructions : List (Instruction Ty)) :
    List (Emitted Ty) → Prop
  | [] => instructions = []
  | emitted :: out =>
      (emitted.origin = .given ∧ ∃ next rest, instructions = next :: rest ∧
        SameObject next emitted.instruction ∧
        Keeps named (next.Marked named ∧ rest ≠ []) rest out) ∨
      (emitted.origin ≠ .given ∧ ¬tight ∧ Keeps named tight instructions out)

variable {named : Label → Prop} {tight : Prop} {instructions : List (Instruction Ty)}
  {out : List (Emitted Ty)}

theorem keeps_given {next : Instruction Ty} {emitted : Emitted Ty} (horigin : emitted.origin = .given)
    (hsame : SameObject next emitted.instruction) :
    Keeps named tight (next :: instructions) (emitted :: out) ↔
      Keeps named (next.Marked named ∧ instructions ≠ []) instructions out := by
  constructor
  · rintro (⟨-, _, _, heq, -, hkeeps⟩ | ⟨hne, -⟩)
    · obtain ⟨rfl, rfl⟩ := List.cons.inj heq
      exact hkeeps
    · exact absurd horigin hne
  · exact fun hkeeps => Or.inl ⟨horigin, next, instructions, rfl, hsame, hkeeps⟩

theorem keeps_inserted {inserted : List (Emitted Ty)}
    (horigin : ∀ emitted ∈ inserted, emitted.origin ≠ .given) :
    Keeps named tight instructions (inserted ++ out) ↔
      (tight → inserted = []) ∧ Keeps named tight instructions out := by
  induction inserted with
  | nil => simp
  | cons emitted inserted ih =>
      have hne := horigin emitted List.mem_cons_self
      have ih := ih fun other hother => horigin other (List.mem_cons_of_mem emitted hother)
      rw [List.cons_append, Keeps]
      simp only [hne, ne_eq, not_false_eq_true, true_and, false_and, false_or, ih,
        List.cons_ne_nil, imp_false]
      tauto

/-- Tightness only matters for the entries before the next given one. -/
theorem keeps_op {o : Op Ty} {emitted : Emitted Ty} (horigin : emitted.origin = .given)
    (hsame : SameObject (.op o) emitted.instruction) :
    Keeps named tight (.op o :: instructions) (emitted :: out) ↔
      Keeps named False instructions out := by
  rw [keeps_given horigin hsame]
  simp [Instruction.Marked]

def givenCount (emitted : List (Emitted Ty)) : ℕ :=
  emitted.countP fun emitted => emitted.origin = .given

theorem Keeps.length_eq (h : Keeps named tight instructions out) :
    instructions.length = givenCount out := by
  induction out generalizing tight instructions with
  | nil =>
      rw [show instructions = [] from h]
      rfl
  | cons emitted out ih =>
      rcases h with ⟨horigin, next, rest, rfl, -, hkeeps⟩ | ⟨hne, -, hkeeps⟩
      · rw [List.length_cons, ih hkeeps, givenCount, givenCount, List.countP_cons_of_pos (by simpa)]
      · rw [ih hkeeps, givenCount, givenCount, List.countP_cons_of_neg (by simpa)]

theorem SameObject.eq_label {given : Instruction Ty} {l : Label} (h : SameObject given (.label l)) :
    given = .label l := by
  obtain ⟨source, heq, -⟩ := h
  cases given with
  | label l' => exact heq.symm
  | op o => cases heq

theorem Faithful.of_cons {emitted : Emitted Ty}
    (h : ∀ front l inserted back, emitted :: out = front ++ ⟨.given, .label l⟩ :: inserted :: back →
      l.Marked named → inserted.origin ≠ .given → ∀ other ∈ back, other.origin ≠ .given)
    (front : List (Emitted Ty)) (l : Label) (inserted : Emitted Ty) (back : List (Emitted Ty))
    (hout : out = front ++ ⟨.given, .label l⟩ :: inserted :: back) (hmarked : l.Marked named)
    (hne : inserted.origin ≠ .given) : ∀ other ∈ back, other.origin ≠ .given :=
  h (emitted :: front) l inserted back (by rw [hout]; rfl) hmarked hne

theorem keeps_iff_of_tight :
    Keeps named tight instructions out ↔ Faithful named instructions out ∧
      (tight → ∀ emitted rest, out = emitted :: rest → emitted.origin = .given) := by
  induction out generalizing tight instructions with
  | nil =>
      constructor
      · intro h
        rw [show instructions = [] from h]
        exact ⟨⟨.nil, by simp⟩, fun _ _ _ h => by cases h⟩
      · rintro ⟨⟨horder, -⟩, -⟩
        exact List.forall₂_nil_right_iff.mp horder
  | cons emitted out ih =>
      by_cases hgiven : emitted.origin = .given
      · have hfilter : ((emitted :: out).filter fun e => e.origin = .given) =
            emitted :: out.filter fun e => e.origin = .given :=
          List.filter_cons_of_pos (by simpa using hgiven)
        constructor
        · rintro (⟨-, next, rest, rfl, hsame, hkeeps⟩ | ⟨hne, -⟩)
          · obtain ⟨⟨horder, hlabels⟩, htight⟩ := ih.mp hkeeps
            refine ⟨⟨?_, ?_⟩, fun _ other rest h => (List.cons.inj h).1 ▸ hgiven⟩
            · rw [hfilter]
              exact .cons hsame horder
            · intro front l inserted back hout hmarked hne
              cases front with
              | nil =>
                  obtain ⟨rfl, rfl⟩ := List.cons.inj hout
                  obtain rfl := hsame.eq_label
                  -- only the last given entry may be followed by an inserted one
                  by_cases hrest : rest = []
                  · subst hrest
                    have hnone := List.map_eq_nil_iff.mp (List.forall₂_nil_left_iff.mp horder)
                    intro other hother horigin
                    refine List.filter_eq_nil_iff.mp hnone other (List.mem_cons_of_mem _ hother) ?_
                    simpa using horigin
                  · exact absurd (htight ⟨hmarked, hrest⟩ inserted back rfl) hne
              | cons head front => exact hlabels front l inserted back (List.cons.inj hout).2 hmarked hne
          · exact absurd hgiven hne
        · rintro ⟨⟨horder, hlabels⟩, -⟩
          rw [hfilter, List.map_cons] at horder
          obtain ⟨next, rest, hsame, hrests, rfl⟩ := List.forall₂_cons_right_iff.mp horder
          clear horder
          refine Or.inl ⟨hgiven, next, rest, rfl, hsame, ih.mpr ⟨⟨hrests, ?_⟩, ?_⟩⟩
          · exact Faithful.of_cons hlabels
          · rintro ⟨hmarked, hrest⟩ other back rfl
            by_contra hne
            obtain ⟨l, rfl⟩ : ∃ l, next = .label l := by
              cases next with
              | label l => exact ⟨l, rfl⟩
              | op o => exact hmarked.elim
            have hemitted : emitted = ⟨.given, .label l⟩ := by
              cases emitted with
              | mk origin instruction => exact congrArg₂ Emitted.mk hgiven hsame.label
            have hback := hlabels [] l other back (by rw [hemitted]; rfl) hmarked hne
            rw [List.filter_cons_of_neg (by simpa using hne),
              List.filter_eq_nil_iff.mpr fun e he => by simpa using hback e he] at hrests
            exact hrest (List.forall₂_nil_right_iff.mp hrests)
      · have hfilter : ((emitted :: out).filter fun e => e.origin = .given) =
            out.filter fun e => e.origin = .given :=
          List.filter_cons_of_neg (by simpa using hgiven)
        constructor
        · rintro (⟨horigin, -⟩ | ⟨-, htight, hkeeps⟩)
          · exact absurd horigin hgiven
          · obtain ⟨⟨horder, hlabels⟩, -⟩ := ih.mp hkeeps
            refine ⟨⟨by rwa [hfilter], ?_⟩, fun h => absurd h htight⟩
            intro front l inserted back hout hmarked hne
            cases front with
            | nil => exact absurd (congrArg Emitted.origin (List.cons.inj hout).1) hgiven
            | cons head front => exact hlabels front l inserted back (List.cons.inj hout).2 hmarked hne
        · rintro ⟨⟨horder, hlabels⟩, htight⟩
          rw [hfilter] at horder
          have hloose : ¬tight := fun h => hgiven (htight h emitted out rfl)
          exact Or.inr ⟨hgiven, hloose, ih.mpr ⟨⟨horder, Faithful.of_cons hlabels⟩,
            fun h => absurd h hloose⟩⟩

theorem keeps_iff : Keeps named False instructions out ↔ Faithful named instructions out := by
  rw [keeps_iff_of_tight]
  exact and_iff_left fun h => h.elim

/-! ### The two passes together -/

theorem givenCount_append (front back : List (Emitted Ty)) :
    givenCount (front ++ back) = givenCount front + givenCount back := List.countP_append

theorem givenCount_eq_zero {inserted : List (Emitted Ty)}
    (h : ∀ emitted ∈ inserted, emitted.origin ≠ .given) : givenCount inserted = 0 :=
  List.countP_eq_zero.mpr fun emitted hemitted => by simpa using h emitted hemitted

theorem givenCount_given {emitted : Emitted Ty} (h : emitted.origin = .given)
    (rest : List (Emitted Ty)) : givenCount (emitted :: rest) = givenCount rest + 1 :=
  List.countP_cons_of_pos (by simpa using h)

theorem Loads.origin {catalog : InstructionCatalog Ty} {ids : List String}
    {source : List (Operand Ty)} {lis : List (Emitted Ty)} (h : Loads catalog ids source lis) :
    ∀ emitted ∈ lis, emitted.origin ≠ .given := fun emitted hemitted => by
  simp [(h.each emitted hemitted).origin]

/-- The first pass never emits more given instructions than it gets. -/
theorem Placed.givenCount_le {catalog : InstructionCatalog Ty} {ids : List String}
    {emitted : List (Emitted Ty)} (h : Placed catalog ids instructions emitted) :
    givenCount emitted ≤ instructions.length := by
  induction h with
  | nil => exact le_rfl
  | op _ hloads _ ih =>
      rw [givenCount_append, givenCount_eq_zero hloads.origin, givenCount_given rfl, List.length_cons]
      omega
  | label _ _ _ ih =>
      rw [givenCount_given rfl, List.length_cons]
      omega
  | hoisted _ _ _ _ hloads _ ih =>
      rw [givenCount_append, givenCount_eq_zero hloads.origin, givenCount_given rfl,
        givenCount_given rfl, List.length_cons, List.length_cons]
      omega
  | lost _ _ _ _ _ ih =>
      rw [givenCount_given rfl, List.length_cons, List.length_cons]
      omega

section Casting
variable {destRegisters : String → Option (Instruction Ty)} {held : Option (Emitted Ty)}

theorem Casts.origin_ne {source source' : List (Operand Ty)} {casts : List (Emitted Ty)}
    (h : Casts destRegisters source casts source') : ∀ cast ∈ casts, cast.origin ≠ .given :=
  fun cast hcast => by simp [h.origin cast hcast]

/-- Nor does the second pass. -/
theorem Casted.givenCount_le {emitted : List (Emitted Ty)}
    (h : Casted destRegisters held emitted out) :
    givenCount out ≤ givenCount held.toList + givenCount emitted := by
  induction h with
  | nil => simp [givenCount]
  | @hold held emitted rest out _ _ ih =>
      have hone : givenCount (emitted :: rest) = givenCount [emitted] + givenCount rest :=
        givenCount_append [emitted] rest
      rw [hone]
      exact ih.trans (Nat.le_add_left _ _)
  | @emit held emitted rest casts source out _ hcasts _ ih =>
      have hone : ∀ e : Emitted Ty, ∀ l, givenCount (e :: l) = givenCount [e] + givenCount l :=
        fun e l => givenCount_append [e] l
      have hsame : givenCount [{ emitted with
          instruction := emitted.instruction.withSource source }] = givenCount [emitted] := by
        simp [givenCount]
      rw [givenCount_append, givenCount_append, givenCount_eq_zero hcasts.origin_ne, hone, hsame,
        hone emitted rest]
      rw [show givenCount (none : Option (Emitted Ty)).toList = 0 from rfl] at ih
      omega

theorem not_needsCast_of_reads {source : List (Operand Ty)}
    (h : ∀ src ∈ source, src.registerVal = none) : ¬NeedsCast destRegisters source := by
  rintro ⟨src, hsrc, val, producer, producerDest, hval, -⟩
  rw [h src hsrc] at hval
  cases hval

/-- A `li` reads no register, so it passes the second pass as it is, behind a label held back. -/
theorem Casted.loads {catalog : InstructionCatalog Ty} {ids : List String}
    {source : List (Operand Ty)} {lis rest : List (Emitted Ty)}
    (hloads : ∀ emitted ∈ lis, LiFor catalog ids source emitted) (hne : lis ≠ [])
    (h : Casted destRegisters held (lis ++ rest) out) :
    ∃ inserted out', out = held.toList ++ (inserted ++ out') ∧ inserted ≠ [] ∧
      (∀ emitted ∈ inserted, emitted.origin ≠ .given) ∧ Casted destRegisters none rest out' := by
  induction lis generalizing held out with
  | nil => exact absurd rfl hne
  | cons li lis ih =>
      have hli := hloads li List.mem_cons_self
      have hrest := fun other hother => hloads other (List.mem_cons_of_mem li hother)
      rw [List.cons_append] at h
      cases h with
      | hold hfault =>
          rw [hli.isOp] at hfault
          cases hfault
      | @emit _ _ _ casts source' out _ hcasts h =>
          obtain rfl := hcasts.nil_iff.mpr (not_needsCast_of_reads hli.reads)
          let li' : Emitted Ty := { li with instruction := li.instruction.withSource source' }
          have horigin : li'.origin ≠ .given := by simp [li', hli.origin]
          by_cases hlast : lis = []
          · subst hlast
            exact ⟨[li'], out, by simp [li'], by simp, by simpa using horigin, h⟩
          · obtain ⟨inserted, out', rfl, -, horigins, h⟩ := ih hrest hlast h
            refine ⟨li' :: inserted, out', by simp [li'], by simp, ?_, h⟩
            intro other hother
            rcases List.mem_cons.mp hother with rfl | hother
            · exact horigin
            · exact horigins other hother

/-- An instruction that is no fault label is emitted, behind its casts and a label held back. -/
theorem Casted.op {o : Op Ty} {rest : List (Emitted Ty)}
    (h : Casted destRegisters held (⟨.given, .op o⟩ :: rest) out) :
    ∃ casts emitted out', out = casts ++ held.toList ++ emitted :: out' ∧
      (casts = [] ↔ ¬NeedsCast destRegisters o.source) ∧ (∀ cast ∈ casts, cast.origin ≠ .given) ∧
      emitted.origin = .given ∧ SameObject (.op o) emitted.instruction ∧
      Casted destRegisters none rest out' := by
  cases h with
  | hold hfault => cases hfault
  | emit _ hcasts hrest =>
      exact ⟨_, _, _, rfl, hcasts.nil_iff, hcasts.origin_ne, rfl, ⟨_, rfl, hcasts.same⟩, hrest⟩

theorem Casted.label {l : Label} {rest : List (Emitted Ty)}
    (h : Casted destRegisters held (⟨.given, .label l⟩ :: rest) out) :
    (l.instructionPointer = true ∧ Casted destRegisters (some ⟨.given, .label l⟩) rest out) ∨
    (l.instructionPointer = false ∧ ∃ out', out = held.toList ++ ⟨.given, .label l⟩ :: out' ∧
      Casted destRegisters none rest out') := by
  cases h with
  | hold hfault hrest => exact Or.inl ⟨hfault, hrest⟩
  | emit hother hcasts hrest =>
      refine Or.inr ⟨hother, _, ?_, hrest⟩
      have hnil := hcasts.nil_iff.mpr (by rintro ⟨src, hsrc, -⟩; exact List.not_mem_nil hsrc)
      rw [hnil]
      rfl

end Casting

/-! ### The condition, read along the list -/

section Condition
variable (named : Label → Prop) (needsCast : Instruction Ty → Prop)

/-- What may follow a label after which `ids` are defined. -/
structure AfterLabel (ids : List String) (l : Label) (after : List (Instruction Ty)) : Prop where
  loads : ∀ next rest, after = next :: rest →
    NeedsLi (next.instructionId :: l.instructionId :: ids) next → l.namedFaultLabel = true
  held : l.instructionPointer = true → ∃ next rest, after = next :: rest ∧ next.isFaultLabel = false
  casts : l.Marked named → l.instructionPointer = false →
    ∀ next rest, after = next :: rest → ¬needsCast next
  labels : l.Marked named → ∀ (b : Label) next rest, after = .label b :: next :: rest →
    ¬NeedsLi (next.instructionId :: b.instructionId :: l.instructionId :: ids) next ∧
      (b.instructionPointer = true → ¬needsCast next)

/-- Every label of the list is followed by what it may be followed by. -/
def AllLabels (ids : List String) : List (Instruction Ty) → Prop
  | [] => True
  | .label l :: rest =>
      AfterLabel named needsCast ids l rest ∧ AllLabels (l.instructionId :: ids) rest
  | .op o :: rest => AllLabels (o.instructionId :: ids) rest

/-- What the list may start with when `tight` says that a marked label stands right before it. -/
def TightStart (ids : List String) (instructions : List (Instruction Ty)) : Prop :=
  (∀ next rest, instructions = next :: rest → ¬needsCast next) ∧
    ∀ (b : Label) next rest, instructions = .label b :: next :: rest →
      ¬NeedsLi (next.instructionId :: b.instructionId :: ids) next ∧
        (b.instructionPointer = true → ¬needsCast next)

/-- What the list may start with when a label is held back. -/
def HeldStart (tight : Prop) (ids : List String) (instructions : List (Instruction Ty)) : Prop :=
  (∃ next rest, instructions = next :: rest ∧ next.isFaultLabel = false) ∧
    (∀ (b : Label) next rest, instructions = .label b :: next :: rest →
      ¬NeedsLi (next.instructionId :: b.instructionId :: ids) next) ∧
    (tight → ∀ next rest, instructions = next :: rest → ¬needsCast next)

def Start (tight : Prop) (ids : List String) (instructions : List (Instruction Ty)) :
    Option Label → Prop
  | none => tight → TightStart needsCast ids instructions
  | some _ => HeldStart needsCast tight ids instructions

end Condition

/-- The entry held back by the second pass. -/
def heldEntry (held : Option Label) : Option (Emitted Ty) := held.map fun l => ⟨.given, .label l⟩

/-- The held label, as it stands in the input. -/
def heldInput (held : Option Label) : List (Instruction Ty) := (held.map Instruction.label).toList

/-- The instructions an instruction needs casts for. -/
abbrev CastIn (destRegisters : String → Option (Instruction Ty)) (x : Instruction Ty) : Prop :=
  NeedsCast destRegisters x.source

theorem not_castIn_label {destRegisters : String → Option (Instruction Ty)} (l : Label) :
    ¬CastIn destRegisters (.label l) := by
  rintro ⟨src, hsrc, -⟩
  exact List.not_mem_nil hsrc

section Passes
variable {destRegisters : String → Option (Instruction Ty)} {ids : List String} {held : Option Label}

/-- A held label that is emitted may be taken off both lists: its successor follows at once. -/
theorem keeps_held (held : Option Label) {next : Instruction Ty} {emitted : Emitted Ty} {rest : List (Instruction Ty)}
    (horigin : emitted.origin = .given) (hsame : SameObject next emitted.instruction) :
    Keeps named tight (heldInput held ++ next :: rest) ((heldEntry held).toList ++ emitted :: out) ↔
      Keeps named (next.Marked named ∧ rest ≠ []) rest out := by
  cases held with
  | none => exact keeps_given horigin hsame
  | some f =>
      refine (keeps_given rfl (sameObject_refl (.label f))).trans ?_
      exact keeps_given horigin hsame

/-- Too few given instructions came out. -/
theorem not_keeps_of_lt (h : givenCount out < instructions.length) :
    ¬Keeps named tight instructions out := fun hkeeps => h.ne hkeeps.length_eq.symm

theorem length_heldInput : (heldInput held : List (Instruction Ty)).length =
    givenCount (heldEntry held : Option (Emitted Ty)).toList := by
  cases held <;> rfl

end Passes

end Riescue.Legalizer
