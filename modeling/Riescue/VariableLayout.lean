import Riescue.Variables

/-! Where the elements of the variables are emitted, and which offsets their accessors use. A container gives every
element a slot of the register size, and the accessors step by the size of the element. -/

namespace Riescue.Variables
open Machine Layout

/-! ### Registration -/

/-- What a container looks like after some calls of `register`: the slots are handed out one variable after the other. -/
structure Registered (m : BaseMemory) (hartVariable : Bool) (start : ℤ) (calls : List Registration) : Prop where
  names : (m.vars.map Variable.name).Nodup
  next : m.offset = start + m.variableSize * (m.vars.map Variable.elementCount).sum
  slots : ∀ before v after, m.vars = before ++ v :: after →
    v.offset = start + m.variableSize * (before.map Variable.elementCount).sum
  hart : ∀ v ∈ m.vars, v.hartVariable = hartVariable
  shapes : m.vars.map (fun v => (v.size, v.elementCount)) =
    calls.map fun call => (call.size.getD m.variableSize, call.elementCount)

theorem registered_register {m m' : BaseMemory} {hartVariable : Bool} {start : ℤ} {calls : List Registration}
    {call : Registration} (h : Registered m hartVariable start calls) (hm' : m.register hartVariable call = .ok m') :
    Registered m' hartVariable start (calls ++ [call]) ∧ m'.xlen = m.xlen := by
  unfold BaseMemory.register at hm'
  split_ifs at hm' with hname
  obtain rfl := Except.ok.inj hm'
  refine ⟨⟨?_, ?_, ?_, ?_, ?_⟩, rfl⟩
  · rw [List.map_append, List.nodup_append]
    refine ⟨h.names, List.pairwise_singleton _ _, fun a ha b hb hab => hname ?_⟩
    have hcall : b = call.name := List.mem_singleton.mp hb
    exact hcall ▸ hab ▸ ha
  · change m.offset + m.variableSize * call.elementCount = start + m.variableSize * _
    rw [h.next, List.map_append, List.sum_append, List.map_singleton, List.sum_singleton,
      Int.natCast_add, Int.mul_add, Int.add_assoc]
  · intro before v after hvars
    rcases List.append_eq_append_iff.mp hvars with ⟨_ | ⟨head, rest⟩, hfront, hback⟩ | ⟨rest, hfront, hback⟩
    · rw [List.append_nil] at hfront
      obtain ⟨rfl, -⟩ := List.cons.inj hback
      exact hfront ▸ h.next
    · cases rest <;> cases hback
    · cases rest with
      | nil =>
          rw [List.append_nil] at hfront
          obtain ⟨rfl, -⟩ := List.cons.inj hback
          exact hfront ▸ h.next
      | cons head rest =>
          obtain ⟨rfl, -⟩ := List.cons.inj hback
          exact h.slots before v rest hfront
  · intro v hv
    rcases List.mem_append.mp hv with hv | hv
    · exact h.hart v hv
    · rw [List.mem_singleton.mp hv]
  · rw [List.map_append, h.shapes, List.map_append]
    rfl

theorem registered_registerAll {m m' : BaseMemory} {hartVariable : Bool} {start : ℤ} {done calls : List Registration}
    (h : Registered m hartVariable start done) (hm' : m.registerAll hartVariable calls = .ok m') :
    Registered m' hartVariable start (done ++ calls) ∧ m'.xlen = m.xlen := by
  induction calls generalizing m done with
  | nil =>
      obtain rfl := Except.ok.inj hm'
      rw [List.append_nil]
      exact ⟨h, rfl⟩
  | cons call calls ih =>
      obtain ⟨next, hnext, hrest⟩ := Fallible.bind_ok hm'
      obtain ⟨hregistered, hxlen⟩ := registered_register h hnext
      obtain ⟨hall, hxlen'⟩ := ih hregistered hrest
      rw [List.append_assoc, List.singleton_append] at hall
      exact ⟨hall, hxlen'.trans hxlen⟩

/-! ### The emitted lines -/

/-- The line of an element. -/
def isElement (name : String) (i : ℕ) : Line → Bool
  | .data _ datum => datum.element = some (name, i)
  | _ => false

def isLabel (label : Label) : Line → Bool
  | .label name => name = label
  | _ => false

/-- The lines of a variable are labels and then one slot for every element. -/
def EmitsSlots (size : ℕ) (lines : Variable → List Line) : Prop :=
  ∀ v, ∃ labels value, (∀ line ∈ labels, ∃ label, line = .label label) ∧
    lines v = labels ++ (List.range v.elementCount).map fun j => .data size { value, element := some (v.name, j) }

theorem emitsSlots_hart (m : BaseMemory) (hartId : ℕ) : EmitsSlots m.variableSize (HartContext.variableLines m hartId) :=
  fun v => ⟨[], .inl (if v.name = "mhartid" then (hartId : ℤ) else v.value), fun _ h => (nomatch h), rfl⟩

theorem emitsSlots_shared (m : BaseMemory) : EmitsSlots m.variableSize (SharedMemory.variableLines m) :=
  fun v => ⟨[.label (.mem v.name)], .inl v.value, fun _ h => ⟨_, List.mem_singleton.mp h⟩, rfl⟩

theorem finish_labels {position : ℕ} {labels : List Line} (h : ∀ line ∈ labels, ∃ label, line = .label label) :
    finish position labels = position := by
  induction labels with
  | nil => rfl
  | cons line labels ih =>
      obtain ⟨⟨label, rfl⟩, hlabels⟩ := List.forall_mem_cons.mp h
      exact ih hlabels

theorem EmitsSlots.finish {size : ℕ} {lines : Variable → List Line} (h : EmitsSlots size lines) (position : ℕ)
    (v : Variable) : finish position (lines v) = position + size * v.elementCount := by
  obtain ⟨labels, value, hlabels, hlines⟩ := h v
  rw [hlines, finish_append, finish_labels hlabels, finish_data (fun line hline => ?_), List.length_map, List.length_range]
  obtain ⟨j, -, rfl⟩ := List.mem_map.mp hline
  exact ⟨_, rfl⟩

theorem EmitsSlots.finish_flatMap {size : ℕ} {lines : Variable → List Line} (h : EmitsSlots size lines) (position : ℕ)
    (vars : List Variable) :
    Layout.finish position (vars.flatMap lines) = position + size * (vars.map Variable.elementCount).sum := by
  induction vars generalizing position with
  | nil => rfl
  | cons v vars ih =>
      rw [List.flatMap_cons, finish_append, h.finish, ih, List.map_cons, List.sum_cons, Nat.mul_add, Nat.add_assoc]

/-- A line of a variable is an element of this variable. -/
theorem EmitsSlots.isElement_eq_false {size : ℕ} {lines : Variable → List Line} (h : EmitsSlots size lines) {v : Variable}
    {name : String} (hname : v.name ≠ name) (i : ℕ) : ∀ line ∈ lines v, isElement name i line = false := by
  obtain ⟨labels, value, hlabels, hlines⟩ := h v
  intro line hline
  rw [hlines] at hline
  rcases List.mem_append.mp hline with hline | hline
  · obtain ⟨label, rfl⟩ := hlabels line hline
    rfl
  · obtain ⟨j, -, rfl⟩ := List.mem_map.mp hline
    rw [isElement, decide_eq_false_iff_not]
    exact fun heq => hname (congrArg Prod.fst (Option.some.inj heq))

/-- The slot of an element: the elements of the earlier variables and the earlier elements stand in front of it. -/
theorem EmitsSlots.find_element {size : ℕ} {lines : Variable → List Line} (h : EmitsSlots size lines)
    {before after : List Variable} {v : Variable} (hnames : ∀ u ∈ before, u.name ≠ v.name) {i : ℕ}
    (hi : i < v.elementCount) {header : List Line} (hheader : ∀ line ∈ header, isElement v.name i line = false)
    (start : ℕ) (back : List Line) :
    find (isElement v.name i) start (header ++ (before ++ v :: after).flatMap lines ++ back) =
      some (Layout.finish start header + size * ((before.map Variable.elementCount).sum + i)) := by
  obtain ⟨labels, value, hlabels, hlines⟩ := h v
  have hlabelsElement : ∀ line ∈ labels, isElement v.name i line = false := by
    intro line hline
    obtain ⟨label, rfl⟩ := hlabels line hline
    rfl
  obtain ⟨rest, hrest⟩ : ∃ rest, List.range v.elementCount = List.range i ++ i :: rest := by
    refine ⟨(List.range v.elementCount).drop (i + 1), ?_⟩
    have hlength : i < (List.range v.elementCount).length := by rwa [List.length_range]
    calc List.range v.elementCount
        = (List.range v.elementCount).take i ++ (List.range v.elementCount).drop i := (List.take_append_drop _ _).symm
      _ = List.range i ++ (List.range v.elementCount).drop i := by rw [List.take_range, Nat.min_eq_left hi.le]
      _ = _ := by rw [List.drop_eq_getElem_cons hlength, List.getElem_range]
  have hbefore : ∀ line ∈ before.flatMap lines, isElement v.name i line = false := by
    intro line hline
    obtain ⟨u, hu, hline⟩ := List.mem_flatMap.mp hline
    exact h.isElement_eq_false (hnames u hu) i line hline
  have helements : ∀ line ∈ (List.range i).map fun j => (.data size { value, element := some (v.name, j) } : Line),
      isElement v.name i line = false := by
    intro line hline
    obtain ⟨j, hj, rfl⟩ := List.mem_map.mp hline
    rw [isElement, decide_eq_false_iff_not]
    exact fun heq => (List.mem_range.mp hj).ne (congrArg Prod.snd (Option.some.inj heq))
  rw [List.flatMap_append, List.flatMap_cons, hlines, hrest, List.map_append, List.map_cons]
  simp only [List.append_assoc, List.cons_append]
  rw [find_append hheader, find_append hbefore, find_append hlabelsElement, find_append_cons helements (by simp [isElement]),
    h.finish_flatMap, finish_labels hlabels, finish_data (fun line hline => ?_), List.length_map, List.length_range,
    Nat.mul_add, Nat.add_assoc]
  obtain ⟨j, -, rfl⟩ := List.mem_map.mp hline
  exact ⟨_, rfl⟩

/-! ### The offsets of the accessors -/

/-- The byte offset that code uses for the address of an element: its distance from the pointer to the context, or from
the base of the equates. -/
def usedOffset (equates : List Equate) : Code → Option ℤ
  | .addi _ rs1 imm :: _ => if rs1 = tp then some imm else none
  | .li _ (.const value) :: .add _ _ rs2 :: _ => if rs2 = tp then some value else none
  | .li _ (.symbol name addend) :: _ => (equates.find? (·.symbol = name)).map (·.offset + addend)
  | .load _ _ offset rs1 :: _ => if rs1 = tp then some offset else none
  | .store _ _ offset rs1 :: _ => if rs1 = tp then some offset else none
  | _ => none

/-- The code of the accessors uses this offset for the element. -/
def UsesOffset (equates : List Equate) (v : Variable) (i : ℕ) (bare : Bool) (offset : ℤ) : Prop :=
  ∀ reg temp : Reg,
    (v.loadImmediate reg i bare).map (usedOffset equates) = .ok (some offset) ∧
    (v.load reg i bare).map (usedOffset equates) = .ok (some offset) ∧
    (v.store reg temp i bare).map (usedOffset equates) = .ok (some offset)

variable {v : Variable}

/-- The code for a variable of a hart uses its offset from the pointer. -/
theorem usesOffset_hart (hhart : v.hartVariable = true) (hsize : v.size ∈ [1, 2, 4, 8]) {i : ℕ} (hi : v.IsIndex i)
    (equates : List Equate) (bare : Bool) {offset : ℤ} :
    UsesOffset equates v i bare offset ↔ v.offset + i * v.size = offset := by
  have hall : UsesOffset equates v i bare (v.offset + i * v.size) := by
    intro reg temp
    cases hfits : Variable.offsetFits12bit (v.offset + i * v.size) with
    | true =>
        rw [Variable.loadImmediate_near hi hhart hfits, Variable.load_near hi hhart hsize hfits,
          Variable.store_near hi hhart hsize hfits]
        exact ⟨rfl, rfl, rfl⟩
    | false =>
        rw [Variable.loadImmediate_far hi hhart hfits, Variable.load_far hi hhart hsize hfits,
          Variable.store_far hi hhart hsize hfits]
        exact ⟨rfl, rfl, rfl⟩
  constructor
  · intro h
    exact Option.some.inj (Except.ok.inj ((hall 0 0).1.symm.trans (h 0 0).1))
  · rintro rfl
    exact hall

/-- The code for a shared variable uses its equate and steps by the size of the elements. -/
theorem usesOffset_shared (hhart : v.hartVariable = false) (hsize : v.size ∈ [1, 2, 4, 8]) {i : ℕ} (hi : v.IsIndex i)
    {equates : List Equate} {bare : Bool} {equate : Equate}
    (hequate : equates.find? (·.symbol = if bare then v.name ++ "_pa" else v.name) = some equate) {offset : ℤ} :
    UsesOffset equates v i bare offset ↔ equate.offset + i * v.size = offset := by
  have hused : ∀ reg rest, usedOffset equates (.li reg (v.resolveName bare i) :: rest) =
      some (equate.offset + i * v.size) := by
    intro reg rest
    rw [Variable.resolveName_eq, usedOffset, hequate]
    rfl
  have hall : UsesOffset equates v i bare (equate.offset + i * v.size) := by
    intro reg temp
    rw [Variable.loadImmediate_shared hi hhart, Variable.load_shared hi hhart hsize, Variable.store_shared hi hhart hsize]
    exact ⟨congrArg Except.ok (hused reg _), congrArg Except.ok (hused reg _), congrArg Except.ok (hused temp _)⟩
  constructor
  · intro h
    exact Option.some.inj (Except.ok.inj ((hall 0 0).1.symm.trans (h 0 0).1))
  · rintro rfl
    exact hall

/-! ### What the containers promise -/

/-- The variables have a size that the accessors know and that fits in a slot. -/
def SizesFit (m : BaseMemory) : Prop := ∀ v ∈ m.vars, v.size ∈ [1, 2, 4, 8] ∧ v.size ≤ m.variableSize

/-- No two elements overlap, at the offsets that the accessors use. -/
def OffsetsDisjoint (m : BaseMemory) (equates : List Equate) (bare : Bool) : Prop :=
  ∀ v ∈ m.vars, ∀ v' ∈ m.vars, ∀ i < v.elementCount, ∀ i' < v'.elementCount, (v.name, i) ≠ (v'.name, i') →
    ∀ offset offset', UsesOffset equates v i bare offset → UsesOffset equates v' i' bare offset' →
      offset + v.size ≤ offset' ∨ offset' + v'.size ≤ offset

/-- The accessors of the variables of a hart agree with the emitted context. -/
structure HartLayoutAgrees (m : BaseMemory) : Prop where
  accessors : ∀ v ∈ m.vars, ∀ i < v.elementCount, ∀ start hartId includePadding bare, ∃ base offset : ℕ,
    find (isLabel (.hartContext hartId)) start (HartContext.allocate m hartId includePadding) = some base ∧
    find (isElement v.name i) start (HartContext.allocate m hartId includePadding) = some (base + offset) ∧
    UsesOffset [] v i bare offset
  equates : ∀ v ∈ m.vars, 0 < v.elementCount → ∀ start hartId includePadding name, ∃ base offset : ℕ,
    find (isLabel (.hartContext hartId)) start (HartContext.allocate m hartId includePadding) = some base ∧
    find (isElement v.name 0) start (HartContext.allocate m hartId includePadding) = some (base + offset) ∧
    (HartContext.equates m name).find? (·.symbol = v.name) = some ⟨v.name, name, offset⟩
  disjoint : ∀ bare, OffsetsDisjoint m [] bare
  harts : ∀ start hartCount, ∃ base : ℕ, ∀ hartId < hartCount,
    find (isLabel (.hartContext hartId)) start (HartContext.allocateAll m hartCount) =
      some (base + hartId * HartContext.perHartSize m)

/-- The accessors of the shared variables agree with the emitted section, through both kinds of equates. The lines of the
section in front of the variables end at `start`. -/
structure SharedLayoutAgrees (m : BaseMemory) : Prop where
  accessors : ∀ v ∈ m.vars, ∀ i < v.elementCount, ∀ start : ℕ, ∃ position : ℕ,
    find (isElement v.name i) start (SharedMemory.allocate m) = some position ∧
    UsesOffset (SharedMemory.equates m start) v i false position ∧
    UsesOffset (SharedMemory.paEquates m start) v i true position
  disjoint : ∀ start, OffsetsDisjoint m (SharedMemory.equates m start) false
  paDisjoint : ∀ start, OffsetsDisjoint m (SharedMemory.paEquates m start) true

variable {m : BaseMemory} {hartVariable : Bool} {start : ℤ} {calls : List Registration}

/-- A registered variable stands behind variables of other names. -/
theorem Registered.split (h : Registered m hartVariable start calls) {v : Variable} (hv : v ∈ m.vars) :
    ∃ before after, m.vars = before ++ v :: after ∧ (∀ u ∈ before, u.name ≠ v.name) ∧
      v.offset = start + m.variableSize * (before.map Variable.elementCount).sum := by
  obtain ⟨before, after, hvars⟩ := List.append_of_mem hv
  refine ⟨before, after, hvars, fun u hu hname => ?_, h.slots before v after hvars⟩
  have hnames := h.names
  rw [hvars, List.map_append, List.nodup_append] at hnames
  exact hnames.2.2 _ (List.mem_map_of_mem hu) _ (List.mem_map_of_mem List.mem_cons_self) hname

/-- The slots of a variable end before those of a later variable. -/
theorem Registered.offset_add_le (h : Registered m hartVariable start calls) {before after : List Variable}
    {v u : Variable} (hvars : m.vars = before ++ v :: after) (hu : u ∈ before) :
    u.offset + m.variableSize * u.elementCount ≤ v.offset := by
  obtain ⟨front, rest, rfl⟩ := List.append_of_mem hu
  rw [h.slots _ _ _ hvars, h.slots front u (rest ++ v :: after) (by rw [hvars, List.append_assoc, List.cons_append]),
    List.map_append, List.sum_append, List.map_cons, List.sum_cons, Int.natCast_add, Int.natCast_add, Int.mul_add,
    Int.mul_add]
  have hrest : 0 ≤ (m.variableSize : ℤ) * ((rest.map Variable.elementCount).sum : ℕ) :=
    Int.mul_nonneg (Int.natCast_nonneg _) (Int.natCast_nonneg _)
  omega

/-- An element ends within the slots of its variable. -/
theorem element_le_slots {v : Variable} {size i : ℕ} (hsize : v.size ≤ size) (hi : i < v.elementCount) :
    v.offset + (i : ℤ) * v.size + v.size ≤ v.offset + (size : ℤ) * v.elementCount := by
  have hle : (i + 1) * v.size ≤ size * v.elementCount :=
    calc (i + 1) * v.size ≤ v.elementCount * v.size := Nat.mul_le_mul_right _ hi
      _ ≤ v.elementCount * size := Nat.mul_le_mul_left _ hsize
      _ = size * v.elementCount := Nat.mul_comm _ _
  have hcast := Int.ofNat_le.mpr hle
  rw [Int.natCast_mul, Int.natCast_mul, Int.natCast_succ, Int.add_mul, Int.one_mul] at hcast
  omega

/-- Distinct elements do not overlap. -/
theorem Registered.disjoint (h : Registered m hartVariable start calls) (hsizes : SizesFit m) {v v' : Variable}
    (hv : v ∈ m.vars) (hv' : v' ∈ m.vars) {i i' : ℕ} (hi : i < v.elementCount) (hi' : i' < v'.elementCount)
    (hne : (v.name, i) ≠ (v'.name, i')) :
    v.offset + (i : ℤ) * v.size + v.size ≤ v'.offset + (i' : ℤ) * v'.size ∨
      v'.offset + (i' : ℤ) * v'.size + v'.size ≤ v.offset + (i : ℤ) * v.size := by
  have hle := element_le_slots (hsizes v hv).2 hi
  have hle' := element_le_slots (hsizes v' hv').2 hi'
  have hnonneg : 0 ≤ (i : ℤ) * v.size := Int.mul_nonneg (Int.natCast_nonneg _) (Int.natCast_nonneg _)
  have hnonneg' : 0 ≤ (i' : ℤ) * v'.size := Int.mul_nonneg (Int.natCast_nonneg _) (Int.natCast_nonneg _)
  obtain ⟨before, after, hvars, -, -⟩ := h.split hv
  rw [hvars] at hv'
  rcases List.mem_append.mp hv' with hbefore | hafter
  · have hslots := h.offset_add_le hvars hbefore
    right
    omega
  rcases List.mem_cons.mp hafter with rfl | hafter
  · -- two elements of one variable
    have hindex : i ≠ i' := fun heq => hne (heq ▸ rfl)
    rcases Nat.lt_or_gt_of_ne hindex with hlt | hlt
    · left
      have hmul : ((i : ℤ) + 1) * v'.size ≤ i' * v'.size := Int.mul_le_mul_of_nonneg_right (by omega) (Int.natCast_nonneg _)
      rw [Int.add_mul, Int.one_mul] at hmul
      omega
    · right
      have hmul : ((i' : ℤ) + 1) * v'.size ≤ i * v'.size := Int.mul_le_mul_of_nonneg_right (by omega) (Int.natCast_nonneg _)
      rw [Int.add_mul, Int.one_mul] at hmul
      omega
  · obtain ⟨middle, rest, rfl⟩ := List.append_of_mem hafter
    have hsplit : m.vars = (before ++ v :: middle) ++ v' :: rest := by rw [hvars, List.append_assoc, List.cons_append]
    have hslots := h.offset_add_le hsplit (List.mem_append_right _ List.mem_cons_self)
    left
    omega

/-- Registered variables are aligned for their elements, as the atomic accesses need it. -/
theorem Registered.size_dvd_offset (h : Registered m hartVariable start calls) (hsizes : SizesFit m)
    (hstart : (m.variableSize : ℤ) ∣ start) {v : Variable} (hv : v ∈ m.vars) : (v.size : ℤ) ∣ v.offset := by
  obtain ⟨before, after, -, -, hoffset⟩ := h.split hv
  have hsize : v.size ∣ m.variableSize := by
    obtain ⟨hmem, hle⟩ := hsizes v hv
    have hslot : m.variableSize = 4 ∨ m.variableSize = 8 := by
      rw [BaseMemory.variableSize]
      cases m.xlen
      · exact .inl rfl
      · exact .inr rfl
    simp only [List.mem_cons, List.not_mem_nil, or_false] at hmem
    rcases hmem with h | h | h | h <;> rcases hslot with hslot | hslot <;> rw [h, hslot] at hle ⊢ <;>
      first | decide | omega
  have hslot : (v.size : ℤ) ∣ m.variableSize := Int.natCast_dvd_natCast.mpr hsize
  rw [hoffset]
  exact Int.dvd_add (Int.dvd_trans hslot hstart) (Int.dvd_trans hslot (Int.dvd_mul_right _ _))

/-- The equate of a variable. -/
theorem Registered.find_equate (h : Registered m hartVariable start calls) {v : Variable} (hv : v ∈ m.vars)
    {symbol : String → String} (hsymbol : ∀ name name', symbol name = symbol name' → name = name') (base : String)
    (adder : ℤ) :
    (m.vars.map fun u => (⟨symbol u.name, base, u.offset + adder⟩ : Equate)).find? (·.symbol = symbol v.name) =
      some ⟨symbol v.name, base, v.offset + adder⟩ := by
  obtain ⟨before, after, hvars, hnames, -⟩ := h.split hv
  have hnone : (before.map fun u => (⟨symbol u.name, base, u.offset + adder⟩ : Equate)).find?
      (·.symbol = symbol v.name) = none := by
    rw [List.find?_eq_none]
    intro equate hequate
    obtain ⟨u, hu, rfl⟩ := List.mem_map.mp hequate
    exact fun heq => hnames u hu (hsymbol _ _ (of_decide_eq_true heq))
  rw [hvars, List.map_append, List.find?_append, hnone, List.map_cons, List.find?_cons_of_pos]
  · rfl
  · exact decide_eq_true rfl

/-- The step of the accessors is the step of the slots. -/
def StepsAgree (m : BaseMemory) : Prop := ∀ v ∈ m.vars, v.elementCount ≤ 1 ∨ v.size = m.variableSize

theorem StepsAgree.mul_eq (h : StepsAgree m) {v : Variable} (hv : v ∈ m.vars) {i : ℕ} (hi : i < v.elementCount) :
    (i : ℤ) * v.size = m.variableSize * i := by
  rcases h v hv with hcount | hsize
  · obtain rfl : i = 0 := by omega
    rw [Int.natCast_zero, Int.zero_mul, Int.mul_zero]
  · rw [hsize, Int.mul_comm]

theorem stepsAgree_iff (h : Registered m hartVariable start calls) :
    StepsAgree m ↔ ∀ call ∈ calls, call.elementCount ≤ 1 ∨ call.size.getD m.variableSize = m.variableSize := by
  have hshapes := h.shapes
  calc StepsAgree m
      ↔ ∀ shape ∈ m.vars.map (fun v => (v.size, v.elementCount)), shape.2 ≤ 1 ∨ shape.1 = m.variableSize := by
        rw [List.forall_mem_map]
        rfl
    _ ↔ _ := by rw [hshapes, List.forall_mem_map]

theorem xlen_slot (xlen : Xlen) : xlen.bits / 8 ∈ [1, 2, 4, 8] := by cases xlen <;> decide

theorem sizesFit (h : Registered m hartVariable start calls)
    (hsizes : ∀ call ∈ calls, ∀ size ∈ call.size, size ∈ [1, 2, 4, 8] ∧ size ≤ m.variableSize) : SizesFit m := by
  have hshapes : ∀ shape ∈ m.vars.map (fun v => (v.size, v.elementCount)),
      shape.1 ∈ [1, 2, 4, 8] ∧ shape.1 ≤ m.variableSize := by
    rw [h.shapes, List.forall_mem_map]
    intro call hcall
    cases hsize : call.size with
    | none => exact ⟨xlen_slot m.xlen, le_rfl⟩
    | some size => exact hsizes call hcall size hsize
  rw [List.forall_mem_map] at hshapes
  exact hshapes

/-! ### The contexts of the harts -/

theorem find_context_label (hartId : ℕ) (includePadding : Bool) (position : ℕ) :
    find (isLabel (.hartContext hartId)) position (HartContext.allocate m hartId includePadding) =
      some (alignUp 64 position) := by
  rw [HartContext.allocate, List.append_assoc, List.cons_append, find,
    if_neg (show ¬isLabel (.hartContext hartId) (.balign 64) = true from Bool.false_ne_true), List.cons_append,
    find_cons_pos (by simp [isLabel])]
  rfl

/-- The element of a context, from its label on. -/
theorem Registered.find_hart (h : Registered m hartVariable start calls) {v : Variable} (hv : v ∈ m.vars) {i : ℕ}
    (hi : i < v.elementCount) (position hartId : ℕ) (includePadding : Bool) :
    ∃ slots : ℕ, v.offset = start + m.variableSize * slots ∧
      find (isElement v.name i) position (HartContext.allocate m hartId includePadding) =
        some (alignUp 64 position + (m.variableSize * HartContext.numInternalVariables + m.variableSize * (slots + i))) := by
  obtain ⟨before, after, hvars, hnames, hoffset⟩ := h.split hv
  refine ⟨_, hoffset, ?_⟩
  have hheader : ∀ line ∈ ([.balign 64, .label (.hartContext hartId),
      .data m.variableSize { value := .inr (.hartStackEnd hartId) }, .data m.variableSize { value := .inl 0 }] : List Line),
      isElement v.name i line = false := by
    simp [isElement]
  rw [HartContext.allocate, hvars, (emitsSlots_hart m hartId).find_element hnames hi hheader]
  congr 1
  change alignUp 64 position + m.variableSize + m.variableSize + _ = _
  rw [HartContext.numInternalVariables, Nat.mul_two]
  omega

theorem bytesAllocated_eq (m : BaseMemory) : HartContext.bytesAllocated m =
    m.variableSize * HartContext.numInternalVariables + m.variableSize * (m.vars.map Variable.elementCount).sum := by
  have hfold : ∀ (vars : List Variable) (bytes : ℕ),
      vars.foldl (fun bytes v => bytes + m.variableSize * v.elementCount) bytes =
        bytes + m.variableSize * (vars.map Variable.elementCount).sum := by
    intro vars
    induction vars with
    | nil => exact fun _ => rfl
    | cons v vars ih =>
        intro bytes
        rw [List.foldl_cons, ih, List.map_cons, List.sum_cons, Nat.mul_add, Nat.add_assoc]
  exact hfold _ _

theorem dvd_perHartSize (m : BaseMemory) : 64 ∣ HartContext.perHartSize m := dvd_alignUp (by decide) _

/-- A padded context takes `per_hart_size` bytes from its label on. -/
theorem finish_allocate (hartId position : ℕ) :
    finish position (HartContext.allocate m hartId) = alignUp 64 position + HartContext.perHartSize m := by
  rw [HartContext.allocate, finish_append, finish_append, (emitsSlots_hart m hartId).finish_flatMap]
  have hheader : finish position ([.balign 64, .label (.hartContext hartId),
      .data m.variableSize { value := .inr (.hartStackEnd hartId) }, .data m.variableSize { value := .inl 0 }] : List Line) +
        m.variableSize * (m.vars.map Variable.elementCount).sum = alignUp 64 position + HartContext.bytesAllocated m := by
    change alignUp 64 position + m.variableSize + m.variableSize + _ = _
    rw [bytesAllocated_eq, HartContext.numInternalVariables, Nat.mul_two]
    omega
  rw [hheader, HartContext.perHartSize]
  split_ifs with hpadding
  · exact Nat.add_assoc _ _ _
  · rw [finish_nil]
    have hzero : (64 - HartContext.bytesAllocated m % 64) % 64 = 0 := by
      by_contra hne
      exact hpadding ⟨rfl, Nat.pos_of_ne_zero hne⟩
    rw [hzero, Nat.add_zero]

theorem isLabel_variableLines {hartId : ℕ} (other : ℕ) :
    ∀ line ∈ m.vars.flatMap (HartContext.variableLines m hartId), isLabel (.hartContext other) line = false := by
  intro line hline
  obtain ⟨v, -, hline⟩ := List.mem_flatMap.mp hline
  obtain ⟨j, -, rfl⟩ := List.mem_map.mp hline
  rfl

theorem isLabel_allocate {hartId other : ℕ} (hne : hartId ≠ other) :
    ∀ line ∈ HartContext.allocate m hartId, isLabel (.hartContext other) line = false := by
  intro line hline
  rw [HartContext.allocate] at hline
  rcases List.mem_append.mp hline with hline | hline
  · rcases List.mem_append.mp hline with hline | hline
    · simp only [List.mem_cons, List.not_mem_nil, or_false] at hline
      rcases hline with rfl | rfl | rfl | rfl
      · rfl
      · exact decide_eq_false fun heq => hne (Label.hartContext.inj heq)
      · rfl
      · rfl
    · exact isLabel_variableLines other line hline
  · split_ifs at hline
    · rw [List.mem_singleton.mp hline]
      rfl
    · exact (nomatch hline)

/-- The position behind some contexts, the next one aligned. -/
theorem alignUp_finish_allocateAll (m : BaseMemory) (position hartCount : ℕ) :
    alignUp 64 (finish position (HartContext.allocateAll m hartCount)) =
      alignUp 64 position + hartCount * HartContext.perHartSize m := by
  induction hartCount with
  | zero => rw [Nat.zero_mul, Nat.add_zero]; rfl
  | succ hartCount ih =>
      rw [HartContext.allocateAll, List.range_succ, List.flatMap_append, finish_append]
      change alignUp 64 (finish (finish position (HartContext.allocateAll m hartCount))
        (HartContext.allocate m hartCount ++ [])) = _
      rw [List.append_nil, finish_allocate, ih, Nat.succ_mul, Nat.add_assoc]
      have hdvd : 64 ∣ hartCount * HartContext.perHartSize m := Dvd.dvd.mul_left (dvd_perHartSize m) _
      exact alignUp_of_dvd (Nat.dvd_add (dvd_alignUp (by decide) _) (Nat.dvd_add hdvd (dvd_perHartSize m)))

/-- Context after context at multiples of `per_hart_size`. -/
theorem find_context (m : BaseMemory) (position : ℕ) {hartId hartCount : ℕ} (hlt : hartId < hartCount) :
    find (isLabel (.hartContext hartId)) position (HartContext.allocateAll m hartCount) =
      some (alignUp 64 position + hartId * HartContext.perHartSize m) := by
  obtain ⟨later, rfl⟩ := Nat.exists_eq_add_of_lt hlt
  have hsplit : HartContext.allocateAll m (hartId + later + 1) = HartContext.allocateAll m hartId ++
      (HartContext.allocate m hartId ++ ((List.range later).map (hartId + 1 + ·)).flatMap fun id => HartContext.allocate m id) := by
    rw [HartContext.allocateAll, show hartId + later + 1 = hartId + 1 + later by omega, List.range_add, List.flatMap_append,
      List.range_succ, List.flatMap_append, List.append_assoc, List.flatMap_singleton]
    rfl
  have hearlier : ∀ line ∈ HartContext.allocateAll m hartId, isLabel (.hartContext hartId) line = false := by
    intro line hline
    obtain ⟨id, hid, hline⟩ := List.mem_flatMap.mp hline
    exact isLabel_allocate (List.mem_range.mp hid).ne line hline
  rw [hsplit, find_append hearlier]
  have hcontext := find_context_label (m := m) hartId true (finish position (HartContext.allocateAll m hartId))
  rw [alignUp_finish_allocateAll] at hcontext
  exact find_append_of_some hcontext _

theorem isIndex_natCast {v : Variable} {i : ℕ} (hi : i < v.elementCount) : v.IsIndex i :=
  ⟨Int.natCast_nonneg _, Int.ofNat_lt.mpr hi⟩

/-- The offset of a slot of a variable in the context. -/
theorem hart_offset {v : Variable} {slots i : ℕ} (hoffset : v.offset = (m.variableSize * HartContext.numInternalVariables : ℕ) +
      (m.variableSize : ℤ) * slots) :
    v.offset + (m.variableSize : ℤ) * i =
      (m.variableSize * HartContext.numInternalVariables + m.variableSize * (slots + i) : ℕ) := by
  rw [hoffset]
  push_cast [Int.mul_add]
  omega

/-- The hart context agrees exactly when the accessors step by slots. -/
theorem hartLayoutAgrees_iff_stepsAgree
    (h : Registered m true (m.variableSize * HartContext.numInternalVariables : ℕ) calls) (hsizes : SizesFit m) :
    HartLayoutAgrees m ↔ StepsAgree m := by
  constructor
  · intro hagrees v hv
    by_contra hnot
    obtain ⟨hcount, hsize⟩ := not_or.mp hnot
    have hi : 1 < v.elementCount := Nat.lt_of_not_le hcount
    obtain ⟨base, offset, hbase, hposition, huses⟩ := hagrees.accessors v hv 1 hi 0 0 true true
    obtain ⟨slots, hoffset, hfind⟩ := h.find_hart hv hi 0 0 true
    rw [find_context_label] at hbase
    obtain rfl := Option.some.inj hbase
    have hpositions := Option.some.inj (hposition.symm.trans hfind)
    obtain rfl := Nat.add_left_cancel hpositions
    rw [usesOffset_hart (h.hart v hv) (hsizes v hv).1 (isIndex_natCast hi), ← hart_offset hoffset] at huses
    apply hsize
    omega
  · intro hsteps
    refine ⟨?_, ?_, ?_, ?_⟩
    · intro v hv i hi position hartId includePadding bare
      obtain ⟨slots, hoffset, hfind⟩ := h.find_hart hv hi position hartId includePadding
      refine ⟨_, _, find_context_label hartId includePadding position, hfind, ?_⟩
      rw [usesOffset_hart (h.hart v hv) (hsizes v hv).1 (isIndex_natCast hi), hsteps.mul_eq hv hi, hart_offset hoffset]
    · intro v hv hcount position hartId includePadding name
      obtain ⟨slots, hoffset, hfind⟩ := h.find_hart hv hcount position hartId includePadding
      refine ⟨_, _, find_context_label hartId includePadding position, hfind, ?_⟩
      have hidentity : ∀ name name' : String, id name = id name' → name = name' := fun _ _ heq => heq
      have hequate := h.find_equate hv hidentity name 0
      rw [← hart_offset hoffset, Int.natCast_zero, Int.mul_zero]
      simpa only [HartContext.equates, Int.add_zero, id] using hequate
    · intro bare v hv v' hv' i hi i' hi' hne offset offset' huses huses'
      rw [usesOffset_hart (h.hart v hv) (hsizes v hv).1 (isIndex_natCast hi)] at huses
      rw [usesOffset_hart (h.hart v' hv') (hsizes v' hv').1 (isIndex_natCast hi')] at huses'
      rw [← huses, ← huses']
      exact h.disjoint hsizes hv hv' hi hi' hne
    · exact fun position hartCount => ⟨_, fun hartId hlt => find_context m position hlt⟩

/-! ### The shared section -/

/-- The element of a shared variable. -/
theorem Registered.find_shared (h : Registered m hartVariable start calls) {v : Variable} (hv : v ∈ m.vars) {i : ℕ}
    (hi : i < v.elementCount) (position : ℕ) :
    ∃ slots : ℕ, v.offset = start + m.variableSize * slots ∧
      find (isElement v.name i) position (SharedMemory.allocate m) = some (position + m.variableSize * (slots + i)) := by
  obtain ⟨before, after, hvars, hnames, hoffset⟩ := h.split hv
  have hheader : ∀ line ∈ ([] : List Line), isElement v.name i line = false := fun _ hline => (nomatch hline)
  refine ⟨_, hoffset, ?_⟩
  have hlines : SharedMemory.allocate m = [] ++ (before ++ v :: after).flatMap (SharedMemory.variableLines m) ++ [] := by
    rw [List.nil_append, List.append_nil, ← hvars]
    rfl
  rw [hlines, (emitsSlots_shared m).find_element hnames hi hheader]
  rfl

theorem Registered.find_equates (h : Registered m hartVariable start calls) {v : Variable} (hv : v ∈ m.vars) (adder : ℤ) :
    (SharedMemory.equates m adder).find? (·.symbol = if false then v.name ++ "_pa" else v.name) =
      some ⟨v.name, "os_data", v.offset + adder⟩ :=
  have hidentity : ∀ name name' : String, id name = id name' → name = name' := fun _ _ heq => heq
  h.find_equate hv hidentity "os_data" adder

theorem Registered.find_paEquates (h : Registered m hartVariable start calls) {v : Variable} (hv : v ∈ m.vars) (adder : ℤ) :
    (SharedMemory.paEquates m adder).find? (·.symbol = if true then v.name ++ "_pa" else v.name) =
      some ⟨v.name ++ "_pa", "os_data_pa", v.offset + adder⟩ :=
  have hsuffix : ∀ name name' : String, name ++ "_pa" = name' ++ "_pa" → name = name' :=
    fun _ _ heq => (String.append_left_inj "_pa").mp heq
  h.find_equate hv hsuffix "os_data_pa" adder

/-- The offsets of the elements are disjoint whatever is added to the equates. -/
theorem offsetsDisjoint_shared (h : Registered m false start calls) (hsizes : SizesFit m) {equates : List Equate}
    {bare : Bool} {adder : ℤ}
    (hequates : ∀ v ∈ m.vars, ∃ equate : Equate, equate.offset = v.offset + adder ∧
      equates.find? (·.symbol = if bare then v.name ++ "_pa" else v.name) = some equate) :
    OffsetsDisjoint m equates bare := by
  intro v hv v' hv' i hi i' hi' hne offset offset' huses huses'
  obtain ⟨equate, hoffset, hfind⟩ := hequates v hv
  obtain ⟨equate', hoffset', hfind'⟩ := hequates v' hv'
  rw [usesOffset_shared (h.hart v hv) (hsizes v hv).1 (isIndex_natCast hi) hfind, hoffset] at huses
  rw [usesOffset_shared (h.hart v' hv') (hsizes v' hv').1 (isIndex_natCast hi') hfind', hoffset'] at huses'
  have hdisjoint := h.disjoint hsizes hv hv' hi hi' hne
  omega

/-- The shared section agrees exactly when the accessors step by slots. -/
theorem sharedLayoutAgrees_iff_stepsAgree (h : Registered m false 0 calls) (hsizes : SizesFit m) :
    SharedLayoutAgrees m ↔ StepsAgree m := by
  constructor
  · intro hagrees v hv
    by_contra hnot
    obtain ⟨hcount, hsize⟩ := not_or.mp hnot
    have hi : 1 < v.elementCount := Nat.lt_of_not_le hcount
    obtain ⟨position, hposition, huses, -⟩ := hagrees.accessors v hv 1 hi 0
    obtain ⟨slots, hoffset, hfind⟩ := h.find_shared hv hi 0
    obtain rfl := Option.some.inj (hposition.symm.trans hfind)
    rw [usesOffset_shared (h.hart v hv) (hsizes v hv).1 (isIndex_natCast hi) (h.find_equates hv _), hoffset] at huses
    apply hsize
    push_cast [Int.mul_add] at huses
    omega
  · intro hsteps
    refine ⟨?_, ?_, ?_⟩
    · intro v hv i hi position
      obtain ⟨slots, hoffset, hfind⟩ := h.find_shared hv hi position
      have hsum : v.offset + (position : ℤ) + (i : ℤ) * v.size = (position + m.variableSize * (slots + i) : ℕ) := by
        rw [hsteps.mul_eq hv hi, hoffset]
        push_cast [Int.mul_add]
        omega
      refine ⟨_, hfind, ?_, ?_⟩
      · rw [usesOffset_shared (h.hart v hv) (hsizes v hv).1 (isIndex_natCast hi) (h.find_equates hv _)]
        exact hsum
      · rw [usesOffset_shared (h.hart v hv) (hsizes v hv).1 (isIndex_natCast hi) (h.find_paEquates hv _)]
        exact hsum
    · exact fun position => offsetsDisjoint_shared h hsizes fun v hv => ⟨_, rfl, h.find_equates hv position⟩
    · exact fun position => offsetsDisjoint_shared h hsizes fun v hv => ⟨_, rfl, h.find_paEquates hv position⟩

/-! ### Agreement -/

theorem registered_hart {xlen : Xlen} {amoEnabled : Bool} {m : BaseMemory} {calls : List Registration}
    (hm : (HartContext.new xlen amoEnabled).registerAll true calls = .ok m) :
    Registered m true (m.variableSize * HartContext.numInternalVariables : ℕ) calls ∧ m.xlen = xlen := by
  have hnew : Registered (HartContext.new xlen amoEnabled) true
      ((HartContext.new xlen amoEnabled).variableSize * HartContext.numInternalVariables : ℕ) [] :=
    ⟨List.nodup_nil, by cases xlen <;> simp [HartContext.new, BaseMemory.variableSize, Xlen.bits, HartContext.numInternalVariables],
      fun _ _ _ h => by simp [HartContext.new] at h, fun _ h => (nomatch h), rfl⟩
  obtain ⟨hregistered, hxlen⟩ := registered_registerAll hnew hm
  rw [BaseMemory.variableSize, ← hxlen] at hregistered
  exact ⟨hregistered, hxlen⟩

theorem registered_shared {xlen : Xlen} {amoEnabled : Bool} {m : BaseMemory} {calls : List Registration}
    (hm : (SharedMemory.new xlen amoEnabled).registerAll false calls = .ok m) :
    Registered m false 0 calls ∧ m.xlen = xlen := by
  have hnew : Registered (SharedMemory.new xlen amoEnabled) false 0 [] :=
    ⟨List.nodup_nil, by simp [SharedMemory.new], fun _ _ _ h => by simp [SharedMemory.new] at h,
      fun _ h => (nomatch h), rfl⟩
  exact registered_registerAll hnew hm

/-- The layout agrees with the accessors exactly when the variables with several elements have elements of the register
size. -/
theorem layoutAgrees_iff {xlen : Xlen} {amoEnabled : Bool} {calls : List Registration}
    (hsizes : ∀ call ∈ calls, ∀ size ∈ call.size, size ∈ [1, 2, 4, 8] ∧ size ≤ xlen.bits / 8) :
    (∀ m, (HartContext.new xlen amoEnabled).registerAll true calls = .ok m →
      (HartLayoutAgrees m ↔
        ∀ call ∈ calls, call.elementCount ≤ 1 ∨ call.size.getD (xlen.bits / 8) = xlen.bits / 8)) ∧
    (∀ m, (SharedMemory.new xlen amoEnabled).registerAll false calls = .ok m →
      (SharedLayoutAgrees m ↔
        ∀ call ∈ calls, call.elementCount ≤ 1 ∨ call.size.getD (xlen.bits / 8) = xlen.bits / 8)) := by
  constructor
  · intro m hm
    obtain ⟨hregistered, rfl⟩ := registered_hart hm
    rw [hartLayoutAgrees_iff_stepsAgree hregistered (sizesFit hregistered hsizes), stepsAgree_iff hregistered]
    rfl
  · intro m hm
    obtain ⟨hregistered, rfl⟩ := registered_shared hm
    rw [sharedLayoutAgrees_iff_stepsAgree hregistered (sizesFit hregistered hsizes), stepsAgree_iff hregistered]
    rfl

/-- The variable of the hart's number, a byte, and a stack of four registers. -/
def byteAndStack : List Registration := [
  { name := "mhartid", value := 0 },
  { name := "in_use", value := 0, size := some 1 },
  { name := "saved", value := 0, elementCount := 4 }]

/-- A byte alone and an array of registers agree. -/
theorem layoutAgrees_iff_byteAndStack :
    (∃ m, (HartContext.new .xlen64 true).registerAll true byteAndStack = .ok m ∧ HartLayoutAgrees m) ∧
      ∃ m, (SharedMemory.new .xlen64 true).registerAll false byteAndStack = .ok m ∧ SharedLayoutAgrees m := by
  have hagrees := @layoutAgrees_iff .xlen64 true byteAndStack (by decide)
  obtain ⟨m, hm⟩ := Fallible.exists_ok (x := (HartContext.new .xlen64 true).registerAll true byteAndStack) (by decide +kernel)
  obtain ⟨m', hm'⟩ :=
    Fallible.exists_ok (x := (SharedMemory.new .xlen64 true).registerAll false byteAndStack) (by decide +kernel)
  exact ⟨⟨m, hm, (hagrees.1 m hm).mpr (by decide)⟩, ⟨m', hm', (hagrees.2 m' hm').mpr (by decide)⟩⟩

/-- Two words on a 64-bit hart: the second one is loaded four bytes behind the first and emitted eight bytes behind it. -/
theorem not_layoutAgrees_words :
    ¬ ∀ (xlen : Xlen) (amoEnabled : Bool) (calls : List Registration),
      (∀ call ∈ calls, ∀ size ∈ call.size, size ∈ [1, 2, 4, 8] ∧ size ≤ xlen.bits / 8) →
        (∀ m, (HartContext.new xlen amoEnabled).registerAll true calls = .ok m → HartLayoutAgrees m) ∧
        (∀ m, (SharedMemory.new xlen amoEnabled).registerAll false calls = .ok m → SharedLayoutAgrees m) := by
  intro h
  let calls : List Registration := [{ name := "words", value := 0, size := some 4, elementCount := 2 }]
  have hsizes : ∀ call ∈ calls, ∀ size ∈ call.size, size ∈ [1, 2, 4, 8] ∧ size ≤ Xlen.xlen64.bits / 8 := by decide
  obtain ⟨m, hm⟩ := Fallible.exists_ok (x := (HartContext.new .xlen64 true).registerAll true calls) (by decide +kernel)
  have hagrees := (h .xlen64 true calls hsizes).1 m hm
  obtain ⟨hregistered, hxlen⟩ := registered_hart hm
  have hsizes' : ∀ call ∈ calls, ∀ size ∈ call.size, size ∈ [1, 2, 4, 8] ∧ size ≤ m.variableSize := by
    rw [BaseMemory.variableSize, hxlen]
    exact hsizes
  rw [hartLayoutAgrees_iff_stepsAgree hregistered (sizesFit hregistered hsizes'), stepsAgree_iff hregistered,
    BaseMemory.variableSize, hxlen] at hagrees
  revert hagrees
  decide

end Riescue.Variables
