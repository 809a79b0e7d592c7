import Mathlib.Data.List.Basic
import Mathlib.Tactic.Common

/-! Items in a text, with a separator between them and blanks around each of them. -/

namespace Separated
variable {α β : Type} (blank : α → Bool) (sep : α) (P : β → List α → Prop)

/-- The text without the blanks at its ends. -/
def trim (text : List α) : List α := ((text.dropWhile blank).reverse.dropWhile blank).reverse

/-- There is nothing to trim. -/
structure Trimmed (text : List α) : Prop where
  first : ∀ c ∈ text.head?, blank c = false
  last : ∀ c ∈ text.getLast?, blank c = false

def Blanks (text : List α) : Prop := ∀ c ∈ text, blank c = true

/-- The text is the core, with blanks around it. -/
def Around (core text : List α) : Prop :=
  ∃ before after, Blanks blank before ∧ Blanks blank after ∧ text = before ++ core ++ after

/-- The items, printed with the separator between them and blanks around each. -/
inductive Printed : List β → List α → Prop
  | nil : Printed [] []
  | single {x : β} {core piece : List α} (hcore : P x core) (hpiece : Around blank core piece) : Printed [x] piece
  | cons {x y : β} {ys : List β} {core piece rest : List α} (hcore : P x core) (hpiece : Around blank core piece)
      (hrest : Printed (y :: ys) rest) : Printed (x :: y :: ys) (piece ++ sep :: rest)

variable {blank sep P}

/-! ### Trimming -/

theorem dropWhile_of_head {p : α → Bool} {text : List α} (hfirst : ∀ c ∈ text.head?, p c = false) : text.dropWhile p = text := by
  cases text with
  | nil => rfl
  | cons c text => exact List.dropWhile_cons_of_neg (Bool.eq_false_iff.mp (hfirst c rfl))

theorem dropWhile_blanks {before : List α} (hbefore : Blanks blank before) (text : List α) :
    (before ++ text).dropWhile blank = text.dropWhile blank := by
  induction before with
  | nil => rfl
  | cons c before ih =>
      obtain ⟨hc, hrest⟩ := List.forall_mem_cons.mp hbefore
      rw [List.cons_append, List.dropWhile_cons_of_pos hc, ih hrest]

/-- A character that is no blank stops. -/
theorem dropWhile_append_stop (text back : List α) {stop : α} (hstop : blank stop = false) :
    (text ++ stop :: back).dropWhile blank = text.dropWhile blank ++ stop :: back := by
  induction text with
  | nil => exact List.dropWhile_cons_of_neg (Bool.eq_false_iff.mp hstop)
  | cons c text ih =>
      by_cases hc : blank c = true
      · rw [List.cons_append, List.dropWhile_cons_of_pos hc, List.dropWhile_cons_of_pos hc, ih]
      · rw [List.cons_append, List.dropWhile_cons_of_neg hc, List.dropWhile_cons_of_neg hc, List.cons_append]

theorem Blanks.reverse {text : List α} (h : Blanks blank text) : Blanks blank text.reverse :=
  fun c hc => h c (List.mem_reverse.mp hc)

theorem blanks_nil : Blanks blank [] := nofun

theorem blanks_singleton {c : α} (hc : blank c = true) : Blanks blank [c] := List.forall_mem_singleton.mpr hc

theorem Trimmed.of_forall {text : List α} (h : ∀ c ∈ text, blank c = false) : Trimmed blank text :=
  ⟨fun c hc => h c (List.mem_of_mem_head? hc), fun c hc => h c (List.mem_of_getLast? hc)⟩

/-- Both ends of a text decide. -/
theorem Trimmed.append {front back : List α} (hfront : Trimmed blank front) (hback : Trimmed blank back) (hne : front ≠ [])
    (hne' : back ≠ []) (middle : List α) : Trimmed blank (front ++ middle ++ back) where
  first := by
    intro c hc
    rw [List.append_assoc, List.head?_append_of_ne_nil _ hne] at hc
    exact hfront.first c hc
  last := by
    intro c hc
    rw [List.getLast?_append_of_ne_nil _ hne'] at hc
    exact hback.last c hc

theorem trim_after {text after : List α} (hlast : ∀ c ∈ text.getLast?, blank c = false) (hafter : Blanks blank after) :
    ((text ++ after).reverse.dropWhile blank).reverse = text := by
  have hhead : ∀ c ∈ text.reverse.head?, blank c = false := by
    intro c hc
    rw [List.head?_reverse] at hc
    exact hlast c hc
  rw [List.reverse_append, dropWhile_blanks hafter.reverse, dropWhile_of_head hhead, List.reverse_reverse]

theorem around_self (core : List α) : Around blank core core :=
  ⟨[], [], blanks_nil, blanks_nil, (List.append_nil core).symm⟩

theorem Around.trim {core text : List α} (h : Around blank core text) (hcore : Trimmed blank core) (hne : core ≠ []) :
    trim blank text = core := by
  obtain ⟨before, after, hbefore, hafter, rfl⟩ := h
  have hfirst : ∀ c ∈ (core ++ after).head?, blank c = false := by
    intro c hc
    rw [List.head?_append_of_ne_nil _ hne] at hc
    exact hcore.first c hc
  rw [Separated.trim, List.append_assoc, dropWhile_blanks hbefore, dropWhile_of_head hfirst, trim_after hcore.last hafter]

theorem Trimmed.trim {text : List α} (h : Trimmed blank text) (hne : text ≠ []) : trim blank text = text :=
  (around_self text).trim h hne

theorem Around.mem {core text : List α} (h : Around blank core text) {c : α} (hc : c ∈ text) : blank c = true ∨ c ∈ core := by
  obtain ⟨before, after, hbefore, hafter, rfl⟩ := h
  rcases List.mem_append.mp hc with hc | hc
  · exact (List.mem_append.mp hc).imp_left (hbefore c)
  · exact .inl (hafter c hc)

theorem Around.ne_nil {core text : List α} (h : Around blank core text) (hne : core ≠ []) : text ≠ [] := by
  obtain ⟨before, after, -, -, rfl⟩ := h
  exact List.append_ne_nil_of_left_ne_nil (List.append_ne_nil_of_right_ne_nil _ hne) _

/-! ### Printed items -/

theorem Printed.mem {xs : List β} {text : List α} (h : Printed blank sep P xs text) {c : α} (hc : c ∈ text) :
    blank c = true ∨ c = sep ∨ ∃ x ∈ xs, ∃ core, P x core ∧ c ∈ core := by
  induction h with
  | nil => cases hc
  | single hcore hpiece => exact (hpiece.mem hc).imp_right fun hmem => .inr ⟨_, List.mem_singleton_self _, _, hcore, hmem⟩
  | cons hcore hpiece _ ih =>
      rw [List.mem_append, List.mem_cons] at hc
      rcases hc with hc | rfl | hc
      · exact (hpiece.mem hc).imp_right fun hmem => .inr ⟨_, List.mem_cons_self, _, hcore, hmem⟩
      · exact .inr (.inl rfl)
      · exact (ih hc).imp_right fun h => h.imp_right fun ⟨x, hx, hmem⟩ => ⟨x, List.mem_cons_of_mem _ hx, hmem⟩

/-- More blanks in front of printed items. -/
theorem Printed.blank_cons {xs : List β} {text : List α} (h : Printed blank sep P xs text) (hne : xs ≠ []) {c : α}
    (hc : blank c = true) : Printed blank sep P xs (c :: text) := by
  have haround : ∀ {core piece : List α}, Around blank core piece → Around blank core (c :: piece) := by
    rintro core _ ⟨before, after, hbefore, hafter, rfl⟩
    exact ⟨c :: before, after, List.forall_mem_cons.mpr ⟨hc, hbefore⟩, hafter, rfl⟩
  cases h with
  | nil => exact absurd rfl hne
  | single hcore hpiece => exact .single hcore (haround hpiece)
  | cons hcore hpiece hrest => exact .cons hcore (haround hpiece) hrest

/-- Trimming leaves the items as they are printed. -/
theorem Printed.trim {xs : List β} {text : List α} (h : Printed blank sep P xs text)
    (hcores : ∀ x ∈ xs, ∀ core, P x core → Trimmed blank core ∧ core ≠ []) (hsep : blank sep = false) :
    Printed blank sep P xs (trim blank text) := by
  have hfront : Printed blank sep P xs (text.dropWhile blank) := by
    cases h with
    | nil => exact .nil
    | single hcore hpiece =>
        obtain ⟨htrimmed, hne⟩ := hcores _ List.mem_cons_self _ hcore
        obtain ⟨before, after, hbefore, hafter, rfl⟩ := hpiece
        rw [List.append_assoc, dropWhile_blanks hbefore, dropWhile_of_head]
        · exact .single hcore ⟨[], after, blanks_nil, hafter, rfl⟩
        · intro c hc
          rw [List.head?_append_of_ne_nil _ hne] at hc
          exact htrimmed.first c hc
    | cons hcore hpiece hrest =>
        obtain ⟨htrimmed, hne⟩ := hcores _ List.mem_cons_self _ hcore
        obtain ⟨before, after, hbefore, hafter, rfl⟩ := hpiece
        rw [List.append_assoc, List.append_assoc, dropWhile_blanks hbefore, dropWhile_of_head, ← List.append_assoc]
        · exact .cons hcore ⟨[], after, blanks_nil, hafter, rfl⟩ hrest
        · intro c hc
          rw [List.head?_append_of_ne_nil _ hne] at hc
          exact htrimmed.first c hc
  suffices hback : ∀ {text}, Printed blank sep P xs text → Printed blank sep P xs (text.reverse.dropWhile blank).reverse from
    hback hfront
  clear hfront h text
  intro text h
  induction h with
  | nil => exact .nil
  | single hcore hpiece =>
      obtain ⟨htrimmed, hne⟩ := hcores _ List.mem_cons_self _ hcore
      obtain ⟨before, after, hbefore, hafter, rfl⟩ := hpiece
      rw [trim_after _ hafter]
      · exact .single hcore ⟨before, [], hbefore, blanks_nil, (List.append_nil _).symm⟩
      · intro c hc
        rw [List.getLast?_append_of_ne_nil _ hne] at hc
        exact htrimmed.last c hc
  | @cons x y ys core piece rest hcore hpiece hrest ih =>
      have hcores' := fun x hx => hcores x (List.mem_cons_of_mem _ hx)
      have hstop : ((piece ++ sep :: rest).reverse.dropWhile blank).reverse =
          piece ++ sep :: (rest.reverse.dropWhile blank).reverse := by
        rw [List.reverse_append, List.reverse_cons, List.append_assoc, List.singleton_append,
          dropWhile_append_stop _ _ hsep, List.reverse_append, List.reverse_cons, List.reverse_reverse, List.append_assoc,
          List.singleton_append]
      rw [hstop]
      exact .cons hcore hpiece (ih hcores')

/-! ### Ends of items -/

theorem append_stop_inj {stop : α} {x y rest rest' : List α} (hx : stop ∉ x) (hy : stop ∉ y)
    (h : x ++ stop :: rest = y ++ stop :: rest') : x = y ∧ rest = rest' := by
  induction x generalizing y with
  | nil =>
      cases y with
      | nil => exact ⟨rfl, (List.cons.inj h).2⟩
      | cons c y => exact absurd (List.cons.inj h).1 fun heq => hy (heq ▸ List.mem_cons_self)
  | cons c x ih =>
      cases y with
      | nil => exact absurd (List.cons.inj h).1 fun heq => hx (heq ▸ List.mem_cons_self)
      | cons d y =>
          obtain ⟨rfl, htail⟩ := List.cons.inj h
          obtain ⟨rfl, hrest⟩ := ih (mt (List.mem_cons_of_mem c) hx) (mt (List.mem_cons_of_mem c) hy) htail
          exact ⟨rfl, hrest⟩

/-- Items with an end behind each can be told apart. -/
theorem terminated_inj {stop : α} {xs ys : List (List α)} (hxs : ∀ x ∈ xs, stop ∉ x) (hys : ∀ y ∈ ys, stop ∉ y)
    (h : xs.flatMap (· ++ [stop]) = ys.flatMap (· ++ [stop])) : xs = ys := by
  have hne : ∀ (x : List α) (xs : List (List α)), (x :: xs).flatMap (· ++ [stop]) ≠ [] := by
    intro x xs hnil
    rw [List.flatMap_cons, List.append_assoc] at hnil
    exact List.append_ne_nil_of_right_ne_nil x (List.cons_ne_nil stop _) hnil
  induction xs generalizing ys with
  | nil =>
      cases ys with
      | nil => rfl
      | cons y ys => exact absurd h.symm (hne y ys)
  | cons x xs ih =>
      cases ys with
      | nil => exact absurd h (hne x xs)
      | cons y ys =>
          rw [List.flatMap_cons, List.flatMap_cons, List.append_assoc, List.append_assoc] at h
          obtain ⟨rfl, hrest⟩ := append_stop_inj (hxs x List.mem_cons_self) (hys y List.mem_cons_self) h
          exact congrArg (x :: ·) (ih (fun x' hx' => hxs x' (List.mem_cons_of_mem _ hx'))
            (fun y' hy' => hys y' (List.mem_cons_of_mem _ hy')) hrest)

/-! ### Pieces of a text -/

theorem sep_notMem_splitOn [DecidableEq α] {text piece : List α} (h : piece ∈ text.splitOn sep) : sep ∉ piece := by
  induction text generalizing piece with
  | nil => simp [List.mem_singleton.mp h]
  | cons c rest ih =>
      rw [List.splitOn, List.splitOnP_cons_eq_if_modifyHead] at h
      split_ifs at h with hc
      · rcases List.mem_cons.mp h with rfl | hmem
        · exact List.not_mem_nil
        · exact ih hmem
      · cases hsplit : rest.splitOnP (· == sep) with
        | nil => exact absurd hsplit (List.splitOnP_ne_nil _ _)
        | cons first others =>
            rw [hsplit, List.modifyHead_cons] at h
            have hpiece : ∀ other ∈ first :: others, sep ∉ other := fun other hother =>
              ih (show other ∈ rest.splitOnP (· == sep) from hsplit ▸ hother)
            rcases List.mem_cons.mp h with rfl | hmem
            · rw [List.mem_cons, not_or]
              exact ⟨fun heq => hc (beq_iff_eq.mpr heq.symm), hpiece first List.mem_cons_self⟩
            · exact hpiece piece (List.mem_cons_of_mem _ hmem)

end Separated
