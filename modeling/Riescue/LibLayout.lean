import Mathlib.Algebra.BigOperators.Group.List.Basic
import Mathlib.Data.Nat.ModEq
import Mathlib.Tactic.Common

/-! The data directives of an assembler and the positions at which they stand in a section. -/

namespace Layout

/-- A line of a data section. -/
inductive Directive (Label Datum : Type*) where
  | label (name : Label)
  | balign (alignment : ℕ)
  | data (size : ℕ) (datum : Datum)
  | space (size : ℕ)
  deriving Repr

variable {Label Datum : Type*}

/-- The first multiple of `alignment` from `position` on. -/
def alignUp (alignment position : ℕ) : ℕ := position + (alignment - position % alignment) % alignment

/-- The location counter after a line. -/
def Directive.advance (position : ℕ) : Directive Label Datum → ℕ
  | .label _ => position
  | .balign alignment => alignUp alignment position
  | .data size _ => position + size
  | .space size => position + size

/-- The location counter after some lines. -/
def finish (position : ℕ) (lines : List (Directive Label Datum)) : ℕ := lines.foldl Directive.advance position

/-- The position of the first line with a property. -/
def find (p : Directive Label Datum → Bool) (position : ℕ) : List (Directive Label Datum) → Option ℕ
  | [] => none
  | line :: lines => if p line then some position else find p (line.advance position) lines

/-- Lines whose labels and data are renamed. -/
def Directive.map {Label' Datum' : Type*} (rename : Label → Label') (convert : Datum → Datum') :
    Directive Label Datum → Directive Label' Datum'
  | .label name => .label (rename name)
  | .balign alignment => .balign alignment
  | .data size datum => .data size (convert datum)
  | .space size => .space size

@[simp] theorem finish_nil (position : ℕ) : finish position ([] : List (Directive Label Datum)) = position := rfl

@[simp] theorem finish_cons (position : ℕ) (line : Directive Label Datum) (lines : List (Directive Label Datum)) :
    finish position (line :: lines) = finish (line.advance position) lines := rfl

theorem finish_append (position : ℕ) (front back : List (Directive Label Datum)) :
    finish position (front ++ back) = finish (finish position front) back := List.foldl_append

/-- Lines of one size. -/
theorem finish_data {position size : ℕ} {lines : List (Directive Label Datum)}
    (h : ∀ line ∈ lines, ∃ datum, line = .data size datum) : finish position lines = position + size * lines.length := by
  induction lines generalizing position with
  | nil => rfl
  | cons line lines ih =>
      obtain ⟨⟨datum, rfl⟩, hlines⟩ := List.forall_mem_cons.mp h
      rw [finish_cons, ih hlines, List.length_cons, Directive.advance, Nat.mul_succ]
      omega

variable {p : Directive Label Datum → Bool}

theorem find_cons_pos {position : ℕ} {line : Directive Label Datum} (h : p line = true)
    (lines : List (Directive Label Datum)) : find p position (line :: lines) = some position := if_pos h

theorem find_append {position : ℕ} {front : List (Directive Label Datum)} (h : ∀ line ∈ front, p line = false)
    (back : List (Directive Label Datum)) : find p position (front ++ back) = find p (finish position front) back := by
  induction front generalizing position with
  | nil => rfl
  | cons line front ih =>
      obtain ⟨hline, hfront⟩ := List.forall_mem_cons.mp h
      rw [List.cons_append, find, if_neg (Bool.eq_false_iff.mp hline), ih hfront, finish_cons]

theorem find_append_of_some {position found : ℕ} {front : List (Directive Label Datum)}
    (h : find p position front = some found) (back : List (Directive Label Datum)) :
    find p position (front ++ back) = some found := by
  induction front generalizing position with
  | nil => cases h
  | cons line front ih =>
      rw [List.cons_append, find]
      rw [find] at h
      split_ifs at h ⊢
      · exact h
      · exact ih h

theorem find_append_cons {position : ℕ} {front : List (Directive Label Datum)} {line : Directive Label Datum}
    (hfront : ∀ line ∈ front, p line = false) (hline : p line = true) (back : List (Directive Label Datum)) :
    find p position (front ++ line :: back) = some (finish position front) := by
  rw [find_append hfront, find_cons_pos hline]

theorem advance_map {Label' Datum' : Type*} (rename : Label → Label') (convert : Datum → Datum') (position : ℕ)
    (line : Directive Label Datum) : (line.map rename convert).advance position = line.advance position := by
  cases line <;> rfl

theorem find_map {Label' Datum' : Type*} (rename : Label → Label') (convert : Datum → Datum')
    (p : Directive Label' Datum' → Bool) (position : ℕ) (lines : List (Directive Label Datum)) :
    find p position (lines.map (Directive.map rename convert)) =
      find (fun line => p (line.map rename convert)) position lines := by
  induction lines generalizing position with
  | nil => rfl
  | cons line lines ih => rw [List.map_cons, find, find, ih, advance_map]

/-! ### Labelled data -/

/-- A label with one datum of a size. -/
structure Block (Label Datum : Type*) where
  label : Label
  size : ℕ
  datum : Datum

def Block.lines (block : Block Label Datum) : List (Directive Label Datum) := [.label block.label, .data block.size block.datum]

/-- The lines of some blocks. -/
def blockLines (blocks : List (Block Label Datum)) : List (Directive Label Datum) := blocks.flatMap Block.lines

theorem blockLines_append (front back : List (Block Label Datum)) :
    blockLines (front ++ back) = blockLines front ++ blockLines back := List.flatMap_append

/-- The bytes of some blocks. -/
def blockBytes (blocks : List (Block Label Datum)) : ℕ := (blocks.map Block.size).sum

theorem finish_blockLines (position : ℕ) (blocks : List (Block Label Datum)) :
    finish position (blockLines blocks) = position + blockBytes blocks := by
  induction blocks generalizing position with
  | nil => rfl
  | cons block blocks ih =>
      show finish (position + block.size) (blockLines blocks) = position + (block.size + blockBytes blocks)
      rw [ih, Nat.add_assoc]

def isNamed [DecidableEq Label] (name : Label) : Directive Label Datum → Bool
  | .label other => other = name
  | _ => false

theorem isNamed_blockLines [DecidableEq Label] {name : Label} {blocks : List (Block Label Datum)}
    (h : ∀ block ∈ blocks, block.label ≠ name) : ∀ line ∈ blockLines blocks, isNamed name line = false := by
  intro line hline
  obtain ⟨block, hblock, hmem⟩ := List.mem_flatMap.mp hline
  rcases List.mem_pair.mp hmem with rfl | rfl
  · exact decide_eq_false (h block hblock)
  · rfl

/-- A block of a new label stands behind the bytes of the blocks in front of it. -/
theorem find_blockLines [DecidableEq Label] {before after : List (Block Label Datum)} {block : Block Label Datum}
    (h : ∀ other ∈ before, other.label ≠ block.label) (position : ℕ) (back : List (Directive Label Datum)) :
    find (isNamed block.label) position (blockLines (before ++ block :: after) ++ back) =
      some (position + blockBytes before) := by
  have hlines : blockLines (before ++ block :: after) ++ back =
      blockLines before ++ (.label block.label :: (.data block.size block.datum :: blockLines after ++ back)) := by
    rw [blockLines_append, List.append_assoc]
    rfl
  have hnamed : isNamed block.label (Directive.label block.label : Directive Label Datum) = true := decide_eq_true rfl
  rw [hlines, find_append_cons (isNamed_blockLines h) hnamed, finish_blockLines]

theorem dvd_alignUp {alignment : ℕ} (h : 0 < alignment) (position : ℕ) : alignment ∣ alignUp alignment position := by
  have hlt := Nat.mod_lt position h
  have hsum := Nat.div_add_mod position alignment
  rw [alignUp]
  by_cases hzero : position % alignment = 0
  · rw [hzero, Nat.sub_zero, Nat.mod_self, Nat.add_zero]
    exact Nat.dvd_of_mod_eq_zero hzero
  · rw [Nat.mod_eq_of_lt (by omega)]
    exact ⟨position / alignment + 1, by rw [Nat.mul_add]; omega⟩

theorem alignUp_of_dvd {alignment position : ℕ} (h : alignment ∣ position) : alignUp alignment position = position := by
  rw [alignUp, Nat.mod_eq_zero_of_dvd h, Nat.sub_zero, Nat.mod_self, Nat.add_zero]

end Layout
