import Mathlib

/-! Cells that are saved in slots and restored from them. The cells are read and written by keys, and a key may be a view of
what another key reads, but no window that another key moves. What the slots were filled with comes back when nothing
between overwrites them. -/

namespace SaveRestore

/-- Values that are read and written by keys. -/
structure Cells (K σ V : Type) where
  read : K → σ → V
  write : K → V → σ → σ
  /-- A value that a key once read can be written back. -/
  read_write : ∀ k s t, read k (write k (read k t) s) = read k t
  /-- What already reads as before is not disturbed when another key is written back. -/
  read_write_of_eq : ∀ k k' s t, read k s = read k t → read k (write k' (read k' t) s) = read k t

variable {K σ V : Type}

/-- Cells that do not overlap. -/
def Cells.independent [DecidableEq K] : Cells K (K → V) V where
  read := fun k s => s k
  write := fun k v s => Function.update s k v
  read_write := fun k s t => Function.update_self k (t k) s
  read_write_of_eq := by
    intro k k' s t h
    by_cases hk : k = k'
    · rw [hk]
      exact Function.update_self k' (t k') s
    · exact (Function.update_of_ne hk (t k') s).trans h

variable (cells : Cells K σ V)

/-- The slots after the keys were read into them. -/
def saveAll (slots : List (ℕ × K)) (s : σ) (mem : ℕ → V) : ℕ → V :=
  slots.foldl (fun mem slot => Function.update mem slot.1 (cells.read slot.2 s)) mem

/-- The cells after the keys were written from their slots. -/
def restoreAll (slots : List (ℕ × K)) (mem : ℕ → V) (s : σ) : σ :=
  slots.foldl (fun s slot => cells.write slot.2 (mem slot.1) s) s

theorem saveAll_other {slots : List (ℕ × K)} {i : ℕ} (h : i ∉ slots.map Prod.fst) (s : σ) (mem : ℕ → V) :
    saveAll cells slots s mem i = mem i := by
  induction slots generalizing mem with
  | nil => rfl
  | cons slot rest ih =>
      rw [List.map_cons, List.mem_cons, not_or] at h
      exact (ih h.2 _).trans (Function.update_of_ne h.1 _ _)

theorem saveAll_slot {slots : List (ℕ × K)} (hnodup : (slots.map Prod.fst).Nodup) (s : σ) (mem : ℕ → V) :
    ∀ slot ∈ slots, saveAll cells slots s mem slot.1 = cells.read slot.2 s := by
  induction slots generalizing mem with
  | nil => exact List.forall_mem_nil _
  | cons slot rest ih =>
      rw [List.map_cons, List.nodup_cons] at hnodup
      refine List.forall_mem_cons.mpr ⟨?_, ih hnodup.2 _⟩
      exact (saveAll_other cells hnodup.1 s _).trans (Function.update_self _ _ _)

/-- What reads as before still does after other keys were restored. -/
theorem read_restoreAll_of_eq {slots : List (ℕ × K)} {mem : ℕ → V} {t : σ}
    (hmem : ∀ slot ∈ slots, mem slot.1 = cells.read slot.2 t) {k : K} {s : σ} (h : cells.read k s = cells.read k t) :
    cells.read k (restoreAll cells slots mem s) = cells.read k t := by
  induction slots generalizing s with
  | nil => exact h
  | cons slot rest ih =>
      obtain ⟨hslot, hrest⟩ := List.forall_mem_cons.mp hmem
      refine ih hrest ?_
      dsimp only
      rw [hslot]
      exact cells.read_write_of_eq k slot.2 s t h

theorem read_restoreAll {slots : List (ℕ × K)} {mem : ℕ → V} {t : σ}
    (hmem : ∀ slot ∈ slots, mem slot.1 = cells.read slot.2 t) (s : σ) :
    ∀ slot ∈ slots, cells.read slot.2 (restoreAll cells slots mem s) = cells.read slot.2 t := by
  induction slots generalizing s with
  | nil => exact List.forall_mem_nil _
  | cons slot rest ih =>
      obtain ⟨hslot, hrest⟩ := List.forall_mem_cons.mp hmem
      refine List.forall_mem_cons.mpr ⟨read_restoreAll_of_eq cells hrest ?_, ih hrest _⟩
      dsimp only
      rw [hslot]
      exact cells.read_write slot.2 s t

/-- A cell that has no slot keeps its value. -/
theorem restoreAll_independent [DecidableEq K] {slots : List (ℕ × K)} {k : K} (h : k ∉ slots.map Prod.snd) (mem : ℕ → V)
    (s : K → V) : restoreAll Cells.independent slots mem s k = s k := by
  induction slots generalizing s with
  | nil => rfl
  | cons slot rest ih =>
      rw [List.map_cons, List.mem_cons, not_or] at h
      exact (ih h.2 _).trans (Function.update_of_ne h.1 _ _)

end SaveRestore
