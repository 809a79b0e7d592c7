import Mathlib.Data.List.Basic
import Mathlib.Tactic.Common

/-! Straight-line programs over named values. Every instruction reads and defines values, each with its type, and a
program is well formed when each value it reads is defined once, further up and with the type of the read. -/

namespace Dataflow
variable {ι κ Name Ty : Type}

section Along
variable (defs : ι → List (Name × Ty))

/-- The property holds of every instruction together with what is defined above it. -/
def Along (P : List (Name × Ty) → ι → Prop) : List (Name × Ty) → List ι → Prop
  | _, [] => True
  | above, instruction :: rest => P above instruction ∧ Along P (above ++ defs instruction) rest

variable {defs} {P : List (Name × Ty) → ι → Prop}

theorem along_append {above : List (Name × Ty)} {program program' : List ι} :
    Along defs P above (program ++ program') ↔
      Along defs P above program ∧ Along defs P (above ++ program.flatMap defs) program' := by
  induction program generalizing above with
  | nil => simp [Along]
  | cons instruction program ih =>
      rw [List.cons_append, Along, Along, ih, List.flatMap_cons, List.append_assoc, and_assoc]

theorem along_iff_split {above : List (Name × Ty)} {program : List ι} :
    Along defs P above program ↔ ∀ front instruction back, program = front ++ instruction :: back →
      P (above ++ front.flatMap defs) instruction := by
  constructor
  · rintro h front instruction back rfl
    exact (along_append.mp h).2.1
  · intro h
    induction program generalizing above with
    | nil => trivial
    | cons instruction program ih =>
        refine ⟨by simpa using h [] instruction program rfl, ih fun front next back heq => ?_⟩
        have hnext := h (instruction :: front) next back (by rw [heq, List.cons_append])
        rwa [List.flatMap_cons, ← List.append_assoc] at hnext

end Along

section Names
variable (defs : ι → List (Name × Ty))

/-- The names that a program defines, one for each definition. -/
def names (program : List ι) : List Name := (program.flatMap defs).map Prod.fst

/-- Instructions that neither read nor define values are left out. -/
structure Erases (uses defs : ι → List (Name × Ty)) (uses' defs' : κ → List (Name × Ty)) (erase : ι → Option κ) : Prop where
  none : ∀ instruction, erase instruction = none → uses instruction = [] ∧ defs instruction = []
  some : ∀ instruction kept, erase instruction = some kept →
    uses instruction = uses' kept ∧ defs instruction = defs' kept

variable {defs} {uses : ι → List (Name × Ty)} {uses' defs' : κ → List (Name × Ty)}

@[simp] theorem names_nil : names defs [] = [] := rfl

@[simp] theorem names_cons (instruction : ι) (program : List ι) :
    names defs (instruction :: program) = (defs instruction).map Prod.fst ++ names defs program := by
  simp [names]

@[simp] theorem names_append (program program' : List ι) :
    names defs (program ++ program') = names defs program ++ names defs program' := by
  simp [names]

theorem Erases.flatMap_defs {erase : ι → Option κ} (h : Erases uses defs uses' defs' erase) (program : List ι) :
    (program.filterMap erase).flatMap defs' = program.flatMap defs := by
  induction program with
  | nil => rfl
  | cons instruction program ih =>
      cases herase : erase instruction with
      | none => rw [List.filterMap_cons_none herase, ih, List.flatMap_cons, (h.none _ herase).2, List.nil_append]
      | some kept => rw [List.filterMap_cons_some herase, List.flatMap_cons, List.flatMap_cons, ih, (h.some _ _ herase).2]

end Names

section WellFormed
variable [DecidableEq Name] (uses defs : ι → List (Name × Ty))

/-- Every value that an instruction reads is defined by exactly one instruction, which comes earlier and defines it
with the type of the read. -/
def WellFormed (program : List ι) : Prop :=
  ∀ front instruction back, program = front ++ instruction :: back → ∀ use ∈ uses instruction,
    (names defs program).count use.1 = 1 ∧ use ∈ front.flatMap defs

/-- An instruction reads what is defined above it, and once among the names of the program. -/
def Checked (total : List Name) (above : List (Name × Ty)) (instruction : ι) : Prop :=
  ∀ use ∈ uses instruction, total.count use.1 = 1 ∧ use ∈ above

variable {uses defs} {uses' defs' : κ → List (Name × Ty)}

theorem wellFormed_iff_along {program : List ι} :
    WellFormed uses defs program ↔ Along defs (Checked uses (names defs program)) [] program := by
  rw [along_iff_split]
  exact Iff.rfl

theorem checked_of_uses_eq_nil {total : List Name} {above : List (Name × Ty)} {instruction : ι}
    (h : uses instruction = []) : Checked uses total above instruction := by
  intro use huse
  rw [h] at huse
  exact absurd huse List.not_mem_nil

theorem Erases.along {erase : ι → Option κ} (h : Erases uses defs uses' defs' erase) {total : List Name}
    {above : List (Name × Ty)} {program : List ι} :
    Along defs (Checked uses total) above program ↔
      Along defs' (Checked uses' total) above (program.filterMap erase) := by
  induction program generalizing above with
  | nil => exact Iff.rfl
  | cons instruction program ih =>
      cases herase : erase instruction with
      | none =>
          obtain ⟨huses, hdefs⟩ := h.none _ herase
          rw [List.filterMap_cons_none herase, Along, hdefs, List.append_nil, ih,
            and_iff_right (checked_of_uses_eq_nil huses)]
      | some kept =>
          obtain ⟨huses, hdefs⟩ := h.some _ _ herase
          rw [List.filterMap_cons_some herase, Along, Along, hdefs, ih, Checked, Checked, huses]

/-- Whether a program is well formed is seen without the instructions that play no part. -/
theorem Erases.wellFormed_iff {erase : ι → Option κ} (h : Erases uses defs uses' defs' erase) {program : List ι} :
    WellFormed uses defs program ↔ WellFormed uses' defs' (program.filterMap erase) := by
  rw [wellFormed_iff_along, wellFormed_iff_along, h.along, names, names, h.flatMap_defs]

end WellFormed

end Dataflow
