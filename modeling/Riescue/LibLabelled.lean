import Mathlib.Data.List.Nodup
import Mathlib.Tactic.Common

/-! Code with labels between its instructions: where a label stands is clear when no label is set twice. -/

namespace Labelled
variable {Label ι : Type}

inductive Line (Label ι : Type) where
  | label (name : Label)
  | instr (instr : ι)
  deriving DecidableEq, Repr

def Line.name? : Line Label ι → Option Label
  | label l => some l
  | instr _ => none

def Line.instr? : Line Label ι → Option ι
  | label _ => none
  | instr i => some i

/-- The labels of the code, in their order. -/
def labels (code : List (Line Label ι)) : List Label := code.filterMap Line.name?

def instrs (code : List (Line Label ι)) : List ι := code.filterMap Line.instr?

@[simp] theorem labels_nil : labels ([] : List (Line Label ι)) = [] := rfl

@[simp] theorem labels_label (name : Label) (code : List (Line Label ι)) :
    labels (.label name :: code) = name :: labels code := rfl

@[simp] theorem labels_instr (instr : ι) (code : List (Line Label ι)) : labels (.instr instr :: code) = labels code := rfl

@[simp] theorem labels_append (front back : List (Line Label ι)) : labels (front ++ back) = labels front ++ labels back :=
  List.filterMap_append

theorem labels_flatMap {α : Type} (f : α → List (Line Label ι)) (xs : List α) :
    labels (xs.flatMap f) = xs.flatMap fun x => labels (f x) := by
  induction xs with
  | nil => rfl
  | cons x xs ih => rw [List.flatMap_cons, labels_append, ih, List.flatMap_cons]

/-- A stretch of instructions has no label. -/
theorem labels_map_instr (xs : List ι) : labels (xs.map Line.instr : List (Line Label ι)) = [] := by
  induction xs with
  | nil => rfl
  | cons x xs ih => exact ih

theorem instrs_map_instr_append (xs : List ι) (code : List (Line Label ι)) :
    instrs (xs.map Line.instr ++ code) = xs ++ instrs code := by
  induction xs with
  | nil => rfl
  | cons x xs ih => exact congrArg (x :: ·) ih

variable [DecidableEq Label]

/-- The lines behind the first place where a label is set. -/
def linesAt (name : Label) : List (Line Label ι) → Option (List (Line Label ι))
  | [] => none
  | .label name' :: rest => if name' = name then some rest else linesAt name rest
  | .instr _ :: rest => linesAt name rest

theorem linesAt_append {name : Label} {front : List (Line Label ι)} (hfront : name ∉ labels front)
    (rest : List (Line Label ι)) : linesAt name (front ++ .label name :: rest) = some rest := by
  induction front with
  | nil => exact if_pos rfl
  | cons line front ih =>
      cases line with
      | label name' =>
          rw [labels_label, List.mem_cons, not_or] at hfront
          exact (if_neg (Ne.symm hfront.1)).trans (ih hfront.2)
      | instr instr => exact ih hfront

/-- Where no label is set twice, a label leads to the lines behind it. -/
theorem linesAt_of_nodup {code front rest : List (Line Label ι)} {name : Label} (hnodup : (labels code).Nodup)
    (hcode : code = front ++ .label name :: rest) : linesAt name code = some rest := by
  obtain rfl := hcode
  rw [labels_append, labels_label, List.nodup_append] at hnodup
  exact linesAt_append (fun hmem => hnodup.2.2 name hmem name List.mem_cons_self rfl) rest

end Labelled
