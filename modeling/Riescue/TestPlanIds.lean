import Std.Data.String.ToNat
import Mathlib.Data.List.Nodup
import Mathlib.Tactic.Common

/-! The ids of a lowering context, `_IDTracker` of `context.py`: one counter for values and one for memory, whose ids
for data and for code have different names. -/

namespace Riescue.TestPlan

/-- The counters of `_IDTracker`. -/
structure IdTracker where
  valueCount : ℕ
  memoryCount : ℕ
  labelCount : ℕ
  /-- `_counters`: the unique names of each prefix. -/
  counters : String → ℕ

/-- The kinds of ids that an action can get. -/
inductive IdKind where
  | value | memory | codeMemory
  deriving DecidableEq, Repr

/-- The id with a number, as the f-strings write it. -/
def IdKind.id : IdKind → ℕ → String
  | value, n => "r" ++ toString n
  | memory, n => "mem" ++ toString n
  | codeMemory, n => "code_mem" ++ toString n

namespace IdTracker

/-- `new_value_id`, `new_memory_id` and `new_code_memory_id`. -/
def newId (tracker : IdTracker) : IdKind → String × IdTracker
  | .value => (IdKind.value.id tracker.valueCount, { tracker with valueCount := tracker.valueCount + 1 })
  | .memory => (IdKind.memory.id tracker.memoryCount, { tracker with memoryCount := tracker.memoryCount + 1 })
  | .codeMemory => (IdKind.codeMemory.id tracker.memoryCount, { tracker with memoryCount := tracker.memoryCount + 1 })

/-- The counter that the ids of a kind are taken from. -/
def count (tracker : IdTracker) : IdKind → ℕ
  | .value => tracker.valueCount
  | .memory | .codeMemory => tracker.memoryCount

/-- The tracker has given out the id. -/
def Spent (tracker : IdTracker) (id : String) : Prop := ∃ kind n, n < tracker.count kind ∧ id = IdKind.id kind n

end IdTracker

theorem IdKind.id_toList (kind : IdKind) (n : ℕ) :
    (kind.id n).toList = (match kind with | value => ['r'] | memory => ['m', 'e', 'm'] | codeMemory => "code_mem".toList) ++
      (toString n).toList := by
  cases kind <;> simp [IdKind.id, String.toList_append]

/-- Ids of different kinds or numbers are different. -/
theorem IdKind.id_injective {kind kind' : IdKind} {n n' : ℕ} (h : kind.id n = kind'.id n') : kind = kind' ∧ n = n' := by
  have hkind : kind = kind' := by
    have hlist := congrArg String.toList h
    rw [id_toList, id_toList] at hlist
    cases kind <;> cases kind' <;> first | rfl | simp at hlist
  subst hkind
  have hnumber : toString n = toString n' := by
    cases kind <;> exact (String.append_right_inj _).mp h
  exact ⟨rfl, Nat.repr_injective hnumber⟩

namespace IdTracker
variable {tracker : IdTracker}

theorem newId_id (kind : IdKind) : (tracker.newId kind).1 = kind.id (tracker.count kind) := by
  cases kind <;> rfl

theorem count_newId (kind other : IdKind) : tracker.count other ≤ (tracker.newId kind).2.count other := by
  cases kind <;> cases other <;> simp [newId, count]

theorem count_newId_self (kind : IdKind) : (tracker.newId kind).2.count kind = tracker.count kind + 1 := by
  cases kind <;> rfl

theorem newId_not_spent (kind : IdKind) : ¬tracker.Spent (tracker.newId kind).1 := by
  rintro ⟨kind', n, hlt, heq⟩
  rw [newId_id] at heq
  obtain ⟨rfl, rfl⟩ := IdKind.id_injective heq
  exact Nat.lt_irrefl _ hlt

theorem spent_newId (kind : IdKind) : (tracker.newId kind).2.Spent (tracker.newId kind).1 := by
  refine ⟨kind, tracker.count kind, ?_, newId_id kind⟩
  rw [count_newId_self]
  exact Nat.lt_succ_self _

theorem Spent.newId {id : String} (h : tracker.Spent id) (kind : IdKind) : (tracker.newId kind).2.Spent id := by
  obtain ⟨kind', n, hlt, rfl⟩ := h
  exact ⟨kind', n, Nat.lt_of_lt_of_le hlt (count_newId kind kind'), rfl⟩

end IdTracker
end Riescue.TestPlan
