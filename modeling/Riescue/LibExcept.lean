import Mathlib.Tactic.Common

/-! Inversion of computations that may fail: a successful composite has successful parts. -/

namespace Fallible
variable {ε ε' α β : Type}

theorem bind_ok {x : Except ε α} {f : α → Except ε β} {b : β} (h : x >>= f = .ok b) :
    ∃ a, x = .ok a ∧ f a = .ok b := by
  cases x with
  | error fault => cases h
  | ok a => exact ⟨a, rfl, h⟩

theorem map_ok {x : Except ε α} {f : α → β} {b : β} (h : x.map f = .ok b) :
    ∃ a, x = .ok a ∧ f a = b := by
  cases x with
  | error fault => cases h
  | ok a => exact ⟨a, rfl, Except.ok.inj h⟩

theorem mapError_ok {x : Except ε α} {f : ε → ε'} {a : α} (h : x.mapError f = .ok a) : x = .ok a := by
  cases x with
  | error fault => cases h
  | ok b => rw [Except.ok.inj h]

theorem exists_ok {x : Except ε α} (h : x.toOption.isSome) : ∃ a, x = .ok a := by
  cases x with
  | error fault => cases h
  | ok a => exact ⟨a, rfl⟩

theorem toOption_some {x : Except ε α} {a : α} (h : x.toOption = some a) : x = .ok a := by
  cases x with
  | error fault => cases h
  | ok b => exact congrArg Except.ok (Option.some.inj h)

theorem not_error_ok {fault : ε} : ¬ ∃ a : α, (Except.error fault : Except ε α) = .ok a := by
  rintro ⟨_, h⟩
  cases h

/-- A call that succeeds on every element, on a list. -/
theorem mapM_ok {f : α → Except ε β} {g : α → β} {xs : List α} (h : ∀ x ∈ xs, f x = .ok (g x)) : xs.mapM f = .ok (xs.map g) := by
  induction xs with
  | nil => rfl
  | cons x xs ih =>
      obtain ⟨hx, hxs⟩ := List.forall_mem_cons.mp h
      rw [List.mapM_cons, hx, ih hxs]
      rfl

theorem length_mapM {f : α → Except ε β} {xs : List α} {ys : List β} (h : xs.mapM f = .ok ys) : xs.length = ys.length := by
  induction xs generalizing ys with
  | nil =>
      rw [List.mapM_nil] at h
      exact Except.ok.inj h ▸ rfl
  | cons x xs ih =>
      rw [List.mapM_cons] at h
      obtain ⟨y, -, h⟩ := bind_ok h
      obtain ⟨ys', hys, h⟩ := bind_ok h
      rw [← Except.ok.inj h, List.length_cons, List.length_cons, ih hys]

/-- A call that fails on no element, on a list. -/
theorem exists_mapM {f : α → Except ε β} {xs : List α} (h : ∀ x ∈ xs, ∃ y, f x = .ok y) : ∃ ys, xs.mapM f = .ok ys := by
  induction xs with
  | nil => exact ⟨[], rfl⟩
  | cons x xs ih =>
      obtain ⟨⟨y, hy⟩, hxs⟩ := List.forall_mem_cons.mp h
      obtain ⟨ys, hys⟩ := ih hxs
      refine ⟨y :: ys, ?_⟩
      rw [List.mapM_cons, hy, hys]
      rfl

/-- A loop ends normally if and only if every step does, when a step fails by its element alone. -/
theorem foldlM_ok_iff {f : β → α → Except ε β} {p : α → Prop} (h : ∀ b a, (∃ b', f b a = .ok b') ↔ p a) (xs : List α) (b : β) :
    (∃ b', xs.foldlM f b = .ok b') ↔ ∀ a ∈ xs, p a := by
  induction xs generalizing b with
  | nil => exact iff_of_true ⟨b, rfl⟩ (List.forall_mem_nil p)
  | cons x xs ih =>
      rw [List.forall_mem_cons, List.foldlM_cons]
      cases hx : f b x with
      | error fault => exact iff_of_false not_error_ok fun hall => not_error_ok (hx ▸ (h b x).mpr hall.1)
      | ok b' => exact (ih b').trans (and_iff_right ((h b x).mp ⟨b', hx⟩)).symm

/-- What a loop raises, one of its steps raises. -/
theorem foldlM_error {f : β → α → Except ε β} {fault : ε} {xs : List α} {b : β} (h : xs.foldlM f b = .error fault) :
    ∃ b' a, f b' a = .error fault := by
  induction xs generalizing b with
  | nil => cases h
  | cons x xs ih =>
      rw [List.foldlM_cons] at h
      cases hx : f b x with
      | error fault' =>
          rw [hx] at h
          obtain rfl := Except.error.inj h
          exact ⟨b, x, hx⟩
      | ok b' =>
          rw [hx] at h
          exact ih h

/-- A loop that collects keeps what it has, and has what its steps add. -/
theorem foldlM_collects {f : List β → α → Except ε (List β)} {adds : α → β → Prop}
    (h : ∀ b a b', f b a = .ok b' → b ⊆ b' ∧ ∀ x, adds a x → x ∈ b') {xs : List α} {b b' : List β}
    (hloop : xs.foldlM f b = .ok b') : b ⊆ b' ∧ ∀ a ∈ xs, ∀ x, adds a x → x ∈ b' := by
  induction xs generalizing b with
  | nil => exact ⟨Except.ok.inj hloop ▸ List.Subset.refl b, fun _ hmem => absurd hmem List.not_mem_nil⟩
  | cons x xs ih =>
      rw [List.foldlM_cons] at hloop
      obtain ⟨next, hnext, hloop⟩ := bind_ok hloop
      obtain ⟨hsubset, hadds⟩ := h b x next hnext
      obtain ⟨hsubset', hrest⟩ := ih hloop
      exact ⟨List.Subset.trans hsubset hsubset', List.forall_mem_cons.mpr ⟨fun y hy => hsubset' (hadds y hy), hrest⟩⟩

end Fallible
