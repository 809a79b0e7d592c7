import Riescue.LibExcept
import Mathlib.Data.List.Forall2

/-! Traversing a list with a step that may fail and that threads a state: what a whole traversal does is read
off what its step does, when the step splits into parts that do not see each other's state. -/

namespace Traversal
variable {ε ε₁ ε₂ σ σ₁ σ₂ α β β₁ β₂ : Type}

/-- The step at every entry in order, with the results collected; the first fault ends the traversal. -/
def run (step : α → σ → Except ε (β × σ)) : List α → σ → Except ε (List β × σ)
  | [], state => .ok ([], state)
  | entry :: rest, state =>
      step entry state >>= fun out =>
        run step rest out.2 >>= fun outs => .ok (out.1 :: outs.1, outs.2)

theorem run_cons_ok {step : α → σ → Except ε (β × σ)} {entry : α} {rest : List α} {state final : σ}
    {results : List β} :
    run step (entry :: rest) state = .ok (results, final) ↔
      ∃ result next later, step entry state = .ok (result, next) ∧ run step rest next = .ok (later, final) ∧
        results = result :: later := by
  constructor
  · intro h
    obtain ⟨⟨result, next⟩, hstep, h⟩ := Fallible.bind_ok h
    obtain ⟨⟨later, last⟩, hrest, h⟩ := Fallible.bind_ok h
    obtain ⟨rfl, rfl⟩ := Prod.mk.inj (Except.ok.inj h)
    exact ⟨result, next, later, hstep, hrest, rfl⟩
  · rintro ⟨result, next, later, hstep, hrest, rfl⟩
    simp only [run, hstep, bind, Except.bind, hrest]

/-- What one step guarantees of its result, a traversal guarantees of every result. -/
theorem run_results {step : α → σ → Except ε (β × σ)} (Post : α → β → Prop)
    (hstep : ∀ {entry state result next}, step entry state = .ok (result, next) → Post entry result)
    {entries : List α} {state final : σ} {results : List β} (h : run step entries state = .ok (results, final)) :
    List.Forall₂ Post entries results := by
  induction entries generalizing state results with
  | nil =>
      obtain ⟨rfl, -⟩ := Prod.mk.inj (Except.ok.inj h)
      exact List.Forall₂.nil
  | cons entry rest ih =>
      obtain ⟨result, next, later, hfirst, hrest, rfl⟩ := run_cons_ok.mp h
      exact List.Forall₂.cons (hstep hfirst) (ih hrest)

/-- A step that draws a value, checks its entry and builds its result from both: the traversal succeeds when
the draws do and every entry passes. -/
theorem run_guarded {step : α → σ → Except ε (β × σ)} {draw : α → σ → Except ε₁ (β₁ × σ)} {Guard : α → Prop}
    {build : α → β₁ → β}
    (hstep : ∀ entry state result next, step entry state = .ok (result, next) ↔
      ∃ drawn, draw entry state = .ok (drawn, next) ∧ Guard entry ∧ result = build entry drawn)
    {entries : List α} {state final : σ} {results : List β} :
    run step entries state = .ok (results, final) ↔
      ∃ drawn, run draw entries state = .ok (drawn, final) ∧ (∀ entry ∈ entries, Guard entry) ∧
        results = List.zipWith build entries drawn := by
  induction entries generalizing state results with
  | nil =>
      constructor
      · intro h
        obtain ⟨rfl, rfl⟩ := Prod.mk.inj (Except.ok.inj h)
        exact ⟨[], rfl, fun _ hmem => (nomatch hmem), rfl⟩
      · rintro ⟨drawn, h, -, rfl⟩
        obtain ⟨rfl, rfl⟩ := Prod.mk.inj (Except.ok.inj h)
        rfl
  | cons entry rest ih =>
      constructor
      · intro h
        obtain ⟨result, next, later, hfirst, hrest, rfl⟩ := run_cons_ok.mp h
        obtain ⟨value, hdraw, hguard, rfl⟩ := (hstep _ _ _ _).mp hfirst
        obtain ⟨values, hdraws, hguards, rfl⟩ := ih.mp hrest
        exact ⟨value :: values, run_cons_ok.mpr ⟨value, next, values, hdraw, hdraws, rfl⟩,
          List.forall_mem_cons.mpr ⟨hguard, hguards⟩, rfl⟩
      · rintro ⟨drawn, hdrawn, hguards, rfl⟩
        obtain ⟨value, next, values, hdraw, hdraws, rfl⟩ := run_cons_ok.mp hdrawn
        obtain ⟨hguard, hguards⟩ := List.forall_mem_cons.mp hguards
        exact run_cons_ok.mpr ⟨_, next, _, (hstep _ _ _ _).mpr ⟨value, hdraw, hguard, rfl⟩,
          ih.mpr ⟨values, hdraws, hguards, rfl⟩, rfl⟩

/-- A step made of two parts on two states: the traversal succeeds when both parts do on their own and every
entry passes. -/
theorem run_parts {step : α → σ₁ × σ₂ → Except ε (β × σ₁ × σ₂)} {left : α → σ₁ → Except ε₁ (β₁ × σ₁)}
    {right : α → σ₂ → Except ε₂ (β₂ × σ₂)} {Guard : α → Prop} {build : α → β₁ → β₂ → β}
    (hstep : ∀ entry state₁ state₂ result next₁ next₂,
      step entry (state₁, state₂) = .ok (result, next₁, next₂) ↔
        ∃ made drawn, left entry state₁ = .ok (made, next₁) ∧ right entry state₂ = .ok (drawn, next₂) ∧
          Guard entry ∧ result = build entry made drawn)
    {entries : List α} {state₁ final₁ : σ₁} {state₂ final₂ : σ₂} {results : List β} :
    run step entries (state₁, state₂) = .ok (results, final₁, final₂) ↔
      ∃ made drawn, run left entries state₁ = .ok (made, final₁) ∧
        run right entries state₂ = .ok (drawn, final₂) ∧ (∀ entry ∈ entries, Guard entry) ∧
        results = List.zipWith (fun entry parts => build entry parts.1 parts.2) entries (made.zip drawn) := by
  induction entries generalizing state₁ state₂ results with
  | nil =>
      constructor
      · intro h
        obtain ⟨rfl, hstates⟩ := Prod.mk.inj (Except.ok.inj h)
        obtain ⟨rfl, rfl⟩ := Prod.mk.inj hstates
        exact ⟨[], [], rfl, rfl, fun _ hmem => (nomatch hmem), rfl⟩
      · rintro ⟨made, drawn, hleft, hright, -, rfl⟩
        obtain ⟨rfl, rfl⟩ := Prod.mk.inj (Except.ok.inj hleft)
        obtain ⟨rfl, rfl⟩ := Prod.mk.inj (Except.ok.inj hright)
        rfl
  | cons entry rest ih =>
      constructor
      · intro h
        obtain ⟨result, ⟨next₁, next₂⟩, later, hfirst, hrest, rfl⟩ := run_cons_ok.mp h
        obtain ⟨first, value, hmake, hdraw, hguard, rfl⟩ := (hstep _ _ _ _ _ _).mp hfirst
        obtain ⟨others, values, hmakes, hdraws, hguards, rfl⟩ := ih.mp hrest
        exact ⟨first :: others, value :: values, run_cons_ok.mpr ⟨first, next₁, others, hmake, hmakes, rfl⟩,
          run_cons_ok.mpr ⟨value, next₂, values, hdraw, hdraws, rfl⟩,
          List.forall_mem_cons.mpr ⟨hguard, hguards⟩, rfl⟩
      · rintro ⟨made, drawn, hmade, hdrawn, hguards, rfl⟩
        obtain ⟨first, next₁, others, hmake, hmakes, rfl⟩ := run_cons_ok.mp hmade
        obtain ⟨value, next₂, values, hdraw, hdraws, rfl⟩ := run_cons_ok.mp hdrawn
        obtain ⟨hguard, hguards⟩ := List.forall_mem_cons.mp hguards
        exact run_cons_ok.mpr ⟨_, (next₁, next₂), _,
          (hstep _ _ _ _ _ _).mpr ⟨first, value, hmake, hdraw, hguard, rfl⟩,
          ih.mpr ⟨others, values, hmakes, hdraws, hguards, rfl⟩, rfl⟩

end Traversal
