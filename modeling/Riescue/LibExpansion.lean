import Riescue.LibExcept
import Mathlib.Data.Nat.Notation

/-! Recursive expansion: every item of a list is kept or replaced by items that are expanded in turn, left to right,
while a state is threaded through. The depth of the recursion is a parameter; a rank that every replacement lowers
bounds it. -/

namespace Expansion
open Fallible
variable {α σ ε : Type}

/-- What one step makes of an item. -/
inductive Outcome (α : Type) where
  | keep (item : α)
  | replace (items : List α)

def Outcome.items : Outcome α → List α
  | keep item => [item]
  | replace items => items

/-- An expansion stops with a fault of its own, or when the depth does not suffice. -/
inductive Stop (ε : Type) where
  | depth
  | fault (fault : ε)

/-- A kept item stands for itself. -/
def Outcome.resolve (recurse : List α → σ → Except (Stop ε) (List α × σ)) (state : σ) :
    Outcome α → Except (Stop ε) (List α × σ)
  | keep item => .ok ([item], state)
  | replace items => recurse items state

/-- Expand the items of a list, the replacements with `recurse`. -/
def expandList (step : α → σ → Except ε (Outcome α × σ)) (recurse : List α → σ → Except (Stop ε) (List α × σ)) :
    List α → σ → Except (Stop ε) (List α × σ)
  | [], state => .ok ([], state)
  | item :: rest, state => do
      let (outcome, state) ← (step item state).mapError Stop.fault
      let (expanded, state) ← outcome.resolve recurse state
      let (others, state) ← expandList step recurse rest state
      pure (expanded ++ others, state)

/-- The expansion to a depth. -/
def expand (step : α → σ → Except ε (Outcome α × σ)) : ℕ → List α → σ → Except (Stop ε) (List α × σ)
  | 0 => fun _ _ => .error .depth
  | depth + 1 => expandList step (expand step depth)

variable {step : α → σ → Except ε (Outcome α × σ)}

section Run
variable {R : List α → List α → Prop} {Inv : σ → Prop}

/-- A relation that holds for each step, and for lists whenever it holds for their parts, holds for a whole run. -/
theorem expandList_run {recurse : List α → σ → Except (Stop ε) (List α × σ)}
    (hnil : R [] []) (happend : ∀ {left left' right right'}, R left left' → R right right' →
      R (left ++ right) (left' ++ right'))
    (hkeep : ∀ {item kept state state'}, Inv state → step item state = .ok (.keep kept, state') →
      Inv state' ∧ R [item] [kept])
    (hreplace : ∀ {item items state state'}, Inv state → step item state = .ok (.replace items, state') →
      Inv state' ∧ ∀ {out}, R items out → R [item] out)
    (hrecurse : ∀ {items out state state'}, Inv state → recurse items state = .ok (out, state') →
      Inv state' ∧ R items out)
    {items out : List α} {state state' : σ} (hinv : Inv state)
    (h : expandList step recurse items state = .ok (out, state')) : Inv state' ∧ R items out := by
  induction items generalizing out state with
  | nil =>
      obtain ⟨rfl, rfl⟩ := Prod.mk.inj (Except.ok.inj h)
      exact ⟨hinv, hnil⟩
  | cons item rest ih =>
      obtain ⟨⟨outcome, mid⟩, hstep, h⟩ := bind_ok h
      have hstep := mapError_ok hstep
      obtain ⟨⟨expanded, mid'⟩, hexpanded, h⟩ := bind_ok h
      obtain ⟨⟨others, last⟩, hothers, h⟩ := bind_ok h
      obtain ⟨rfl, rfl⟩ := Prod.mk.inj (Except.ok.inj h)
      have hfirst : Inv mid' ∧ R [item] expanded := by
        cases outcome with
        | keep kept =>
            obtain ⟨rfl, rfl⟩ := Prod.mk.inj (Except.ok.inj hexpanded)
            exact hkeep hinv hstep
        | replace items =>
            obtain ⟨hmid, hback⟩ := hreplace hinv hstep
            obtain ⟨hmid', hitems⟩ := hrecurse hmid hexpanded
            exact ⟨hmid', hback hitems⟩
      obtain ⟨hlast, hrest⟩ := ih hfirst.1 hothers
      exact ⟨hlast, happend hfirst.2 hrest⟩

theorem expand_run (hnil : R [] []) (happend : ∀ {left left' right right'}, R left left' → R right right' →
      R (left ++ right) (left' ++ right'))
    (hkeep : ∀ {item kept state state'}, Inv state → step item state = .ok (.keep kept, state') →
      Inv state' ∧ R [item] [kept])
    (hreplace : ∀ {item items state state'}, Inv state → step item state = .ok (.replace items, state') →
      Inv state' ∧ ∀ {out}, R items out → R [item] out)
    {depth : ℕ} {items out : List α} {state state' : σ} (hinv : Inv state)
    (h : expand step depth items state = .ok (out, state')) : Inv state' ∧ R items out := by
  induction depth generalizing items out state state' with
  | zero => cases h
  | succ depth ih => exact expandList_run hnil happend hkeep hreplace ih hinv h

end Run

section Total
variable {Good : α → Prop} {Inv : σ → Prop} {rank : α → ℕ}

/-- Good items of a lower rank than the depth are expanded without a stop. -/
theorem expand_total
    (hstep : ∀ {item state}, Good item → Inv state → ∃ outcome state', step item state = .ok (outcome, state') ∧
      Inv state' ∧ ∀ items, outcome = .replace items →
        0 < rank item ∧ ∀ inner ∈ items, Good inner ∧ rank inner < rank item)
    {depth : ℕ} {items : List α} {state : σ} (hgood : ∀ item ∈ items, Good item)
    (hrank : ∀ item ∈ items, rank item < depth) (hdepth : 0 < depth) (hinv : Inv state) :
    ∃ out state', expand step depth items state = .ok (out, state') ∧ Inv state' := by
  induction depth generalizing items state with
  | zero => exact absurd hdepth (Nat.lt_irrefl 0)
  | succ depth ih =>
      induction items generalizing state with
      | nil => exact ⟨[], state, rfl, hinv⟩
      | cons item rest ihrest =>
          obtain ⟨hitem, hothers⟩ := List.forall_mem_cons.mp hgood
          obtain ⟨hlt, hlts⟩ := List.forall_mem_cons.mp hrank
          obtain ⟨outcome, mid, hok, hmid, hlower⟩ := hstep hitem hinv
          obtain ⟨expanded, mid', hexpanded, hmid'⟩ : ∃ expanded mid',
              outcome.resolve (expand step depth) mid = .ok (expanded, mid') ∧ Inv mid' := by
            cases outcome with
            | keep kept => exact ⟨[kept], mid, rfl, hmid⟩
            | replace items =>
                obtain ⟨hpos, hinner⟩ := hlower items rfl
                refine ih (fun inner hmem => (hinner inner hmem).1) (fun inner hmem => ?_) (by omega) hmid
                have hlower := (hinner inner hmem).2
                omega
          obtain ⟨others, last, hrun, hlast⟩ := ihrest hothers hlts hmid'
          refine ⟨expanded ++ others, last, ?_, hlast⟩
          rw [expand] at hrun ⊢
          rw [expandList, hok]
          dsimp only [Except.mapError, bind, Except.bind]
          rw [hexpanded]
          dsimp only
          rw [hrun]
          rfl

end Total

section Depth
variable {recurse recurse' : List α → σ → Except (Stop ε) (List α × σ)}

theorem expandList_mono (hrecurse : ∀ {items state result}, recurse items state = .ok result →
      recurse' items state = .ok result) {items : List α} {state : σ} {result : List α × σ}
    (h : expandList step recurse items state = .ok result) : expandList step recurse' items state = .ok result := by
  induction items generalizing state result with
  | nil => exact h
  | cons item rest ih =>
      obtain ⟨⟨outcome, mid⟩, hstep, h⟩ := bind_ok h
      obtain ⟨⟨expanded, mid'⟩, hexpanded, h⟩ := bind_ok h
      obtain ⟨⟨others, last⟩, hothers, h⟩ := bind_ok h
      have hexpanded' : outcome.resolve recurse' mid = .ok (expanded, mid') := by
        cases outcome with
        | keep kept => exact hexpanded
        | replace items => exact hrecurse hexpanded
      rw [expandList, hstep]
      dsimp only [bind, Except.bind]
      rw [hexpanded']
      dsimp only
      rw [ih hothers]
      exact h

/-- A greater depth gives the same result. -/
theorem expand_mono {depth depth' : ℕ} (hle : depth ≤ depth') {items : List α} {state : σ} {result : List α × σ}
    (h : expand step depth items state = .ok result) : expand step depth' items state = .ok result := by
  induction depth generalizing depth' items state result with
  | zero => cases h
  | succ depth ih =>
      obtain ⟨depth', rfl⟩ := Nat.exists_eq_add_of_le hle
      rw [Nat.add_right_comm]
      exact expandList_mono (fun hinner => ih (Nat.le_add_right ..) hinner) h

end Depth

end Expansion
