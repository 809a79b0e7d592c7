import Mathlib.Data.Set.Image

/-! Operations that draw from a generator. Such an operation is described by the set of its outcomes: whatever the state of
the generator, it returns one of them, and it can return any of them with any state after it. With no outcome, it
fails. -/

namespace Choice
variable {σ ε α β : Type}

/-- The operation returns the outcomes of the set, each for some draws and whatever is drawn later. -/
structure Draws (f : σ → Except ε (α × σ)) (outcomes : Set α) : Prop where
  returns : outcomes.Nonempty → ∀ s, ∃ a ∈ outcomes, ∃ s', f s = .ok (a, s')
  fails : outcomes = ∅ → ∀ s, ∃ fault, f s = .error fault
  each : ∀ a ∈ outcomes, ∀ s', ∃ s, f s = .ok (a, s')

variable {f : σ → Except ε (α × σ)} {outcomes : Set α}

theorem Draws.pure (a : α) : Draws (fun s => (.ok (a, s) : Except ε (α × σ))) {a} where
  returns := fun _ s => ⟨a, rfl, s, rfl⟩
  fails := fun h => absurd h (Set.singleton_ne_empty a)
  each := by
    rintro _ rfl s'
    exact ⟨s', rfl⟩

theorem Draws.error (fault : ε) : Draws (fun _ : σ => (.error fault : Except ε (α × σ))) ∅ where
  returns := fun h => absurd h Set.not_nonempty_empty
  fails := fun _ _ => ⟨fault, rfl⟩
  each := fun _ h => absurd h (Set.notMem_empty _)

/-- A computation with what has been drawn. -/
theorem Draws.map (h : Draws f outcomes) (g : α → β) :
    Draws (fun s => f s >>= fun drawn => .ok (g drawn.1, drawn.2)) (g '' outcomes) where
  returns := by
    rintro hnonempty s
    obtain ⟨a, ha, s', hs⟩ := h.returns (Set.image_nonempty.mp hnonempty) s
    exact ⟨g a, Set.mem_image_of_mem g ha, s', by rw [hs]; rfl⟩
  fails := by
    intro hempty s
    obtain ⟨fault, hs⟩ := h.fails (Set.image_eq_empty.mp hempty) s
    exact ⟨fault, by rw [hs]; rfl⟩
  each := by
    rintro _ ⟨a, ha, rfl⟩ s'
    obtain ⟨s, hs⟩ := h.each a ha s'
    exact ⟨s, by rw [hs]; rfl⟩

theorem Draws.mem (h : Draws f outcomes) {s s' : σ} {a : α} (hs : f s = .ok (a, s')) : a ∈ outcomes := by
  rcases outcomes.eq_empty_or_nonempty with hempty | hnonempty
  · obtain ⟨fault, hfault⟩ := h.fails hempty s
    rw [hs] at hfault
    cases hfault
  · obtain ⟨a', ha', s'', hs'⟩ := h.returns hnonempty s
    obtain ⟨rfl, -⟩ := Prod.mk.inj (Except.ok.inj (hs.symm.trans hs'))
    exact ha'

/-! ### Runs -/

section Run
variable {St Req : Type} (step : St → Req → σ → Except ε (St × σ))

/-- One request after the other. -/
def run : List Req → St → σ → Except ε (St × σ)
  | [], st, s => .ok (st, s)
  | request :: rest, st, s => step st request s >>= fun next => run rest next.1 next.2

variable {step} {good : St → Prop} {kept : St → Req → Prop} {next : St → Req → Set St}

theorem run_cons_ok {request : Req} {rest : List Req} {st st' : St} {s s' : σ}
    (h : run step (request :: rest) st s = .ok (st', s')) :
    ∃ st₁ s₁, step st request s = .ok (st₁, s₁) ∧ run step rest st₁ s₁ = .ok (st', s') := by
  rw [run] at h
  cases hstep : step st request s with
  | error fault =>
      rw [hstep] at h
      cases h
  | ok reached =>
      rw [hstep] at h
      exact ⟨reached.1, reached.2, rfl, h⟩

theorem run_cons {request : Req} {rest : List Req} {st st₁ : St} {s s₁ : σ} (hstep : step st request s = .ok (st₁, s₁)) :
    run step (request :: rest) st s = run step rest st₁ s₁ := by
  rw [run, hstep]
  rfl

theorem run_append (requests requests' : List Req) (st : St) (s : σ) :
    run step (requests ++ requests') st s = run step requests st s >>= fun reached => run step requests' reached.1 reached.2 := by
  induction requests generalizing st s with
  | nil => rfl
  | cons request requests ih =>
      rw [List.cons_append, run, run]
      cases step st request s with
      | error fault => rfl
      | ok reached => exact ih reached.1 reached.2

/-- When only good states are left for good ones, a run that ends in a good state started in one. -/
theorem good_of_run (hdraws : ∀ st request, Draws (step st request) (next st request))
    (hback : ∀ st request st', st' ∈ next st request → good st' → good st) {requests : List Req} {st st' : St} {s s' : σ}
    (h : run step requests st s = .ok (st', s')) (hgood : good st') : good st := by
  induction requests generalizing st s with
  | nil =>
      obtain ⟨rfl, -⟩ := Prod.mk.inj (Except.ok.inj h)
      exact hgood
  | cons request requests ih =>
      obtain ⟨st₁, s₁, hstep, hrest⟩ := run_cons_ok h
      exact hback st request st₁ ((hdraws st request).mem hstep) (ih hrest)

/-- Whatever is drawn, the run ends in a good state, exactly when it starts in one and, whatever has been drawn, every
request finds a state from which it only leads to good ones. -/
theorem forall_run_iff [Nonempty σ] (hdraws : ∀ st request, Draws (step st request) (next st request))
    (hback : ∀ st request st', st' ∈ next st request → good st' → good st)
    (hkept : ∀ st request, good st → (kept st request ↔ (next st request).Nonempty ∧ ∀ st' ∈ next st request, good st'))
    {requests : List Req} {st : St} :
    (∀ s, ∃ st' s', run step requests st s = .ok (st', s') ∧ good st') ↔
      good st ∧ ∀ front request back, requests = front ++ request :: back → ∀ s reached s',
        run step front st s = .ok (reached, s') → kept reached request := by
  induction requests generalizing st with
  | nil =>
      constructor
      · intro hall
        obtain ⟨s⟩ := ‹Nonempty σ›
        obtain ⟨st', s', h, hgood⟩ := hall s
        exact ⟨good_of_run hdraws hback h hgood, fun front request back heq => absurd heq (by simp)⟩
      · rintro ⟨hgood, -⟩ s
        exact ⟨st, s, rfl, hgood⟩
  | cons request requests ih =>
      constructor
      · intro hall
        -- the run goes on like this from every state that the first request may lead to
        have hnext : ∀ st' ∈ next st request, ∀ s, ∃ st'' s', run step requests st' s = .ok (st'', s') ∧ good st'' := by
          intro st' hst' s
          obtain ⟨s₀, hstep⟩ := (hdraws st request).each st' hst' s
          obtain ⟨st'', s', hrun, hgood⟩ := hall s₀
          rw [run_cons hstep] at hrun
          exact ⟨st'', s', hrun, hgood⟩
        obtain ⟨s⟩ := ‹Nonempty σ›
        obtain ⟨st', s', hrun, hend⟩ := hall s
        have hgood := good_of_run hdraws hback hrun hend
        obtain ⟨st₁, s₁, hstep, -⟩ := run_cons_ok hrun
        refine ⟨hgood, fun front request' back heq s reached s' hfront => ?_⟩
        cases front with
        | nil =>
            obtain ⟨rfl, -⟩ := List.cons.inj heq
            obtain ⟨rfl, -⟩ := Prod.mk.inj (Except.ok.inj hfront)
            exact (hkept st request hgood).mpr ⟨⟨st₁, (hdraws st request).mem hstep⟩, fun st' hst' => (ih.mp (hnext st' hst')).1⟩
        | cons first front =>
            obtain ⟨rfl, hback⟩ := List.cons.inj heq
            obtain ⟨st₂, s₂, hfirst, hfront⟩ := run_cons_ok hfront
            exact (ih.mp (hnext st₂ ((hdraws st request).mem hfirst))).2 front request' back hback s₂ reached s' hfront
      · rintro ⟨hgood, hall⟩ s
        obtain ⟨hnonempty, hnext⟩ := (hkept st request hgood).mp (hall [] request requests rfl s st s rfl)
        obtain ⟨st₁, hst₁, s₁, hstep⟩ := (hdraws st request).returns hnonempty s
        have hrest := ih.mpr ⟨hnext st₁ hst₁, fun front request' back heq s reached s' hfront => ?_⟩
        · obtain ⟨st', s', hrun, hend⟩ := hrest s₁
          exact ⟨st', s', (run_cons hstep).trans hrun, hend⟩
        · obtain ⟨s₀, hfirst⟩ := (hdraws st request).each st₁ hst₁ s
          exact hall (request :: front) request' back (by rw [heq, List.cons_append])
            s₀ reached s' ((run_cons hfirst).trans hfront)

end Run

end Choice
