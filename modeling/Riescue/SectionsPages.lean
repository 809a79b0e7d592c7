import Riescue.SectionsPlacing

/-! The pages that the handler registers, one call and one loop at a time. -/

namespace Riescue.Sections
open Addrgen Paging OrderedDict Fallible

/-- The name and the physical name are registered; a page that is mapped is in the page maps as well. -/
structure Registered (layout : Layout) (mapped : Bool) (name physName : String) (lin phys : ℕ) : Prop where
  linAddr : get? layout.randomAddrs name = some (if mapped then .linear else .physical, lin)
  physAddr : get? layout.randomAddrs physName = some (.physical, phys)
  page : mapped = true → ∃ page, get? layout.pages name = some page ∧ page.linAddr = lin ∧ page.physAddr = phys

/-- The later layout has everything of the earlier one, and the given bytes of the two spaces. -/
structure Adds (layout layout' : Layout) (linear physical : ℕ → Prop) : Prop where
  steps : AddrGen.Steps layout.gen layout'.gen
  addrs : ∀ name addr, get? layout.randomAddrs name = some addr → get? layout'.randomAddrs name = some addr
  pages : ∀ name addr, get? layout.randomAddrs name = some addr → get? layout'.pages name = get? layout.pages name
  linear : ∀ b : ℕ, Allocated layout'.gen.linearAddrSpace b ↔ linear b ∨ Allocated layout.gen.linearAddrSpace b
  physical : ∀ b : ℕ,
    Allocated layout'.gen.physicalAddrSpace b ↔ physical b ∨ Allocated layout.gen.physicalAddrSpace b

theorem Adds.refl (layout : Layout) : Adds layout layout (fun _ => False) fun _ => False :=
  ⟨.refl _, fun _ _ h => h, fun _ _ _ => rfl, fun _ => (false_or _).to_iff.symm, fun _ => (false_or _).to_iff.symm⟩

/-- What the pages do not depend on is free to change. -/
theorem Adds.same {layout layout' : Layout} (hgen : layout'.gen = layout.gen)
    (haddrs : layout'.randomAddrs = layout.randomAddrs) (hpages : layout'.pages = layout.pages) :
    Adds layout layout' (fun _ => False) fun _ => False := by
  refine ⟨by rw [hgen]; exact .refl _, fun _ _ h => by rw [haddrs]; exact h, fun _ _ _ => by rw [hpages], ?_, ?_⟩
  · exact fun b => by rw [hgen, false_or]
  · exact fun b => by rw [hgen, false_or]

theorem Adds.trans {a b c : Layout} {linear linear' physical physical' : ℕ → Prop}
    (hab : Adds a b linear physical) (hbc : Adds b c linear' physical') :
    Adds a c (fun x => linear' x ∨ linear x) fun x => physical' x ∨ physical x := by
  refine ⟨hab.steps.trans hbc.steps, fun name addr h => hbc.addrs name addr (hab.addrs name addr h),
    fun name addr h => ?_, fun x => ?_, fun x => ?_⟩
  · rw [hbc.pages name addr (hab.addrs name addr h), hab.pages name addr h]
  · rw [hbc.linear, hab.linear, or_assoc]
  · rw [hbc.physical, hab.physical, or_assoc]

theorem Adds.congr {layout layout' : Layout} {linear linear' physical physical' : ℕ → Prop}
    (h : Adds layout layout' linear physical) (hlinear : ∀ b, linear b ↔ linear' b)
    (hphysical : ∀ b, physical b ↔ physical' b) : Adds layout layout' linear' physical' :=
  ⟨h.steps, h.addrs, h.pages, fun b => (h.linear b).trans (or_congr_left (hlinear b)),
    fun b => (h.physical b).trans (or_congr_left (hphysical b))⟩

theorem Adds.registered {layout layout' : Layout} {linear physical : ℕ → Prop} (h : Adds layout layout' linear physical)
    {mapped : Bool} {name physName : String} {lin phys : ℕ} (hregistered : Registered layout mapped name physName lin phys) :
    Registered layout' mapped name physName lin phys := by
  refine ⟨h.addrs _ _ hregistered.linAddr, h.addrs _ _ hregistered.physAddr, fun hmapped => ?_⟩
  rw [h.pages _ _ hregistered.linAddr]
  exact hregistered.page hmapped

section Handler
variable {cfg : SectionConfig} {call : SectionCall} {layout layout' : Layout} {lin phys : ℕ}

theorem addRandomAddr_ok {addrName : String} {addr : AddressType × ℕ}
    (h : layout.addRandomAddr addrName addr = .ok layout') :
    get? layout.randomAddrs addrName = none ∧
      layout' = { layout with randomAddrs := insert layout.randomAddrs addrName addr } := by
  unfold Layout.addRandomAddr at h
  split_ifs at h with hexists
  exact ⟨by simpa using hexists, (Except.ok.inj h).symm⟩

/-- The handler places the section, then registers it under its two names. -/
theorem addSectionHandler_ok (h : addSectionHandler cfg call layout = .ok (lin, phys, layout')) :
    ∃ placed, allocate cfg call layout = .ok (lin, phys, placed) ∧ ∀ linear physical,
      Reserves layout placed linear physical → Adds layout layout' linear physical ∧
        Registered layout' (!cfg.skips call) call.name call.physAddrName lin phys := by
  unfold addSectionHandler at h
  obtain ⟨⟨linAddr, physAddr, placed⟩, hplaced, h⟩ := bind_ok h
  obtain ⟨first, hfirst, h⟩ := bind_ok h
  obtain ⟨second, hsecond, h⟩ := bind_ok h
  obtain ⟨rfl, hrest⟩ := Prod.mk.inj (Except.ok.inj h)
  obtain ⟨rfl, rfl⟩ := Prod.mk.inj hrest
  obtain ⟨hnew, rfl⟩ := addRandomAddr_ok hfirst
  obtain ⟨hnewPhys, rfl⟩ := addRandomAddr_ok hsecond
  refine ⟨placed, hplaced, fun linear physical hreserves => ?_⟩
  have hne : call.name ≠ call.physAddrName := by
    intro heq
    dsimp only at hnewPhys
    rw [← heq, get?_insert_self] at hnewPhys
    cases hnewPhys
  have haddrs : placed.randomAddrs = layout.randomAddrs := by rw [hreserves.same]
  have hpages : placed.pages = layout.pages := by rw [hreserves.same]
  rw [haddrs] at hnew
  dsimp only at hnewPhys
  rw [haddrs, get?_insert_ne _ _ hne.symm] at hnewPhys
  have hold : ∀ name addr, get? layout.randomAddrs name = some addr → name ≠ call.name ∧ name ≠ call.physAddrName := by
    refine fun name addr h => ⟨fun heq => ?_, fun heq => ?_⟩
    · rw [heq, hnew] at h
      cases h
    · rw [heq, hnewPhys] at h
      cases h
  refine ⟨⟨hreserves.steps, fun name addr hname => ?_, fun name addr hname => ?_, hreserves.linear,
    hreserves.physical⟩, ?_, ?_, fun hmapped => ?_⟩
  · dsimp only
    rw [get?_insert_ne _ _ (hold name addr hname).2, get?_insert_ne _ _ (hold name addr hname).1, haddrs]
    exact hname
  · dsimp only
    cases cfg.skips call with
    | true => rw [if_pos rfl, hpages]
    | false => rw [if_neg Bool.false_ne_true, get?_insert_ne _ _ (hold name addr hname).1, hpages]
  · dsimp only
    rw [get?_insert_ne _ _ hne, get?_insert_self]
    cases cfg.skips call <;> rfl
  · exact get?_insert_self ..
  · rw [Bool.not_eq_true'] at hmapped
    dsimp only
    rw [hmapped, if_neg Bool.false_ne_true, get?_insert_self]
    exact ⟨_, rfl, rfl, rfl⟩

/-- A call puts its page at the given addresses and reserves it in both spaces. -/
def PutsPage (cfg : SectionConfig) (call : SectionCall) (lin phys : ℕ) : Prop :=
  ∀ layout layout' lin' phys', AddrGen.Traced layout.gen → addSectionHandler cfg call layout = .ok (lin', phys', layout') →
    lin' = lin ∧ phys' = phys ∧ Adds layout layout' (Within lin call.size) (Within phys call.size) ∧
      Registered layout' (!cfg.skips call) call.name call.physAddrName lin phys

theorem putsPage_both (hsize : 0 < call.size) (hstart : cfg.startOf call = some phys)
    (hstartLin : cfg.startLinOf call = some lin) : PutsPage cfg call lin phys := by
  intro layout layout' lin' phys' htraced h
  obtain ⟨placed, hplaced, hadds⟩ := addSectionHandler_ok h
  obtain ⟨rfl, rfl, hreserves⟩ := allocate_both htraced hsize hstart hstartLin hplaced
  exact ⟨rfl, rfl, hadds _ _ hreserves⟩

theorem putsPage_start (hsize : 0 < call.size) (hstart : cfg.startOf call = some phys)
    (hstartLin : cfg.startLinOf call = none) (hsame : cfg.skips call = true ∨ cfg.identityMaps call = true)
    (hlin : lin = phys) : PutsPage cfg call lin phys := by
  intro layout layout' lin' phys' htraced h
  subst hlin
  obtain ⟨placed, hplaced, hadds⟩ := addSectionHandler_ok h
  obtain ⟨rfl, rfl, hreserves⟩ := allocate_start htraced hsize hstart hstartLin hsame hplaced
  exact ⟨rfl, rfl, hadds _ _ hreserves⟩

/-- A page at both addresses, which are the same without paging. -/
theorem putsPage_given (hsize : 0 < call.size) (hstart : call.startAddr = some phys)
    (hstartLin : call.startLinAddr = some lin) (hmap : call.identityMap = false)
    (hsame : cfg.pagingMode = .disable → lin = phys) : PutsPage cfg call lin phys := by
  by_cases hpaging : cfg.pagingMode = .disable
  · have hidentity : cfg.identityMaps call = true := by simp [SectionConfig.identityMaps, hpaging]
    refine putsPage_start hsize ?_ ?_ (.inr hidentity) (hsame hpaging)
    · rw [SectionConfig.startOf, if_pos hidentity, hstart]
      rfl
    · rw [SectionConfig.startLinOf, if_pos hidentity]
  · have hidentity : cfg.identityMaps call = false := by simp [SectionConfig.identityMaps, hpaging, hmap]
    refine putsPage_both hsize ?_ ?_
    · rw [SectionConfig.startOf, hidentity, hstart]
      rfl
    · rw [SectionConfig.startLinOf, hidentity, hstartLin]
      rfl

/-- A page whose only given address is to be both of its addresses. -/
theorem putsPage_single {start : ℕ} (hsize : 0 < call.size) (hstart : call.startAddr = some start)
    (hstartLin : call.startLinAddr = none) (hsame : cfg.skips call = true ∨ cfg.identityMaps call = true) :
    PutsPage cfg call start start := by
  refine putsPage_start hsize ?_ ?_ hsame rfl
  · unfold SectionConfig.startOf
    rw [hstart]
    split_ifs <;> rfl
  · unfold SectionConfig.startLinOf
    rw [hstartLin, ite_self]

end Handler

/-! ### The loops -/

/-- A loop over calls that put their pages adds a contiguous range of pages. -/
theorem addPages_spec {cfg : SectionConfig} {fromReturned : Bool} {call : ℕ → ℕ → ℕ → SectionCall}
    {count i lin phys lin' phys' : ℕ} {layout layout' : Layout} (htraced : AddrGen.Traced layout.gen)
    (hsize : ∀ i lin phys, (call i lin phys).size = 0x1000)
    (hputs : ∀ k, PutsPage cfg (call (i + k) (lin + 0x1000 * k) (phys + 0x1000 * k)) (lin + 0x1000 * k)
      (phys + 0x1000 * k))
    (h : addPages cfg fromReturned call count i lin phys layout = .ok (lin', phys', layout')) :
    lin' = lin + 0x1000 * count ∧ phys' = phys + 0x1000 * count ∧
      Adds layout layout' (Within lin (0x1000 * count)) (Within phys (0x1000 * count)) ∧
      ∀ k < count, Registered layout' (!cfg.skips (call (i + k) (lin + 0x1000 * k) (phys + 0x1000 * k)))
        (call (i + k) (lin + 0x1000 * k) (phys + 0x1000 * k)).name
        (call (i + k) (lin + 0x1000 * k) (phys + 0x1000 * k)).physAddrName (lin + 0x1000 * k) (phys + 0x1000 * k) := by
  induction count generalizing i lin phys layout with
  | zero =>
      obtain ⟨rfl, hrest⟩ := Prod.mk.inj (Except.ok.inj h)
      obtain ⟨rfl, rfl⟩ := Prod.mk.inj hrest
      have hnone : ∀ start b, False ↔ Within start (0x1000 * 0) b := fun start b =>
        iff_of_false id fun h => by
          unfold Within at h
          omega
      exact ⟨rfl, rfl, (Adds.refl layout).congr (hnone _) (hnone _), fun k hk => absurd hk (Nat.not_lt_zero k)⟩
  | succ count ih =>
      rw [addPages] at h
      obtain ⟨⟨lin₁, phys₁, middle⟩, hfirst, h⟩ := bind_ok h
      obtain ⟨hlin, hphys, hadds, hregistered⟩ := hputs 0 layout middle lin₁ phys₁ htraced hfirst
      simp only [Nat.mul_zero, Nat.add_zero] at hlin hphys hadds hregistered
      rw [hsize] at hadds
      have hnext : addPages cfg fromReturned call count (i + 1) (lin + 0x1000) (phys + 0x1000) middle =
          .ok (lin', phys', layout') := by
        dsimp only at h
        rwa [hlin, hphys, ite_self] at h
      have hshift : ∀ k, i + 1 + k = i + (k + 1) ∧ lin + 0x1000 + 0x1000 * k = lin + 0x1000 * (k + 1) ∧
          phys + 0x1000 + 0x1000 * k = phys + 0x1000 * (k + 1) := by
        intro k
        omega
      obtain ⟨rfl, rfl, hrest, hpages⟩ := ih (htraced.steps hadds.steps) (fun k => by
        obtain ⟨hi, hlin, hphys⟩ := hshift k
        rw [hi, hlin, hphys]
        exact hputs (k + 1)) hnext
      have hwithin : ∀ start b, (Within (start + 0x1000) (0x1000 * count) b ∨ Within start 0x1000 b) ↔
          Within start (0x1000 * (count + 1)) b := by
        intro start b
        unfold Within
        omega
      refine ⟨by omega, by omega, (hadds.trans hrest).congr (hwithin lin) (hwithin phys), fun k hk => ?_⟩
      cases k with
      | zero => exact hrest.registered hregistered
      | succ k =>
          have hpage := hpages k (by omega)
          obtain ⟨hi, hlin, hphys⟩ := hshift k
          rwa [hi, hlin, hphys] at hpage

end Riescue.Sections
