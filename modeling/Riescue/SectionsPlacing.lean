import Riescue.SectionsHandle
import Riescue.AddrgenAllocated

/-! What `add_section_handler` reserves in the two address spaces, and what it registers. -/

namespace Riescue.Sections
open Addrgen Paging OrderedDict Fallible

/-- The bytes of a range. -/
def Within (start size b : ℕ) : Prop := start ≤ b ∧ b < start + size

/-- The layouts differ in what is allocated, by the given bytes of the two spaces. -/
structure Reserves (layout layout' : Layout) (linear physical : ℕ → Prop) : Prop where
  same : layout' = { layout with gen := layout'.gen, rng := layout'.rng }
  steps : AddrGen.Steps layout.gen layout'.gen
  linear : ∀ b : ℕ, Allocated layout'.gen.linearAddrSpace b ↔ linear b ∨ Allocated layout.gen.linearAddrSpace b
  physical : ∀ b : ℕ,
    Allocated layout'.gen.physicalAddrSpace b ↔ physical b ∨ Allocated layout.gen.physicalAddrSpace b

theorem Reserves.refl (layout : Layout) : Reserves layout layout (fun _ => False) fun _ => False :=
  ⟨rfl, .refl _, fun _ => (false_or _).to_iff.symm, fun _ => (false_or _).to_iff.symm⟩

theorem Reserves.trans {a b c : Layout} {linear linear' physical physical' : ℕ → Prop}
    (hab : Reserves a b linear physical) (hbc : Reserves b c linear' physical') :
    Reserves a c (fun x => linear' x ∨ linear x) fun x => physical' x ∨ physical x := by
  refine ⟨?_, hab.steps.trans hbc.steps, fun x => ?_, fun x => ?_⟩
  · rw [hbc.same, hab.same]
  · rw [hbc.linear, hab.linear, or_assoc]
  · rw [hbc.physical, hab.physical, or_assoc]

theorem Reserves.congr {layout layout' : Layout} {linear linear' physical physical' : ℕ → Prop}
    (h : Reserves layout layout' linear physical) (hlinear : ∀ b, linear b ↔ linear' b)
    (hphysical : ∀ b, physical b ↔ physical' b) : Reserves layout layout' linear' physical' :=
  ⟨h.same, h.steps, fun b => (h.linear b).trans (or_congr_left (hlinear b)),
    fun b => (h.physical b).trans (or_congr_left (hphysical b))⟩

section Calls
variable {layout layout' : Layout}

theorem reserve_ok {addressType : AddressType} {start size : ℕ} (h : layout.reserve addressType start size = .ok layout') :
    ∃ gen, layout.gen.reserveMemory addressType start size false = (.ok (), gen) ∧ layout' = { layout with gen := gen } := by
  unfold Layout.reserve at h
  obtain ⟨result, gen, hresult⟩ : ∃ result gen, layout.gen.reserveMemory addressType start size false = (result, gen) :=
    ⟨_, _, rfl⟩
  rw [hresult] at h
  cases result with
  | error fault => cases h
  | ok _ => exact ⟨gen, hresult, (Except.ok.inj h).symm⟩

theorem reserve_linear (htraced : AddrGen.Traced layout.gen) {start size : ℕ} (hsize : 0 < size)
    (h : layout.reserve .linear start size = .ok layout') :
    Reserves layout layout' (Within start size) fun _ => False := by
  obtain ⟨gen, hgen, rfl⟩ := reserve_ok h
  have hsteps := AddrGen.reserveMemory_steps layout.gen .linear start size false
  rw [hgen] at hsteps
  obtain ⟨hphysical, hlinear⟩ := AddrGen.reserveMemory_linear htraced hsize hgen
  refine ⟨rfl, hsteps, fun b => (hlinear b (Int.natCast_nonneg b)).trans (or_congr_left ?_), fun b => ?_⟩
  · unfold Within
    omega
  · dsimp only
    rw [hphysical, false_or]

theorem reserve_physical (htraced : AddrGen.Traced layout.gen) {start size : ℕ} (hsize : 0 < size)
    (h : layout.reserve .physical start size = .ok layout') :
    Reserves layout layout' (fun _ => False) (Within start size) := by
  obtain ⟨gen, hgen, rfl⟩ := reserve_ok h
  have hsteps := AddrGen.reserveMemory_steps layout.gen .physical start size false
  rw [hgen] at hsteps
  obtain ⟨hlinear, hphysical⟩ := AddrGen.reserveMemory_physical htraced hsize hgen
  refine ⟨rfl, hsteps, fun b => ?_, fun b => (hphysical b (Int.natCast_nonneg b)).trans (or_congr_left ?_)⟩
  · dsimp only
    rw [hlinear, false_or]
  · unfold Within
    omega

theorem generate_ok {constraint : AddressConstraint} {a : ℕ} (h : layout.generate constraint = .ok (a, layout')) :
    ∃ address gen rng, layout.gen.generateAddress constraint none layout.rng = (.ok address, gen, rng) ∧
      a = address.toNat ∧ layout' = { layout with gen := gen, rng := rng } := by
  unfold Layout.generate at h
  obtain ⟨result, gen, rng, hresult⟩ :
    ∃ result gen rng, layout.gen.generateAddress constraint none layout.rng = (result, gen, rng) := ⟨_, _, _, rfl⟩
  rw [hresult] at h
  cases result with
  | error fault => cases h
  | ok address =>
      obtain ⟨rfl, rfl⟩ := Prod.mk.inj (Except.ok.inj h)
      exact ⟨address, gen, rng, hresult, rfl, rfl⟩

theorem generate_linear (htraced : AddrGen.Traced layout.gen) {constraint : AddressConstraint} {a : ℕ}
    (htype : constraint.type = .linear) (hallocate : constraint.dontAllocate = false)
    (h : layout.generate constraint = .ok (a, layout')) :
    Reserves layout layout' (Within a constraint.size) (fun _ => False) ∧ 0 < constraint.size ∧
      a + constraint.size ≤ 2 ^ constraint.bits ∧
      ∀ b, Within a constraint.size b → ¬Allocated layout.gen.linearAddrSpace b := by
  obtain ⟨address, gen, rng, hgen, rfl, rfl⟩ := generate_ok h
  have hsteps := AddrGen.generateAddress_steps layout.gen constraint none layout.rng
  rw [hgen] at hsteps
  obtain ⟨hsize, hnonneg, htop, hphysical, hfree, hlinear⟩ :=
    AddrGen.generateAddress_linear htraced htype hallocate hgen
  obtain ⟨a, rfl⟩ := Int.eq_ofNat_of_zero_le hnonneg
  refine ⟨⟨rfl, hsteps, fun b => (hlinear b (Int.natCast_nonneg b)).trans (or_congr_left ?_), fun b => ?_⟩, hsize, ?_,
    fun b hb => hfree b ?_ ?_⟩
  · unfold Within
    rw [Int.toNat_natCast]
    omega
  · dsimp only
    rw [hphysical, false_or]
  · have hcast : ((a + constraint.size : ℕ) : ℤ) ≤ ((2 ^ constraint.bits : ℕ) : ℤ) := by
      push_cast
      omega
    exact_mod_cast hcast
  · unfold Within at hb
    omega
  · unfold Within at hb
    omega

theorem generate_physical (htraced : AddrGen.Traced layout.gen) {constraint : AddressConstraint} {a : ℕ}
    (htype : constraint.type = .physical) (hallocate : constraint.dontAllocate = false)
    (hqualifiers : constraint.qualifiers ≠ []) (h : layout.generate constraint = .ok (a, layout')) :
    Reserves layout layout' (fun _ => False) (Within a constraint.size) ∧ 0 < constraint.size := by
  obtain ⟨address, gen, rng, hgen, rfl, rfl⟩ := generate_ok h
  have hsteps := AddrGen.generateAddress_steps layout.gen constraint none layout.rng
  rw [hgen] at hsteps
  obtain ⟨hsize, hnonneg, hlinear, hphysical⟩ :=
    AddrGen.generateAddress_physical htraced htype hallocate hqualifiers hgen
  obtain ⟨a, rfl⟩ := Int.eq_ofNat_of_zero_le hnonneg
  refine ⟨⟨rfl, hsteps, fun b => ?_, fun b => (hphysical b (Int.natCast_nonneg b)).trans (or_congr_left ?_)⟩, hsize⟩
  · dsimp only
    rw [hlinear, false_or]
  · unfold Within
    rw [Int.toNat_natCast]
    omega

end Calls

/-! ### The branches of the address part -/

section Allocate
variable {cfg : SectionConfig} {call : SectionCall} {layout layout' : Layout} {lin phys : ℕ}

/-- Both reservations of a branch with known addresses. -/
theorem reserve_both (htraced : AddrGen.Traced layout.gen) {size start startLin : ℕ} (hsize : 0 < size)
    {middle : Layout} (hphysical : layout.reserve .physical start size = .ok middle)
    (hlinear : middle.reserve .linear startLin size = .ok layout') :
    Reserves layout layout' (Within startLin size) (Within start size) := by
  have hfirst := reserve_physical htraced hsize hphysical
  have hsecond := reserve_linear (htraced.steps hfirst.steps) hsize hlinear
  exact (hfirst.trans hsecond).congr (fun b => (or_false _).to_iff) fun b => (false_or _).to_iff

/-- Both starts are given. -/
theorem allocate_both (htraced : AddrGen.Traced layout.gen) (hsize : 0 < call.size) {start startLin : ℕ}
    (hstart : cfg.startOf call = some start) (hstartLin : cfg.startLinOf call = some startLin)
    (h : allocate cfg call layout = .ok (lin, phys, layout')) :
    lin = startLin ∧ phys = start ∧ Reserves layout layout' (Within startLin call.size) (Within start call.size) := by
  unfold allocate at h
  rw [hstart, hstartLin] at h
  cases hskips : cfg.skips call
  all_goals
    rw [hskips] at h
    obtain ⟨middle, hphysical, h⟩ := bind_ok h
    obtain ⟨last, hlinear, h⟩ := bind_ok h
    obtain ⟨rfl, hrest⟩ := Prod.mk.inj (Except.ok.inj h)
    obtain ⟨rfl, rfl⟩ := Prod.mk.inj hrest
    exact ⟨rfl, rfl, reserve_both htraced hsize hphysical hlinear⟩

/-- Only the physical start is given, and the linear address is to be the same. -/
theorem allocate_start (htraced : AddrGen.Traced layout.gen) (hsize : 0 < call.size) {start : ℕ}
    (hstart : cfg.startOf call = some start) (hstartLin : cfg.startLinOf call = none)
    (hsame : cfg.skips call = true ∨ cfg.identityMaps call = true)
    (h : allocate cfg call layout = .ok (lin, phys, layout')) :
    lin = start ∧ phys = start ∧ Reserves layout layout' (Within start call.size) (Within start call.size) := by
  unfold allocate at h
  rw [hstart, hstartLin] at h
  cases hskips : cfg.skips call with
  | true =>
      rw [hskips] at h
      obtain ⟨middle, hphysical, h⟩ := bind_ok h
      obtain ⟨last, hlinear, h⟩ := bind_ok h
      obtain ⟨rfl, hrest⟩ := Prod.mk.inj (Except.ok.inj h)
      obtain ⟨rfl, rfl⟩ := Prod.mk.inj hrest
      exact ⟨rfl, rfl, reserve_both htraced hsize hphysical hlinear⟩
  | false =>
      have hidentity : cfg.identityMaps call = true := hsame.resolve_left (by rw [hskips]; decide)
      rw [hskips, hidentity] at h
      obtain ⟨middle, hphysical, h⟩ := bind_ok h
      obtain ⟨last, hlinear, h⟩ := bind_ok h
      obtain ⟨rfl, hrest⟩ := Prod.mk.inj (Except.ok.inj h)
      obtain ⟨rfl, rfl⟩ := Prod.mk.inj hrest
      exact ⟨rfl, rfl, reserve_both htraced hsize hphysical hlinear⟩

/-- Only the linear start is given, and there are no page tables. -/
theorem allocate_startLin_skips (htraced : AddrGen.Traced layout.gen) (hsize : 0 < call.size) {startLin : ℕ}
    (hstart : cfg.startOf call = none) (hstartLin : cfg.startLinOf call = some startLin)
    (hskips : cfg.skips call = true) (h : allocate cfg call layout = .ok (lin, phys, layout')) :
    lin = startLin ∧ phys = startLin ∧
      Reserves layout layout' (Within startLin call.size) (Within startLin call.size) := by
  unfold allocate at h
  rw [hstart, hstartLin, hskips] at h
  obtain ⟨middle, hphysical, h⟩ := bind_ok h
  obtain ⟨last, hlinear, h⟩ := bind_ok h
  obtain ⟨rfl, hrest⟩ := Prod.mk.inj (Except.ok.inj h)
  obtain ⟨rfl, rfl⟩ := Prod.mk.inj hrest
  exact ⟨rfl, rfl, reserve_both htraced hsize hphysical hlinear⟩

/-- A physical address for the section. -/
theorem generate_physAddr (htraced : AddrGen.Traced layout.gen) {size : ℕ} {identityMap : Bool}
    (h : layout.generate (cfg.physAddrConstraint size identityMap) = .ok (phys, layout')) :
    Reserves layout layout' (fun _ => False) (Within phys size) ∧ 0 < size :=
  generate_physical htraced rfl rfl (List.cons_ne_nil _ _) h

/-- The physical address and the reservation of the same linear one. -/
theorem generate_identity (htraced : AddrGen.Traced layout.gen) {size : ℕ} {identityMap : Bool} {middle : Layout}
    (hphysical : layout.generate (cfg.physAddrConstraint size identityMap) = .ok (phys, middle))
    (hlinear : middle.reserve .linear phys size = .ok layout') :
    Reserves layout layout' (Within phys size) (Within phys size) ∧ 0 < size := by
  obtain ⟨hfirst, hsize⟩ := generate_physAddr htraced hphysical
  have hsecond := reserve_linear (htraced.steps hfirst.steps) hsize hlinear
  exact ⟨(hfirst.trans hsecond).congr (fun b => (or_false _).to_iff) fun b => (false_or _).to_iff, hsize⟩

/-- Nothing is given, and the linear address is to be the physical one. -/
theorem allocate_free_identity (htraced : AddrGen.Traced layout.gen) (hstart : cfg.startOf call = none)
    (hstartLin : cfg.startLinOf call = none) (hidentity : cfg.identityMaps call = true)
    (h : allocate cfg call layout = .ok (lin, phys, layout')) :
    lin = phys ∧ Reserves layout layout' (Within lin call.size) (Within phys call.size) ∧ 0 < call.size := by
  unfold allocate at h
  rw [hstart, hstartLin, hidentity] at h
  cases hskips : cfg.skips call
  all_goals
    rw [hskips] at h
    obtain ⟨⟨address, middle⟩, hphysical, h⟩ := bind_ok h
    obtain ⟨last, hlinear, h⟩ := bind_ok h
    obtain ⟨rfl, hrest⟩ := Prod.mk.inj (Except.ok.inj h)
    obtain ⟨rfl, rfl⟩ := Prod.mk.inj hrest
    exact ⟨rfl, generate_identity htraced hphysical hlinear⟩

/-- Nothing is given, and there are no page tables: the linear space is left alone without an identity map. -/
theorem allocate_free_skips (htraced : AddrGen.Traced layout.gen) (hstart : cfg.startOf call = none)
    (hstartLin : cfg.startLinOf call = none) (hidentity : cfg.identityMaps call = false)
    (hskips : cfg.skips call = true) (h : allocate cfg call layout = .ok (lin, phys, layout')) :
    lin = phys ∧ layout.generate (cfg.physAddrConstraint call.size false) = .ok (phys, layout') ∧
      Reserves layout layout' (fun _ => False) (Within phys call.size) ∧ 0 < call.size := by
  unfold allocate at h
  rw [hstart, hstartLin, hidentity, hskips] at h
  obtain ⟨⟨address, middle⟩, hphysical, h⟩ := bind_ok h
  obtain ⟨last, hlast, h⟩ := bind_ok h
  obtain rfl := Except.ok.inj hlast
  obtain ⟨rfl, hrest⟩ := Prod.mk.inj (Except.ok.inj h)
  obtain ⟨rfl, rfl⟩ := Prod.mk.inj hrest
  exact ⟨rfl, hphysical, generate_physAddr htraced hphysical⟩

/-- Nothing is given for a section that is page mapped on its own: the two addresses are independent. -/
theorem allocate_free (htraced : AddrGen.Traced layout.gen) (hstart : cfg.startOf call = none)
    (hstartLin : cfg.startLinOf call = none) (hidentity : cfg.identityMaps call = false)
    (hskips : cfg.skips call = false) (h : allocate cfg call layout = .ok (lin, phys, layout')) :
    ∃ middle orig, layout.generate (cfg.physAddrConstraint call.size false) = .ok (phys, middle) ∧
      middle.generate (cfg.linAddrConstraint call.size) = .ok (orig, layout') ∧
      lin = cfg.canonicalizeLinAddr orig ∧
      Reserves layout layout' (Within orig call.size) (Within phys call.size) ∧ 0 < call.size := by
  unfold allocate at h
  rw [hstart, hstartLin, hidentity, hskips] at h
  obtain ⟨⟨address, middle⟩, hphysical, h⟩ := bind_ok h
  obtain ⟨⟨orig, last⟩, hlinear, h⟩ := bind_ok h
  obtain ⟨rfl, hrest⟩ := Prod.mk.inj (Except.ok.inj h)
  obtain ⟨rfl, rfl⟩ := Prod.mk.inj hrest
  obtain ⟨hfirst, hsize⟩ := generate_physAddr htraced hphysical
  obtain ⟨hsecond, _⟩ := generate_linear (htraced.steps hfirst.steps) rfl rfl hlinear
  exact ⟨middle, orig, hphysical, hlinear, rfl,
    (hfirst.trans hsecond).congr (fun b => (or_false _).to_iff) fun b => (false_or _).to_iff, hsize⟩

/-- Only the physical start is given, for a section that is page mapped on its own. -/
theorem allocate_start_free (htraced : AddrGen.Traced layout.gen) (hsize : 0 < call.size) {start : ℕ}
    (hstart : cfg.startOf call = some start) (hstartLin : cfg.startLinOf call = none)
    (hidentity : cfg.identityMaps call = false) (hskips : cfg.skips call = false)
    (h : allocate cfg call layout = .ok (lin, phys, layout')) :
    ∃ middle orig, layout.reserve .physical start call.size = .ok middle ∧
      middle.generate (cfg.linAddrConstraint call.size) = .ok (orig, layout') ∧
      lin = cfg.canonicalizeLinAddr orig ∧ phys = start ∧
      Reserves layout layout' (Within orig call.size) (Within phys call.size) := by
  unfold allocate at h
  rw [hstart, hstartLin, hidentity, hskips] at h
  obtain ⟨middle, hphysical, h⟩ := bind_ok h
  obtain ⟨⟨orig, last⟩, hlinear, h⟩ := bind_ok h
  obtain ⟨rfl, hrest⟩ := Prod.mk.inj (Except.ok.inj h)
  obtain ⟨rfl, rfl⟩ := Prod.mk.inj hrest
  have hfirst := reserve_physical htraced hsize hphysical
  obtain ⟨hsecond, _⟩ := generate_linear (htraced.steps hfirst.steps) rfl rfl hlinear
  exact ⟨middle, orig, hphysical, hlinear, rfl, rfl,
    (hfirst.trans hsecond).congr (fun b => (or_false _).to_iff) fun b => (false_or _).to_iff⟩

/-- Only the linear start is given, for a section that is page mapped on its own. -/
theorem allocate_startLin (htraced : AddrGen.Traced layout.gen) (hsize : 0 < call.size) {startLin : ℕ}
    (hstart : cfg.startOf call = none) (hstartLin : cfg.startLinOf call = some startLin)
    (hidentity : cfg.identityMaps call = false) (hskips : cfg.skips call = false)
    (h : allocate cfg call layout = .ok (lin, phys, layout')) :
    ∃ middle, layout.reserve .linear startLin call.size = .ok middle ∧
      middle.generate (cfg.physAddrConstraint call.size false) = .ok (phys, layout') ∧ lin = startLin ∧
      Reserves layout layout' (Within startLin call.size) (Within phys call.size) := by
  unfold allocate at h
  rw [hstart, hstartLin, hidentity, hskips] at h
  obtain ⟨middle, hlinear, h⟩ := bind_ok h
  obtain ⟨⟨address, last⟩, hphysical, h⟩ := bind_ok h
  obtain ⟨rfl, hrest⟩ := Prod.mk.inj (Except.ok.inj h)
  obtain ⟨rfl, rfl⟩ := Prod.mk.inj hrest
  have hfirst := reserve_linear htraced hsize hlinear
  obtain ⟨hsecond, _⟩ := generate_physAddr (htraced.steps hfirst.steps) hphysical
  exact ⟨middle, hlinear, hphysical, rfl,
    (hfirst.trans hsecond).congr (fun b => (false_or _).to_iff) fun b => (or_false _).to_iff⟩

/-- Only the address generator and its random choices move on. -/
structure Moves (layout layout' : Layout) : Prop where
  same : layout' = { layout with gen := layout'.gen, rng := layout'.rng }
  steps : AddrGen.Steps layout.gen layout'.gen

theorem Moves.trans {a b c : Layout} (hab : Moves a b) (hbc : Moves b c) : Moves a c :=
  ⟨by rw [hbc.same, hab.same], hab.steps.trans hbc.steps⟩

theorem reserve_moves {addressType : AddressType} {start size : ℕ}
    (h : layout.reserve addressType start size = .ok layout') : Moves layout layout' := by
  obtain ⟨gen, hgen, rfl⟩ := reserve_ok h
  have hsteps := AddrGen.reserveMemory_steps layout.gen addressType start size false
  rw [hgen] at hsteps
  exact ⟨rfl, hsteps⟩

theorem generate_moves {constraint : AddressConstraint} {a : ℕ} (h : layout.generate constraint = .ok (a, layout')) :
    Moves layout layout' := by
  obtain ⟨address, gen, rng, hgen, _, rfl⟩ := generate_ok h
  have hsteps := AddrGen.generateAddress_steps layout.gen constraint none layout.rng
  rw [hgen] at hsteps
  exact ⟨rfl, hsteps⟩

/-- A last reservation. -/
theorem reserve_last_moves {middle : Layout} {addressType : AddressType} {start size lin' phys' : ℕ}
    (hmiddle : Moves layout middle)
    (h : (middle.reserve addressType start size >>= fun last => Except.ok (lin', phys', last)) =
      .ok (lin, phys, layout')) : Moves layout layout' := by
  obtain ⟨last, hlast, h⟩ := bind_ok h
  obtain rfl := (Prod.mk.inj (Prod.mk.inj (Except.ok.inj h)).2).2
  exact hmiddle.trans (reserve_moves hlast)

/-- A last generated address. -/
theorem generate_last_moves {middle : Layout} {constraint : AddressConstraint} {result : ℕ → ℕ × ℕ}
    (hmiddle : Moves layout middle)
    (h : (middle.generate constraint >>= fun last => Except.ok ((result last.1).1, (result last.1).2, last.2)) =
      .ok (lin, phys, layout')) : Moves layout layout' := by
  obtain ⟨last, hlast, h⟩ := bind_ok h
  obtain rfl := (Prod.mk.inj (Prod.mk.inj (Except.ok.inj h)).2).2
  exact hmiddle.trans (generate_moves hlast)

/-- Every branch only moves the address generator on. -/
theorem allocate_moves (h : allocate cfg call layout = .ok (lin, phys, layout')) : Moves layout layout' := by
  unfold allocate at h
  dsimp only at h
  split at h
  · obtain ⟨middle, hmiddle, h⟩ := bind_ok h
    exact reserve_last_moves (reserve_moves hmiddle) h
  · obtain ⟨middle, hmiddle, h⟩ := bind_ok h
    exact reserve_last_moves (reserve_moves hmiddle) h
  · obtain ⟨middle, hmiddle, h⟩ := bind_ok h
    exact reserve_last_moves (reserve_moves hmiddle) h
  · obtain ⟨⟨address, middle⟩, hmiddle, h⟩ := bind_ok h
    dsimp only at h
    split_ifs at h
    · exact reserve_last_moves (generate_moves hmiddle) h
    · obtain rfl := (Prod.mk.inj (Prod.mk.inj (Except.ok.inj h)).2).2
      exact generate_moves hmiddle
  · obtain ⟨middle, hmiddle, h⟩ := bind_ok h
    exact reserve_last_moves (reserve_moves hmiddle) h
  · rename_i startAddr _ _ _
    obtain ⟨middle, hmiddle, h⟩ := bind_ok h
    split_ifs at h
    · exact reserve_last_moves (reserve_moves hmiddle) h
    · exact @generate_last_moves layout layout' lin phys middle _
        (fun orig => (cfg.canonicalizeLinAddr orig, startAddr)) (reserve_moves hmiddle) h
  · rename_i startLinAddr _ _ _
    obtain ⟨middle, hmiddle, h⟩ := bind_ok h
    split_ifs at h
    · exact reserve_last_moves (reserve_moves hmiddle) h
    · exact @generate_last_moves layout layout' lin phys middle _ (fun address => (startLinAddr, address))
        (reserve_moves hmiddle) h
  · obtain ⟨⟨address, middle⟩, hmiddle, h⟩ := bind_ok h
    dsimp only at h
    split_ifs at h
    · exact reserve_last_moves (generate_moves hmiddle) h
    · exact @generate_last_moves layout layout' lin phys middle _
        (fun orig => (cfg.canonicalizeLinAddr orig, address)) (generate_moves hmiddle) h

/-- Whatever a call reserves, it keeps everything that was reserved before. -/
theorem Moves.reserves (htraced : AddrGen.Traced layout.gen) (h : Moves layout layout') :
    Reserves layout layout' (fun b => Allocated layout'.gen.linearAddrSpace b)
      fun b => Allocated layout'.gen.physicalAddrSpace b :=
  ⟨h.same, h.steps,
    fun b => ⟨.inl, fun hb => hb.elim id (h.steps.allocated htraced (Int.natCast_nonneg b)).1⟩,
    fun b => ⟨.inl, fun hb => hb.elim id (h.steps.allocated htraced (Int.natCast_nonneg b)).2⟩⟩

end Allocate
end Riescue.Sections
