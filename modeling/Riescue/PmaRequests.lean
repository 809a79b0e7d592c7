import Riescue.PmaHeapLookup
import Riescue.LibExcept
import Mathlib.Data.List.Find
import Mathlib.Logic.Relation

/-! Whether requested PMA attributes take effect. Every request has a region object with its attributes; handling
the request moves the object to the generated address. The bytes of a request keep their attributes as long as
nothing else with other attributes is looked up first, and as long as the object is not moved away. -/

namespace Riescue.Pma
open PmaInfo Fallible StableSort

namespace PmaHeap

/-- The region holds the `size` bytes from `a`, and nothing of other attributes comes before it there. -/
structure Holds (heap : PmaHeap) (region : ℕ) (a : ℤ) (size : ℕ) : Prop where
  entry : region ∈ heap.entries
  start : (heap.objects region).pmaAddress ≤ a
  stop : a + size ≤ (heap.objects region).getEndAddress
  clear : ClearOf heap.objects heap.entries region

/-- No entry of the heap is empty. -/
def Positive (heap : PmaHeap) : Prop := ∀ entry ∈ heap.entries, 0 < (heap.objects entry).pmaSize

theorem Consolidated.positive {heap heap' : PmaHeap} {kept : List ℕ} (h : Consolidated heap heap' kept)
    (hpositive : heap.Positive) : heap'.Positive :=
  fun entry hentry => (hpositive entry ((h.entries entry).mp hentry)).trans_le (h.grown entry).size

theorem Consolidated.holds {heap heap' : PmaHeap} {kept : List ℕ} (h : Consolidated heap heap' kept)
    (hpositive : heap.Positive) {region : ℕ} {a : ℤ} {size : ℕ} (hholds : heap.Holds region a size) :
    heap'.Holds region a size := by
  have hgrown := h.grown region
  have hstop := hholds.stop
  have hsize := hgrown.size
  refine ⟨(h.entries region).mpr hholds.entry, hgrown.address ▸ hholds.start, ?_,
    h.clear hpositive region hholds.entry hholds.clear⟩
  unfold getEndAddress at hstop ⊢
  rw [hgrown.address]
  omega

/-- Consolidation only fails without entries. -/
theorem consolidatedEntries_exists {heap : PmaHeap} {region : ℕ} (h : region ∈ heap.entries) :
    ∃ kept heap', heap.consolidatedEntries = (.ok kept, heap') := by
  have hmem : region ∈ sortBy (fun entry => (heap.objects entry).pmaAddress) heap.entries := mem_sortBy.mpr h
  unfold consolidatedEntries
  split
  · rename_i hnil
    rw [hnil] at hmem
    cases hmem
  · exact ⟨_, _, rfl⟩

/-- The lookup of a byte that the region holds. -/
theorem Holds.lookup {heap : PmaHeap} {region : ℕ} {a : ℤ} {size : ℕ} (hholds : heap.Holds region a size)
    (hpositive : heap.Positive) {b : ℤ} (hlo : a ≤ b) (hhi : b < a + size) :
    ∃ found heap', heap.findRegionForAddress b = (.ok (some found), heap') ∧
      (heap'.objects found).attrKey = (heap.objects region).attrKey := by
  have hcontains : (heap.objects region).containsAddress b = true := by
    have hstart := hholds.start
    have hstop := hholds.stop
    rw [containsAddress_iff]
    omega
  obtain ⟨kept, heap', hkept⟩ := consolidatedEntries_exists hholds.entry
  obtain ⟨found, hfound, hkey⟩ :=
    (consolidatedEntries_ok hkept).lookup hpositive hholds.entry hholds.clear hcontains
  refine ⟨found, heap', ?_, (?_ : _ = _)⟩
  · rw [findRegionForAddress, hkept]
    exact congrArg (fun result => (Except.ok result, heap')) hfound
  · exact hkey

/-! ### Moving a region -/

/-- The heap with the region somewhere else, among the entries. -/
def place (heap : PmaHeap) (region : ℕ) (size a : ℤ) : PmaHeap :=
  { heap with
    objects := Function.update heap.objects region { heap.objects region with pmaAddress := a, pmaSize := size }
    entries := if region ∈ heap.entries then heap.entries else heap.entries ++ [region] }

section Place
variable {heap : PmaHeap} {region : ℕ} {size a : ℤ}

theorem mem_place {entry : ℕ} : entry ∈ (heap.place region size a).entries ↔ entry = region ∨ entry ∈ heap.entries := by
  unfold place
  dsimp only
  split_ifs with hregion
  · exact ⟨.inr, fun h => h.elim (fun heq => heq ▸ hregion) id⟩
  · rw [List.mem_append, List.mem_singleton, or_comm]

theorem place_self : (heap.place region size a).objects region =
    { heap.objects region with pmaAddress := a, pmaSize := size } := Function.update_self ..

theorem place_of_ne {entry : ℕ} (h : entry ≠ region) :
    (heap.place region size a).objects entry = heap.objects entry := Function.update_of_ne h ..

@[simp] theorem place_attrKey (entry : ℕ) :
    ((heap.place region size a).objects entry).attrKey = (heap.objects entry).attrKey := by
  by_cases h : entry = region
  · rw [h, place_self]
    rfl
  · rw [place_of_ne h]

theorem place_positive (hpositive : heap.Positive) (hsize : 0 < size) : (heap.place region size a).Positive := by
  intro entry hentry
  by_cases h : entry = region
  · rw [h, place_self]
    exact hsize
  · rw [place_of_ne h]
    exact hpositive entry ((mem_place.mp hentry).resolve_left h)

/-- The moved region holds its bytes when nothing of other attributes has its first one. -/
theorem place_holds_self {first : ℤ} {count : ℕ} (hstart : a ≤ first) (hstop : first + count ≤ a + size)
    (hunshadowed : ∀ entry ∈ heap.entries, (heap.objects entry).attrKey ≠ (heap.objects region).attrKey →
      ¬(heap.objects entry).containsAddress a = true) :
    (heap.place region size a).Holds region first count := by
  refine ⟨mem_place.mpr (.inl rfl), ?_, ?_, fun entry hentry hother => ?_⟩
  · rw [place_self]
    exact hstart
  · rw [place_self]
    exact hstop
  · rw [place_attrKey, place_attrKey] at hother
    have hne : entry ≠ region := fun heq => hother (by rw [heq])
    rw [place_self, place_of_ne hne]
    exact hunshadowed entry ((mem_place.mp hentry).resolve_left hne) hother

/-- Another region holds its bytes on, unless the moved region has other attributes and covers its first one. -/
theorem Holds.place {other : ℕ} {first : ℤ} {count : ℕ} (hholds : heap.Holds other first count)
    (hne : other ≠ region) (hclear : (heap.objects other).attrKey ≠ (heap.objects region).attrKey →
      ¬(a ≤ (heap.objects other).pmaAddress ∧ (heap.objects other).pmaAddress < a + size)) :
    (heap.place region size a).Holds other first count := by
  refine ⟨mem_place.mpr (.inr hholds.entry), ?_, ?_, fun entry hentry hother => ?_⟩
  · rw [place_of_ne hne]
    exact hholds.start
  · rw [place_of_ne hne]
    exact hholds.stop
  · rw [place_attrKey, place_attrKey] at hother
    rw [place_of_ne hne]
    by_cases hmoved : entry = region
    · subst hmoved
      rw [place_self, containsAddress_iff]
      exact hclear (Ne.symm hother)
    · rw [place_of_ne hmoved]
      exact hholds.clear entry ((mem_place.mp hentry).resolve_left hmoved) hother

end Place

/-! ### Consolidation beside an object that is not an entry -/

theorem consolidateFrom_update {objects : ℕ → PmaInfo} {last region : ℕ} {entries : List ℕ} {info : PmaInfo}
    (hregion : region ∉ last :: entries) :
    consolidateFrom last entries (Function.update objects region info) =
      ((consolidateFrom last entries objects).1,
        Function.update (consolidateFrom last entries objects).2 region info) := by
  induction entries generalizing last objects with
  | nil => rfl
  | cons entry rest ih =>
      have hlast : last ≠ region := fun heq => hregion (heq ▸ List.mem_cons_self)
      have hrest : region ∉ entry :: rest := fun hmem => hregion (List.mem_cons_of_mem last hmem)
      have hentry : entry ≠ region := fun heq => hrest (heq ▸ List.mem_cons_self)
      have hskip : region ∉ last :: rest := fun hmem =>
        (List.mem_cons.mp hmem).elim hlast.symm fun hmem => hrest (List.mem_cons_of_mem entry hmem)
      rw [consolidateFrom, consolidateFrom, Function.update_of_ne hlast, Function.update_of_ne hentry]
      cases turn (objects last) (objects entry) with
      | append => simp only [ih hrest]
      | skip => exact ih hskip
      | grow size =>
          dsimp only
          rw [Function.update_comm hlast.symm, ih hskip]

/-- The heap with another object under one number. -/
def assign (heap : PmaHeap) (region : ℕ) (info : PmaInfo) : PmaHeap :=
  { heap with objects := Function.update heap.objects region info }

theorem consolidatedEntries_assign {heap : PmaHeap} {region : ℕ} {info : PmaInfo} (hregion : region ∉ heap.entries) :
    (heap.assign region info).consolidatedEntries =
      (heap.consolidatedEntries.1, heap.consolidatedEntries.2.assign region info) := by
  have hsort : sortBy (fun entry => ((heap.assign region info).objects entry).pmaAddress) heap.entries =
      sortBy (fun entry => (heap.objects entry).pmaAddress) heap.entries :=
    sortBy_congr fun entry hentry => by
      have hne : entry ≠ region := fun heq => hregion (heq ▸ hentry)
      change (Function.update heap.objects region info entry).pmaAddress = _
      rw [Function.update_of_ne hne]
  unfold consolidatedEntries
  rw [show (heap.assign region info).entries = heap.entries from rfl, hsort]
  have hmem : region ∉ sortBy (fun entry => (heap.objects entry).pmaAddress) heap.entries :=
    fun hmem => hregion (mem_sortBy.mp hmem)
  generalize sortBy (fun entry => (heap.objects entry).pmaAddress) heap.entries = sorted at hmem
  cases sorted with
  | nil => rfl
  | cons first rest =>
      dsimp only [assign]
      rw [consolidateFrom_update hmem]

/-- What the calls of `consolidated_entries` leave of the heap. -/
def settled (heap : PmaHeap) : PmaHeap := heap.consolidatedEntries.2

theorem settled_outside {heap : PmaHeap} {region : ℕ} (hregion : region ∉ heap.entries) :
    heap.settled.objects region = heap.objects region := by
  have hsame : heap.assign region (heap.objects region) = heap := by
    unfold assign
    rw [Function.update_eq_self]
  have hassign := @consolidatedEntries_assign heap region (heap.objects region) hregion
  rw [hsame] at hassign
  exact (congrArg (fun result => result.2.objects region) hassign).trans (Function.update_self ..)

theorem findRegionForAddress_assign {heap heap' : PmaHeap} {region : ℕ} {info : PmaInfo} {address : ℤ}
    {found : Except PmaFault (Option ℕ)} (hregion : region ∉ heap.entries)
    (h : heap.findRegionForAddress address = (found, heap')) :
    (heap.assign region info).findRegionForAddress address = (found, heap'.assign region info) ∧
      ∀ existing, found = .ok (some existing) → existing ≠ region := by
  unfold findRegionForAddress at h ⊢
  rw [consolidatedEntries_assign hregion]
  obtain ⟨result, heap'', hresult⟩ : ∃ result heap'', heap.consolidatedEntries = (result, heap'') := ⟨_, _, rfl⟩
  rw [hresult] at h ⊢
  obtain rfl : heap'' = heap' := congrArg Prod.snd h
  obtain rfl := congrArg Prod.fst h
  cases result with
  | error fault => exact ⟨rfl, fun existing hexisting => nomatch hexisting⟩
  | ok kept =>
      have hne : ∀ id ∈ kept, id ≠ region :=
        fun id hid heq => hregion (heq ▸ (consolidatedEntries_ok hresult).kept id hid)
      have hsame : (kept.find? fun id => ((heap''.assign region info).objects id).containsAddress address) =
          kept.find? fun id => (heap''.objects id).containsAddress address := by
        refine List.find?_congr fun id hid => ?_
        change (Function.update heap''.objects region info id).containsAddress address = _
        rw [Function.update_of_ne (hne id hid)]
      exact ⟨congrArg (fun found => (Except.ok found, heap''.assign region info)) hsame,
        fun existing hexisting => hne existing (List.mem_of_find?_eq_some (Except.ok.inj hexisting))⟩

/-- The test of "Only add to pool if not already added". -/
def StartsAt (heap : PmaHeap) (address : ℤ) : Prop :=
  ∃ existing heap', heap.findRegionForAddress address = (.ok (some existing), heap') ∧
    (heap'.objects existing).pmaAddress = address

/-- A region that is not among the entries, put where its address is. -/
theorem assign_addEntry {heap : PmaHeap} {region : ℕ} {info : PmaInfo} {size a : ℤ} (hregion : region ∉ heap.entries)
    (hinfo : info = { heap.objects region with pmaAddress := a, pmaSize := size }) :
    (heap.assign region info).addEntry region = heap.place region size a := by
  unfold assign addEntry place
  rw [if_neg hregion, hinfo]

theorem addUnlessFound_place {heap heap' : PmaHeap} {region : ℕ} {size a : ℤ} (hregion : region ∉ heap.entries)
    (hstarts : ¬heap.StartsAt a)
    (h : (heap.assign region { heap.objects region with pmaAddress := a, pmaSize := size }).addUnlessFound region a =
      .ok heap') : heap' = heap.settled.place region size a := by
  obtain ⟨found, looked, hlooked⟩ : ∃ found looked, heap.findRegionForAddress a = (found, looked) := ⟨_, _, rfl⟩
  obtain rfl : heap.settled = looked := congrArg Prod.snd hlooked
  obtain ⟨hassign, hne⟩ := @findRegionForAddress_assign heap heap.settled region
    { heap.objects region with pmaAddress := a, pmaSize := size } a found hregion hlooked
  unfold addUnlessFound at h
  rw [hassign] at h
  cases found with
  | error fault => cases h
  | ok found =>
      obtain ⟨kept, hkept, hfound⟩ := findRegionForAddress_ok hlooked
      have hout : region ∉ heap.settled.entries := fun hmem => hregion ((hkept.entries region).mp hmem)
      have hadded := @assign_addEntry heap.settled region _ size a hout (by rw [settled_outside hregion])
      cases found with
      | none => exact (Except.ok.inj h).symm.trans hadded
      | some existing =>
          have hexisting : (heap.settled.assign region
              { heap.objects region with pmaAddress := a, pmaSize := size }).objects existing =
              heap.settled.objects existing := Function.update_of_ne (hne existing rfl) ..
          have hstart : (heap.settled.objects existing).pmaAddress ≠ a := fun heq => hstarts ⟨existing, _, hlooked, heq⟩
          simp only [hexisting, ne_eq, hstart, not_false_eq_true, if_true] at h
          exact (Except.ok.inj h).symm.trans hadded

theorem place_place {heap : PmaHeap} {region : ℕ} {size size' a a' : ℤ} :
    (heap.place region size a).place region size' a' = heap.place region size' a' := by
  have hmem : region ∈ (heap.place region size a).entries := mem_place.mpr (.inl rfl)
  rw [place, if_pos hmem, place_self]
  unfold place
  rw [Function.update_idem]

/-- The heap after any number of lookups. -/
def Lookups : PmaHeap → PmaHeap → Prop :=
  Relation.ReflTransGen fun heap heap' => ∃ kept, Consolidated heap heap' kept

theorem lookups_settled (heap : PmaHeap) : heap.Lookups heap.settled := by
  obtain ⟨result, heap', hresult⟩ : ∃ result heap', heap.consolidatedEntries = (result, heap') := ⟨_, _, rfl⟩
  obtain rfl : heap.settled = heap' := congrArg Prod.snd hresult
  cases result with
  | ok kept => exact .single ⟨kept, consolidatedEntries_ok hresult⟩
  | error fault =>
      have hsame : heap = heap.settled := by
        unfold consolidatedEntries at hresult
        split at hresult
        · exact congrArg Prod.snd hresult
        · cases congrArg Prod.fst hresult
      rw [← hsame]
      exact .refl

/-- What the lookups leave alone. -/
theorem Lookups.keep {heap heap' : PmaHeap} (h : heap.Lookups heap') :
    heap'.fresh = heap.fresh ∧ (∀ id, id ∈ heap'.entries ↔ id ∈ heap.entries) ∧
      (∀ id, Grown (heap.objects id) (heap'.objects id)) ∧
      (heap.Positive → heap'.Positive ∧
        ∀ region a size, heap.Holds region a size → heap'.Holds region a size) := by
  induction h with
  | refl => exact ⟨rfl, fun id => .rfl, fun id => .refl _, fun hpositive => ⟨hpositive, fun _ _ _ => id⟩⟩
  | tail hfront hlast ih =>
      obtain ⟨kept, hkept⟩ := hlast
      obtain ⟨hfresh, hentries, hgrown, hholds⟩ := ih
      refine ⟨hkept.fresh.trans hfresh, fun id => (hkept.entries id).trans (hentries id),
        fun id => (hgrown id).trans (hkept.grown id), fun hpositive => ?_⟩
      obtain ⟨hmiddle, hmoved⟩ := hholds hpositive
      exact ⟨hkept.positive hmiddle, fun region a size hregion => hkept.holds hmiddle (hmoved region a size hregion)⟩

end PmaHeap
end Riescue.Pma
