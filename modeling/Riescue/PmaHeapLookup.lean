import Riescue.PmaPool

/-! Consolidation over shared objects. It changes sizes only, and an object only grows by regions of its own
attributes, so the lookups of the bytes that a region holds unchallenged stay the same. -/

namespace Riescue.Pma
open StableSort PmaInfo

theorem attribMatches_iff_attrKey {info other : PmaInfo} :
    info.attribMatches other = true ↔ info.attrKey = other.attrKey := by
  rw [attribMatches_iff]
  simp only [attrKey, AttrKey.mk.injEq]
  tauto

@[simp] theorem attrKey_resize (info : PmaInfo) (size : ℤ) : (info.resize size).attrKey = info.attrKey := rfl

/-- An object that may have grown at its end. -/
structure Grown (info grown : PmaInfo) : Prop where
  address : grown.pmaAddress = info.pmaAddress
  attributes : grown.attrKey = info.attrKey
  size : info.pmaSize ≤ grown.pmaSize

theorem Grown.refl (info : PmaInfo) : Grown info info := ⟨rfl, rfl, le_rfl⟩

theorem Grown.trans {a b c : PmaInfo} (hab : Grown a b) (hbc : Grown b c) : Grown a c :=
  ⟨hbc.address.trans hab.address, hbc.attributes.trans hab.attributes, hab.size.trans hbc.size⟩

theorem Grown.contains {info grown : PmaInfo} (h : Grown info grown) {b : ℤ}
    (hb : info.containsAddress b = true) : grown.containsAddress b = true := by
  have hsize := h.size
  rw [containsAddress_iff, getEndAddress] at hb ⊢
  rw [h.address]
  omega

theorem Grown.resize {info : PmaInfo} {size : ℤ} (h : info.pmaSize ≤ size) : Grown info (info.resize size) :=
  ⟨rfl, rfl, h⟩

namespace PmaHeap

/-- The entries in the order of their addresses. -/
abbrev InOrder (objects : ℕ → PmaInfo) (entries : List ℕ) : Prop :=
  entries.Pairwise fun left right => (objects left).pmaAddress ≤ (objects right).pmaAddress

theorem InOrder.of_same {objects objects' : ℕ → PmaInfo} {entries : List ℕ}
    (h : InOrder objects entries) (hsame : ∀ id, (objects' id).pmaAddress = (objects id).pmaAddress) :
    InOrder objects' entries := by
  refine List.Pairwise.imp (fun {left right} hle => ?_) h
  rw [hsame, hsame]
  exact hle

/-- The new objects when the last region grows. -/
theorem grown_update {objects : ℕ → PmaInfo} {last : ℕ} {size : ℤ} (h : (objects last).pmaSize ≤ size) (id : ℕ) :
    Grown (objects id) (Function.update objects last ((objects last).resize size) id) := by
  by_cases hid : id = last
  · subst hid
    rw [Function.update_self]
    exact .resize h
  · rw [Function.update_of_ne hid]
    exact .refl _

/-- What one turn means for the attributes and the bytes of the last region. -/
theorem turn_cases {last entry : PmaInfo} (hle : last.pmaAddress ≤ entry.pmaAddress) :
    turn last entry = .append ∨
      (last.attrKey = entry.attrKey ∧ turn last entry = .skip ∧ entry.getEndAddress ≤ last.getEndAddress) ∨
      ∃ size, last.attrKey = entry.attrKey ∧ turn last entry = .grow size ∧ last.pmaSize ≤ size ∧
        last.pmaAddress + size = entry.getEndAddress := by
  rcases turn_spec hle with ⟨happend, _⟩ | ⟨hskip, hmatch, _, hend⟩ | ⟨size, hgrow, hmatch, hlt, hend, _⟩
  · exact .inl happend
  · exact .inr (.inl ⟨attribMatches_iff_attrKey.mp hmatch, hskip, hend⟩)
  · refine .inr (.inr ⟨size, attribMatches_iff_attrKey.mp hmatch, hgrow, ?_, hend⟩)
    unfold getEndAddress at hlt hend
    omega

section Loop
variable {objects : ℕ → PmaInfo} {last : ℕ} {entries : List ℕ}

theorem consolidateFrom_grown (h : InOrder objects (last :: entries)) (id : ℕ) :
    Grown (objects id) ((consolidateFrom last entries objects).2 id) := by
  induction entries generalizing last objects with
  | nil => exact .refl _
  | cons entry rest ih =>
      obtain ⟨hlast, hrest⟩ := List.pairwise_cons.mp h
      have hskip : InOrder objects (last :: rest) :=
        List.pairwise_cons.mpr ⟨fun other hother => hlast other (List.mem_cons_of_mem entry hother), hrest.of_cons⟩
      rw [consolidateFrom]
      rcases turn_cases (hlast entry List.mem_cons_self) with hturn | ⟨_, hturn, _⟩ | ⟨size, _, hturn, hsize, _⟩
      · rw [hturn]
        exact ih hrest
      · rw [hturn]
        exact ih hskip
      · rw [hturn]
        have hgrown := grown_update hsize
        exact (hgrown id).trans (ih (hskip.of_same fun other => (hgrown other).address))

/-- Objects outside the list stay as they are. -/
theorem consolidateFrom_outside {id : ℕ} (hid : id ∉ last :: entries) :
    (consolidateFrom last entries objects).2 id = objects id := by
  induction entries generalizing last objects with
  | nil => rfl
  | cons entry rest ih =>
      have hne : id ≠ last := fun heq => hid (heq ▸ List.mem_cons_self)
      have hrest : id ∉ entry :: rest := fun hmem => hid (List.mem_cons_of_mem last hmem)
      have hskip : id ∉ last :: rest := fun hmem =>
        (List.mem_cons.mp hmem).elim hne fun hmem => hrest (List.mem_cons_of_mem entry hmem)
      rw [consolidateFrom]
      split
      · exact ih hrest
      · exact ih hskip
      · rw [ih hskip, Function.update_of_ne hne]

theorem consolidateFrom_sublist : (consolidateFrom last entries objects).1.Sublist (last :: entries) := by
  induction entries generalizing last objects with
  | nil => exact .refl _
  | cons entry rest ih =>
      rw [consolidateFrom]
      split
      · exact ih.cons_cons last
      · exact ih.trans ((List.sublist_cons_self entry rest).cons_cons last)
      · exact ih.trans ((List.sublist_cons_self entry rest).cons_cons last)

/-- The bytes of every entry are in a returned region of the same attributes that starts no later. -/
theorem consolidateFrom_covers (h : InOrder objects (last :: entries)) {id : ℕ} (hid : id ∈ last :: entries) {b : ℤ}
    (hb : (objects id).containsAddress b = true) :
    ∃ region ∈ (consolidateFrom last entries objects).1,
      (objects region).attrKey = (objects id).attrKey ∧
      (objects region).pmaAddress ≤ (objects id).pmaAddress ∧
      ((consolidateFrom last entries objects).2 region).containsAddress b = true := by
  induction entries generalizing id last objects with
  | nil =>
      obtain rfl := List.mem_singleton.mp hid
      exact ⟨id, List.mem_singleton_self id, rfl, le_rfl, hb⟩
  | cons entry rest ih =>
      obtain ⟨hlast, hrest⟩ := List.pairwise_cons.mp h
      have hle := hlast entry List.mem_cons_self
      have hskip : InOrder objects (last :: rest) :=
        List.pairwise_cons.mpr ⟨fun other hother => hlast other (List.mem_cons_of_mem entry hother), hrest.of_cons⟩
      have hgrownAll := consolidateFrom_grown h
      rw [consolidateFrom] at hgrownAll ⊢
      rcases turn_cases hle with hturn | ⟨hsame, hturn, hend⟩ | ⟨size, hsame, hturn, hsize, hend⟩
      · simp only [hturn] at hgrownAll ⊢
        rcases List.mem_cons.mp hid with rfl | hid
        · exact ⟨id, List.mem_cons_self, rfl, le_rfl, (hgrownAll id).contains hb⟩
        · obtain ⟨region, hregion, hkey, haddress, hcontains⟩ := ih hrest hid hb
          exact ⟨region, List.mem_cons_of_mem last hregion, hkey, haddress, hcontains⟩
      · simp only [hturn]
        by_cases hentry : id = entry
        · subst hentry
          have hin : (objects last).containsAddress b = true := by
            rw [containsAddress_iff] at hb ⊢
            omega
          obtain ⟨region, hregion, hkey, haddress, hcontains⟩ := ih hskip List.mem_cons_self hin
          exact ⟨region, hregion, hkey.trans hsame, haddress.trans hle, hcontains⟩
        · have hid : id ∈ last :: rest := by
            simp only [List.mem_cons] at hid ⊢
            tauto
          exact ih hskip hid hb
      · simp only [hturn]
        have hgrown := grown_update hsize
        have horder := hskip.of_same fun other => (hgrown other).address
        by_cases hentry : id = entry
        · subst hentry
          have hin : (Function.update objects last ((objects last).resize size) last).containsAddress b = true := by
            rw [Function.update_self, containsAddress_iff]
            rw [containsAddress_iff] at hb
            change (objects last).pmaAddress ≤ b ∧ b < (objects last).pmaAddress + size
            omega
          obtain ⟨region, hregion, hkey, haddress, hcontains⟩ := ih horder List.mem_cons_self hin
          rw [(hgrown region).attributes, (hgrown last).attributes] at hkey
          rw [(hgrown region).address, (hgrown last).address] at haddress
          exact ⟨region, hregion, hkey.trans hsame, haddress.trans hle, hcontains⟩
        · have hid : id ∈ last :: rest := by
            simp only [List.mem_cons] at hid ⊢
            tauto
          obtain ⟨region, hregion, hkey, haddress, hcontains⟩ := ih horder hid ((hgrown id).contains hb)
          rw [(hgrown region).attributes, (hgrown id).attributes] at hkey
          rw [(hgrown region).address, (hgrown id).address] at haddress
          exact ⟨region, hregion, hkey, haddress, hcontains⟩

/-- No entry of other attributes holds the address at which the region starts. -/
def ClearOf (objects : ℕ → PmaInfo) (entries : List ℕ) (region : ℕ) : Prop :=
  ∀ entry ∈ entries, (objects entry).attrKey ≠ (objects region).attrKey →
    ¬(objects entry).containsAddress (objects region).pmaAddress = true

/-- The loop has still to reach the region, or it has passed it: then everything ahead lies behind it, and so does
the last region, unless it has the attributes of the region. -/
def AheadOrPassed (objects : ℕ → PmaInfo) (last : ℕ) (entries : List ℕ) (region : ℕ) : Prop :=
  region ∈ entries ∨
    (∀ entry ∈ entries, (objects region).pmaAddress ≤ (objects entry).pmaAddress) ∧
      ((objects region).attrKey = (objects last).attrKey ∨ (objects region).pmaAddress ≤ (objects last).pmaAddress)

/-- Growing a region of other attributes over the start of the region would have to pass the region itself. -/
theorem clear_grow {entry region : ℕ} {rest : List ℕ} {size : ℤ} (h : InOrder objects (last :: entry :: rest))
    (hpositive : 0 < (objects last).pmaSize) (hsame : (objects last).attrKey = (objects entry).attrKey)
    (hend : (objects last).pmaAddress + size = (objects entry).getEndAddress)
    (hclear : ClearOf objects (last :: entry :: rest) region)
    (hregion : AheadOrPassed objects last (entry :: rest) region)
    (hother : (objects last).attrKey ≠ (objects region).attrKey) :
    ¬((objects last).resize size).containsAddress (objects region).pmaAddress = true := by
  intro hcontains
  obtain ⟨hlast, hrest⟩ := List.pairwise_cons.mp h
  have hold := hclear last List.mem_cons_self hother
  have hentry := hclear entry (List.mem_cons_of_mem last List.mem_cons_self) (hsame ▸ hother)
  rw [containsAddress_iff] at hold hentry hcontains
  change (objects last).pmaAddress ≤ _ ∧ _ < (objects last).pmaAddress + size at hcontains
  unfold getEndAddress at hold hentry hend
  have hbehind : (objects last).pmaAddress < (objects region).pmaAddress := by omega
  rcases hregion with hmem | ⟨_, heq | hle⟩
  · rcases List.mem_cons.mp hmem with rfl | hmem
    · exact hother hsame
    · have hafter := (List.pairwise_cons.mp hrest).1 region hmem
      omega
  · exact hother heq.symm
  · omega

theorem consolidateFrom_clear {region : ℕ} {all : List ℕ} (hall : ∀ id ∈ last :: entries, id ∈ all)
    (h : InOrder objects (last :: entries)) (hpositive : ∀ entry ∈ all, 0 < (objects entry).pmaSize)
    (hclear : ClearOf objects all region) (hregion : AheadOrPassed objects last entries region) :
    ClearOf (consolidateFrom last entries objects).2 all region := by
  induction entries generalizing last objects with
  | nil => exact hclear
  | cons entry rest ih =>
      obtain ⟨hlast, hrest⟩ := List.pairwise_cons.mp h
      have hle := hlast entry List.mem_cons_self
      have hskip : InOrder objects (last :: rest) :=
        List.pairwise_cons.mpr ⟨fun other hother => hlast other (List.mem_cons_of_mem entry hother), hrest.of_cons⟩
      have hallRest : ∀ id ∈ last :: rest, id ∈ all := fun id hid => hall id (by
        simp only [List.mem_cons] at hid ⊢
        tauto)
      -- an entry that joins the last region has its attributes, so it is not the region ahead
      have hjoin : (objects last).attrKey = (objects entry).attrKey → AheadOrPassed objects last rest region := by
        intro hsame
        rcases hregion with hmem | ⟨hbehind, hpassed⟩
        · rcases List.mem_cons.mp hmem with rfl | hmem
          · exact .inr ⟨(List.pairwise_cons.mp hrest).1, .inl hsame.symm⟩
          · exact .inl hmem
        · exact .inr ⟨fun other hother => hbehind other (List.mem_cons_of_mem entry hother), hpassed⟩
      rw [consolidateFrom]
      rcases turn_cases hle with hturn | ⟨hsame, hturn, _⟩ | ⟨size, hsame, hturn, hsize, hend⟩
      · simp only [hturn]
        refine ih (fun id hid => hall id (List.mem_cons_of_mem last hid)) hrest hpositive hclear ?_
        rcases hregion with hmem | ⟨hbehind, _⟩
        · rcases List.mem_cons.mp hmem with rfl | hmem
          · exact .inr ⟨(List.pairwise_cons.mp hrest).1, .inl rfl⟩
          · exact .inl hmem
        · exact .inr ⟨fun other hother => hbehind other (List.mem_cons_of_mem entry hother),
            .inr (hbehind entry List.mem_cons_self)⟩
      · simp only [hturn]
        exact ih hallRest hskip hpositive hclear (hjoin hsame)
      · simp only [hturn]
        have hgrown := grown_update hsize
        have hclearList : ClearOf objects (last :: entry :: rest) region := fun id hid => hclear id (hall id hid)
        have hpositiveLast := hpositive last (hall last List.mem_cons_self)
        refine ih hallRest (hskip.of_same fun id => (hgrown id).address) (fun id hid => ?_) (fun id hid hother => ?_) ?_
        · exact (hpositive id hid).trans_le (hgrown id).size
        · rw [(hgrown region).attributes, (hgrown id).attributes] at hother
          rw [(hgrown region).address]
          by_cases hid' : id = last
          · subst hid'
            rw [Function.update_self]
            exact clear_grow h hpositiveLast hsame hend hclearList hregion hother
          · rw [Function.update_of_ne hid']
            exact hclear id hid hother
        · have hjoined := hjoin hsame
          unfold AheadOrPassed at hjoined ⊢
          simp only [(hgrown _).address, (hgrown _).attributes]
          exact hjoined

end Loop

/-! ### The loop over values -/

/-- The loop over objects does to the objects what the loop over values does to the values. -/
theorem consolidateFrom_values {objects : ℕ → PmaInfo} {last : ℕ} {entries : List ℕ}
    (h : (last :: entries).Nodup) (swallowed : List PmaInfo) :
    let out := consolidateFrom last entries objects
    let blocks := consolidateLoop ⟨objects last, swallowed⟩ (entries.map objects)
    blocks.map Block.region = out.1.map out.2 ∧
      blocks.flatMap Block.entries = out.2 last :: (swallowed ++ entries.map out.2) := by
  induction entries generalizing last objects swallowed with
  | nil => simp [consolidateFrom, consolidateLoop, Block.entries]
  | cons entry rest ih =>
      obtain ⟨hlast, hrest⟩ := List.nodup_cons.mp h
      have hskip : (last :: rest).Nodup :=
        List.nodup_cons.mpr ⟨fun hmem => hlast (List.mem_cons_of_mem entry hmem), hrest.of_cons⟩
      have hentry : entry ∉ last :: rest := by
        rintro hmem
        rcases List.mem_cons.mp hmem with rfl | hmem
        · exact hlast List.mem_cons_self
        · exact (List.nodup_cons.mp hrest).1 hmem
      rw [consolidateFrom, List.map_cons, consolidateLoop]
      cases hturn : turn (objects last) (objects entry) with
      | append =>
          obtain ⟨hregions, hentries⟩ := @ih objects entry hrest []
          have hkept : (consolidateFrom entry rest objects).2 last = objects last := consolidateFrom_outside hlast
          simp only [List.map_cons, List.flatMap_cons, hregions, hentries, hkept, Block.entries, List.nil_append,
            List.cons_append]
          exact ⟨trivial, trivial⟩
      | skip =>
          obtain ⟨hregions, hentries⟩ := @ih objects last hskip (swallowed ++ [objects entry])
          have hkept : (consolidateFrom last rest objects).2 entry = objects entry := consolidateFrom_outside hentry
          simp only [hregions, hentries, List.map_cons, hkept, List.append_assoc, List.singleton_append]
          exact ⟨trivial, trivial⟩
      | grow size =>
          have hmap : rest.map (Function.update objects last ((objects last).resize size)) = rest.map objects :=
            List.map_congr_left fun id hid => Function.update_of_ne
              (fun heq : id = last => hlast (heq ▸ List.mem_cons_of_mem entry hid)) _ _
          have hne : entry ≠ last := fun heq => hentry (heq ▸ List.mem_cons_self)
          have hstep := @ih (Function.update objects last ((objects last).resize size)) last hskip
            (swallowed ++ [objects entry])
          rw [hmap, Function.update_self] at hstep
          obtain ⟨hregions, hentries⟩ := hstep
          have hkept : (consolidateFrom last rest (Function.update objects last ((objects last).resize size))).2 entry =
              objects entry := (consolidateFrom_outside hentry).trans (Function.update_of_ne hne _ _)
          simp only [hregions, hentries, List.map_cons, hkept, List.append_assoc, List.singleton_append]
          exact ⟨trivial, trivial⟩

/-! ### The calls -/

/-- What `consolidated_entries` does to the heap, and which regions it returns. -/
structure Consolidated (heap heap' : PmaHeap) (kept : List ℕ) : Prop where
  fresh : heap'.fresh = heap.fresh
  entries : ∀ id, id ∈ heap'.entries ↔ id ∈ heap.entries
  grown : ∀ id, Grown (heap.objects id) (heap'.objects id)
  order : InOrder heap'.objects kept
  covers : ∀ id ∈ heap.entries, ∀ b, (heap.objects id).containsAddress b = true →
    ∃ region ∈ kept, (heap.objects region).attrKey = (heap.objects id).attrKey ∧
      (heap.objects region).pmaAddress ≤ (heap.objects id).pmaAddress ∧
      (heap'.objects region).containsAddress b = true
  kept : ∀ id ∈ kept, id ∈ heap.entries
  clear : (∀ entry ∈ heap.entries, 0 < (heap.objects entry).pmaSize) → ∀ region ∈ heap.entries,
    ClearOf heap.objects heap.entries region → ClearOf heap'.objects heap'.entries region

theorem consolidatedEntries_ok {heap heap' : PmaHeap} {kept : List ℕ}
    (h : heap.consolidatedEntries = (.ok kept, heap')) : Consolidated heap heap' kept := by
  unfold consolidatedEntries at h
  have hmem : ∀ id, id ∈ sortBy (fun entry => (heap.objects entry).pmaAddress) heap.entries ↔ id ∈ heap.entries :=
    fun id => mem_sortBy
  have hsorted := sortBy_sorted (fun entry => (heap.objects entry).pmaAddress) heap.entries
  generalize sortBy (fun entry => (heap.objects entry).pmaAddress) heap.entries = sorted at h hmem hsorted
  cases sorted with
  | nil => cases h
  | cons first rest =>
      obtain rfl := Except.ok.inj (congrArg Prod.fst h)
      obtain rfl := (congrArg Prod.snd h).symm
      have hgrown := consolidateFrom_grown hsorted
      refine ⟨rfl, hmem, hgrown, ?_, fun id hid b hb => ?_, fun id hid => ?_, fun hpositive region hregion hclear => ?_⟩
      · exact (InOrder.of_same hsorted fun id => (hgrown id).address).sublist consolidateFrom_sublist
      · exact consolidateFrom_covers hsorted ((hmem id).mpr hid) hb
      · exact (hmem id).mp (consolidateFrom_sublist.subset hid)
      · have hahead : AheadOrPassed heap.objects first rest region := by
          rcases List.mem_cons.mp ((hmem region).mpr hregion) with rfl | hrest
          · exact .inr ⟨(List.pairwise_cons.mp hsorted).1, .inl rfl⟩
          · exact .inl hrest
        have hcleared := consolidateFrom_clear (fun id hid => (hmem id).mp hid) hsorted hpositive hclear hahead
        exact fun entry hentry => hcleared entry ((hmem entry).mp hentry)

/-- Read through the heap, the calls are those of the region set that owns its entries. -/
theorem consolidatedEntries_values {heap heap' : PmaHeap} {kept : List ℕ} (hnodup : heap.entries.Nodup)
    (h : heap.consolidatedEntries = (.ok kept, heap')) :
    (PmaRegion.mk (heap.entries.map heap.objects)).consolidatedEntries =
      (.ok (kept.map heap'.objects), ⟨heap'.entries.map heap'.objects⟩) := by
  unfold consolidatedEntries at h
  have hsort : sortBy pmaAddress (heap.entries.map heap.objects) =
      (sortBy (fun entry => (heap.objects entry).pmaAddress) heap.entries).map heap.objects :=
    sortBy_map heap.objects heap.entries
  have hperm := sortBy_perm (fun entry => (heap.objects entry).pmaAddress) heap.entries
  rw [PmaRegion.consolidatedEntries, PmaRegion.sortedEntries, hsort]
  generalize sortBy (fun entry => (heap.objects entry).pmaAddress) heap.entries = sorted at h hperm
  cases sorted with
  | nil => cases h
  | cons first rest =>
      obtain rfl := Except.ok.inj (congrArg Prod.fst h)
      obtain rfl := (congrArg Prod.snd h).symm
      obtain ⟨hregions, hentries⟩ := @consolidateFrom_values heap.objects first rest (hperm.nodup_iff.mpr hnodup) []
      simp only [List.map_cons, hregions, hentries, List.nil_append]

/-- And the lookup finds the object of the region that the lookup in the region set finds. -/
theorem findRegionForAddress_values {heap heap' : PmaHeap} {address : ℤ} {found : Option ℕ} (hnodup : heap.entries.Nodup)
    (h : heap.findRegionForAddress address = (.ok found, heap')) :
    (PmaRegion.mk (heap.entries.map heap.objects)).findRegionForAddress address =
      (.ok (found.map heap'.objects), ⟨heap'.entries.map heap'.objects⟩) := by
  unfold findRegionForAddress at h
  obtain ⟨result, middle, hresult⟩ : ∃ result middle, heap.consolidatedEntries = (result, middle) := ⟨_, _, rfl⟩
  rw [hresult] at h
  obtain ⟨hfound, rfl⟩ := Prod.mk.inj h
  cases result with
  | error fault => cases hfound
  | ok kept =>
      obtain rfl := Except.ok.inj hfound
      rw [PmaRegion.findRegionForAddress, consolidatedEntries_values hnodup hresult]
      exact Prod.ext (congrArg Except.ok List.find?_map) rfl

/-- The first returned region with a byte of an unchallenged region has the attributes of that region. -/
theorem Consolidated.lookup {heap heap' : PmaHeap} {kept : List ℕ} (h : Consolidated heap heap' kept)
    (hpositive : ∀ entry ∈ heap.entries, 0 < (heap.objects entry).pmaSize) {region : ℕ}
    (hregion : region ∈ heap.entries) (hclear : ClearOf heap.objects heap.entries region) {b : ℤ}
    (hb : (heap.objects region).containsAddress b = true) :
    ∃ found, (kept.find? fun id => (heap'.objects id).containsAddress b) = some found ∧
      (heap'.objects found).attrKey = (heap.objects region).attrKey := by
  obtain ⟨holder, hholder, hkey, haddress, hcontains⟩ := h.covers region hregion b hb
  have hsome : (kept.find? fun id => (heap'.objects id).containsAddress b).isSome :=
    List.find?_isSome.mpr ⟨holder, hholder, hcontains⟩
  obtain ⟨found, hfound⟩ := Option.isSome_iff_exists.mp hsome
  refine ⟨found, hfound, ?_⟩
  obtain ⟨hin, front, back, hsplit, hfront⟩ := List.find?_eq_some_iff_append.mp hfound
  rw [(h.grown found).attributes]
  by_contra hother
  have hfoundEntry : found ∈ heap'.entries := (h.entries found).mpr (h.kept found (by simp [hsplit]))
  have hnot := h.clear hpositive region hregion hclear found hfoundEntry
    (by rwa [(h.grown found).attributes, (h.grown region).attributes])
  -- the found region starts behind the start of the region, so the holder comes first
  rw [(h.grown region).address] at hnot
  rw [containsAddress_iff] at hin hnot hb
  have hbehind : (heap.objects region).pmaAddress < (heap'.objects found).pmaAddress := by omega
  have horder := h.order
  rw [hsplit] at hholder horder
  rcases List.mem_append.mp hholder with hmem | hmem
  · have hmissed := hfront holder hmem
    rw [hcontains] at hmissed
    cases hmissed
  · rcases List.mem_cons.mp hmem with rfl | hmem
    · exact hother hkey
    · have hle := (List.pairwise_cons.mp (List.pairwise_append.mp horder).2.1).1 holder hmem
      rw [(h.grown holder).address] at hle
      omega

theorem findRegionForAddress_ok {heap heap' : PmaHeap} {address : ℤ} {found : Option ℕ}
    (h : heap.findRegionForAddress address = (.ok found, heap')) :
    ∃ kept, Consolidated heap heap' kept ∧
      found = kept.find? fun id => (heap'.objects id).containsAddress address := by
  unfold findRegionForAddress at h
  obtain ⟨result, heap'', hresult⟩ : ∃ result heap'', heap.consolidatedEntries = (result, heap'') := ⟨_, _, rfl⟩
  rw [hresult] at h
  obtain rfl : heap'' = heap' := congrArg Prod.snd h
  have hmap := congrArg Prod.fst h
  cases result with
  | error fault => cases hmap
  | ok kept => exact ⟨kept, consolidatedEntries_ok hresult, (Except.ok.inj hmap).symm⟩

end PmaHeap
end Riescue.Pma
