import Mathlib.Data.List.Induction
import Riescue.LibOrderedDict

/-! The page mappings of the pool, `add_parsed_page_mapping` of `pool.py`: a dictionary by linear name and page map, and the list
of page maps of each linear name. -/

namespace Riescue.PageMappingIndex
open OrderedDict

/-- What the pool reads of a `ParsedPageMapping`. -/
structure ParsedPageMapping where
  linName : String
  pageMaps : List String := []
  inPrivateMap : Bool := false
  deriving DecidableEq, Repr

structure Pool where
  parsedPageMappings : List ((String × String) × ParsedPageMapping) := []
  parsedPageMappingsWithLinName : List (String × List String) := []

namespace Pool

/-- `parsed_page_mapping_exists` -/
def parsedPageMappingExists (pool : Pool) (linName mapName : String) : Bool :=
  (get? pool.parsedPageMappings (linName, mapName)).isSome

/-- `get_parsed_page_mapping_with_lin_name`; a name that was never added is a `KeyError`. -/
def getParsedPageMappingWithLinName (pool : Pool) (linName : String) : Option (List String) :=
  get? pool.parsedPageMappingsWithLinName linName

/-- One assignment of both dictionaries. -/
def addKey (mapping : ParsedPageMapping) (pool : Pool) (mapKey : String) : Pool where
  parsedPageMappings := insert pool.parsedPageMappings (mapping.linName, mapKey) mapping
  parsedPageMappingsWithLinName := insert pool.parsedPageMappingsWithLinName mapping.linName
    ((pool.getParsedPageMappingWithLinName mapping.linName).getD [] ++ [mapKey])

/-- `add_parsed_page_mapping` -/
def addParsedPageMapping (pool : Pool) (mapping : ParsedPageMapping) : Pool :=
  let pool := { pool with
    parsedPageMappingsWithLinName := insert pool.parsedPageMappingsWithLinName mapping.linName [] }
  if mapping.pageMaps = [] ∨ ¬mapping.inPrivateMap then pool.addKey mapping "map_os"
  else mapping.pageMaps.foldl (addKey mapping) pool

end Pool

/-- The pool after a sequence of additions. -/
def run (additions : List ParsedPageMapping) : Pool := additions.foldl Pool.addParsedPageMapping {}

/-! ### The property and its condition -/

/-- The list of a name has each map of the name once and nothing else. -/
def Consistent (pool : Pool) : Prop :=
  ∀ linName maps, pool.getParsedPageMappingWithLinName linName = some maps →
    ∀ mapName, maps.count mapName = if pool.parsedPageMappingExists linName mapName then 1 else 0

/-- The page maps that a mapping is added to. -/
def ParsedPageMapping.mapKeys (mapping : ParsedPageMapping) : List String :=
  if mapping.pageMaps = [] ∨ ¬mapping.inPrivateMap then ["map_os"] else mapping.pageMaps

/-- The last addition of every name repeats no map and goes to all maps that the name was added to before. -/
def LastCovers (additions : List ParsedPageMapping) : Prop :=
  ∀ earlier last later, additions = earlier ++ last :: later → (∀ mapping ∈ later, mapping.linName ≠ last.linName) →
    last.mapKeys.Nodup ∧ ∀ mapping ∈ earlier, mapping.linName = last.linName → mapping.mapKeys ⊆ last.mapKeys

/-! ### One addition -/

variable {pool : Pool} {mapping : ParsedPageMapping}

theorem get?_foldl_addKey (pool : Pool) (mapping : ParsedPageMapping) (mapKeys : List String) (linName : String) :
    (mapKeys.foldl (Pool.addKey mapping) pool).getParsedPageMappingWithLinName linName =
      if linName = mapping.linName ∧ mapKeys ≠ [] then
        some ((pool.getParsedPageMappingWithLinName linName).getD [] ++ mapKeys)
      else pool.getParsedPageMappingWithLinName linName := by
  induction mapKeys generalizing pool with
  | nil => rw [if_neg fun h => h.2 rfl, List.foldl_nil]
  | cons mapKey rest ih =>
      rw [List.foldl_cons, ih]
      have hself : (pool.addKey mapping mapKey).getParsedPageMappingWithLinName mapping.linName =
          some ((pool.getParsedPageMappingWithLinName mapping.linName).getD [] ++ [mapKey]) := get?_insert_self ..
      by_cases hname : linName = mapping.linName
      · have hcons : mapping.linName = mapping.linName ∧ mapKey :: rest ≠ [] := ⟨rfl, List.cons_ne_nil _ _⟩
        rw [hname, hself, if_pos hcons, Option.getD_some, List.append_assoc, List.singleton_append]
        by_cases hrest : rest = []
        · rw [if_neg fun h => h.2 hrest, hrest]
        · rw [if_pos ⟨rfl, hrest⟩]
      · rw [if_neg fun h => hname h.1, if_neg fun h => hname h.1]
        exact get?_insert_ne _ _ hname

theorem exists_foldl_addKey (pool : Pool) (mapping : ParsedPageMapping) (mapKeys : List String) (linName mapName : String) :
    (mapKeys.foldl (Pool.addKey mapping) pool).parsedPageMappingExists linName mapName ↔
      (linName = mapping.linName ∧ mapName ∈ mapKeys) ∨ pool.parsedPageMappingExists linName mapName := by
  induction mapKeys generalizing pool with
  | nil => simp
  | cons mapKey rest ih =>
      rw [List.foldl_cons, ih, List.mem_cons]
      have hkey : (pool.addKey mapping mapKey).parsedPageMappingExists linName mapName ↔
          (linName = mapping.linName ∧ mapName = mapKey) ∨ pool.parsedPageMappingExists linName mapName := by
        by_cases heq : (linName, mapName) = (mapping.linName, mapKey)
        · refine iff_of_true ?_ (.inl (Prod.mk.inj heq))
          rw [Pool.parsedPageMappingExists, heq, Pool.addKey, get?_insert_self]
          rfl
        · rw [or_iff_right fun h => heq (Prod.ext h.1 h.2), Pool.parsedPageMappingExists, Pool.addKey, get?_insert_ne _ _ heq]
          exact Iff.rfl
      rw [hkey]
      tauto

/-- An addition is one loop over its maps, from an empty list of its name. -/
theorem addParsedPageMapping_eq (pool : Pool) (mapping : ParsedPageMapping) :
    pool.addParsedPageMapping mapping = mapping.mapKeys.foldl (Pool.addKey mapping)
      { pool with parsedPageMappingsWithLinName := insert pool.parsedPageMappingsWithLinName mapping.linName [] } := by
  unfold Pool.addParsedPageMapping ParsedPageMapping.mapKeys
  dsimp only
  split_ifs
  · rfl
  · rfl

theorem mapKeys_ne_nil (mapping : ParsedPageMapping) : mapping.mapKeys ≠ [] := by
  unfold ParsedPageMapping.mapKeys
  split_ifs with hos
  · exact List.cons_ne_nil _ _
  · exact fun hnil => hos (.inl hnil)

/-- The list of a name is that of its last addition. -/
theorem names_add (pool : Pool) (mapping : ParsedPageMapping) (linName : String) :
    (pool.addParsedPageMapping mapping).getParsedPageMappingWithLinName linName =
      if linName = mapping.linName then some mapping.mapKeys else pool.getParsedPageMappingWithLinName linName := by
  rw [addParsedPageMapping_eq, get?_foldl_addKey]
  by_cases hname : linName = mapping.linName
  · rw [if_pos ⟨hname, mapKeys_ne_nil mapping⟩, if_pos hname, hname, Pool.getParsedPageMappingWithLinName, get?_insert_self,
      Option.getD_some, List.nil_append]
  · rw [if_neg fun h => hname h.1, if_neg hname, Pool.getParsedPageMappingWithLinName, get?_insert_ne _ _ hname]
    rfl

/-- The dictionary keeps the maps of all additions. -/
theorem exists_add (pool : Pool) (mapping : ParsedPageMapping) (linName mapName : String) :
    (pool.addParsedPageMapping mapping).parsedPageMappingExists linName mapName ↔
      (linName = mapping.linName ∧ mapName ∈ mapping.mapKeys) ∨ pool.parsedPageMappingExists linName mapName := by
  rw [addParsedPageMapping_eq]
  exact exists_foldl_addKey _ _ _ _ _

/-! ### A sequence of additions -/

theorem exists_run (additions : List ParsedPageMapping) (linName mapName : String) :
    (run additions).parsedPageMappingExists linName mapName ↔
      ∃ mapping ∈ additions, mapping.linName = linName ∧ mapName ∈ mapping.mapKeys := by
  induction additions using List.reverseRecOn with
  | nil => exact iff_of_false nofun (by simp)
  | append_singleton additions mapping ih =>
      rw [run, List.foldl_append, List.foldl_cons, List.foldl_nil, ← run, exists_add, ih]
      rw [or_comm]
      constructor
      · rintro (⟨earlier, hearlier, hmaps⟩ | ⟨rfl, hmap⟩)
        · exact ⟨earlier, List.mem_append_left _ hearlier, hmaps⟩
        · exact ⟨mapping, List.mem_append_right _ (List.mem_singleton_self _), rfl, hmap⟩
      · rintro ⟨added, hadded, rfl, hmap⟩
        rcases List.mem_append.mp hadded with hearlier | hlast
        · exact .inl ⟨added, hearlier, rfl, hmap⟩
        · rw [List.mem_singleton.mp hlast] at hmap ⊢
          exact .inr ⟨rfl, hmap⟩

theorem names_run {additions : List ParsedPageMapping} {linName : String} {maps : List String} :
    (run additions).getParsedPageMappingWithLinName linName = some maps ↔
      ∃ earlier last later, additions = earlier ++ last :: later ∧ (∀ mapping ∈ later, mapping.linName ≠ linName) ∧
        last.linName = linName ∧ maps = last.mapKeys := by
  induction additions using List.reverseRecOn with
  | nil => exact iff_of_false nofun fun ⟨_, _, _, hnil, _⟩ =>
      List.append_ne_nil_of_right_ne_nil _ (List.cons_ne_nil _ _) hnil.symm
  | append_singleton additions mapping ih =>
      rw [run, List.foldl_append, List.foldl_cons, List.foldl_nil, ← run, names_add]
      constructor
      · intro h
        split_ifs at h with hname
        · exact ⟨additions, mapping, [], rfl, nofun, hname.symm, (Option.some.inj h).symm⟩
        · obtain ⟨earlier, last, later, rfl, hlater, hlast, hmaps⟩ := ih.mp h
          refine ⟨earlier, last, later ++ [mapping], by simp, ?_, hlast, hmaps⟩
          exact List.forall_mem_append.mpr ⟨hlater, List.forall_mem_singleton.mpr (Ne.symm hname)⟩
      · rintro ⟨earlier, last, later, heq, hlater, rfl, rfl⟩
        rcases List.eq_nil_or_concat later with rfl | ⟨later, final, rfl⟩
        · obtain ⟨-, hlast⟩ := List.append_inj' heq rfl
          rw [List.singleton_inj.mp hlast, if_pos rfl]
        · rw [List.concat_eq_append] at heq hlater
          rw [← List.cons_append, ← List.append_assoc] at heq
          obtain ⟨hbefore, hfinal⟩ := List.append_inj' heq rfl
          obtain rfl := List.singleton_inj.mp hfinal
          obtain ⟨hlater, hne⟩ := List.forall_mem_append.mp hlater
          rw [if_neg (Ne.symm (hne _ (List.mem_singleton_self _)))]
          exact ih.mpr ⟨earlier, last, later, hbefore, hlater, rfl, rfl⟩

/-- After a sequence of additions the lists agree with the dictionary exactly when the last addition of every name repeats no map
and goes to all maps of the name: an addition starts the list of its name anew. -/
theorem consistent_iff (additions : List ParsedPageMapping) : Consistent (run additions) ↔ LastCovers additions := by
  constructor
  · intro h earlier last later heq hlater
    have hcount := h last.linName last.mapKeys (names_run.mpr ⟨earlier, last, later, heq, hlater, rfl, rfl⟩)
    constructor
    · refine List.nodup_iff_count_le_one.mpr fun mapName => ?_
      rw [hcount]
      split_ifs
      · exact Nat.le_refl 1
      · exact Nat.zero_le 1
    · intro mapping hmem hname mapName hmap
      have hexists : (run additions).parsedPageMappingExists last.linName mapName :=
        (exists_run _ _ _).mpr ⟨mapping, heq ▸ List.mem_append_left _ hmem, hname, hmap⟩
      refine List.count_pos_iff.mp ?_
      rw [hcount, if_pos hexists]
      exact Nat.one_pos
  · intro h linName maps hmaps mapName
    obtain ⟨earlier, last, later, heq, hlater, rfl, rfl⟩ := names_run.mp hmaps
    obtain ⟨hnodup, hcovers⟩ := h earlier last later heq hlater
    have hmem : mapName ∈ last.mapKeys ↔ (run additions).parsedPageMappingExists last.linName mapName := by
      rw [exists_run]
      constructor
      · exact fun hmap => ⟨last, heq ▸ List.mem_append_right _ List.mem_cons_self, rfl, hmap⟩
      · rintro ⟨mapping, hadded, hname, hmap⟩
        rcases List.mem_append.mp (heq ▸ hadded) with hmapping | hmapping
        · exact hcovers mapping hmapping hname hmap
        · rcases List.mem_cons.mp hmapping with rfl | hmapping
          · exact hmap
          · exact absurd hname (hlater mapping hmapping)
    split_ifs with hexists
    · exact List.count_eq_one_of_mem hnodup (hmem.mpr hexists)
    · exact List.count_eq_zero_of_not_mem (mt hmem.mp hexists)

/-- One page in two private maps, added one after the other. -/
def twoMaps : List ParsedPageMapping :=
  [{ linName := "lin1", pageMaps := ["map0"], inPrivateMap := true },
    { linName := "lin1", pageMaps := ["map1"], inPrivateMap := true }]

/-- The list of the name has lost the first map. -/
theorem not_consistent_twoMaps : ¬ ∀ additions, Consistent (run additions) := by
  intro h
  have hcount := h twoMaps "lin1" ["map1"] (by decide) "map0"
  exact absurd hcount (by decide)

end Riescue.PageMappingIndex
