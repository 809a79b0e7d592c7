import Riescue.AssemblyLines
import Riescue.LibOrderedDict
import Riescue.LibSeparated
import Riescue.LibStableSort
import Mathlib.Data.Char
import Mathlib.Data.List.Lex

/-! The features of a configuration, `FeatureDiscovery`: the enabled ones are printed as the `-march` string of the compiler,
and an ISA string or a list of extensions is read as a set of features. -/

namespace Riescue
open AssemblyWriter (startsWith)

abbrev FeatureName := List Char

/-- A feature of the configuration: its settings, as far as they are given, or a plain flag. -/
inductive Feature where
  | settings (supported enabled : Option Bool) (randomize : Option ℤ)
  | flag (value : Bool)

namespace Feature

def enabled : Feature → Bool
  | settings _ enabled _ => enabled.getD false
  | flag value => value

/-- What an ISA enables is supported too. -/
def fromIsa (randomize : ℤ) : Feature := settings (some true) (some true) (some randomize)

@[simp] theorem enabled_fromIsa (randomize : ℤ) : (fromIsa randomize).enabled = true := rfl

end Feature

/-- The `isa` entry of a configuration. -/
inductive Isa where
  | string (text : List Char)
  | list (extensions : List FeatureName)

def Isa.extensions : Isa → List FeatureName
  | string text => text.splitOn '_'
  | list extensions => extensions

structure FeatureDiscovery where
  features : List (FeatureName × Feature)
  nodup : (features.map Prod.fst).Nodup

namespace FeatureDiscovery

/-- `is_feature_enabled`, on the dictionary of the features -/
def enabledIn (features : List (FeatureName × Feature)) (featureName : FeatureName) : Bool :=
  match OrderedDict.get? features featureName with
  | none => false
  | some feature => feature.enabled

def isFeatureEnabled (fd : FeatureDiscovery) (featureName : FeatureName) : Bool := enabledIn fd.features featureName

def listFeatures (fd : FeatureDiscovery) : List FeatureName := fd.features.map Prod.fst

/-! ### The compiler's string -/

def rv64 : FeatureName := "rv64".toList
def rv32 : FeatureName := "rv32".toList

/-- The base letters in the order of the string. -/
def marchLetters : List FeatureName := ["i", "m", "a", "f", "d", "c", "h", "v", "u", "s"].map String.toList

def baseArchitecture (fd : FeatureDiscovery) : FeatureName :=
  if fd.isFeatureEnabled rv64 then rv64 else if fd.isFeatureEnabled rv32 then rv32 else rv64

/-- The enabled features of a prefix, in the order of their names. -/
def extensionsFrom (fd : FeatureDiscovery) (start : String) : List FeatureName :=
  (StableSort.sortBy id fd.listFeatures).filter fun name => startsWith start name && fd.isFeatureEnabled name

def baseString (fd : FeatureDiscovery) : List Char :=
  fd.baseArchitecture ++ (marchLetters.filter fd.isFeatureEnabled).flatten

/-- `get_compiler_march_string` -/
def getCompilerMarchString (fd : FeatureDiscovery) : List Char :=
  "_".toList.intercalate (fd.baseString :: fd.extensionsFrom "z" ++ fd.extensionsFrom "sv")

/-! ### Reading an ISA -/

/-- The base letters that are read. -/
def isaLetters : List FeatureName := ["i", "m", "a", "f", "d", "c", "v"].map String.toList

/-- A loop over names that enables some of them. -/
def enableEach (features : List (FeatureName × Feature)) (names : List FeatureName) (cond : FeatureName → Bool)
    (randomize : ℤ) : List (FeatureName × Feature) :=
  names.foldl (fun features ext => if cond ext then OrderedDict.insert features ext (.fromIsa randomize) else features) features

def loadBase (extensions : List FeatureName) : List (FeatureName × Feature) :=
  if rv64 ∈ extensions then OrderedDict.insert [] rv64 (.fromIsa 100)
  else if rv32 ∈ extensions then OrderedDict.insert [] rv32 (.fromIsa 100)
  else []

/-- `_load_features_from_isa` -/
def loadFeaturesFromIsa (isa : Isa) : List (FeatureName × Feature) :=
  let extensions := isa.extensions
  let features := enableEach (loadBase extensions) isaLetters (· ∈ extensions) 100
  enableEach features extensions (startsWith "z") 0

theorem nodup_enableEach {features : List (FeatureName × Feature)} (h : (features.map Prod.fst).Nodup)
    (names : List FeatureName) (cond : FeatureName → Bool) (randomize : ℤ) :
    ((enableEach features names cond randomize).map Prod.fst).Nodup := by
  unfold enableEach
  induction names generalizing features with
  | nil => exact h
  | cons name names ih =>
      rw [List.foldl_cons]
      apply ih
      split
      · exact OrderedDict.nodup_keys_insert h _ _
      · exact h

theorem nodup_loadBase (extensions : List FeatureName) : ((loadBase extensions).map Prod.fst).Nodup := by
  unfold loadBase
  split_ifs
  · exact List.nodup_singleton rv64
  · exact List.nodup_singleton rv32
  · exact List.nodup_nil

/-- `from_dict`, of a configuration with an ISA only -/
def fromIsa (isa : Isa) : FeatureDiscovery :=
  ⟨loadFeaturesFromIsa isa, nodup_enableEach (nodup_enableEach (nodup_loadBase _) _ _ _) _ _ _⟩

/-! ### What is asked of the two -/

/-- The features of the base and of the extensions agree, and the second set has no others. -/
def SameFeatures (fd other : FeatureDiscovery) : Prop :=
  ∀ name, other.isFeatureEnabled name = true ↔
    name = fd.baseArchitecture ∨ (name ∈ isaLetters ∨ startsWith "z" name = true) ∧ fd.isFeatureEnabled name = true

/-- Both forms of the enabled features are read back. -/
structure ReadBack (fd : FeatureDiscovery) : Prop where
  string : fd.SameFeatures (fromIsa (.string fd.getCompilerMarchString))
  list : ∀ extensions, (∀ name, name ∈ extensions ↔ fd.isFeatureEnabled name = true) →
    fd.SameFeatures (fromIsa (.list extensions))

/-- The features are a base width, base letters and extensions of a prefix `z`. -/
structure Unprivileged (fd : FeatureDiscovery) : Prop where
  base : fd.isFeatureEnabled rv32 = true ∨ fd.isFeatureEnabled rv64 = true
  names : ∀ name, fd.isFeatureEnabled name = true →
    name = rv32 ∨ name = rv64 ∨ name ∈ isaLetters ∨ startsWith "z" name = true

/-- No base letter is enabled, and no separator is part of the name of an enabled extension. -/
structure Separable (fd : FeatureDiscovery) : Prop where
  letters : ∀ name ∈ isaLetters, fd.isFeatureEnabled name = false
  names : ∀ name, startsWith "z" name = true → fd.isFeatureEnabled name = true → '_' ∉ name

/-! ### What is read -/

theorem enabledIn_insert (features : List (FeatureName × Feature)) (ext name : FeatureName) (randomize : ℤ) :
    enabledIn (OrderedDict.insert features ext (.fromIsa randomize)) name = true ↔
      name = ext ∨ enabledIn features name = true := by
  by_cases hname : name = ext
  · subst hname
    rw [enabledIn, OrderedDict.get?_insert_self]
    exact ⟨fun _ => .inl rfl, fun _ => rfl⟩
  · rw [enabledIn, OrderedDict.get?_insert_ne _ _ hname]
    exact ⟨.inr, fun h => h.resolve_left hname⟩

theorem enabledIn_enableEach (features : List (FeatureName × Feature)) (names : List FeatureName)
    (cond : FeatureName → Bool) (randomize : ℤ) (name : FeatureName) :
    enabledIn (enableEach features names cond randomize) name = true ↔
      enabledIn features name = true ∨ name ∈ names ∧ cond name = true := by
  unfold enableEach
  induction names generalizing features with
  | nil => simp
  | cons ext names ih =>
      rw [List.foldl_cons, ih]
      split
      next hcond =>
        rw [enabledIn_insert, List.mem_cons]
        constructor
        · rintro ((rfl | h) | ⟨hmem, hname⟩)
          · exact .inr ⟨.inl rfl, hcond⟩
          · exact .inl h
          · exact .inr ⟨.inr hmem, hname⟩
        · rintro (h | ⟨rfl | hmem, hname⟩)
          · exact .inl (.inr h)
          · exact .inl (.inl rfl)
          · exact .inr ⟨hmem, hname⟩
      next hcond =>
        rw [List.mem_cons]
        constructor
        · exact Or.imp_right fun ⟨hmem, hname⟩ => ⟨.inr hmem, hname⟩
        · rintro (h | ⟨rfl | hmem, hname⟩)
          · exact .inl h
          · exact absurd hname hcond
          · exact .inr ⟨hmem, hname⟩

theorem enabledIn_loadBase (extensions : List FeatureName) (name : FeatureName) :
    enabledIn (loadBase extensions) name = true ↔
      name = rv64 ∧ rv64 ∈ extensions ∨ name = rv32 ∧ rv64 ∉ extensions ∧ rv32 ∈ extensions := by
  have hempty : enabledIn [] name = false := rfl
  unfold loadBase
  split_ifs with h64 h32
  · rw [enabledIn_insert, hempty]
    simp [h64]
  · rw [enabledIn_insert, hempty]
    simp [h64, h32]
  · rw [hempty]
    simp [h64, h32]

/-- Every extension of the ISA that is known is enabled, and the wider base only. -/
theorem isFeatureEnabled_fromIsa (isa : Isa) (name : FeatureName) :
    (fromIsa isa).isFeatureEnabled name = true ↔
      (name = rv64 ∧ rv64 ∈ isa.extensions ∨ name = rv32 ∧ rv64 ∉ isa.extensions ∧ rv32 ∈ isa.extensions) ∨
        (name ∈ isaLetters ∨ startsWith "z" name = true) ∧ name ∈ isa.extensions := by
  show enabledIn (enableEach (enableEach (loadBase isa.extensions) isaLetters (· ∈ isa.extensions) 100) isa.extensions
    (startsWith "z") 0) name = true ↔ _
  rw [enabledIn_enableEach, enabledIn_enableEach, enabledIn_loadBase, decide_eq_true_eq]
  constructor
  · rintro ((hbase | ⟨hletter, hmem⟩) | ⟨hmem, hz⟩)
    · exact .inl hbase
    · exact .inr ⟨.inl hletter, hmem⟩
    · exact .inr ⟨.inr hz, hmem⟩
  · rintro (hbase | ⟨hletter | hz, hmem⟩)
    · exact .inl (.inl hbase)
    · exact .inl (.inr ⟨hletter, hmem⟩)
    · exact .inr ⟨hmem, hz⟩

/-! ### What is printed -/

theorem mem_listFeatures {fd : FeatureDiscovery} {name : FeatureName} (h : fd.isFeatureEnabled name = true) :
    name ∈ fd.listFeatures := by
  rw [isFeatureEnabled, enabledIn] at h
  cases hget : OrderedDict.get? fd.features name with
  | none => rw [hget] at h; exact absurd h Bool.false_ne_true
  | some feature => exact List.mem_map.mpr ⟨(name, feature), OrderedDict.mem_of_get? hget, rfl⟩

theorem mem_extensionsFrom {fd : FeatureDiscovery} {start : String} {name : FeatureName} :
    name ∈ fd.extensionsFrom start ↔ startsWith start name = true ∧ fd.isFeatureEnabled name = true := by
  rw [extensionsFrom, List.mem_filter, StableSort.mem_sortBy, Bool.and_eq_true]
  exact ⟨And.right, fun h => ⟨mem_listFeatures h.2, h⟩⟩

theorem eq_baseArchitecture {fd : FeatureDiscovery} (hbase : fd.isFeatureEnabled rv32 = true ∨ fd.isFeatureEnabled rv64 = true)
    {name : FeatureName} :
    name = rv64 ∧ fd.isFeatureEnabled rv64 = true ∨
        name = rv32 ∧ ¬ fd.isFeatureEnabled rv64 = true ∧ fd.isFeatureEnabled rv32 = true ↔
      name = fd.baseArchitecture := by
  unfold baseArchitecture
  by_cases h64 : fd.isFeatureEnabled rv64 = true
  · simp [h64]
  · simp [h64, hbase.resolve_right h64]

theorem notMem_baseArchitecture (fd : FeatureDiscovery) : '_' ∉ fd.baseArchitecture := by
  unfold baseArchitecture
  split_ifs <;> decide

theorem notMem_baseString (fd : FeatureDiscovery) : '_' ∉ fd.baseString := by
  have hletters : ∀ letter ∈ marchLetters, '_' ∉ letter := by decide
  rw [baseString, List.mem_append, not_or, List.mem_flatten]
  refine ⟨fd.notMem_baseArchitecture, ?_⟩
  rintro ⟨letter, hletter, hmem⟩
  exact hletters letter (List.mem_filter.mp hletter).1 hmem

/-- A name of a prefix is neither a base nor a letter. -/
theorem notMem_of_startsWith {name : FeatureName} (h : startsWith "z" name = true) :
    name ≠ rv32 ∧ name ≠ rv64 ∧ name ∉ isaLetters := by
  have hletters : ∀ letter ∈ isaLetters, startsWith "z" letter = false := by decide
  refine ⟨?_, ?_, fun hmem => ?_⟩
  · rintro rfl
    exact absurd h (by decide)
  · rintro rfl
    exact absurd h (by decide)
  · exact absurd h (Bool.eq_false_iff.mp (hletters name hmem))

/-- What is read back is a piece of the string. -/
theorem mem_extensions {fd : FeatureDiscovery} (hsame : fd.SameFeatures (fromIsa (.string fd.getCompilerMarchString)))
    {name : FeatureName} (hknown : name ∈ isaLetters ∨ startsWith "z" name = true)
    (henabled : fd.isFeatureEnabled name = true) : name ∈ (Isa.string fd.getCompilerMarchString).extensions := by
  have hread := (isFeatureEnabled_fromIsa _ name).mp ((hsame name).mpr (.inr ⟨hknown, henabled⟩))
  rcases hread with (⟨heq, h64⟩ | ⟨heq, -, h32⟩) | hread
  · rwa [heq]
  · rwa [heq]
  · exact hread.2

namespace Unprivileged
variable {fd : FeatureDiscovery}

theorem extensionsFrom_sv (h : fd.Unprivileged) : fd.extensionsFrom "sv" = [] := by
  have hletters : ∀ letter ∈ isaLetters, startsWith "sv" letter = false := by decide
  refine List.eq_nil_iff_forall_not_mem.mpr fun name hname => ?_
  obtain ⟨hsv, henabled⟩ := mem_extensionsFrom.mp hname
  rcases h.names name henabled with rfl | rfl | hletter | hz
  · exact absurd hsv (by decide)
  · exact absurd hsv (by decide)
  · exact absurd hsv (Bool.eq_false_iff.mp (hletters name hletter))
  · cases name with
    | nil => exact absurd hz (by decide)
    | cons c rest =>
        have hc : 's' = c := beq_iff_eq.mp (Bool.and_eq_true_iff.mp hsv).1
        have hc' : 'z' = c := beq_iff_eq.mp (Bool.and_eq_true_iff.mp hz).1
        exact absurd (hc.trans hc'.symm) (by decide)

/-- The string is cut where it was joined. -/
theorem extensions_string (h : fd.Unprivileged)
    (hnames : ∀ name, startsWith "z" name = true → fd.isFeatureEnabled name = true → '_' ∉ name) :
    (Isa.string fd.getCompilerMarchString).extensions = fd.baseString :: fd.extensionsFrom "z" := by
  show ("_".toList.intercalate (fd.baseString :: fd.extensionsFrom "z" ++ fd.extensionsFrom "sv")).splitOn '_' = _
  rw [h.extensionsFrom_sv, List.append_nil]
  refine List.splitOn_intercalate '_' (fun piece hpiece => ?_) (List.cons_ne_nil _ _)
  rcases List.mem_cons.mp hpiece with rfl | hmem
  · exact fd.notMem_baseString
  · obtain ⟨hz, henabled⟩ := mem_extensionsFrom.mp hmem
    exact hnames piece hz henabled

/-- Nothing stands behind the base if no letter is enabled. -/
theorem baseString_eq (h : fd.Unprivileged) (hletters : ∀ name ∈ isaLetters, fd.isFeatureEnabled name = false) :
    fd.baseString = fd.baseArchitecture := by
  have hother : ∀ letter ∈ marchLetters, letter ≠ rv32 ∧ letter ≠ rv64 ∧ startsWith "z" letter = false := by decide
  have hnone : marchLetters.filter fd.isFeatureEnabled = [] := by
    refine List.filter_eq_nil_iff.mpr fun letter hletter henabled => ?_
    obtain ⟨h32, h64, hz⟩ := hother letter hletter
    rcases h.names letter henabled with heq | heq | hmem | hz'
    · exact h32 heq
    · exact h64 heq
    · exact absurd henabled (Bool.eq_false_iff.mp (hletters letter hmem))
    · exact absurd hz' (Bool.eq_false_iff.mp hz)
  rw [baseString, hnone, List.flatten_nil, List.append_nil]

theorem sameFeatures_list (h : fd.Unprivileged) {extensions : List FeatureName}
    (hextensions : ∀ name, name ∈ extensions ↔ fd.isFeatureEnabled name = true) :
    fd.SameFeatures (fromIsa (.list extensions)) := by
  intro name
  rw [isFeatureEnabled_fromIsa, show (Isa.list extensions).extensions = extensions from rfl, hextensions, hextensions,
    hextensions, eq_baseArchitecture h.base]

/-- With the base alone in front, every piece of the string is a feature. -/
theorem sameFeatures_string (h : fd.Unprivileged) (hseparable : fd.Separable) :
    fd.SameFeatures (fromIsa (.string fd.getCompilerMarchString)) := by
  have hmem : ∀ name, name ∈ (Isa.string fd.getCompilerMarchString).extensions ↔
      name = fd.baseArchitecture ∨ startsWith "z" name = true ∧ fd.isFeatureEnabled name = true := by
    intro name
    rw [h.extensions_string hseparable.names, h.baseString_eq hseparable.letters, List.mem_cons, mem_extensionsFrom]
  have hbase : fd.baseArchitecture = rv64 ∨ fd.baseArchitecture = rv32 := by
    rcases (eq_baseArchitecture h.base).mpr rfl with ⟨heq, -⟩ | ⟨heq, -⟩
    · exact .inl heq
    · exact .inr heq
  have hz : ∀ base, base = rv64 ∨ base = rv32 → startsWith "z" base = false ∧ base ∉ isaLetters := by
    rintro base (rfl | rfl)
    · decide
    · decide
  intro name
  rw [isFeatureEnabled_fromIsa, hmem, hmem, hmem]
  constructor
  · rintro ((⟨rfl, h64⟩ | ⟨rfl, -, h32⟩) | ⟨hknown, heq | ⟨-, henabled⟩⟩)
    · exact .inl (h64.resolve_right fun hother => absurd hother.1 (by decide))
    · exact .inl (h32.resolve_right fun hother => absurd hother.1 (by decide))
    · exact .inl heq
    · exact .inr ⟨hknown, henabled⟩
  · rintro (rfl | ⟨hletter | hfront, henabled⟩)
    · refine .inl ?_
      rcases hbase with heq | heq
      · exact .inl ⟨heq, .inl heq.symm⟩
      · refine .inr ⟨heq, ?_, .inl heq.symm⟩
        rw [heq]
        rintro (hne | ⟨hother, -⟩)
        · exact absurd hne (by decide)
        · exact absurd hother (by decide)
    · exact absurd henabled (Bool.eq_false_iff.mp (hseparable.letters name hletter))
    · exact .inr ⟨.inr hfront, .inr ⟨hfront, henabled⟩⟩

theorem separable (h : fd.Unprivileged) (hsame : fd.SameFeatures (fromIsa (.string fd.getCompilerMarchString))) :
    fd.Separable := by
  have hnames : ∀ name, startsWith "z" name = true → fd.isFeatureEnabled name = true → '_' ∉ name :=
    fun name hz henabled => Separated.sep_notMem_splitOn (mem_extensions hsame (.inr hz) henabled)
  refine ⟨fun name hletter => Bool.eq_false_iff.mpr fun henabled => ?_, hnames⟩
  have hmem := mem_extensions hsame (.inl hletter) henabled
  rw [h.extensions_string hnames] at hmem
  rcases List.mem_cons.mp hmem with heq | hz
  · -- a letter is shorter than a base
    have hshort : ∀ letter ∈ isaLetters, letter.length = 1 := by decide
    have hlong : 4 ≤ fd.baseString.length := by
      have hbase : fd.baseArchitecture.length = 4 := by
        unfold baseArchitecture
        split_ifs <;> rfl
      rw [baseString, List.length_append, hbase]
      exact Nat.le_add_right 4 _
    rw [← heq, hshort name hletter] at hlong
    exact absurd hlong (by decide)
  · exact (notMem_of_startsWith (mem_extensionsFrom.mp hz).1).2.2 hletter

end Unprivileged

/-- The string of the compiler is read back as the features it was printed from exactly if it has no base letters and no
extension with a separator in its name; a list of the features is read back always. -/
theorem readBack_iff {fd : FeatureDiscovery} (h : fd.Unprivileged) : fd.ReadBack ↔ fd.Separable :=
  ⟨fun hread => h.separable hread.string,
    fun hseparable => ⟨h.sameFeatures_string hseparable, fun _ => h.sameFeatures_list⟩⟩

/-- The base with the bit manipulation for addresses. -/
def bitmanip : FeatureDiscovery := ⟨[(rv64, .fromIsa 100), ("zba".toList, .fromIsa 0)], by decide⟩

theorem enabled_bitmanip {name : FeatureName} (henabled : bitmanip.isFeatureEnabled name = true) :
    name = rv64 ∨ name = "zba".toList := by
  have hmem : name ∈ [rv64, "zba".toList] := mem_listFeatures henabled
  simpa only [List.mem_cons, List.not_mem_nil, or_false] using hmem

theorem unprivileged_bitmanip : bitmanip.Unprivileged := by
  refine ⟨.inr (by decide), fun name henabled => ?_⟩
  rcases enabled_bitmanip henabled with rfl | rfl
  · exact .inr (.inl rfl)
  · exact .inr (.inr (.inr (by decide)))

theorem readBack_iff_bitmanip : bitmanip.ReadBack := by
  refine (readBack_iff unprivileged_bitmanip).mpr ⟨by decide, fun name _ henabled => ?_⟩
  rcases enabled_bitmanip henabled with rfl | rfl
  · decide
  · decide

/-- The base with the integer instructions. -/
def integers : FeatureDiscovery := ⟨[(rv64, .fromIsa 100), ("i".toList, .fromIsa 100)], by decide⟩

/-- Its string is `rv64i`, of which nothing is read. -/
theorem not_readBack_integers :
    integers.Unprivileged ∧ integers.getCompilerMarchString = "rv64i".toList ∧ ¬ integers.ReadBack := by
  have hunprivileged : integers.Unprivileged := by
    refine ⟨.inr (by decide), fun name henabled => ?_⟩
    have hmem : name ∈ [rv64, "i".toList] := mem_listFeatures henabled
    simp only [List.mem_cons, List.not_mem_nil, or_false] at hmem
    rcases hmem with rfl | rfl
    · exact .inr (.inl rfl)
    · exact .inr (.inr (.inl (by decide)))
  refine ⟨hunprivileged, by decide, fun hread => ?_⟩
  have henabled : integers.isFeatureEnabled "i".toList = false :=
    (hunprivileged.separable hread.string).letters _ (by decide)
  exact absurd henabled (by decide)

end FeatureDiscovery
end Riescue
