import Riescue.DirectiveArgs
import Mathlib

/-! The `;#pma_hint` directive, `Parser.parse_pma_hint` with `_parse_list`, `_parse_combinations` and `_parse_combo_dict`. Its
arguments are atoms, lists of atoms and lists of dictionaries; whatever blanks stand between them, they are read back. -/

namespace Riescue.PmaHint
open AssemblyWriter (isSpace startsWith strip)
open DirectiveArgs

/-! ### Lists -/

/-- The local variables of the loops that split at commas outside of brackets. -/
structure ItemScan where
  items : List Text
  current : Text
  depth : ℤ

def ItemScan.step (opening closing : Text) (s : ItemScan) (char : Char) : ItemScan :=
  if char ∈ opening then { s with depth := s.depth + 1, current := s.current ++ [char] }
  else if char ∈ closing then { s with depth := s.depth - 1, current := s.current ++ [char] }
  else if char = ',' ∧ s.depth = 0 then { s with items := s.items ++ [strip s.current], current := [] }
  else { s with current := s.current ++ [char] }

/-- The items behind the loop, which forgets an empty last one. -/
def ItemScan.result (s : ItemScan) : List Text := if s.current = [] then s.items else s.items ++ [strip s.current]

def splitItems (opening closing value : Text) : List Text :=
  (value.foldl (ItemScan.step opening closing) ⟨[], [], 0⟩).result

def startsWithChar (char : Char) (text : Text) : Bool := text.head? == some char

def endsWithChar (char : Char) (text : Text) : Bool := text.getLast? == some char

/-- `value[1:-1].strip()` -/
def inside (value : Text) : Text := strip (value.drop 1).dropLast

/-- `_parse_list` -/
def parseList (value : Text) : List Text :=
  let value := strip value
  if startsWithChar '[' value && endsWithChar ']' value then
    if inside value = [] then [] else splitItems ['['] [']'] (inside value)
  else [value]

/-- The pairs of `_parse_combo_dict` one after the other: what has no sign is left out. -/
def setPair (combo : List (Text × Text)) (pair : Text) : List (Text × Text) :=
  if '=' ∈ pair then
    OrderedDict.insert combo (strip (pair.takeWhile (· ≠ '='))) (strip ((pair.dropWhile (· ≠ '=')).drop 1))
  else combo

/-- `_parse_combo_dict` -/
def parseComboDict (comboStr : Text) : List (Text × Text) :=
  let comboStr := strip comboStr
  if startsWithChar '\x7b' comboStr && endsWithChar '\x7d' comboStr then
    if inside comboStr = [] then [] else (splitItems "[\x7b".toList "]\x7d".toList (inside comboStr)).foldl setPair []
  else []

/-- The local variables of the loop in `_parse_combinations`. -/
structure CombinationScan where
  combinations : List (List (Text × Text))
  current : Text
  depth : ℤ

def CombinationScan.step (s : CombinationScan) (char : Char) : CombinationScan :=
  if char = '\x7b' then { s with depth := s.depth + 1, current := s.current ++ [char] }
  else if char = '\x7d' then
    if s.depth - 1 = 0 then
      let combo := parseComboDict (s.current ++ [char])
      { combinations := if combo = [] then s.combinations else s.combinations ++ [combo], current := [], depth := 0 }
    else { s with depth := s.depth - 1, current := s.current ++ [char] }
  else if s.depth = 0 ∧ char ∈ [',', ' ', '\t'] then s
  else { s with current := s.current ++ [char] }

/-- `_parse_combinations` -/
def parseCombinations (value : Text) : List (List (Text × Text)) :=
  let value := strip value
  if startsWithChar '[' value && endsWithChar ']' value then
    if inside value = [] then [] else ((inside value).foldl CombinationScan.step ⟨[], [], 0⟩).combinations
  else []

/-! ### Scalars -/

/-- `_parse_bool` -/
def parseBool (value : Text) : Bool :=
  (strip value).map Char.toLower ∈ ["true".toList, "1".toList, "yes".toList]

/-- The value of a digit or letter, `base` where it is none. -/
def digitValue (base : ℕ) (c : Char) : ℕ :=
  let n := if c.isDigit then c.toNat - 48 else if c.isAlpha then c.toLower.toNat - 87 else base
  min n base

/-- Digits of a base, with underscores between them. -/
def digitsBase (base : ℕ) (text : Text) : Option ℕ :=
  let groups := text.splitOn '_'
  if ∀ group ∈ groups, group ≠ [] ∧ ∀ c ∈ group, digitValue base c < base then
    some (groups.flatten.foldl (fun n c => n * base + digitValue base c) 0)
  else none

/-- An underscore may follow the prefix of a base. -/
def afterPrefix (base : ℕ) (text : Text) : Option ℕ :=
  match text with
  | '_' :: rest => digitsBase base rest
  | rest => digitsBase base rest

/-- The number behind the sign of `int(text, 0)`. -/
def unsigned (text : Text) : Option ℕ :=
  match text with
  | '0' :: letter :: rest =>
      if letter ∈ ['x', 'X'] then afterPrefix 16 rest
      else if letter ∈ ['o', 'O'] then afterPrefix 8 rest
      else if letter ∈ ['b', 'B'] then afterPrefix 2 rest
      else (digitsBase 10 ('0' :: letter :: rest)).filter (· = 0)
  | rest => digitsBase 10 rest

/-- `int(text, 0)` -/
def int0 (text : Text) : Option ℤ :=
  match strip text with
  | '-' :: rest => (unsigned rest).map fun n : ℕ => -(n : ℤ)
  | '+' :: rest => (unsigned rest).map fun n : ℕ => (n : ℤ)
  | rest => (unsigned rest).map fun n : ℕ => (n : ℤ)

/-! ### Hints -/

/-- `ParsedPmaHint` -/
structure ParsedPmaHint where
  name : Text := []
  combinations : List (List (Text × Text)) := []
  memoryTypes : List Text := []
  cacheability : List Text := []
  combining : List Text := []
  rwxCombos : List Text := []
  amoTypes : List Text := []
  routing : List Text := []
  adjacent : Bool := false
  minRegions : Option ℤ := none
  maxRegions : Option ℤ := none
  size : Option ℤ := none
  deriving DecidableEq, Repr

inductive PmaHintFault where
  | notANumber (text : Text)
  deriving DecidableEq, Repr

def parseNumber (value : Text) : Except PmaHintFault (Option ℤ) :=
  match int0 value with
  | some number => .ok (some number)
  | none => .error (.notANumber value)

/-- The keys of the fields that are lists of texts. -/
inductive ListKey where
  | memoryTypes | cacheability | combining | rwxCombos | amoTypes | routing
  deriving DecidableEq, Repr

inductive Key where
  | name
  | combinations
  | list (listKey : ListKey)
  | adjacent
  | minRegions
  | maxRegions
  | size
  deriving DecidableEq, Repr

def Key.text : Key → Text
  | .name => "name".toList
  | .combinations => "combinations".toList
  | .list .memoryTypes => "memory_types".toList
  | .list .cacheability => "cacheability".toList
  | .list .combining => "combining".toList
  | .list .rwxCombos => "rwx_combos".toList
  | .list .amoTypes => "amo_types".toList
  | .list .routing => "routing".toList
  | .adjacent => "adjacent".toList
  | .minRegions => "min_regions".toList
  | .maxRegions => "max_regions".toList
  | .size => "size".toList

/-- The keys in the order in which they are compared. -/
def Key.all : List Key :=
  [.name, .combinations, .list .memoryTypes, .list .cacheability, .list .combining, .list .rwxCombos, .list .amoTypes,
    .list .routing, .adjacent, .minRegions, .maxRegions, .size]

def Key.ofText (text : Text) : Option Key := Key.all.find? fun key => key.text = text

def ParsedPmaHint.list (hint : ParsedPmaHint) : ListKey → List Text
  | .memoryTypes => hint.memoryTypes
  | .cacheability => hint.cacheability
  | .combining => hint.combining
  | .rwxCombos => hint.rwxCombos
  | .amoTypes => hint.amoTypes
  | .routing => hint.routing

def ParsedPmaHint.setList (hint : ParsedPmaHint) (texts : List Text) : ListKey → ParsedPmaHint
  | .memoryTypes => { hint with memoryTypes := texts }
  | .cacheability => { hint with cacheability := texts }
  | .combining => { hint with combining := texts }
  | .rwxCombos => { hint with rwxCombos := texts }
  | .amoTypes => { hint with amoTypes := texts }
  | .routing => { hint with routing := texts }

/-- One argument of the directive; unknown keys are ignored. -/
def setArg (hint : ParsedPmaHint) (arg : Text × Text) : Except PmaHintFault ParsedPmaHint :=
  match Key.ofText arg.1 with
  | none => .ok hint
  | some .name => .ok { hint with name := arg.2 }
  | some .combinations => .ok { hint with combinations := parseCombinations arg.2 }
  | some (.list listKey) => .ok (hint.setList (parseList arg.2) listKey)
  | some .adjacent => .ok { hint with adjacent := parseBool arg.2 }
  | some .minRegions => (fun number => { hint with minRegions := number }) <$> parseNumber arg.2
  | some .maxRegions => (fun number => { hint with maxRegions := number }) <$> parseNumber arg.2
  | some .size => (fun number => { hint with size := number }) <$> parseNumber arg.2

/-- The arguments of a line, none where the line does not match. -/
def pmaHintArgs (line : Text) : List (Text × Text) :=
  match content ";#pma_hint(" line with
  | none => []
  | some argsStr => parseDirectiveArgs argsStr

/-- `parse_pma_hint`: the hint goes to the pool under its name; a hint without a name is skipped with a warning. -/
def parsePmaHint (line : Text) (hints : List (Text × ParsedPmaHint)) : Except PmaHintFault (List (Text × ParsedPmaHint)) :=
  match content ";#pma_hint(" line with
  | none => .ok hints
  | some _ => do
      let hint ← (pmaHintArgs line).foldlM setArg {}
      if hint.name = [] then .ok hints else .ok (OrderedDict.insert hints hint.name hint)

/-! ### Printed arguments -/

abbrev Atom := { text : Text // IsWord text }

/-- A dictionary, with pairwise different keys. -/
structure Dict where
  entries : List (Text × Text)
  words : ∀ entry ∈ entries, IsWord entry.1 ∧ IsWord entry.2
  nodup : (entries.map Prod.fst).Nodup

inductive Value where
  | atom (atom : Atom)
  | list (items : List Atom)
  | dicts (dicts : List Dict)

/-- `{k1=v1, k2=v2}`, with any blanks around the commas and signs. -/
def PrintsDict (dict : Dict) (text : Text) : Prop :=
  ∃ inner, Separated.Printed isSpace ',' (PrintsPair fun value text => text = value) dict.entries inner ∧
    text = '\x7b' :: inner ++ ['\x7d']

def PrintsValue (value : Value) (text : Text) : Prop :=
  match value with
  | .atom atom => text = atom.val
  | .list items => ∃ inner, Separated.Printed isSpace ',' (fun item text => text = item.val) items inner ∧ '\n' ∉ inner ∧
      text = '[' :: inner ++ [']']
  | .dicts dicts => ∃ inner, Separated.Printed isSpace ',' PrintsDict dicts inner ∧ '\n' ∉ inner ∧ text = '[' :: inner ++ [']']

/-- The line with the arguments, with any blanks around the commas and equal signs. -/
def PrintsLine (args : List (Atom × Value)) (line : Text) : Prop :=
  ∃ text, Separated.Printed isSpace ',' (PrintsPair PrintsValue) (args.map fun arg => (arg.1.val, arg.2)) text ∧ '\n' ∉ text ∧
    line = ";#pma_hint(".toList ++ (text ++ [')'])

/-- The value is read back from its text; dictionaries without entries are left out. -/
def Reads (value : Value) (text : Text) : Prop :=
  match value with
  | .atom atom => text = atom.val ∧ parseList text = [atom.val]
  | .list items => parseList text = items.map Subtype.val
  | .dicts dicts => parseCombinations text = (dicts.map Dict.entries).filter (· ≠ [])

/-! ### Split items -/

section Items
variable {β : Type} {P : β → Text → Prop} {opening closing : Text}

/-- The text neither opens nor closes a bracket, and has no comma. -/
def IsFlat (opening closing text : Text) : Prop := ∀ c ∈ text, c ∉ opening ∧ c ∉ closing ∧ c ≠ ','

theorem foldl_flat {text : Text} (htext : IsFlat opening closing text) (s : ItemScan) :
    text.foldl (ItemScan.step opening closing) s = { s with current := s.current ++ text } := by
  induction text generalizing s with
  | nil => rw [List.append_nil]; rfl
  | cons c text ih =>
      obtain ⟨⟨hopening, hclosing, hcomma⟩, hrest⟩ := List.forall_mem_cons.mp htext
      have hstep : ItemScan.step opening closing s c = { s with current := s.current ++ [c] } := by
        rw [ItemScan.step, if_neg hopening, if_neg hclosing, if_neg fun h => hcomma h.1]
      rw [List.foldl_cons, hstep, ih hrest, List.append_assoc]
      rfl

theorem step_itemComma (hcomma : ',' ∉ opening ∧ ',' ∉ closing) (items : List Text) (current : Text) :
    ItemScan.step opening closing ⟨items, current, 0⟩ ',' = ⟨items ++ [strip current], [], 0⟩ := by
  rw [ItemScan.step, if_neg hcomma.1, if_neg hcomma.2, if_pos ⟨rfl, rfl⟩]

/-- Printed items are split again. -/
theorem result_printed {xs : List β} {text : Text} (hprinted : Separated.Printed isSpace ',' P xs text)
    (hcomma : ',' ∉ opening ∧ ',' ∉ closing) (hblank : ∀ c, isSpace c = true → c ∉ opening ∧ c ∉ closing ∧ c ≠ ',')
    (hcores : ∀ x ∈ xs, ∀ core, P x core → Trimmed core ∧ core ≠ [] ∧ IsFlat opening closing core) (items : List Text) :
    ∃ cores, List.Forall₂ P xs cores ∧
      (text.foldl (ItemScan.step opening closing) ⟨items, [], 0⟩).result = items ++ cores := by
  have hflat : ∀ {x core piece}, x ∈ xs → P x core → Around core piece → IsFlat opening closing piece := by
    intro x core piece hx hcore hpiece c hc
    exact (hpiece.mem hc).elim (hblank c) fun hmem => (hcores x hx core hcore).2.2 c hmem
  induction hprinted generalizing items with
  | nil => exact ⟨[], .nil, (List.append_nil items).symm⟩
  | @single x core piece hcore hpiece =>
      obtain ⟨htrimmed, hne, -⟩ := hcores x List.mem_cons_self core hcore
      refine ⟨[core], .cons hcore .nil, ?_⟩
      rw [foldl_flat (hflat List.mem_cons_self hcore hpiece), ItemScan.result, List.nil_append, if_neg (hpiece.ne_nil hne),
        Around.strip hpiece htrimmed hne]
  | @cons x y ys core piece rest hcore hpiece _ ih =>
      obtain ⟨htrimmed, hne, -⟩ := hcores x List.mem_cons_self core hcore
      obtain ⟨cores, hforall, hresult⟩ := ih (fun x hx => hcores x (List.mem_cons_of_mem _ hx))
        (items ++ [core]) fun hx => hflat (List.mem_cons_of_mem _ hx)
      refine ⟨core :: cores, .cons hcore hforall, ?_⟩
      rw [List.foldl_append, foldl_flat (hflat List.mem_cons_self hcore hpiece), List.foldl_cons]
      dsimp only
      rw [List.nil_append, step_itemComma hcomma, Around.strip hpiece htrimmed hne, hresult, List.append_assoc]
      rfl

theorem splitItems_nil (opening closing : Text) : splitItems opening closing [] = [] := rfl

/-- The items of a bracketed list, with the blanks at its ends stripped. -/
theorem splitItems_strip {xs : List β} {text : Text} (hprinted : Separated.Printed isSpace ',' P xs text)
    (hcomma : ',' ∉ opening ∧ ',' ∉ closing) (hblank : ∀ c, isSpace c = true → c ∉ opening ∧ c ∉ closing ∧ c ≠ ',')
    (hcores : ∀ x ∈ xs, ∀ core, P x core → Trimmed core ∧ core ≠ [] ∧ IsFlat opening closing core) :
    ∃ cores, List.Forall₂ P xs cores ∧ splitItems opening closing (strip text) = cores := by
  have htrim := hprinted.trim (fun x hx core hcore => ⟨(hcores x hx core hcore).1, (hcores x hx core hcore).2.1⟩) (by decide)
  exact result_printed htrim hcomma hblank hcores []

end Items

theorem blank_not_mem {chars : Text} (hchars : chars.all (fun c => !isSpace c) = true) {c : Char} (hc : isSpace c = true) :
    c ∉ chars := by
  intro hmem
  have hnot := List.all_eq_true.mp hchars c hmem
  rw [hc] at hnot
  exact absurd hnot (by decide)

theorem word_not_mem {text chars : Text} (htext : IsWord text) (hchars : chars ⊆ special) {c : Char} (hc : c ∈ text) :
    c ∉ chars := fun hmem => of_decide_eq_true (htext.mem hc).1 (hchars hmem)

/-- The value between brackets. -/
theorem inside_brackets (first last : Char) (inner : Text) : inside (first :: inner ++ [last]) = strip inner := by
  rw [inside, List.cons_append, List.drop_one, List.tail_cons, List.dropLast_concat]

theorem brackets_ends {first last : Char} (inner : Text) :
    startsWithChar first (first :: inner ++ [last]) = true ∧ endsWithChar last (first :: inner ++ [last]) = true := by
  rw [startsWithChar, endsWithChar, List.getLast?_concat]
  exact ⟨beq_self_eq_true _, beq_self_eq_true _⟩

theorem brackets_trimmed {first last : Char} (hfirst : isSpace first = false) (hlast : isSpace last = false) (inner : Text) :
    Trimmed (first :: inner ++ [last]) ∧ first :: inner ++ [last] ≠ [] := by
  have hends : ∀ c, isSpace c = false → Trimmed [c] := fun c hc => Separated.Trimmed.of_forall (List.forall_mem_singleton.mpr hc)
  exact ⟨@Separated.Trimmed.append _ _ [first] [last] (hends first hfirst) (hends last hlast) nofun nofun inner, nofun⟩

theorem forall₂_val {items : List Atom} {cores : List Text} (h : List.Forall₂ (fun item text => text = item.val) items cores) :
    cores = items.map Subtype.val := by
  induction h with
  | nil => rfl
  | cons hx _ ih => rw [hx, ih, List.map_cons]

/-- A printed list of atoms is read back. -/
theorem parseList_printed {items : List Atom} {inner : Text}
    (hprinted : Separated.Printed isSpace ',' (fun item text => text = item.val) items inner) :
    parseList ('[' :: inner ++ [']']) = items.map Subtype.val := by
  obtain ⟨htrimmed, -⟩ := @brackets_trimmed '[' ']' (by decide) (by decide) inner
  obtain ⟨hstart, hend⟩ := @brackets_ends '[' ']' inner
  obtain ⟨cores, hcores, hsplit⟩ := @splitItems_strip _ _ ['['] [']'] _ _ hprinted (by decide)
    (fun c hc => ⟨blank_not_mem (by decide) hc, blank_not_mem (by decide) hc, by rintro rfl; exact absurd hc (by decide)⟩) <| by
      rintro item - _ rfl
      refine ⟨item.2.trimmed, item.2.1, fun c hc => ⟨word_not_mem item.2 (by decide) hc, word_not_mem item.2 (by decide) hc, ?_⟩⟩
      rintro rfl
      exact word_not_mem item.2 (by decide : [','] ⊆ special) hc (List.mem_singleton_self _)
  rw [parseList, htrimmed.strip, hstart, hend, inside_brackets, Bool.and_self, if_pos rfl, hsplit, forall₂_val hcores]
  split_ifs with hnil
  · rw [hnil, splitItems_nil] at hsplit
    rw [← forall₂_val hcores, ← hsplit]
  · rfl

/-! ### Dictionaries -/

theorem takeWhile_key {key before rest : Text} (hkey : '=' ∉ key) (hbefore : '=' ∉ before) :
    (key ++ before ++ '=' :: rest).takeWhile (· ≠ '=') = key ++ before ∧
      (key ++ before ++ '=' :: rest).dropWhile (· ≠ '=') = '=' :: rest := by
  have hall : ∀ c ∈ key ++ before, decide (c ≠ '=') = true := by
    intro c hc
    refine decide_eq_true ?_
    rintro rfl
    exact (List.mem_append.mp hc).elim hkey hbefore
  constructor
  · rw [List.takeWhile_append_of_pos hall, List.takeWhile_cons_of_neg (by decide), List.append_nil]
  · rw [List.dropWhile_append_of_pos hall, List.dropWhile_cons_of_neg (by decide)]

abbrev PrintsEntry (entry : Text × Text) (text : Text) : Prop := PrintsPair (fun value text => text = value) entry text

/-- A printed entry is set again. -/
theorem setPair_printed {entry : Text × Text} {text : Text} (hentry : PrintsEntry entry text) (hkey : IsWord entry.1)
    (hvalue : IsWord entry.2) (combo : List (Text × Text)) :
    setPair combo text = OrderedDict.insert combo entry.1 entry.2 := by
  obtain ⟨before, after, _, hbefore, hafter, rfl, rfl⟩ := hentry
  have hnot : '=' ∉ entry.1 := fun hmem => word_not_mem hkey (by decide : ['='] ⊆ special) hmem (List.mem_singleton_self _)
  have hnot' : '=' ∉ before := fun hmem => absurd (hbefore _ hmem) (by decide)
  obtain ⟨htake, hdrop⟩ := @takeWhile_key entry.1 before (after ++ entry.2) hnot hnot'
  have hkeyAround : Around entry.1 (entry.1 ++ before) := ⟨[], before, Separated.blanks_nil, hbefore, rfl⟩
  have hvalueAround : Around entry.2 (after ++ entry.2) :=
    ⟨after, [], hafter, Separated.blanks_nil, (List.append_nil _).symm⟩
  rw [setPair, if_pos (List.mem_append_right _ List.mem_cons_self), htake, hdrop, List.drop_one, List.tail_cons,
    hkeyAround.strip hkey.trimmed hkey.1, hvalueAround.strip hvalue.trimmed hvalue.1]

theorem foldl_setPair {entries : List (Text × Text)} {cores : List Text} (hcores : List.Forall₂ PrintsEntry entries cores)
    (hwords : ∀ entry ∈ entries, IsWord entry.1 ∧ IsWord entry.2) (combo : List (Text × Text)) :
    cores.foldl setPair combo = OrderedDict.assign combo entries := by
  induction hcores generalizing combo with
  | nil => rfl
  | @cons entry core entries cores hcore _ ih =>
      obtain ⟨⟨hkey, hvalue⟩, hrest⟩ := List.forall_mem_cons.mp hwords
      rw [List.foldl_cons, setPair_printed hcore hkey hvalue, ih hrest]
      rfl

/-- What stands in an entry: blanks, its sign and the characters of its words. -/
theorem mem_printsEntry {entry : Text × Text} {text : Text} (hentry : PrintsEntry entry text) (hkey : IsWord entry.1)
    (hvalue : IsWord entry.2) {c : Char} (hc : c ∈ text) : isSpace c = true ∨ c = '=' ∨ isPlain c = true := by
  obtain ⟨before, after, _, hbefore, hafter, rfl, rfl⟩ := hentry
  rw [List.mem_append, List.mem_append, List.mem_cons, List.mem_append] at hc
  rcases hc with (hc | hc) | rfl | hc | hc
  · exact .inr (.inr (hkey.mem hc).1)
  · exact .inl (hbefore c hc)
  · exact .inr (.inl rfl)
  · exact .inl (hafter c hc)
  · exact .inr (.inr (hvalue.mem hc).1)

theorem printsEntry_flat {entry : Text × Text} {text : Text} (hentry : PrintsEntry entry text) (hkey : IsWord entry.1)
    (hvalue : IsWord entry.2) : IsFlat "[\x7b".toList "]\x7d".toList text := by
  intro c hc
  rcases mem_printsEntry hentry hkey hvalue hc with h | rfl | h
  · exact ⟨blank_not_mem (by decide) h, blank_not_mem (by decide) h, by rintro rfl; exact absurd h (by decide)⟩
  · exact ⟨by decide, by decide, by decide⟩
  · have hnot : ∀ chars : Text, chars ⊆ special → c ∉ chars := fun chars hchars hmem => of_decide_eq_true h (hchars hmem)
    exact ⟨hnot _ (by decide), hnot _ (by decide), fun heq => hnot [','] (by decide) (heq ▸ List.mem_singleton_self _)⟩

/-- A dictionary is read back from its text, with blanks around it. -/
theorem parseComboDict_printed {dict : Dict} {core text : Text} (hcore : PrintsDict dict core) (htext : Around core text) :
    parseComboDict text = dict.entries := by
  obtain ⟨inner, hprinted, rfl⟩ := hcore
  obtain ⟨htrimmed, hne⟩ := @brackets_trimmed '\x7b' '\x7d' (by decide) (by decide) inner
  obtain ⟨hstart, hend⟩ := @brackets_ends '\x7b' '\x7d' inner
  obtain ⟨cores, hcores, hsplit⟩ := @splitItems_strip _ _ "[\x7b".toList "]\x7d".toList _ _ hprinted (by decide)
    (fun c hc => ⟨blank_not_mem (by decide) hc, blank_not_mem (by decide) hc, by rintro rfl; exact absurd hc (by decide)⟩) <| by
      intro entry hentry core hcore
      obtain ⟨hkey, hvalue⟩ := dict.words entry hentry
      obtain ⟨htrimmed, hne⟩ := hcore.trimmed hkey (by rintro _ rfl; exact ⟨hvalue.trimmed, hvalue.1⟩)
      exact ⟨htrimmed, hne, printsEntry_flat hcore hkey hvalue⟩
  have hassign := foldl_setPair hcores dict.words []
  rw [OrderedDict.assign_eq_append dict.nodup, List.nil_append] at hassign
  rw [parseComboDict, htext.strip htrimmed hne, hstart, hend, inside_brackets, Bool.and_self, if_pos rfl, hsplit, hassign]
  split_ifs with hnil
  · rw [hnil, splitItems_nil] at hsplit
    rw [← hassign, ← hsplit]
    rfl
  · rfl

/-! ### Lists of dictionaries -/

/-- Between dictionaries the scan skips commas and keeps at most blanks. -/
theorem foldl_blanks {text : Text} (htext : Separated.Blanks isSpace text) {combinations : List (List (Text × Text))}
    {current : Text} (hcurrent : Separated.Blanks isSpace current) :
    ∃ current', Separated.Blanks isSpace current' ∧
      text.foldl CombinationScan.step ⟨combinations, current, 0⟩ = ⟨combinations, current', 0⟩ := by
  induction text generalizing current with
  | nil => exact ⟨current, hcurrent, rfl⟩
  | cons c text ih =>
      obtain ⟨hc, hrest⟩ := List.forall_mem_cons.mp htext
      have hopen : c ≠ '\x7b' := by
        rintro rfl
        exact absurd hc (by decide)
      have hclose : c ≠ '\x7d' := by
        rintro rfl
        exact absurd hc (by decide)
      by_cases hskip : c ∈ [',', ' ', '\t']
      · have hstep : CombinationScan.step ⟨combinations, current, 0⟩ c = ⟨combinations, current, 0⟩ := by
          rw [CombinationScan.step, if_neg hopen, if_neg hclose, if_pos ⟨rfl, hskip⟩]
        rw [List.foldl_cons, hstep]
        exact ih hrest hcurrent
      · have hstep : CombinationScan.step ⟨combinations, current, 0⟩ c = ⟨combinations, current ++ [c], 0⟩ := by
          rw [CombinationScan.step, if_neg hopen, if_neg hclose, if_neg fun h => hskip h.2]
        rw [List.foldl_cons, hstep]
        exact ih hrest (List.forall_mem_append.mpr ⟨hcurrent, List.forall_mem_singleton.mpr hc⟩)

/-- The entries of a dictionary are taken over up to its closing brace. -/
theorem foldl_inside {text : Text} (htext : ∀ c ∈ text, c ≠ '\x7b' ∧ c ≠ '\x7d') (combinations : List (List (Text × Text)))
    (current : Text) : text.foldl CombinationScan.step ⟨combinations, current, 1⟩ = ⟨combinations, current ++ text, 1⟩ := by
  induction text generalizing current with
  | nil => rw [List.append_nil]; rfl
  | cons c text ih =>
      obtain ⟨⟨hopen, hclose⟩, hrest⟩ := List.forall_mem_cons.mp htext
      have hstep : CombinationScan.step ⟨combinations, current, 1⟩ c = ⟨combinations, current ++ [c], 1⟩ := by
        rw [CombinationScan.step, if_neg hopen, if_neg hclose, if_neg fun h => absurd h.1 (by decide : (1 : ℤ) ≠ 0)]
      rw [List.foldl_cons, hstep, ih hrest, List.append_assoc]
      rfl

def keepNonempty (combo : List (Text × Text)) : List (List (Text × Text)) := if combo = [] then [] else [combo]

theorem printsDict_inner {dict : Dict} {inner : Text}
    (hprinted : Separated.Printed isSpace ',' PrintsEntry dict.entries inner) : ∀ c ∈ inner, c ≠ '\x7b' ∧ c ≠ '\x7d' := by
  have hbrace : ∀ c, isSpace c = true ∨ c = ',' ∨ c = '=' ∨ isPlain c = true → c ≠ '\x7b' ∧ c ≠ '\x7d' := by
    rintro c h
    constructor
    · rintro rfl
      exact absurd h (by decide)
    · rintro rfl
      exact absurd h (by decide)
  intro c hc
  rcases hprinted.mem hc with h | h | ⟨entry, hentry, core, hcore, hmem⟩
  · exact hbrace c (.inl h)
  · exact hbrace c (.inr (.inl h))
  · obtain ⟨hkey, hvalue⟩ := dict.words entry hentry
    exact hbrace c ((mem_printsEntry hcore hkey hvalue hmem).imp_right .inr)

/-- The scan of a dictionary with the blanks around it. -/
theorem foldl_dict {dict : Dict} {core piece : Text} (hcore : PrintsDict dict core) (hpiece : Around core piece)
    (combinations : List (List (Text × Text))) {current : Text} (hcurrent : Separated.Blanks isSpace current) :
    ∃ current', Separated.Blanks isSpace current' ∧ piece.foldl CombinationScan.step ⟨combinations, current, 0⟩ =
      ⟨combinations ++ keepNonempty dict.entries, current', 0⟩ := by
  obtain ⟨before, after, hbefore, hafter, rfl⟩ := hpiece
  obtain ⟨blanks, hblanks, hfront⟩ := @foldl_blanks before hbefore combinations current hcurrent
  obtain ⟨inner, hprinted, heq⟩ := hcore
  have hopen : CombinationScan.step ⟨combinations, blanks, 0⟩ '\x7b' = ⟨combinations, blanks ++ ['\x7b'], 1⟩ := rfl
  have hcombo : parseComboDict (blanks ++ ['\x7b'] ++ inner ++ ['\x7d']) = dict.entries := by
    refine parseComboDict_printed ⟨inner, hprinted, rfl⟩ ⟨blanks, [], hblanks, Separated.blanks_nil, ?_⟩
    simp only [List.append_assoc, List.cons_append, List.append_nil, List.nil_append]
  have hclose : CombinationScan.step ⟨combinations, blanks ++ ['\x7b'] ++ inner, 1⟩ '\x7d' =
      ⟨combinations ++ keepNonempty dict.entries, [], 0⟩ := by
    rw [CombinationScan.step, if_neg (by decide), if_pos rfl, if_pos (by exact Int.sub_self 1)]
    dsimp only
    rw [hcombo, keepNonempty]
    split_ifs
    · rw [List.append_nil]
    · rfl
  obtain ⟨current', hcurrent', hback⟩ := @foldl_blanks after hafter (combinations ++ keepNonempty dict.entries) []
    Separated.blanks_nil
  refine ⟨current', hcurrent', ?_⟩
  calc (before ++ core ++ after).foldl CombinationScan.step ⟨combinations, current, 0⟩
    _ = after.foldl CombinationScan.step (core.foldl CombinationScan.step ⟨combinations, blanks, 0⟩) := by
        rw [List.foldl_append, List.foldl_append, hfront]
    _ = after.foldl CombinationScan.step (CombinationScan.step
          (inner.foldl CombinationScan.step ⟨combinations, blanks ++ ['\x7b'], 1⟩) '\x7d') := by
        rw [heq, List.foldl_append, ← hopen]
        rfl
    _ = ⟨combinations ++ keepNonempty dict.entries, current', 0⟩ := by
        rw [foldl_inside (printsDict_inner hprinted), hclose, hback]

theorem foldl_dicts {dicts : List Dict} {text : Text} (hprinted : Separated.Printed isSpace ',' PrintsDict dicts text)
    (combinations : List (List (Text × Text))) {current : Text} (hcurrent : Separated.Blanks isSpace current) :
    (text.foldl CombinationScan.step ⟨combinations, current, 0⟩).combinations =
      combinations ++ (dicts.map Dict.entries).flatMap keepNonempty := by
  induction hprinted generalizing combinations current with
  | nil => exact (List.append_nil combinations).symm
  | @single dict core piece hcore hpiece =>
      obtain ⟨current', -, hfold⟩ := foldl_dict hcore hpiece combinations hcurrent
      rw [hfold, List.map_singleton, List.flatMap_singleton]
  | @cons dict next dicts core piece rest hcore hpiece _ ih =>
      obtain ⟨current', hcurrent', hfold⟩ := foldl_dict hcore hpiece combinations hcurrent
      have hcomma : CombinationScan.step ⟨combinations ++ keepNonempty dict.entries, current', 0⟩ ',' =
          ⟨combinations ++ keepNonempty dict.entries, current', 0⟩ := rfl
      rw [List.foldl_append, hfold, List.foldl_cons, hcomma, ih _ hcurrent', List.append_assoc]
      rfl

theorem flatMap_keepNonempty (combos : List (List (Text × Text))) :
    combos.flatMap keepNonempty = combos.filter (· ≠ []) := by
  induction combos with
  | nil => rfl
  | cons combo combos ih =>
      rw [List.flatMap_cons, ih, keepNonempty]
      by_cases hnil : combo = []
      · rw [if_pos hnil, List.filter_cons_of_neg (by simp [hnil]), List.nil_append]
      · rw [if_neg hnil, List.filter_cons_of_pos (by simp [hnil]), List.singleton_append]

/-- A printed list of dictionaries is read back, up to those without entries. -/
theorem parseCombinations_printed {dicts : List Dict} {inner : Text}
    (hprinted : Separated.Printed isSpace ',' PrintsDict dicts inner) :
    parseCombinations ('[' :: inner ++ [']']) = (dicts.map Dict.entries).filter (· ≠ []) := by
  obtain ⟨htrimmed, -⟩ := @brackets_trimmed '[' ']' (by decide) (by decide) inner
  obtain ⟨hstart, hend⟩ := @brackets_ends '[' ']' inner
  have htrim := hprinted.trim (by
    rintro dict - core ⟨inner', -, rfl⟩
    exact brackets_trimmed (by decide) (by decide) inner') (by decide)
  have hfold := foldl_dicts htrim [] Separated.blanks_nil
  rw [List.nil_append, flatMap_keepNonempty] at hfold
  rw [parseCombinations, htrimmed.strip, hstart, hend, inside_brackets, Bool.and_self, if_pos rfl, strip_eq]
  split_ifs with hnil
  · rw [← hfold, hnil]
    rfl
  · exact hfold

/-! ### Values -/

theorem isInner_of_entry {c : Char} (hc : isSpace c = true ∨ c = '=' ∨ isPlain c = true) : isInner c = true := by
  rcases hc with h | rfl | h
  · exact isInner_of_isSpace h
  · decide
  · exact isInner_of_isPlain h

theorem printsDict_inside {dict : Dict} {text : Text} (h : PrintsDict dict text) : Inside text := by
  obtain ⟨inner, hprinted, rfl⟩ := h
  refine inside_braces (inside_of_inner fun c hc => ?_)
  rcases hprinted.mem hc with h | rfl | ⟨entry, hentry, core, hcore, hmem⟩
  · exact isInner_of_isSpace h
  · decide
  · obtain ⟨hkey, hvalue⟩ := dict.words entry hentry
    exact isInner_of_entry (mem_printsEntry hcore hkey hvalue hmem)

theorem around_inside {core text : Text} (h : Around core text) (hcore : Inside core) : Inside text := by
  obtain ⟨before, after, hbefore, hafter, rfl⟩ := h
  exact ((inside_of_inner fun c hc => isInner_of_isSpace (hbefore c hc)).append hcore).append
    (inside_of_inner fun c hc => isInner_of_isSpace (hafter c hc))

theorem dicts_inside {dicts : List Dict} {text : Text} (h : Separated.Printed isSpace ',' PrintsDict dicts text) :
    Inside text := by
  induction h with
  | nil => exact inside_of_inner nofun
  | single hcore hpiece => exact around_inside hpiece (printsDict_inside hcore)
  | @cons _ _ _ core piece rest hcore hpiece _ ih =>
      have hcomma : Inside [','] := inside_of_inner (List.forall_mem_singleton.mpr (by decide))
      exact (around_inside hpiece (printsDict_inside hcore)).append (hcomma.append ih)

theorem items_inside {items : List Atom} {text : Text}
    (h : Separated.Printed isSpace ',' (fun item text => text = item.val) items text) : Inside text := by
  refine inside_of_inner fun c hc => ?_
  rcases h.mem hc with h | rfl | ⟨item, -, _, rfl, hmem⟩
  · exact isInner_of_isSpace h
  · decide
  · exact isInner_of_isPlain (item.2.mem hmem).1

theorem brackets_isValue {inner : Text} (hinner : Inside inner) (hline : '\n' ∉ inner) : IsValue ('[' :: inner ++ [']']) where
  inert := inert_brackets hinner
  trimmed := (brackets_trimmed (by decide) (by decide) inner).1
  nonempty := nofun
  line := by
    rw [List.mem_append, List.mem_cons, List.mem_singleton, not_or, not_or]
    exact ⟨⟨by decide, hline⟩, by decide⟩

theorem printsValue_isValue {value : Value} {text : Text} (h : PrintsValue value text) : IsValue text := by
  cases value with
  | atom atom =>
      obtain rfl : text = atom.val := h
      exact atom.2.isValue
  | list items =>
      obtain ⟨inner, hprinted, hline, rfl⟩ := h
      exact brackets_isValue (items_inside hprinted) hline
  | dicts dicts =>
      obtain ⟨inner, hprinted, hline, rfl⟩ := h
      exact brackets_isValue (dicts_inside hprinted) hline

theorem parseList_atom (atom : Atom) : parseList atom.val = [atom.val] := by
  have hstart : startsWithChar '[' atom.val = false := by
    rw [startsWithChar, beq_eq_false_iff_ne]
    intro hhead
    exact word_not_mem atom.2 (by decide : ['['] ⊆ special) (List.mem_of_mem_head? hhead) (List.mem_singleton_self _)
  rw [parseList, atom.2.trimmed.strip, hstart]
  rfl

/-- A printed value is read back. -/
theorem reads_of_prints {value : Value} {text : Text} (h : PrintsValue value text) : Reads value text := by
  cases value with
  | atom atom =>
      obtain rfl : text = atom.val := h
      exact ⟨rfl, parseList_atom atom⟩
  | list items =>
      obtain ⟨inner, hprinted, -, rfl⟩ := h
      exact parseList_printed hprinted
  | dicts dicts =>
      obtain ⟨inner, hprinted, -, rfl⟩ := h
      exact parseCombinations_printed hprinted

/-! ### Lines -/

/-- The arguments as a dictionary: of equal keys the last one gives the value. -/
def dictionary (args : List (Atom × Value)) : List (Text × Value) :=
  OrderedDict.assign [] (args.map fun arg => (arg.1.val, arg.2))

/-- The arguments of the line are read back: the keys in their order, and the value of each. -/
def ReadsBack (args : List (Atom × Value)) (line : Text) : Prop :=
  List.Forall₂ (fun pair arg => arg.1 = pair.1 ∧ Reads pair.2 arg.2) (dictionary args) (pmaHintArgs line)

theorem readsBack_of_prints {args : List (Atom × Value)} {line : Text} (h : PrintsLine args line) : ReadsBack args line := by
  obtain ⟨text, hprinted, hline, rfl⟩ := h
  have hwords : ∀ pair ∈ args.map fun arg => (arg.1.val, arg.2), IsWord pair.1 := by
    rintro pair hpair
    obtain ⟨arg, -, rfl⟩ := List.mem_map.mp hpair
    exact arg.1.2
  obtain ⟨raws, hraws, hparse⟩ := parseDirectiveArgs_printed hprinted hwords fun _ _ _ hprints => printsValue_isValue hprints
  have hargs : pmaHintArgs (";#pma_hint(".toList ++ (text ++ [')'])) = OrderedDict.assign [] raws := by
    by_cases hnil : text = []
    · subst hnil
      rw [← hparse]
      decide
    · unfold pmaHintArgs
      rw [content_line hnil hline]
      exact hparse
  rw [ReadsBack, hargs, dictionary]
  exact OrderedDict.forall₂_assign (hraws.imp fun pair raw h => ⟨h.1, reads_of_prints h.2⟩) .nil

/-! ### Fields of a hint -/

theorem ofText_eq {text : Text} {key : Key} : Key.ofText text = some key ↔ text = key.text := by
  constructor
  · intro h
    have htext := List.find?_some h
    exact (of_decide_eq_true htext).symm
  · rintro rfl
    cases key with
    | list listKey => cases listKey <;> decide
    | _ => decide

theorem parseNumber_ok {value : Text} {number : Option ℤ} (h : parseNumber value = .ok number) : number = int0 value := by
  unfold parseNumber at h
  cases hnumber : int0 value with
  | none =>
      rw [hnumber] at h
      cases h
  | some parsed =>
      rw [hnumber] at h
      exact (Except.ok.inj h).symm

/-- What one argument changes. -/
structure SetsFields (hint hint' : ParsedPmaHint) (key : Option Key) (value : Text) : Prop where
  name : hint'.name = if key = some .name then value else hint.name
  combinations : hint'.combinations = if key = some .combinations then parseCombinations value else hint.combinations
  list : ∀ listKey, hint'.list listKey = if key = some (.list listKey) then parseList value else hint.list listKey
  adjacent : hint'.adjacent = if key = some .adjacent then parseBool value else hint.adjacent
  minRegions : hint'.minRegions = if key = some .minRegions then int0 value else hint.minRegions
  maxRegions : hint'.maxRegions = if key = some .maxRegions then int0 value else hint.maxRegions
  size : hint'.size = if key = some .size then int0 value else hint.size

theorem setArg_ok {hint hint' : ParsedPmaHint} {arg : Text × Text} (h : setArg hint arg = .ok hint') :
    SetsFields hint hint' (Key.ofText arg.1) arg.2 := by
  unfold setArg at h
  cases hkey : Key.ofText arg.1 with
  | none =>
      rw [hkey] at h
      obtain rfl := Except.ok.inj h
      exact ⟨rfl, rfl, fun _ => rfl, rfl, rfl, rfl, rfl⟩
  | some key =>
      rw [hkey] at h
      cases key with
      | list set =>
          obtain rfl := Except.ok.inj h
          cases set <;> exact ⟨rfl, rfl, fun listKey => by cases listKey <;> rfl, rfl, rfl, rfl, rfl⟩
      | minRegions =>
          obtain ⟨number, hnumber, rfl⟩ := Fallible.map_ok h
          exact ⟨rfl, rfl, fun listKey => by cases listKey <;> rfl, rfl, parseNumber_ok hnumber, rfl, rfl⟩
      | maxRegions =>
          obtain ⟨number, hnumber, rfl⟩ := Fallible.map_ok h
          exact ⟨rfl, rfl, fun listKey => by cases listKey <;> rfl, rfl, rfl, parseNumber_ok hnumber, rfl⟩
      | size =>
          obtain ⟨number, hnumber, rfl⟩ := Fallible.map_ok h
          exact ⟨rfl, rfl, fun listKey => by cases listKey <;> rfl, rfl, rfl, rfl, parseNumber_ok hnumber⟩
      | _ =>
          obtain rfl := Except.ok.inj h
          exact ⟨rfl, rfl, fun listKey => by cases listKey <;> rfl, rfl, rfl, rfl, rfl⟩

/-- A field of the hint that one key alone sets has what the key says. -/
theorem foldlM_setArg {γ : Type} {field : ParsedPmaHint → γ} {key : Key} {read : Text → γ}
    (hset : ∀ hint arg hint', setArg hint arg = .ok hint' →
      field hint' = if Key.ofText arg.1 = some key then read arg.2 else field hint)
    {dict : List (Text × Text)} (hnodup : (dict.map Prod.fst).Nodup) {hint hint' : ParsedPmaHint}
    (hfold : dict.foldlM setArg hint = .ok hint') :
    field hint' = ((OrderedDict.get? dict key.text).map read).getD (field hint) := by
  induction dict generalizing hint with
  | nil =>
      obtain rfl := Except.ok.inj hfold
      rfl
  | cons arg rest ih =>
      rw [List.foldlM_cons] at hfold
      obtain ⟨hint₁, hstep, hrest⟩ := Fallible.bind_ok hfold
      rw [List.map_cons, List.nodup_cons] at hnodup
      rw [ih hnodup.2 hrest, hset hint arg hint₁ hstep, OrderedDict.get?]
      by_cases hkey : arg.1 = key.text
      · rw [if_pos hkey, if_pos (ofText_eq.mpr hkey), ← hkey, OrderedDict.get?_eq_none hnodup.1]
        rfl
      · rw [if_neg hkey, if_neg (mt ofText_eq.mp hkey)]

/-- The fields of the hint that the arguments of the line show. -/
structure Shows (args : List (Atom × Value)) (hint : ParsedPmaHint) : Prop where
  name : ∀ atom, (Key.name.text, .atom atom) ∈ dictionary args → hint.name = atom.val
  combinations : ∀ dicts, (Key.combinations.text, .dicts dicts) ∈ dictionary args →
    hint.combinations = (dicts.map Dict.entries).filter (· ≠ [])
  list : ∀ listKey items, ((Key.list listKey).text, .list items) ∈ dictionary args → hint.list listKey = items.map Subtype.val
  singleton : ∀ listKey atom, ((Key.list listKey).text, .atom atom) ∈ dictionary args → hint.list listKey = [atom.val]
  adjacent : ∀ atom, (Key.adjacent.text, .atom atom) ∈ dictionary args → hint.adjacent = parseBool atom.val
  minRegions : ∀ atom, (Key.minRegions.text, .atom atom) ∈ dictionary args → hint.minRegions = int0 atom.val
  maxRegions : ∀ atom, (Key.maxRegions.text, .atom atom) ∈ dictionary args → hint.maxRegions = int0 atom.val
  size : ∀ atom, (Key.size.text, .atom atom) ∈ dictionary args → hint.size = int0 atom.val

theorem dictionary_nodup (args : List (Atom × Value)) : ((dictionary args).map Prod.fst).Nodup :=
  OrderedDict.nodup_keys_assign List.nodup_nil

theorem keys_readsBack {args : List (Atom × Value)} {line : Text} (h : ReadsBack args line) :
    (pmaHintArgs line).map Prod.fst = (dictionary args).map Prod.fst := by
  unfold ReadsBack at h
  generalize dictionary args = pairs, pmaHintArgs line = raws at h ⊢
  induction h with
  | nil => rfl
  | cons hpair _ ih => rw [List.map_cons, List.map_cons, hpair.1, ih]

theorem nodup_readsBack {args : List (Atom × Value)} {line : Text} (h : ReadsBack args line) :
    ((pmaHintArgs line).map Prod.fst).Nodup := keys_readsBack h ▸ dictionary_nodup args

/-- An argument is in the dictionary of the line. -/
theorem get?_readsBack {args : List (Atom × Value)} {line : Text} (h : ReadsBack args line) {key : Text} {value : Value}
    (hmem : (key, value) ∈ dictionary args) : ∃ text, OrderedDict.get? (pmaHintArgs line) key = some text ∧ Reads value text := by
  have hexists : ∃ text, (key, text) ∈ pmaHintArgs line ∧ Reads value text := by
    unfold ReadsBack at h
    generalize dictionary args = pairs, pmaHintArgs line = raws at h hmem ⊢
    induction h with
    | nil => cases hmem
    | @cons pair arg pairs args' hpair _ ih =>
        rcases List.mem_cons.mp hmem with rfl | hmem
        · exact ⟨arg.2, List.mem_cons.mpr (.inl (Prod.ext hpair.1.symm rfl)), hpair.2⟩
        · obtain ⟨text, htext, hreads⟩ := ih hmem
          exact ⟨text, List.mem_cons_of_mem _ htext, hreads⟩
  obtain ⟨text, htext, hreads⟩ := hexists
  exact ⟨text, OrderedDict.get?_of_mem (nodup_readsBack h) htext, hreads⟩

/-- The field of a key that stands in the line. -/
theorem field_of_readsBack {args : List (Atom × Value)} {line : Text} (h : ReadsBack args line) {hint : ParsedPmaHint}
    (hfold : (pmaHintArgs line).foldlM setArg {} = .ok hint) {γ : Type} {field : ParsedPmaHint → γ} {key : Key}
    {read : Text → γ} (hset : ∀ hint hint' value keyOf, SetsFields hint hint' keyOf value →
      field hint' = if keyOf = some key then read value else field hint)
    {value : Value} (hmem : (key.text, value) ∈ dictionary args) : ∃ text, field hint = read text ∧ Reads value text := by
  obtain ⟨text, hget, hreads⟩ := get?_readsBack h hmem
  have hfield := foldlM_setArg (fun hint arg hint' hok => hset hint hint' arg.2 _ (setArg_ok hok)) (nodup_readsBack h) hfold
  rw [hget] at hfield
  exact ⟨text, hfield, hreads⟩

theorem shows_of_readsBack {args : List (Atom × Value)} {line : Text} (h : ReadsBack args line) {hint : ParsedPmaHint}
    (hfold : (pmaHintArgs line).foldlM setArg {} = .ok hint) : Shows args hint where
  name := by
    intro atom hmem
    obtain ⟨text, hfield, rfl, -⟩ := @field_of_readsBack _ _ h _ hfold _ ParsedPmaHint.name .name id
      (fun _ _ _ _ hsets => hsets.name) _ hmem
    exact hfield
  combinations := by
    intro dicts hmem
    obtain ⟨text, hfield, hreads⟩ := field_of_readsBack h hfold (fun _ _ _ _ hsets => hsets.combinations) hmem
    exact hfield.trans hreads
  list := by
    intro listKey items hmem
    obtain ⟨text, hfield, hreads⟩ := field_of_readsBack h hfold (fun _ _ _ _ hsets => hsets.list listKey) hmem
    exact hfield.trans hreads
  singleton := by
    intro listKey atom hmem
    obtain ⟨text, hfield, -, hreads⟩ := field_of_readsBack h hfold (fun _ _ _ _ hsets => hsets.list listKey) hmem
    exact hfield.trans hreads
  adjacent := by
    intro atom hmem
    obtain ⟨text, hfield, rfl, -⟩ := field_of_readsBack h hfold (fun _ _ _ _ hsets => hsets.adjacent) hmem
    exact hfield
  minRegions := by
    intro atom hmem
    obtain ⟨text, hfield, rfl, -⟩ := field_of_readsBack h hfold (fun _ _ _ _ hsets => hsets.minRegions) hmem
    exact hfield
  maxRegions := by
    intro atom hmem
    obtain ⟨text, hfield, rfl, -⟩ := field_of_readsBack h hfold (fun _ _ _ _ hsets => hsets.maxRegions) hmem
    exact hfield
  size := by
    intro atom hmem
    obtain ⟨text, hfield, rfl, -⟩ := field_of_readsBack h hfold (fun _ _ _ _ hsets => hsets.size) hmem
    exact hfield

/-! ### Round Trip -/

theorem parsePmaHint_ok {line : Text} {hints hints' : List (Text × ParsedPmaHint)} (h : parsePmaHint line hints = .ok hints') :
    ∃ hint, (pmaHintArgs line).foldlM setArg {} = .ok hint ∧
      hints' = if hint.name = [] then hints else OrderedDict.insert hints hint.name hint := by
  unfold parsePmaHint at h
  cases hcontent : content ";#pma_hint(" line with
  | none =>
      have hargs : pmaHintArgs line = [] := by rw [pmaHintArgs, hcontent]
      rw [hcontent] at h
      obtain rfl := Except.ok.inj h
      exact ⟨{}, by rw [hargs]; rfl, rfl⟩
  | some argsStr =>
      rw [hcontent] at h
      obtain ⟨hint, hfold, h⟩ := Fallible.bind_ok h
      refine ⟨hint, hfold, ?_⟩
      split_ifs at h ⊢
      · exact (Except.ok.inj h).symm
      · exact (Except.ok.inj h).symm

/-- A printed line is read back, and the hint that goes to the pool shows its arguments. -/
theorem parsePmaHint_printed {args : List (Atom × Value)} {line : Text} (hprints : PrintsLine args line) :
    ReadsBack args line ∧ ∀ hints hints', parsePmaHint line hints = .ok hints' →
      ∃ hint, Shows args hint ∧ hints' = if hint.name = [] then hints else OrderedDict.insert hints hint.name hint := by
  have hreads := readsBack_of_prints hprints
  refine ⟨hreads, fun hints hints' h => ?_⟩
  obtain ⟨hint, hfold, hhints⟩ := parsePmaHint_ok h
  exact ⟨hint, shows_of_readsBack hreads hfold, hhints⟩

/-- An atom from a literal. -/
def atomOf (text : String) (hword : IsWord text.toList := by exact ⟨by decide, by decide⟩) : Atom := ⟨text.toList, hword⟩

/-- A dictionary of atoms. -/
def dictOf (entries : List (Atom × Atom)) (hnodup : (entries.map fun entry => entry.1.val).Nodup) : Dict where
  entries := entries.map fun entry => (entry.1.val, entry.2.val)
  words := List.forall_mem_map.mpr fun entry _ => ⟨entry.1.2, entry.2.2⟩
  nodup := by
    rw [List.map_map]
    exact hnodup

theorem comboKeys_nodup : ["memory_type".toList, "rwx".toList].Nodup := by decide

/-- Arguments with an atom, a list and a list of dictionaries. -/
def hintArgs : List (Atom × Value) :=
  [(atomOf "name", .atom (atomOf "test")), (atomOf "memory_types", .list [atomOf "memory", atomOf "io"]),
    (atomOf "combinations", .dicts [dictOf [(atomOf "memory_type", atomOf "io")] (List.nodup_singleton _),
      dictOf [(atomOf "memory_type", atomOf "memory"), (atomOf "rwx", atomOf "rw")] comboKeys_nodup])]

def hintText : String :=
  "name= test, memory_types=[memory, io], combinations=[{memory_type=io}, {memory_type=memory,rwx=rw}]"

theorem around_blank (core : Text) : Separated.Around isSpace core (' ' :: core) :=
  ⟨[' '], [], Separated.blanks_singleton (by decide), Separated.blanks_nil, (List.append_nil _).symm⟩

theorem printsPair_self {β : Type} {prints : β → Text → Prop} {key value : Text} {x : β} (h : prints x value) :
    PrintsPair prints (key, x) (key ++ '=' :: value) :=
  ⟨[], [], value, Separated.blanks_nil, Separated.blanks_nil, h, by rw [List.append_nil, List.nil_append]⟩

theorem hintText_printed :
    Separated.Printed isSpace ',' (PrintsPair PrintsValue) (hintArgs.map fun arg => (arg.1.val, arg.2)) hintText.toList := by
  have hname : PrintsPair PrintsValue ("name".toList, .atom (atomOf "test")) "name= test".toList :=
    ⟨[], [' '], "test".toList, Separated.blanks_nil, Separated.blanks_singleton (by decide), rfl, by decide⟩
  have hitems : Separated.Printed isSpace ',' (fun (item : Atom) text => text = item.val) [atomOf "memory", atomOf "io"]
      ((atomOf "memory").val ++ ',' :: ' ' :: (atomOf "io").val) :=
    .cons rfl (Separated.around_self _) (.single rfl (around_blank _))
  have hlist : PrintsValue (.list [atomOf "memory", atomOf "io"]) "[memory, io]".toList := ⟨_, hitems, by decide, by decide⟩
  have hentry : ∀ key value : Text, PrintsPair (fun (value : Text) text => text = value) (key, value) (key ++ '=' :: value) :=
    fun _ _ => printsPair_self rfl
  have hfirst : PrintsDict (dictOf [(atomOf "memory_type", atomOf "io")] (List.nodup_singleton _))
      "{memory_type=io}".toList :=
    ⟨"memory_type=io".toList, .single (hentry _ _) (Separated.around_self _), by decide⟩
  have hsecond : PrintsDict (dictOf [(atomOf "memory_type", atomOf "memory"), (atomOf "rwx", atomOf "rw")] comboKeys_nodup)
      "{memory_type=memory,rwx=rw}".toList :=
    ⟨_, .cons (hentry _ _) (Separated.around_self _) (.single (hentry _ _) (Separated.around_self _)), by decide⟩
  exact .cons hname (Separated.around_self _) (.cons (printsPair_self hlist) (around_blank _)
    (.single (printsPair_self ⟨_, .cons hfirst (Separated.around_self _) (.single hsecond (around_blank _)), by decide, rfl⟩)
      (around_blank _)))

theorem parsePmaHint_printed_nested :
    ReadsBack hintArgs (";#pma_hint(".toList ++ (hintText.toList ++ [')'])) ∧
      ∀ hints hints', parsePmaHint (";#pma_hint(".toList ++ (hintText.toList ++ [')'])) hints = .ok hints' →
        ∃ hint, Shows hintArgs hint ∧ hints' = if hint.name = [] then hints else OrderedDict.insert hints hint.name hint :=
  parsePmaHint_printed ⟨hintText.toList, hintText_printed, by decide, rfl⟩

/-- The value is the text, its list and its dictionaries, all of them. -/
def ReadsExactly (value : Value) (text : Text) : Prop :=
  match value with
  | .atom atom => text = atom.val ∧ parseList text = [atom.val]
  | .list items => parseList text = items.map Subtype.val
  | .dicts dicts => parseCombinations text = dicts.map Dict.entries

def emptyDict : Dict := ⟨[], nofun, List.nodup_nil⟩

/-- A dictionary without entries is not read back. -/
theorem not_readsExactly_emptyDict : ¬ ∀ args line, PrintsLine args line →
    List.Forall₂ (fun arg raw => raw.1 = arg.1.val ∧ ReadsExactly arg.2 raw.2) args (pmaHintArgs line) := by
  intro h
  have hprints : PrintsLine [(atomOf "combinations", .dicts [emptyDict])] ";#pma_hint(combinations=[\x7b\x7d])".toList :=
    ⟨"combinations=[\x7b\x7d]".toList, .single ⟨[], [], "[\x7b\x7d]".toList, Separated.blanks_nil, Separated.blanks_nil,
      ⟨"\x7b\x7d".toList, .single ⟨[], .nil, by decide⟩ (Separated.around_self _), by decide, by decide⟩, by decide⟩
      (Separated.around_self _), by decide, by decide⟩
  have hargs : pmaHintArgs ";#pma_hint(combinations=[\x7b\x7d])".toList =
      [("combinations".toList, "[\x7b\x7d]".toList)] := by decide +kernel
  have hall := h _ _ hprints
  rw [hargs] at hall
  cases hall with
  | cons hpair _ =>
      have hread : parseCombinations "[\x7b\x7d]".toList = [[]] := hpair.2
      exact absurd hread (by decide +kernel)

end Riescue.PmaHint
