import Mathlib.Order.Interval.Set.Disjoint
import Riescue.LibOrderedDict
import Riescue.PmaHint

/-! The directives of a page of memory of a test plan, `Page.emit` of `types/assembly/page.py`: its two reservations and its page
mappings. -/

namespace Riescue.PageEmit
open DirectiveArgs (Text hex)

/-- A member of the enumeration `PageSize`: its name and its value, the number of bytes. -/
structure PageSize where
  name : String
  value : ℕ
  deriving DecidableEq, Repr

def size4K : PageSize := ⟨"SIZE_4K", 0x1000⟩

def size2M : PageSize := ⟨"SIZE_2M", 0x200000⟩

def size1G : PageSize := ⟨"SIZE_1G", 0x40000000⟩

/-- `PageFlags` -/
inductive PageFlag where
  | valid | read | write | execute | user | global | accessed | dirty
  deriving DecidableEq, Repr

abbrev PageFlags := List PageFlag

/-- The letter of a flag in a directive. -/
def PageFlag.letter : PageFlag → String
  | .valid => "v"
  | .read => "r"
  | .write => "w"
  | .execute => "x"
  | .user => "u"
  | .global => "g"
  | .accessed => "a"
  | .dirty => "d"

def allFlags : List PageFlag := [.valid, .read, .write, .execute, .user, .global, .accessed, .dirty]

/-- Flags to set and flags to clear, of one kind of page-table entry. -/
structure FlagChoice where
  flags : Option PageFlags := none
  excludeFlags : Option PageFlags := none
  deriving DecidableEq, Repr

/-- `page_size`: one size or a tuple of sizes. -/
inductive Sizes where
  | single (size : PageSize)
  | tuple (sizes : List PageSize)
  deriving DecidableEq, Repr

def Sizes.list : Sizes → List PageSize
  | .single size => [size]
  | .tuple sizes => sizes

/-- `Page`. Its field `and_mask` is not read. -/
structure Page where
  name : Text
  size : Option ℕ := some 0x1000
  startAddr : Option ℕ := none
  alignment : Option ℕ := none
  pageSize : Option Sizes := none
  flags : FlagChoice := { flags := some [.valid, .read, .write, .execute] }
  numPages : Option ℕ := some 1
  orMask : Text := []
  modify : Bool := false
  modifyLeaf : Bool := false
  modifyNonleaf : Bool := false
  bufferPage : Bool := true
  nonleaf : FlagChoice := {}
  leafGleaf : FlagChoice := {}
  vleafPageSize : Option Sizes := none
  nonleafGleaf : FlagChoice := {}
  vnonleafPageSize : Option Sizes := none
  leafGnonleaf : FlagChoice := {}
  nonleafGnonleaf : FlagChoice := {}
  deriving DecidableEq, Repr

def Page.physName (page : Page) : Text := page.name ++ "_phys".toList

/-- An argument of a page mapping after its names. -/
inductive Attribute where
  | flag (key : String) (value : ℕ)
  | pagesize (key : String) (sizes : List PageSize)
  deriving DecidableEq, Repr

/-- The flags that are written for the leaf entry: the first four always, the others when they are set. -/
def setFlags (flags : PageFlags) : List Attribute :=
  ([.valid, .read, .write, .execute].map fun flag : PageFlag => .flag flag.letter (if flag ∈ flags then 1 else 0)) ++
    ([.user, .global, .accessed, .dirty].filter fun flag : PageFlag => flag ∈ flags).map fun flag => .flag flag.letter 1

/-- `page_flags` -/
def Page.pageFlags (page : Page) : List Attribute :=
  (match page.flags.flags with | none => [] | some flags => setFlags flags) ++
    (match page.flags.excludeFlags with
      | none => []
      | some flags => (allFlags.filter (· ∈ flags)).map fun flag => .flag flag.letter 0) ++
    (if page.modify then [.flag "modify_pt" 1] else []) ++
    (if page.modifyLeaf then [.flag "modify_leaf_pt" 1] else []) ++
    (if page.modifyNonleaf then [.flag "modify_nonleaf_pt" 1] else [])

/-- The dictionary of `_generate_gstage_flags` and of `_generate_vs_nonleaf_flags`: a flag that is set and cleared is cleared. -/
def FlagChoice.attributes (choice : FlagChoice) (suffix : String) : List Attribute :=
  let entries (flags : Option PageFlags) (value : ℕ) : List (String × ℕ) :=
    (allFlags.filter (· ∈ flags.getD [])).map fun flag => (flag.letter ++ suffix, value)
  (OrderedDict.assign (OrderedDict.assign [] (entries choice.flags 1)) (entries choice.excludeFlags 0)).map
    fun entry => .flag entry.1 entry.2

/-- `_generate_gstage_flags` -/
def generateGstageFlags (choice : FlagChoice) (vsLevel gLevel : String) : List Attribute :=
  choice.attributes ("_" ++ vsLevel ++ "_" ++ gLevel)

/-- `_generate_vs_nonleaf_flags` -/
def generateVsNonleafFlags (choice : FlagChoice) : List Attribute := choice.attributes "_nonleaf"

/-- A name with an offset, `name+0x1000`. -/
structure Place where
  symbol : Text
  offset : ℕ := 0
  deriving DecidableEq, Repr

/-- The arguments of `;#page_mapping`. -/
structure Mapping where
  linName : Place
  physName : Place
  pagesize : List PageSize
  attributes : List Attribute
  deriving DecidableEq, Repr

inductive AddressType where
  | linear | physical
  deriving DecidableEq, Repr

/-- A reservation, `;#random_addr` or `;#reserve_memory`. -/
inductive Reservation where
  | randomAddr (name : Text) (type : AddressType) (size andMask : ℕ) (orMask : Text)
  | reserveMemory (name : Text) (startAddr : ℕ) (type : AddressType) (size : ℕ) (orMask : Text)
  deriving DecidableEq, Repr

/-- The lines that a page emits, in their order. -/
structure Emission where
  lin : Reservation
  phys : Reservation
  mappings : List Mapping
  alignment : Option ℕ
  initMemory : Text
  deriving DecidableEq, Repr

/-- `pages_to_generate` -/
def Page.pagesToGenerate (page : Page) : ℕ :=
  match page.numPages with
  | none => 1
  | some 0 => 1
  | some count => count

/-- `page_sizes` -/
def Page.pageSizes (page : Page) : List PageSize :=
  match page.pageSize with
  | none => [size4K]
  | some sizes => sizes.list

/-- `page_size_bytes`; the least of no sizes is an error. -/
def Page.pageSizeBytes (page : Page) : Option ℕ := (page.pageSizes.map PageSize.value).min?

/-- The first page of several: its size follows the size of all pages. -/
def firstOfSeveral (totalMemoryNeeded : ℕ) : PageSize :=
  if totalMemoryNeeded > size1G.value then size1G
  else if totalMemoryNeeded > size2M.value then size1G
  else if totalMemoryNeeded > size4K.value then size2M
  else size4K

/-- `first_page_size_str` and `first_page_size_bytes` -/
def Page.firstPage (page : Page) (pageSizeBytes : ℕ) : List PageSize × ℕ :=
  if page.pagesToGenerate > 1 then
    let first := firstOfSeveral (pageSizeBytes * page.pagesToGenerate)
    ([first], first.value)
  else (page.pageSizes, pageSizeBytes)

/-- `~(first_page_size_bytes - 1)` in 64 bits -/
def andMask (firstPageSizeBytes : ℕ) : ℕ := ((-((firstPageSizeBytes : ℤ) - 1) - 1) % 2 ^ 64).toNat

/-- The size of the region: the size that is given, or that of all pages. -/
def Page.regionSize (page : Page) (totalMemoryNeeded : ℕ) : ℕ := page.size.getD totalMemoryNeeded

/-- `lin_size` -/
def Page.linSize (page : Page) (size : ℕ) : ℕ := if page.bufferPage then size + 0x1000 else size

/-- The reservation of one of the two address spaces. -/
def Page.reservation (page : Page) (name : Text) (type : AddressType) (size mask : ℕ) : Reservation :=
  match page.startAddr with
  | none => .randomAddr name type size mask page.orMask
  | some startAddr => .reserveMemory name startAddr type size page.orMask

def gstagePagesize (key : String) (sizes : Option Sizes) : List Attribute :=
  match sizes with
  | none => []
  | some sizes => [.pagesize key sizes.list]

/-- The mapping at the base. -/
def Page.firstMapping (page : Page) (firstPageSizes : List PageSize) : Mapping where
  linName := { symbol := page.name }
  physName := { symbol := page.physName }
  pagesize := firstPageSizes
  attributes := page.pageFlags ++ generateVsNonleafFlags page.nonleaf ++
    gstagePagesize "gstage_vs_leaf_pagesize" page.vleafPageSize ++
    gstagePagesize "gstage_vs_nonleaf_pagesize" page.vnonleafPageSize ++
    generateGstageFlags page.leafGleaf "leaf" "gleaf" ++ generateGstageFlags page.nonleafGleaf "nonleaf" "gleaf" ++
    generateGstageFlags page.leafGnonleaf "leaf" "gnonleaf" ++
    generateGstageFlags page.nonleafGnonleaf "nonleaf" "gnonleaf"

/-- The mapping of a page after the first. -/
def Page.nextMapping (page : Page) (i : ℕ) : Mapping where
  linName := { symbol := page.name, offset := i * 0x1000 }
  physName := { symbol := page.physName, offset := i * 0x1000 }
  pagesize := [size4K]
  attributes := page.pageFlags

def Page.mappings (page : Page) (firstPageSizes : List PageSize) : List Mapping :=
  (List.range page.pagesToGenerate).map fun i => if i = 0 then page.firstMapping firstPageSizes else page.nextMapping i

/-- The lines for the least of the page sizes. -/
def Page.lines (page : Page) (pageSizeBytes : ℕ) : Emission :=
  let size := page.regionSize (pageSizeBytes * page.pagesToGenerate)
  let first := page.firstPage pageSizeBytes
  let mask := andMask first.2
  { lin := page.reservation page.name .linear (page.linSize size) mask
    phys := page.reservation page.physName .physical size mask
    mappings := page.mappings first.1
    alignment := page.alignment
    initMemory := page.name }

/-- `emit`, the lines before their printing. -/
def Page.emission (page : Page) : Option Emission := page.pageSizeBytes.map page.lines

/-! ### Printing -/

def joined (separator : Text) (texts : List Text) : Text := (texts.intersperse separator).flatten

/-- `_fmt_page_sizes` -/
def fmtPageSizes (sizes : List PageSize) : Text :=
  joined [','] (sizes.map fun size =>
    '\x27' :: (((size.name.toLower.splitOn "size_").flatMap String.toList) ++ ['b', '\x27']))

def Attribute.text : Attribute → Text
  | .flag key value => key.toList ++ '=' :: Nat.toDigits 10 value
  | .pagesize key sizes => key.toList ++ "=[".toList ++ fmtPageSizes sizes ++ [']']

def Place.text (place : Place) : Text :=
  if place.offset = 0 then place.symbol else place.symbol ++ '+' :: hex place.offset

def Mapping.text (mapping : Mapping) : Text :=
  ";#page_mapping(".toList ++ joined ", ".toList
    (["lin_name=".toList ++ mapping.linName.text, "phys_name=".toList ++ mapping.physName.text,
      (Attribute.pagesize "pagesize" mapping.pagesize).text] ++ mapping.attributes.map Attribute.text) ++ [')']

def AddressType.text : AddressType → Text
  | .linear => "linear".toList
  | .physical => "physical".toList

/-- The hexadecimal digits of a mask, sixteen at least. -/
def maskText (mask : ℕ) : Text :=
  let digits := Nat.toDigits 16 mask
  "0x".toList ++ List.replicate (16 - digits.length) '0' ++ digits

def orMaskText (orMask : Text) : Text := if orMask = [] then [] else ", or_mask=".toList ++ orMask

def Reservation.text : Reservation → Text
  | .randomAddr name type size mask orMask =>
      ";#random_addr(name=".toList ++ name ++ ",  type=".toList ++ type.text ++ ", size=".toList ++ hex size ++
        ", and_mask=".toList ++ maskText mask ++ orMaskText orMask ++ [')']
  | .reserveMemory name startAddr type size orMask =>
      ";#reserve_memory(name=".toList ++ name ++ ", start_addr=".toList ++ hex startAddr ++ ",  type=".toList ++ type.text ++
        ", size=".toList ++ hex size ++ orMaskText orMask ++ [')']

/-- `emit` -/
def Page.emit (page : Page) : Option Text := do
  let emission ← page.emission
  some (joined ['\n'] ([emission.lin.text, emission.phys.text] ++ emission.mappings.map Mapping.text ++
    (match emission.alignment with
      | none => []
      | some alignment => [".align ".toList ++ Nat.toDigits 10 alignment]) ++
    [";#init_memory @".toList ++ emission.initMemory]))

/-! ### What a page asks for -/

/-- The number that the text of an OR mask spells. -/
def orValue (orMask : Text) : Option ℕ := if orMask = [] then some 0 else (PmaHint.int0 orMask).bind Int.toNat?

/-- The addresses that a reservation may place its name at. -/
def Reservation.Admits (base : ℕ) : Reservation → Prop
  | .randomAddr _ _ _ mask orMask => ∃ address bits, orValue orMask = some bits ∧ base = address &&& mask ||| bits
  | .reserveMemory _ startAddr _ _ _ => base = startAddr

def Reservation.size : Reservation → ℕ
  | .randomAddr _ _ size _ _ => size
  | .reserveMemory _ _ _ size _ => size

/-- The linear and the physical side of the lines. -/
def Emission.sides (emission : Emission) : List (Reservation × (Mapping → Place)) :=
  [(emission.lin, Mapping.linName), (emission.phys, Mapping.physName)]

/-- A choice of one of the page sizes of each mapping. -/
def Picks (emission : Emission) (pick : Mapping → PageSize) : Prop :=
  ∀ mapping ∈ emission.mappings, pick mapping ∈ mapping.pagesize

/-- The addresses that a mapping maps. -/
def mapped (place : Mapping → Place) (pick : Mapping → PageSize) (base : ℕ) (mapping : Mapping) : Set ℕ :=
  Set.Ico (base + (place mapping).offset) (base + (place mapping).offset + (pick mapping).value)

/-- The lines map what was asked. The requested memory is what the physical side reserves. -/
structure MapsWhatWasAsked (page : Page) (pageSizeBytes : ℕ) (emission : Emission) : Prop where
  covered : ∀ pick, Picks emission pick → ∀ side ∈ emission.sides, ∀ base,
    ∀ address ∈ Set.Ico base (base + pageSizeBytes * page.pagesToGenerate),
      ∃ mapping ∈ emission.mappings, address ∈ mapped side.2 pick base mapping
  aligned : ∀ pick, Picks emission pick → ∀ side ∈ emission.sides, ∀ base, side.1.Admits base →
    ∀ mapping ∈ emission.mappings.tail, (pick mapping).value ∣ base + (side.2 mapping).offset
  reserved : ∀ side ∈ emission.sides, pageSizeBytes * page.pagesToGenerate ≤ side.1.size
  buffer : page.bufferPage = true → ∀ pick, Picks emission pick → ∀ side ∈ emission.sides, ∀ base,
    ∀ mapping ∈ emission.mappings, Disjoint (mapped side.2 pick base mapping)
      (Set.Ico (base + emission.phys.size) (base + emission.phys.size + 0x1000))

def Page.MapsPages (page : Page) : Prop :=
  ∃ pageSizeBytes emission, page.pageSizeBytes = some pageSizeBytes ∧ page.emission = some emission ∧
    MapsWhatWasAsked page pageSizeBytes emission

/-- The base that is asked for is a multiple of 4 KiB as far as the page fixes it. -/
def Page.BaseAligned (page : Page) : Prop :=
  match page.startAddr with
  | none => ∀ bits, orValue page.orMask = some bits → 0x1000 ∣ bits
  | some startAddr => 0x1000 ∣ startAddr

/-- When the lines of a page map what was asked, for the least of its page sizes and the size of its region. -/
structure Page.Fits (page : Page) (pageSizeBytes size : ℕ) : Prop where
  reserved : pageSizeBytes * page.pagesToGenerate ≤ size
  covered : page.pagesToGenerate = 1 ∨ pageSizeBytes * page.pagesToGenerate ≤ 2 ^ 30 ∨ pageSizeBytes ≤ 0x1000
  aligned : page.pagesToGenerate = 1 ∨ page.BaseAligned
  single : page.bufferPage = true → page.pagesToGenerate = 1 → ∀ pageSize ∈ page.pageSizes, pageSize.value ≤ size
  several : page.bufferPage = true → page.pagesToGenerate ≠ 1 → 0x1000 * page.pagesToGenerate ≤ size ∧
    (0x1000 < pageSizeBytes * page.pagesToGenerate → 2 ^ 21 ≤ size) ∧
    (2 ^ 21 < pageSizeBytes * page.pagesToGenerate → 2 ^ 30 ≤ size)

/-! ### The mappings -/

variable {page : Page} {place : Mapping → Place} {pick : Mapping → PageSize}

theorem pagesToGenerate_pos (page : Page) : 0 < page.pagesToGenerate := by
  unfold Page.pagesToGenerate
  split
  · exact Nat.one_pos
  · exact Nat.one_pos
  · next count hzero hcount => exact Nat.pos_of_ne_zero hzero

/-- The page at the base comes first, the others follow. -/
theorem mappings_eq (page : Page) (sizes : List PageSize) : page.mappings sizes =
    page.firstMapping sizes :: (List.range (page.pagesToGenerate - 1)).map fun i => page.nextMapping (i + 1) := by
  obtain ⟨rest, hrest⟩ : ∃ rest, page.pagesToGenerate = rest + 1 := ⟨_, (Nat.sub_add_cancel (pagesToGenerate_pos page)).symm⟩
  unfold Page.mappings
  rw [hrest, List.range_succ_eq_map, List.map_cons, List.map_map, if_pos rfl, Nat.add_sub_cancel]
  rfl

theorem mem_tail_mappings {sizes : List PageSize} {mapping : Mapping} : mapping ∈ (page.mappings sizes).tail ↔
    ∃ i, 0 < i ∧ i < page.pagesToGenerate ∧ mapping = page.nextMapping i := by
  rw [mappings_eq, List.tail_cons, List.mem_map]
  constructor
  · rintro ⟨i, hi, rfl⟩
    exact ⟨i + 1, i.succ_pos, Nat.add_lt_of_lt_sub (List.mem_range.mp hi), rfl⟩
  · rintro ⟨i, hpos, hi, rfl⟩
    exact ⟨i - 1, List.mem_range.mpr (by omega), by rw [Nat.sub_add_cancel hpos]⟩

theorem mem_mappings {sizes : List PageSize} {mapping : Mapping} : mapping ∈ page.mappings sizes ↔
    mapping = page.firstMapping sizes ∨ ∃ i, 0 < i ∧ i < page.pagesToGenerate ∧ mapping = page.nextMapping i := by
  rw [← @mem_tail_mappings page sizes, mappings_eq, List.mem_cons, List.tail_cons]

theorem firstOfSeveral_cases (total : ℕ) :
    (2 ^ 21 < total ∧ firstOfSeveral total = size1G) ∨ (0x1000 < total ∧ total ≤ 2 ^ 21 ∧ firstOfSeveral total = size2M) ∨
      (total ≤ 0x1000 ∧ firstOfSeveral total = size4K) := by
  have hgiga : size1G.value = 2 ^ 30 := rfl
  have hmega : size2M.value = 2 ^ 21 := rfl
  have hkilo : size4K.value = 0x1000 := rfl
  unfold firstOfSeveral
  rw [hgiga, hmega, hkilo]
  split_ifs with hgiga hmega hkilo
  · exact .inl ⟨by omega, rfl⟩
  · exact .inl ⟨hmega, rfl⟩
  · exact .inr (.inl ⟨hkilo, by omega, rfl⟩)
  · exact .inr (.inr ⟨by omega, rfl⟩)

/-! ### One side of the lines -/

variable {pageSizeBytes : ℕ} {side : Reservation × (Mapping → Place)}

theorem offset_first (hside : side ∈ (page.lines pageSizeBytes).sides) (sizes : List PageSize) :
    (side.2 (page.firstMapping sizes)).offset = 0 := by
  rcases List.mem_pair.mp hside with rfl | rfl <;> rfl

theorem offset_next (hside : side ∈ (page.lines pageSizeBytes).sides) (i : ℕ) :
    (side.2 (page.nextMapping i)).offset = i * 0x1000 := by
  rcases List.mem_pair.mp hside with rfl | rfl <;> rfl

theorem reservation_size (name : Text) (type : AddressType) (size mask : ℕ) :
    (page.reservation name type size mask).size = size := by
  unfold Page.reservation
  cases page.startAddr <;> rfl

theorem lin_mem_sides (page : Page) (pageSizeBytes : ℕ) :
    ((page.lines pageSizeBytes).lin, Mapping.linName) ∈ (page.lines pageSizeBytes).sides := List.mem_cons_self

/-- The sizes of the page at the base, when there are others. -/
theorem pick_several (hpick : Picks (page.lines pageSizeBytes) pick) (hseveral : page.pagesToGenerate ≠ 1) :
    pick (page.firstMapping (page.firstPage pageSizeBytes).1) = firstOfSeveral (pageSizeBytes * page.pagesToGenerate) ∧
      ∀ i, 0 < i → i < page.pagesToGenerate → pick (page.nextMapping i) = size4K := by
  have hmany : page.pagesToGenerate > 1 := by have := pagesToGenerate_pos page; omega
  constructor
  · have hfirst := hpick _ (mem_mappings.mpr (.inl rfl))
    unfold Page.firstMapping at hfirst ⊢
    rw [Page.firstPage, if_pos hmany] at hfirst ⊢
    exact List.mem_singleton.mp hfirst
  · exact fun i hpos hi => List.mem_singleton.mp (hpick _ (mem_mappings.mpr (.inr ⟨i, hpos, hi, rfl⟩)))

/-- The page sizes of a page that is alone. -/
theorem pick_single (hpick : Picks (page.lines pageSizeBytes) pick) (hsingle : page.pagesToGenerate = 1) :
    pick (page.firstMapping (page.firstPage pageSizeBytes).1) ∈ page.pageSizes := by
  have hfirst := hpick _ (mem_mappings.mpr (.inl rfl))
  unfold Page.firstMapping at hfirst ⊢
  rw [Page.firstPage, if_neg (by omega)] at hfirst ⊢
  exact hfirst

/-- Every page size of a page that is alone may be picked. -/
theorem picks_single (hsingle : page.pagesToGenerate = 1) {pageSize : PageSize} (hmem : pageSize ∈ page.pageSizes) :
    Picks (page.lines pageSizeBytes) fun _ => pageSize := by
  intro mapping hmapping
  rcases mem_mappings.mp hmapping with rfl | ⟨i, hpos, hi, rfl⟩
  · show pageSize ∈ (page.firstPage pageSizeBytes).1
    rw [Page.firstPage, if_neg (by omega)]
    exact hmem
  · omega

/-- The page sizes can be picked. -/
theorem exists_picks (hbytes : page.pageSizeBytes = some pageSizeBytes) : ∃ pick, Picks (page.lines pageSizeBytes) pick := by
  have hsizes : page.pageSizes ≠ [] := fun hnil => by rw [Page.pageSizeBytes, hnil] at hbytes; cases hbytes
  by_cases hsingle : page.pagesToGenerate = 1
  · exact ⟨_, picks_single hsingle (List.head_mem hsizes)⟩
  · refine ⟨fun mapping => mapping.pagesize.headD size4K, fun mapping hmapping => ?_⟩
    have hmany : page.pagesToGenerate > 1 := by have := pagesToGenerate_pos page; omega
    rcases mem_mappings.mp hmapping with rfl | ⟨i, hpos, hi, rfl⟩
    · unfold Page.firstMapping
      rw [Page.firstPage, if_pos hmany]
      exact List.mem_singleton_self _
    · exact List.mem_singleton_self _

/-! ### Each part -/

/-- The pages of a page size that is the least of the listed are covered by any of these. -/
theorem value_ge (hbytes : page.pageSizeBytes = some pageSizeBytes) {pageSize : PageSize} (hmem : pageSize ∈ page.pageSizes) :
    pageSizeBytes ≤ pageSize.value :=
  (List.min?_eq_some_iff.mp hbytes).2 _ (List.mem_map_of_mem hmem)

theorem covers_iff (hbytes : page.pageSizeBytes = some pageSizeBytes) (hside : side ∈ (page.lines pageSizeBytes).sides)
    (hpick : Picks (page.lines pageSizeBytes) pick) (base : ℕ) :
    (∀ address ∈ Set.Ico base (base + pageSizeBytes * page.pagesToGenerate),
      ∃ mapping ∈ (page.lines pageSizeBytes).mappings, address ∈ mapped side.2 pick base mapping) ↔
    page.pagesToGenerate = 1 ∨ pageSizeBytes * page.pagesToGenerate ≤ 2 ^ 30 ∨ pageSizeBytes ≤ 0x1000 := by
  have hfirst := offset_first hside (page.firstPage pageSizeBytes).1
  have hmem : page.firstMapping (page.firstPage pageSizeBytes).1 ∈ (page.lines pageSizeBytes).mappings :=
    mem_mappings.mpr (.inl rfl)
  by_cases hsingle : page.pagesToGenerate = 1
  · refine iff_of_true (fun address haddress => ⟨_, hmem, ?_⟩) (.inl hsingle)
    rw [hsingle, Nat.mul_one] at haddress
    have hvalue := value_ge hbytes (pick_single hpick hsingle)
    rw [mapped, hfirst]
    exact ⟨haddress.1, haddress.2.trans_le (Nat.add_le_add_left hvalue base)⟩
  · obtain ⟨hone, hnext⟩ := pick_several hpick hsingle
    have hpos := pagesToGenerate_pos page
    have hgiga : size1G.value = 2 ^ 30 := rfl
    have hmega : size2M.value = 2 ^ 21 := rfl
    have hkilo : size4K.value = 0x1000 := rfl
    have hcases := firstOfSeveral_cases (pageSizeBytes * page.pagesToGenerate)
    constructor
    · intro hcovered
      by_contra hnot
      rw [not_or, not_or] at hnot
      obtain ⟨-, hlarge, hbig⟩ := hnot
      -- behind the first page and the 4 KiB pages
      have hbeyond : 0x1000 * page.pagesToGenerate < pageSizeBytes * page.pagesToGenerate :=
        Nat.mul_lt_mul_of_pos_right (by omega) hpos
      obtain ⟨mapping, hmapping, haddress⟩ :=
        hcovered (base + max (2 ^ 30) (0x1000 * page.pagesToGenerate)) ⟨by omega, by omega⟩
      have hvalue : (firstOfSeveral (pageSizeBytes * page.pagesToGenerate)).value ≤ 2 ^ 30 := by
        rcases hcases with ⟨-, h⟩ | ⟨-, -, h⟩ | ⟨-, h⟩ <;> rw [h] <;> omega
      rcases mem_mappings.mp hmapping with rfl | ⟨i, hi, hlt, rfl⟩
      · rw [mapped, hfirst, hone] at haddress
        have := haddress.2
        omega
      · rw [mapped, offset_next hside, hnext i hi hlt] at haddress
        have := haddress.2
        omega
    · rintro hfits address ⟨hlow, hhigh⟩
      obtain ⟨byte, rfl⟩ := Nat.exists_eq_add_of_le hlow
      have hbyte : byte < pageSizeBytes * page.pagesToGenerate := by omega
      by_cases hin : byte < (firstOfSeveral (pageSizeBytes * page.pagesToGenerate)).value
      · refine ⟨_, hmem, ?_⟩
        rw [mapped, hfirst, hone]
        exact ⟨by omega, by omega⟩
      · -- the byte lies in the 4 KiB page of its number
        have hkilos : pageSizeBytes ≤ 0x1000 := by
          rcases hfits with h | h | h
          · exact absurd h hsingle
          · rcases hcases with ⟨-, hc⟩ | ⟨-, hle, hc⟩ | ⟨hle, hc⟩ <;> rw [hc] at hin <;> omega
          · exact h
        have htotal : pageSizeBytes * page.pagesToGenerate ≤ 0x1000 * page.pagesToGenerate := Nat.mul_le_mul_right _ hkilos
        have hfour : 0x1000 ≤ (firstOfSeveral (pageSizeBytes * page.pagesToGenerate)).value := by
          rcases hcases with ⟨-, h⟩ | ⟨-, -, h⟩ | ⟨-, h⟩ <;> rw [h] <;> omega
        refine ⟨page.nextMapping (byte / 0x1000), mem_mappings.mpr (.inr ⟨_, by omega, by omega, rfl⟩), ?_⟩
        rw [mapped, offset_next hside, hnext _ (by omega) (by omega)]
        exact ⟨by omega, by omega⟩

/-- A 4 KiB page starts at a multiple of its size when the bits that are set are one. -/
theorem dvd_masked_iff {total bits : ℕ} (address : ℕ) :
    0x1000 ∣ (address &&& andMask (firstOfSeveral total).value ||| bits) ↔ 0x1000 ∣ bits := by
  have hmask : andMask (firstOfSeveral total).value % 2 ^ 12 = 0 := by
    rcases firstOfSeveral_cases total with ⟨-, h⟩ | ⟨-, -, h⟩ | ⟨-, h⟩ <;> rw [h] <;> decide
  show 2 ^ 12 ∣ _ ↔ 2 ^ 12 ∣ bits
  rw [Nat.dvd_iff_mod_eq_zero, Nat.dvd_iff_mod_eq_zero, Nat.or_mod_two_pow, Nat.and_mod_two_pow, hmask, Nat.and_zero,
    Nat.zero_or]

theorem admits_aligned_iff (hside : side ∈ (page.lines pageSizeBytes).sides) (hseveral : page.pagesToGenerate ≠ 1) :
    (∀ base, side.1.Admits base → 0x1000 ∣ base) ↔ page.BaseAligned := by
  have hmany : page.pagesToGenerate > 1 := by have := pagesToGenerate_pos page; omega
  have hreservation : ∃ name type size, side.1 = page.reservation name type size
      (andMask (firstOfSeveral (pageSizeBytes * page.pagesToGenerate)).value) := by
    rcases List.mem_pair.mp hside with rfl | rfl
    · exact ⟨page.name, .linear, _, by unfold Page.lines Page.firstPage; rw [if_pos hmany]⟩
    · exact ⟨page.physName, .physical, _, by unfold Page.lines Page.firstPage; rw [if_pos hmany]⟩
  obtain ⟨name, type, size, hside⟩ := hreservation
  rw [hside, Page.reservation, Page.BaseAligned]
  cases page.startAddr with
  | none =>
      constructor
      · intro haligned bits hbits
        exact (dvd_masked_iff 0).mp (haligned _ ⟨0, bits, hbits, rfl⟩)
      · rintro haligned base ⟨address, bits, hbits, rfl⟩
        exact (dvd_masked_iff address).mpr (haligned bits hbits)
  | some startAddr => exact ⟨fun haligned => haligned _ rfl, fun haligned base hbase => hbase ▸ haligned⟩

theorem aligned_iff (hside : side ∈ (page.lines pageSizeBytes).sides) (hpick : Picks (page.lines pageSizeBytes) pick) :
    (∀ base, side.1.Admits base → ∀ mapping ∈ (page.lines pageSizeBytes).mappings.tail,
      (pick mapping).value ∣ base + (side.2 mapping).offset) ↔ page.pagesToGenerate = 1 ∨ page.BaseAligned := by
  by_cases hsingle : page.pagesToGenerate = 1
  · refine iff_of_true (fun base _ mapping hmapping => ?_) (.inl hsingle)
    obtain ⟨i, hpos, hlt, rfl⟩ := mem_tail_mappings.mp hmapping
    omega
  · have hpos := pagesToGenerate_pos page
    obtain ⟨-, hnext⟩ := pick_several hpick hsingle
    have hkilo : size4K.value = 0x1000 := rfl
    rw [or_iff_right hsingle, ← admits_aligned_iff hside hsingle]
    refine forall_congr' fun base => imp_congr_right fun _ => ?_
    constructor
    · intro haligned
      have hone := haligned _ (mem_tail_mappings.mpr ⟨1, Nat.one_pos, by omega, rfl⟩)
      rw [offset_next hside, hnext 1 Nat.one_pos (by omega), hkilo] at hone
      exact (Nat.dvd_add_iff_left (Nat.dvd_mul_left _ 1)).mpr hone
    · intro hbase mapping hmapping
      obtain ⟨i, hi, hlt, rfl⟩ := mem_tail_mappings.mp hmapping
      rw [offset_next hside, hnext i hi hlt, hkilo]
      exact Nat.dvd_add hbase (Nat.dvd_mul_left _ i)

theorem disjoint_buffer_iff {base offset value size : ℕ} :
    Disjoint (Set.Ico (base + offset) (base + offset + value)) (Set.Ico (base + size) (base + size + 0x1000)) ↔
      value = 0 ∨ offset + value ≤ size ∨ size + 0x1000 ≤ offset := by
  rw [Set.Ico_disjoint_Ico, min_le_iff, le_max_iff, le_max_iff]
  omega

/-- The 4 KiB behind the region lie in no mapping. -/
def BufferFree (page : Page) (pageSizeBytes size : ℕ) (side : Reservation × (Mapping → Place)) (pick : Mapping → PageSize) :
    Prop :=
  ∀ base, ∀ mapping ∈ (page.lines pageSizeBytes).mappings,
    Disjoint (mapped side.2 pick base mapping) (Set.Ico (base + size) (base + size + 0x1000))

theorem bufferFree_single_iff {size : ℕ} (hside : side ∈ (page.lines pageSizeBytes).sides) (hsingle : page.pagesToGenerate = 1) :
    (∀ pick, Picks (page.lines pageSizeBytes) pick → BufferFree page pageSizeBytes size side pick) ↔
      ∀ pageSize ∈ page.pageSizes, pageSize.value ≤ size := by
  have hfirst := offset_first hside (page.firstPage pageSizeBytes).1
  constructor
  · intro hfree pageSize hmem
    have hdisjoint := hfree _ (picks_single hsingle hmem) 0 _ (mem_mappings.mpr (.inl rfl))
    rw [mapped, hfirst, disjoint_buffer_iff] at hdisjoint
    omega
  · intro hfits pick hpick base mapping hmapping
    rcases mem_mappings.mp hmapping with rfl | ⟨i, hpos, hlt, rfl⟩
    · have hvalue := hfits _ (pick_single hpick hsingle)
      rw [mapped, hfirst, disjoint_buffer_iff]
      omega
    · omega

theorem bufferFree_several_iff {size : ℕ} (hside : side ∈ (page.lines pageSizeBytes).sides) (hseveral : page.pagesToGenerate ≠ 1)
    (hpick : Picks (page.lines pageSizeBytes) pick) : BufferFree page pageSizeBytes size side pick ↔
      0x1000 * page.pagesToGenerate ≤ size ∧ (0x1000 < pageSizeBytes * page.pagesToGenerate → 2 ^ 21 ≤ size) ∧
        (2 ^ 21 < pageSizeBytes * page.pagesToGenerate → 2 ^ 30 ≤ size) := by
  have hfirst := offset_first hside (page.firstPage pageSizeBytes).1
  obtain ⟨hone, hnext⟩ := pick_several hpick hseveral
  have hgiga : size1G.value = 2 ^ 30 := rfl
  have hmega : size2M.value = 2 ^ 21 := rfl
  have hkilo : size4K.value = 0x1000 := rfl
  have hpos := pagesToGenerate_pos page
  have hcases := firstOfSeveral_cases (pageSizeBytes * page.pagesToGenerate)
  constructor
  · intro hfree
    have hbase := hfree 0 _ (mem_mappings.mpr (.inl rfl))
    rw [mapped, hfirst, hone, disjoint_buffer_iff] at hbase
    have hleast : (firstOfSeveral (pageSizeBytes * page.pagesToGenerate)).value ≤ size := by
      rcases hcases with ⟨-, h⟩ | ⟨-, -, h⟩ | ⟨-, h⟩ <;> rw [h] at hbase ⊢ <;> omega
    refine ⟨?_, ?_, ?_⟩
    · -- otherwise the region ends in a 4 KiB page that is mapped
      by_contra hnot
      have hpage : 0 < size / 0x1000 := by
        rcases hcases with ⟨-, h⟩ | ⟨-, -, h⟩ | ⟨-, h⟩ <;> rw [h] at hleast <;> omega
      have hend := hfree 0 _ (mem_mappings.mpr (.inr ⟨size / 0x1000, hpage, by omega, rfl⟩))
      rw [mapped, offset_next hside, hnext _ hpage (by omega), disjoint_buffer_iff] at hend
      omega
    · intro hlarge
      rcases hcases with ⟨-, h⟩ | ⟨-, -, h⟩ | ⟨hle, h⟩ <;> rw [h] at hleast <;> omega
    · intro hlarge
      rcases hcases with ⟨-, h⟩ | ⟨-, hle, h⟩ | ⟨hle, h⟩ <;> rw [h] at hleast <;> omega
  · rintro ⟨hpages, htwo, hthree⟩ base mapping hmapping
    rcases mem_mappings.mp hmapping with rfl | ⟨i, hi, hlt, rfl⟩
    · rw [mapped, hfirst, hone, disjoint_buffer_iff]
      rcases hcases with ⟨hlow, h⟩ | ⟨hlow, -, h⟩ | ⟨-, h⟩ <;> rw [h] <;> omega
    · rw [mapped, offset_next hside, hnext i hi hlt, disjoint_buffer_iff]
      omega

/-- The lines of a page map what was asked exactly when the region holds the pages, the pages after the first reach as far as 4 KiB
steps or the first page do, the base is asked for at a multiple of 4 KiB, and no mapping reaches over the end of the region. -/
theorem mapsPages_iff (page : Page) : page.MapsPages ↔ ∃ pageSizeBytes, page.pageSizeBytes = some pageSizeBytes ∧
    page.Fits pageSizeBytes (page.regionSize (pageSizeBytes * page.pagesToGenerate)) := by
  constructor
  · rintro ⟨pageSizeBytes, emission, hbytes, hemission, hmaps⟩
    refine ⟨pageSizeBytes, hbytes, ?_⟩
    rw [Page.emission, hbytes] at hemission
    obtain rfl := Option.some.inj hemission
    obtain ⟨pick, hpick⟩ := exists_picks hbytes
    have hside := lin_mem_sides page pageSizeBytes
    have hsize : (page.lines pageSizeBytes).phys.size = page.regionSize (pageSizeBytes * page.pagesToGenerate) :=
      reservation_size ..
    have hreserved := hmaps.reserved _ (List.mem_cons_of_mem _ (List.mem_singleton_self _))
    exact {
      reserved := hsize ▸ hreserved
      covered := (covers_iff hbytes hside hpick 0).mp (hmaps.covered pick hpick _ hside 0)
      aligned := (aligned_iff hside hpick).mp (hmaps.aligned pick hpick _ hside)
      single := fun hbuffer hsingle => (bufferFree_single_iff hside hsingle).mp fun pick hpick =>
        hsize ▸ hmaps.buffer hbuffer pick hpick _ hside
      several := fun hbuffer hseveral => (bufferFree_several_iff hside hseveral hpick).mp
        (hsize ▸ hmaps.buffer hbuffer pick hpick _ hside) }
  · rintro ⟨pageSizeBytes, hbytes, hfits⟩
    refine ⟨pageSizeBytes, page.lines pageSizeBytes, hbytes, by rw [Page.emission, hbytes]; rfl, ?_⟩
    have hsize : (page.lines pageSizeBytes).phys.size = page.regionSize (pageSizeBytes * page.pagesToGenerate) :=
      reservation_size ..
    refine ⟨?_, ?_, ?_, ?_⟩
    · exact fun pick hpick side hside base => (covers_iff hbytes hside hpick base).mpr hfits.covered
    · exact fun pick hpick side hside => (aligned_iff hside hpick).mpr hfits.aligned
    · intro side hside
      rcases List.mem_pair.mp hside with rfl | rfl
      · show _ ≤ (page.reservation page.name .linear (page.linSize _) _).size
        rw [reservation_size, Page.linSize]
        have hreserved := hfits.reserved
        split_ifs <;> omega
      · exact hsize ▸ hfits.reserved
    · intro hbuffer pick hpick side hside
      rw [hsize]
      by_cases hsingle : page.pagesToGenerate = 1
      · exact (bufferFree_single_iff hside hsingle).mpr (hfits.single hbuffer hsingle) pick hpick
      · exact (bufferFree_several_iff hside hsingle hpick).mpr (hfits.several hbuffer hsingle)

/-- 513 pages of 2 MiB: the first mapping ends 2 MiB before they do, and the others lie inside it. -/
theorem not_mapsPages_megapages :
    ¬ Page.MapsPages { name := "data".toList, size := none, pageSize := some (.single size2M), numPages := some 513 } := by
  rintro ⟨pageSizeBytes, emission, hbytes, hemission, hmaps⟩
  have hpage : Page.pageSizeBytes
      { name := "data".toList, size := none, pageSize := some (.single size2M), numPages := some 513 } = some (2 ^ 21) := rfl
  obtain rfl := Option.some.inj (hpage.symm.trans hbytes)
  rw [Page.emission, hbytes] at hemission
  obtain rfl := Option.some.inj hemission
  obtain ⟨pick, hpick⟩ := exists_picks hbytes
  have hcovered := (covers_iff hbytes (lin_mem_sides _ _) hpick 0).mp (hmaps.covered pick hpick _ (lin_mem_sides _ _) 0)
  exact absurd hcovered (by decide)

end Riescue.PageEmit
