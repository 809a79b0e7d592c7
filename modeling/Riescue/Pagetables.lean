import Riescue.LibOrderedDict
import Riescue.PagingModes
import Riescue.RandNum
import Mathlib.Data.Nat.Bits

/-! The page table builder, `lib/pagetables.py` and `lib/page_map.py`, with g-stage paging disabled (its
branches add pages to other maps only). The tables of a map form a tree that every page extends in
place; here a call returns the updated table. The address generator is a parameter: the addresses that
`generate_address` will still return, any list of them. -/

namespace Riescue.Pagetables
open Paging

/-- The attributes of a page table entry other than `secure`. -/
inductive Attr where
  | v | a | d | r | w | x | u | g | rsw | reserved | pbmt | n
  deriving DecidableEq, Repr

/-- The order in which `PTAttrs.__init__` sets them. -/
def Attr.all : List Attr := [.v, .a, .d, .r, .w, .x, .u, .g, .rsw, .reserved, .pbmt, .n]

/-- `Page.attrs`: the value under the plain name and under the name `{attr}_level{level}`. -/
structure PageAttrs where
  plain : Attr → Option ℕ
  level : Attr → ℕ → Option ℕ
  secure : Option ℕ
  modifyPt : Option ℕ

/-- The attributes `Page.__init__` gives a page. -/
def PageAttrs.default (ubit : ℕ) : PageAttrs where
  plain
    | .v | .r | .w | .x => some 1
    | .a | .d | .n => none
    | .u => some ubit
    | .g | .rsw | .reserved | .pbmt => some 0
  level
    | .v, _ => some 1
    | .a, level | .d, level | .r, level | .w, level | .x, level => some (if level = 0 then 1 else 0)
    | .u, level => some (if level = 0 then ubit else 0)
    | .g, _ | .rsw, _ | .reserved, _ | .pbmt, _ | .n, _ => some 0
  secure := some 0
  modifyPt := some 0

structure Page where
  name : String
  pagesize : RiscvPageSizes := .s4kb
  linAddr : Option ℕ
  physAddr : Option ℕ
  noPbmtNcio : Bool := false
  attrs : PageAttrs

/-- The level of the leaf, set by `Page.set_pagetable_levels`. -/
def Page.ptLeafLevel (page : Page) : ℕ := page.pagesize.ptLeafLevel

/-- The configuration the page tables depend on. -/
structure FeatMgr where
  svadu : Bool := false
  pbmtNcio : Bool := false
  secureMode : Bool := false
  securePtProbability : ℕ := 0
  /-- `priv_mode == USER` -/
  userMode : Bool := false
  /-- `paging_mode == DISABLE` -/
  pagingDisabled : Bool := false

/-- `PTAttrs`: the attributes of one entry. -/
structure PTAttrs where
  leaf : Bool
  plain : Attr → Option ℕ
  level : Attr → ℕ → ℕ
  secure : ℕ
  modifyPt : ℕ

namespace PTAttrs

/-- `PTAttrs.base_attrs` -/
def base (leaf : Bool) : PTAttrs where
  leaf
  plain
    | .v | .a | .d => none
    | .r | .w | .x => some 1
    | .u | .g | .rsw | .reserved | .pbmt | .n => some 0
  level
    | .v, _ => 1
    | .r, level | .w, level | .x, level => if level = 0 then 1 else 0
    | .a, _ | .d, _ | .u, _ | .g, _ | .rsw, _ | .reserved, _ | .pbmt, _ | .n, _ => 0
  secure := 0
  modifyPt := 0

/-- The attributes of the page over the defaults; an attribute of the page that is `None` is skipped. -/
def ofPage (page : Page) (leaf : Bool) : PTAttrs where
  leaf
  plain attr := (page.attrs.plain attr).or ((base leaf).plain attr)
  level attr level := (page.attrs.level attr level).getD ((base leaf).level attr level)
  secure := page.attrs.secure.getD (base leaf).secure
  modifyPt := page.attrs.modifyPt.getD (base leaf).modifyPt

def setPlain (attrs : PTAttrs) (attr : Attr) (value : ℕ) : PTAttrs :=
  { attrs with plain := fun other => if other = attr then some value else attrs.plain other }

/-- An `a` or `d` that is `None` in a leaf is drawn when svadu is on and 1 otherwise. -/
def resolveAccessed (featmgr : FeatMgr) (attrs : PTAttrs) (rng : RandNum) (attr : Attr) : PTAttrs × RandNum :=
  if attrs.leaf ∧ (attr = .a ∨ attr = .d) ∧ attrs.plain attr = none then
    if featmgr.svadu then
      let (set, rng) := rng.withProbabilityOf 50
      (attrs.setPlain attr (if set then 1 else 0), rng)
    else (attrs.setPlain attr 1, rng)
  else (attrs, rng)

/-- The loop over the attribute names: whatever the leaf branch stored, the value of the level is
assigned last. -/
def setLevel (featmgr : FeatMgr) (level : ℕ) : List Attr → PTAttrs → RandNum → PTAttrs × RandNum
  | [], attrs, rng => (attrs, rng)
  | attr :: rest, attrs, rng =>
      let (attrs, rng) := resolveAccessed featmgr attrs rng attr
      setLevel featmgr level rest (attrs.setPlain attr (attrs.level attr level)) rng

/-- `PTAttrs.__init__` -/
def init (rng : RandNum) (featmgr : FeatMgr) (level : ℕ) (page : Page) (leaf : Bool) : PTAttrs × RandNum :=
  setLevel featmgr level Attr.all (ofPage page leaf) rng

end PTAttrs

/-- `PTEntry`, over the type of the tables. -/
structure PTEntryOf (Table : Type) where
  basetable : Table
  ptAttr : PTAttrs
  level : ℕ
  leaf : Bool

/-- `PTTable`: a table with its entries by index. -/
structure PTTable where
  baseAddr : ℕ
  leaf : Bool
  table : List (ℕ × PTEntryOf PTTable)

abbrev PTEntry := PTEntryOf PTTable

namespace PTTable

def insertEntry (base : PTTable) (entry : PTEntry) (index : ℕ) : PTTable :=
  { base with table := OrderedDict.insert base.table index entry }

/-- `entry_exists` and `get_entry`. -/
def getEntry (base : PTTable) (index : ℕ) : Option PTEntry := OrderedDict.get? base.table index

@[simp] theorem getEntry_insertEntry_self (base : PTTable) (entry : PTEntry) (index : ℕ) :
    (base.insertEntry entry index).getEntry index = some entry :=
  OrderedDict.get?_insert_self base.table index entry

theorem getEntry_insertEntry_ne (base : PTTable) (entry : PTEntry) {index other : ℕ} (hne : other ≠ index) :
    (base.insertEntry entry index).getEntry other = base.getEntry other :=
  OrderedDict.get?_insert_ne base.table entry hne

/-- A table without entries. -/
def fresh (baseAddr : ℕ) (leaf : Bool) : PTTable := ⟨baseAddr, leaf, []⟩

@[simp] theorem getEntry_fresh (baseAddr : ℕ) (leaf : Bool) (index : ℕ) :
    (fresh baseAddr leaf).getEntry index = none := rfl

end PTTable

/-- The exceptions of the builder. -/
inductive PtFault where
  /-- "PageMap ... basetable is None - initialize() must be called before create_pagetables()" -/
  | noBasetable (pageMap : String)
  /-- `ValueError` of `index_bits` -/
  | indexBits (fault : NoIndexBits)
  /-- "Linear address is None for page ..." -/
  | noLinAddr (page : String)
  /-- "Physical address is None for page ..." -/
  | noPhysAddr (page : String)
  /-- "Failed to generate physical address for pagetable with constraint ... for page ... at level ..." -/
  | noTableAddress (page : String) (level : ℕ)
  /-- The address generator's own exception, for the page that maps a table. -/
  | noLinearAddress
  /-- "... already exist in random_addr, trying to add again" -/
  | duplicateAddr (name : String)
  deriving DecidableEq, Repr

/-- What the builder reads and changes besides the tables: the random generator, the addresses the
address generator will return, the names in `pool.random_addrs` and `page_map.pt_pages`. -/
structure State where
  rng : RandNum
  physical : List ℕ
  linear : List ℕ
  randomAddrs : List String
  ptPages : List (String × Page)

/-- What the builder reads of a `PageMap`. -/
structure MapInfo where
  name : String
  pagingMode : RiscvPagingModes
  gMap : Bool := false

/-- `Pagetables.calc_index_from_va` -/
def calcIndexFromVa (mode : RiscvPagingModes) (page : Page) (level : ℕ) : Except PtFault ℕ :=
  match mode.indexBits level with
  | .error fault => .error (.indexBits fault)
  | .ok (indexHi, indexLo) =>
      match page.linAddr with
      | none => .error (.noLinAddr page.name)
      | some linAddr => .ok (bits linAddr indexHi indexLo)

namespace State

/-- `addrgen.generate_address` for the table of a level. -/
def generateTable (state : State) (page : Page) (level : ℕ) : Except PtFault (ℕ × State) :=
  match state.physical with
  | [] => .error (.noTableAddress page.name level)
  | addr :: rest => .ok (addr, { state with physical := rest })

/-- `addrgen.generate_address` for a linear address. -/
def generateLinear (state : State) : Except PtFault (ℕ × State) :=
  match state.linear with
  | [] => .error .noLinearAddress
  | addr :: rest => .ok (addr, { state with linear := rest })

/-- `Pool.add_random_addr` -/
def addRandomAddr (state : State) (name : String) : Except PtFault State :=
  if name ∈ state.randomAddrs then .error (.duplicateAddr name)
  else .ok { state with randomAddrs := name :: state.randomAddrs }

/-- `PageMap.add_raw_pt_page` with the defaults of the two calls here. -/
def addRawPtPage (featmgr : FeatMgr) (state : State) (linearName physicalName : String)
    (linearAddr physicalAddr : ℕ) : Except PtFault State :=
  let ubit := if featmgr.userMode ∨ featmgr.pagingDisabled then 1 else 0
  let attrs := PageAttrs.default ubit
  let page : Page :=
    { name := linearName
      linAddr := some linearAddr
      physAddr := some physicalAddr
      attrs := if featmgr.userMode then
          { attrs with plain := fun attr => if attr = .u then some 1 else attrs.plain attr }
        else attrs }
  let state := { state with ptPages := OrderedDict.insert state.ptPages linearName page }
  state.addRandomAddr linearName >>= fun state => state.addRandomAddr physicalName

/-- The page that maps the entry at `index` of a table, added when the page sets `modify_pt`. -/
def addModifyPage (featmgr : FeatMgr) (map : MapInfo) (ptAttr : PTAttrs) (page : Page) (level : ℕ)
    (base : PTTable) (index : ℕ) (state : State) : Except PtFault State :=
  if ptAttr.modifyPt ≠ 0 ∧ ¬map.gMap then
    state.generateLinear >>= fun (linAddr, state) =>
      let linearName := s!"{page.name}__pt_level{level}"
      state.addRawPtPage featmgr linearName s!"{linearName}__phys" (linAddr + index * 8)
        (base.baseAddr + index * 8)
  else .ok state

end State

/-- The bit that marks a secure physical address. -/
def secureBit : ℕ := 0x0080000000000000

/-- Whether the next table is to be a secure one. -/
def drawSecure (featmgr : FeatMgr) (rng : RandNum) : Bool × RandNum :=
  if featmgr.secureMode then rng.withProbabilityOf featmgr.securePtProbability else (false, rng)

/-- `Pagetables._create_pt_non_leaf`: the table it was given, with the new entry if there was none, and
the entry that leads on with its index; no entry when a leaf stands in the way. -/
def createPtNonLeaf (featmgr : FeatMgr) (map : MapInfo) (page : Page) (level : ℕ) (base : PTTable)
    (state : State) : Except PtFault (PTTable × Option (ℕ × PTEntry) × State) :=
  let attrs := PTAttrs.init state.rng featmgr level page false
  calcIndexFromVa map.pagingMode page level >>= fun index =>
    match base.getEntry index with
    | some entry =>
        .ok (base, if entry.leaf then none else some (index, entry), { state with rng := attrs.2 })
    | none =>
        let secure := drawSecure featmgr attrs.2
        State.generateTable { state with rng := secure.2 } page level >>= fun generated =>
          let baseAddr := if secure.1 then generated.1 ||| secureBit else generated.1
          generated.2.addModifyPage featmgr map attrs.1 page level base index >>= fun state =>
            let entry : PTEntry := ⟨PTTable.fresh baseAddr false, attrs.1, level, false⟩
            .ok (base.insertEntry entry index, some (index, entry), state)

/-- The leaf entries of a 64K page: sixteen neighbours, each with its own attributes. -/
def insertNapot (featmgr : FeatMgr) (page : Page) (level : ℕ) (n : Option ℕ) (napotPhysAddr baseIndex : ℕ) :
    List ℕ → PTTable → RandNum → PTTable × RandNum
  | [], base, rng => (base, rng)
  | i :: rest, base, rng =>
      let (attrs, rng) := PTAttrs.init rng featmgr level page true
      let attrs := { attrs with plain := fun attr => if attr = .n then n else attrs.plain attr }
      let entry : PTEntry := ⟨PTTable.fresh napotPhysAddr true, attrs, level, true⟩
      insertNapot featmgr page level n napotPhysAddr baseIndex rest
        (base.insertEntry entry (baseIndex + i)) rng

/-- The attributes of a leaf, its memory type drawn when `pbmt_ncio` is on. -/
def leafAttrs (rng : RandNum) (featmgr : FeatMgr) (level : ℕ) (page : Page) : PTAttrs × RandNum :=
  let (ptAttr, rng) := PTAttrs.init rng featmgr level page true
  if featmgr.pbmtNcio ∧ ¬page.noPbmtNcio then
    let (nc, rng) := rng.withProbabilityOf 50
    (ptAttr.setPlain .pbmt (if nc then 1 else 2), rng)
  else (ptAttr, rng)

/-- The end of `_create_pt_leaf`: the one entry of the page, or sixteen for 64K. -/
def insertLeaf (featmgr : FeatMgr) (page : Page) (level : ℕ) (ptAttr : PTAttrs) (physAddr index : ℕ)
    (base : PTTable) (rng : RandNum) : PTTable × RandNum :=
  let physAddr := if ptAttr.secure ≠ 0 then physAddr ||| secureBit else physAddr
  if page.pagesize = .s64kb then
    let ptAttr :=
      if page.attrs.plain .n = none ∨ page.attrs.plain .n = some 1 then ptAttr.setPlain .n 1 else ptAttr
    let napotPhysAddr := Nat.ldiff physAddr 0xF000 ||| 0x8000
    insertNapot featmgr page level (ptAttr.plain .n) napotPhysAddr (Nat.ldiff index 0xF) (List.range 16) base rng
  else
    let entry : PTEntry := ⟨PTTable.fresh physAddr true, ptAttr, level, true⟩
    (base.insertEntry entry index, rng)

/-- `Pagetables._create_pt_leaf` -/
def createPtLeaf (featmgr : FeatMgr) (map : MapInfo) (page : Page) (level : ℕ) (base : PTTable)
    (state : State) : Except PtFault (PTTable × State) :=
  let attrs := leafAttrs state.rng featmgr level page
  calcIndexFromVa map.pagingMode page level >>= fun index =>
    State.addModifyPage featmgr map attrs.1 page level base index { state with rng := attrs.2 } >>= fun state =>
      match page.physAddr with
      | none => .error (.noPhysAddr page.name)
      | some physAddr =>
          let inserted := insertLeaf featmgr page level attrs.1 physAddr index base state.rng
          .ok (inserted.1, { state with rng := inserted.2 })

/-- The loop of `Pagetables.create_pagetables` from a level down. It starts at `max_levels - 1` and makes
`max_levels - 1` turns at most, so it reaches level 0. What is created below an entry is written to the
table the entry points to. -/
def createLevels (featmgr : FeatMgr) (map : MapInfo) (page : Page) :
    ℕ → PTTable → State → Except PtFault (PTTable × State)
  | 0, base, state => createPtLeaf featmgr map page 0 base state
  | level + 1, base, state =>
      if level + 1 = page.ptLeafLevel then createPtLeaf featmgr map page (level + 1) base state
      else
        createPtNonLeaf featmgr map page (level + 1) base state >>= fun (base, next, state) =>
          match next with
          | none => .ok (base, state)
          | some (index, entry) =>
              createLevels featmgr map page level entry.basetable state >>= fun (table, state) =>
                .ok (base.insertEntry { entry with basetable := table } index, state)

/-- `Pagetables.create_pagetables` for one page. -/
def createPagetables (featmgr : FeatMgr) (map : MapInfo) (page : Page) (basetable : Option PTTable)
    (state : State) : Except PtFault (PTTable × State) :=
  match basetable with
  | none => .error (.noBasetable map.name)
  | some root => createLevels featmgr map page (map.pagingMode.maxLevels - 1) root state

/-- The body of a loop over pages. -/
def createAll (featmgr : FeatMgr) (map : MapInfo) :
    List Page → Option PTTable → State → Except PtFault (Option PTTable × State)
  | [], basetable, state => .ok (basetable, state)
  | page :: rest, basetable, state =>
      createPagetables featmgr map page basetable state >>= fun (root, state) =>
        createAll featmgr map rest (some root) state

/-- `PageMap` -/
structure PageMap where
  info : MapInfo
  pages : List (String × Page)
  ptPages : List (String × Page)
  basetable : Option PTTable

/-- `PageMap.create_base_table` -/
def PageMap.createBaseTable (map : PageMap) (sptbr : ℕ) : PageMap :=
  { map with basetable := some (PTTable.fresh sptbr false) }

/-- `PageMap.create_pagetables`: the pages of the map, then those that were added to map tables. -/
def PageMap.createPagetables (featmgr : FeatMgr) (map : PageMap) (state : State) :
    Except PtFault (PageMap × State) :=
  let state := { state with ptPages := map.ptPages }
  createAll featmgr map.info (map.pages.map Prod.snd) map.basetable state >>= fun (basetable, state) =>
    let pages := state.ptPages.foldl (fun pages page => OrderedDict.insert pages page.1 page.2) map.pages
    createAll featmgr map.info (state.ptPages.map Prod.snd) basetable state >>= fun (basetable, final) =>
      .ok ({ map with pages, ptPages := final.ptPages, basetable }, final)

end Riescue.Pagetables
