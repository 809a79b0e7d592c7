import Riescue.LibBitfields
import Riescue.LibExcept

/-! The trigger module, `lib/sdtrig.py`: the names that directives use for the types, actions and matches of triggers, and the
values of `tdata1` that configure them. -/

namespace Riescue.Sdtrig
open Bitfields

inductive TriggerType where
  | execute | load | store | loadStore | icount | itrigger | etrigger
  deriving DecidableEq, Repr

inductive TriggerAction where
  | breakpoint | debugMode | traceOn | traceOff | traceNotify
  deriving DecidableEq, Repr

/-- `TriggerMatch` -/
inductive TriggerMatch where
  | equal | napot | ge | lt | maskLow | maskHigh | ne | notNapot | notMaskLow | notMaskHigh
  deriving DecidableEq, Repr

/-- The modes a trigger is enabled for. -/
inductive PrivMode where
  | m | s | u | vs | vu
  deriving DecidableEq, Repr

inductive TriggerFault where
  | unknownType (name : String)
  | unknownAction (name : String)
  | unknownMatch (name : String)
  | unknownPrivMode (token : String)
  | unsupportedType (triggerType : TriggerType)
  deriving DecidableEq, Repr

namespace TriggerType

def all : List TriggerType := [.execute, .load, .store, .loadStore, .icount, .itrigger, .etrigger]

def value : TriggerType → String
  | .execute => "execute"
  | .load => "load"
  | .store => "store"
  | .loadStore => "load_store"
  | .icount => "icount"
  | .itrigger => "itrigger"
  | .etrigger => "etrigger"

def strToEnum (s : String) : Except TriggerFault TriggerType :=
  match all.find? fun t => t.value = s.toLower with
  | some t => .ok t
  | none => .error (.unknownType s)

end TriggerType

namespace TriggerAction

def all : List TriggerAction := [.breakpoint, .debugMode, .traceOn, .traceOff, .traceNotify]

/-- The encoding in `tdata1`. -/
def value : TriggerAction → ℕ
  | .breakpoint => 0
  | .debugMode => 1
  | .traceOn => 2
  | .traceOff => 3
  | .traceNotify => 4

/-- The key in the map of `str_to_enum`. -/
def name : TriggerAction → String
  | .breakpoint => "breakpoint"
  | .debugMode => "debug_mode"
  | .traceOn => "trace_on"
  | .traceOff => "trace_off"
  | .traceNotify => "trace_notify"

def strToEnum (s : String) : Except TriggerFault TriggerAction :=
  match all.find? fun a => a.name = s.toLower with
  | some a => .ok a
  | none => .error (.unknownAction s)

end TriggerAction

namespace TriggerMatch

def all : List TriggerMatch :=
  [.equal, .napot, .lt, .ge, .maskLow, .maskHigh, .ne, .notNapot, .notMaskLow, .notMaskHigh]

/-- The encoding in `tdata1`. -/
def value : TriggerMatch → ℕ
  | .equal => 0
  | .napot => 1
  | .ge => 2
  | .lt => 3
  | .maskLow => 4
  | .maskHigh => 5
  | .ne => 8
  | .notNapot => 9
  | .notMaskLow => 12
  | .notMaskHigh => 13

/-- The key in the map of `str_to_enum`. -/
def name : TriggerMatch → String
  | .equal => "equal"
  | .napot => "napot"
  | .lt => "lt"
  | .ge => "ge"
  | .maskLow => "mask_low"
  | .maskHigh => "mask_high"
  | .ne => "ne"
  | .notNapot => "not_napot"
  | .notMaskLow => "not_mask_low"
  | .notMaskHigh => "not_mask_high"

def strToEnum (s : String) : Except TriggerFault TriggerMatch :=
  match all.find? fun m => m.name = s.toLower with
  | some m => .ok m
  | none => .error (.unknownMatch s)

end TriggerMatch

namespace PrivMode

/-- `_ALL_MODES` -/
def all : List PrivMode := [.m, .s, .u, .vs, .vu]

def token : PrivMode → String
  | .m => "m"
  | .s => "s"
  | .u => "u"
  | .vs => "vs"
  | .vu => "vu"

/-- The modes that a token stands for. -/
def expand (token : String) : Except TriggerFault (List PrivMode) :=
  if token = "any" then .ok all
  else match all.find? fun mode => mode.token = token with
    | some mode => .ok [mode]
    | none => .error (.unknownPrivMode token)

end PrivMode

/-- `_DEFAULT_PRIV_MODE` -/
def defaultPrivMode : List String := ["m", "s", "u", "vs", "vu"]

/-- `modes_to_priv_bits` -/
def modesToPrivBits (privMode : List String) : Except TriggerFault (PrivMode → ℕ) := do
  let expanded ← privMode.mapM PrivMode.expand
  .ok fun mode => if mode ∈ expanded.flatten then 1 else 0

/-- `size_to_encoding` -/
def sizeToEncoding (size : ℤ) : ℕ :=
  if size = 1 then 0 else if size = 2 then 1 else if size = 4 then 2 else if size = 8 then 3 else 2

/-- The load, store and execute bits of a type. -/
def accessBits : TriggerType → Except TriggerFault ℕ
  | .execute => .ok (1 <<< 2)
  | .load => .ok (1 <<< 0)
  | .store => .ok (1 <<< 1)
  | .loadStore => .ok (1 <<< 0 ||| 1 <<< 1)
  | other => .error (.unsupportedType other)

/-- The low bits of a number, `value & (2 ^ width - 1)`. -/
def lowBits (width : ℕ) (value : ℤ) : ℕ := (value % 2 ^ width).toNat

/-- `build_tdata1_mcontrol6` -/
def buildTdata1Mcontrol6 (triggerType : TriggerType) (action : TriggerAction := .breakpoint) (size : ℤ := 4) (chain : ℤ := 0)
    (matchType : TriggerMatch := .equal) (privMode : List String := defaultPrivMode) : Except TriggerFault ℕ := do
  let bits ← modesToPrivBits privMode
  let access ← accessBits triggerType
  .ok (pack [(⟨60, 4⟩, 6), (⟨12, 4⟩, action.value &&& 0xF), (⟨16, 3⟩, sizeToEncoding size &&& 7), (⟨11, 1⟩, lowBits 1 chain),
    (⟨7, 4⟩, matchType.value &&& 0xF), (⟨6, 1⟩, bits .m), (⟨4, 1⟩, bits .s), (⟨3, 1⟩, bits .u), (⟨24, 1⟩, bits .vs),
    (⟨23, 1⟩, bits .vu), (⟨0, 3⟩, access)] &&& 0xFFFFFFFFFFFFFFFF)

/-- `build_tdata1_icount` -/
def buildTdata1Icount (count : ℤ) (action : TriggerAction := .breakpoint) (privMode : List String := defaultPrivMode)
    (pending : ℤ := 0) : Except TriggerFault ℕ := do
  let bits ← modesToPrivBits privMode
  .ok (pack [(⟨60, 4⟩, 3), (⟨26, 1⟩, bits .vs), (⟨25, 1⟩, bits .vu), (⟨10, 14⟩, lowBits 14 count), (⟨9, 1⟩, bits .m),
    (⟨8, 1⟩, lowBits 1 pending), (⟨7, 1⟩, bits .s), (⟨6, 1⟩, bits .u), (⟨0, 6⟩, action.value &&& 0x3F)] &&&
    0xFFFFFFFFFFFFFFFF)

/-- The value of an interrupt or an exception trigger. -/
def buildTdata1Cause (type : ℕ) (action : TriggerAction) (privMode : List String) : Except TriggerFault ℕ := do
  let bits ← modesToPrivBits privMode
  .ok (pack [(⟨60, 4⟩, type), (⟨12, 1⟩, bits .vs), (⟨11, 1⟩, bits .vu), (⟨9, 1⟩, bits .m), (⟨7, 1⟩, bits .s),
    (⟨6, 1⟩, bits .u), (⟨0, 6⟩, action.value &&& 0x3F)] &&& 0xFFFFFFFFFFFFFFFF)

/-- `build_tdata1_itrigger` -/
def buildTdata1Itrigger (action : TriggerAction := .breakpoint) (privMode : List String := defaultPrivMode) :
    Except TriggerFault ℕ := buildTdata1Cause 4 action privMode

/-- `build_tdata1_etrigger` -/
def buildTdata1Etrigger (action : TriggerAction := .breakpoint) (privMode : List String := defaultPrivMode) :
    Except TriggerFault ℕ := buildTdata1Cause 5 action privMode

/-! ### The enable bits -/

/-- The type of the trigger that a value configures. -/
def typeOf (tdata1 : ℕ) : ℕ := Slot.get ⟨60, 4⟩ tdata1

/-- The bit that enables an `mcontrol6` trigger for a mode. -/
def mcontrol6Bit : PrivMode → ℕ
  | .m => 6
  | .s => 4
  | .u => 3
  | .vs => 24
  | .vu => 23

def icountBit : PrivMode → ℕ
  | .m => 9
  | .s => 7
  | .u => 6
  | .vs => 26
  | .vu => 25

/-- The bit that enables an interrupt or exception trigger for a mode. -/
def causeBit : PrivMode → ℕ
  | .m => 9
  | .s => 7
  | .u => 6
  | .vs => 12
  | .vu => 11

/-- The bit that enables a trigger of the type for a mode. Other types have no such bits here. -/
def enableBit (type : ℕ) (mode : PrivMode) : Option ℕ :=
  if type = 6 then some (mcontrol6Bit mode) else if type = 3 then some (icountBit mode)
  else if type = 4 ∨ type = 5 then some (causeBit mode) else none

/-- The value enables the trigger for the mode. -/
def Enables (tdata1 : ℕ) (mode : PrivMode) : Prop := ∃ bit, enableBit (typeOf tdata1) mode = some bit ∧ tdata1.testBit bit = true

/-- A list of tokens names the mode. -/
def Names (privMode : List String) (mode : PrivMode) : Prop :=
  ∃ expanded, privMode.mapM PrivMode.expand = .ok expanded ∧ mode ∈ expanded.flatten

theorem modesToPrivBits_ok {privMode : List String} {bits : PrivMode → ℕ} (h : modesToPrivBits privMode = .ok bits) :
    ∀ mode, bits mode < 2 ^ 1 ∧ (bits mode = 1 ↔ Names privMode mode) := by
  obtain ⟨expanded, hexpanded, hbits⟩ := Fallible.bind_ok h
  obtain rfl := Except.ok.inj hbits
  intro mode
  have hnames : Names privMode mode ↔ mode ∈ expanded.flatten := by
    constructor
    · rintro ⟨expanded', hexpanded', hmode⟩
      obtain rfl := Except.ok.inj (hexpanded'.symm.trans hexpanded)
      exact hmode
    · exact fun hmode => ⟨expanded, hexpanded, hmode⟩
  rw [hnames]
  dsimp only
  split_ifs with hmode
  · exact ⟨by decide, iff_of_true rfl hmode⟩
  · exact ⟨by decide, iff_of_false (by decide) hmode⟩

theorem lowBits_lt (width : ℕ) (value : ℤ) : lowBits width value < 2 ^ width := by
  have hcast : ((2 ^ width : ℕ) : ℤ) = 2 ^ width := Int.natCast_pow 2 width
  have hpos := Nat.two_pow_pos width
  have hlt := Int.emod_lt_of_pos value (by omega : (0 : ℤ) < 2 ^ width)
  have hnonneg := Int.emod_nonneg value (by omega : (2 : ℤ) ^ width ≠ 0)
  rw [lowBits]
  omega

/-- What the fields of a packed value are, with the mask to 64 bits. -/
theorem get_packed {fields : List (Slot × ℕ)} (hfits : Fits fields) {field : Slot × ℕ} (hfield : field ∈ fields)
    (hslot : field.1.lo + field.1.width ≤ 64) : field.1.get (pack fields &&& 0xFFFFFFFFFFFFFFFF) = field.2 := by
  have hones : (0xFFFFFFFFFFFFFFFF : ℕ) = 2 ^ 64 - 1 := by decide
  rw [hones, Slot.get_and_ones hslot, hfits.get_pack hfield]

/-- A value with the mode bits of a list in their places enables the modes of the list. -/
theorem enables_packed {fields : List (Slot × ℕ)} (hfits : Fits fields) {type : ℕ} (htype : (⟨60, 4⟩, type) ∈ fields)
    {bitOf : PrivMode → ℕ} (henable : ∀ mode, enableBit type mode = some (bitOf mode)) (hlt : ∀ mode, bitOf mode < 64)
    {privMode : List String} {bits : PrivMode → ℕ} (hbits : modesToPrivBits privMode = .ok bits)
    (hmem : ∀ mode, (⟨bitOf mode, 1⟩, bits mode) ∈ fields) (mode : PrivMode) :
    Enables (pack fields &&& 0xFFFFFFFFFFFFFFFF) mode ↔ Names privMode mode := by
  have htypeOf : typeOf (pack fields &&& 0xFFFFFFFFFFFFFFFF) = type := get_packed hfits htype (Nat.le_refl 64)
  have hbit : Slot.get ⟨bitOf mode, 1⟩ (pack fields &&& 0xFFFFFFFFFFFFFFFF) = bits mode :=
    get_packed hfits (hmem mode) (hlt mode)
  rw [← (modesToPrivBits_ok hbits mode).2, Enables, htypeOf, henable]
  constructor
  · rintro ⟨bit, heq, htest⟩
    obtain rfl := Option.some.inj heq
    rw [Slot.testBit_eq_get, hbit] at htest
    exact of_decide_eq_true htest
  · intro hone
    exact ⟨_, rfl, by rw [Slot.testBit_eq_get, hbit]; exact decide_eq_true hone⟩

theorem and_ones_lt (width value : ℕ) : value &&& (2 ^ width - 1) < 2 ^ width := by
  rw [Nat.and_two_pow_sub_one_eq_mod]
  exact Nat.mod_lt _ (Nat.two_pow_pos width)

theorem accessBits_lt {triggerType : TriggerType} {access : ℕ} (h : accessBits triggerType = .ok access) : access < 2 ^ 3 := by
  cases triggerType <;> cases h <;> decide

/-- `mcontrol6` values enable the modes that the arguments name. -/
theorem enables_buildTdata1Mcontrol6 {triggerType : TriggerType} {action : TriggerAction} {size chain : ℤ}
    {matchType : TriggerMatch} {privMode : List String} {tdata1 : ℕ}
    (h : buildTdata1Mcontrol6 triggerType action size chain matchType privMode = .ok tdata1) (mode : PrivMode) :
    Enables tdata1 mode ↔ Names privMode mode := by
  obtain ⟨bits, hbits, h⟩ := Fallible.bind_ok h
  obtain ⟨access, haccess, h⟩ := Fallible.bind_ok h
  obtain rfl := Except.ok.inj h
  have hbit : ∀ mode, bits mode < 2 ^ 1 := fun mode => (modesToPrivBits_ok hbits mode).1
  refine @enables_packed _ ⟨by simp [Slot.Apart], ?_⟩ 6 (by simp) mcontrol6Bit (fun _ => rfl)
    (fun mode => by cases mode <;> decide) _ _ hbits (fun mode => by cases mode <;> simp [mcontrol6Bit]) mode
  simp only [List.forall_mem_cons, List.not_mem_nil, false_imp_iff, implies_true, and_true]
  exact ⟨by decide, and_ones_lt 4 _, and_ones_lt 3 _, lowBits_lt 1 chain, and_ones_lt 4 _, hbit _, hbit _, hbit _, hbit _,
    hbit _, accessBits_lt haccess⟩

theorem enables_buildTdata1Icount {count pending : ℤ} {action : TriggerAction} {privMode : List String} {tdata1 : ℕ}
    (h : buildTdata1Icount count action privMode pending = .ok tdata1) (mode : PrivMode) :
    Enables tdata1 mode ↔ Names privMode mode := by
  obtain ⟨bits, hbits, h⟩ := Fallible.bind_ok h
  obtain rfl := Except.ok.inj h
  have hbit : ∀ mode, bits mode < 2 ^ 1 := fun mode => (modesToPrivBits_ok hbits mode).1
  refine @enables_packed _ ⟨by simp [Slot.Apart], ?_⟩ 3 (by simp) icountBit (fun _ => rfl)
    (fun mode => by cases mode <;> decide) _ _ hbits (fun mode => by cases mode <;> simp [icountBit]) mode
  simp only [List.forall_mem_cons, List.not_mem_nil, false_imp_iff, implies_true, and_true]
  exact ⟨by decide, hbit _, hbit _, lowBits_lt 14 count, hbit _, lowBits_lt 1 pending, hbit _, hbit _, and_ones_lt 6 _⟩

theorem enables_buildTdata1Cause {type : ℕ} (htype : type = 4 ∨ type = 5) {action : TriggerAction} {privMode : List String}
    {tdata1 : ℕ} (h : buildTdata1Cause type action privMode = .ok tdata1) (mode : PrivMode) :
    Enables tdata1 mode ↔ Names privMode mode := by
  obtain ⟨bits, hbits, h⟩ := Fallible.bind_ok h
  obtain rfl := Except.ok.inj h
  have hbit : ∀ mode, bits mode < 2 ^ 1 := fun mode => (modesToPrivBits_ok hbits mode).1
  refine @enables_packed _ ⟨by simp [Slot.Apart], ?_⟩ type (by simp) causeBit
    (fun mode => by rcases htype with rfl | rfl <;> rfl) (fun mode => by cases mode <;> decide) _ _ hbits
    (fun mode => by cases mode <;> simp [causeBit]) mode
  simp only [List.forall_mem_cons, List.not_mem_nil, false_imp_iff, implies_true, and_true]
  exact ⟨by rcases htype with rfl | rfl <;> decide, hbit _, hbit _, hbit _, hbit _, hbit _, and_ones_lt 6 _⟩

end Riescue.Sdtrig
