import Mathlib.Data.Nat.Bitwise
import Mathlib.Tactic.Ring
import Riescue.LibAssembly
import Riescue.LibExcept

/-! Access to CSRs and their fields, `csr_manager/csr_manager_config.py`: the code that reads and writes a CSR as a whole, and
the code that reads and writes one field of it. -/

namespace Riescue.CsrAccess
open Machine (Reg)
open Assembly

abbrev t2 : Reg := 7
abbrev t3 : Reg := 28
abbrev t4 : Reg := 29

abbrev Instr := Assembly.Instr String String

inductive CsrFault where
  | noGpr (reserved exclude : List Reg)
  | subfieldNotFound (field csrName : String)
  | noInstruction (csrName : String)
  deriving DecidableEq, Repr

/-- `DtestInstructionHelper` -/
structure DtestInstructionHelper where
  exclude : List Reg := []
  reserved : List Reg := []

namespace DtestInstructionHelper

def regs : List Reg := [t2, t3, t4]

/-- `get_random_gpr_reserve` -/
def getRandomGprReserve (helper : DtestInstructionHelper) : Except CsrFault (Reg × DtestInstructionHelper) :=
  match (regs.filter fun r => r ∉ helper.exclude ∧ r ∉ helper.reserved).head? with
  | none => .error (.noGpr helper.reserved helper.exclude)
  | some r => .ok (r, { helper with reserved := helper.reserved ++ [r] })

end DtestInstructionHelper

/-- The `fields-range` of a field. A single bit is both ends. -/
structure FieldRange where
  higher : ℕ
  lower : ℕ
  hle : lower ≤ higher
  hlt : higher < 64

namespace FieldRange

def width (range : FieldRange) : ℕ := range.higher - range.lower + 1

def fieldMask (range : FieldRange) : ℕ := 1 <<< range.width - 1

/-- The bits of the register outside the field. -/
def andMask (range : FieldRange) : ℕ := Nat.ldiff 0xFFFFFFFFFFFFFFFF (range.fieldMask <<< range.lower)

/-- The second mask of `utils_and_or_mask`. -/
def orMask (range : FieldRange) (value : ℤ) : ℤ := value * 2 ^ range.lower

end FieldRange

/-- `CsrConfig`, with the name of the CSR. -/
structure CsrConfig where
  name : String
  fields : List (String × FieldRange)

inductive AccessType where
  | writeSubfield | write | set | clear | writeImm | clearImm | setImm | read | readSubfield
  deriving DecidableEq, Repr

/-- The arguments of `csr_access`. -/
structure Access where
  accessType : AccessType
  value : Option ℤ := none
  imm : Option ℤ := none
  rs : Option Reg := none
  rd : Option Reg := none
  subfieldName : String := ""
  subfieldVal : Option ℤ := none
  valueInReg : Bool := false

/-- `utils_access_csr` of `csrrw`, `csrrs` and `csrrc`. -/
def utilsAccessCsr (op : CsrOp) (rd : Reg) (csr : String) (value : Option ℤ) (rs : Reg) : List Instr :=
  (match value with
    | some value => [.li rs value]
    | none => []) ++ [.csr op rd csr.toLower (.reg rs)]

/-- `utils_access_csr` of the immediate forms. -/
def utilsAccessCsrImm (op : CsrOp) (rd : Reg) (csr : String) (imm : ℤ) : List Instr := [.csr op rd csr.toLower (.imm imm)]

/-- `utils_access_csr` of `csrr`. -/
def utilsReadCsr (rd : Reg) (csr : String) : List Instr := [.csrr rd csr.toLower]

/-- The code of `write_subfield`. -/
def writeSubfield (reg1 reg2 rs : Reg) (csr : String) (range : FieldRange) (subfieldVal : Option ℤ) (valueFromReg : Bool) :
    List Instr :=
  .li reg1 range.andMask :: utilsReadCsr reg2 csr ++ [.alu .and reg2 reg2 reg1] ++
    (if valueFromReg then
      [.alui .andi rs rs range.fieldMask, .alui .slli rs rs range.lower, .alu .or reg2 reg2 rs]
    else [.li reg1 (range.orMask (subfieldVal.getD 0)), .alu .or reg2 reg2 reg1]) ++
    utilsAccessCsr .write 0 csr none reg2

/-- The code of `read_subfield`. -/
def readSubfield (rd : Reg) (csr : String) (range : FieldRange) : List Instr :=
  utilsReadCsr rd csr ++ [.alui .srli rd rd range.lower, .alui .andi rd rd range.fieldMask]

/-- `csr_access`, with the numbers the random generator would give. -/
def csrAccess (randValue randImm : ℤ) (helper : DtestInstructionHelper) (config : CsrConfig) (access : Access) :
    Except CsrFault (List Instr) := do
  let (reg1, helper) ← helper.getRandomGprReserve
  let (reg2, _) ← helper.getRandomGprReserve
  let value := if access.value = none ∧ access.rs = none then some randValue else access.value
  let imm := access.imm.getD randImm
  let rd := access.rd.getD reg2
  let rs := access.rs.getD reg1
  match access.accessType with
  | .writeSubfield =>
      match config.fields.lookup access.subfieldName with
      | some range => pure (writeSubfield reg1 reg2 rs config.name range access.subfieldVal access.valueInReg)
      | none => throw (.noInstruction config.name)
  | .write => pure (utilsAccessCsr .write rd config.name value rs)
  | .set => pure (utilsAccessCsr .set rd config.name value rs)
  | .clear => pure (utilsAccessCsr .clear rd config.name value rs)
  | .writeImm => pure (utilsAccessCsrImm .write rd config.name imm)
  | .clearImm => pure (utilsAccessCsrImm .clear rd config.name imm)
  | .setImm => pure (utilsAccessCsrImm .set rd config.name imm)
  | .read => pure (utilsReadCsr rd config.name)
  | .readSubfield =>
      match config.fields.lookup access.subfieldName with
      | some range => pure (readSubfield rd config.name range)
      | none => throw (.subfieldNotFound access.subfieldName config.name)

/-! ### The accesses to fields -/

/-- `write_subfield` of a number, as the assembly writer asks for it. -/
def numberAccess (field : String) (value : ℕ) : Access where
  accessType := .writeSubfield
  rs := some t2
  rd := some t2
  subfieldName := field
  subfieldVal := some value

/-- `write_subfield` of the number in `t2`, as the CSR access table asks for it. -/
def registerAccess (field : String) : Access where
  accessType := .writeSubfield
  rs := some t2
  rd := some t2
  subfieldName := field
  valueInReg := true

/-- `read_subfield` into `t2`. -/
def readAccess (field : String) : Access where
  accessType := .readSubfield
  rd := some t2
  subfieldName := field
  subfieldVal := some 0

/-- CSRs that hold what is written to them. -/
def plainCsrs : CsrFile (String → BitVec 64) String 64 where
  read csrs name := csrs name
  write csrs name value := Function.update csrs name value

/-- The field has the low bits of the value, and the other bits are as before. -/
def IsWritten (range : FieldRange) (content value result : BitVec 64) : Prop :=
  ∀ i < 64, result.getLsbD i =
    if range.lower ≤ i ∧ i ≤ range.higher then value.getLsbD (i - range.lower) else content.getLsbD i

/-- The two ways to write the field and the way to read it are encodable and exact. -/
def SubfieldExact (wraps : Bool) (randValue randImm : ℤ) (config : CsrConfig) (field : String) (range : FieldRange)
    (content value : BitVec 64) : Prop :=
  ∃ number register read,
    csrAccess randValue randImm {} config (numberAccess field value.toNat) = .ok number ∧
    csrAccess randValue randImm { exclude := [t2] } config (registerAccess field) = .ok register ∧
    csrAccess randValue randImm {} config (readAccess field) = .ok read ∧
    (∀ instr ∈ number ++ register ++ read, instr.Encodable wraps) ∧
    ∀ (symbols : String → BitVec 64) (h : Hart 64 (String → BitVec 64)), h.csrs config.name.toLower = content →
      (∃ h' result, runStraight plainCsrs symbols number h = some h' ∧ IsWritten range content value result ∧
        h'.csrs = Function.update h.csrs config.name.toLower result) ∧
      (h.get t2 = value → ∃ h' result, runStraight plainCsrs symbols register h = some h' ∧
        IsWritten range content value result ∧ h'.csrs = Function.update h.csrs config.name.toLower result) ∧
      ∀ (h₁ : Hart 64 (String → BitVec 64)), IsWritten range content value (h₁.csrs config.name.toLower) →
        ∃ h₂, runStraight plainCsrs symbols read h₁ = some h₂ ∧
          (h₂.get t2).toNat = value.toNat % 2 ^ range.width ∧ h₂.csrs = h₁.csrs

/-! ### Masks -/

section Masks
variable (range : FieldRange)

theorem FieldRange.width_eq : range.lower + range.width = range.higher + 1 := by
  have hle := range.hle
  rw [FieldRange.width]
  omega

theorem FieldRange.fieldMask_eq : range.fieldMask = 2 ^ range.width - 1 := by
  rw [FieldRange.fieldMask, Nat.one_shiftLeft]

theorem getLsbD_ofInt_natCast (n i : ℕ) : (BitVec.ofInt 64 (n : ℤ)).getLsbD i = (decide (i < 64) && n.testBit i) := by
  rw [BitVec.ofInt_natCast, BitVec.getLsbD_ofNat]

theorem getLsbD_fieldMask {i : ℕ} (hi : i < 64) :
    (BitVec.ofInt 64 (range.fieldMask : ℤ)).getLsbD i = decide (i < range.width) := by
  rw [getLsbD_ofInt_natCast, range.fieldMask_eq, Nat.testBit_two_pow_sub_one, decide_eq_true hi, Bool.true_and]

theorem getLsbD_andMask {i : ℕ} (hi : i < 64) :
    (BitVec.ofInt 64 (range.andMask : ℤ)).getLsbD i = !decide (range.lower ≤ i ∧ i ≤ range.higher) := by
  have hwidth := range.width_eq
  have hones : (0xFFFFFFFFFFFFFFFF : ℕ) = 2 ^ 64 - 1 := by decide
  rw [getLsbD_ofInt_natCast, FieldRange.andMask, Nat.testBit_ldiff, Nat.testBit_shiftLeft, range.fieldMask_eq, hones,
    Nat.testBit_two_pow_sub_one, Nat.testBit_two_pow_sub_one, decide_eq_true hi, Bool.true_and, Bool.true_and,
    ← Bool.decide_and]
  congr 2
  apply propext
  constructor <;> rintro ⟨hlower, hbound⟩ <;> constructor <;> omega

theorem getLsbD_orMask (value : BitVec 64) {i : ℕ} (hi : i < 64) :
    (BitVec.ofInt 64 (range.orMask value.toNat)).getLsbD i =
      (decide (range.lower ≤ i) && value.getLsbD (i - range.lower)) := by
  have hcast : range.orMask value.toNat = ((value.toNat <<< range.lower : ℕ) : ℤ) := by
    rw [FieldRange.orMask, Nat.shiftLeft_eq]
    push_cast
    rfl
  rw [hcast, getLsbD_ofInt_natCast, Nat.testBit_shiftLeft, decide_eq_true hi, Bool.true_and]
  rfl

end Masks

/-! ### Runs -/

section Runs
variable (symbols : String → BitVec 64) (csr : String) (range : FieldRange)

/-- The number path ors the number as it is. -/
theorem run_number (h : Hart 64 (String → BitVec 64)) (value : ℕ) :
    ∃ h', runStraight plainCsrs symbols (writeSubfield t2 t3 t2 csr range (some (value : ℤ)) false) h = some h' ∧
      h'.csrs = Function.update h.csrs csr.toLower
        (h.csrs csr.toLower &&& BitVec.ofInt 64 range.andMask ||| BitVec.ofInt 64 (range.orMask value)) :=
  ⟨_, rfl, rfl⟩

/-- The register path ors the low bits of the register. -/
theorem run_register (h : Hart 64 (String → BitVec 64)) :
    ∃ h', runStraight plainCsrs symbols (writeSubfield t3 t4 t2 csr range none true) h = some h' ∧
      h'.csrs = Function.update h.csrs csr.toLower (h.csrs csr.toLower &&& BitVec.ofInt 64 range.andMask |||
        (h.get t2 &&& BitVec.ofInt 64 range.fieldMask) <<< range.lower) :=
  ⟨_, rfl, rfl⟩

theorem run_read (h : Hart 64 (String → BitVec 64)) :
    ∃ h', runStraight plainCsrs symbols (readSubfield t2 csr range) h = some h' ∧
      h'.get t2 = h.csrs csr.toLower >>> range.lower &&& BitVec.ofInt 64 range.fieldMask ∧ h'.csrs = h.csrs :=
  ⟨_, rfl, rfl, rfl⟩

end Runs

/-! ### Exactness -/

variable {range : FieldRange} {content value : BitVec 64}

theorem isWritten_register : IsWritten range content value
    (content &&& BitVec.ofInt 64 range.andMask ||| (value &&& BitVec.ofInt 64 range.fieldMask) <<< range.lower) := by
  have hwidth := range.width_eq
  intro i hi
  rw [BitVec.getLsbD_or, BitVec.getLsbD_and, getLsbD_andMask range hi, BitVec.getLsbD_shiftLeft, BitVec.getLsbD_and]
  by_cases hlower : i < range.lower
  · have hout : ¬(range.lower ≤ i ∧ i ≤ range.higher) := by omega
    simp [hlower, hout]
  · rw [getLsbD_fieldMask range (by omega : i - range.lower < 64)]
    by_cases hhigher : i ≤ range.higher
    · have hin : range.lower ≤ i ∧ i ≤ range.higher := by omega
      have hbound : i - range.lower < range.width := by omega
      simp [hlower, hin, hbound, hi]
    · have hout : ¬(range.lower ≤ i ∧ i ≤ range.higher) := by omega
      have hbound : ¬i - range.lower < range.width := by omega
      simp [hout, hbound]

/-- A number with bits above the field sets them. -/
theorem isWritten_number_iff : IsWritten range content value
    (content &&& BitVec.ofInt 64 range.andMask ||| BitVec.ofInt 64 (range.orMask value.toNat)) ↔
      ∀ i < 64, range.higher < i → value.getLsbD (i - range.lower) = true → content.getLsbD i = true := by
  have hle := range.hle
  have hbit : ∀ i < 64, (content &&& BitVec.ofInt 64 range.andMask ||| BitVec.ofInt 64 (range.orMask value.toNat)).getLsbD i =
      (content.getLsbD i && !decide (range.lower ≤ i ∧ i ≤ range.higher) ||
        decide (range.lower ≤ i) && value.getLsbD (i - range.lower)) := by
    intro i hi
    rw [BitVec.getLsbD_or, BitVec.getLsbD_and, getLsbD_andMask range hi, getLsbD_orMask range value hi]
  constructor
  · intro hwritten i hi hhigher hvalue
    have hout : ¬(range.lower ≤ i ∧ i ≤ range.higher) := by omega
    have hlower : range.lower ≤ i := by omega
    have heq := (hbit i hi).symm.trans (hwritten i hi)
    rw [if_neg hout] at heq
    simpa [hlower, hout, hvalue] using heq.symm
  · intro hbits i hi
    rw [hbit i hi]
    by_cases hin : range.lower ≤ i ∧ i ≤ range.higher
    · simp [hin]
    · rw [if_neg hin]
      by_cases hlower : range.lower ≤ i
      · have hkept := hbits i hi (by omega)
        cases hvalue : value.getLsbD (i - range.lower) with
        | false => simp [hin]
        | true => simp [hlower, hkept hvalue]
      · simp [hlower]

/-- What is read behind an exact write. -/
theorem toNat_read {result : BitVec 64} (hwritten : IsWritten range content value result) :
    (result >>> range.lower &&& BitVec.ofInt 64 range.fieldMask).toNat = value.toNat % 2 ^ range.width := by
  have hwidth := range.width_eq
  have hlt := range.hlt
  apply Nat.eq_of_testBit_eq
  intro i
  rw [Nat.testBit_mod_two_pow]
  by_cases hi : i < range.width
  · have hbit := hwritten (range.lower + i) (by omega)
    rw [if_pos (by omega), Nat.add_sub_cancel_left] at hbit
    show (result >>> range.lower &&& BitVec.ofInt 64 range.fieldMask).getLsbD i = _
    rw [BitVec.getLsbD_and, BitVec.getLsbD_ushiftRight, getLsbD_fieldMask range (by omega), hbit, decide_eq_true hi]
    exact Bool.and_comm _ _
  · rw [decide_eq_false hi, Bool.false_and]
    show (result >>> range.lower &&& BitVec.ofInt 64 range.fieldMask).getLsbD i = _
    by_cases hsmall : i < 64
    · rw [BitVec.getLsbD_and, getLsbD_fieldMask range hsmall, decide_eq_false hi, Bool.and_false]
    · exact BitVec.getLsbD_of_ge _ _ (by omega)

/-! ### Constants -/

theorem immediate_fieldMask (wraps : Bool) (range : FieldRange) :
    (-2048 ≤ immediate wraps range.fieldMask ∧ immediate wraps range.fieldMask ≤ 2047) ↔
      range.width ≤ 11 ∨ (wraps = true ∧ range.width = 64) := by
  have hlt := range.hlt
  have hwidth := range.width_eq
  have hmask := range.fieldMask_eq
  have hplain : (-2048 ≤ (range.fieldMask : ℤ) ∧ (range.fieldMask : ℤ) ≤ 2047) ↔ range.width ≤ 11 := by
    constructor
    · rintro ⟨-, hle⟩
      by_contra hbig
      have hpow : 2 ^ 12 ≤ 2 ^ range.width := Nat.pow_le_pow_right (by decide) (by omega)
      omega
    · intro hsmall
      have hpow : 2 ^ range.width ≤ 2 ^ 11 := Nat.pow_le_pow_right (by decide) hsmall
      omega
  cases wraps with
  | false => simpa [immediate] using hplain
  | true =>
      by_cases hfull : range.width = 64
      · have hones : immediate true range.fieldMask = -1 := by
          rw [hmask, hfull]
          decide
        simp [hones, hfull]
      · have hpow : 2 ^ range.width ≤ 2 ^ 63 := Nat.pow_le_pow_right (by decide) (by omega)
        have hsame : immediate true range.fieldMask = range.fieldMask := by
          rw [immediate, if_pos rfl, BitVec.toInt_ofInt]
          exact Int.bmod_eq_of_le (by omega) (by omega)
        rw [hsame, hplain]
        simp [hfull]

theorem andMask_lt (range : FieldRange) : range.andMask < 2 ^ 64 := by
  apply Nat.lt_pow_two_of_testBit
  intro i hi
  have hones : (0xFFFFFFFFFFFFFFFF : ℕ) = 2 ^ 64 - 1 := by decide
  rw [FieldRange.andMask, Nat.testBit_ldiff, hones, Nat.testBit_two_pow_sub_one, decide_eq_false (by omega), Bool.false_and]

/-- All constants of the three accesses can be assembled. -/
theorem encodable_iff (wraps : Bool) (csr : String) (range : FieldRange) (value : BitVec 64) :
    (∀ instr ∈ writeSubfield t2 t3 t2 csr range (some (value.toNat : ℤ)) false ++
      writeSubfield t3 t4 t2 csr range none true ++ readSubfield t2 csr range, instr.Encodable wraps) ↔
      (range.width ≤ 11 ∨ (wraps = true ∧ range.width = 64)) ∧ value.toNat * 2 ^ range.lower < 2 ^ 64 := by
  have hle := range.hle
  have hlt := range.hlt
  have hmask := andMask_lt range
  have hor : range.orMask value.toNat = ((value.toNat * 2 ^ range.lower : ℕ) : ℤ) := by
    rw [FieldRange.orMask]
    push_cast
    rfl
  rw [← immediate_fieldMask wraps range]
  simp only [writeSubfield, readSubfield, utilsReadCsr, utilsAccessCsr, Option.getD_some, if_true, if_false,
    Bool.false_eq_true, List.cons_append, List.nil_append, List.forall_mem_cons, List.not_mem_nil, false_imp_iff,
    implies_true, true_and, and_true, Instr.Encodable, Instr.li, Instr.csrr, hor]
  constructor
  · rintro ⟨-, hvalue, -, himm, -⟩
    exact ⟨himm, by omega⟩
  · rintro ⟨himm, hvalue⟩
    exact ⟨by omega, by omega, by omega, himm, by omega, by omega, himm⟩

/-- Access to a field is exact for the fields of at most eleven bits, or the whole register where the assembler takes its
mask for a signed number, and numbers that set no bit above the field that is not set. -/
theorem subfieldExact_iff (wraps : Bool) (randValue randImm : ℤ) {config : CsrConfig} {field : String}
    (hfield : config.fields.lookup field = some range) :
    SubfieldExact wraps randValue randImm config field range content value ↔
      (range.width ≤ 11 ∨ (wraps = true ∧ range.width = 64)) ∧ value.toNat * 2 ^ range.lower < 2 ^ 64 ∧
        ∀ i < 64, range.higher < i → value.getLsbD (i - range.lower) = true → content.getLsbD i = true := by
  have hnumber : csrAccess randValue randImm {} config (numberAccess field value.toNat) =
      .ok (writeSubfield t2 t3 t2 config.name range (some (value.toNat : ℤ)) false) := by
    show (match config.fields.lookup field with | some range => _ | none => _) = _
    rw [hfield]
    rfl
  have hregister : csrAccess randValue randImm { exclude := [t2] } config (registerAccess field) =
      .ok (writeSubfield t3 t4 t2 config.name range none true) := by
    show (match config.fields.lookup field with | some range => _ | none => _) = _
    rw [hfield]
    rfl
  have hread : csrAccess randValue randImm {} config (readAccess field) = .ok (readSubfield t2 config.name range) := by
    show (match config.fields.lookup field with | some range => _ | none => _) = _
    rw [hfield]
    rfl
  constructor
  · rintro ⟨number, register, read, hnumber', hregister', hread', hencodable, hruns⟩
    obtain rfl := Except.ok.inj (hnumber'.symm.trans hnumber)
    obtain rfl := Except.ok.inj (hregister'.symm.trans hregister)
    obtain rfl := Except.ok.inj (hread'.symm.trans hread)
    obtain ⟨hwidth, hvalue⟩ := (encodable_iff wraps config.name range value).mp hencodable
    refine ⟨hwidth, hvalue, ?_⟩
    let h : Hart 64 (String → BitVec 64) := ⟨⟨fun _ => 0, fun _ => 0, []⟩, fun _ => content⟩
    obtain ⟨⟨h', result, hrun, hwritten, hcsrs⟩, -, -⟩ := hruns (fun _ => 0) h rfl
    obtain ⟨h'', hrun', hcsrs'⟩ := run_number (fun _ => 0) config.name range h value.toNat
    obtain rfl := Option.some.inj (hrun'.symm.trans hrun)
    have hresult := congrFun (hcsrs.symm.trans hcsrs') config.name.toLower
    rw [Function.update_self, Function.update_self] at hresult
    exact isWritten_number_iff.mp (hresult ▸ hwritten)
  · rintro ⟨hwidth, hvalue, hbits⟩
    refine ⟨_, _, _, hnumber, hregister, hread, (encodable_iff wraps config.name range value).mpr ⟨hwidth, hvalue⟩, ?_⟩
    rintro symbols h rfl
    refine ⟨?_, ?_, fun h₁ hwritten => ?_⟩
    · obtain ⟨h', hrun, hcsrs⟩ := run_number symbols config.name range h value.toNat
      exact ⟨h', _, hrun, isWritten_number_iff.mpr hbits, hcsrs⟩
    · rintro rfl
      obtain ⟨h', hrun, hcsrs⟩ := run_register symbols config.name range h
      exact ⟨h', _, hrun, isWritten_register, hcsrs⟩
    · obtain ⟨h₂, hrun, hget, hcsrs⟩ := run_read symbols config.name range h₁
      exact ⟨h₂, hrun, by rw [hget, toNat_read hwritten], hcsrs⟩

/-- The identifier of the address space, with sixteen bits. -/
def satp : CsrConfig where
  name := "satp"
  fields := [("ASID", ⟨59, 44, by decide, by decide⟩), ("MODE", ⟨63, 60, by decide, by decide⟩)]

/-- The mode of `satp` is written and read exactly. -/
theorem subfieldExact_iff_mode : SubfieldExact false 0 0 satp "MODE" ⟨63, 60, by decide, by decide⟩ 5 8 :=
  (@subfieldExact_iff ⟨63, 60, by decide, by decide⟩ 5 8 false 0 0 satp "MODE" rfl).mpr
    ⟨.inl (by decide), by decide, fun i hi hhigher => absurd hhigher (by simp only [not_lt]; omega)⟩

/-- The mask of the identifier is no immediate, for any assembler. -/
theorem not_subfieldExact_asid :
    ¬ ∃ wraps : Bool, ∀ (randValue randImm : ℤ) (config : CsrConfig) (field : String) (range : FieldRange)
      (content value : BitVec 64),
      config.fields.lookup field = some range →
        SubfieldExact wraps randValue randImm config field range content value := by
  rintro ⟨wraps, hclaim⟩
  obtain ⟨number, register, read, hnumber, hregister, hread, hencodable, -⟩ :=
    hclaim 0 0 satp "ASID" ⟨59, 44, by decide, by decide⟩ 0 1 rfl
  obtain rfl := Except.ok.inj hread
  obtain ⟨-, hle⟩ := hencodable (.alui .andi t2 t2 65535) (List.mem_append_right _ (by decide))
  cases wraps with
  | false => exact absurd hle (by decide)
  | true => exact absurd hle (by decide)

end Riescue.CsrAccess
