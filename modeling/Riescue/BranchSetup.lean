import Mathlib

/-! The operands of a branch, `BranchSetup.resolve_branch` of `instr_setup/integer/branch.py`, with the comparison of
`riscv_registers.py`. -/

namespace Riescue.BranchSetup

inductive BranchName where
  | beq | bne | blt | bge | bltu | bgeu
  deriving DecidableEq, Repr

/-- `branch_outcome` -/
inductive Outcome where
  | taken | notTaken
  deriving DecidableEq, Repr

/-- `"u" in instr.name` -/
def BranchName.unsigned : BranchName → Bool
  | .bltu => true
  | .bgeu => true
  | _ => false

/-- `twos_compliment`; a mask of ones is the remainder. -/
def twosCompliment (val : ℤ) (bits : ℕ := 64) : ℤ := ((-val - 1) + 1) % 2 ^ bits

/-- `sign_aware_comparison_op`; a shift to the right is the division that rounds down. -/
def signAwareComparisonOp (a b : ℤ) (unsigned : Bool := false) (bitLength : ℕ := 64) : Bool :=
  if unsigned then a < b
  else
    let aMsb := a / 2 ^ (bitLength - 1)
    let bMsb := b / 2 ^ (bitLength - 1)
    if aMsb = 1 ∧ bMsb = 0 then true
    else if aMsb = 0 ∧ bMsb = 1 then false
    else if aMsb = 0 ∧ bMsb = 0 then a < b
    else twosCompliment a > twosCompliment b

/-- The values of the two source registers. -/
abbrev Operands := ℤ × ℤ

/-- `make_rs1_lt_rs2` -/
def makeRs1LtRs2 (xlen : ℕ) (unsigned : Bool) (srcs : Operands) : Operands :=
  let (rs1, rs2) := srcs
  let rs2 := if rs1 = rs2 then (rs2 + 1) % 2 ^ xlen else rs2
  if signAwareComparisonOp rs2 rs1 unsigned then (rs2, rs1) else (rs1, rs2)

/-- `make_rs1_ge_rs2` -/
def makeRs1GeRs2 (unsigned : Bool) (srcs : Operands) : Operands :=
  let (rs1, rs2) := srcs
  if rs1 = rs2 then (rs1, rs2)
  else if signAwareComparisonOp rs2 rs1 unsigned then (rs1, rs2) else (rs2, rs1)

/-- `abs(~value) % (1 << xlen)` -/
def absInverse (xlen : ℕ) (value : ℤ) : ℤ := ((-value - 1).natAbs : ℤ) % 2 ^ xlen

/-- `resolve_branch` -/
def resolveBranch (xlen : ℕ) (name : BranchName) (branchOutcome : Outcome) (srcs : Operands) : Operands :=
  let (rs1, rs2) := srcs
  match name, branchOutcome with
  | .beq, .taken => (rs1, rs1)
  | .beq, .notTaken => if rs1 = rs2 then (rs1, absInverse xlen rs1) else (rs1, rs2)
  | .bne, .taken => if rs1 = rs2 then (rs1, absInverse xlen rs1) else (rs1, rs2)
  | .bne, .notTaken => if rs1 ≠ rs2 then (rs1, rs1) else (rs1, rs2)
  | .blt, .taken => makeRs1LtRs2 xlen name.unsigned srcs
  | .blt, .notTaken => makeRs1GeRs2 name.unsigned srcs
  | .bge, .taken => makeRs1GeRs2 name.unsigned srcs
  | .bge, .notTaken => makeRs1LtRs2 xlen name.unsigned srcs
  | .bltu, .taken => makeRs1LtRs2 xlen name.unsigned srcs
  | .bltu, .notTaken => makeRs1GeRs2 name.unsigned srcs
  | .bgeu, .taken => makeRs1GeRs2 name.unsigned srcs
  | .bgeu, .notTaken => makeRs1LtRs2 xlen name.unsigned srcs

/-- The branch of the architecture. -/
def takes {xlen : ℕ} (name : BranchName) (rs1 rs2 : BitVec xlen) : Bool :=
  match name with
  | .beq => rs1 = rs2
  | .bne => rs1 ≠ rs2
  | .blt => rs1.slt rs2
  | .bge => !rs1.slt rs2
  | .bltu => rs1.ult rs2
  | .bgeu => !rs1.ult rs2

/-- The value fits into a register. -/
def InRange (xlen : ℕ) (value : ℤ) : Prop := 0 ≤ value ∧ value < 2 ^ xlen

/-- The operands fit, and the branch on them has the outcome. -/
structure Decides (xlen : ℕ) (name : BranchName) (branchOutcome : Outcome) (srcs : Operands) : Prop where
  rs1 : InRange xlen srcs.1
  rs2 : InRange xlen srcs.2
  outcome : takes name (BitVec.ofInt xlen srcs.1) (BitVec.ofInt xlen srcs.2) = true ↔ branchOutcome = .taken

/-! ### Comparison -/

/-- The number that a register stands for in a signed comparison of `bits` bits. -/
def signed (bits : ℕ) (value : ℤ) : ℤ := if value < 2 ^ (bits - 1) then value else value - 2 ^ bits

/-- What a branch orders its operands by. -/
def key (bits : ℕ) (unsigned : Bool) (value : ℤ) : ℤ := if unsigned then value else signed bits value

theorem key_true (bits : ℕ) (value : ℤ) : key bits true value = value := if_pos rfl

/-- The comparison is that of 64 bits. -/
theorem signAwareComparisonOp_iff {a b : ℤ} (ha : InRange 64 a) (hb : InRange 64 b) (unsigned : Bool) :
    signAwareComparisonOp a b unsigned = true ↔ key 64 unsigned a < key 64 unsigned b := by
  obtain ⟨ha0, ha64⟩ := ha
  obtain ⟨hb0, hb64⟩ := hb
  cases unsigned with
  | true => simp [signAwareComparisonOp, key]
  | false =>
      simp only [signAwareComparisonOp, key, signed, twosCompliment, Bool.false_eq_true, if_false]
      split_ifs <;> simp <;> omega

theorem ofInt_inj {xlen : ℕ} {a b : ℤ} (ha : InRange xlen a) (hb : InRange xlen b) :
    BitVec.ofInt xlen a = BitVec.ofInt xlen b ↔ a = b := by
  refine ⟨fun h => ?_, fun h => h ▸ rfl⟩
  have hnat := congrArg BitVec.toNat h
  have hpow : ((2 ^ xlen : ℕ) : ℤ) = 2 ^ xlen := Int.natCast_pow 2 xlen
  rw [BitVec.toNat_ofInt, BitVec.toNat_ofInt, hpow, Int.emod_eq_of_lt ha.1 ha.2, Int.emod_eq_of_lt hb.1 hb.2] at hnat
  have ha0 := ha.1
  have hb0 := hb.1
  omega

theorem ult_ofInt {xlen : ℕ} {a b : ℤ} (ha : InRange xlen a) (hb : InRange xlen b) :
    (BitVec.ofInt xlen a).ult (BitVec.ofInt xlen b) = true ↔ a < b := by
  have hpow : ((2 ^ xlen : ℕ) : ℤ) = 2 ^ xlen := Int.natCast_pow 2 xlen
  have ha0 := ha.1
  rw [BitVec.ult, decide_eq_true_iff, BitVec.toNat_ofInt, BitVec.toNat_ofInt, hpow, Int.emod_eq_of_lt ha.1 ha.2,
    Int.emod_eq_of_lt hb.1 hb.2]
  omega

theorem toInt_ofInt {xlen : ℕ} (hxlen : xlen = 32 ∨ xlen = 64) {a : ℤ} (ha : InRange xlen a) :
    (BitVec.ofInt xlen a).toInt = signed xlen a := by
  obtain ⟨ha0, ha64⟩ := ha
  rw [BitVec.toInt_ofInt, signed, Int.bmod]
  rcases hxlen with rfl | rfl
  · split_ifs <;> omega
  · split_ifs <;> omega

theorem slt_ofInt {xlen : ℕ} (hxlen : xlen = 32 ∨ xlen = 64) {a b : ℤ} (ha : InRange xlen a) (hb : InRange xlen b) :
    (BitVec.ofInt xlen a).slt (BitVec.ofInt xlen b) = true ↔ signed xlen a < signed xlen b := by
  rw [BitVec.slt, decide_eq_true_iff, toInt_ofInt hxlen ha, toInt_ofInt hxlen hb]

/-! ### Outcomes -/

/-- Both widths fit into the 64 bits of the comparison. -/
theorem InRange.wide {xlen : ℕ} (hxlen : xlen = 32 ∨ xlen = 64) {a : ℤ} (ha : InRange xlen a) : InRange 64 a := by
  obtain ⟨ha0, ha1⟩ := ha
  refine ⟨ha0, ?_⟩
  rcases hxlen with rfl | rfl <;> omega

/-- The second operand, changed where the two are equal. -/
def apart (xlen : ℕ) (srcs : Operands) : ℤ := if srcs.1 = srcs.2 then (srcs.2 + 1) % 2 ^ xlen else srcs.2

theorem apart_inRange {xlen : ℕ} (hxlen : xlen = 32 ∨ xlen = 64) {srcs : Operands} (h1 : InRange xlen srcs.1)
    (h2 : InRange xlen srcs.2) : InRange xlen (apart xlen srcs) ∧ apart xlen srcs ≠ srcs.1 := by
  obtain ⟨h10, h11⟩ := h1
  obtain ⟨h20, h21⟩ := h2
  unfold apart InRange
  rcases hxlen with rfl | rfl
  · split_ifs <;> omega
  · split_ifs <;> omega

/-- Different values have different keys. -/
theorem key_ne {a b : ℤ} (ha : InRange 64 a) (hb : InRange 64 b) (unsigned : Bool) (hne : a ≠ b) :
    key 64 unsigned a ≠ key 64 unsigned b := by
  obtain ⟨ha0, ha1⟩ := ha
  obtain ⟨hb0, hb1⟩ := hb
  unfold key signed
  split_ifs <;> omega

/-- `make_rs1_lt_rs2` puts the operands, made different, in their order of 64 bits. -/
theorem makeRs1LtRs2_spec {xlen : ℕ} (hxlen : xlen = 32 ∨ xlen = 64) (unsigned : Bool) {srcs : Operands}
    (h1 : InRange xlen srcs.1) (h2 : InRange xlen srcs.2) :
    (makeRs1LtRs2 xlen unsigned srcs = (srcs.1, apart xlen srcs) ∨
      makeRs1LtRs2 xlen unsigned srcs = (apart xlen srcs, srcs.1)) ∧
      key 64 unsigned (makeRs1LtRs2 xlen unsigned srcs).1 < key 64 unsigned (makeRs1LtRs2 xlen unsigned srcs).2 := by
  obtain ⟨h3, hne⟩ := apart_inRange hxlen h1 h2
  have heq : makeRs1LtRs2 xlen unsigned srcs =
      if signAwareComparisonOp (apart xlen srcs) srcs.1 unsigned then (apart xlen srcs, srcs.1)
      else (srcs.1, apart xlen srcs) := rfl
  have hcompare := signAwareComparisonOp_iff (h3.wide hxlen) (h1.wide hxlen) unsigned
  have hkeys := key_ne (h3.wide hxlen) (h1.wide hxlen) unsigned hne
  rw [heq]
  split_ifs with hswap
  · exact ⟨.inr rfl, hcompare.mp hswap⟩
  · have hnot := mt hcompare.mpr hswap
    refine ⟨.inl rfl, ?_⟩
    dsimp only
    omega

/-- `make_rs1_ge_rs2` puts the operands in the opposite order. -/
theorem makeRs1GeRs2_spec {xlen : ℕ} (hxlen : xlen = 32 ∨ xlen = 64) (unsigned : Bool) {srcs : Operands}
    (h1 : InRange xlen srcs.1) (h2 : InRange xlen srcs.2) :
    (makeRs1GeRs2 unsigned srcs = srcs ∨ makeRs1GeRs2 unsigned srcs = (srcs.2, srcs.1)) ∧
      key 64 unsigned (makeRs1GeRs2 unsigned srcs).2 ≤ key 64 unsigned (makeRs1GeRs2 unsigned srcs).1 := by
  have hcompare := signAwareComparisonOp_iff (h2.wide hxlen) (h1.wide hxlen) unsigned
  have heq : makeRs1GeRs2 unsigned srcs = if srcs.1 = srcs.2 then srcs
      else if signAwareComparisonOp srcs.2 srcs.1 unsigned then srcs else (srcs.2, srcs.1) := rfl
  rw [heq]
  split_ifs with hsame hkeep
  · have hkeys : key 64 unsigned srcs.2 = key 64 unsigned srcs.1 := congrArg _ hsame.symm
    exact ⟨.inl rfl, by omega⟩
  · have hlt := hcompare.mp hkeep
    exact ⟨.inl rfl, by omega⟩
  · have hnot := mt hcompare.mpr hkeep
    refine ⟨.inr rfl, ?_⟩
    dsimp only
    omega

/-- The outcome asks for a first operand that is less than the second. -/
def wantsLess : BranchName → Outcome → Bool
  | .blt, .taken => true
  | .bge, .notTaken => true
  | .bltu, .taken => true
  | .bgeu, .notTaken => true
  | _, _ => false

/-- Where the 64 bits of the comparison agree with the 32 of the branch: the operands have the same sign, and equal operands that
are to differ are not at the end of the range of a sign. -/
def ComparesRight (xlen : ℕ) (name : BranchName) (branchOutcome : Outcome) (srcs : Operands) : Prop :=
  xlen = 32 → name = .blt ∨ name = .bge →
    if srcs.1 = srcs.2 then wantsLess name branchOutcome = true → srcs.1 ≠ 2 ^ 31 - 1 ∧ srcs.1 ≠ 2 ^ 32 - 1
    else (srcs.1 < 2 ^ 31 ↔ srcs.2 < 2 ^ 31)

/-- Two values of 32 bits in the order of 64 bits are in the signed order of 32 bits where their signs agree. -/
theorem signed_lt_iff {a b : ℤ} (ha : InRange 32 a) (hb : InRange 32 b) (hlt : key 64 false a < key 64 false b) :
    key 32 false a < key 32 false b ↔ (a < 2 ^ 31 ↔ b < 2 ^ 31) := by
  obtain ⟨ha0, ha1⟩ := ha
  obtain ⟨hb0, hb1⟩ := hb
  unfold key signed at hlt ⊢
  simp only [Bool.false_eq_true, if_false] at hlt ⊢
  split_ifs at hlt ⊢ <;> omega

theorem signed_le_iff {a b : ℤ} (ha : InRange 32 a) (hb : InRange 32 b) (hle : key 64 false b ≤ key 64 false a) :
    key 32 false b ≤ key 32 false a ↔ (a = b ∨ (a < 2 ^ 31 ↔ b < 2 ^ 31)) := by
  obtain ⟨ha0, ha1⟩ := ha
  obtain ⟨hb0, hb1⟩ := hb
  unfold key signed at hle ⊢
  simp only [Bool.false_eq_true, if_false] at hle ⊢
  split_ifs at hle ⊢ <;> omega

/-- The sign of the changed operand. -/
theorem apart_sign {srcs : Operands} (h1 : InRange 32 srcs.1) (h2 : InRange 32 srcs.2) :
    (srcs.1 < 2 ^ 31 ↔ apart 32 srcs < 2 ^ 31) ↔
      if srcs.1 = srcs.2 then srcs.1 ≠ 2 ^ 31 - 1 ∧ srcs.1 ≠ 2 ^ 32 - 1 else (srcs.1 < 2 ^ 31 ↔ srcs.2 < 2 ^ 31) := by
  obtain ⟨h10, h11⟩ := h1
  obtain ⟨h20, h21⟩ := h2
  unfold apart
  split_ifs <;> omega

theorem less_iff {xlen : ℕ} (hxlen : xlen = 32 ∨ xlen = 64) (unsigned : Bool) {srcs : Operands} (h1 : InRange xlen srcs.1)
    (h2 : InRange xlen srcs.2) {r : Operands} (hr : r = makeRs1LtRs2 xlen unsigned srcs) :
    InRange xlen r.1 ∧ InRange xlen r.2 ∧ (key xlen unsigned r.1 < key xlen unsigned r.2 ↔
      (xlen = 32 → unsigned = false → if srcs.1 = srcs.2 then srcs.1 ≠ 2 ^ 31 - 1 ∧ srcs.1 ≠ 2 ^ 32 - 1
        else (srcs.1 < 2 ^ 31 ↔ srcs.2 < 2 ^ 31))) := by
  obtain ⟨hcases, hkey⟩ := makeRs1LtRs2_spec hxlen unsigned h1 h2
  obtain ⟨h3, -⟩ := apart_inRange hxlen h1 h2
  rw [← hr] at hcases hkey
  have hrange : InRange xlen r.1 ∧ InRange xlen r.2 := by
    rcases hcases with h | h
    · rw [h]
      exact ⟨h1, h3⟩
    · rw [h]
      exact ⟨h3, h1⟩
  refine ⟨hrange.1, hrange.2, ?_⟩
  rcases hxlen with rfl | rfl
  · cases unsigned with
    | true =>
        rw [key_true, key_true] at hkey ⊢
        exact iff_of_true hkey nofun
    | false =>
        have hsign : (r.1 < 2 ^ 31 ↔ r.2 < 2 ^ 31) ↔ (srcs.1 < 2 ^ 31 ↔ apart 32 srcs < 2 ^ 31) := by
          rcases hcases with h | h
          · rw [h]
          · rw [h]
            exact iff_comm
        rw [signed_lt_iff hrange.1 hrange.2 hkey, hsign, apart_sign h1 h2]
        exact ⟨fun h _ _ => h, fun h => h rfl rfl⟩
  · exact iff_of_true hkey fun h => absurd h (by decide)

theorem greater_iff {xlen : ℕ} (hxlen : xlen = 32 ∨ xlen = 64) (unsigned : Bool) {srcs : Operands} (h1 : InRange xlen srcs.1)
    (h2 : InRange xlen srcs.2) {r : Operands} (hr : r = makeRs1GeRs2 unsigned srcs) :
    InRange xlen r.1 ∧ InRange xlen r.2 ∧ (¬ key xlen unsigned r.1 < key xlen unsigned r.2 ↔
      (xlen = 32 → unsigned = false → srcs.1 ≠ srcs.2 → (srcs.1 < 2 ^ 31 ↔ srcs.2 < 2 ^ 31))) := by
  obtain ⟨hcases, hkey⟩ := makeRs1GeRs2_spec hxlen unsigned h1 h2
  rw [← hr] at hcases hkey
  have hrange : InRange xlen r.1 ∧ InRange xlen r.2 := by
    rcases hcases with h | h
    · rw [h]
      exact ⟨h1, h2⟩
    · rw [h]
      exact ⟨h2, h1⟩
  refine ⟨hrange.1, hrange.2, ?_⟩
  rw [Int.not_lt]
  rcases hxlen with rfl | rfl
  · cases unsigned with
    | true =>
        rw [key_true, key_true] at hkey ⊢
        exact iff_of_true hkey nofun
    | false =>
        rw [signed_le_iff hrange.1 hrange.2 hkey]
        rcases hcases with h | h
        · rw [h]
          tauto
        · rw [h]
          have hcomm : srcs.2 = srcs.1 ↔ srcs.1 = srcs.2 := eq_comm
          tauto
  · exact iff_of_true hkey fun h => absurd h (by decide)

theorem absInverse_spec {xlen : ℕ} (hxlen : xlen = 32 ∨ xlen = 64) {value : ℤ} (hvalue : InRange xlen value) :
    InRange xlen (absInverse xlen value) ∧ value ≠ absInverse xlen value := by
  obtain ⟨h0, h1⟩ := hvalue
  unfold absInverse InRange
  rcases hxlen with rfl | rfl
  · omega
  · omega

/-- Values that fit, whose branch is as the outcome asks. -/
theorem decides_of {xlen : ℕ} {name : BranchName} {branchOutcome : Outcome} {srcs r : Operands}
    (hresolve : resolveBranch xlen name branchOutcome srcs = r) (h1 : InRange xlen r.1) (h2 : InRange xlen r.2) :
    Decides xlen name branchOutcome (resolveBranch xlen name branchOutcome srcs) ↔
      (takes name (BitVec.ofInt xlen r.1) (BitVec.ofInt xlen r.2) = true ↔ branchOutcome = .taken) := by
  rw [hresolve]
  exact ⟨fun h => h.outcome, fun h => ⟨h1, h2, h⟩⟩

/-- `beq` and `bne` compare for equality alone. -/
theorem decides_equality {xlen : ℕ} (hxlen : xlen = 32 ∨ xlen = 64) {name : BranchName} (hname : name = .beq ∨ name = .bne)
    (branchOutcome : Outcome) {srcs : Operands} (h1 : InRange xlen srcs.1) (h2 : InRange xlen srcs.2) :
    Decides xlen name branchOutcome (resolveBranch xlen name branchOutcome srcs) := by
  obtain ⟨hinverse, hne⟩ := absInverse_spec hxlen h1
  have hdiffer : ∀ {x y : ℤ}, InRange xlen x → InRange xlen y → x ≠ y → BitVec.ofInt xlen x ≠ BitVec.ofInt xlen y :=
    fun hx hy => mt (ofInt_inj hx hy).mp
  by_cases hsame : srcs.1 = srcs.2
  · rcases hname with rfl | rfl <;> cases branchOutcome
    · have hresolve : resolveBranch xlen .beq .taken srcs = (srcs.1, srcs.1) := rfl
      exact (decides_of hresolve h1 h1).mpr (by simp [takes])
    · have hresolve : resolveBranch xlen .beq .notTaken srcs = (srcs.1, absInverse xlen srcs.1) := if_pos hsame
      exact (decides_of hresolve h1 hinverse).mpr (by simp [takes, hdiffer h1 hinverse hne])
    · have hresolve : resolveBranch xlen .bne .taken srcs = (srcs.1, absInverse xlen srcs.1) := if_pos hsame
      exact (decides_of hresolve h1 hinverse).mpr (by simp [takes, hdiffer h1 hinverse hne])
    · have hresolve : resolveBranch xlen .bne .notTaken srcs = srcs := if_neg (not_not.mpr hsame)
      exact (decides_of hresolve h1 h2).mpr (by simp [takes, hsame])
  · rcases hname with rfl | rfl <;> cases branchOutcome
    · have hresolve : resolveBranch xlen .beq .taken srcs = (srcs.1, srcs.1) := rfl
      exact (decides_of hresolve h1 h1).mpr (by simp [takes])
    · have hresolve : resolveBranch xlen .beq .notTaken srcs = srcs := if_neg hsame
      exact (decides_of hresolve h1 h2).mpr (by simp [takes, hdiffer h1 h2 hsame])
    · have hresolve : resolveBranch xlen .bne .taken srcs = srcs := if_neg hsame
      exact (decides_of hresolve h1 h2).mpr (by simp [takes, hdiffer h1 h2 hsame])
    · have hresolve : resolveBranch xlen .bne .notTaken srcs = (srcs.1, srcs.1) := if_pos hsame
      exact (decides_of hresolve h1 h1).mpr (by simp [takes])

/-- The branches that compare for an order. -/
def IsOrder (name : BranchName) : Prop := name ≠ .beq ∧ name ≠ .bne

theorem resolveBranch_order {name : BranchName} (hname : IsOrder name) (xlen : ℕ) (branchOutcome : Outcome) (srcs : Operands) :
    resolveBranch xlen name branchOutcome srcs =
      if wantsLess name branchOutcome then makeRs1LtRs2 xlen name.unsigned srcs else makeRs1GeRs2 name.unsigned srcs := by
  cases name with
  | beq => exact absurd rfl hname.1
  | bne => exact absurd rfl hname.2
  | _ => cases branchOutcome <;> rfl

/-- An order branch has its outcome where the keys are ordered as the outcome asks. -/
theorem takes_order {name : BranchName} (hname : IsOrder name) {xlen : ℕ} (hxlen : xlen = 32 ∨ xlen = 64)
    (branchOutcome : Outcome) {x y : ℤ} (hx : InRange xlen x) (hy : InRange xlen y) :
    (takes name (BitVec.ofInt xlen x) (BitVec.ofInt xlen y) = true ↔ branchOutcome = .taken) ↔
      (key xlen name.unsigned x < key xlen name.unsigned y ↔ wantsLess name branchOutcome = true) := by
  have hslt : (BitVec.ofInt xlen x).slt (BitVec.ofInt xlen y) = true ↔ key xlen false x < key xlen false y :=
    slt_ofInt hxlen hx hy
  have hult : (BitVec.ofInt xlen x).ult (BitVec.ofInt xlen y) = true ↔ key xlen true x < key xlen true y := ult_ofInt hx hy
  cases name with
  | beq => exact absurd rfl hname.1
  | bne => exact absurd rfl hname.2
  | blt => cases branchOutcome <;> simp [takes, BranchName.unsigned, wantsLess, ← hslt]
  | bge => cases branchOutcome <;> simp [takes, BranchName.unsigned, wantsLess, ← hslt]
  | bltu => cases branchOutcome <;> simp [takes, BranchName.unsigned, wantsLess, ← hult]
  | bgeu => cases branchOutcome <;> simp [takes, BranchName.unsigned, wantsLess, ← hult]

theorem comparesRight_order {name : BranchName} (hname : IsOrder name) (xlen : ℕ) (branchOutcome : Outcome) (srcs : Operands) :
    ComparesRight xlen name branchOutcome srcs ↔ (xlen = 32 → name.unsigned = false →
      if srcs.1 = srcs.2 then wantsLess name branchOutcome = true → srcs.1 ≠ 2 ^ 31 - 1 ∧ srcs.1 ≠ 2 ^ 32 - 1
      else (srcs.1 < 2 ^ 31 ↔ srcs.2 < 2 ^ 31)) := by
  have hsigned : (name = .blt ∨ name = .bge) ↔ name.unsigned = false := by
    cases name with
    | beq => exact absurd rfl hname.1
    | bne => exact absurd rfl hname.2
    | _ => simp [BranchName.unsigned]
  rw [ComparesRight, hsigned]

/-- The comparison has 64 bits at both widths: `blt` and `bge` of 32 bits are resolved as if they were unsigned. -/
theorem decides_iff {xlen : ℕ} (hxlen : xlen = 32 ∨ xlen = 64) (name : BranchName) (branchOutcome : Outcome) {srcs : Operands}
    (h1 : InRange xlen srcs.1) (h2 : InRange xlen srcs.2) :
    Decides xlen name branchOutcome (resolveBranch xlen name branchOutcome srcs) ↔
      ComparesRight xlen name branchOutcome srcs := by
  by_cases hname : IsOrder name
  · rw [comparesRight_order hname]
    cases hless : wantsLess name branchOutcome with
    | true =>
        have hresolve := resolveBranch_order hname xlen branchOutcome srcs
        rw [hless, if_pos rfl] at hresolve
        obtain ⟨hr1, hr2, hkey⟩ := less_iff hxlen name.unsigned h1 h2 rfl
        rw [decides_of hresolve hr1 hr2, takes_order hname hxlen branchOutcome hr1 hr2, hless, iff_true_right rfl, hkey]
        simp only [true_imp_iff]
    | false =>
        have hresolve := resolveBranch_order hname xlen branchOutcome srcs
        rw [hless, if_neg Bool.false_ne_true] at hresolve
        obtain ⟨hr1, hr2, hkey⟩ := greater_iff hxlen name.unsigned h1 h2 rfl
        rw [decides_of hresolve hr1 hr2, takes_order hname hxlen branchOutcome hr1 hr2, hless,
          iff_false_right Bool.false_ne_true, hkey]
        by_cases hsame : srcs.1 = srcs.2
        · simp [hsame]
        · simp [hsame]
  · have hequality : name = .beq ∨ name = .bne := by
      rw [IsOrder, not_and_or, not_not, not_not] at hname
      exact hname
    refine iff_of_true (decides_equality hxlen hequality branchOutcome h1 h2) ?_
    rcases hequality with rfl | rfl
    · exact nofun
    · exact nofun

theorem decides_iff_one : Decides 32 .blt .taken (resolveBranch 32 .blt .taken (1, 1)) ↔ ComparesRight 32 .blt .taken (1, 1) :=
  decides_iff (.inl rfl) .blt .taken ⟨by decide, by decide⟩ ⟨by decide, by decide⟩

/-- -1 is less than 1, but the comparison of 64 bits takes it for the greater value and swaps the operands. -/
theorem not_decides_minusOne : ¬ Decides 32 .blt .taken (resolveBranch 32 .blt .taken (2 ^ 32 - 1, 1)) := by
  intro h
  have houtcome := h.outcome
  exact absurd (houtcome.mpr rfl) (by decide +kernel)

end Riescue.BranchSetup
