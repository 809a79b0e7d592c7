import Riescue.LibSpan
import Mathlib.Data.Int.LeastGreatest

/-! Maximal runs of consecutive integers with a property. A sweep over obstacles in increasing order cuts an
interval into its runs, one obstacle at a time. -/

namespace Spans

/-- `[lo, hi]` is a run of integers with the property that cannot be prolonged at either end. -/
structure MaximalRun (P : ℤ → Prop) (lo hi : ℤ) : Prop where
  le : lo ≤ hi
  all : ∀ x, lo ≤ x → x ≤ hi → P x
  before : ¬P (lo - 1)
  after : ¬P (hi + 1)

theorem MaximalRun.congr {P Q : ℤ → Prop} (hiff : ∀ x, P x ↔ Q x) {lo hi : ℤ} :
    MaximalRun P lo hi ↔ MaximalRun Q lo hi := by
  rw [funext fun x => propext (hiff x)]

/-- A member of a bounded set lies in one of its maximal runs. -/
theorem exists_maximalRun {P : ℤ → Prop} {lower upper : ℤ} (hbounded : ∀ x, P x → lower ≤ x ∧ x ≤ upper) {b : ℤ}
    (hb : P b) : ∃ lo hi, MaximalRun P lo hi ∧ lo ≤ b ∧ b ≤ hi := by
  obtain ⟨lo, ⟨hlo, hleft⟩, hleast⟩ := Int.exists_least_of_bdd
    (P := fun l => l ≤ b ∧ ∀ x, l ≤ x → x ≤ b → P x)
    ⟨lower, fun l hl => (hbounded l (hl.2 l le_rfl hl.1)).1⟩
    ⟨b, le_rfl, fun x hbx hxb => le_antisymm hbx hxb ▸ hb⟩
  obtain ⟨hi, ⟨hhi, hright⟩, hgreatest⟩ := Int.exists_greatest_of_bdd
    (P := fun h => b ≤ h ∧ ∀ x, b ≤ x → x ≤ h → P x)
    ⟨upper, fun h hh => (hbounded h (hh.2 h hh.1 le_rfl)).2⟩
    ⟨b, le_rfl, fun x hbx hxb => le_antisymm hbx hxb ▸ hb⟩
  refine ⟨lo, hi, ⟨hlo.trans hhi, fun x hlox hxhi => ?_, fun hbefore => ?_, fun hafter => ?_⟩, hlo, hhi⟩
  · rcases le_total x b with hxb | hbx
    · exact hleft x hlox hxb
    · exact hright x hbx hxhi
  · have hle : lo ≤ lo - 1 := hleast (lo - 1) ⟨by omega, fun x hlox hxb => by
      rcases (show x = lo - 1 ∨ lo ≤ x by omega) with rfl | hlo
      · exact hbefore
      · exact hleft x hlo hxb⟩
    omega
  · have hle : hi + 1 ≤ hi := hgreatest (hi + 1) ⟨by omega, fun x hbx hxhi => by
      rcases (show x = hi + 1 ∨ x ≤ hi by omega) with rfl | hhi
      · exact hafter
      · exact hright x hbx hhi⟩
    omega

/-- An integer of `[start, stop]` outside the obstacles. -/
def Clear (start stop : ℤ) (obstacles : List Span) (x : ℤ) : Prop :=
  start ≤ x ∧ x ≤ stop ∧ ∀ j ∈ obstacles, x ∉ j

theorem maximalRun_clear_nil {start stop lo hi : ℤ} :
    MaximalRun (Clear start stop []) lo hi ↔ start ≤ stop ∧ lo = start ∧ hi = stop := by
  have hclear : ∀ x, Clear start stop [] x ↔ start ≤ x ∧ x ≤ stop := fun x => by simp [Clear]
  constructor
  · rintro ⟨hle, hall, hbefore, hafter⟩
    rw [hclear] at hbefore hafter
    have hlo := (hclear lo).mp (hall lo le_rfl hle)
    have hhi := (hclear hi).mp (hall hi hle le_rfl)
    omega
  · rintro ⟨hle, rfl, rfl⟩
    refine ⟨hle, fun x hlo hhi => (hclear x).mpr ⟨hlo, hhi⟩, fun hbefore => ?_, fun hafter => ?_⟩
    · exact absurd ((hclear _).mp hbefore).1 (by omega)
    · exact absurd ((hclear _).mp hafter).2 (by omega)

/-- Behind an obstacle the runs are those of what is left. -/
theorem clear_behind {start stop x : ℤ} {j : Span} {rest : List Span} (hx : j.hi < x) :
    Clear start stop (j :: rest) x ↔ Clear (max start (j.hi + 1)) stop rest x := by
  have hout : x ∉ j := fun hmem => absurd (Span.mem_iff.mp hmem).2 (by omega)
  unfold Clear
  simp only [List.forall_mem_cons, hout, not_false_eq_true, true_and]
  constructor <;> rintro ⟨hlo, hhi, hrest⟩ <;> exact ⟨by omega, hhi, hrest⟩

/-- The first obstacle cuts off the gap in front of it. -/
theorem maximalRun_clear_cons {start stop lo hi : ℤ} {j : Span} {rest : List Span} (hj : j.lo ≤ stop)
    (hfirst : ∀ other ∈ rest, j.lo ≤ other.lo) :
    MaximalRun (Clear start stop (j :: rest)) lo hi ↔
      (start < j.lo ∧ lo = start ∧ hi = j.lo - 1) ∨
        MaximalRun (Clear (max start (j.hi + 1)) stop rest) lo hi := by
  have hjle := j.le
  have hfront : ∀ x, start ≤ x → x < j.lo → Clear start stop (j :: rest) x := by
    intro x hlo hhi
    refine ⟨hlo, by omega, List.forall_mem_cons.mpr ⟨fun hmem => ?_, fun other hother hmem => ?_⟩⟩
    · exact absurd (Span.mem_iff.mp hmem).1 (by omega)
    · have hle := hfirst other hother
      exact absurd (Span.mem_iff.mp hmem).1 (by omega)
  have hinside : ∀ x, x ∈ j → ¬Clear start stop (j :: rest) x :=
    fun x hx hclear => hclear.2.2 j List.mem_cons_self hx
  constructor
  · rintro ⟨hle, hall, hbefore, hafter⟩
    rcases lt_or_ge hi j.lo with hlt | hge
    · have hstart := (hall lo le_rfl hle).1
      refine .inl ⟨by omega, ?_, ?_⟩
      · by_contra hne
        exact hbefore (hfront (lo - 1) (by omega) (by omega))
      · by_contra hne
        exact hafter (hfront (hi + 1) (by omega) (by omega))
    · have hbehind : j.hi < lo := by
        by_contra hle'
        rcases le_total lo j.lo with hlo | hlo
        · exact hinside j.lo j.lo_mem (hall j.lo hlo hge)
        · exact hinside lo ⟨hlo, by omega⟩ (hall lo le_rfl hle)
      refine .inr ⟨hle, fun x hlo hhi => (clear_behind (by omega)).mp (hall x hlo hhi), fun hclear => ?_,
        fun hclear => hafter ((clear_behind (by omega)).mpr hclear)⟩
      have hlo := hclear.1
      exact hbefore ((clear_behind (by omega)).mpr hclear)
  · rintro (⟨hstart, rfl, rfl⟩ | ⟨hle, hall, hbefore, hafter⟩)
    · refine ⟨by omega, fun x hlo hhi => hfront x hlo (by omega), fun hclear => ?_, fun hclear => ?_⟩
      · exact absurd hclear.1 (by omega)
      · exact hinside j.lo j.lo_mem (by rwa [Int.sub_add_cancel] at hclear)
    · have hlo := (hall lo le_rfl hle).1
      refine ⟨hle, fun x hlo' hhi => (clear_behind (by omega)).mpr (hall x hlo' hhi), fun hclear => ?_,
        fun hclear => hafter ((clear_behind (by omega)).mp hclear)⟩
      rcases (show j.hi < lo - 1 ∨ lo - 1 = j.hi by omega) with hlt | heq
      · exact hbefore ((clear_behind hlt).mp hclear)
      · exact hinside (lo - 1) ⟨by omega, by omega⟩ hclear

end Spans
