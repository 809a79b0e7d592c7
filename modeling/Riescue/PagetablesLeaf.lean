import Riescue.PagetablesStep

/-! The attributes of a leaf. A page has two layers of attributes, one under the plain names and one under
the names of the levels; `PTAttrs` merges both, first the plain layer (with `a` and `d` resolved by svadu)
and then, in every entry, the level over it. -/

namespace Riescue.Pagetables
open Paging

namespace PTAttrs

theorem resolveAccessed_level (featmgr : FeatMgr) (attrs : PTAttrs) (rng : RandNum) (attr : Attr) :
    (resolveAccessed featmgr attrs rng attr).1.level = attrs.level := by
  unfold resolveAccessed
  split_ifs <;> rfl

theorem resolveAccessed_plain_ne (featmgr : FeatMgr) (attrs : PTAttrs) (rng : RandNum) {attr other : Attr}
    (hne : other ≠ attr) : (resolveAccessed featmgr attrs rng attr).1.plain other = attrs.plain other := by
  unfold resolveAccessed
  split_ifs <;> simp [setPlain, hne]

/-- An attribute that the loop does not reach keeps its value. -/
theorem setLevel_plain_of_notMem (featmgr : FeatMgr) (level : ℕ) {names : List Attr} (attrs : PTAttrs)
    (rng : RandNum) {attr : Attr} (hattr : attr ∉ names) :
    (setLevel featmgr level names attrs rng).1.plain attr = attrs.plain attr := by
  induction names generalizing attrs rng with
  | nil => rfl
  | cons name names ih =>
      have hne : attr ≠ name := fun heq => hattr (heq ▸ List.mem_cons_self)
      rw [setLevel, ih _ _ fun hmem => hattr (List.mem_cons_of_mem _ hmem)]
      simp only [setPlain, if_neg hne]
      exact resolveAccessed_plain_ne featmgr attrs rng hne

/-- An attribute that the loop reaches ends with the value of the level. -/
theorem setLevel_plain_of_mem (featmgr : FeatMgr) (level : ℕ) {names : List Attr} (attrs : PTAttrs)
    (rng : RandNum) {attr : Attr} (hattr : attr ∈ names) :
    (setLevel featmgr level names attrs rng).1.plain attr = some (attrs.level attr level) := by
  induction names generalizing attrs rng with
  | nil => cases hattr
  | cons name names ih =>
      have hlevel : ∀ value, ((resolveAccessed featmgr attrs rng name).1.setPlain name value).level =
          attrs.level := fun _ => resolveAccessed_level featmgr attrs rng name
      rw [setLevel]
      by_cases hlater : attr ∈ names
      · rw [ih _ _ hlater, hlevel]
      · obtain rfl : attr = name := (List.mem_cons.mp hattr).resolve_right hlater
        rw [setLevel_plain_of_notMem featmgr level _ _ hlater, resolveAccessed_level]
        simp [setPlain]

end PTAttrs

theorem Attr.mem_all (attr : Attr) : attr ∈ Attr.all := by
  cases attr <;> decide

/-- The value of an attribute in the level layer: the page's, over the default of `PTAttrs`. -/
def Page.levelValue (page : Page) (level : ℕ) (attr : Attr) : ℕ :=
  (page.attrs.level attr level).getD ((PTAttrs.base true).level attr level)

/-- Whatever the plain layer says and whatever is drawn, a leaf has the attributes of its level. -/
theorem PTAttrs.init_plain (rng : RandNum) (featmgr : FeatMgr) (level : ℕ) (page : Page) (attr : Attr) :
    (PTAttrs.init rng featmgr level page true).1.plain attr = some (page.levelValue level attr) :=
  PTAttrs.setLevel_plain_of_mem featmgr level _ rng attr.mem_all

/-- The `a` or `d` a leaf should have: the plain value, else a drawn bit when svadu is on and 1 when it is
off. -/
def wantedAccessed (featmgr : FeatMgr) (rng : RandNum) : Option ℕ → ℕ × RandNum
  | some value => (value, rng)
  | none =>
      if featmgr.svadu then
        let (set, rng) := rng.withProbabilityOf 50
        (if set then 1 else 0, rng)
      else (1, rng)

/-- What the merge should give at a leaf, as a condition on the value of every attribute: the plain value
where the page's creator gave one that differs from the level's default, and `a` and `d` as above; the
bit for `a` is drawn before the one for `d`. -/
structure FollowsPage (ubit : ℕ) (rng : RandNum) (featmgr : FeatMgr) (level : ℕ) (page : Page)
    (leafValue : Attr → ℕ) : Prop where
  plain : ∀ attr value, attr ≠ .a → attr ≠ .d → page.attrs.plain attr = some value →
    (PageAttrs.default ubit).level attr level ≠ some value → leafValue attr = value
  accessed : leafValue .a = (wantedAccessed featmgr rng (page.attrs.plain .a)).1
  dirty : leafValue .d =
    (wantedAccessed featmgr (wantedAccessed featmgr rng (page.attrs.plain .a)).2 (page.attrs.plain .d)).1

/-- The leaf entry that `PTAttrs` makes for the page. -/
def LeafFollows (ubit : ℕ) (rng : RandNum) (featmgr : FeatMgr) (level : ℕ) (page : Page) : Prop :=
  ∃ leafValue, (∀ attr, (PTAttrs.init rng featmgr level page true).1.plain attr = some (leafValue attr)) ∧
    FollowsPage ubit rng featmgr level page leafValue

/-- The leaf of the page is valid, readable, writable and executable. -/
def UsableLeaf (rng : RandNum) (featmgr : FeatMgr) (page : Page) : Prop :=
  ∀ attr ∈ [Attr.v, .r, .w, .x], (PTAttrs.init rng featmgr page.ptLeafLevel page true).1.plain attr = some 1

theorem leafFollows_iff_levelValue (ubit : ℕ) (rng : RandNum) (featmgr : FeatMgr) (level : ℕ) (page : Page) :
    LeafFollows ubit rng featmgr level page ↔
      FollowsPage ubit rng featmgr level page (page.levelValue level) := by
  constructor
  · rintro ⟨leafValue, hleaf, hfollows⟩
    have heq : leafValue = page.levelValue level := by
      funext attr
      have hattr := PTAttrs.init_plain rng featmgr level page attr
      rw [hleaf attr] at hattr
      exact Option.some.inj hattr
    rwa [heq] at hfollows
  · intro hfollows
    exact ⟨page.levelValue level, PTAttrs.init_plain rng featmgr level page, hfollows⟩

/-- A page with its defaults only can be used where its leaf is at level 0. -/
theorem usableLeaf_default_iff (ubit : ℕ) (rng : RandNum) (featmgr : FeatMgr) (page : Page) :
    UsableLeaf rng featmgr { page with attrs := PageAttrs.default ubit } ↔ page.ptLeafLevel = 0 := by
  have hvalue : ∀ attr, (PTAttrs.init rng featmgr page.ptLeafLevel
      { page with attrs := PageAttrs.default ubit } true).1.plain attr =
        some (((PageAttrs.default ubit).level attr page.ptLeafLevel).getD
          ((PTAttrs.base true).level attr page.ptLeafLevel)) :=
    fun attr => PTAttrs.init_plain rng featmgr page.ptLeafLevel _ attr
  constructor
  · intro husable
    have hread := husable .r (by simp)
    by_contra hlevel
    have hzero := (hvalue .r).symm.trans hread
    simp [PageAttrs.default, hlevel] at hzero
  · intro hlevel attr hattr
    refine (hvalue attr).trans ?_
    rw [hlevel]
    simp only [List.mem_cons, List.not_mem_nil, or_false] at hattr
    rcases hattr with rfl | rfl | rfl | rfl <;> rfl

/-- The leaf follows the page exactly where the level layer of the page already does, and of the pages
with defaults only those with their leaf at level 0 are usable. -/
theorem leafFollows_iff (ubit : ℕ) (rng : RandNum) (featmgr : FeatMgr) (level : ℕ) (page : Page) :
    (LeafFollows ubit rng featmgr level page ↔
      FollowsPage ubit rng featmgr level page (page.levelValue level)) ∧
      (UsableLeaf rng featmgr { page with attrs := PageAttrs.default ubit } ↔ page.ptLeafLevel = 0) :=
  ⟨leafFollows_iff_levelValue ubit rng featmgr level page, usableLeaf_default_iff ubit rng featmgr page⟩

/-- A page of two megabytes with its defaults: its leaf at level 1 cannot be read, and `a` is zero
although svadu is off. -/
theorem not_leafFollows :
    ¬∀ (ubit : ℕ) (rng : RandNum) (featmgr : FeatMgr) (level : ℕ) (page : Page),
      LeafFollows ubit rng featmgr level page ∧
        UsableLeaf rng featmgr { page with attrs := PageAttrs.default ubit } := by
  intro h
  have husable := (h 0 ⟨[]⟩ {} 1 ⟨"page", .s2mb, some 0, some 0, false, PageAttrs.default 0⟩).2
  have hread := husable .r (by simp)
  exact absurd hread (by decide)

end Riescue.Pagetables
