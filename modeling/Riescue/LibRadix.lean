import Mathlib

/-! Radix trees over an arbitrary alphabet. A tree is known by what it shows under each letter: nothing,
a value or a further tree. It represents a list of keyed values when a descent along a word finds the
value whose key the word starts with. Only prefix-free lists are represented; adding entries apart from
those present never changes what the others find. -/

namespace Radix
variable {κ ν T : Type} [DecidableEq κ]

/-- Neither word starts with the other. -/
def Apart (left right : List κ) : Prop := ¬left <+: right ∧ ¬right <+: left

def PrefixFree (entries : List (List κ × ν)) : Prop :=
  entries.Pairwise fun left right => Apart left.1 right.1

omit [DecidableEq κ] in
theorem Apart.symm {left right : List κ} (h : Apart left right) : Apart right left := ⟨h.2, h.1⟩

omit [DecidableEq κ] in
theorem PrefixFree.perm {entries entries' : List (List κ × ν)} (h : PrefixFree entries)
    (hperm : entries.Perm entries') : PrefixFree entries' :=
  (hperm.pairwise_iff fun hapart => Apart.symm hapart).mp h

/-- The entries whose key starts with a letter, that letter taken off. -/
def below (letter : κ) (entries : List (List κ × ν)) : List (List κ × ν) :=
  entries.filterMap fun entry =>
    match entry.1 with
    | [] => none
    | head :: rest => if head = letter then some (rest, entry.2) else none

theorem mem_below {letter : κ} {entries : List (List κ × ν)} {key : List κ} {value : ν} :
    (key, value) ∈ below letter entries ↔ (letter :: key, value) ∈ entries := by
  constructor
  · intro hmem
    obtain ⟨⟨word, value'⟩, hentry, hbelow⟩ := List.mem_filterMap.mp hmem
    cases word with
    | nil => cases hbelow
    | cons head rest =>
        dsimp only at hbelow
        split_ifs at hbelow with hhead
        cases hhead
        cases hbelow
        exact hentry
  · intro hentry
    exact List.mem_filterMap.mpr ⟨_, hentry, by simp⟩

theorem below_append (letter : κ) (front back : List (List κ × ν)) :
    below letter (front ++ back) = below letter front ++ below letter back :=
  List.filterMap_append

theorem below_eq_nil {letter : κ} {entries : List (List κ × ν)}
    (h : ∀ key value, (letter :: key, value) ∉ entries) : below letter entries = [] :=
  List.eq_nil_iff_forall_not_mem.mpr fun _ hentry => h _ _ (mem_below.mp hentry)

/-- Taking a letter off keys that all start with it. -/
theorem below_map_cons {α : Type} {letter : κ} {items : List α} {keyed : α → List κ × ν}
    {rest : α → List κ × ν} (h : ∀ item ∈ items, keyed item = (letter :: (rest item).1, (rest item).2)) :
    below letter (items.map keyed) = items.map rest := by
  induction items with
  | nil => rfl
  | cons item items ih =>
      have hitem := h item List.mem_cons_self
      have hitems := ih fun other hother => h other (List.mem_cons_of_mem _ hother)
      rw [below] at hitems ⊢
      rw [List.map_cons, List.filterMap_cons, hitems, hitem]
      simp

theorem below_map_singleton {letter : κ} {letters : List κ} {value : ν} (h : letters.Nodup) :
    below letter (letters.map fun head => ([head], value)) =
      if letter ∈ letters then [([], value)] else [] := by
  induction letters with
  | nil => rfl
  | cons head letters ih =>
      obtain ⟨hnew, hrest⟩ := List.nodup_cons.mp h
      have hsplit : below letter ((head :: letters).map fun head => ([head], value)) =
          below letter [([head], value)] ++ below letter (letters.map fun head => ([head], value)) :=
        below_append letter [([head], value)] _
      rw [hsplit, ih hrest]
      by_cases hhead : head = letter
      · subst hhead
        simp [below, hnew]
      · simp [below, hhead, Ne.symm hhead]

theorem PrefixFree.below {entries : List (List κ × ν)} (h : PrefixFree entries) (letter : κ) :
    PrefixFree (below letter entries) := by
  refine List.Pairwise.filterMap _ ?_ h
  rintro ⟨left, _⟩ ⟨right, _⟩ hapart leftRest hleft rightRest hright
  cases left with
  | nil => cases hleft
  | cons head rest =>
      cases right with
      | nil => cases hright
      | cons head' rest' =>
          dsimp only at hleft hright
          split_ifs at hleft hright with hhead hhead'
          cases hhead
          cases hhead'
          cases hleft
          cases hright
          exact ⟨fun hprefix => hapart.1 ((List.prefix_cons_inj letter).mpr hprefix),
            fun hprefix => hapart.2 ((List.prefix_cons_inj letter).mpr hprefix)⟩

omit [DecidableEq κ] in
/-- Two entries of a prefix-free concatenation, one of each part, are apart. -/
theorem PrefixFree.apart {front back : List (List κ × ν)} (h : PrefixFree (front ++ back))
    {left right : List κ × ν} (hleft : left ∈ front) (hright : right ∈ back) : Apart left.1 right.1 :=
  (List.pairwise_append.mp h).2.2 _ hleft _ hright

/-- What a tree shows under a letter. -/
inductive Slot (T ν : Type) where
  | missing
  | leaf (value : ν)
  | table (next : T)

/-- The end of a descent: a value together with the letters that were not read, a missing slot, or a
further tree when the letters have run out. -/
inductive Outcome (κ ν : Type) where
  | found (value : ν) (rest : List κ)
  | missing
  | exhausted
  deriving DecidableEq, Repr

variable (child : T → κ → Slot T ν)

/-- The descent from a tree along a word. -/
def lookup : T → List κ → Outcome κ ν
  | _, [] => .exhausted
  | tree, letter :: word =>
      match child tree letter with
      | .missing => .missing
      | .leaf value => .found value word
      | .table next => lookup next word

/-- The tree holds exactly the entries, within a number of letters. -/
def Represents : ℕ → T → List (List κ × ν) → Prop
  | 0, _, _ => False
  | depth + 1, tree, entries => ∀ letter,
      match child tree letter with
      | .missing => below letter entries = []
      | .leaf value => below letter entries = [([], value)]
      | .table next => (below letter entries ≠ [] ∧ ∀ entry ∈ below letter entries, entry.1 ≠ []) ∧
          Represents depth next (below letter entries)

variable {child} {depth : ℕ} {tree tree' : T} {entries fresh : List (List κ × ν)} {letter : κ}

namespace Represents

theorem empty (h : ∀ letter, child tree letter = .missing) : Represents child (depth + 1) tree [] := by
  intro letter
  rw [h letter]
  rfl

theorem below_of_missing (h : Represents child (depth + 1) tree entries)
    (hchild : child tree letter = .missing) : below letter entries = [] := by
  simpa only [hchild] using h letter

theorem below_of_leaf (h : Represents child (depth + 1) tree entries) {value : ν}
    (hchild : child tree letter = .leaf value) : below letter entries = [([], value)] := by
  simpa only [hchild] using h letter

theorem below_of_table (h : Represents child (depth + 1) tree entries) {next : T}
    (hchild : child tree letter = .table next) :
    (below letter entries ≠ [] ∧ ∀ entry ∈ below letter entries, entry.1 ≠ []) ∧
      Represents child depth next (below letter entries) := by
  simpa only [hchild] using h letter

theorem perm (h : Represents child depth tree entries) {entries' : List (List κ × ν)}
    (hperm : entries.Perm entries') : Represents child depth tree entries' := by
  induction depth generalizing tree entries entries' with
  | zero => exact h.elim
  | succ depth ih =>
      intro letter
      have hbelow : (below letter entries).Perm (below letter entries') := hperm.filterMap _
      cases hchild : child tree letter with
      | missing =>
          rw [h.below_of_missing hchild] at hbelow
          exact hbelow.nil_eq.symm
      | leaf value =>
          rw [h.below_of_leaf hchild] at hbelow
          exact hbelow.singleton_eq.symm
      | table next =>
          obtain ⟨⟨hsome, hkeys⟩, hnext⟩ := h.below_of_table hchild
          refine ⟨⟨fun hnil => hsome ?_, fun entry hentry => hkeys _ (hbelow.mem_iff.mpr hentry)⟩,
            ih hnext hbelow⟩
          rw [hnil] at hbelow
          exact hbelow.eq_nil

/-- A word that starts with a key finds its value. -/
theorem lookup_found (h : Represents child depth tree entries) {key rest : List κ} {value : ν}
    (hmem : (key, value) ∈ entries) (hkey : key ≠ []) :
    lookup child tree (key ++ rest) = .found value rest := by
  induction depth generalizing tree entries key with
  | zero => exact h.elim
  | succ depth ih =>
      obtain ⟨letter, key, rfl⟩ := List.exists_cons_of_ne_nil hkey
      have hbelow := mem_below.mpr hmem
      rw [List.cons_append, lookup]
      cases hchild : child tree letter with
      | missing =>
          rw [h.below_of_missing hchild] at hbelow
          cases hbelow
      | leaf found =>
          rw [h.below_of_leaf hchild, List.mem_singleton] at hbelow
          cases hbelow
          rfl
      | table next =>
          obtain ⟨⟨-, hkeys⟩, hnext⟩ := h.below_of_table hchild
          exact ih hnext hbelow (hkeys _ hbelow)

/-- A full word that starts with no key ends at a missing slot. -/
theorem lookup_missing (h : Represents child depth tree entries) {word : List κ}
    (hlength : word.length = depth) (hnone : ∀ entry ∈ entries, ¬entry.1 <+: word) :
    lookup child tree word = .missing := by
  induction depth generalizing tree entries word with
  | zero => exact h.elim
  | succ depth ih =>
      cases word with
      | nil => cases hlength
      | cons letter word =>
          rw [lookup]
          cases hchild : child tree letter with
          | missing => rfl
          | leaf found =>
              have hmem : ([], found) ∈ below letter entries := by
                rw [h.below_of_leaf hchild]
                exact List.mem_singleton_self _
              exact absurd ((List.prefix_cons_inj letter).mpr List.nil_prefix)
                (hnone _ (mem_below.mp hmem))
          | table next =>
              refine ih (h.below_of_table hchild).2 (Nat.succ.inj hlength) ?_
              intro entry hentry hprefix
              exact hnone _ (mem_below.mp hentry) ((List.prefix_cons_inj letter).mpr hprefix)

/-- On the way to a key that is apart from the entries there is no value. -/
theorem child_ne_leaf (h : Represents child (depth + 1) tree entries) {key : List κ}
    (hapart : ∀ entry ∈ entries, Apart (letter :: key) entry.1) (value : ν) :
    child tree letter ≠ .leaf value := by
  intro hchild
  have hmem : ([], value) ∈ below letter entries := by
    rw [h.below_of_leaf hchild]
    exact List.mem_singleton_self _
  exact (hapart _ (mem_below.mp hmem)).2 ((List.prefix_cons_inj letter).mpr List.nil_prefix)

/-- One value stored under several letters at once. -/
theorem insert_leaves (h : Represents child (depth + 1) tree entries) {letters : List κ} {value : ν}
    (hfree : PrefixFree (letters.map (fun letter => ([letter], value)) ++ entries))
    (hafter : ∀ letter, child tree' letter =
      if letter ∈ letters then .leaf value else child tree letter) :
    Represents child (depth + 1) tree' (letters.map (fun letter => ([letter], value)) ++ entries) := by
  have hnodup : letters.Nodup := by
    have hpairs := (List.pairwise_append.mp hfree).1
    rw [List.pairwise_map] at hpairs
    refine hpairs.imp ?_
    rintro letter other hapart rfl
    exact hapart.1 (List.prefix_refl _)
  intro letter
  rw [hafter letter, below_append, below_map_singleton hnodup]
  by_cases hletter : letter ∈ letters
  · have hempty : below letter entries = [] := by
      refine below_eq_nil fun key found hmem => ?_
      have hmine : ([letter], value) ∈ letters.map (fun letter => ([letter], value)) :=
        List.mem_map.mpr ⟨letter, hletter, rfl⟩
      exact (hfree.apart hmine hmem).1 ((List.prefix_cons_inj letter).mpr List.nil_prefix)
    rw [if_pos hletter, if_pos hletter, hempty]
    rfl
  · rw [if_neg hletter, if_neg hletter, List.nil_append]
    exact h letter

/-- Entries stored below one letter, in the tree that stands there. -/
theorem descend (h : Represents child (depth + 1) tree entries) {next : T}
    (hfree : PrefixFree (fresh ++ entries)) (hnonempty : fresh ≠ [])
    (hfresh : ∀ entry ∈ fresh, ∃ key, entry.1 = letter :: key ∧ key ≠ [])
    (hnext : child tree' letter = .table next)
    (hother : ∀ other, other ≠ letter → child tree' other = child tree other)
    (hsub : Represents child depth next (below letter fresh ++ below letter entries)) :
    Represents child (depth + 1) tree' (fresh ++ entries) := by
  intro other
  rw [below_append]
  by_cases hletter : other = letter
  · subst hletter
    rw [hnext]
    obtain ⟨⟨word, value⟩, hmem⟩ := List.exists_mem_of_ne_nil _ hnonempty
    obtain ⟨key, hword, -⟩ := hfresh _ hmem
    obtain rfl : word = other :: key := hword
    refine ⟨⟨List.ne_nil_of_mem (List.mem_append_left _ (mem_below.mpr hmem)), ?_⟩, hsub⟩
    rintro ⟨key', value'⟩ hentry rfl
    rcases List.mem_append.mp hentry with hentry | hentry
    · obtain ⟨key', hkey', hne⟩ := hfresh _ (mem_below.mp hentry)
      exact hne (List.cons.inj hkey').2.symm
    · exact (hfree.apart hmem (mem_below.mp hentry)).2
        ((List.prefix_cons_inj other).mpr List.nil_prefix)
  · have hnothing : below other fresh = [] := by
      refine below_eq_nil fun key value hmem => ?_
      obtain ⟨_, hkey, -⟩ := hfresh _ hmem
      exact hletter (List.cons.inj hkey).1
    rw [hnothing, List.nil_append, hother other hletter]
    exact h other

end Represents

/-! The low digits of a number as a word, the most significant first. -/

/-- The `length` lowest digits of a number in base `base`. -/
def digits (base : ℕ) : ℕ → ℕ → List ℕ
  | 0, _ => []
  | length + 1, value => value / base ^ length % base :: digits base length value

@[simp] theorem length_digits (base length value : ℕ) : (digits base length value).length = length := by
  induction length with
  | zero => rfl
  | succ length ih => rw [digits, List.length_cons, ih]

/-- The leading digits of two numbers agree exactly when the numbers, cut to their low digits, lie in the
same block. -/
theorem take_digits_eq_iff {base : ℕ} (hbase : 0 < base) {length count left right : ℕ}
    (hcount : count ≤ length) :
    (digits base length left).take count = (digits base length right).take count ↔
      left % base ^ length / base ^ (length - count) = right % base ^ length / base ^ (length - count) := by
  induction length generalizing count with
  | zero => simp [digits, Nat.mod_one]
  | succ length ih =>
      cases count with
      | zero =>
          have hzero : ∀ value, value % base ^ (length + 1) / base ^ (length + 1 - 0) = 0 := fun value =>
            Nat.div_eq_of_lt (Nat.mod_lt _ (Nat.pow_pos hbase))
          rw [List.take_zero, List.take_zero, hzero, hzero]
          exact iff_of_true rfl rfl
      | succ count =>
          have hcount' : count ≤ length := Nat.le_of_succ_le_succ hcount
          have hpow : base ^ length = base ^ count * base ^ (length - count) := by
            rw [← Nat.pow_add, Nat.add_sub_cancel' hcount']
          have hsplit : ∀ value, value % base ^ (length + 1) / base ^ (length + 1 - (count + 1)) =
              value / base ^ length % base * base ^ count +
                value % base ^ length / base ^ (length - count) := by
            intro value
            rw [Nat.mod_pow_succ, Nat.add_sub_add_right, Nat.add_comm]
            have hfold : base ^ length * (value / base ^ length % base) =
                base ^ (length - count) * (value / base ^ length % base * base ^ count) := by
              rw [hpow]
              ac_rfl
            rw [hfold, Nat.mul_add_div (Nat.pow_pos hbase)]
          have hlt : ∀ value, value % base ^ length / base ^ (length - count) < base ^ count := by
            intro value
            refine Nat.div_lt_of_lt_mul ?_
            rw [Nat.mul_comm, ← hpow]
            exact Nat.mod_lt _ (Nat.pow_pos hbase)
          rw [digits, digits, List.take_succ_cons, List.take_succ_cons, List.cons.injEq, ih hcount', hsplit,
            hsplit]
          constructor
          · rintro ⟨hhead, htail⟩
            rw [hhead, htail]
          · intro heq
            have hhead := congrArg (· / base ^ count) heq
            have htail := congrArg (· % base ^ count) heq
            rw [Nat.mul_comm, Nat.mul_add_div (Nat.pow_pos hbase), Nat.div_eq_of_lt (hlt left),
              Nat.mul_comm (right / base ^ length % base), Nat.mul_add_div (Nat.pow_pos hbase),
              Nat.div_eq_of_lt (hlt right)] at hhead
            rw [Nat.mul_add_mod_self_right, Nat.mod_eq_of_lt (hlt left), Nat.mul_add_mod_self_right,
              Nat.mod_eq_of_lt (hlt right)] at htail
            exact ⟨hhead, htail⟩

theorem take_digits_isPrefix_iff {base : ℕ} (hbase : 0 < base) {length count left right : ℕ}
    (hcount : count ≤ length) :
    (digits base length left).take count <+: digits base length right ↔
      left % base ^ length / base ^ (length - count) = right % base ^ length / base ^ (length - count) := by
  have hlength : ((digits base length left).take count).length = count := by
    rw [List.length_take, length_digits, Nat.min_eq_left hcount]
  rw [List.prefix_iff_eq_take, hlength]
  exact take_digits_eq_iff hbase hcount

/-- Leading digits are apart when the numbers lie in different blocks of the larger size. -/
theorem apart_take_digits {base : ℕ} (hbase : 0 < base) {length count count' left right : ℕ}
    (hcount : count ≤ length) (hcount' : count' ≤ length)
    (h : left % base ^ length / base ^ (length - min count count') ≠
      right % base ^ length / base ^ (length - min count count')) :
    Apart ((digits base length left).take count) ((digits base length right).take count') := by
  have hlength : ∀ value, ∀ count ≤ length, ((digits base length value).take count).length = count := by
    intro value count hcount
    rw [List.length_take, length_digits, Nat.min_eq_left hcount]
  constructor
  · intro hle
    have hmin : min count count' = count := by
      have := hle.length_le
      rw [hlength _ _ hcount, hlength _ _ hcount'] at this
      exact Nat.min_eq_left this
    rw [hmin] at h
    exact h ((take_digits_isPrefix_iff hbase hcount).mp (hle.trans (List.take_prefix _ _)))
  · intro hle
    have hmin : min count count' = count' := by
      have := hle.length_le
      rw [hlength _ _ hcount, hlength _ _ hcount'] at this
      exact Nat.min_eq_right this
    rw [hmin] at h
    exact h ((take_digits_isPrefix_iff hbase hcount').mp (hle.trans (List.take_prefix _ _))).symm

end Radix
