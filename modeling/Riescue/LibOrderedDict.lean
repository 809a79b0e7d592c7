import Mathlib.Data.List.Nodup
import Mathlib.Tactic.Common

/-! Insertion-ordered dictionaries as lists of key-value pairs: assignment replaces the value of a key
that is present, at its place, and appends a new key at the end. -/

namespace OrderedDict
variable {κ ν μ : Type} [DecidableEq κ]

/-- The value under a key. -/
def get? : List (κ × ν) → κ → Option ν
  | [], _ => none
  | (key', value') :: rest, key => if key' = key then some value' else get? rest key

/-- Assignment to a key. -/
def insert : List (κ × ν) → κ → ν → List (κ × ν)
  | [], key, value => [(key, value)]
  | (key', value') :: rest, key, value =>
      if key' = key then (key', value) :: rest else (key', value') :: insert rest key value

@[simp] theorem get?_nil (key : κ) : get? ([] : List (κ × ν)) key = none := rfl

@[simp] theorem get?_insert_self (dict : List (κ × ν)) (key : κ) (value : ν) :
    get? (insert dict key value) key = some value := by
  induction dict with
  | nil => simp [insert, get?]
  | cons pair rest ih =>
      by_cases hkey : pair.1 = key <;> simp [insert, get?, hkey, ih]

theorem get?_insert_ne (dict : List (κ × ν)) {key other : κ} (value : ν) (hne : other ≠ key) :
    get? (insert dict key value) other = get? dict other := by
  induction dict with
  | nil => simp [insert, get?, hne.symm]
  | cons pair rest ih =>
      by_cases hkey : pair.1 = key
      · simp [insert, get?, hkey, hne.symm]
      · by_cases hother : pair.1 = other <;> simp [insert, get?, hkey, hother, ih, hne]

theorem get?_eq_none {dict : List (κ × ν)} {key : κ} (h : key ∉ dict.map Prod.fst) : get? dict key = none := by
  induction dict with
  | nil => rfl
  | cons entry rest ih =>
      rw [List.map_cons, List.mem_cons, not_or] at h
      rw [get?, if_neg (Ne.symm h.1)]
      exact ih h.2

/-- A new key comes last. -/
theorem insert_eq_append {dict : List (κ × ν)} {key : κ} (value : ν) (h : key ∉ dict.map Prod.fst) :
    insert dict key value = dict ++ [(key, value)] := by
  induction dict with
  | nil => rfl
  | cons entry rest ih =>
      rw [List.map_cons, List.mem_cons, not_or] at h
      rw [insert, if_neg (Ne.symm h.1), ih h.2, List.cons_append]

theorem mem_of_get? {dict : List (κ × ν)} {key : κ} {value : ν} (h : get? dict key = some value) :
    (key, value) ∈ dict := by
  induction dict with
  | nil => cases h
  | cons pair rest ih =>
      rw [get?] at h
      split_ifs at h with hkey
      · obtain rfl := hkey
        obtain rfl := Option.some.inj h
        exact List.mem_cons_self
      · exact List.mem_cons_of_mem _ (ih h)

theorem get?_of_mem {dict : List (κ × ν)} (hnodup : (dict.map Prod.fst).Nodup) {pair : κ × ν} (h : pair ∈ dict) :
    get? dict pair.1 = some pair.2 := by
  induction dict with
  | nil => cases h
  | cons head rest ih =>
      obtain ⟨hhead, hrest⟩ := List.nodup_cons.mp hnodup
      rw [get?]
      rcases List.mem_cons.mp h with rfl | hmem
      · rw [if_pos rfl]
      · rw [if_neg fun heq : head.1 = pair.1 => hhead (heq ▸ List.mem_map_of_mem hmem), ih hrest hmem]

theorem mem_keys_insert {dict : List (κ × ν)} {key other : κ} {value : ν} :
    other ∈ (insert dict key value).map Prod.fst ↔ other = key ∨ other ∈ dict.map Prod.fst := by
  induction dict with
  | nil => simp [insert]
  | cons head rest ih =>
      rw [insert]
      split_ifs with hkey
      · rw [List.map_cons, List.map_cons, List.mem_cons]
        exact ⟨.inr, fun h => h.elim (fun heq => .inl (heq.trans hkey.symm)) id⟩
      · simp only [List.map_cons, List.mem_cons, ih]
        exact or_left_comm

theorem nodup_keys_insert {dict : List (κ × ν)} (h : (dict.map Prod.fst).Nodup) (key : κ) (value : ν) :
    ((insert dict key value).map Prod.fst).Nodup := by
  induction dict with
  | nil => simp [insert]
  | cons head rest ih =>
      obtain ⟨hhead, hrest⟩ := List.nodup_cons.mp h
      rw [insert]
      split_ifs with hkey
      · exact h
      · refine List.nodup_cons.mpr ⟨fun hmem => ?_, ih hrest⟩
        exact (mem_keys_insert.mp hmem).elim hkey hhead

theorem eq_or_mem_of_mem_insert {dict : List (κ × ν)} {key : κ} {value : ν} {pair : κ × ν}
    (h : pair ∈ insert dict key value) : pair ∈ dict ∨ pair = (key, value) := by
  induction dict with
  | nil => exact Or.inr (List.mem_singleton.mp h)
  | cons head rest ih =>
      rw [insert] at h
      split_ifs at h with hkey
      · rcases List.mem_cons.mp h with rfl | hmem
        · exact Or.inr (Prod.ext hkey rfl)
        · exact Or.inl (List.mem_cons_of_mem _ hmem)
      · rcases List.mem_cons.mp h with rfl | hmem
        · exact Or.inl List.mem_cons_self
        · exact (ih hmem).imp_left (List.mem_cons_of_mem _)

theorem mem_insert {dict : List (κ × ν)} {key : κ} {value : ν} {pair : κ × ν}
    (h : pair ∈ insert dict key value) : pair ∈ dict ∨ pair.2 = value :=
  (eq_or_mem_of_mem_insert h).imp_right (congrArg Prod.snd)

/-- Collecting from the values of a dictionary: what an assignment adds is what the new value holds more
than the old one. -/
theorem count_flatMap_insert_le [DecidableEq μ] {collect : κ × ν → List μ} {dict : List (κ × ν)} {key : κ}
    {value : ν} {item : μ} {extra : ℕ}
    (h : (collect (key, value)).count item ≤
      extra + ((get? dict key).elim 0 fun old => (collect (key, old)).count item)) :
    ((insert dict key value).flatMap collect).count item ≤ extra + (dict.flatMap collect).count item := by
  induction dict with
  | nil => simpa [insert] using h
  | cons head rest ih =>
      obtain ⟨key', current⟩ := head
      rw [get?] at h
      rw [insert]
      split_ifs at h ⊢ with hkey
      · obtain rfl := hkey
        simp only [List.flatMap_cons, List.count_append]
        change _ ≤ extra + (collect (key', current)).count item at h
        omega
      · have hrest := ih h
        simp only [List.flatMap_cons, List.count_append]
        omega

/-- A dictionary with the entries of a list assigned one after the other. -/
def assign (dict entries : List (κ × ν)) : List (κ × ν) :=
  entries.foldl (fun dict entry => insert dict entry.1 entry.2) dict

/-- New keys come in their order. -/
theorem assign_eq_append {dict entries : List (κ × ν)} (hnodup : ((dict ++ entries).map Prod.fst).Nodup) :
    assign dict entries = dict ++ entries := by
  induction entries generalizing dict with
  | nil => exact (List.append_nil dict).symm
  | cons entry rest ih =>
      have hsplit : dict ++ entry :: rest = dict ++ [entry] ++ rest := by rw [List.append_assoc]; rfl
      have hnew : entry.1 ∉ dict.map Prod.fst := by
        rw [List.map_append, List.nodup_append] at hnodup
        exact fun hmem => hnodup.2.2 _ hmem _ List.mem_cons_self rfl
      have hinsert := insert_eq_append entry.2 hnew
      calc assign dict (entry :: rest)
        _ = assign (insert dict entry.1 entry.2) rest := rfl
        _ = dict ++ entry :: rest := by rw [hinsert, ih (hsplit ▸ hnodup), hsplit]

/-- Assigning related values keeps dictionaries related. -/
theorem forall₂_insert {R : ν → μ → Prop} {dict : List (κ × ν)} {dict' : List (κ × μ)}
    (h : List.Forall₂ (fun pair pair' => pair'.1 = pair.1 ∧ R pair.2 pair'.2) dict dict') (key : κ) {value : ν} {value' : μ}
    (hvalue : R value value') :
    List.Forall₂ (fun pair pair' => pair'.1 = pair.1 ∧ R pair.2 pair'.2) (insert dict key value) (insert dict' key value') := by
  induction h with
  | nil => exact .cons ⟨rfl, hvalue⟩ .nil
  | @cons pair pair' rest rest' hpair hrest ih =>
      obtain ⟨key₁, value₁⟩ := pair
      obtain ⟨key₂, value₂⟩ := pair'
      obtain ⟨rfl, hold⟩ : key₂ = key₁ ∧ R value₁ value₂ := hpair
      rw [insert, insert]
      split_ifs
      · exact .cons ⟨rfl, hvalue⟩ hrest
      · exact .cons ⟨rfl, hold⟩ ih

theorem forall₂_assign {R : ν → μ → Prop} {entries : List (κ × ν)} {entries' : List (κ × μ)}
    (hentries : List.Forall₂ (fun pair pair' => pair'.1 = pair.1 ∧ R pair.2 pair'.2) entries entries') {dict : List (κ × ν)}
    {dict' : List (κ × μ)} (hdict : List.Forall₂ (fun pair pair' => pair'.1 = pair.1 ∧ R pair.2 pair'.2) dict dict') :
    List.Forall₂ (fun pair pair' => pair'.1 = pair.1 ∧ R pair.2 pair'.2) (assign dict entries) (assign dict' entries') := by
  induction hentries generalizing dict dict' with
  | nil => exact hdict
  | @cons pair pair' rest rest' hpair _ ih =>
      obtain ⟨key₁, value₁⟩ := pair
      obtain ⟨key₂, value₂⟩ := pair'
      obtain ⟨rfl, hvalue⟩ : key₂ = key₁ ∧ R value₁ value₂ := hpair
      exact ih (forall₂_insert hdict key₂ hvalue)

/-- A function on the values. -/
theorem get?_map (g : ν → μ) (dict : List (κ × ν)) (key : κ) :
    get? (dict.map fun entry => (entry.1, g entry.2)) key = (get? dict key).map g := by
  induction dict with
  | nil => rfl
  | cons entry rest ih =>
      rw [List.map_cons, get?, get?]
      split_ifs
      · rfl
      · exact ih

theorem get?_isSome {dict : List (κ × ν)} {key : κ} : (get? dict key).isSome ↔ key ∈ dict.map Prod.fst := by
  constructor
  · intro h
    obtain ⟨value, hvalue⟩ := Option.isSome_iff_exists.mp h
    exact List.mem_map_of_mem (mem_of_get? hvalue)
  · intro h
    induction dict with
    | nil => cases h
    | cons entry rest ih =>
        rw [get?]
        split_ifs with hkey
        · rfl
        · rw [List.map_cons, List.mem_cons] at h
          exact ih (h.resolve_left fun heq => hkey heq.symm)

theorem get?_append (left right : List (κ × ν)) (key : κ) :
    get? (left ++ right) key = (get? left key).or (get? right key) := by
  induction left with
  | nil => rfl
  | cons entry rest ih =>
      rw [List.cons_append, get?, get?]
      split_ifs
      · rfl
      · exact ih

/-- The last entry of a key is the one that stays. -/
theorem get?_assign (dict entries : List (κ × ν)) (key : κ) :
    get? (assign dict entries) key = (get? entries.reverse key).or (get? dict key) := by
  induction entries generalizing dict with
  | nil => rfl
  | cons entry rest ih =>
      rw [assign, List.foldl_cons, ← assign, ih, List.reverse_cons, get?_append, Option.or_assoc]
      congr 1
      by_cases hkey : entry.1 = key
      · obtain rfl := hkey
        rw [get?_insert_self, get?, if_pos rfl]
        rfl
      · rw [get?_insert_ne _ _ (Ne.symm hkey), get?, if_neg hkey]
        rfl

theorem get?_reverse {dict : List (κ × ν)} (hnodup : (dict.map Prod.fst).Nodup) (key : κ) :
    get? dict.reverse key = get? dict key := by
  have hreverse : (dict.reverse.map Prod.fst).Nodup := by
    rw [List.map_reverse]
    exact List.nodup_reverse.mpr hnodup
  cases h : get? dict key with
  | some value => exact get?_of_mem hreverse (List.mem_reverse.mpr (mem_of_get? h))
  | none =>
      cases h' : get? dict.reverse key with
      | none => rfl
      | some value =>
          have hmem : get? dict key = some value := get?_of_mem hnodup (List.mem_reverse.mp (mem_of_get? h'))
          exact nomatch h.symm.trans hmem

theorem nodup_keys_assign {dict entries : List (κ × ν)} (hnodup : (dict.map Prod.fst).Nodup) :
    ((assign dict entries).map Prod.fst).Nodup := by
  induction entries generalizing dict with
  | nil => exact hnodup
  | cons entry rest ih => exact ih (nodup_keys_insert hnodup _ _)

/-- Entries that were first collected in a dictionary of their own. -/
theorem get?_assign_assign (dict entries : List (κ × ν)) (key : κ) :
    get? (assign dict (assign [] entries)) key = get? (assign dict entries) key := by
  have hnodup : ((assign ([] : List (κ × ν)) entries).map Prod.fst).Nodup := nodup_keys_assign List.nodup_nil
  rw [get?_assign, get?_reverse hnodup, get?_assign, get?_assign, get?_nil, Option.or_none]

/-- All entries are there afterwards when no key comes twice. -/
theorem get?_reverse_iff {entries : List (κ × ν)} (hvalues : (entries.map Prod.snd).Nodup) :
    (∀ entry ∈ entries, get? entries.reverse entry.1 = some entry.2) ↔ (entries.map Prod.fst).Nodup := by
  constructor
  · intro h
    refine List.Nodup.map_on (fun entry hentry other hother hkey => ?_) (List.Nodup.of_map _ hvalues)
    have hvalue : some entry.2 = some other.2 :=
      (h entry hentry).symm.trans ((congrArg _ hkey).trans (h other hother))
    exact Prod.ext hkey (Option.some.inj hvalue)
  · intro hkeys entry hentry
    rw [get?_reverse hkeys]
    exact get?_of_mem hkeys hentry

end OrderedDict
