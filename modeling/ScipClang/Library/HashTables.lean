import Mathlib.Data.List.AList
import Mathlib.Data.List.Rotate
import Mathlib.Tactic

/-!
# Hash tables with an unknown iteration order

A hash table is modelled by the list of its entries: a set as a duplicate-free list
whose members are told apart by a comparison function, a map as an `AList`.  The order
in which a hash table is iterated is not specified, so a program that iterates over
hash tables takes an `IterationOrder`, which may permute the entries of every table,
and of different tables in different ways.

* `insertBy`: insertion into a set; `mem_foldl_insertBy` and `nodup_foldl_insertBy` say
  that inserting the elements of a list builds its set of elements; `mem_foldl_insertBy_iff`
  that a set in which a key is compared has the first element of each key.
* `upsert`: creating or updating the entry of a key; `lookup_foldl_upsert` says that the
  entry of a key depends only on the elements with that key, in their order.
* `extract`: taking all entries out of a table, sorted or in iteration order; `extract_congr`
  and `map_extract_congr` say that sorting hides the order of the iteration.
* `IsHashedOrder`: what a comparison has to satisfy for all that; `sorted_unique` says that
  then there is only one way to sort a list.
-/

namespace HashTables

variable {α β σ : Type}

/-! ## Sets -/

/-- Insertion into a set, where two elements are the same if they compare equal. -/
def insertBy (cmp : α → α → Ordering) (set : List α) (a : α) : List α :=
  if set.any fun b => cmp b a == .eq then set else set ++ [a]

section InsertBy

variable {cmp : α → α → Ordering} [Std.LawfulEqCmp cmp]

theorem any_cmp_eq (set : List α) (a : α) : (set.any fun b => cmp b a == .eq) ↔ a ∈ set := by
  simp

theorem mem_insertBy {set : List α} {a b : α} :
    b ∈ insertBy cmp set a ↔ b ∈ set ∨ b = a := by
  unfold insertBy
  by_cases hmem : a ∈ set
  · rw [if_pos ((any_cmp_eq set a).mpr hmem)]
    constructor
    · exact Or.inl
    · rintro (hb | rfl)
      · exact hb
      · exact hmem
  · rw [if_neg fun hany => hmem ((any_cmp_eq set a).mp hany), List.mem_append,
      List.mem_singleton]

theorem nodup_insertBy {set : List α} (h : set.Nodup) (a : α) : (insertBy cmp set a).Nodup := by
  unfold insertBy
  by_cases hmem : a ∈ set
  · rw [if_pos ((any_cmp_eq set a).mpr hmem)]
    exact h
  · rw [if_neg fun hany => hmem ((any_cmp_eq set a).mp hany)]
    refine List.nodup_append.mpr ⟨h, List.nodup_singleton a, ?_⟩
    intro b hb c hc hbc
    rw [List.mem_singleton] at hc
    subst hbc hc
    exact hmem hb

theorem mem_foldl_insertBy {as set : List α} {b : α} :
    b ∈ as.foldl (insertBy cmp) set ↔ b ∈ set ∨ b ∈ as := by
  induction as generalizing set with
  | nil => simp
  | cons a as ih =>
      rw [List.foldl_cons, ih, mem_insertBy, List.mem_cons]
      tauto

theorem nodup_foldl_insertBy {as set : List α} (h : set.Nodup) :
    (as.foldl (insertBy cmp) set).Nodup := by
  induction as generalizing set with
  | nil => exact h
  | cons a as ih => exact ih (nodup_insertBy h a)

end InsertBy

/-! ### Sets that compare a key -/

section InsertByKey

variable {κ : Type} [DecidableEq κ] {cmp : α → α → Ordering} {keyOf : α → κ}

/-- Two elements are the same if they have the same key. -/
def ComparesKey (cmp : α → α → Ordering) (keyOf : α → κ) : Prop :=
  ∀ a b, cmp a b = .eq ↔ keyOf a = keyOf b

theorem insertBy_of_comparesKey (h : ComparesKey cmp keyOf) (set : List α) (a : α) :
    insertBy cmp set a = if keyOf a ∈ set.map keyOf then set else set ++ [a] := by
  have hany : (set.any fun b => cmp b a == .eq) = true ↔ keyOf a ∈ set.map keyOf := by
    rw [List.any_eq_true, List.mem_map]
    exact exists_congr fun b => and_congr_right fun _ => beq_iff_eq.trans (h b a)
  unfold insertBy
  by_cases hmem : keyOf a ∈ set.map keyOf
  · rw [if_pos hmem, if_pos (hany.mpr hmem)]
  · rw [if_neg hmem, if_neg fun hset => hmem (hany.mp hset)]

theorem nodup_keys_foldl_insertBy (h : ComparesKey cmp keyOf) (as : List α) {set : List α}
    (hset : (set.map keyOf).Nodup) : ((as.foldl (insertBy cmp) set).map keyOf).Nodup := by
  induction as generalizing set with
  | nil => exact hset
  | cons a as ih =>
      rw [List.foldl_cons, insertBy_of_comparesKey h]
      split
      · exact ih hset
      · next hnew =>
        apply ih
        rw [List.map_append, List.map_singleton]
        exact List.nodup_append.mpr ⟨hset, List.nodup_singleton _, fun k hk l hl heq =>
          hnew (List.mem_singleton.mp hl ▸ heq ▸ hk)⟩

/-- For each key the set has the first element that was inserted. -/
theorem find?_foldl_insertBy (h : ComparesKey cmp keyOf) (as set : List α) (key : κ) :
    (as.foldl (insertBy cmp) set).find? (fun a => keyOf a = key) =
      (set ++ as).find? fun a => keyOf a = key := by
  induction as generalizing set with
  | nil => rw [List.foldl_nil, List.append_nil]
  | cons a as ih =>
      rw [List.foldl_cons, ih, insertBy_of_comparesKey h]
      split
      · next hmem =>
        -- the element is not inserted, and would not be found behind the one that is there
        rw [List.find?_append, List.find?_append, List.find?_cons]
        by_cases hkey : keyOf a = key
        · obtain ⟨b, hb, hba⟩ := List.mem_map.mp hmem
          have hsome : (set.find? fun a => keyOf a = key).isSome := by
            rw [List.find?_isSome]
            exact ⟨b, hb, decide_eq_true (hba.trans hkey)⟩
          obtain ⟨c, hc⟩ := Option.isSome_iff_exists.mp hsome
          rw [hc, Option.some_or, Option.some_or]
        · rw [decide_eq_false hkey]
      · rw [List.append_assoc, List.singleton_append]

theorem mem_iff_find?_key {set : List α} (h : (set.map keyOf).Nodup) (a : α) :
    a ∈ set ↔ set.find? (fun b => keyOf b = keyOf a) = some a := by
  refine ⟨fun hmem => ?_, List.mem_of_find?_eq_some⟩
  have hsome : (set.find? fun b => keyOf b = keyOf a).isSome := by
    rw [List.find?_isSome]
    exact ⟨a, hmem, decide_eq_true rfl⟩
  obtain ⟨b, hb⟩ := Option.isSome_iff_exists.mp hsome
  have hkey : keyOf b = keyOf a := by simpa using List.find?_some hb
  rw [hb, List.inj_on_of_nodup_map h (List.mem_of_find?_eq_some hb) hmem hkey]

/-- **What is in the set**: of each key, the first element that was inserted. -/
theorem mem_foldl_insertBy_iff (h : ComparesKey cmp keyOf) (as : List α) (a : α) :
    a ∈ as.foldl (insertBy cmp) [] ↔ as.find? (fun b => keyOf b = keyOf a) = some a := by
  have hnodup := nodup_keys_foldl_insertBy h as (show ([].map keyOf).Nodup from List.nodup_nil)
  rw [mem_iff_find?_key hnodup, find?_foldl_insertBy h, List.nil_append]

end InsertByKey

/-! ## Maps -/

section Upsert

variable {κ ν : Type} [DecidableEq κ]

/-- Create the entry of `key`, or update it if there is one. -/
def upsert (table : AList fun _ : κ => ν) (key : κ) (f : Option ν → ν) : AList fun _ : κ => ν :=
  table.insert key (f (table.lookup key))

theorem lookup_upsert (table : AList fun _ : κ => ν) (key other : κ) (f : Option ν → ν) :
    (upsert table key f).lookup other =
      if other = key then some (f (table.lookup key)) else table.lookup other := by
  by_cases h : other = key
  · subst h
    rw [if_pos rfl, upsert, AList.lookup_insert]
  · rw [if_neg h, upsert, AList.lookup_insert_ne h]

/-- The entry of a key is built from the elements that have this key. -/
theorem lookup_foldl_upsert (keyOf : α → κ) (f : α → Option ν → ν) (xs : List α)
    (table : AList fun _ : κ => ν) (key : κ) :
    (xs.foldl (fun table x => upsert table (keyOf x) (f x)) table).lookup key =
      (xs.filter fun x => keyOf x = key).foldl (fun old x => some (f x old))
        (table.lookup key) := by
  induction xs generalizing table with
  | nil => rfl
  | cons x xs ih =>
      rw [List.foldl_cons, ih, lookup_upsert]
      by_cases h : keyOf x = key
      · rw [if_pos h.symm, List.filter_cons_of_pos (by simpa using h), List.foldl_cons, h]
      · rw [if_neg (Ne.symm h), List.filter_cons_of_neg (by simpa using h)]

/-- Entries are made for keys that have none. -/
theorem lookup_foldl_upsert_getD (value : ν) (keys : List κ) (table : AList fun _ : κ => ν)
    (key : κ) :
    (keys.foldl (fun table key => upsert table key (·.getD value)) table).lookup key =
      (table.lookup key).or (if key ∈ keys then some value else none) := by
  induction keys generalizing table with
  | nil => simp
  | cons other keys ih =>
      rw [List.foldl_cons, ih, lookup_upsert]
      by_cases h : key = other
      · subst h
        cases table.lookup key <;> simp
      · rw [if_neg h]
        simp [h]

/-- The elements collected from all entries of a map, after the entry of one key has got some
more elements. -/
theorem flatMap_entries_upsert_perm {β : Type} (table : AList fun _ : κ => ν) (key : κ)
    (f : Option ν → ν) (collect : κ → ν → List β) (bs : List β)
    (hgrow : collect key (f (table.lookup key)) =
      (table.lookup key).elim [] (collect key) ++ bs) :
    ((upsert table key f).entries.flatMap fun entry => collect entry.1 entry.2).Perm
      ((table.entries.flatMap fun entry => collect entry.1 entry.2) ++ bs) := by
  have hentries : (upsert table key f).entries =
      ⟨key, f (table.lookup key)⟩ :: List.kerase key table.entries := rfl
  rw [hentries, List.flatMap_cons, hgrow, List.append_assoc]
  cases hlookup : table.lookup key with
  | none =>
      rw [List.kerase_of_notMem_keys (AList.lookup_eq_none.mp hlookup), Option.elim_none,
        List.nil_append]
      exact List.perm_append_comm
  | some value =>
      obtain ⟨other, before, after, hbefore, hsplit, herase⟩ :=
        List.exists_of_kerase (AList.lookup_isSome.mp (by rw [hlookup]; rfl) :
          key ∈ table.entries.keys)
      -- the entry that is replaced is the one that was found
      obtain rfl : other = value := by
        have hmem : (⟨key, other⟩ : Σ _ : κ, ν) ∈ table.entries := by
          rw [hsplit]
          exact List.mem_append_right _ List.mem_cons_self
        exact Option.some.inj ((AList.mem_lookup_iff.mpr hmem).symm.trans hlookup)
      rw [herase, hsplit]
      simp only [Option.elim_some, List.flatMap_append, List.flatMap_cons]
      classical
      refine List.perm_iff_count.mpr fun x => ?_
      simp only [List.count_append]
      omega

/-- Among the entries of a map, in any order, at most one has a given key. -/
theorem filter_entries_eq_lookup {table : AList fun _ : κ => ν} {entries : List (Σ _ : κ, ν)}
    (hperm : entries.Perm table.entries) (key : κ) :
    (entries.filter fun entry => entry.1 = key) =
      ((table.lookup key).map (Sigma.mk key)).toList := by
  have hfilter : ∀ l : List (Σ _ : κ, ν), (l.filter fun entry => entry.1 = key) =
      (List.lookupAll key l).map (Sigma.mk key) := by
    intro l
    induction l with
    | nil => rfl
    | cons entry l ih =>
        obtain ⟨k, v⟩ := entry
        by_cases h : k = key
        · subst h
          simpa using ih
        · rw [List.filter_cons_of_neg (by simpa using h), ih,
            List.lookupAll_cons_ne _ _ (Ne.symm h)]
  have hkeys : entries.NodupKeys := (List.perm_nodupKeys hperm).mpr table.nodupKeys
  have hlookup : List.lookupAll key entries = (table.lookup key).toList :=
    (List.perm_lookupAll key hkeys hperm).trans (List.lookupAll_eq_dlookup key table.nodupKeys)
  rw [hfilter, hlookup]
  cases table.lookup key <;> rfl

end Upsert

/-! ## Iteration -/

/-- In which order the hash tables of a program are iterated. -/
structure IterationOrder (σ : Type) where
  iterate : σ → {α : Type} → List α → List α
  perm : ∀ (table : σ) {α : Type} (entries : List α), (iterate table entries).Perm entries

/-- Every table is iterated in the order in which it is listed. -/
def IterationOrder.inOrder : IterationOrder σ where
  iterate _ _ entries := entries
  perm _ _ entries := List.Perm.refl entries

/-- Take all entries out of a table, either sorted or as they come. -/
def extract (order : IterationOrder σ) (table : σ) (deterministic : Bool)
    (cmp : α → α → Ordering) (entries : List α) : List α :=
  if deterministic then
    (order.iterate table entries).mergeSort fun a b => (cmp a b).isLE
  else
    order.iterate table entries

theorem extract_perm (order : IterationOrder σ) (table : σ) (deterministic : Bool)
    (cmp : α → α → Ordering) (entries : List α) :
    (extract order table deterministic cmp entries).Perm entries := by
  unfold extract
  split
  · exact (List.mergeSort_perm _ _).trans (order.perm table entries)
  · exact order.perm table entries

/-! ### Sorting -/

theorem transCmp_comap (cmp : β → β → Ordering) [Std.TransCmp cmp] (f : α → β) :
    Std.TransCmp fun a b => cmp (f a) (f b) where
  eq_swap := Std.OrientedCmp.eq_swap
  isLE_trans := Std.TransCmp.isLE_trans

theorem transCmp_then {cmp₁ cmp₂ : α → α → Ordering} (h₁ : Std.TransCmp cmp₁)
    (h₂ : Std.TransCmp cmp₂) : Std.TransCmp fun a b => (cmp₁ a b).then (cmp₂ a b) :=
  inferInstanceAs (Std.TransCmp (compareLex cmp₁ cmp₂))

/-- Sorting by a comparison gives a sorted list. -/
theorem pairwise_mergeSort_isLE (cmp : α → α → Ordering) [Std.TransCmp cmp] (entries : List α) :
    (entries.mergeSort fun a b => (cmp a b).isLE).Pairwise fun a b => (cmp a b).isLE = true := by
  apply List.pairwise_mergeSort
  · intro a b c hab hbc
    exact Std.TransCmp.isLE_trans hab hbc
  · intro a b
    rw [@Std.OrientedCmp.eq_swap _ cmp _ b]
    cases cmp a b <;> rfl

/-- Sorting forgets the order of the entries. -/
theorem mergeSort_isLE_congr {cmp : α → α → Ordering} [Std.TransCmp cmp] [Std.LawfulEqCmp cmp]
    {entries entries' : List α} (h : entries.Perm entries') :
    (entries.mergeSort fun a b => (cmp a b).isLE) =
      entries'.mergeSort fun a b => (cmp a b).isLE := by
  refine List.Perm.eq_of_pairwise ?_ (pairwise_mergeSort_isLE cmp entries)
    (pairwise_mergeSort_isLE cmp entries') ?_
  · intro a b _ _ hab hba
    exact Std.LawfulEqCmp.eq_of_compare (Std.OrientedCmp.isLE_antisymm hab hba)
  · exact (List.mergeSort_perm _ _).trans (h.trans (List.mergeSort_perm _ _).symm)

/-- Two programs that take the same entries out of a set, sorted, see the same list. -/
theorem extract_congr {cmp : α → α → Ordering} [Std.TransCmp cmp] [Std.LawfulEqCmp cmp]
    (order order' : IterationOrder σ) (table : σ) (entries : List α) :
    extract order table true cmp entries = extract order' table true cmp entries :=
  mergeSort_isLE_congr ((order.perm table entries).trans (order'.perm table entries).symm)

/-- Elements that differ by their keys are sorted strictly. -/
theorem pairwise_lt_extract {κ : Type} {cmp : α → α → Ordering} [Std.TransCmp cmp] {keyOf : α → κ}
    (h : ComparesKey cmp keyOf) (order : IterationOrder σ) (table : σ) {entries : List α}
    (hnodup : (entries.map keyOf).Nodup) :
    (extract order table true cmp entries).Pairwise fun a b => cmp a b = .lt := by
  have hsorted : (extract order table true cmp entries).Pairwise
      fun a b => (cmp a b).isLE = true := pairwise_mergeSort_isLE cmp _
  have hkeys : (extract order table true cmp entries).Pairwise
      fun a b => keyOf a ≠ keyOf b :=
    List.pairwise_map.mp
      (((extract_perm order table true cmp entries).map keyOf).nodup_iff.mpr hnodup)
  refine hsorted.imp₂ ?_ hkeys
  intro a b hle hne
  cases hcmp : cmp a b with
  | lt => rfl
  | eq => exact absurd ((h a b).mp hcmp) hne
  | gt =>
      rw [hcmp] at hle
      exact Bool.noConfusion hle

/-- Sorting forgets the order of entries that differ by their keys. -/
theorem mergeSort_congr_of_comparesKey {κ : Type} {cmp : α → α → Ordering} [Std.TransCmp cmp]
    {keyOf : α → κ} (h : ComparesKey cmp keyOf) {entries entries' : List α}
    (hperm : entries.Perm entries') (hnodup : (entries.map keyOf).Nodup) :
    (entries.mergeSort fun a b => (cmp a b).isLE) =
      entries'.mergeSort fun a b => (cmp a b).isLE := by
  refine List.Perm.eq_of_pairwise ?_ (pairwise_mergeSort_isLE cmp entries)
    (pairwise_mergeSort_isLE cmp entries') ?_
  · intro a b ha hb hab hba
    have hkey := (h a b).mp (Std.OrientedCmp.isLE_antisymm hab hba)
    have hb' := hperm.mem_iff.mpr ((List.mergeSort_perm _ _).mem_iff.mp hb)
    exact List.inj_on_of_nodup_map hnodup ((List.mergeSort_perm _ _).mem_iff.mp ha) hb' hkey
  · exact (List.mergeSort_perm _ _).trans (hperm.trans (List.mergeSort_perm _ _).symm)

theorem extract_congr_of_comparesKey {κ : Type} {cmp : α → α → Ordering} [Std.TransCmp cmp]
    {keyOf : α → κ} (h : ComparesKey cmp keyOf) (order order' : IterationOrder σ) (table : σ)
    {entries : List α} (hnodup : (entries.map keyOf).Nodup) :
    extract order table true cmp entries = extract order' table true cmp entries :=
  mergeSort_congr_of_comparesKey h
    ((order.perm table entries).trans (order'.perm table entries).symm)
    (((order.perm table entries).map keyOf).nodup_iff.mpr hnodup)

/-- Where entries with the same key look the same, it does not matter how they are sorted. -/
theorem map_extract_of_key {κ γ : Type} {cmp : κ → κ → Ordering} [Std.TransCmp cmp]
    [Std.LawfulEqCmp cmp] (keyOf : α → κ) (f : κ → γ) (order order' : IterationOrder σ) (table : σ)
    (entries : List α) :
    (extract order table true (fun a b => cmp (keyOf a) (keyOf b)) entries).map (f ∘ keyOf) =
      (extract order' table true (fun a b => cmp (keyOf a) (keyOf b)) entries).map (f ∘ keyOf) := by
  have : Std.TransCmp fun a b => cmp (keyOf a) (keyOf b) := transCmp_comap cmp keyOf
  have hsorted : ∀ order : IterationOrder σ,
      ((extract order table true (fun a b => cmp (keyOf a) (keyOf b)) entries).map
        keyOf).Pairwise fun k l => (cmp k l).isLE = true := fun order =>
    List.pairwise_map.mpr (pairwise_mergeSort_isLE (fun a b => cmp (keyOf a) (keyOf b)) _)
  have hkeys : (extract order table true (fun a b => cmp (keyOf a) (keyOf b)) entries).map keyOf =
      (extract order' table true (fun a b => cmp (keyOf a) (keyOf b)) entries).map keyOf := by
    refine List.Perm.eq_of_pairwise ?_ (hsorted order) (hsorted order') ?_
    · intro k l _ _ hkl hlk
      exact Std.LawfulEqCmp.eq_of_compare (Std.OrientedCmp.isLE_antisymm hkl hlk)
    · exact ((extract_perm order table true _ entries).trans
        (extract_perm order' table true _ entries).symm).map keyOf
  rw [← List.map_map, ← List.map_map, hkeys]

/-- What a sort guarantees that need not be stable: the same entries, and none of them before
a smaller one. -/
def IsSortOf (cmp : α → α → Ordering) (entries sorted : List α) : Prop :=
  sorted.Perm entries ∧ sorted.Pairwise fun a b => cmp b a ≠ .lt

/-- What sorts and hash sets expect of a comparison: it is a strict total order, only equal
values compare equal, and these are hashed alike. -/
structure IsHashedOrder {η : Type} (cmp : α → α → Ordering) (hash : α → η) : Prop where
  antisymm : ∀ a b, cmp b a = (cmp a b).swap
  trans : ∀ a b c, cmp a b = .lt → cmp b c = .lt → cmp a c = .lt
  eq_iff : ∀ a b, cmp a b = .eq ↔ a = b
  hash_eq : ∀ a b, cmp a b = .eq → hash a = hash b

theorem isHashedOrder {η : Type} (cmp : α → α → Ordering) [Std.TransCmp cmp]
    [Std.LawfulEqCmp cmp] (hash : α → η) : IsHashedOrder cmp hash where
  antisymm _ _ := Std.OrientedCmp.eq_swap
  trans _ _ _ := Std.TransCmp.lt_trans
  eq_iff _ _ := Std.LawfulEqCmp.compare_eq_iff_eq
  hash_eq _ _ h := congrArg hash (Std.LawfulEqCmp.eq_of_compare h)

/-- However the entries are permuted before and however they are sorted, the result is the
same list. -/
theorem IsHashedOrder.sorted_unique {η : Type} {cmp : α → α → Ordering} {hash : α → η}
    (h : IsHashedOrder cmp hash) {entries entries' sorted sorted' : List α}
    (hperm : entries.Perm entries') (hsorted : IsSortOf cmp entries sorted)
    (hsorted' : IsSortOf cmp entries' sorted') : sorted = sorted' := by
  refine List.Perm.eq_of_pairwise ?_ hsorted.2 hsorted'.2
    (hsorted.1.trans (hperm.trans hsorted'.1.symm))
  intro a b _ _ hle hge
  refine (h.eq_iff a b).mp ?_
  rw [h.antisymm a b] at hle
  cases hcmp : cmp a b with
  | lt => exact absurd hcmp hge
  | eq => rfl
  | gt =>
      rw [hcmp] at hle
      exact absurd rfl hle

theorem isSortOf_mergeSort (cmp : α → α → Ordering) [Std.TransCmp cmp] (entries : List α) :
    IsSortOf cmp entries (entries.mergeSort fun a b => (cmp a b).isLE) := by
  refine ⟨List.mergeSort_perm _ _, (pairwise_mergeSort_isLE cmp entries).imp ?_⟩
  intro a b hle hlt
  rw [Std.OrientedCmp.gt_of_lt hlt] at hle
  exact Bool.noConfusion hle

theorem isSortOf_extract (cmp : α → α → Ordering) [Std.TransCmp cmp] (order : IterationOrder σ)
    (table : σ) (entries : List α) :
    IsSortOf cmp entries (extract order table true cmp entries) := by
  have hsort := isSortOf_mergeSort cmp (order.iterate table entries)
  exact ⟨hsort.1.trans (order.perm table entries), hsort.2⟩

section Keyed

variable {κ ν γ : Type} {cmp : κ → κ → Ordering}

/-- The entries of a map sorted by key, each transformed and still with its key. -/
def extractKeyed (order : IterationOrder σ) (name : σ) (cmp : κ → κ → Ordering)
    (table : AList fun _ : κ => ν) (f : (Σ _ : κ, ν) → γ) : List (κ × γ) :=
  (extract order name true (fun p1 p2 => cmp p1.1 p2.1) table.entries).map fun entry =>
    (entry.1, f entry)

theorem mem_extractKeyed [DecidableEq κ] {order : IterationOrder σ} {name : σ}
    {table : AList fun _ : κ => ν} {f : (Σ _ : κ, ν) → γ} {key : κ} {c : γ} :
    (key, c) ∈ extractKeyed order name cmp table f ↔
      (table.lookup key).map (fun value => f ⟨key, value⟩) = some c := by
  simp only [extractKeyed, List.mem_map, (extract_perm ..).mem_iff, Prod.mk.injEq,
    Option.map_eq_some_iff]
  constructor
  · rintro ⟨⟨other, value⟩, hmem, rfl, rfl⟩
    exact ⟨value, AList.mem_lookup_iff.mpr hmem, rfl⟩
  · rintro ⟨value, hlookup, rfl⟩
    exact ⟨⟨key, value⟩, AList.mem_lookup_iff.mp hlookup, rfl, rfl⟩

theorem nodup_extractKeyed (order : IterationOrder σ) (name : σ) (table : AList fun _ : κ => ν)
    (f : (Σ _ : κ, ν) → γ) : (extractKeyed order name cmp table f).Nodup := by
  apply List.Nodup.of_map Prod.fst
  rw [extractKeyed, List.map_map]
  exact ((extract_perm ..).map Sigma.fst).nodup_iff.mpr table.keys_nodup

theorem pairwise_extractKeyed [Std.TransCmp cmp] (order : IterationOrder σ) (name : σ)
    (table : AList fun _ : κ => ν) (f : (Σ _ : κ, ν) → γ) :
    (extractKeyed order name cmp table f).Pairwise fun a b => (cmp a.1 b.1).isLE = true := by
  have hcmp := transCmp_comap cmp (Sigma.fst : (Σ _ : κ, ν) → κ)
  exact List.pairwise_map.mpr (pairwise_mergeSort_isLE _ _)

/-- Entries of two maps that agree once they are transformed are the same list once they
are sorted by key. -/
theorem map_extract_congr [DecidableEq κ] [Std.TransCmp cmp] [Std.LawfulEqCmp cmp]
    (order order' : IterationOrder σ) (name : σ)
    {table table' : AList fun _ : κ => ν} {f f' : (Σ _ : κ, ν) → γ}
    (h : ∀ key, (table.lookup key).map (fun value => f ⟨key, value⟩) =
      (table'.lookup key).map fun value => f' ⟨key, value⟩) :
    (extract order name true (fun p1 p2 => cmp p1.1 p2.1) table.entries).map f =
      (extract order' name true (fun p1 p2 => cmp p1.1 p2.1) table'.entries).map f' := by
  have hmem : ∀ entry, entry ∈ extractKeyed order name cmp table f ↔
      entry ∈ extractKeyed order' name cmp table' f' := by
    rintro ⟨key, c⟩
    rw [mem_extractKeyed, mem_extractKeyed, h]
  have hperm : (extractKeyed order name cmp table f).Perm
      (extractKeyed order' name cmp table' f') :=
    (List.perm_ext_iff_of_nodup (nodup_extractKeyed ..) (nodup_extractKeyed ..)).mpr hmem
  have heq : extractKeyed order name cmp table f = extractKeyed order' name cmp table' f' := by
    refine hperm.eq_of_pairwise ?_ (pairwise_extractKeyed ..) (pairwise_extractKeyed ..)
    -- entries that compare equal have the same key, and a key has one entry
    rintro ⟨key, c⟩ ⟨key', c'⟩ hc hc' hle hge
    obtain rfl : key = key' :=
      Std.LawfulEqCmp.eq_of_compare (Std.OrientedCmp.isLE_antisymm hle hge)
    rw [hmem, mem_extractKeyed] at hc
    rw [mem_extractKeyed, hc] at hc'
    rw [Option.some.inj hc']
  have hsnd := congrArg (List.map Prod.snd) heq
  rw [extractKeyed, extractKeyed, List.map_map, List.map_map] at hsnd
  exact hsnd

end Keyed

/-! ### Orders that favour an entry -/

/-- Every table is iterated backwards. -/
def IterationOrder.reversed : IterationOrder σ where
  iterate _ _ entries := entries.reverse
  perm _ _ entries := entries.reverse_perm

/-- Every table is iterated from some entry on. -/
def IterationOrder.rotating (start : σ → Nat) : IterationOrder σ where
  iterate table _ entries := entries.rotate (start table)
  perm table _ entries := entries.rotate_perm (start table)

/-- Any entry of a table may be the first one. -/
theorem exists_rotate_eq_cons {entries : List α} {entry : α} (h : entry ∈ entries) :
    ∃ n rest, entries.rotate n = entry :: rest := by
  obtain ⟨before, after, rfl⟩ := List.append_of_mem h
  exact ⟨before.length, after ++ before, List.rotate_append_length_eq before (entry :: after)⟩

end HashTables
