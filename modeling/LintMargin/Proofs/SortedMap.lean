import LintMargin.SortedMap
import Mathlib.Data.List.Nodup

/-!
# Keys, values and sizes of sorted maps

The operations of `SortedMap` are given by look-ups; here look-ups are tied to the lists that are read
off a map, and repeated operations on one key are collapsed.
-/

namespace LintMargin.SortedMap

universe u v w

variable {κ : Type u} [Ranked κ] {α : Type v} {β : Type w}

/-! ### Keys -/

/-- Things in strictly ascending order are in one order only. -/
theorem eq_of_perm {β : Type*} {f : β → Nat} {l l' : List β} (h : l.Perm l')
    (hl : l.Pairwise fun a b => f a < f b) (hl' : l'.Pairwise fun a b => f a < f b) : l = l' :=
  h.eq_of_pairwise (fun _ _ _ _ hab hba => absurd hab (Nat.not_lt.mpr (Nat.le_of_lt hba))) hl hl'

theorem keys_nodup (m : SortedMap κ α) : m.keys.Nodup := by
  apply m.keys_ascending.imp
  rintro a b hlt rfl
  exact Nat.lt_irrefl _ hlt

theorem isSome_get?_iff {m : SortedMap κ α} {k : κ} : (m.get? k).isSome ↔ k ∈ m.keys := by
  rw [mem_keys_iff, Option.isSome_iff_exists]

theorem get?_eq_none_iff {m : SortedMap κ α} {k : κ} : m.get? k = none ↔ k ∉ m.keys := by
  rw [← isSome_get?_iff, Option.not_isSome_iff_eq_none]

/-- Two maps that hold the same keys list them in the same order. -/
theorem keys_eq_of_mem_iff {m : SortedMap κ α} {n : SortedMap κ β}
    (h : ∀ k, k ∈ m.keys ↔ k ∈ n.keys) : m.keys = n.keys := by
  have hperm : m.keys.Perm n.keys :=
    (List.perm_ext_iff_of_nodup m.keys_nodup n.keys_nodup).mpr h
  exact eq_of_perm hperm m.keys_ascending n.keys_ascending

theorem keys_filter (p : κ → Bool) (m : SortedMap κ α) :
    (m.filter fun k _ => p k).keys = m.keys.filter p := by
  simp only [keys, filter, List.filter_map]
  rfl

theorem isEmpty_iff {m : SortedMap κ α} : m.isEmpty ↔ m.keys = [] := by
  simp [isEmpty, keys, List.isEmpty_iff]

theorem length_keys (m : SortedMap κ α) : m.keys.length = m.size := by
  simp [keys, size]

/-! ### Values -/

/-- The values are what is found at the keys. -/
theorem map_get?_keys (m : SortedMap κ α) : m.keys.map m.get? = m.values.map some := by
  simp only [keys, values, List.map_map]
  apply List.map_congr_left
  intro e he
  exact get?_eq_some_iff.mpr he

theorem mem_values_iff {m : SortedMap κ α} {a : α} : a ∈ m.values ↔ ∃ k, m.get? k = some a := by
  simp [values, get?_eq_some_iff]

/-- Values that are each found at one key only are all different. -/
theorem nodup_values {m : SortedMap κ α}
    (h : ∀ k j a, m.get? k = some a → m.get? j = some a → k = j) : m.values.Nodup := by
  refine List.Nodup.map_on ?_ (List.Nodup.of_map Prod.fst m.keys_nodup)
  rintro ⟨k, a⟩ hk ⟨j, b⟩ hj rfl
  rw [h k j a (get?_eq_some_iff.mpr hk) (get?_eq_some_iff.mpr hj)]

/-! ### Entries -/

/-- What is read off entries under different keys is different if it tells the keys apart. -/
theorem nodup_filterMap_entries {γ : Type w} {f : κ × α → Option γ} (m : SortedMap κ α)
    (hkey : ∀ x y c, f x = some c → f y = some c → x.1 = y.1) : (m.entries.filterMap f).Nodup := by
  rw [List.Nodup, List.pairwise_filterMap]
  apply m.ascending.imp
  rintro x y hlt c hx c' hy rfl
  rw [hkey x y c hx hy] at hlt
  exact Nat.lt_irrefl _ hlt

theorem entries_nodup (m : SortedMap κ α) : m.entries.Nodup := List.Nodup.of_map Prod.fst m.keys_nodup

/-- A test that one entry alone passes. -/
theorem filter_entries_eq_singleton {m : SortedMap κ α} {keep : κ × α → Bool} {e : κ × α}
    (hmem : e ∈ m.entries) (hkeep : ∀ x ∈ m.entries, keep x = true ↔ x = e) :
    m.entries.filter keep = [e] := by
  rw [← List.perm_singleton,
    List.perm_ext_iff_of_nodup (m.entries_nodup.filter _) (List.nodup_singleton e)]
  intro x
  rw [List.mem_filter, List.mem_singleton]
  constructor
  · rintro ⟨hx, hpass⟩
    exact (hkeep x hx).mp hpass
  · rintro rfl
    exact ⟨hmem, (hkeep x hmem).mpr rfl⟩

/-- Entries that pass a test and are found in both maps stand in both in the same order. -/
theorem filter_entries_eq {m n : SortedMap κ α} {keep : κ × α → Bool}
    (h : ∀ k a, keep (k, a) = true → (m.get? k = some a ↔ n.get? k = some a)) :
    m.entries.filter keep = n.entries.filter keep := by
  have hperm : (m.entries.filter keep).Perm (n.entries.filter keep) := by
    rw [List.perm_ext_iff_of_nodup (m.entries_nodup.filter _) (n.entries_nodup.filter _)]
    rintro ⟨k, a⟩
    rw [List.mem_filter, List.mem_filter, ← get?_eq_some_iff, ← get?_eq_some_iff]
    exact and_congr_left (h k a)
  exact eq_of_perm (f := fun e => rank e.1) hperm (m.ascending.filter _) (n.ascending.filter _)

/-! ### Changing all values -/

/-- The same keys, with other values. -/
def mapValues (f : κ → α → β) (m : SortedMap κ α) : SortedMap κ β :=
  ⟨m.entries.map fun e => (e.1, f e.1 e.2), List.pairwise_map.mpr m.ascending⟩

theorem get?_mapValues (f : κ → α → β) (m : SortedMap κ α) (k : κ) :
    (m.mapValues f).get? k = (m.get? k).map (f k) := by
  cases hget : m.get? k with
  | none =>
      have hkeys : (m.mapValues f).keys = m.keys := by
        simp only [keys, mapValues, List.map_map]
        rfl
      rw [get?_eq_none_iff] at hget
      rw [get?_eq_none_iff.mpr (hkeys ▸ hget)]
      rfl
  | some a =>
      rw [get?_eq_some_iff] at hget
      exact get?_eq_some_iff.mpr (List.mem_map.mpr ⟨(k, a), hget, rfl⟩)

/-! ### Repeated operations -/

variable [DecidableEq κ]

@[simp] theorem get?_insert_self (m : SortedMap κ α) (key : κ) (value : α) :
    (m.insert key value).get? key = some value := by
  rw [get?_insert, if_pos rfl]

theorem get?_insert_of_ne (m : SortedMap κ α) {key k : κ} (value : α) (h : key ≠ k) :
    (m.insert key value).get? k = m.get? k := by
  rw [get?_insert, if_neg h]

@[simp] theorem get?_erase_self (m : SortedMap κ α) (key : κ) : (m.erase key).get? key = none := by
  rw [get?_erase, if_pos rfl]

theorem get?_erase_of_ne (m : SortedMap κ α) {key k : κ} (h : key ≠ k) :
    (m.erase key).get? k = m.get? k := by
  rw [get?_erase, if_neg h]

theorem erase_of_get?_eq_none {m : SortedMap κ α} {key : κ} (h : m.get? key = none) :
    m.erase key = m := by
  apply ext
  intro k
  rw [get?_erase]
  split
  · next heq => rw [← heq, h]
  · rfl

theorem insert_insert (m : SortedMap κ α) (key : κ) (a b : α) :
    (m.insert key a).insert key b = m.insert key b := by
  apply ext
  intro k
  by_cases h : key = k <;> simp [get?_insert, h]

theorem get?_modify (m : SortedMap κ α) (key : κ) (f : α → α) (k : κ) :
    (m.modify key f).get? k = if key = k then (m.get? k).map f else m.get? k := by
  unfold modify
  by_cases h : key = k
  · subst h
    cases hkey : m.get? key <;> simp [hkey]
  · cases m.get? key <;> simp [get?_insert, h]

theorem modify_insert (m : SortedMap κ α) (key : κ) (a : α) (f : α → α) :
    (m.insert key a).modify key f = m.insert key (f a) := by
  rw [modify, get?_insert_self]
  exact insert_insert m key a (f a)

theorem erase_insert (m : SortedMap κ α) (key : κ) (a : α) :
    (m.insert key a).erase key = m.erase key := by
  apply ext
  intro k
  by_cases h : key = k <;> simp [get?_erase, get?_insert, h]

/-- Erasing one key after the other filters them out. -/
theorem filter_erase (keys : List κ) (m : SortedMap κ α) (key : κ) :
    (m.erase key).filter (fun k _ => !keys.contains k) =
      m.filter fun k _ => !(key :: keys).contains k := by
  apply ext
  intro k
  rw [get?_filter, get?_filter, get?_erase]
  by_cases h : key = k
  · subst h
    cases m.get? key <;> simp [Option.filter]
  · have hne : k ≠ key := fun e => h e.symm
    cases m.get? k <;> simp [Option.filter, h, hne]

theorem filter_true (m : SortedMap κ α) : m.filter (fun _ _ => true) = m := by
  apply ext
  intro k
  rw [get?_filter]
  cases m.get? k <;> rfl

/-! ### Values without one of them -/

theorem values_perm_of_get? {m : SortedMap κ α} {k : κ} {a : α} (h : m.get? k = some a) :
    m.values.Perm (a :: (m.erase k).values) := by
  have hentries : m.entries.Perm ((k, a) :: (m.erase k).entries) := by
    have habsent : (k, a) ∉ (m.erase k).entries := by
      simp [← get?_eq_some_iff]
    rw [List.perm_ext_iff_of_nodup m.entries_nodup
      (List.nodup_cons.mpr ⟨habsent, (m.erase k).entries_nodup⟩)]
    rintro ⟨j, b⟩
    rw [List.mem_cons, ← get?_eq_some_iff, ← get?_eq_some_iff, get?_erase]
    by_cases hj : k = j
    · subst hj
      simp [h, eq_comm]
    · simp [hj, Ne.symm hj]
  exact hentries.map Prod.snd

/-- What is listed of all values, apart from what is listed of one. -/
theorem flatMap_values_perm (f : α → List β) (m : SortedMap κ α) (k : κ) :
    (m.values.flatMap f).Perm ((m.get? k).elim [] f ++ (m.erase k).values.flatMap f) := by
  cases h : m.get? k with
  | none =>
      rw [erase_of_get?_eq_none h]
      exact .refl _
  | some a => exact (values_perm_of_get? h).flatMap_right f

theorem flatMap_values_insert_perm (f : α → List β) (m : SortedMap κ α) (k : κ) (a : α) :
    ((m.insert k a).values.flatMap f).Perm (f a ++ (m.erase k).values.flatMap f) := by
  have h := flatMap_values_perm f (m.insert k a) k
  rwa [get?_insert_self, erase_insert] at h

end LintMargin.SortedMap
