/-!
# Finite maps in key order

A `SortedMap` keeps its entries in strictly ascending key order, so that listing it, taking its first
entry and comparing two maps need no further sorting. Keys are ordered by their `rank`.

Main statements: `get?_insert`, `get?_erase` and `get?_filter` describe each operation by look-ups,
and `ext` says that look-ups determine the map.
-/

namespace LintMargin

universe u v

/-- Keys that a natural number tells apart and puts in order. -/
class Ranked (κ : Type u) where
  rank : κ → Nat
  rank_injective : ∀ {a b : κ}, rank a = rank b → a = b

export Ranked (rank)

instance : Ranked Nat := ⟨id, id⟩

instance : Ranked UInt32 := ⟨UInt32.toNat, UInt32.toNat_inj.mp⟩

instance : Ranked Unit := ⟨fun _ => 0, fun _ => rfl⟩

/-- Entries in strictly ascending order of their keys' ranks. -/
structure SortedMap (κ : Type u) [Ranked κ] (α : Type v) where
  entries : List (κ × α)
  ascending : entries.Pairwise fun a b => rank a.1 < rank b.1

namespace SortedMap

variable {κ : Type u} [Ranked κ] {α : Type v}

/-! ## Entry lists -/

/-- The value of the first entry with the key. -/
def lookup (key : κ) : List (κ × α) → Option α
  | [] => none
  | (k, a) :: rest => if rank k = rank key then some a else lookup key rest

/-- Puts an entry in its place, over any entry with the same key. -/
def insertEntry (key : κ) (value : α) : List (κ × α) → List (κ × α)
  | [] => [(key, value)]
  | (k, a) :: rest =>
    if rank key < rank k then (key, value) :: (k, a) :: rest
    else if rank key = rank k then (key, value) :: rest
    else (k, a) :: insertEntry key value rest

theorem mem_insertEntry {key : κ} {value : α} {e : κ × α} {l : List (κ × α)}
    (h : e ∈ insertEntry key value l) : e = (key, value) ∨ e ∈ l := by
  induction l with
  | nil => simpa [insertEntry] using h
  | cons head rest ih =>
    simp only [insertEntry] at h
    split at h
    · simpa using h
    · split at h
      · rcases List.mem_cons.mp h with h | h
        · exact .inl h
        · exact .inr (List.mem_cons_of_mem _ h)
      · rcases List.mem_cons.mp h with h | h
        · exact .inr (h ▸ List.mem_cons_self)
        · exact (ih h).imp_right (List.mem_cons_of_mem _)

theorem insertEntry_ascending (key : κ) (value : α) {l : List (κ × α)}
    (h : l.Pairwise fun a b => rank a.1 < rank b.1) :
    (insertEntry key value l).Pairwise fun a b => rank a.1 < rank b.1 := by
  induction l with
  | nil => simp [insertEntry]
  | cons head rest ih =>
    have ⟨above, tail⟩ := List.pairwise_cons.mp h
    simp only [insertEntry]
    split
    · refine List.pairwise_cons.mpr ⟨fun e he => ?_, h⟩
      rcases List.mem_cons.mp he with rfl | he
      · assumption
      · exact Nat.lt_trans ‹_› (above e he)
    · split
      · exact List.pairwise_cons.mpr ⟨fun e he => ‹rank key = rank head.1› ▸ above e he, tail⟩
      · refine List.pairwise_cons.mpr ⟨fun e he => ?_, ih tail⟩
        rcases mem_insertEntry he with rfl | he
        · exact Nat.lt_of_le_of_ne (Nat.not_lt.mp ‹_›) (Ne.symm ‹_›)
        · exact above e he

theorem lookup_eq_none {key : κ} {l : List (κ × α)} (h : ∀ e ∈ l, rank e.1 ≠ rank key) :
    lookup key l = none := by
  induction l with
  | nil => rfl
  | cons head rest ih =>
    rw [lookup, if_neg (h head List.mem_cons_self)]
    exact ih fun e he => h e (List.mem_cons_of_mem _ he)

theorem lookup_insertEntry [DecidableEq κ] (key : κ) (value : α) (k : κ) (l : List (κ × α)) :
    lookup k (insertEntry key value l) = if key = k then some value else lookup k l := by
  by_cases same : key = k
  · subst same
    induction l with
    | nil => simp [insertEntry, lookup]
    | cons head rest ih =>
      simp only [insertEntry]
      split
      · simp [lookup]
      · split
        · simp [lookup]
        · simp [lookup, Ne.symm ‹rank key ≠ rank head.1›, ih]
  · have differ : rank key ≠ rank k := fun h => same (Ranked.rank_injective h)
    rw [if_neg same]
    induction l with
    | nil => simp [insertEntry, lookup, differ]
    | cons head rest ih =>
      simp only [insertEntry]
      split
      · simp [lookup, differ]
      · split
        · have : rank head.1 ≠ rank k := ‹rank key = rank head.1› ▸ differ
          simp [lookup, differ, this]
        · simp [lookup, ih]

theorem lookup_filter_self [DecidableEq κ] (keep : κ → α → Bool) (k : κ) {l : List (κ × α)}
    (h : l.Pairwise fun a b => rank a.1 < rank b.1) :
    lookup k (l.filter fun e => keep e.1 e.2) = (lookup k l).filter (keep k) := by
  induction l with
  | nil => rfl
  | cons head rest ih =>
    have ⟨above, tail⟩ := List.pairwise_cons.mp h
    by_cases here : rank head.1 = rank k
    · obtain ⟨j, a⟩ := head
      obtain rfl : k = j := (Ranked.rank_injective here).symm
      have absent : lookup k (rest.filter fun e => keep e.1 e.2) = none :=
        lookup_eq_none fun e he => Ne.symm (Nat.ne_of_lt (above e (List.mem_filter.mp he).1))
      by_cases kept : keep k a <;> simp [lookup, Option.filter, kept, absent]
    · by_cases kept : keep head.1 head.2 <;> simp [lookup, here, kept, ih tail]

theorem lookup_eq_some_iff {k : κ} {a : α} {l : List (κ × α)}
    (h : l.Pairwise fun a b => rank a.1 < rank b.1) : lookup k l = some a ↔ (k, a) ∈ l := by
  induction l with
  | nil => simp [lookup]
  | cons head rest ih =>
    have ⟨above, tail⟩ := List.pairwise_cons.mp h
    by_cases here : rank head.1 = rank k
    · have absent : (k, a) ∉ rest := fun m => by
        have := above _ m
        simp only at this
        omega
      have key : head.1 = k := Ranked.rank_injective here
      simp only [lookup, if_pos here, List.mem_cons, absent, or_false]
      constructor
      · intro e
        cases e
        exact Prod.ext key.symm rfl
      · intro e
        rw [← e]
    · have : (k, a) ≠ head := fun e => here (by rw [← e])
      simp [lookup, here, ih tail, this]

theorem eq_of_lookup_eq {l₁ l₂ : List (κ × α)}
    (h₁ : l₁.Pairwise fun a b => rank a.1 < rank b.1)
    (h₂ : l₂.Pairwise fun a b => rank a.1 < rank b.1)
    (same : ∀ k, lookup k l₁ = lookup k l₂) : l₁ = l₂ := by
  have members : ∀ e, e ∈ l₁ ↔ e ∈ l₂ := fun e => by
    rw [← lookup_eq_some_iff (k := e.1) (a := e.2) h₁, same, lookup_eq_some_iff h₂]
  have distinct : ∀ l : List (κ × α), (l.Pairwise fun a b => rank a.1 < rank b.1) → l.Nodup := by
    intro l h
    apply h.imp
    rintro a _ lt rfl
    exact Nat.lt_irrefl _ lt
  have perm := (List.perm_ext_iff_of_nodup (distinct _ h₁) (distinct _ h₂)).mpr members
  exact perm.eq_of_pairwise
    (fun _ _ _ _ hab hba => absurd hab (Nat.not_lt.mpr (Nat.le_of_lt hba))) h₁ h₂

/-! ## Maps -/

theorem eq_of_entries {m n : SortedMap κ α} (h : m.entries = n.entries) : m = n := by
  cases m
  cases n
  cases h
  rfl

instance [DecidableEq κ] [DecidableEq α] : DecidableEq (SortedMap κ α) := fun m n =>
  decidable_of_iff (m.entries = n.entries) ⟨eq_of_entries, congrArg entries⟩

def empty : SortedMap κ α := ⟨[], .nil⟩

instance : EmptyCollection (SortedMap κ α) := ⟨empty⟩

instance : Inhabited (SortedMap κ α) := ⟨empty⟩

def get? (m : SortedMap κ α) (key : κ) : Option α := lookup key m.entries

def contains (m : SortedMap κ α) (key : κ) : Bool := (m.get? key).isSome

def insert (m : SortedMap κ α) (key : κ) (value : α) : SortedMap κ α :=
  ⟨insertEntry key value m.entries, insertEntry_ascending key value m.ascending⟩

/-- The entries whose key and value pass the test. -/
def filter (keep : κ → α → Bool) (m : SortedMap κ α) : SortedMap κ α :=
  ⟨m.entries.filter fun e => keep e.1 e.2, m.ascending.filter _⟩

def erase (m : SortedMap κ α) (key : κ) : SortedMap κ α :=
  m.filter fun k _ => rank k != rank key

/-- Replaces the value at the key, if there is one. -/
def modify (m : SortedMap κ α) (key : κ) (f : α → α) : SortedMap κ α :=
  match m.get? key with
  | some value => m.insert key (f value)
  | none => m

/-- Keys in ascending order. -/
def keys (m : SortedMap κ α) : List κ := m.entries.map Prod.fst

/-- Values in the order of their keys. -/
def values (m : SortedMap κ α) : List α := m.entries.map Prod.snd

def size (m : SortedMap κ α) : Nat := m.entries.length

def isEmpty (m : SortedMap κ α) : Bool := m.entries.isEmpty

@[simp] theorem entries_empty : (∅ : SortedMap κ α).entries = [] := rfl

@[simp] theorem get?_empty (key : κ) : (∅ : SortedMap κ α).get? key = none := rfl

theorem get?_insert [DecidableEq κ] (m : SortedMap κ α) (key : κ) (value : α) (k : κ) :
    (m.insert key value).get? k = if key = k then some value else m.get? k :=
  lookup_insertEntry key value k m.entries

theorem get?_filter [DecidableEq κ] (keep : κ → α → Bool) (m : SortedMap κ α) (k : κ) :
    (m.filter keep).get? k = (m.get? k).filter (keep k) :=
  lookup_filter_self keep k m.ascending

theorem get?_erase [DecidableEq κ] (m : SortedMap κ α) (key k : κ) :
    (m.erase key).get? k = if key = k then none else m.get? k := by
  rw [erase, get?_filter]
  by_cases same : key = k
  · subst same
    cases m.get? key <;> simp [Option.filter]
  · have : rank k ≠ rank key := fun h => same (Ranked.rank_injective h).symm
    cases m.get? k <;> simp [Option.filter, same, this]

theorem get?_eq_some_iff {m : SortedMap κ α} {k : κ} {a : α} :
    m.get? k = some a ↔ (k, a) ∈ m.entries :=
  lookup_eq_some_iff m.ascending

theorem ext {m n : SortedMap κ α} (h : ∀ k, m.get? k = n.get? k) : m = n :=
  eq_of_entries (eq_of_lookup_eq m.ascending n.ascending h)

theorem mem_keys_iff {m : SortedMap κ α} {k : κ} : k ∈ m.keys ↔ ∃ a, m.get? k = some a := by
  simp [keys, get?_eq_some_iff]

theorem keys_ascending (m : SortedMap κ α) : m.keys.Pairwise fun a b => rank a < rank b :=
  List.pairwise_map.mpr m.ascending

end SortedMap

end LintMargin
