import LintMargin.Debouncer
import LintMargin.Proofs.SortedMap

/-!
# Deadlines

What scheduling, cancelling and taking do to the deadline of each key.
-/

namespace LintMargin.Debouncer

universe u

variable {κ : Type u} [Ranked κ]

/-- When the work for a key is due, if there is any. -/
def deadline? (d : Debouncer κ) (key : κ) : Option Nat := d.deadlines.get? key

@[simp] theorem deadline?_ofDelay (delay : Nat) (key : κ) :
    (ofDelay delay : Debouncer κ).deadline? key = none :=
  rfl

@[simp] theorem deadline?_setDelay (d : Debouncer κ) (delay : Nat) (key : κ) :
    (d.setDelay delay).deadline? key = d.deadline? key :=
  rfl

theorem takeDue_ascending (d : Debouncer κ) (now : Nat) :
    (d.takeDue now).1.Pairwise fun a b => rank a < rank b :=
  SortedMap.keys_ascending _

theorem nodup_takeDue (d : Debouncer κ) (now : Nat) : (d.takeDue now).1.Nodup := SortedMap.keys_nodup _

theorem isPending_iff {d : Debouncer κ} {key : κ} :
    d.isPending key = true ↔ ∃ t, d.deadline? key = some t :=
  Option.isSome_iff_exists

theorem nextDeadline_eq_some_iff {d : Debouncer κ} {t : Nat} :
    d.nextDeadline = some t ↔
      (∃ key, d.deadline? key = some t) ∧ ∀ key t', d.deadline? key = some t' → t ≤ t' := by
  simp only [nextDeadline, List.min?_eq_some_iff, SortedMap.mem_values_iff, forall_exists_index]
  exact and_congr_right fun _ => forall_comm

theorem nextDeadline_eq_none_iff {d : Debouncer κ} :
    d.nextDeadline = none ↔ ∀ key t, d.deadline? key ≠ some t := by
  simp only [nextDeadline, List.min?_eq_none_iff, List.eq_nil_iff_forall_not_mem,
    SortedMap.mem_values_iff, not_exists]
  exact forall_comm

/-- How many keys have a deadline. -/
def pending (d : Debouncer κ) : Nat := d.deadlines.size

/-- What is taken is pending no more. -/
theorem length_takeDue (d : Debouncer κ) (now : Nat) :
    (d.takeDue now).1.length + (d.takeDue now).2.pending = d.pending := by
  have hsplit := List.length_eq_length_filter_add (l := d.deadlines.entries) fun e => decide (e.2 ≤ now)
  simp only [← decide_not, Nat.not_le] at hsplit
  rw [takeDue, SortedMap.length_keys]
  exact hsplit.symm

variable [DecidableEq κ]

theorem deadline?_schedule (d : Debouncer κ) (key k : κ) (now : Nat) :
    (d.schedule key now).deadline? k = if key = k then some (now + d.delay) else d.deadline? k :=
  SortedMap.get?_insert d.deadlines key (now + d.delay) k

theorem deadline?_cancel (d : Debouncer κ) (key k : κ) :
    (d.cancel key).deadline? k = if key = k then none else d.deadline? k :=
  SortedMap.get?_erase d.deadlines key k

theorem mem_takeDue_iff {d : Debouncer κ} {now : Nat} {key : κ} :
    key ∈ (d.takeDue now).1 ↔ ∃ t, d.deadline? key = some t ∧ t ≤ now := by
  rw [takeDue, SortedMap.mem_keys_iff]
  simp only [SortedMap.get?_filter, Option.filter_eq_some_iff, decide_eq_true_eq]
  rfl

theorem takeDue_eq_nil_iff {d : Debouncer κ} {now : Nat} :
    (d.takeDue now).1 = [] ↔ ∀ key t, d.deadline? key = some t → now < t := by
  simp only [List.eq_nil_iff_forall_not_mem, mem_takeDue_iff, not_exists, not_and, Nat.not_le]

/-- Something is due as soon as the next deadline has come. -/
theorem takeDue_ne_nil_iff_nextDeadline {d : Debouncer κ} {now : Nat} :
    (d.takeDue now).1 ≠ [] ↔ ∃ t, d.nextDeadline = some t ∧ t ≤ now := by
  constructor
  · intro hdue
    obtain ⟨key, hkey⟩ := List.exists_mem_of_ne_nil _ hdue
    obtain ⟨t, ht, htnow⟩ := mem_takeDue_iff.mp hkey
    cases hnext : d.nextDeadline with
    | none => exact absurd ht (nextDeadline_eq_none_iff.mp hnext key t)
    | some first =>
        have hleast := (nextDeadline_eq_some_iff.mp hnext).2 key t ht
        exact ⟨first, rfl, Nat.le_trans hleast htnow⟩
  · rintro ⟨t, hnext, htnow⟩
    obtain ⟨⟨key, hkey⟩, -⟩ := nextDeadline_eq_some_iff.mp hnext
    exact List.ne_nil_of_mem (mem_takeDue_iff.mpr ⟨t, hkey, htnow⟩)

theorem deadline?_takeDue {d : Debouncer κ} {now : Nat} {key : κ} {t : Nat} :
    (d.takeDue now).2.deadline? key = some t ↔ d.deadline? key = some t ∧ now < t := by
  rw [takeDue, deadline?, SortedMap.get?_filter, Option.filter_eq_some_iff, decide_eq_true_eq]
  rfl

/-! ### Taking twice -/

section Twice

variable (d : Debouncer κ) {early late : Nat}

theorem takeDue_takeDue (h : early ≤ late) : ((d.takeDue early).2.takeDue late).2 = (d.takeDue late).2 := by
  have hleft : ((d.takeDue early).2.takeDue late).2.deadlines = (d.takeDue late).2.deadlines := by
    apply SortedMap.ext
    intro key
    ext t
    change ((d.takeDue early).2.takeDue late).2.deadline? key = some t ↔
      (d.takeDue late).2.deadline? key = some t
    simp only [deadline?_takeDue]
    exact ⟨fun ht => ⟨ht.1.1, ht.2⟩, fun ht => ⟨⟨ht.1, Nat.lt_of_le_of_lt h ht.2⟩, ht.2⟩⟩
  exact congrArg (fun deadlines => ({ d with deadlines } : Debouncer κ)) hleft

/-- What was taken early is not there any more. -/
theorem disjoint_takeDue (early late : Nat) :
    (d.takeDue early).1.Disjoint ((d.takeDue early).2.takeDue late).1 := by
  intro key hearly hlate
  obtain ⟨t, ht, hdue⟩ := mem_takeDue_iff.mp hearly
  obtain ⟨t', ht', -⟩ := mem_takeDue_iff.mp hlate
  obtain ⟨hsame, hopen⟩ := deadline?_takeDue.mp ht'
  rw [ht, Option.some.injEq] at hsame
  omega

theorem mem_takeDue_takeDue_iff (h : early ≤ late) {key : κ} :
    key ∈ (d.takeDue late).1 ↔
      key ∈ (d.takeDue early).1 ∨ key ∈ ((d.takeDue early).2.takeDue late).1 := by
  simp only [mem_takeDue_iff, deadline?_takeDue]
  constructor
  · rintro ⟨t, ht, hdue⟩
    by_cases hearly : t ≤ early
    · exact .inl ⟨t, ht, hearly⟩
    · exact .inr ⟨t, ⟨ht, Nat.not_le.mp hearly⟩, hdue⟩
  · rintro (⟨t, ht, hdue⟩ | ⟨t, ⟨ht, -⟩, hdue⟩)
    · exact ⟨t, ht, Nat.le_trans hdue h⟩
    · exact ⟨t, ht, hdue⟩

theorem takeDue_perm (h : early ≤ late) :
    (d.takeDue late).1.Perm ((d.takeDue early).1 ++ ((d.takeDue early).2.takeDue late).1) := by
  have hnodup := List.nodup_append'.mpr
    ⟨d.nodup_takeDue early, (d.takeDue early).2.nodup_takeDue late, d.disjoint_takeDue early late⟩
  rw [List.perm_ext_iff_of_nodup (d.nodup_takeDue late) hnodup]
  intro key
  rw [List.mem_append, d.mem_takeDue_takeDue_iff h]

theorem takeDue_ne_nil_iff (h : early ≤ late) :
    (d.takeDue late).1 ≠ [] ↔
      (d.takeDue early).1 ≠ [] ∨ ((d.takeDue early).2.takeDue late).1 ≠ [] := by
  rw [ne_eq, ← List.length_eq_zero_iff, (d.takeDue_perm h).length_eq, List.length_eq_zero_iff,
    List.append_eq_nil_iff, not_and_or]

end Twice

end LintMargin.Debouncer
