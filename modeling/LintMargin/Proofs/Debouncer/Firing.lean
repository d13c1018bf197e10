import LintMargin.Proofs.Debouncer
import LintMargin.Proofs.History

/-!
# When keys fire

A key is armed from the time it is scheduled until it is cancelled or taken. `Armed` reads this off the
operations on a debouncer, without regard to the deadlines that it keeps; after any operations the two
agree, so that everything a debouncer says of itself is said of the armed keys.
-/

namespace LintMargin.Debouncer

universe u

variable {κ : Type u}

/-! ### Operations -/

inductive Operation (κ : Type u) where
  | schedule (key : κ) (now : Nat)
  | cancel (key : κ)
  | setDelay (delay : Nat)
  | takeDue (now : Nat)

def Operation.delay? : Operation κ → Option Nat
  | .setDelay delay => some delay
  | _ => none

/-- The delay in force after some operations. -/
def delayAfter (delay : Nat) (ops : List (Operation κ)) : Nat :=
  (ops.filterMap Operation.delay?).getLast?.getD delay

theorem delayAfter_concat (delay : Nat) (ops : List (Operation κ)) (op : Operation κ) :
    delayAfter delay (ops ++ [op]) = op.delay?.getD (delayAfter delay ops) := by
  cases op <;> simp [delayAfter, Operation.delay?]

variable [Ranked κ]

def perform (d : Debouncer κ) : Operation κ → Debouncer κ
  | .schedule key now => d.schedule key now
  | .cancel key => d.cancel key
  | .setDelay delay => d.setDelay delay
  | .takeDue now => (d.takeDue now).2

/-- The debouncer after some operations. -/
def run (d : Debouncer κ) (ops : List (Operation κ)) : Debouncer κ := ops.foldl perform d

/-- Whether a key is among those taken at a time, after some operations. -/
def Fires (delay : Nat) (ops : List (Operation κ)) (key : κ) (now : Nat) : Prop :=
  key ∈ (((ofDelay delay).run ops).takeDue now).1

/-- Whether an operation, after others, arms a key for a deadline. -/
def Arms (delay : Nat) (key : κ) (deadline : Nat) (before : List (Operation κ)) (op : Operation κ) :
    Prop :=
  ∃ now, op = .schedule key now ∧ deadline = now + delayAfter delay before

/-- Whether an operation, after others, takes a key's last deadline back. -/
def Disarms (delay : Nat) (key : κ) (before : List (Operation κ)) (op : Operation κ) : Prop :=
  (∃ now, op = .schedule key now) ∨ op = .cancel key ∨ ∃ now, op = .takeDue now ∧ Fires delay before key now

/-- A key was scheduled with this deadline, and since then neither scheduled again nor cancelled nor
taken. -/
def Armed (delay : Nat) (ops : List (Operation κ)) (key : κ) (deadline : Nat) : Prop :=
  Since (Arms delay key deadline) (Disarms delay key) ops

theorem run_concat (d : Debouncer κ) (ops : List (Operation κ)) (op : Operation κ) :
    d.run (ops ++ [op]) = (d.run ops).perform op := by
  rw [run, List.foldl_append]
  rfl

theorem delay_run (delay : Nat) (ops : List (Operation κ)) :
    ((ofDelay delay).run ops).delay = delayAfter delay ops := by
  induction ops using List.reverseRecOn with
  | nil => rfl
  | append_singleton ops op ih =>
      rw [run_concat, delayAfter_concat, ← ih]
      cases op <;> rfl

/-- A key that has just been taken is not armed. -/
theorem not_armed_of_fires {delay now t : Nat} {before : List (Operation κ)} {key : κ}
    (h : Fires delay before key now) :
    ¬ Armed delay (before ++ [.takeDue now]) key t := by
  rw [Armed, since_concat]
  rintro (⟨_, hop, -⟩ | ⟨-, hkept⟩)
  · cases hop
  · exact hkept (.inr (.inr ⟨now, rfl, h⟩))

variable [DecidableEq κ]

instance (delay : Nat) (ops : List (Operation κ)) (key : κ) (now : Nat) :
    Decidable (Fires delay ops key now) :=
  inferInstanceAs (Decidable (key ∈ _))

/-! ### Armed keys have deadlines -/

/-- What an operation does to the deadline of a key: it arms the key, or it leaves the deadline that it
does not take back. -/
theorem deadline?_perform (delay : Nat) (ops : List (Operation κ)) (op : Operation κ) (key : κ)
    (t : Nat) :
    (((ofDelay delay).run ops).perform op).deadline? key = some t ↔
      Arms delay key t ops op ∨
        ((ofDelay delay).run ops).deadline? key = some t ∧ ¬ Disarms delay key ops op := by
  cases op with
  | schedule k now =>
      rw [perform, deadline?_schedule, delay_run]
      by_cases hk : k = key
      · simp [Arms, Disarms, hk, eq_comm]
      · simp [Arms, Disarms, hk]
  | cancel k =>
      rw [perform, deadline?_cancel]
      by_cases hk : k = key <;> simp [Arms, Disarms, hk]
  | setDelay new => simp [perform, Arms, Disarms]
  | takeDue now =>
      rw [perform, deadline?_takeDue]
      simp only [Arms, Disarms, Fires, mem_takeDue_iff, reduceCtorEq, false_and, exists_false, false_or,
        Operation.takeDue.injEq, exists_eq_left']
      constructor
      · rintro ⟨hdeadline, hopen⟩
        refine ⟨hdeadline, fun ⟨t', ht', hdue⟩ => ?_⟩
        obtain rfl : t = t' := Option.some.inj (hdeadline.symm.trans ht')
        exact absurd hdue (Nat.not_le.mpr hopen)
      · rintro ⟨hdeadline, hkept⟩
        exact ⟨hdeadline, Nat.not_le.mp fun hdue => hkept ⟨t, hdeadline, hdue⟩⟩

theorem deadline?_run_iff (delay : Nat) (ops : List (Operation κ)) (key : κ) (t : Nat) :
    ((ofDelay delay).run ops).deadline? key = some t ↔ Armed delay ops key t := by
  induction ops using List.reverseRecOn generalizing t with
  | nil => exact iff_of_false (by simp [run]) not_since_nil
  | append_singleton ops op ih => rw [run_concat, deadline?_perform, Armed, since_concat, ih, Armed]

theorem fires_iff {delay : Nat} {ops : List (Operation κ)} {key : κ} {now : Nat} :
    Fires delay ops key now ↔ ∃ t, Armed delay ops key t ∧ t ≤ now := by
  simp only [Fires, mem_takeDue_iff, deadline?_run_iff]

theorem Armed.unique {delay : Nat} {ops : List (Operation κ)} {key : κ} {t t' : Nat}
    (h : Armed delay ops key t) (h' : Armed delay ops key t') : t = t' := by
  rw [← deadline?_run_iff] at h h'
  exact Option.some.inj (h.symm.trans h')

/-! ### What a debouncer says of itself -/

/-- What a debouncer says of itself is what is to be said of the keys that are armed. -/
structure Shows (d : Debouncer κ) (armed : κ → Nat → Prop) : Prop where
  pending : ∀ key, d.isPending key = true ↔ ∃ t, armed key t
  next : ∀ t, d.nextDeadline = some t ↔ (∃ key, armed key t) ∧ ∀ key t', armed key t' → t ≤ t'
  noNext : d.nextDeadline = none ↔ ∀ key t, ¬ armed key t
  ascending : ∀ now, (d.takeDue now).1.Pairwise fun a b => rank a < rank b
  nodup : ∀ now, (d.takeDue now).1.Nodup
  due : ∀ now key, key ∈ (d.takeDue now).1 ↔ ∃ t, armed key t ∧ t ≤ now
  someDue : ∀ now, (d.takeDue now).1 ≠ [] ↔ ∃ t, d.nextDeadline = some t ∧ t ≤ now

theorem shows_run (delay : Nat) (ops : List (Operation κ)) :
    Shows ((ofDelay delay).run ops) (Armed delay ops) where
  pending key := by simp only [isPending_iff, deadline?_run_iff]
  next t := by simp only [nextDeadline_eq_some_iff, deadline?_run_iff]
  noNext := by simp only [nextDeadline_eq_none_iff, ne_eq, deadline?_run_iff]
  ascending now := takeDue_ascending _ now
  nodup now := nodup_takeDue _ now
  due now key := by simp only [mem_takeDue_iff, deadline?_run_iff]
  someDue now := takeDue_ne_nil_iff_nextDeadline

/-! ### From one firing to the next -/

variable {delay : Nat} {before between : List (Operation κ)} {key : κ}

theorem exists_schedule_of_fires {first second : Nat} (hfirst : Fires delay before key first)
    (hsecond : Fires delay (before ++ .takeDue first :: between) key second) :
    ∃ now, .schedule key now ∈ between := by
  obtain ⟨t, harmed, -⟩ := fires_iff.mp hsecond
  rw [List.append_cons] at harmed
  rcases harmed.of_append with ⟨earlier, op, rest, rfl, now, rfl, -⟩ | hbefore
  · exact ⟨now, by simp⟩
  · exact absurd hbefore (not_armed_of_fires hfirst)

/-- A key that is only looked at too early stays armed. -/
theorem armed_append {now : Nat}
    (hschedule : ∀ s, .schedule key s ∉ between) (hcancel : .cancel key ∉ between)
    (hearly : ∀ early, .takeDue early ∈ between → early < now + delayAfter delay before) :
    Armed delay (before ++ .schedule key now :: between) key (now + delayAfter delay before) := by
  rw [List.append_cons]
  induction between using List.reverseRecOn with
  | nil =>
      rw [List.append_nil, Armed, since_concat]
      exact .inl ⟨now, rfl, rfl⟩
  | append_singleton between op ih =>
      simp only [List.mem_append, List.mem_singleton, not_or] at hschedule hcancel hearly
      have harmed := ih (fun s => (hschedule s).1) hcancel.1 fun early h => hearly early (.inl h)
      rw [← List.append_assoc, Armed, since_concat]
      refine .inr ⟨harmed, ?_⟩
      rintro (⟨s, rfl⟩ | rfl | ⟨early, rfl, hfires⟩)
      · exact (hschedule s).2 rfl
      · exact hcancel.2 rfl
      · obtain ⟨t, ht, hdue⟩ := fires_iff.mp hfires
        obtain rfl := harmed.unique ht
        exact absurd hdue (Nat.not_le.mpr (hearly early (.inr rfl)))

/-- After any operations, a debouncer shows the keys that are armed, each for one deadline: the time at
which it was scheduled last and the delay of then, added up. A new delay moves no deadline. A key does not
fire twice without being scheduled in between, and one that is neither scheduled again nor cancelled fires
when keys are taken for the first time at its deadline or later. -/
theorem shows_armed (delay : Nat) (ops : List (Operation κ)) :
    Shows ((ofDelay delay).run ops) (Armed delay ops) ∧
    (∀ key t t', Armed delay ops key t → Armed delay ops key t' → t = t') ∧
    (∀ key now,
      ((ofDelay delay).run (ops ++ [.schedule key now])).deadline? key =
        some (now + delayAfter delay ops)) ∧
    (∀ new key t, Armed delay (ops ++ [.setDelay new]) key t ↔ Armed delay ops key t) ∧
    (∀ before first between key second, ops = before ++ .takeDue first :: between →
      Fires delay before key first → Fires delay ops key second →
        ∃ now, .schedule key now ∈ between) ∧
    ∀ before key now between late, ops = before ++ .schedule key now :: between →
      (∀ s, .schedule key s ∉ between) → .cancel key ∉ between →
      (∀ early, .takeDue early ∈ between → early < now + delayAfter delay before) →
      now + delayAfter delay before ≤ late → Fires delay ops key late := by
  refine ⟨shows_run delay ops, fun key t t' => Armed.unique, fun key now => ?_, fun new key t => ?_,
    ?_, ?_⟩
  · rw [deadline?_run_iff, Armed, since_concat]
    exact .inl ⟨now, rfl, rfl⟩
  · rw [Armed, since_concat]
    simp [Arms, Disarms, Armed]
  · rintro before first between key second rfl hfirst hsecond
    exact exists_schedule_of_fires hfirst hsecond
  · rintro before key now between late rfl hschedule hcancel hearly hlate
    exact fires_iff.mpr ⟨_, armed_append hschedule hcancel hearly, hlate⟩

/-- A key is scheduled twice, the second time with a shorter delay. -/
theorem shows_armed_shortened :
    Fires 50 [.schedule 1 0, .setDelay 10, .schedule 1 20, .takeDue 29] 1 30 ∧
      ∃ now, Operation.schedule 1 now ∈ [.schedule 1 40, .setDelay 5] := by
  constructor
  · have hearly : ∀ early, Operation.takeDue early ∈ [(.takeDue 29 : Operation Nat)] →
        early < 20 + delayAfter 50 [.schedule 1 0, .setDelay 10] := by
      intro early h
      cases List.mem_singleton.mp h
      decide
    exact (shows_armed 50 [.schedule 1 0, .setDelay 10, .schedule 1 20, .takeDue 29]).2.2.2.2.2
      [.schedule 1 0, .setDelay 10] 1 20 [.takeDue 29] 30 rfl (by simp) (by simp) hearly (by decide)
  · exact (shows_armed 50 [.schedule 1 0, .takeDue 50, .schedule 1 40, .setDelay 5]).2.2.2.2.1
      [.schedule 1 0] 50 [.schedule 1 40, .setDelay 5] 1 100 rfl (by decide) (by decide)

end LintMargin.Debouncer
