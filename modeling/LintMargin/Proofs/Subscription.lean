import LintMargin.Subscription
import LintMargin.Proofs.SortedMap
import Mathlib.Data.List.Count
import Mathlib.Data.List.Induction
import Mathlib.Data.List.Perm.Basic

/-!
# Every subscription is released once

A token is a matter of one subscription, which is held singly or by a group until it is released. No act
makes a token vanish or appear besides, so that what was released and what is held make up what was made.
The members of a group are what was moved into it since it was last disposed of or dropped.
-/

namespace LintMargin

universe u

namespace Subscription

variable {τ : Type u}

theorem mem_released {s : Subscription τ} {token : τ} : token ∈ s.released ↔ s = .live token := by
  cases s <;> simp [released, eq_comm]

end Subscription

namespace Ledger

variable {τ : Type u}

/-! ### Runs -/

/-- The ledger after some acts. -/
def run (l : Ledger τ) (acts : List (Act τ)) : Ledger τ := acts.foldl (fun l a => (l.act a).2) l

/-- What each of some acts releases. -/
def releases (l : Ledger τ) : List (Act τ) → List (List τ)
  | [] => []
  | a :: rest => (l.act a).1 :: (l.act a).2.releases rest

@[simp] theorem run_concat (l : Ledger τ) (acts : List (Act τ)) (a : Act τ) :
    l.run (acts ++ [a]) = ((l.run acts).act a).2 := by
  simp [run]

/-- The tokens that come into being. -/
def Act.made : Act τ → List τ
  | .keep _ s => s.released
  | _ => []

/-! ### What is held -/

/-- Some subscription that is held, singly or by a group, still has the token to release. -/
def Holds (l : Ledger τ) (token : τ) : Prop :=
  (∃ number, l.singles.get? number = some (.live token)) ∨ ∃ group, .live token ∈ l.group group

/-- All tokens that are still to be released. -/
def held (l : Ledger τ) : List τ :=
  l.singles.values.flatMap Subscription.released ++ l.groups.values.flatMap SubscriptionGroup.released

theorem mem_held {l : Ledger τ} {token : τ} : token ∈ l.held ↔ l.Holds token := by
  simp only [held, Holds, List.mem_append, List.mem_flatMap, SortedMap.mem_values_iff,
    SubscriptionGroup.released, Subscription.mem_released]
  refine or_congr ?_ ?_
  · constructor
    · rintro ⟨s, ⟨number, hs⟩, rfl⟩
      exact ⟨number, hs⟩
    · rintro ⟨number, hs⟩
      exact ⟨_, ⟨number, hs⟩, rfl⟩
  · constructor
    · rintro ⟨g, ⟨group, hg⟩, s, hs, rfl⟩
      exact ⟨group, by simpa [Ledger.group, hg] using hs⟩
    · rintro ⟨group, hs⟩
      cases hg : l.groups.get? group with
      | none => simp [Ledger.group, hg] at hs
      | some g => exact ⟨g, ⟨group, hg⟩, _, by simpa [Ledger.group, hg] using hs, rfl⟩

/-! ### Nothing is lost and nothing is released twice -/

section Held

variable (l : Ledger τ)

theorem held_perm_single (number : Nat) :
    l.held.Perm (l.fromSingle number (·.released) ++
      held { l with singles := l.singles.erase number }) := by
  rw [held, held, ← List.append_assoc]
  exact (SortedMap.flatMap_values_perm _ l.singles number).append_right _

theorem held_insert_single (number : Nat) (s : Subscription τ) :
    (held { l with singles := l.singles.insert number s }).Perm
      (s.released ++ held { l with singles := l.singles.erase number }) := by
  rw [held, held, ← List.append_assoc]
  exact (SortedMap.flatMap_values_insert_perm _ l.singles number s).append_right _

theorem held_perm_group (group : Nat) :
    l.held.Perm ((l.group group).released ++ held { l with groups := l.groups.erase group }) := by
  have hgroup : (l.groups.get? group).elim [] SubscriptionGroup.released =
      (l.group group).released := by
    unfold Ledger.group
    cases l.groups.get? group <;> rfl
  have hvalues := SortedMap.flatMap_values_perm SubscriptionGroup.released l.groups group
  rw [hgroup] at hvalues
  exact (hvalues.append_left _).trans (List.perm_append_comm_assoc _ _ _)

theorem held_insert_group (group : Nat) (members : SubscriptionGroup τ) :
    (held { l with groups := l.groups.insert group members }).Perm
      (members.released ++ held { l with groups := l.groups.erase group }) :=
  ((SortedMap.flatMap_values_insert_perm _ l.groups group members).append_left _).trans
    (List.perm_append_comm_assoc _ _ _)

theorem held_move (group number : Nat) : l.held.Perm (l.move group number).held := by
  unfold move
  split
  · next s hs =>
      let rest : Ledger τ := { l with singles := l.singles.erase number }
      have hsingle := l.held_perm_single number
      rw [fromSingle, hs] at hsingle
      have hadded : ((l.group group).add s).released = (l.group group).released ++ s.released := by
        simp [SubscriptionGroup.released, SubscriptionGroup.add]
      calc l.held
        _ |>.Perm (s.released ++ rest.held) := hsingle
        _ |>.Perm (s.released ++ ((l.group group).released ++
              held { rest with groups := l.groups.erase group })) :=
            (rest.held_perm_group group).append_left _
        _ |>.Perm (((l.group group).add s).released ++
              held { rest with groups := l.groups.erase group }) := by
            rw [hadded, List.append_assoc]
            exact List.perm_append_comm_assoc _ _ _
        _ |>.Perm (held { rest with groups := l.groups.insert group ((l.group group).add s) }) :=
            (rest.held_insert_group group _).symm
  · exact .refl _

/-- An act releases tokens that were held or have just been made, and holds the others. -/
theorem act_perm (a : Act τ) : (a.made ++ l.held).Perm ((l.act a).1 ++ (l.act a).2.held) := by
  cases a with
  | keep number s =>
      simp only [act, Act.made, Subscription.drop_eq]
      refine ((l.held_perm_single number).append_left _).trans ?_
      refine (List.perm_append_comm_assoc _ _ _).trans ?_
      exact (l.held_insert_single number s).symm.append_left _
  | dispose number =>
      simp only [act, Act.made, Subscription.dispose_eq]
      exact l.held_perm_single number
  | drop number =>
      simp only [act, Act.made, Subscription.drop_eq]
      exact l.held_perm_single number
  | add number group => exact l.held_move group number
  | extend numbers group =>
      exact List.foldlRecOn (motive := fun k : Ledger τ => l.held.Perm k.held) numbers _ (.refl _)
        fun k hk number _ => hk.trans (k.held_move group number)
  | disposeGroup group =>
      simp only [act, Act.made, SubscriptionGroup.dispose_eq]
      exact (l.held_perm_group group).trans ((l.held_insert_group group []).symm.append_left _)
  | dropGroup group =>
      simp only [act, Act.made, SubscriptionGroup.drop_eq]
      exact l.held_perm_group group

/-- What was held before some acts and what was made in them is released in them or held afterwards. -/
theorem run_perm (acts : List (Act τ)) :
    (acts.flatMap Act.made ++ l.held).Perm ((l.releases acts).flatten ++ (l.run acts).held) := by
  induction acts generalizing l with
  | nil => exact .refl _
  | cons a rest ih =>
      calc a.made ++ rest.flatMap Act.made ++ l.held
        _ |>.Perm (rest.flatMap Act.made ++ (a.made ++ l.held)) := by
            rw [List.append_assoc]
            exact List.perm_append_comm_assoc _ _ _
        _ |>.Perm (rest.flatMap Act.made ++ ((l.act a).1 ++ (l.act a).2.held)) :=
            (l.act_perm a).append_left _
        _ |>.Perm ((l.act a).1 ++ (rest.flatMap Act.made ++ (l.act a).2.held)) :=
            List.perm_append_comm_assoc _ _ _
        _ |>.Perm ((l.act a).1 ++ (((l.act a).2.releases rest).flatten ++
              ((l.act a).2.run rest).held)) :=
            (ih (l.act a).2).append_left _
        _ = ((l.releases (a :: rest)).flatten ++ (l.run (a :: rest)).held) := by
            simp [releases, run]

end Held

/-! ### Who is in a group -/

theorem filter_eraseDups {α : Type u} [DecidableEq α] (p : α → Bool) (l : List α) :
    (l.filter p).eraseDups = l.eraseDups.filter p := by
  induction hlength : l.length using Nat.strongRecOn generalizing l with
  | ind length ih =>
      cases l with
      | nil => rfl
      | cons a rest =>
          have hshort : (rest.filter fun b => !b == a).length < length := by
            have := List.length_filter_le (fun b => !b == a) rest
            simp only [List.length_cons] at hlength
            omega
          have hrest := ih _ hshort _ rfl
          by_cases ha : p a
          · rw [List.filter_cons_of_pos ha, List.eraseDups_cons, List.eraseDups_cons,
              List.filter_cons_of_pos ha, ← hrest, List.filter_comm]
          · rw [List.filter_cons_of_neg ha, List.eraseDups_cons, List.filter_cons_of_neg ha, ← hrest,
              List.filter_filter]
            congr 1
            apply List.filter_congr
            intro b _
            by_cases hb : b = a
            · simp [hb, ha]
            · simp [hb]

/-- What is taken out first is not there to be taken out again. -/
theorem filterMap_get?_eraseDups_cons {α : Type u} (m : SortedMap Nat α) (number : Nat)
    (rest : List Nat) :
    (number :: rest).eraseDups.filterMap m.get? =
      (m.get? number).toList ++ rest.eraseDups.filterMap (m.erase number).get? := by
  have hrest : rest.eraseDups.filterMap (m.erase number).get? =
      (rest.filter fun k => !k == number).eraseDups.filterMap m.get? := by
    rw [filter_eraseDups, List.filterMap_filter]
    apply List.filterMap_congr
    intro k _
    rw [SortedMap.get?_erase]
    by_cases hk : number = k
    · simp [hk]
    · simp [hk, Ne.symm hk]
  rw [hrest, List.eraseDups_cons, List.filterMap_cons]
  cases m.get? number <;> rfl

/-- There is no group of that number afterwards, or none with members. -/
def Act.Empties (group : Nat) : Act τ → Prop
  | .disposeGroup g => g = group
  | .dropGroup g => g = group
  | _ => False

/-- What an act moves into a group, in order. What a number names is moved once, however often it is named. -/
def moved (l : Ledger τ) (group : Nat) : Act τ → List (Subscription τ)
  | .add number g => if g = group then (l.singles.get? number).toList else []
  | .extend numbers g => if g = group then numbers.eraseDups.filterMap l.singles.get? else []
  | _ => []

/-- What some acts move into a group, in order. -/
def allMoved (l : Ledger τ) (group : Nat) : List (Act τ) → List (Subscription τ)
  | [] => []
  | a :: rest => l.moved group a ++ (l.act a).2.allMoved group rest

/-- The members are what was moved into a group since it was last emptied, or at all if it never was. -/
def Gathered (acts : List (Act τ)) (group : Nat) (members : SubscriptionGroup τ) : Prop :=
  ∃ before later, acts = before ++ later ∧
    (before = [] ∨ ∃ earlier a, before = earlier ++ [a] ∧ a.Empties group) ∧
    (∀ a ∈ later, ¬ a.Empties group) ∧ members = (empty.run before).allMoved group later

section Members

variable (l : Ledger τ)

theorem singles_move (g number : Nat) : (l.move g number).singles = l.singles.erase number := by
  unfold move
  split
  · rfl
  · next hnone => rw [SortedMap.erase_of_get?_eq_none hnone]

theorem singles_moves (g : Nat) (numbers : List Nat) :
    (numbers.foldl (fun l number => l.move g number) l).singles =
      numbers.foldl (fun singles number => singles.erase number) l.singles := by
  induction numbers generalizing l with
  | nil => rfl
  | cons number rest ih => rw [List.foldl_cons, ih, singles_move, List.foldl_cons]

theorem group_insert (g group : Nat) (members : SubscriptionGroup τ) (singles) :
    Ledger.group ⟨singles, l.groups.insert g members⟩ group =
      if g = group then members else l.group group := by
  rw [Ledger.group, SortedMap.get?_insert]
  split <;> rfl

theorem group_erase (g group : Nat) (singles) :
    Ledger.group ⟨singles, l.groups.erase g⟩ group = if g = group then [] else l.group group := by
  rw [Ledger.group, SortedMap.get?_erase]
  split <;> rfl

theorem group_move (g number group : Nat) :
    (l.move g number).group group =
      l.group group ++ if g = group then (l.singles.get? number).toList else [] := by
  unfold move
  split
  · next s hs =>
      rw [group_insert]
      split
      · next heq => rw [heq, hs, SubscriptionGroup.add, Option.toList_some]
      · rw [List.append_nil]
  · next hnone => simp [hnone]

theorem group_moves (g : Nat) (numbers : List Nat) (group : Nat) :
    (numbers.foldl (fun l number => l.move g number) l).group group =
      l.group group ++ if g = group then numbers.eraseDups.filterMap l.singles.get? else [] := by
  induction numbers generalizing l with
  | nil => simp
  | cons number rest ih =>
      rw [List.foldl_cons, ih, group_move, singles_move, List.append_assoc]
      split
      · rw [filterMap_get?_eraseDups_cons]
      · rfl

theorem group_act_of_empties {group : Nat} {a : Act τ} (hempties : a.Empties group) :
    (l.act a).2.group group = [] := by
  cases a with
  | disposeGroup g =>
      simp only [act, SubscriptionGroup.dispose_eq]
      rw [group_insert]
      exact if_pos hempties
  | dropGroup g =>
      rw [act, group_erase]
      exact if_pos hempties
  | keep | dispose | drop | add | extend => exact hempties.elim

theorem group_act {group : Nat} {a : Act τ} (hkeeps : ¬ a.Empties group) :
    (l.act a).2.group group = l.group group ++ l.moved group a := by
  cases a with
  | keep | dispose | drop => exact (List.append_nil _).symm
  | add number g => exact l.group_move g number group
  | extend numbers g => exact l.group_moves g numbers group
  | disposeGroup g =>
      simp only [act, SubscriptionGroup.dispose_eq]
      rw [group_insert]
      exact (if_neg hkeeps).trans (List.append_nil _).symm
  | dropGroup g =>
      rw [act, group_erase]
      exact (if_neg hkeeps).trans (List.append_nil _).symm

theorem allMoved_concat (group : Nat) (acts : List (Act τ)) (a : Act τ) :
    l.allMoved group (acts ++ [a]) = l.allMoved group acts ++ (l.run acts).moved group a := by
  induction acts generalizing l with
  | nil => simp [allMoved, run]
  | cons b rest ih =>
      rw [List.cons_append, allMoved, ih, allMoved, List.append_assoc]
      rfl

end Members

theorem gathered_run (acts : List (Act τ)) (group : Nat) :
    Gathered acts group ((empty.run acts).group group) := by
  induction acts using List.reverseRecOn with
  | nil => exact ⟨[], [], rfl, .inl rfl, by simp, rfl⟩
  | append_singleton acts a ih =>
      rw [run_concat]
      by_cases hempties : a.Empties group
      · rw [group_act_of_empties _ hempties]
        exact ⟨acts ++ [a], [], by simp, .inr ⟨acts, a, rfl, hempties⟩, by simp, rfl⟩
      · obtain ⟨before, later, rfl, hbefore, hlater, hmembers⟩ := ih
        refine ⟨before, later ++ [a], by simp, hbefore, ?_, ?_⟩
        · intro b hb
          rcases List.mem_append.mp hb with hb | hb
          · exact hlater b hb
          · rwa [List.mem_singleton.mp hb]
        · rw [group_act _ hempties, hmembers, allMoved_concat]
          simp [run]

/-! ### A group that was disposed of -/

/-- Nothing that is done with the ledgers tells them apart. -/
structure Alike (l m : Ledger τ) : Prop where
  singles : m.singles = l.singles
  group : ∀ group, m.group group = l.group group

section Alike

variable {l m : Ledger τ}

theorem Alike.act (h : Alike l m) (a : Act τ) :
    (m.act a).1 = (l.act a).1 ∧ Alike (l.act a).2 (m.act a).2 := by
  refine ⟨?_, ?_, fun group => ?_⟩
  · cases a with
    | keep | dispose | drop => simp only [Ledger.act, fromSingle, h.singles]
    | add | extend => rfl
    | disposeGroup | dropGroup => simp only [Ledger.act, h.group]
  · cases a with
    | keep | dispose | drop | disposeGroup | dropGroup => simp only [Ledger.act, h.singles]
    | add number g => simp only [Ledger.act, singles_move, h.singles]
    | extend numbers g => simp only [Ledger.act, singles_moves, h.singles]
  · by_cases hempties : a.Empties group
    · rw [group_act_of_empties m hempties, group_act_of_empties l hempties]
    · have hmoved : m.moved group a = l.moved group a := by
        cases a <;> simp only [moved, h.singles]
      rw [group_act m hempties, group_act l hempties, h.group, hmoved]

theorem Alike.run (h : Alike l m) (acts : List (Act τ)) :
    m.releases acts = l.releases acts ∧ Alike (l.run acts) (m.run acts) := by
  induction acts generalizing l m with
  | nil => exact ⟨rfl, h⟩
  | cons a rest ih =>
      obtain ⟨hfirst, hafter⟩ := h.act a
      obtain ⟨hrest, hend⟩ := ih hafter
      exact ⟨by rw [releases, releases, hfirst, hrest], hend⟩

/-- A group that was disposed of is like one that does not exist yet. -/
theorem alike_disposeGroup (l : Ledger τ) (group : Nat) :
    Alike { l with groups := l.groups.erase group } (l.act (.disposeGroup group)).2 := by
  refine ⟨rfl, fun g => ?_⟩
  simp only [Ledger.act, SubscriptionGroup.dispose_eq]
  rw [group_insert, group_erase]

end Alike

/-! ### After every run -/

theorem mem_fromSingle {l : Ledger τ} {number : Nat} {token : τ} :
    token ∈ l.fromSingle number (·.released) ↔ l.singles.get? number = some (.live token) := by
  unfold fromSingle
  cases l.singles.get? number <;> simp [Subscription.mem_released]

theorem released_disposeGroup (l : Ledger τ) (group : Nat) :
    (l.act (.disposeGroup group)).1 = (l.group group).released := by
  simp only [act, SubscriptionGroup.dispose_eq]

theorem released_dropGroup (l : Ledger τ) (group : Nat) :
    (l.act (.dropGroup group)).1 = (l.group group).released := by
  simp only [act, SubscriptionGroup.drop_eq]

/-- Tokens that were all made for different subscriptions are released once each, and exactly those that
nothing holds any more. -/
theorem released_iff_not_holds {acts : List (Act τ)} (hmade : (acts.flatMap Act.made).Nodup) :
    (empty.releases acts).flatten.Nodup ∧
      ∀ token ∈ acts.flatMap Act.made,
        (token ∈ (empty.releases acts).flatten ↔ ¬ (empty.run acts).Holds token) := by
  have hperm := empty.run_perm acts
  rw [show held (empty : Ledger τ) = [] from rfl, List.append_nil] at hperm
  obtain ⟨hreleased, -, hapart⟩ := List.nodup_append.mp (hperm.nodup_iff.mp hmade)
  refine ⟨hreleased, fun token htoken => ?_⟩
  rw [← mem_held]
  constructor
  · exact fun hin hheld => hapart token hin token hheld rfl
  · exact fun hnot => (List.mem_append.mp (hperm.mem_iff.mp htoken)).resolve_right hnot

/-- After any acts, the tokens that were made are those that have been released and those that something
holds, each as often as it was made. Releasing one subscription releases its token alone, and releasing a
group the tokens of its members, which are what was moved into it since it was last emptied, in that order.
A member with nothing to release counts, but nothing is released for it. A group that was disposed of is
empty, and from then on there is no telling it from a new one. -/
theorem released_once (acts : List (Act τ)) :
    let l := empty.run acts
    let made := acts.flatMap Act.made
    let released := (empty.releases acts).flatten
    (made.Perm (released ++ l.held) ∧ ∀ token, token ∈ l.held ↔ l.Holds token) ∧
    (made.Nodup → released.Nodup ∧ ∀ token ∈ made, (token ∈ released ↔ ¬ l.Holds token)) ∧
    (∀ number token,
      (token ∈ (l.act (.dispose number)).1 ↔ l.singles.get? number = some (.live token)) ∧
      (token ∈ (l.act (.drop number)).1 ↔ l.singles.get? number = some (.live token))) ∧
    ∀ group, ∃ members, Gathered acts group members ∧ l.group group = members ∧
      (l.act (.disposeGroup group)).1 = members.released ∧
      (l.act (.dropGroup group)).1 = members.released ∧
      (∀ number, l.singles.get? number = some .noop →
        let t := (l.act (.add number group)).2
        (t.group group).length = members.length + 1 ∧
        (t.act (.disposeGroup group)).1 = members.released) ∧
      let t := (l.act (.disposeGroup group)).2
      t.group group = [] ∧ (t.act (.disposeGroup group)).1 = [] ∧
      ∀ later, let u : Ledger τ := { l with groups := l.groups.erase group }
        t.releases later = u.releases later ∧ Alike (u.run later) (t.run later) := by
  intro l made released
  have hperm := empty.run_perm acts
  rw [show held (empty : Ledger τ) = [] from rfl, List.append_nil] at hperm
  refine ⟨⟨hperm, fun token => mem_held⟩, released_iff_not_holds, fun number token => ?_,
    fun group => ?_⟩
  · simp only [act, Subscription.dispose_eq, Subscription.drop_eq, mem_fromSingle, and_self]
  · have hempty : (l.act (.disposeGroup group)).2.group group = [] :=
      group_act_of_empties l rfl
    refine ⟨_, gathered_run acts group, rfl, l.released_disposeGroup group, l.released_dropGroup group,
      fun number hnoop => ?_, hempty, ?_, fun later => (alike_disposeGroup l group).run later⟩
    · have hadded : (l.act (.add number group)).2.group group = l.group group ++ [.noop] := by
        rw [act, group_move, if_pos rfl, hnoop, Option.toList_some]
      refine ⟨by rw [hadded, List.length_append, List.length_singleton], ?_⟩
      rw [released_disposeGroup, hadded, SubscriptionGroup.released, List.flatMap_append]
      exact List.append_nil _
    · rw [released_disposeGroup, hempty]
      rfl

/-- Two subscriptions and one with nothing to release come into a group, which is disposed of and joined
by a third one. -/
theorem released_once_regrouped :
    let acts : List (Act Nat) := [.keep 0 (.live 5), .keep 1 (.live 6), .keep 2 .noop, .add 1 0,
      .extend [2, 0, 2] 0, .disposeGroup 0, .keep 0 (.live 7), .add 0 0]
    (acts.flatMap Act.made).Nodup ∧ ((empty : Ledger Nat).releases acts).flatten = [6, 5] ∧
      (6 ∈ ((empty : Ledger Nat).releases acts).flatten ↔ ¬ (empty.run acts).Holds 6) ∧
      Gathered acts 0 [.live 7] := by
  intro acts
  have hmade : (acts.flatMap Act.made).Nodup := by decide
  obtain ⟨-, honce, -, hgroup⟩ := released_once acts
  obtain ⟨members, hgathered, hmembers, -⟩ := hgroup 0
  have hseven : members = [.live 7] := hmembers.symm.trans (by decide)
  exact ⟨hmade, by decide, (honce hmade).2 6 (by decide), hseven ▸ hgathered⟩

end Ledger

end LintMargin
