import LintMargin.SortedMap

/-!
# Subscriptions

A subscription stands for something that was registered and can be released once, named by a token. A
group holds subscriptions to release them together, in the order in which they came in.

A subscription that is disposed of is let go of afterwards, and so is a disposed group. `dispose_eq` and
`drop_eq` say that this releases nothing a second time.

A `Ledger` keeps subscriptions one by one, under numbers, and in groups, and answers each act with the
tokens it released.
-/

namespace LintMargin

universe u

inductive Subscription (τ : Type u) where
  /-- Nothing to release. -/
  | noop
  | live (token : τ)
deriving DecidableEq

namespace Subscription

variable {τ : Type u}

/-- The tokens that disposing of the subscription releases. -/
def released : Subscription τ → List τ
  | .noop => []
  | .live token => [token]

/-- Releases what is still to be released, after which there is nothing left. -/
def releaseNow : Subscription τ → List τ × Subscription τ
  | .noop => ([], .noop)
  | .live token => ([token], .noop)

/-- Lets go of a subscription, which releases it. -/
def drop (s : Subscription τ) : List τ := s.releaseNow.1

/-- Releases a subscription and then lets go of it. -/
def dispose (s : Subscription τ) : List τ :=
  let (tokens, s) := s.releaseNow
  tokens ++ s.drop

@[simp] theorem drop_eq (s : Subscription τ) : s.drop = s.released := by
  cases s <;> rfl

@[simp] theorem dispose_eq (s : Subscription τ) : s.dispose = s.released := by
  cases s <;> rfl

end Subscription

/-- Subscriptions in the order in which they came in. -/
abbrev SubscriptionGroup (τ : Type u) := List (Subscription τ)

namespace SubscriptionGroup

variable {τ : Type u}

def add (g : SubscriptionGroup τ) (s : Subscription τ) : SubscriptionGroup τ := g ++ [s]

/-- The tokens that disposing of the group releases, in order. -/
def released (g : SubscriptionGroup τ) : List τ := g.flatMap Subscription.released

/-- Disposes of all members, one after another. The group goes on to exist, without members. -/
def dispose (g : SubscriptionGroup τ) : List τ × SubscriptionGroup τ :=
  (g.flatMap Subscription.dispose, [])

/-- Lets go of a group: its members are disposed of, and what it has then is let go of. -/
def drop (g : SubscriptionGroup τ) : List τ :=
  let (tokens, g) := dispose g
  tokens ++ g.flatMap Subscription.drop

@[simp] theorem dispose_eq (g : SubscriptionGroup τ) : dispose g = (released g, []) := by
  simp [dispose, released, funext Subscription.dispose_eq]

@[simp] theorem drop_eq (g : SubscriptionGroup τ) : drop g = released g := by
  simp [drop]

end SubscriptionGroup

/-- Subscriptions held singly, under numbers, and groups, under numbers of their own. -/
structure Ledger (τ : Type u) where
  singles : SortedMap Nat (Subscription τ)
  groups : SortedMap Nat (SubscriptionGroup τ)

namespace Ledger

variable {τ : Type u}

def empty : Ledger τ := ⟨∅, ∅⟩

/-- Something that is done with subscriptions. -/
inductive Act (τ : Type u) where
  /-- Makes a subscription and keeps it under a number; one kept there before is dropped. -/
  | keep (number : Nat) (s : Subscription τ)
  /-- Disposes of the subscription kept under a number. -/
  | dispose (number : Nat)
  /-- Lets go of the subscription kept under a number. -/
  | drop (number : Nat)
  /-- Moves the subscription kept under a number into a group. -/
  | add (number group : Nat)
  /-- Moves several subscriptions into a group, one after another. -/
  | extend (numbers : List Nat) (group : Nat)
  /-- Disposes of a group, which goes on to exist. -/
  | disposeGroup (group : Nat)
  | dropGroup (group : Nat)

def group (l : Ledger τ) (group : Nat) : SubscriptionGroup τ := (l.groups.get? group).getD []

/-- The tokens that come of something done with the subscription under a number, if there is one. -/
def fromSingle (l : Ledger τ) (number : Nat) (f : Subscription τ → List τ) : List τ :=
  (l.singles.get? number).elim [] f

/-- Moves one subscription, if it is there. -/
def move (l : Ledger τ) (group number : Nat) : Ledger τ :=
  match l.singles.get? number with
  | some s => ⟨l.singles.erase number, l.groups.insert group ((l.group group).add s)⟩
  | none => l

/-- An act: the tokens it releases, in order, and the ledger after it. -/
def act (l : Ledger τ) : Act τ → List τ × Ledger τ
  | .keep number s =>
    (l.fromSingle number (·.drop), { l with singles := l.singles.insert number s })
  | .dispose number =>
    (l.fromSingle number (·.dispose), { l with singles := l.singles.erase number })
  | .drop number =>
    (l.fromSingle number (·.drop), { l with singles := l.singles.erase number })
  | .add number group => ([], l.move group number)
  | .extend numbers group => ([], numbers.foldl (fun l number => l.move group number) l)
  | .disposeGroup group =>
    let (tokens, members) := (l.group group).dispose
    (tokens, { l with groups := l.groups.insert group members })
  | .dropGroup group =>
    ((l.group group).drop, { l with groups := l.groups.erase group })

end Ledger

end LintMargin
