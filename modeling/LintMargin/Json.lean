import LintMargin.Number.Shortest

/-!
# JSON values

Objects hold their members in ascending key order, one for each key; keys are ordered by code points,
which is the order of their UTF-8 octets.
-/

namespace LintMargin

open Number

inductive Json where
  | null
  | bool (value : Bool)
  | number (value : Numeral)
  | string (value : String)
  | array (items : List Json)
  | object (members : List (String × Json))
deriving Inhabited

/-- The members of an object. -/
abbrev Members := List (String × Json)

namespace Members

def get? (key : String) : Members → Option Json
  | [] => none
  | (k, v) :: rest => if k = key then some v else get? key rest

/-- Puts a member in its place, over any member with the same key. -/
def insert (key : String) (value : Json) : Members → Members
  | [] => [(key, value)]
  | (k, v) :: rest =>
    if key < k then (key, value) :: (k, v) :: rest
    else if key = k then (key, value) :: rest
    else (k, v) :: insert key value rest

def erase (key : String) (members : Members) : Members := members.filter fun m => m.1 ≠ key

/-- The members of both, the second ones winning. -/
def merge (base top : Members) : Members :=
  top.foldl (fun acc m => insert m.1 m.2 acc) base

/-- Members in any order and with repetitions; the last one of a key counts. -/
def ofList (members : List (String × Json)) : Members := merge [] members

theorem get?_insert (key : String) (value : Json) (k : String) (members : Members) :
    get? k (insert key value members) = if key = k then some value else get? k members := by
  induction members with
  | nil => simp [insert, get?]
  | cons m rest ih =>
    obtain ⟨j, v⟩ := m
    simp only [insert]
    split
    · simp [get?]
    · split
      · rename_i same
        subst same
        by_cases h : key = k <;> simp [get?, h]
      · rename_i differ
        by_cases h : key = k
        · subst h
          simpa [get?, Ne.symm differ] using ih
        · simp [get?, ih, h]

theorem get?_erase (key k : String) (members : Members) :
    get? k (erase key members) = if key = k then none else get? k members := by
  induction members with
  | nil => simp [erase, get?]
  | cons m rest ih =>
    obtain ⟨j, v⟩ := m
    by_cases here : j = key
    · subst here
      by_cases h : j = k
      · simpa [erase, get?, h] using ih
      · simpa [erase, get?, h] using ih
    · by_cases h : key = k
      · subst h
        simpa [erase, get?, here] using ih
      · have unfolded : erase key ((j, v) :: rest) = (j, v) :: erase key rest := by
          simp [erase, here]
        rw [unfolded, get?, get?, ih]
        simp [h]

end Members

namespace Json

def object? : Json → Option Members
  | .object members => some members
  | _ => none

end Json

end LintMargin
