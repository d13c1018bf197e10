import LintMargin.Text.Blank
import LintMargin.Text.Digits
import Mathlib.Data.List.TakeWhile

/-!
# Fields

A field of a line is a text with blanks around it, and some fields are numerals. `Stripped` and `Numeral`
say what that means without saying how it is read.
-/

namespace LintMargin.Text

variable {cs core : List Char}

/-! ### Blanks around a text -/

/-- A text with only blanks around it, and none at its own ends. -/
structure Stripped (cs core : List Char) : Prop where
  around : ∃ before after, cs = before ++ core ++ after ∧
    (∀ c ∈ before, isBlank c = true) ∧ ∀ c ∈ after, isBlank c = true
  first : ∀ c, core.head? = some c → isBlank c = false
  last : ∀ c, core.getLast? = some c → isBlank c = false

theorem trimEnd_sublist (cs : List Char) : (trimEnd cs).Sublist cs := by
  have hreverse := (List.dropWhile_sublist (p := isBlank) (l := cs.reverse)).reverse
  rwa [List.reverse_reverse] at hreverse

theorem trim_sublist (cs : List Char) : (trim cs).Sublist cs :=
  (trimEnd_sublist _).trans (List.dropWhile_sublist _)

theorem isBlank_eq_false_of_getLast?_trimEnd {cs : List Char} {c : Char}
    (hc : (trimEnd cs).getLast? = some c) : isBlank c = false := by
  have hfirst := List.head?_dropWhile_not isBlank cs.reverse
  rw [trimEnd, List.getLast?_reverse] at hc
  rwa [hc] at hfirst

theorem exists_trimStart (cs : List Char) :
    ∃ before, cs = before ++ trimStart cs ∧ ∀ c ∈ before, isBlank c = true :=
  ⟨cs.takeWhile isBlank, List.takeWhile_append_dropWhile.symm, fun _ hc => List.mem_takeWhile_imp hc⟩

theorem exists_trimEnd (cs : List Char) :
    ∃ after, cs = trimEnd cs ++ after ∧ ∀ c ∈ after, isBlank c = true := by
  obtain ⟨before, hbefore, hblank⟩ := exists_trimStart cs.reverse
  refine ⟨before.reverse, ?_, fun c hc => hblank c (List.mem_reverse.mp hc)⟩
  rw [← List.reverse_inj, hbefore]
  simp [trimEnd, trimStart]

theorem trimStart_append {before : List Char} (hbefore : ∀ c ∈ before, isBlank c = true) :
    trimStart (before ++ cs) = trimStart cs :=
  List.dropWhile_append_of_pos hbefore

theorem trimEnd_append {after : List Char} (hafter : ∀ c ∈ after, isBlank c = true) :
    trimEnd (cs ++ after) = trimEnd cs := by
  rw [trimEnd, List.reverse_append,
    List.dropWhile_append_of_pos fun c hc => hafter c (List.mem_reverse.mp hc), trimEnd]

theorem trimStart_eq_self (h : ∀ c, cs.head? = some c → isBlank c = false) : trimStart cs = cs := by
  cases cs with
  | nil => rfl
  | cons c rest => exact List.dropWhile_cons_of_neg (by simp [h c rfl])

theorem trimEnd_eq_self (h : ∀ c, cs.getLast? = some c → isBlank c = false) : trimEnd cs = cs := by
  have hreverse : trimStart cs.reverse = cs.reverse :=
    trimStart_eq_self fun c hc => h c (List.head?_reverse ▸ hc)
  rw [trimEnd, ← trimStart, hreverse, List.reverse_reverse]

theorem stripped_trim (cs : List Char) : Stripped cs (trim cs) := by
  obtain ⟨before, hbefore, hbeforeBlank⟩ := exists_trimStart cs
  obtain ⟨after, hafter, hafterBlank⟩ := exists_trimEnd (trimStart cs)
  refine ⟨⟨before, after, ?_, hbeforeBlank, hafterBlank⟩, fun c hc => ?_, fun c hc => ?_⟩
  · rw [List.append_assoc, trim, ← hafter, ← hbefore]
  · -- The text begins as it does before blanks are taken off its end.
    have hfirst : (trimStart cs).head? = some c := by
      rw [hafter, List.head?_append, ← trim, hc]
      rfl
    have hnot := List.head?_dropWhile_not isBlank cs
    rw [← trimStart, hfirst] at hnot
    exact hnot
  · exact isBlank_eq_false_of_getLast?_trimEnd hc

theorem trim_eq_iff : trim cs = core ↔ Stripped cs core := by
  constructor
  · rintro rfl
    exact stripped_trim cs
  · rintro ⟨⟨before, after, rfl, hbefore, hafter⟩, hfirst, hlast⟩
    rw [trim, List.append_assoc, trimStart_append hbefore]
    cases core with
    | nil =>
        have hnothing : trimStart after = [] := List.dropWhile_eq_nil_iff.mpr hafter
        rw [List.nil_append, hnothing]
        rfl
    | cons c rest =>
        have hstart : trimStart (c :: rest ++ after) = c :: rest ++ after :=
          trimStart_eq_self fun d hd => hfirst d hd
        rw [hstart, trimEnd_append hafter, trimEnd_eq_self hlast]

theorem trimEnd_eq_nil_iff : trimEnd cs = [] ↔ ∀ c ∈ cs, isBlank c = true := by
  rw [trimEnd, List.reverse_eq_nil_iff, List.dropWhile_eq_nil_iff]
  simp only [List.mem_reverse]

theorem Stripped.append (h : Stripped cs core) {after : List Char}
    (hafter : ∀ c ∈ after, isBlank c = true) : Stripped (cs ++ after) core := by
  obtain ⟨⟨before, behind, rfl, hbefore, hbehind⟩, hfirst, hlast⟩ := h
  refine ⟨⟨before, behind ++ after, by rw [List.append_assoc], hbefore, ?_⟩, hfirst, hlast⟩
  exact List.forall_mem_append.mpr ⟨hbehind, hafter⟩

theorem trim_append {after : List Char} (hafter : ∀ c ∈ after, isBlank c = true) :
    trim (cs ++ after) = trim cs :=
  trim_eq_iff.mpr ((stripped_trim cs).append hafter)

/-! ### Numerals -/

/-- One or more digits, perhaps with a plus sign in front, that stand for a number. -/
def Numeral (cs : List Char) (n : Nat) : Prop :=
  ∃ sign digits, cs = sign ++ digits ∧ (sign = [] ∨ sign = ['+']) ∧ digits ≠ [] ∧
    (∀ c ∈ digits, c.isDigit = true) ∧ Nat.ofDigitChars 10 digits 0 = n

theorem mapM_digitValue? {digits : List Char} (h : ∀ c ∈ digits, c.isDigit = true) :
    digits.mapM digitValue? = some (digits.map fun c => c.toNat - '0'.toNat) := by
  induction digits with
  | nil => rfl
  | cons c rest ih =>
      obtain ⟨hc, hrest⟩ := List.forall_mem_cons.mp h
      have hvalue : digitValue? c = some (c.toNat - '0'.toNat) := if_pos hc
      rw [List.mapM_cons, hvalue, ih hrest]
      rfl

theorem isDigit_of_mapM_digitValue? {digits : List Char} {values : List Nat}
    (h : digits.mapM digitValue? = some values) : ∀ c ∈ digits, c.isDigit = true := by
  induction digits generalizing values with
  | nil => simp
  | cons c rest ih =>
      rw [List.mapM_cons, Option.bind_eq_bind, Option.bind_eq_some_iff] at h
      obtain ⟨value, hvalue, h⟩ := h
      obtain ⟨others, hothers, -⟩ := Option.bind_eq_some_iff.mp h
      refine List.forall_mem_cons.mpr ⟨?_, ih hothers⟩
      by_contra hc
      rw [digitValue?, if_neg hc] at hvalue
      cases hvalue

theorem ofDigits_map (digits : List Char) :
    ofDigits 10 (digits.map fun c => c.toNat - '0'.toNat) = Nat.ofDigitChars 10 digits 0 := by
  rw [ofDigits, List.foldl_map]
  rfl

/-- The word that a text of digits alone stands for. -/
def wordOfDigits (digits : List Char) : Option UInt32 :=
  if digits.isEmpty then none
  else (digits.mapM digitValue?).bind fun values =>
    if ofDigits 10 values < UInt32.size then some (UInt32.ofNat (ofDigits 10 values)) else none

theorem wordOfDigits_eq_some_iff {digits : List Char} {w : UInt32} :
    wordOfDigits digits = some w ↔
      digits ≠ [] ∧ (∀ c ∈ digits, c.isDigit = true) ∧ Nat.ofDigitChars 10 digits 0 = w.toNat := by
  unfold wordOfDigits
  constructor
  · intro h
    split at h
    · cases h
    next hne =>
    obtain ⟨values, hvalues, h⟩ := Option.bind_eq_some_iff.mp h
    have hdigits := isDigit_of_mapM_digitValue? hvalues
    obtain rfl := Option.some.inj ((mapM_digitValue? hdigits).symm.trans hvalues)
    rw [ofDigits_map] at h
    split at h
    · next hsize =>
        cases h
        exact ⟨by simpa using hne, hdigits, (UInt32.toNat_ofNat_of_lt hsize).symm⟩
    · cases h
  · rintro ⟨hne, hdigits, hvalue⟩
    rw [if_neg (by simpa using hne), mapM_digitValue? hdigits, Option.bind_some, ofDigits_map, hvalue,
      if_pos w.toNat_lt, UInt32.ofNat_toNat]

theorem readWord32_plus (digits : List Char) : readWord32 ('+' :: digits) = wordOfDigits digits := rfl

theorem readWord32_of_head?_ne (h : cs.head? ≠ some '+') : readWord32 cs = wordOfDigits cs := by
  unfold readWord32
  split
  · exact absurd rfl h
  · rfl

/-- A word is read as the number that its numeral stands for. -/
theorem readWord32_eq_some_iff {w : UInt32} : readWord32 cs = some w ↔ Numeral cs w.toNat := by
  constructor
  · intro h
    by_cases hplus : cs.head? = some '+'
    · obtain ⟨digits, rfl⟩ := List.head?_eq_some_iff.mp hplus
      rw [readWord32_plus, wordOfDigits_eq_some_iff] at h
      exact ⟨['+'], digits, rfl, .inr rfl, h⟩
    · rw [readWord32_of_head?_ne hplus, wordOfDigits_eq_some_iff] at h
      exact ⟨[], cs, rfl, .inl rfl, h⟩
  · rintro ⟨sign, digits, rfl, rfl | rfl, hdigits⟩
    · have hplus : digits.head? ≠ some '+' := by
        intro hhead
        cases hdigits.2.1 '+' (List.mem_of_head? hhead)
      rw [List.nil_append, readWord32_of_head?_ne hplus, wordOfDigits_eq_some_iff]
      exact hdigits
    · exact wordOfDigits_eq_some_iff.mpr hdigits

/-- A number in decimal is a numeral of it. -/
theorem numeral_repr (n : Nat) : Numeral n.repr.toList n := by
  refine ⟨[], n.repr.toList, rfl, .inl rfl, ?_⟩
  rw [Nat.toList_repr]
  exact ⟨Nat.toDigits_ne_nil, fun c hc => Nat.isDigit_of_mem_toDigits (by decide) (by decide) hc,
    Nat.ofDigitChars_toDigits (by decide) (by decide)⟩

theorem isDigit_of_mem_repr {n : Nat} {c : Char} (hc : c ∈ n.repr.toList) : c.isDigit = true := by
  rw [Nat.toList_repr] at hc
  exact Nat.isDigit_of_mem_toDigits (by decide) (by decide) hc

theorem isBlank_eq_false_of_isDigit {c : Char} (hc : c.isDigit = true) : isBlank c = false := by
  simp only [Char.isDigit, ge_iff_le, Bool.and_eq_true, decide_eq_true_eq, UInt32.le_iff_toNat_le] at hc
  have hlow : 48 ≤ c.toNat := hc.1
  have hhigh : c.toNat ≤ 57 := hc.2
  simp only [isBlank, Bool.or_eq_false_iff, Bool.and_eq_false_iff, decide_eq_false_iff_not]
  omega

end LintMargin.Text
