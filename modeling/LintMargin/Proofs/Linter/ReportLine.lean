import LintMargin.Proofs.Linter.UnixReport

/-!
# The grammar of a line in a report

`Reported` says which lines report an issue, and which issue, without saying how they are read. Reading
accepts just these lines, and a line that is written for an issue is read as that issue.
-/

namespace LintMargin

attribute [ext] Issue

namespace UnixReport

/-! ### Grammar -/

/-- A letter for the kind of issue and one or more digits. -/
def IsCode (code : List Char) : Prop :=
  ∃ kind digits, code = kind :: digits ∧ kind ∈ ['E', 'W', 'I'] ∧ digits ≠ [] ∧
    ∀ c ∈ digits, c.isDigit = true

/-- A message with a code in parentheses at its end. -/
def coded (reason code : List Char) : List Char := reason ++ [' ', '('] ++ code ++ [')']

/-- What a message says: a reason and a code behind it, or a reason alone. -/
inductive Says : List Char → String → Option String → Prop where
  | coded {reason code} (hcode : IsCode code) :
      Says (coded reason code) (String.ofList reason) (some (String.ofList code))
  | plain {message} (hplain : ∀ reason code, IsCode code → message ≠ UnixReport.coded reason code) :
      Says message (String.ofList message) none

/-- A line with four fields: a file, the numbers of a line and a character, and a message. Only the last
one may hold colons, and blanks around all but the first do not count. -/
inductive Reported : List Char → Issue → Prop where
  | mk {file line character message : List Char} {i : Issue}
      (hfile : ':' ∉ file) (hline : ':' ∉ line) (hcharacter : ':' ∉ character)
      (hlineNumber : ∃ numeral, Text.Stripped line numeral ∧ Text.Numeral numeral i.line.toNat)
      (hcharacterNumber :
        ∃ numeral, Text.Stripped character numeral ∧ Text.Numeral numeral i.character.toNat)
      (hmessage : ∃ text, Text.Stripped message text ∧ text ≠ [] ∧ Says text i.reason i.code) :
      Reported (file ++ ':' :: (line ++ ':' :: (character ++ ':' :: message))) i

/-! ### Cutting -/

variable {cs before after inside code reason message : List Char}

theorem cutColon_eq_some_iff :
    cutColon cs = some (before, after) ↔ cs = before ++ ':' :: after ∧ ':' ∉ before := by
  constructor
  · intro h
    refine ⟨eq_append_of_cutColon h, ?_⟩
    induction cs generalizing before with
    | nil => cases h
    | cons c rest ih =>
        rw [cutColon] at h
        split at h
        · cases h
          exact List.not_mem_nil
        · next hc =>
            obtain ⟨⟨front, behind⟩, hcut, h⟩ := Option.map_eq_some_iff.mp h
            cases h
            rw [List.mem_cons, not_or]
            exact ⟨Ne.symm hc, ih hcut⟩
  · rintro ⟨rfl, hbefore⟩
    induction before with
    | nil => rfl
    | cons c rest ih =>
        rw [List.mem_cons, not_or] at hbefore
        rw [List.cons_append, cutColon, if_neg (Ne.symm hbefore.1), ih hbefore.2]
        rfl

theorem cutOpening_append (hinside : '(' ∉ inside) :
    cutOpening (inside ++ '(' :: ' ' :: before) = some (inside, before) := by
  induction inside with
  | nil => rfl
  | cons c rest ih =>
      rw [List.mem_cons, not_or] at hinside
      rw [List.cons_append, cutOpening, ih hinside.2]
      · rfl
      · intro behind heq
        exact absurd heq.symm hinside.1

theorem isCode_iff : isCode code = true ↔ IsCode code := by
  cases code with
  | nil => simp [isCode, IsCode]
  | cons kind digits => simp [isCode, IsCode, and_assoc, or_assoc]

theorem IsCode.not_mem_opening (h : IsCode code) : '(' ∉ code := by
  obtain ⟨kind, digits, rfl, hkind, -, hdigits⟩ := h
  rw [List.mem_cons, not_or]
  refine ⟨?_, fun hmem => nomatch hdigits '(' hmem⟩
  rintro rfl
  revert hkind
  decide

/-- A code is split off exactly where it stands in parentheses at the end. -/
theorem splitCode_eq_some_iff :
    splitCode message = some (reason, code) ↔ message = coded reason code ∧ IsCode code := by
  constructor
  · intro h
    refine ⟨eq_append_of_splitCode h, ?_⟩
    unfold splitCode at h
    split at h
    · split at h
      · split at h
        · next hcode =>
            cases h
            exact isCode_iff.mp hcode
        · cases h
      · cases h
    · cases h
  · rintro ⟨rfl, hcode⟩
    have hreverse : (coded reason code).reverse =
        ')' :: (code.reverse ++ '(' :: ' ' :: reason.reverse) := by
      simp [coded]
    have hopening : '(' ∉ code.reverse := fun hmem => hcode.not_mem_opening (List.mem_reverse.mp hmem)
    simp only [splitCode, hreverse, cutOpening_append hopening, List.reverse_reverse,
      isCode_iff.mpr hcode, if_true]

/-- A message ends in a code in one way at most. -/
theorem coded_injective {reason' code' : List Char} (hcode : IsCode code) (hcode' : IsCode code')
    (h : coded reason code = coded reason' code') : reason = reason' ∧ code = code' := by
  have hsplit := splitCode_eq_some_iff.mpr ⟨h, hcode'⟩
  rw [splitCode_eq_some_iff.mpr ⟨rfl, hcode⟩] at hsplit
  exact Prod.mk.inj (Option.some.inj hsplit)

/-! ### Reading -/

theorem says_iff {r : String} {c : Option String} :
    Says message r c ↔
      (∃ reason code, IsCode code ∧ message = coded reason code ∧ r = String.ofList reason ∧
        c = some (String.ofList code)) ∨
      (∀ reason code, IsCode code → message ≠ coded reason code) ∧ r = String.ofList message ∧
        c = none := by
  constructor
  · rintro (hcode | hplain)
    · exact .inl ⟨_, _, hcode, rfl, rfl, rfl⟩
    · exact .inr ⟨hplain, rfl, rfl⟩
  · rintro (⟨reason, code, hcode, rfl, rfl, rfl⟩ | ⟨hplain, rfl, rfl⟩)
    · exact .coded hcode
    · exact .plain hplain

/-- A message says one thing. -/
theorem Says.unique {r r' : String} {c c' : Option String} (h : Says message r c)
    (h' : Says message r' c') : r = r' ∧ c = c' := by
  rcases says_iff.mp h with ⟨reason, code, hcode, hmessage, rfl, rfl⟩ | ⟨hplain, rfl, rfl⟩ <;>
    rcases says_iff.mp h' with ⟨reason', code', hcode', hmessage', rfl, rfl⟩ | ⟨hplain', rfl, rfl⟩
  · obtain ⟨rfl, rfl⟩ := coded_injective hcode hcode' (hmessage.symm.trans hmessage')
    exact ⟨rfl, rfl⟩
  · exact absurd hmessage (hplain' reason code hcode)
  · exact absurd hmessage' (hplain reason' code' hcode')
  · exact ⟨rfl, rfl⟩

/-- The issue of a message is what the message says. -/
theorem issueOf_eq_iff {line character : UInt32} {i : Issue} :
    issueOf line character message = i ↔
      i.line = line ∧ i.character = character ∧ Says message i.reason i.code := by
  have hsays : Says message (issueOf line character message).reason
      (issueOf line character message).code := by
    unfold issueOf
    cases hsplit : splitCode message with
    | none =>
        refine .plain fun reason code hcode heq => ?_
        rw [splitCode_eq_some_iff.mpr ⟨heq, hcode⟩] at hsplit
        cases hsplit
    | some parts =>
        obtain ⟨rfl, hcode⟩ := splitCode_eq_some_iff.mp hsplit
        exact .coded hcode
  have hplaces : (issueOf line character message).line = line ∧
      (issueOf line character message).character = character := by
    unfold issueOf
    split <;> exact ⟨rfl, rfl⟩
  constructor
  · rintro rfl
    exact ⟨hplaces.1, hplaces.2, hsays⟩
  · rintro ⟨hline, hcharacter, hi⟩
    obtain ⟨hreason, hcode⟩ := hsays.unique hi
    exact Issue.ext (hplaces.1.trans hline.symm) (hplaces.2.trans hcharacter.symm) hreason hcode

/-- A line is read if and only if it reports an issue, and then it is read as that issue. -/
theorem parseChars_eq_some_iff {i : Issue} : parseChars cs = some i ↔ Reported cs i := by
  simp only [parseChars, Option.bind_eq_bind, Option.bind_eq_some_iff]
  constructor
  · rintro ⟨⟨file, atLine⟩, hcutFile, ⟨line, atCharacter⟩, hcutLine, ⟨character, message⟩,
      hcutCharacter, lineNumber, hlineNumber, characterNumber, hcharacterNumber, h⟩
    obtain ⟨rfl, hfile⟩ := cutColon_eq_some_iff.mp hcutFile
    obtain ⟨rfl, hline⟩ := cutColon_eq_some_iff.mp hcutLine
    obtain ⟨rfl, hcharacter⟩ := cutColon_eq_some_iff.mp hcutCharacter
    rw [Text.readWord32_eq_some_iff] at hlineNumber hcharacterNumber
    split at h
    · cases h
    next hne =>
    obtain ⟨rfl, rfl, hsays⟩ := issueOf_eq_iff.mp (Option.some.inj h)
    exact .mk hfile hline hcharacter ⟨_, Text.stripped_trim line, hlineNumber⟩
      ⟨_, Text.stripped_trim character, hcharacterNumber⟩
      ⟨_, Text.stripped_trim message, by simpa using hne, hsays⟩
  · rintro ⟨hfile, hline, hcharacter, ⟨lineNumeral, hlineStripped, hlineNumber⟩,
      ⟨characterNumeral, hcharacterStripped, hcharacterNumber⟩, text, htextStripped, hne, hsays⟩
    rw [← Text.trim_eq_iff] at hlineStripped hcharacterStripped htextStripped
    subst hlineStripped hcharacterStripped htextStripped
    refine ⟨_, cutColon_eq_some_iff.mpr ⟨rfl, hfile⟩, _, cutColon_eq_some_iff.mpr ⟨rfl, hline⟩, _,
      cutColon_eq_some_iff.mpr ⟨rfl, hcharacter⟩, i.line, Text.readWord32_eq_some_iff.mpr hlineNumber,
      i.character, Text.readWord32_eq_some_iff.mpr hcharacterNumber, ?_⟩
    dsimp only
    rw [if_neg (by simpa using hne), issueOf_eq_iff.mpr ⟨rfl, rfl, hsays⟩]

/-! ### Writing -/

/-- An issue that a line can be written for. Blanks in front of the reason would be lost, and a reason
without a code must not seem to have one. -/
structure Writable (i : Issue) : Prop where
  reason : i.reason ≠ ""
  first : ∀ c, i.reason.toList.head? = some c → Text.isBlank c = false
  code : ∀ code, i.code = some code → IsCode code.toList
  last : i.code = none → ∀ c, i.reason.toList.getLast? = some c → Text.isBlank c = false
  plain : i.code = none → ∀ reason code, IsCode code → i.reason.toList ≠ coded reason code

/-- What is written for an issue behind its place. -/
def messageOf (i : Issue) : List Char :=
  match i.code with
  | some code => coded i.reason.toList code.toList
  | none => i.reason.toList

theorem toList_renderLine (file : String) (i : Issue) :
    (renderLine file i).toList =
      file.toList ++ ':' :: ((decimal i.line).toList ++ ':' :: ((decimal i.character).toList ++
        ':' :: ' ' :: messageOf i)) := by
  unfold renderLine messageOf
  cases i.code <;> simp [coded]

theorem says_messageOf {i : Issue} (hi : Writable i) : Says (messageOf i) i.reason i.code := by
  rw [says_iff, messageOf]
  cases hcode : i.code with
  | some code =>
      exact .inl ⟨i.reason.toList, code.toList, hi.code code hcode, rfl, String.ofList_toList.symm,
        by rw [String.ofList_toList]⟩
  | none => exact .inr ⟨hi.plain hcode, String.ofList_toList.symm, rfl⟩

theorem stripped_messageOf {i : Issue} (hi : Writable i) :
    Text.Stripped (' ' :: messageOf i) (messageOf i) := by
  have hreason : i.reason.toList ≠ [] := by simpa using hi.reason
  refine ⟨⟨[' '], [], by simp, List.forall_mem_singleton.mpr rfl, by simp⟩, ?_, ?_⟩
  · intro c hc
    refine hi.first c ?_
    rw [messageOf] at hc
    split at hc
    · rwa [coded, List.append_assoc, List.append_assoc, List.head?_append_of_ne_nil _ hreason] at hc
    · exact hc
  · intro c hc
    rw [messageOf] at hc
    split at hc
    · rw [coded, List.getLast?_concat] at hc
      cases hc
      decide
    · next hcode => exact hi.last hcode c hc

theorem stripped_repr (n : Nat) : Text.Stripped n.repr.toList n.repr.toList where
  around := ⟨[], [], by simp, by simp, by simp⟩
  first _ hc := Text.isBlank_eq_false_of_isDigit (Text.isDigit_of_mem_repr (List.mem_of_head? hc))
  last _ hc := Text.isBlank_eq_false_of_isDigit (Text.isDigit_of_mem_repr (List.mem_of_getLast? hc))

theorem colon_not_mem_repr (n : Nat) : ':' ∉ n.repr.toList :=
  fun hmem => nomatch Text.isDigit_of_mem_repr hmem

theorem reported_renderLine {file : String} (hfile : ':' ∉ file.toList) {i : Issue} (hi : Writable i) :
    Reported (renderLine file i).toList i := by
  have hmessage : messageOf i ≠ [] := by
    rw [messageOf]
    split
    · simp [coded]
    · simpa using hi.reason
  rw [toList_renderLine]
  exact .mk hfile (colon_not_mem_repr _) (colon_not_mem_repr _)
    ⟨_, stripped_repr _, Text.numeral_repr _⟩ ⟨_, stripped_repr _, Text.numeral_repr _⟩
    ⟨_, stripped_messageOf hi, hmessage, says_messageOf hi⟩

/-- A line is read as an issue if and only if it reports that issue: of its four fields only the message
may hold colons, the numbers are words in decimal, and the message ends in a code in one way at most. What
is written for an issue is read as that issue. -/
theorem parseLine_grammar :
    (∀ line i, parseLine line = some i ↔ Reported line.toList i) ∧
    (∀ reason code reason' code', IsCode code → IsCode code' →
      coded reason code = coded reason' code' → reason = reason' ∧ code = code') ∧
    ∀ file i, ':' ∉ file.toList → Writable i → parseLine (renderLine file i) = some i := by
  refine ⟨fun line i => parseChars_eq_some_iff, fun reason code reason' code' => coded_injective, ?_⟩
  intro file i hfile hi
  exact parseChars_eq_some_iff.mpr (reported_renderLine hfile hi)

/-- The reason has colons and an opening parenthesis, the line is the last one there is. -/
theorem parseLine_grammar_parenthesized :
    let i : Issue := ⟨4294967295, 0, "Expected ':' (W1", some "I9"⟩
    Writable i ∧ parseLine (renderLine "stdin" i) = some i := by
  intro i
  have hi : Writable i := by
    refine ⟨by decide, fun c hc => ?_, fun code hcode => ?_, nofun, nofun⟩
    · have hfirst : i.reason.toList.head? = some 'E' := by decide
      cases hfirst.symm.trans hc
      decide
    · cases (Option.some.inj hcode : "I9" = code)
      exact isCode_iff.mp (by decide)
  exact ⟨hi, parseLine_grammar.2.2 "stdin" i (by decide) hi⟩

end UnixReport

end LintMargin
