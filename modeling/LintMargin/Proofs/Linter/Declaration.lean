import LintMargin.Proofs.Linter.Pragma
import LintMargin.Proofs.Text.Fields

/-!
# Texts that declare the pragma

`Declares` is the grammar of the texts that need no pragma, and `Scans` are the rounds of a reader that
judges one comment at a time and goes on behind it. Every text is scanned to its end, with one answer, and
that is the answer by which a text is prepared.
-/

namespace LintMargin.Pragma

open Text (isBlank trimStart)

/-! ### The grammar -/

/-- What ends a block comment. -/
def closing : List Char := ['*', '/']

/-- A block comment with its text. -/
def block (text : List Char) : List Char := '/' :: '*' :: (text ++ closing)

/-- A line comment with its text, and the end of its line. -/
def lineComment (text : List Char) : List Char := '/' :: '/' :: (text ++ ['\n'])

/-- What may stand in front of the first token: blanks and whole comments. -/
inductive Preamble : List Char → Prop where
  | nil : Preamble []
  | blank {c u} (hc : isBlank c = true) (hu : Preamble u) : Preamble (c :: u)
  /-- A block comment ends where it can first. -/
  | block {text u} (htext : ¬ closing <:+: text) (hu : Preamble u) : Preamble (block text ++ u)
  | lineComment {text u} (htext : '\n' ∉ text) (hu : Preamble u) : Preamble (lineComment text ++ u)

/-- In front of the first token is a block comment that mentions `@jsx`. -/
def Declares (cs : List Char) : Prop :=
  ∃ u text rest, Preamble u ∧ cs = u ++ (block text ++ rest) ∧ mention <:+: text ∧ ¬ closing <:+: text

/-! ### Reading comment by comment -/

/-- The rounds of a reader that stands at the first character that is no blank. -/
inductive Scans : List Char → Bool → Prop where
  | declaring {text rest} (htext : ¬ closing <:+: text) (hmention : mention <:+: text) :
      Scans (block text ++ rest) true
  | passing {text rest found} (htext : ¬ closing <:+: text) (hmention : ¬ mention <:+: text)
      (hrest : Scans (trimStart rest) found) : Scans (block text ++ rest) found
  | unended {text} (htext : ¬ closing <:+: text) : Scans ('/' :: '*' :: text) false
  | line {text rest found} (htext : '\n' ∉ text) (hrest : Scans (trimStart rest) found) :
      Scans (lineComment text ++ rest) found
  | lastLine {text} (htext : '\n' ∉ text) : Scans ('/' :: '/' :: text) false
  /-- The first token, or the end of the text. -/
  | token {cs} (hblock : ¬ ['/', '*'] <+: cs) (hline : ¬ ['/', '/'] <+: cs) : Scans cs false

variable {cs u text : List Char} {found : Bool}

/-! ### Preambles -/

theorem Preamble.append {v : List Char} (hu : Preamble u) (hv : Preamble v) : Preamble (u ++ v) := by
  induction hu with
  | nil => exact hv
  | blank hc _ ih => exact .blank hc ih
  | block htext _ ih =>
      rw [List.append_assoc]
      exact .block htext ih
  | lineComment htext _ ih =>
      rw [List.append_assoc]
      exact .lineComment htext ih

theorem preamble_blanks (hu : ∀ c ∈ u, isBlank c = true) : Preamble u := by
  induction u with
  | nil => exact .nil
  | cons c u ih =>
      obtain ⟨hc, hu⟩ := List.forall_mem_cons.mp hu
      exact .blank hc (ih hu)

theorem Declares.behind (h : Declares cs) (hu : Preamble u) : Declares (u ++ cs) := by
  obtain ⟨v, text, rest, hv, rfl, hmention, htext⟩ := h
  exact ⟨u ++ v, text, rest, hu.append hv, (List.append_assoc _ _ _).symm, hmention, htext⟩

/-- Blanks in front make no difference. -/
theorem Declares.of_trimStart (h : Declares (trimStart cs)) : Declares cs := by
  obtain ⟨before, hcs, hblank⟩ := Text.exists_trimStart cs
  rw [hcs]
  exact h.behind (preamble_blanks hblank)

/-! ### Reading character by character -/

theorem containsMention_iff : containsMention cs = true ↔ mention <:+: cs := by
  induction cs with
  | nil => simp [containsMention, mention]
  | cons c rest ih =>
      rw [containsMention, Bool.or_eq_true, ih, List.infix_cons_iff, List.isPrefixOf_iff_prefix]

theorem declaredFrom_nil (place : Place) : declaredFrom place [] = false := by cases place <;> rfl

theorem declaredFrom_outside (c : Char) (rest : List Char) :
    declaredFrom .outside (c :: rest) =
      if isBlank c then declaredFrom .outside rest
      else if c = '/' then declaredFrom .slash rest
      else false := rfl

theorem declaredFrom_slash (c : Char) (rest : List Char) :
    declaredFrom .slash (c :: rest) =
      if c = '*' then declaredFrom (.blockComment []) rest
      else if c = '/' then declaredFrom .lineComment rest
      else false := rfl

theorem declaredFrom_opening (rest : List Char) :
    declaredFrom .outside ('/' :: '*' :: rest) = declaredFrom (.blockComment []) rest := rfl

theorem declaredFrom_slashes (rest : List Char) :
    declaredFrom .outside ('/' :: '/' :: rest) = declaredFrom .lineComment rest := rfl

theorem declaredFrom_inLine (c : Char) (rest : List Char) :
    declaredFrom .lineComment (c :: rest) =
      declaredFrom (if c = '\n' then .outside else .lineComment) rest := rfl

theorem declaredFrom_closing (text rest : List Char) :
    declaredFrom (.blockComment ('*' :: text)) ('/' :: rest) =
      (containsMention text.reverse || declaredFrom .outside rest) := rfl

/-- A character that does not end the comment is kept. -/
theorem declaredFrom_inBlock {before : List Char} {c : Char}
    (hc : ¬ closing <:+: before.reverse ++ [c]) (rest : List Char) :
    declaredFrom (.blockComment before) (c :: rest) =
      declaredFrom (.blockComment (c :: before)) rest := by
  rw [declaredFrom]
  rintro text rfl rfl
  exact hc ⟨text.reverse, [], by simp [closing]⟩

theorem declaredFrom_trimStart (cs : List Char) :
    declaredFrom .outside (trimStart cs) = declaredFrom .outside cs := by
  induction cs with
  | nil => rfl
  | cons c rest ih =>
      unfold trimStart at ih ⊢
      rw [List.dropWhile_cons, declaredFrom_outside]
      split
      · exact ih
      · next hc => rw [declaredFrom_outside, if_neg hc]

theorem declaredFrom_blockComment {before : List Char}
    (htext : ¬ closing <:+: before.reverse ++ text) (rest : List Char) :
    declaredFrom (.blockComment before) (text ++ rest) =
      declaredFrom (.blockComment (text.reverse ++ before)) rest := by
  induction text generalizing before with
  | nil => rfl
  | cons c text ih =>
      have hwhole : before.reverse ++ c :: text = (c :: before).reverse ++ text := by simp
      rw [hwhole] at htext
      have hc : ¬ closing <:+: before.reverse ++ [c] := fun h =>
        htext (h.trans ⟨[], text, by simp⟩)
      rw [List.cons_append, declaredFrom_inBlock hc, ih htext]
      simp

theorem declaredFrom_opened (htext : ¬ closing <:+: text) (rest : List Char) :
    declaredFrom .outside ('/' :: '*' :: (text ++ rest)) =
      declaredFrom (.blockComment text.reverse) rest := by
  have hopened : ¬ closing <:+: ([] : List Char).reverse ++ text := htext
  rw [declaredFrom_opening, declaredFrom_blockComment hopened, List.append_nil]

/-- A whole comment is judged, and reading goes on behind it. -/
theorem declaredFrom_block (htext : ¬ closing <:+: text) (rest : List Char) :
    declaredFrom .outside (block text ++ rest) =
      (containsMention text || declaredFrom .outside rest) := by
  have hwhole : block text ++ rest = '/' :: '*' :: (text ++ '*' :: '/' :: rest) := by
    simp [block, closing]
  have hstar : declaredFrom (.blockComment text.reverse) ('*' :: '/' :: rest) =
      declaredFrom (.blockComment ('*' :: text.reverse)) ('/' :: rest) := rfl
  rw [hwhole, declaredFrom_opened htext, hstar, declaredFrom_closing, List.reverse_reverse]

theorem declaredFrom_unended (htext : ¬ closing <:+: text) :
    declaredFrom .outside ('/' :: '*' :: text) = false := by
  have hread := declaredFrom_opened htext []
  rwa [List.append_nil, declaredFrom_nil] at hread

theorem declaredFrom_line (htext : '\n' ∉ text) (rest : List Char) :
    declaredFrom .outside ('/' :: '/' :: (text ++ rest)) = declaredFrom .lineComment rest := by
  rw [declaredFrom_slashes]
  induction text with
  | nil => rfl
  | cons c text ih =>
      rw [List.mem_cons, not_or] at htext
      rw [List.cons_append, declaredFrom_inLine, if_neg (Ne.symm htext.1), ih htext.2]

theorem declaredFrom_lineComment (htext : '\n' ∉ text) (rest : List Char) :
    declaredFrom .outside (lineComment text ++ rest) = declaredFrom .outside rest := by
  have hwhole : lineComment text ++ rest = '/' :: '/' :: (text ++ '\n' :: rest) := by
    simp [lineComment]
  rw [hwhole, declaredFrom_line htext, declaredFrom_inLine, if_pos rfl]

theorem declaredFrom_lastLine (htext : '\n' ∉ text) :
    declaredFrom .outside ('/' :: '/' :: text) = false := by
  have hread := declaredFrom_line htext []
  rwa [List.append_nil, declaredFrom_nil] at hread

/-- A text that begins with something else than a blank or a comment. -/
theorem declaredFrom_token (htrimmed : trimStart cs = cs) (hblock : ¬ ['/', '*'] <+: cs)
    (hline : ¬ ['/', '/'] <+: cs) : declaredFrom .outside cs = false := by
  cases cs with
  | nil => rfl
  | cons c rest =>
      have hc : isBlank c = false := by
        by_contra hblank
        rw [Bool.not_eq_false] at hblank
        have hshorter := (List.dropWhile_suffix (l := rest) isBlank).length_le
        rw [trimStart, List.dropWhile_cons_of_pos hblank] at htrimmed
        rw [htrimmed, List.length_cons] at hshorter
        omega
      rw [declaredFrom_outside, if_neg (by simp [hc])]
      split
      · next hslash =>
          subst hslash
          cases rest with
          | nil => rfl
          | cons d more =>
              rw [List.cons_prefix_cons, List.cons_prefix_cons] at hblock hline
              simp only [true_and, List.nil_prefix, and_true] at hblock hline
              rw [declaredFrom_slash, if_neg (Ne.symm hblock), if_neg (Ne.symm hline)]
      · rfl

/-! ### One reading for the other -/

/-- A block comment is ended where it can first, or nowhere. -/
theorem exists_closing (cs : List Char) :
    ¬ closing <:+: cs ∨ ∃ text rest, cs = text ++ (closing ++ rest) ∧ ¬ closing <:+: text := by
  induction cs with
  | nil => exact .inl (by simp [closing])
  | cons c cs ih =>
      by_cases hfirst : closing <+: c :: cs
      · obtain ⟨rest, hrest⟩ := hfirst
        exact .inr ⟨[], rest, hrest.symm, by simp [closing]⟩
      · rcases ih with hnone | ⟨text, rest, rfl, htext⟩
        · exact .inl fun h => (List.infix_cons_iff.mp h).elim hfirst hnone
        · refine .inr ⟨c :: text, rest, rfl, fun h => ?_⟩
          rcases List.infix_cons_iff.mp h with h | h
          · exact hfirst (h.trans (List.prefix_append (c :: text) (closing ++ rest)))
          · exact htext h

/-- What a text can begin with: a block comment, one without an end, a line comment, one that the text ends
in, or no comment. -/
theorem comment_cases (cs : List Char) :
    (∃ text rest, ¬ closing <:+: text ∧ cs = block text ++ rest) ∨
    (∃ text, ¬ closing <:+: text ∧ cs = '/' :: '*' :: text) ∨
    (∃ text rest, '\n' ∉ text ∧ cs = lineComment text ++ rest) ∨
    (∃ text, '\n' ∉ text ∧ cs = '/' :: '/' :: text) ∨
    (¬ ['/', '*'] <+: cs ∧ ¬ ['/', '/'] <+: cs) := by
  by_cases hblock : ['/', '*'] <+: cs
  · obtain ⟨more, rfl⟩ := hblock
    rcases exists_closing more with hnone | ⟨text, rest, rfl, htext⟩
    · exact .inr (.inl ⟨more, hnone, rfl⟩)
    · exact .inl ⟨text, rest, htext, by simp [block]⟩
  · by_cases hline : ['/', '/'] <+: cs
    · obtain ⟨more, rfl⟩ := hline
      by_cases hnewline : '\n' ∈ more
      · obtain ⟨text, rest, rfl, htext⟩ := List.eq_append_cons_of_mem hnewline
        exact .inr (.inr (.inl ⟨text, rest, htext, by simp [lineComment]⟩))
      · exact .inr (.inr (.inr (.inl ⟨more, hnewline, rfl⟩)))
    · exact .inr (.inr (.inr (.inr ⟨hblock, hline⟩)))

/-- Every round leaves less to be read, so the last one comes. -/
theorem exists_scans (cs : List Char) : ∃ found, Scans cs found := by
  induction hn : cs.length using Nat.strongRecOn generalizing cs with
  | ind n ih =>
      have hbehind : ∀ rest : List Char, rest.length < n → ∃ found, Scans (trimStart rest) found :=
        fun rest hrest => ih _ (Nat.lt_of_le_of_lt
          (List.dropWhile_suffix (l := rest) isBlank).length_le hrest) _ rfl
      rcases comment_cases cs with ⟨text, rest, htext, rfl⟩ | ⟨text, htext, rfl⟩ |
        ⟨text, rest, htext, rfl⟩ | ⟨text, htext, rfl⟩ | ⟨hblock, hline⟩
      · by_cases hmention : mention <:+: text
        · exact ⟨true, .declaring htext hmention⟩
        · obtain ⟨found, hfound⟩ := hbehind rest (by simp [block] at hn; omega)
          exact ⟨found, .passing htext hmention hfound⟩
      · exact ⟨false, .unended htext⟩
      · obtain ⟨found, hfound⟩ := hbehind rest (by simp [lineComment] at hn; omega)
        exact ⟨found, .line htext hfound⟩
      · exact ⟨false, .lastLine htext⟩
      · exact ⟨false, .token hblock hline⟩

theorem trimStart_trimStart (cs : List Char) : trimStart (trimStart cs) = trimStart cs :=
  Text.trimStart_eq_self fun c hc => by
    have hfirst := List.head?_dropWhile_not isBlank cs
    rw [← trimStart, hc] at hfirst
    exact hfirst

/-- Reading comment by comment comes to the same as reading character by character. -/
theorem Scans.declaredFrom_eq (h : Scans cs found) (hcs : trimStart cs = cs) :
    declaredFrom .outside cs = found := by
  induction h with
  | declaring htext hmention =>
      rw [declaredFrom_block htext, containsMention_iff.mpr hmention, Bool.true_or]
  | passing htext hmention _ ih =>
      rw [declaredFrom_block htext, Bool.eq_false_iff.mpr (mt containsMention_iff.mp hmention),
        Bool.false_or, ← declaredFrom_trimStart, ih (trimStart_trimStart _)]
  | unended htext => exact declaredFrom_unended htext
  | line htext _ ih =>
      rw [declaredFrom_lineComment htext, ← declaredFrom_trimStart, ih (trimStart_trimStart _)]
  | lastLine htext => exact declaredFrom_lastLine htext
  | token hblock hline => exact declaredFrom_token hcs hblock hline

theorem scans_iff : Scans (trimStart cs) found ↔ found = declaredFrom .outside cs := by
  have hscans : ∀ {found}, Scans (trimStart cs) found → found = declaredFrom .outside cs := by
    intro found h
    rw [← declaredFrom_trimStart, h.declaredFrom_eq (trimStart_trimStart cs)]
  constructor
  · exact hscans
  · rintro rfl
    obtain ⟨found, hfound⟩ := exists_scans (trimStart cs)
    rwa [← hscans hfound]

/-! ### Preparing by the grammar -/

theorem Scans.declares (h : Scans cs found) (hfound : found = true) : Declares cs := by
  induction h with
  | @declaring text rest htext hmention => exact ⟨[], text, rest, .nil, rfl, hmention, htext⟩
  | @passing text rest _ htext _ _ ih =>
      have hcomment := Preamble.block htext .nil
      rw [List.append_nil] at hcomment
      exact (ih hfound).of_trimStart.behind hcomment
  | @line text rest _ htext _ ih =>
      have hcomment := Preamble.lineComment htext .nil
      rw [List.append_nil] at hcomment
      exact (ih hfound).of_trimStart.behind hcomment
  | unended | lastLine | token => cases hfound

/-- Whatever the comments of a preamble mention, a declaration behind them counts. -/
theorem Preamble.declaredFrom_append (hu : Preamble u) (hcs : declaredFrom .outside cs = true) :
    declaredFrom .outside (u ++ cs) = true := by
  induction hu with
  | nil => exact hcs
  | blank hc _ ih => rw [List.cons_append, declaredFrom_outside, if_pos hc, ih]
  | block htext _ ih => rw [List.append_assoc, declaredFrom_block htext, ih, Bool.or_true]
  | lineComment htext _ ih => rw [List.append_assoc, declaredFrom_lineComment htext, ih]

theorem isDeclared_iff {source : String} : isDeclared source = true ↔ Declares source.toList := by
  constructor
  · intro h
    exact (Scans.declares (scans_iff.mpr h.symm) rfl).of_trimStart
  · rintro ⟨u, text, rest, hu, hsource, hmention, htext⟩
    rw [isDeclared, hsource]
    refine hu.declaredFrom_append ?_
    rw [declaredFrom_block htext, containsMention_iff.mpr hmention, Bool.true_or]

theorem behind_line_ne (source : String) : line ++ "\n" ++ source ≠ source := by
  intro h
  have hlength := congrArg (fun s : String => s.toList.length) h
  simp only [toList_behind_line, List.length_append, List.length_cons] at hlength
  omega

/-- Scanning a text for the pragma comes to an end with one answer, and the text is prepared by it. A text
stays as it is if it follows the grammar; any other is put behind one line with the pragma. -/
theorem prepare_by_grammar (source : String) :
    (∃ found, (∀ other, Scans (trimStart source.toList) other ↔ other = found) ∧
      prepare source = if found then .same source else ⟨line ++ "\n" ++ source, 1⟩) ∧
    ((prepare source).source = source ↔ Declares source.toList) ∧
    (Declares source.toList → prepare source = .same source) ∧
    (¬ Declares source.toList → prepare source = ⟨line ++ "\n" ++ source, 1⟩) := by
  have hkept : Declares source.toList → prepare source = .same source := fun h =>
    if_pos (isDeclared_iff.mpr h)
  have hadded : ¬ Declares source.toList → prepare source = ⟨line ++ "\n" ++ source, 1⟩ := fun h =>
    if_neg (mt isDeclared_iff.mp h)
  refine ⟨⟨isDeclared source, fun other => scans_iff, rfl⟩, ⟨fun h => ?_, fun h => ?_⟩, hkept, hadded⟩
  · by_contra hnot
    rw [hadded hnot] at h
    exact behind_line_ne source h
  · rw [hkept h]
    rfl

end LintMargin.Pragma
