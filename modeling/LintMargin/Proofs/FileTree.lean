import LintMargin.FileTree
import LintMargin.Proofs.Path.Absolute

/-!
# What is found does not depend on the spelling

Following a path, pieces that name nothing do not count, except that a last one asks for a directory. So
two spellings of a path that end alike lead to the same place, unless one of them is longer than paths
may be.
-/

namespace LintMargin

open LintMargin.Path (names isVoid)

/-! ### Following pieces -/

namespace FileTree

variable {t : FileTree} {p q : Path}

/-- A piece that names nothing asks for a directory, and so does what comes after it. -/
theorem follow_void (t : FileTree) (place : Place) {piece : List Char} (h : isVoid piece = true)
    {rest : List (List Char)} (hrest : rest ≠ []) :
    t.follow place (piece :: rest) = t.follow place rest := by
  obtain ⟨next, more, rfl⟩ := List.exists_cons_of_ne_nil hrest
  rw [follow]
  cases hholds : t.holds place with
  | none => simp only [follow, hholds]
  | some node =>
      cases node with
      | file octets => simp only [follow, hholds]
      | directory => simp only [h, if_true]

/-- The pieces that count: those that name something, and a last one that asks for a directory. -/
def counting (pieces : List (List Char)) : List (List Char) :=
  pieces.filter (!isVoid ·) ++ if pieces.getLast?.any isVoid then [[]] else []

@[simp] theorem counting_singleton (piece : List Char) :
    counting [piece] = if isVoid piece then [[]] else [piece] := by
  unfold counting
  cases hpiece : isVoid piece <;> simp [hpiece]

theorem counting_cons (piece : List Char) {rest : List (List Char)} (hrest : rest ≠ []) :
    counting (piece :: rest) =
      if isVoid piece then counting rest else piece :: counting rest := by
  obtain ⟨next, more, rfl⟩ := List.exists_cons_of_ne_nil hrest
  unfold counting
  rw [List.getLast?_cons_cons, List.filter_cons]
  cases hpiece : isVoid piece <;> rfl

/-- Only the pieces that count lead anywhere. -/
theorem follow_counting (t : FileTree) (place : Place) (pieces : List (List Char)) :
    t.follow place (counting pieces) = t.follow place pieces := by
  induction pieces generalizing place with
  | nil => rfl
  | cons piece rest ih =>
      by_cases hrest : rest = []
      · subst hrest
        rw [counting_singleton]
        split
        · next hvoid => simp only [follow, hvoid, if_true]; rfl
        · rfl
      · rw [counting_cons piece hrest]
        split
        · next hvoid => rw [ih, follow_void t place hvoid hrest]
        · simp only [follow, ih]

/-- A path that is not longer than paths may be, as it is spelled. -/
def Fits (p : Path) : Prop := p.text.utf8ByteSize ≤ longestPath

instance (p : Path) : Decidable (Fits p) := inferInstanceAs (Decidable (_ ≤ _))

/-- Two spellings that end alike lead to the same place. -/
theorem locate_congr (h : p.Alike q) (hp : Fits p) (hq : Fits q) : t.locate p = t.locate q := by
  obtain ⟨-, hnames⟩ := Path.components_eq_components_iff.mp h.components
  have hnul : p.chars.contains '\x00' = q.chars.contains '\x00' := by
    rw [Bool.eq_iff_iff, List.contains_iff_mem, List.contains_iff_mem,
      Path.mem_chars_iff (by decide) (by decide), Path.mem_chars_iff (by decide) (by decide), hnames]
  have hempty : p.chars.isEmpty = q.chars.isEmpty := by
    rw [Bool.eq_iff_iff, List.isEmpty_iff, List.isEmpty_iff, ← Path.components_eq_nil_iff,
      ← Path.components_eq_nil_iff, h.components]
  have hcounting : counting (Text.split '/' p.chars) = counting (Text.split '/' q.chars) := by
    rw [counting, counting]
    exact congrArg₂ (fun ps (v : Bool) => ps ++ if v then [[]] else []) hnames h.endsVoid
  unfold Fits at hp hq
  rw [locate, locate, hnul, hempty, if_neg (Nat.not_lt.mpr hp), if_neg (Nat.not_lt.mpr hq),
    Path.isAbsolute_congr h.components, ← follow_counting, hcounting, follow_counting]

/-- A path that is too long leads nowhere. -/
theorem exists?_of_not_fits (h : ¬ Fits p) : t.exists? p = false := by
  have hlong : longestPath < p.text.utf8ByteSize := Nat.lt_of_not_le h
  have hlocate : ∃ e, t.locate p = .error e := by
    rw [locate, if_pos hlong]
    split
    · exact ⟨_, rfl⟩
    · split <;> exact ⟨_, rfl⟩
  obtain ⟨e, he⟩ := hlocate
  rw [exists?, node, he]
  rfl

theorem node_congr (h : p.Alike q) (hp : Fits p) (hq : Fits q) : t.node p = t.node q := by
  rw [node, node, locate_congr h hp hq]

theorem exists?_congr (h : t.node p = t.node q) : t.exists? p = t.exists? q := by
  rw [exists?, exists?, h]

theorem readText_congr (h : t.node p = t.node q) : t.readText p = t.readText q := by
  rw [readText, readText, readOctets, readOctets, h]

/-! ### Paths from the root -/

/-- The names of the working directory are names. -/
def Proper (t : FileTree) : Prop := ∀ name ∈ t.workingDirectory, Path.IsPiece name

instance (t : FileTree) : Decidable t.Proper :=
  inferInstanceAs (Decidable (∀ name ∈ t.workingDirectory, Path.IsPiece name))

theorem exists_written_of_absolute? (ht : t.Proper) {whole : Path} (h : t.absolute? p = some whole) :
    ∃ ns tail, Path.Written whole.chars (Path.slashesOf p.chars) ns tail :=
  Path.exists_written_of_absolute? ht h

end FileTree

end LintMargin
