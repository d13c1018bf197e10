import LintMargin.Config.Loader
import LintMargin.Proofs.Config.Chain

/-!
# Searches and what is remembered of them

A search from a directory may end at what an earlier search remembered of a directory above, which may
have been another spelling or another search altogether. So each remembered answer has to be the answer
of a search that starts right there.
-/

namespace LintMargin.Loader

open LintMargin.Path (IsName)

variable {t : FileTree} {name : String} {a b : Path}

/-! ### The nearest file -/

/-- The name in the nearest of a directory and those above it where it exists. -/
def nearest (t : FileTree) (name : String) (directory : Path) : Option Path :=
  (directory.ancestors.map (·.join name)).find? t.exists?

theorem nearest_of_exists (h : t.exists? (a.join name) = true) :
    nearest t name a = some (a.join name) := by
  rw [nearest, Path.ancestors_eq, List.map_cons, List.find?_cons_of_pos h]

theorem nearest_of_not_exists (h : t.exists? (a.join name) = false) :
    nearest t name a = a.parent?.bind (nearest t name) := by
  rw [nearest, Path.ancestors_eq, List.map_cons, List.find?_cons_of_neg (by simp [h])]
  cases a.parent? <;> rfl

/-- Both answers are that there is no file, or spellings of one path. -/
def Same (v w : Option Path) : Prop := v.map Path.components = w.map Path.components

theorem Same.refl (v : Option Path) : Same v v := rfl

theorem Same.trans {u v w : Option Path} (huv : Same u v) (hvw : Same v w) : Same u w :=
  Eq.trans huv hvw

theorem same_join (h : a.components = b.components) (name : String) :
    Same (some (a.join name)) (some (b.join name)) :=
  congrArg some (Path.alike_join h name).components

/-- Searches whose answers do not depend on how their directories are spelled. -/
structure Uniform (t : FileTree) (F : String → Path → Prop) : Prop where
  isName : ∀ {name a}, F name a → IsName name
  parent : ∀ {name a b}, F name a → a.parent? = some b → F name b
  node : ∀ {name a b}, F name a → F name b → a.components = b.components →
    t.node (a.join name) = t.node (b.join name)
  load : ∀ {a b}, F configFile a → F configFile b → a.components = b.components →
    (LintConfig.load t (a.join configFile)).toOption.map LintConfig.options =
      (LintConfig.load t (b.join configFile)).toOption.map LintConfig.options

variable {F : String → Path → Prop}

/-- Where each directory has one spelling only, spelling does not matter. -/
theorem uniform_of_unique (hname : ∀ {name a}, F name a → IsName name)
    (hparent : ∀ {name a b}, F name a → a.parent? = some b → F name b)
    (hunique : ∀ {name a b}, F name a → F name b → a.components = b.components → a = b) :
    Uniform t F where
  isName := hname
  parent := hparent
  node ha hb h := by rw [hunique ha hb h]
  load ha hb h := by rw [hunique ha hb h]

/-- The searches in one directory and those above it. -/
theorem uniform_above (directory : Path) :
    Uniform t fun name a => IsName name ∧ a ∈ directory.ancestors :=
  uniform_of_unique (fun h => h.1) (fun h hb => ⟨h.1, Path.parent?_mem_ancestors h.2 hb⟩)
    fun ha hb => Path.eq_of_mem_ancestors ha.2 hb.2

/-- With a directory those above it are searched. -/
theorem Uniform.of_mem_ancestors (hF : Uniform t F) (ha : F name a) (hb : b ∈ a.ancestors) :
    F name b :=
  Path.mem_ancestors_induction (motive := F name) ha (fun _ _ h hparent => hF.parent h hparent) hb

theorem exists_of_nearest {p : Path} (h : nearest t name a = some p) :
    ∃ b ∈ a.ancestors, p = b.join name := by
  obtain ⟨b, hb, rfl⟩ := List.mem_map.mp (List.mem_of_find?_eq_some h)
  exact ⟨b, hb, rfl⟩

theorem exists?_of_nearest {p : Path} (h : nearest t name a = some p) : t.exists? p = true :=
  List.find?_some h

theorem components_of_join_name {other : String} (hname : IsName name) (hother : IsName other)
    (h : (a.join name).components = (b.join other).components) :
    a.components = b.components ∧ name = other := by
  rw [Path.components_join_name a hname, Path.components_join_name b hother] at h
  obtain ⟨hdirectories, hnames⟩ := List.append_inj' h rfl
  exact ⟨hdirectories, String.toList_inj.mp (by simpa using hnames)⟩

theorem exists?_congr_of_uniform (hF : Uniform t F) (ha : F name a) (hb : F name b)
    (h : a.components = b.components) : t.exists? (a.join name) = t.exists? (b.join name) :=
  FileTree.exists?_congr (hF.node ha hb h)

theorem nearest_congr (hF : Uniform t F) (ha : F name a) (hb : F name b)
    (h : a.components = b.components) : Same (nearest t name a) (nearest t name b) := by
  induction a using Path.parent_induction generalizing b with
  | root a hroot =>
      have hexists := exists?_congr_of_uniform hF ha hb h
      have hparents := Path.parent?_congr h
      rw [hroot] at hparents
      have hrootb : b.parent? = none := Option.map_eq_none_iff.mp hparents.symm
      cases ha' : t.exists? (a.join name) with
      | true =>
          rw [nearest_of_exists ha', nearest_of_exists (hexists ▸ ha')]
          exact same_join h name
      | false =>
          rw [nearest_of_not_exists ha', nearest_of_not_exists (hexists ▸ ha'), hroot, hrootb]
          rfl
  | step a p hparent ih =>
      have hexists := exists?_congr_of_uniform hF ha hb h
      have hparents := Path.parent?_congr h
      rw [hparent] at hparents
      obtain ⟨q, hq, hpq⟩ := Option.map_eq_some_iff.mp hparents.symm
      cases ha' : t.exists? (a.join name) with
      | true =>
          rw [nearest_of_exists ha', nearest_of_exists (hexists ▸ ha')]
          exact same_join h name
      | false =>
          rw [nearest_of_not_exists ha', nearest_of_not_exists (hexists ▸ ha'), hparent, hq]
          exact ih (hF.parent ha hparent) (hF.parent hb hq) hpq.symm

/-! ### Remembered answers -/

/-- An answer that a search from a directory may get: the nearest file, as some search spells it. -/
structure Answers (t : FileTree) (F : String → Path → Prop) (name : String) (directory : Path)
    (v : Option Path) : Prop where
  same : Same v (nearest t name directory)
  origin : ∀ p, v = some p → ∃ a, F name a ∧ p = a.join name

theorem Answers.congr {v : Option Path} (h : Answers t F name a v) (hF : Uniform t F) (ha : F name a)
    (hb : F name b) (hab : a.components = b.components) : Answers t F name b v where
  same := h.same.trans (nearest_congr hF ha hb hab)
  origin := h.origin

theorem answers_of_exists (ha : F name a) (h : t.exists? (a.join name) = true) :
    Answers t F name a (some (a.join name)) where
  same := by rw [nearest_of_exists h]; exact .refl _
  origin p hp := ⟨a, ha, (Option.some.inj hp).symm⟩

theorem answers_of_root (h : t.exists? (a.join name) = false) (hroot : a.parent? = none) :
    Answers t F name a none where
  same := by rw [nearest_of_not_exists h, hroot]; rfl
  origin p hp := nomatch hp

theorem Answers.of_parent {v : Option Path} (h : Answers t F name b v) (hparent : a.parent? = some b)
    (hexists : t.exists? (a.join name) = false) : Answers t F name a v where
  same := by rw [nearest_of_not_exists hexists, hparent]; exact h.same
  origin := h.origin

/-- Two answers to one search: none, or the same name below two spellings of one directory. -/
theorem Answers.pair {v w : Option Path} (hF : Uniform t F) (hv : Answers t F name a v)
    (hw : Answers t F name a w) :
    (v = none ∧ w = none) ∨ ∃ c d, F name c ∧ F name d ∧ c.components = d.components ∧
      v = some (c.join name) ∧ w = some (d.join name) := by
  have hsame : Same v w := hv.same.trans hw.same.symm
  cases v with
  | none => exact .inl ⟨rfl, Option.map_eq_none_iff.mp hsame.symm⟩
  | some p =>
      obtain ⟨q, rfl, hq⟩ := Option.map_eq_some_iff.mp hsame.symm
      obtain ⟨c, hc, rfl⟩ := hv.origin p rfl
      obtain ⟨d, hd, rfl⟩ := hw.origin q rfl
      have hname := hF.isName hc
      exact .inr ⟨c, d, hc, hd, (components_of_join_name hname hname hq.symm).1, rfl, rfl⟩

/-- What is remembered of a path is an answer of the search that starts there. -/
def Remembers (t : FileTree) (F : String → Path → Prop)
    (found : List (List Path.Component × Option Path)) : Prop :=
  ∀ name a v, F name a → found.lookup (a.join name).components = some v → Answers t F name a v

theorem remembers_nil : Remembers t F [] := fun _ _ _ _ h => nomatch h

/-- One more remembered answer, of the search that starts right there. -/
theorem Remembers.cons {found : List (List Path.Component × Option Path)} {v : Option Path}
    (hF : Uniform t F) (h : Remembers t F found) (ha : F name a) (hv : Answers t F name a v) :
    Remembers t F (((a.join name).components, v) :: found) := by
  intro other b w hb hlookup
  by_cases hkey : (b.join other).components = (a.join name).components
  · obtain ⟨hab, rfl⟩ := components_of_join_name (hF.isName hb) (hF.isName ha) hkey
    rw [hkey, List.lookup_cons_self] at hlookup
    obtain rfl := Option.some.inj hlookup
    exact hv.congr hF ha hb hab.symm
  · rw [List.lookup_cons, beq_false_of_ne hkey] at hlookup
    exact h other b w hb hlookup

/-- A result of a search from a directory: an answer, and that for each directory it came through. -/
def Searched (t : FileTree) (F : String → Path → Prop) (name : String) (a : Path)
    (r : Option Path × List Path) : Prop :=
  Answers t F name a r.1 ∧ ∀ p ∈ r.2, ∃ b, F name b ∧ p = b.join name ∧ Answers t F name b r.1

/-- A search that goes on with the directories above only where there is nothing. -/
theorem search_cons_searched {found : List (List Path.Component × Option Path)} {rest : List Path}
    (hfound : Remembers t F found) (ha : F name a)
    (hrest : t.exists? (a.join name) = false → Searched t F name a (search t found rest)) :
    Searched t F name a (search t found (a.join name :: rest)) := by
  rw [search]
  cases hlookup : found.lookup (a.join name).components with
  | some known => exact ⟨hfound name a known ha hlookup, by simp⟩
  | none =>
      dsimp only
      split
      · next hexists =>
          have hanswers := answers_of_exists ha hexists
          exact ⟨hanswers, fun p hp => ⟨a, ha, List.mem_singleton.mp hp, hanswers⟩⟩
      · next hexists =>
          obtain ⟨hanswers, htried⟩ := hrest (Bool.not_eq_true _ ▸ hexists)
          refine ⟨hanswers, fun p hp => ?_⟩
          rcases List.mem_cons.mp hp with rfl | hp
          · exact ⟨a, ha, rfl, hanswers⟩
          · exact htried p hp

theorem search_searched {found : List (List Path.Component × Option Path)} (hF : Uniform t F)
    (hfound : Remembers t F found) (ha : F name a) :
    Searched t F name a (search t found (a.ancestors.map (·.join name))) := by
  induction a using Path.parent_induction with
  | root a hroot =>
      rw [Path.ancestors_of_parent?_eq_none hroot]
      exact search_cons_searched hfound ha fun hexists =>
        ⟨answers_of_root hexists hroot, by simp [search]⟩
  | step a b hparent ih =>
      rw [Path.ancestors_of_parent? hparent]
      refine search_cons_searched hfound ha fun hexists => ?_
      obtain ⟨habove, htried⟩ := ih (hF.parent ha hparent)
      exact ⟨habove.of_parent hparent hexists, htried⟩

/-- A search that remembers nothing ends at the first path that exists. -/
theorem search_nil (t : FileTree) (candidates : List Path) :
    (search t [] candidates).1 = candidates.find? t.exists? := by
  induction candidates with
  | nil => rfl
  | cons candidate rest ih =>
      rw [search, List.find?_cons]
      dsimp only [List.lookup_nil]
      cases t.exists? candidate with
      | true => rfl
      | false => exact ih

theorem findFile_fst (t : FileTree) (name : String) (directory : Path) (l : Loader) :
    (l.findFile t name directory).1 =
      (search t l.found (directory.ancestors.map (·.join name))).1 := rfl

/-- A loader that remembers nothing finds the nearest file. -/
theorem findFile_withHome (t : FileTree) (name : String) (directory : Path) (home : Option Path) :
    ((withHome home).findFile t name directory).1 = nearest t name directory := by
  rw [findFile_fst]
  exact search_nil t _

theorem findFile_of_lookup {l : Loader} {v : Option Path}
    (h : l.found.lookup (a.join name).components = some v) : (l.findFile t name a).1 = v := by
  rw [findFile_fst, Path.ancestors_eq, List.map_cons, search, h]

/-- What a search found is remembered where it started. -/
theorem lookup_findFile (t : FileTree) (name : String) (directory : Path) (l : Loader) :
    (l.findFile t name directory).2.found.lookup (directory.join name).components =
      some (l.findFile t name directory).1 := by
  unfold findFile
  rw [Path.ancestors_eq, List.map_cons, search]
  cases hlookup : l.found.lookup (directory.join name).components with
  | some known => exact hlookup
  | none =>
      dsimp only
      split <;> exact List.lookup_cons_self

/-- Only paths of which nothing is remembered are tried. -/
theorem lookup_of_mem_tried {found : List (List Path.Component × Option Path)} {candidates : List Path}
    {p : Path} (hp : p ∈ (search t found candidates).2) : found.lookup p.components = none := by
  induction candidates with
  | nil => cases hp
  | cons candidate rest ih =>
      rw [search] at hp
      cases hlookup : found.lookup candidate.components with
      | some known => simp [hlookup] at hp
      | none =>
          simp only [hlookup] at hp
          split at hp
          · rwa [List.mem_singleton.mp hp]
          · rcases List.mem_cons.mp hp with rfl | hp
            · exact hlookup
            · exact ih hp

@[simp] theorem findFile_home (l : Loader) : (l.findFile t name a).2.home = l.home := rfl

/-- A look-up gives an answer and remembers nothing but answers. -/
theorem findFile_answers {l : Loader} (hF : Uniform t F) (hfound : Remembers t F l.found)
    (ha : F name a) :
    Answers t F name a (l.findFile t name a).1 ∧ Remembers t F (l.findFile t name a).2.found := by
  obtain ⟨hanswers, htried⟩ := search_searched hF hfound ha
  refine ⟨hanswers, ?_⟩
  rw [findFile]
  dsimp only
  generalize search t l.found (a.ancestors.map (·.join name)) = r at hanswers htried ⊢
  obtain ⟨v, tried⟩ := r
  dsimp only at hanswers htried ⊢
  induction tried with
  | nil => exact hfound
  | cons p rest ih =>
      obtain ⟨b, hb, rfl, hbv⟩ := htried p List.mem_cons_self
      exact (ih fun q hq => htried q (List.mem_cons_of_mem _ hq)).cons hF hb hbv

end LintMargin.Loader
