import LintMargin.Proofs.Config.Queries
import LintMargin.Proofs.Session.Finding

/-!
# Loaders as steady services

Files whose paths begin with the same slashes lie in directories that have one spelling each, by which
they are searched. So a loader that was asked about such files only answers as a new one would, and does
not break down.
-/

namespace LintMargin

namespace Loader

open LintMargin.Path (IsName IsPiece slashesOf through)

variable {t : FileTree} {home : Option Path} {l l' : Loader} {q : Query} {file : Path}
  {slashes : List Char}

/-- Searches in directories that are spelled from the root on, with certain slashes in front. -/
def FromRoot (slashes : List Char) (name : String) (a : Path) : Prop :=
  IsName name ∧ (slashes = ['/'] ∨ slashes = ['/', '/']) ∧
    ∃ ns, (∀ n ∈ ns, IsPiece n) ∧ a = through slashes ns

theorem FromRoot.eq {name other : String} {a b : Path} (ha : FromRoot slashes name a)
    (hb : FromRoot slashes other b) (h : a.components = b.components) : a = b := by
  obtain ⟨-, hslashes, ns, hns, rfl⟩ := ha
  obtain ⟨-, -, ms, hms, rfl⟩ := hb
  have hnames := (Path.components_eq_components_iff.mp h).2
  rw [(Path.written_through hslashes hns).names_eq, (Path.written_through hslashes hms).names_eq]
    at hnames
  rw [hnames]

theorem uniform_fromRoot (t : FileTree) (slashes : List Char) : Uniform t (FromRoot slashes) := by
  refine uniform_of_unique And.left ?_ fun ha hb h => ha.eq hb h
  rintro name a b ⟨hname, hslashes, ns, hns, rfl⟩ hb
  rw [(Path.written_through hslashes hns).parent?_eq] at hb
  obtain ⟨hne, hb⟩ := Option.ite_none_left_eq_some.mp hb
  rw [if_neg hne] at hb
  exact ⟨hname, hslashes, ns.dropLast, fun n hn => hns n (List.dropLast_subset ns hn),
    (Option.some.inj hb).symm⟩

/-- The directory of a file is spelled from the root on. -/
theorem fromRoot_of_directoryOf? (ht : t.Proper) (hfile : slashesOf file.chars = slashes)
    {directory : Path} (h : directoryOf? t file = some directory) {name : String} (hname : IsName name) :
    FromRoot slashes name directory := by
  obtain ⟨whole, hwhole, hparent⟩ := directoryOf?_eq_some_iff.mp h
  obtain ⟨ns, tail, hwritten⟩ := FileTree.exists_written_of_absolute? ht hwhole
  rw [hfile] at hwritten
  rw [hwritten.parent?_eq] at hparent
  obtain ⟨-, hparent⟩ := Option.ite_none_left_eq_some.mp hparent
  exact ⟨hname, hwritten.slashes, ns.dropLast,
    fun n hn => hwritten.isPiece n (List.dropLast_subset ns hn), (Option.some.inj hparent).symm⟩

theorem fromRoot_resolve (ht : t.Proper) (hfile : slashesOf file.chars = slashes) :
    ∀ s ∈ (Query.resolve file).searches t, FromRoot slashes s.1 s.2 := by
  intro s hs
  obtain ⟨directory, hdirectory, hs'⟩ := List.mem_flatMap.mp hs
  have hfrom := fromRoot_of_directoryOf? ht hfile (Option.mem_toList.mp hdirectory)
    (isName_of_mem_searches (q := .resolve file) trivial hs)
  simp only [List.mem_cons, List.not_mem_nil, or_false] at hs'
  rcases hs' with rfl | rfl <;> exact hfrom

theorem fromRoot_isIgnored (ht : t.Proper) (hfile : slashesOf file.chars = slashes) :
    ∀ s ∈ (Query.isIgnored file).searches t, FromRoot slashes s.1 s.2 := by
  intro s hs
  obtain ⟨directory, hdirectory, rfl⟩ := List.mem_map.mp hs
  exact fromRoot_of_directoryOf? ht hfile (Option.mem_toList.mp hdirectory) isName_ignoreFile

/-! ### One query after another -/

/-- A loader that remembers what it would find in directories spelled from the root on, has a certain
home directory and did not break down. -/
structure Sound (t : FileTree) (slashes : List Char) (home : Option Path) (l : Loader) : Prop where
  faithful : Faithful t (FromRoot slashes) l
  home : l.home = home
  running : l.halted = false

theorem sound_withHome (t : FileTree) (slashes : List Char) (home : Option Path) :
    Sound t slashes home (withHome home) :=
  ⟨faithful_withHome home, rfl, rfl⟩

theorem Sound.ask (h : Sound t slashes home l) (ht : t.Proper)
    (hq : ∀ s ∈ q.searches t, FromRoot slashes s.1 s.2) : Sound t slashes home (l.ask t q).2 := by
  obtain ⟨hfaithful, hhome⟩ := h.faithful.ask (uniform_fromRoot t slashes) hq
  exact ⟨hfaithful, hhome.trans h.home, ask_not_halted ht h.faithful (uniform_fromRoot t slashes)
    (fun ha hb _ hab => ha.eq hb hab) hq h.running⟩

theorem Sound.agrees (h : Sound t slashes home l) (h' : Sound t slashes home l') (ht : t.Proper)
    (hq : ∀ s ∈ q.searches t, FromRoot slashes s.1 s.2) : (l.ask t q).1.Agrees (l'.ask t q).1 :=
  ask_agrees ht h.faithful h'.faithful (uniform_fromRoot t slashes) (h.home.trans h'.home.symm) hq
    fun _ _ => ⟨(h.ask ht hq).running, (h'.ask ht hq).running⟩

end Loader

/-- What a linter is given depends on the options of a configuration and not on where they stand. -/
theorem Invocation.ofConfig_congr (program source : String) {c d : LintConfig} (h : c.Agrees d) :
    ofConfig program source c c.globals? = ofConfig program source d d.globals? := by
  simp only [ofConfig, LintConfig.globals?, h.options]

/-- A loader and programs are steady services for files whose paths begin with the same slashes. -/
theorem Services.steady_ofFiles {t : FileTree} (ht : t.Proper) (run : Runner) (programs : LinterPrograms)
    (slashes : List Char) (home : Option Path) :
    (Services.ofFiles t run programs).Steady (fun file => Path.slashesOf file.chars = slashes)
      (Loader.Sound t slashes home) where
  isIgnored {path _ _} hpath ha hb :=
    ha.agrees (q := .isIgnored path) hb ht (Loader.fromRoot_isIgnored ht hpath)
  resolve {path _ _} hpath ha hb :=
    ha.agrees (q := .resolve path) hb ht (Loader.fromRoot_resolve ht hpath)
  lint flavor source {c d _ _} h _ _ := by
    simp only [ofFiles, Invocation.ofConfig_congr (programs.get flavor) source h]
  good_isIgnored {path _} hpath ha :=
    ha.ask (q := .isIgnored path) ht (Loader.fromRoot_isIgnored ht hpath)
  good_resolve {path _} hpath ha :=
    ha.ask (q := .resolve path) ht (Loader.fromRoot_resolve ht hpath)
  good_lint _ _ _ _ _ ha := ha
  running ha := ha.running

end LintMargin
