import LintMargin.Proofs.Config.Memory
import Mathlib.Data.String.Basic

/-!
# Sequences of queries

A loader may be asked for a file by name, for a configuration, or whether a file is ignored. What it
remembers of earlier queries does not show in its replies, as long as no path that it looks at is too long
as it is spelled, and directories with ignore files are always spelled alike.
-/

namespace LintMargin.Loader

open LintMargin.Path (IsName)

inductive Query where
  | findFile (name : String) (directory : Path)
  | resolve (file : Path)
  | isIgnored (file : Path)

inductive Reply where
  | found (path : Option Path)
  | config (c : LintConfig)
  | ignored (b : Bool)

/-- The reply to a query, and the loader that remembers it. -/
def ask (t : FileTree) (q : Query) (l : Loader) : Reply × Loader :=
  match q with
  | .findFile name directory => (l.findFile t name directory).map .found id
  | .resolve file => (l.resolve t file).map .config id
  | .isIgnored file => (l.isIgnored t file).map .ignored id

/-- The loader after some queries. -/
def asked (t : FileTree) (queries : List Query) (l : Loader) : Loader :=
  queries.foldl (fun l q => (l.ask t q).2) l

/-- Replies that differ at most in the spelling of paths. -/
def Reply.Agrees : Reply → Reply → Prop
  | .found v, .found w => Same v w
  | .config c, .config d => c.Agrees d
  | .ignored b, .ignored b' => b = b'
  | _, _ => False

/-! ### What queries look at -/

/-- The names that a query looks for, and the directories where it starts to. -/
def Query.searches (t : FileTree) : Query → List (String × Path)
  | .findFile name directory => [(name, directory)]
  | .resolve file =>
    (directoryOf? t file).toList.flatMap fun directory =>
      [(packageFile, directory), (configFile, directory)]
  | .isIgnored file => (directoryOf? t file).toList.map fun directory => (ignoreFile, directory)

/-- A file is looked for by its name only. -/
def Query.Named : Query → Prop
  | .findFile name _ => IsName name
  | _ => True

/-- No path that a query may look at is too long, those on chains of configurations included. -/
def Query.Fits (t : FileTree) (q : Query) : Prop :=
  ∀ s ∈ q.searches t, ∀ a ∈ s.2.ancestors, FileTree.Fits (a.join s.1) ∧
    (s.1 = configFile → LintConfig.ChainFits t (a.join s.1))

instance (q : Query) : Decidable q.Named :=
  match q with
  | .findFile name _ => inferInstanceAs (Decidable (IsName name))
  | .resolve _ => isTrue trivial
  | .isIgnored _ => isTrue trivial

instance (t : FileTree) (q : Query) : Decidable (q.Fits t) :=
  inferInstanceAs (Decidable (∀ s ∈ q.searches t, ∀ a ∈ s.2.ancestors, FileTree.Fits (a.join s.1) ∧
    (s.1 = configFile → LintConfig.ChainFits t (a.join s.1))))

/-- Whether some of the queries look for a name in a directory. -/
def LookedFor (t : FileTree) (queries : List Query) (name : String) (a : Path) : Prop :=
  ∃ q ∈ queries, ∃ directory, (name, directory) ∈ q.searches t ∧ a ∈ directory.ancestors

/-- Wherever the queries look for ignore files, they spell each directory that has one in one way. -/
def SpelledAlike (t : FileTree) (queries : List Query) : Prop :=
  ∀ a b, LookedFor t queries ignoreFile a → LookedFor t queries ignoreFile b →
    t.exists? (a.join ignoreFile) = true → a.components = b.components → a = b

variable {t : FileTree} {F : String → Path → Prop} {l l' : Loader} {q : Query} {queries : List Query}
  {file directory : Path}

/-- The directories where some of the queries look for a name. -/
def lookedIn (t : FileTree) (queries : List Query) (name : String) : List Path :=
  queries.flatMap fun q => (q.searches t).flatMap fun s => if s.1 = name then s.2.ancestors else []

theorem lookedFor_iff {name : String} {a : Path} :
    LookedFor t queries name a ↔ a ∈ lookedIn t queries name := by
  simp only [LookedFor, lookedIn, List.mem_flatMap, List.mem_ite_nil_right, Prod.exists]
  constructor
  · rintro ⟨q, hq, directory, hs, ha⟩
    exact ⟨q, hq, name, directory, hs, rfl, ha⟩
  · rintro ⟨q, hq, _, directory, hs, rfl, ha⟩
    exact ⟨q, hq, directory, hs, ha⟩

instance (t : FileTree) (queries : List Query) : Decidable (SpelledAlike t queries) :=
  decidable_of_iff (∀ a ∈ lookedIn t queries ignoreFile, ∀ b ∈ lookedIn t queries ignoreFile,
      t.exists? (a.join ignoreFile) = true → a.components = b.components → a = b) <| by
    simp only [SpelledAlike, lookedFor_iff]
    exact forall_congr' fun a => forall_comm

theorem directoryOf?_eq_some_iff :
    directoryOf? t file = some directory ↔
      ∃ whole, t.absolute? file = some whole ∧ whole.parent? = some directory :=
  Option.bind_eq_some_iff

theorem ask_findFile (t : FileTree) (name : String) (directory : Path) (l : Loader) :
    l.ask t (.findFile name directory) =
      (.found (l.findFile t name directory).1, (l.findFile t name directory).2) := rfl

theorem ask_resolve (h : directoryOf? t file = some directory) :
    l.ask t (.resolve file) = (.config (l.resolveIn t directory).1, (l.resolveIn t directory).2) := by
  rw [ask, resolve, h]
  rfl

theorem ask_resolve_of_none (h : directoryOf? t file = none) :
    l.ask t (.resolve file) = (.config .empty, l) := by
  rw [ask, resolve, h]
  rfl

theorem ask_isIgnored_of_none (h : directoryOf? t file = none) :
    l.ask t (.isIgnored file) = (.ignored false, l) := by
  rw [ask, isIgnored, h]
  rfl

theorem searches_resolve (h : directoryOf? t file = some directory) :
    (Query.resolve file).searches t = [(packageFile, directory), (configFile, directory)] := by
  rw [Query.searches, h]
  rfl

theorem searches_isIgnored (h : directoryOf? t file = some directory) :
    (Query.isIgnored file).searches t = [(ignoreFile, directory)] := by
  rw [Query.searches, h]
  rfl

/-- The names that a query looks for are names. -/
theorem isName_of_mem_searches (hq : q.Named) {s : String × Path} (hs : s ∈ q.searches t) :
    IsName s.1 := by
  cases q with
  | findFile name directory =>
      obtain rfl := List.mem_singleton.mp hs
      exact hq
  | resolve file =>
      obtain ⟨directory, -, hs⟩ := List.mem_flatMap.mp hs
      rcases List.mem_cons.mp hs with rfl | hs
      · exact (by decide : IsName packageFile)
      · obtain rfl := List.mem_singleton.mp hs
        exact (by decide : IsName configFile)
  | isIgnored file =>
      obtain ⟨directory, -, rfl⟩ := List.mem_map.mp hs
      exact isName_ignoreFile

/-- Spelling does not matter for queries that look at no path that is too long. -/
theorem uniform_lookedFor (hnamed : ∀ q ∈ queries, q.Named) (hfits : ∀ q ∈ queries, q.Fits t) :
    Uniform t (LookedFor t queries) where
  isName := by
    rintro name a ⟨q, hq, directory, hs, -⟩
    exact isName_of_mem_searches (hnamed q hq) hs
  parent := by
    rintro name a b ⟨q, hq, directory, hs, ha⟩ hb
    exact ⟨q, hq, directory, hs, Path.parent?_mem_ancestors ha hb⟩
  node := by
    rintro name a b ⟨q, hq, directory, hs, ha⟩ ⟨q', hq', directory', hs', hb⟩ h
    exact FileTree.node_congr (Path.alike_join h name) (hfits q hq _ hs a ha).1
      (hfits q' hq' _ hs' b hb).1
  load := by
    rintro a b ⟨q, hq, directory, hs, ha⟩ ⟨q', hq', directory', hs', hb⟩ h
    exact LintConfig.load_congr (Path.alike_join h configFile) ((hfits q hq _ hs a ha).2 rfl)
      ((hfits q' hq' _ hs' b hb).2 rfl)

/-! ### One query -/

/-- After a query the loader remembers what it would find, and has its home directory still. -/
theorem Faithful.ask (h : Faithful t F l) (hF : Uniform t F) (hq : ∀ s ∈ q.searches t, F s.1 s.2) :
    Faithful t F (l.ask t q).2 ∧ (l.ask t q).2.home = l.home := by
  cases q with
  | findFile name directory =>
      exact ⟨(h.findFile hF (hq _ (List.mem_singleton.mpr rfl))).2, rfl⟩
  | resolve file =>
      cases hdirectory : directoryOf? t file with
      | none =>
          rw [ask_resolve_of_none hdirectory]
          exact ⟨h, rfl⟩
      | some directory =>
          simp only [searches_resolve hdirectory, List.forall_mem_cons] at hq
          rw [ask_resolve hdirectory]
          exact ⟨h.resolveIn hF hq.1 hq.2.1, resolveIn_home t directory l⟩
  | isIgnored file =>
      cases hdirectory : directoryOf? t file with
      | none =>
          rw [ask_isIgnored_of_none hdirectory]
          exact ⟨h, rfl⟩
      | some directory =>
          simp only [searches_isIgnored hdirectory, List.forall_mem_singleton] at hq
          obtain ⟨whole, hwhole, hparent⟩ := directoryOf?_eq_some_iff.mp hdirectory
          obtain ⟨r, -, -, -, hhome, hfaithful⟩ := isIgnored_judged h hF hwhole hparent hq
          exact ⟨hfaithful, hhome⟩

/-- Two loaders that remember what they would find reply alike, as far as they do not break down. -/
theorem ask_agrees (ht : t.Proper) (h : Faithful t F l) (h' : Faithful t F l') (hF : Uniform t F)
    (hhome : l.home = l'.home) (hq : ∀ s ∈ q.searches t, F s.1 s.2)
    (hhalted : ∀ file, q = .isIgnored file →
      (l.ask t q).2.halted = false ∧ (l'.ask t q).2.halted = false) :
    (l.ask t q).1.Agrees (l'.ask t q).1 := by
  cases q with
  | findFile name directory =>
      have ha := hq _ (List.mem_singleton.mpr rfl)
      exact (h.findFile hF ha).1.same.trans (Eq.symm (h'.findFile hF ha).1.same)
  | resolve file =>
      cases hdirectory : directoryOf? t file with
      | none =>
          rw [ask_resolve_of_none hdirectory, ask_resolve_of_none hdirectory]
          exact LintConfig.Agrees.refl _
      | some directory =>
          simp only [searches_resolve hdirectory, List.forall_mem_cons] at hq
          rw [ask_resolve hdirectory, ask_resolve hdirectory]
          exact resolveIn_agrees h h' hF hhome hq.1 hq.2.1
  | isIgnored file =>
      cases hdirectory : directoryOf? t file with
      | none =>
          rw [ask_isIgnored_of_none hdirectory, ask_isIgnored_of_none hdirectory]
          rfl
      | some directory =>
          simp only [searches_isIgnored hdirectory, List.forall_mem_singleton] at hq
          obtain ⟨whole, hwhole, hparent⟩ := directoryOf?_eq_some_iff.mp hdirectory
          obtain ⟨ns, tail, hwritten⟩ := FileTree.exists_written_of_absolute? ht hwhole
          obtain ⟨r, hjudged, hr, hbroken, -⟩ := isIgnored_judged h hF hwhole hparent hq
          obtain ⟨r', hjudged', hr', hbroken', -⟩ := isIgnored_judged h' hF hwhole hparent hq
          obtain ⟨hnot, hnot'⟩ := hhalted file rfl
          change (l.isIgnored t file).2.halted = false at hnot
          change (l'.isIgnored t file).2.halted = false at hnot'
          rw [hbroken, Bool.or_eq_false_iff] at hnot
          rw [hbroken', Bool.or_eq_false_iff] at hnot'
          have hagree := hjudged.agree hF hjudged' (decide_eq_true hwritten.head?_eq) hparent hnot.2
            hnot'.2
          exact hr.trans (hagree.trans hr'.symm)

/-- Only queries about ignoring break anything down. -/
theorem halted_ask (t : FileTree) (l : Loader) (hq : ∀ file, q ≠ .isIgnored file) :
    (l.ask t q).2.halted = l.halted := by
  cases q with
  | findFile name directory => rfl
  | resolve file =>
      cases hdirectory : directoryOf? t file with
      | none => rw [ask_resolve_of_none hdirectory]
      | some directory =>
          rw [ask_resolve hdirectory]
          exact resolveIn_halted t directory l
  | isIgnored file => exact absurd rfl (hq file)

/-- A query breaks nothing down where directories with ignore files are spelled in one way. -/
theorem ask_not_halted (ht : t.Proper) (h : Faithful t F l) (hF : Uniform t F)
    (hunique : ∀ {a b}, F ignoreFile a → F ignoreFile b → t.exists? (a.join ignoreFile) = true →
      a.components = b.components → a = b)
    (hq : ∀ s ∈ q.searches t, F s.1 s.2) (hhalted : l.halted = false) :
    (l.ask t q).2.halted = false := by
  cases q with
  | findFile name directory => exact hhalted
  | resolve file => exact (halted_ask t l (by simp)).trans hhalted
  | isIgnored file =>
      cases hdirectory : directoryOf? t file with
      | none =>
          rw [ask_isIgnored_of_none hdirectory]
          exact hhalted
      | some directory =>
          simp only [searches_isIgnored hdirectory, List.forall_mem_singleton] at hq
          obtain ⟨whole, hwhole, hparent⟩ := directoryOf?_eq_some_iff.mp hdirectory
          obtain ⟨ns, tail, hwritten⟩ := FileTree.exists_written_of_absolute? ht hwhole
          obtain ⟨r, hjudged, -, hbroken, -⟩ := isIgnored_judged h hF hwhole hparent hq
          change (l.isIgnored t file).2.halted = false
          rw [hbroken, hhalted, hjudged.not_broken hF hunique hq hwritten hparent]
          rfl

/-- A loader that remembers nothing does not break down. -/
theorem ask_withHome_not_halted (ht : t.Proper) (home : Option Path) (q : Query) :
    ((withHome home).ask t q).2.halted = false := by
  cases q with
  | findFile name directory => rfl
  | resolve file => exact halted_ask t (withHome home) (by simp)
  | isIgnored file =>
      cases hdirectory : directoryOf? t file with
      | none =>
          rw [ask_isIgnored_of_none hdirectory]
          rfl
      | some directory =>
          obtain ⟨whole, hwhole, hparent⟩ := directoryOf?_eq_some_iff.mp hdirectory
          obtain ⟨ns, tail, hwritten⟩ := FileTree.exists_written_of_absolute? ht hwhole
          refine ask_not_halted ht (faithful_withHome home) (uniform_above directory)
            (fun ha hb _ => Path.eq_of_mem_ancestors ha.2 hb.2) ?_ rfl
          rw [searches_isIgnored hdirectory, List.forall_mem_singleton]
          exact ⟨isName_ignoreFile, Path.mem_ancestors_self directory⟩

/-! ### Sequences -/

theorem Faithful.asked (h : Faithful t F l) (hF : Uniform t F)
    (hq : ∀ q ∈ queries, ∀ s ∈ q.searches t, F s.1 s.2) :
    Faithful t F (l.asked t queries) ∧ (l.asked t queries).home = l.home := by
  induction queries generalizing l with
  | nil => exact ⟨h, rfl⟩
  | cons q rest ih =>
      obtain ⟨hq, hrest⟩ := List.forall_mem_cons.mp hq
      obtain ⟨hfirst, hhome⟩ := h.ask hF hq
      obtain ⟨hlast, hhome'⟩ := ih hfirst hrest
      exact ⟨hlast, hhome'.trans hhome⟩

theorem asked_singleton (t : FileTree) (q : Query) (l : Loader) : l.asked t [q] = (l.ask t q).2 := rfl

theorem asked_not_halted (ht : t.Proper) (h : Faithful t F l) (hF : Uniform t F)
    (hunique : ∀ {a b}, F ignoreFile a → F ignoreFile b → t.exists? (a.join ignoreFile) = true →
      a.components = b.components → a = b)
    (hq : ∀ q ∈ queries, ∀ s ∈ q.searches t, F s.1 s.2) (hhalted : l.halted = false) :
    (l.asked t queries).halted = false := by
  induction queries generalizing l with
  | nil => exact hhalted
  | cons q rest ih =>
      obtain ⟨hq, hrest⟩ := List.forall_mem_cons.mp hq
      exact ih (h.ask hF hq).1 hrest (ask_not_halted ht h hF hunique hq hhalted)

/-- The reply of a loader that has forgotten everything finds the nearest file. -/
theorem ask_findFile_withHome (t : FileTree) (home : Option Path) (name : String) (directory : Path) :
    ((withHome home).ask t (.findFile name directory)).1 = .found (nearest t name directory) := by
  rw [ask_findFile, findFile_withHome]

/-- What a loader remembers does not show. Whatever it was asked before it last forgot everything and
after, it replies as a loader that was not asked anything, but for the spelling of paths, and breaks down
no more than that one does; and where that one is asked for a file, it replies with the nearest one. It
takes that no path that the queries look at is too long; and for a reply about ignoring it takes that they
spell each directory with an ignore file in one way. -/
theorem memory_unseen (ht : t.Proper) (l : Loader) (before : List Query) (q : Query)
    (hnamed : ∀ r ∈ before ++ [q], r.Named) (hfits : ∀ r ∈ before ++ [q], r.Fits t)
    (hspelled : ∀ file, q = .isIgnored file → SpelledAlike t (before ++ [q])) :
    let asked := l.forget.asked t before
    let remembering := asked.ask t q
    let fresh := (withHome l.home).ask t q
    remembering.1.Agrees fresh.1 ∧
      remembering.2.halted = asked.halted ∧ fresh.2.halted = false ∧
      (SpelledAlike t (before ++ [q]) → remembering.2.halted = false) ∧
      ∀ name directory, q = .findFile name directory →
        fresh.1 = .found (nearest t name directory) := by
  intro asked remembering fresh
  have hF := uniform_lookedFor hnamed hfits
  have hlooked : ∀ r ∈ before ++ [q], ∀ s ∈ r.searches t, LookedFor t (before ++ [q]) s.1 s.2 :=
    fun r hr s hs => ⟨r, hr, s.2, hs, Path.mem_ancestors_self s.2⟩
  have hbefore := fun r hr => hlooked r (List.mem_append_left [q] hr)
  have hq := hlooked q (List.mem_append_right before (List.mem_singleton.mpr rfl))
  have hforgot : Faithful t (LookedFor t (before ++ [q])) l.forget := faithful_withHome l.home
  obtain ⟨hasked, hhome⟩ := hforgot.asked hF hbefore
  have hfresh : fresh.2.halted = false := ask_withHome_not_halted ht l.home q
  -- Once the queries spell directories alike, those before this one break nothing down either.
  have hrunning : SpelledAlike t (before ++ [q]) →
      asked.halted = false ∧ remembering.2.halted = false := by
    intro halike
    have hunique : ∀ {a b}, LookedFor t (before ++ [q]) ignoreFile a →
        LookedFor t (before ++ [q]) ignoreFile b → t.exists? (a.join ignoreFile) = true →
        a.components = b.components → a = b := fun ha hb => halike _ _ ha hb
    have hfirst := asked_not_halted ht hforgot hF hunique hbefore rfl
    exact ⟨hfirst, ask_not_halted ht hasked hF hunique hq hfirst⟩
  refine ⟨?agrees, ?kept, hfresh, fun halike => (hrunning halike).2, ?nearest⟩
  case agrees =>
      exact ask_agrees ht hasked (faithful_withHome l.home) hF hhome hq fun file hfile =>
        ⟨(hrunning (hspelled file hfile)).2, hfresh⟩
  case kept =>
      by_cases hignored : ∃ file, q = .isIgnored file
      · obtain ⟨file, hfile⟩ := hignored
        obtain ⟨hfirst, hlast⟩ := hrunning (hspelled file hfile)
        exact hlast.trans hfirst.symm
      · exact halted_ask t asked (not_exists.mp hignored)
  case nearest =>
      rintro name directory rfl
      exact ask_findFile_withHome t l.home name directory

/-- One file is ignored. -/
def ruled : FileTree :=
  (FileTree.bare [['w']]).write ⟨".jshintignore"⟩ (.file (Text.Utf8.encode "/a.js"))

/-- A directory without an ignore file may be spelled in several ways. -/
theorem memory_unseen_ruled :
    let before : List Query :=
      [.findFile ".jshintignore" ⟨"/w/./conf//"⟩, .isIgnored ⟨"conf/a.js"⟩, .resolve ⟨"/w/a.js"⟩]
    let asked := (withHome none).asked ruled before
    let ignored : Query := .isIgnored ⟨"a.js"⟩
    (asked.ask ruled ignored).1.Agrees ((withHome none).ask ruled ignored).1 ∧
      (asked.ask ruled ignored).2.halted = false := by
  intro before asked ignored
  have halike : SpelledAlike ruled (before ++ [ignored]) := by decide +kernel
  obtain ⟨hagrees, -, -, hrunning, -⟩ := memory_unseen (t := ruled) (by decide +kernel)
    (withHome none) before ignored (by decide +kernel) (by decide +kernel) fun _ _ => halike
  exact ⟨hagrees, hrunning halike⟩

/-! ### Two slashes -/

/-- Where a file is first asked about by a spelling that begins with two slashes, the rules that are
remembered speak of another spelling of the directory and break down at the file. -/
theorem memory_seen_after_two_slashes :
    let slashed : Query := .isIgnored ⟨"//w/a.js"⟩
    let plain : Query := .isIgnored ⟨"/w/a.js"⟩
    let asked := (withHome none).asked ruled [slashed]
    let fresh := (withHome none).ask ruled plain
    ruled.Proper ∧ (∀ q ∈ [slashed, plain], q.Named ∧ q.Fits ruled) ∧
      fresh.1 = .ignored true ∧ fresh.2.halted = false ∧
      asked.halted = false ∧ (asked.ask ruled plain).2.halted = true := by
  intro slashed plain asked fresh
  have hignored : ((withHome none).isIgnored ruled ⟨"/w/a.js"⟩).1 = true := by decide +kernel
  exact ⟨by decide +kernel, by decide +kernel, congrArg Reply.ignored hignored, by decide +kernel,
    by decide +kernel, by decide +kernel⟩

/-! ### A path that is too long -/

/-- A directory with slashes behind it. -/
def slashed (directory : Path) (n : Nat) : Path :=
  ⟨String.ofList (directory.chars ++ List.replicate n '/')⟩

theorem components_slashed {directory : Path} (h : directory.chars ≠ []) (n : Nat) :
    (slashed directory n).components = directory.components :=
  Path.components_slashes h n

/-- Slashes alone make a path too long. -/
theorem not_fits_slashed (directory : Path) {n : Nat} (hn : FileTree.longestPath < n) {name : String}
    (hname : IsName name) : ¬ FileTree.Fits ((slashed directory n).join name) := by
  have hslashes : (List.replicate n '/').Sublist ((slashed directory n).join name).text.toList := by
    have hbelow : (slashed directory n).chars.Sublist ((slashed directory n).join name).chars := by
      rw [Path.chars_join hname.head?_ne]
      split
      · next hnil =>
          rw [hnil]
          exact List.nil_sublist _
      · split <;> exact List.sublist_append_left _ _
    refine List.Sublist.trans ?_ hbelow
    rw [slashed, Path.chars, String.toList_ofList]
    exact List.sublist_append_right _ _
  have hlength : String.utf8Len (List.replicate n '/') = n := by
    clear hn hslashes
    induction n with
    | zero => rfl
    | succ n ih =>
        rw [List.replicate_succ, String.utf8Len_cons, ih]
        rfl
  have hsize := String.utf8Len_le_of_sublist hslashes
  rw [hlength, ← String.utf8ByteSize_ofList, String.ofList_toList] at hsize
  exact Nat.not_le.mpr (Nat.lt_of_lt_of_le hn hsize)

/-- No file but one. -/
def oneFile : FileTree := (FileTree.bare [['w']]).write ⟨"conf/names.txt"⟩ (.file [])

/-- A search by a spelling that is too long makes a loader miss a file that it would have found. -/
theorem ask_after_slashed {n : Nat} (hn : FileTree.longestPath < n) :
    let long : Query := .findFile "names.txt" (slashed ⟨"conf"⟩ n)
    let short : Query := .findFile "names.txt" ⟨"conf"⟩
    (((withHome none).asked oneFile [long]).ask oneFile short).1 = .found none ∧
      ((withHome none).ask oneFile short).1 = .found (some ⟨"conf/names.txt"⟩) := by
  have hname : IsName "names.txt" := by decide
  have hmissing : oneFile.exists? ((slashed ⟨"conf"⟩ n).join "names.txt") = false :=
    FileTree.exists?_of_not_fits (not_fits_slashed _ hn hname)
  have hcomponents : (slashed ⟨"conf"⟩ n).components = (⟨"conf"⟩ : Path).components :=
    components_slashed (by decide) n
  have hnearest : nearest oneFile "names.txt" (slashed ⟨"conf"⟩ n) = none := by
    rw [nearest_of_not_exists hmissing]
    cases hparent : (slashed ⟨"conf"⟩ n).parent? with
    | none => rfl
    | some above =>
        have habove : above.components = [] := by
          rw [Path.components_parent? hparent, hcomponents]
          rfl
        obtain rfl : above = ⟨""⟩ :=
          Path.chars_injective (Path.components_eq_nil_iff.mp habove)
        rfl
  have hlong := findFile_withHome oneFile "names.txt" (slashed ⟨"conf"⟩ n) none
  have hremembered := lookup_findFile oneFile "names.txt" (slashed ⟨"conf"⟩ n) (withHome none)
  rw [hlong, hnearest, (Path.alike_join hcomponents "names.txt").components] at hremembered
  refine ⟨?_, ?_⟩
  · rw [asked_singleton, ask_findFile, ask_findFile, findFile_of_lookup hremembered]
  · rw [ask_findFile_withHome]
    rfl

end LintMargin.Loader
