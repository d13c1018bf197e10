import LintMargin.Proofs.Config.Detours
import LintMargin.Proofs.Config.Lookup
import LintMargin.Proofs.Config.Places

/-!
# Spellings with dots

A path may be spelled with `.` and `..` in it. Dots are dropped when it is made a path from the root, but
`..` stays, and rules see it. Where no file is found on a detour, the configuration is that of the normal
path; and where the ignore file is found behind the last `..`, or nowhere, so is the answer about ignoring.
-/

namespace LintMargin.Loader

open LintMargin.Path (IsName through rooted)
open FileTree (Fits lead lead_of_not_mem lead_concat_name)

variable {t : FileTree} {name : String} {file whole directory : Path} {home : Option Path}
  {slashes : List Char} {dirs : List (List Char)} {n : List Char}

/-! ### Configurations -/

theorem options_packageConfig? (t : FileTree) (path : Path) :
    (packageConfig? t path).map LintConfig.options =
      ((t.readText path).toOption.bind packageOptions?).map fun options =>
        (LintConfig.ofOptions options).options := by
  rw [packageConfig?_eq, Option.map_map]
  rfl

theorem options_loadOrEmpty (t : FileTree) (path : Option Path) :
    (loadOrEmpty t path).options =
      (path.bind fun p => (LintConfig.load t p).toOption.map LintConfig.options).getD [] := by
  cases path with
  | none => rfl
  | some path =>
      rw [loadOrEmpty, Option.bind_some]
      cases LintConfig.load t path <;> rfl

theorem options_resolveIn (t : FileTree) (directory : Path) (home : Option Path) :
    ((withHome home).resolveIn t directory).1.options =
      (((nearest t packageFile directory).bind (packageConfig? t)).map LintConfig.options).getD
        (loadOrEmpty t ((nearest t configFile directory).or (homeFile? t home))).options := by
  rw [resolveIn_withHome]
  cases (nearest t packageFile directory).bind (packageConfig? t) <;> rfl

/-- Chains of configurations that a search may find hold no path that is too long. -/
def ChainsFit (t : FileTree) (directory : Path) : Prop :=
  ∀ a ∈ directory.ancestors, LintConfig.ChainFits t (a.join configFile)

theorem Way.options_package_eq (h : Way t whole directory slashes dirs n)
    (hfits : SearchFits packageFile directory) (hfits' : SearchFits packageFile (rooted (lead [] dirs)))
    (hstraight : Straight t packageFile directory) :
    ((nearest t packageFile directory).bind (packageConfig? t)).map LintConfig.options =
      ((nearest t packageFile (rooted (lead [] dirs))).bind (packageConfig? t)).map
        LintConfig.options := by
  have htwin := h.twin isName_packageFile hfits hfits' hstraight
  generalize nearest t packageFile directory = v at htwin ⊢
  generalize nearest t packageFile (rooted (lead [] dirs)) = w at htwin ⊢
  cases htwin with
  | none => rfl
  | some hdirs hlength hlength' =>
      rw [Option.bind_some, Option.bind_some, options_packageConfig?, options_packageConfig?,
        h.readText_eq isName_packageFile hdirs hlength hlength']

theorem Way.options_project_eq (h : Way t whole directory slashes dirs n) (home : Option Path)
    (hfits : SearchFits configFile directory) (hfits' : SearchFits configFile (rooted (lead [] dirs)))
    (hchains : ChainsFit t directory) (hchains' : ChainsFit t (rooted (lead [] dirs)))
    (hstraight : Straight t configFile directory) :
    (loadOrEmpty t ((nearest t configFile directory).or home)).options =
      (loadOrEmpty t ((nearest t configFile (rooted (lead [] dirs))).or home)).options := by
  have htwin := h.twin isName_configFile hfits hfits' hstraight
  generalize hv : nearest t configFile directory = v at htwin ⊢
  generalize hw : nearest t configFile (rooted (lead [] dirs)) = w at htwin ⊢
  cases htwin with
  | none => rfl
  | some hdirs _ _ =>
      obtain ⟨a, ha, hpath⟩ := exists_of_nearest hv
      obtain ⟨a', ha', hpath'⟩ := exists_of_nearest hw
      obtain ⟨habsolute, habsolute'⟩ := h.isAbsolute_join hdirs configFile
      rw [Option.some_or, Option.some_or, options_loadOrEmpty, options_loadOrEmpty, Option.bind_some,
        Option.bind_some, LintConfig.load_congr_of_arrive (h.arrive_eq isName_configFile hdirs)
          habsolute habsolute' (hpath ▸ hchains a ha) (hpath' ▸ hchains' a' ha')]

theorem Way.options_resolveIn_eq (h : Way t whole directory slashes dirs n) (home : Option Path)
    (hfits : ∀ name ∈ [packageFile, configFile],
      SearchFits name directory ∧ SearchFits name (rooted (lead [] dirs)))
    (hchains : ChainsFit t directory) (hchains' : ChainsFit t (rooted (lead [] dirs)))
    (hpackage : Straight t packageFile directory)
    (hconfig : NoPackage t directory → Straight t configFile directory) :
    ((withHome home).resolveIn t directory).1.options =
      ((withHome home).resolveIn t (rooted (lead [] dirs))).1.options := by
  obtain ⟨hpackagefits, hpackagefits'⟩ := hfits packageFile (by simp)
  obtain ⟨hconfigfits, hconfigfits'⟩ := hfits configFile (by simp)
  rw [options_resolveIn, options_resolveIn, ← h.options_package_eq hpackagefits hpackagefits' hpackage]
  cases hnearest : (nearest t packageFile directory).bind (packageConfig? t) with
  | some config => rw [Option.map_some, Option.getD_some, Option.getD_some]
  | none =>
      rw [Option.map_none, Option.getD_none, Option.getD_none]
      exact h.options_project_eq _ hconfigfits hconfigfits' hchains hchains'
        (hconfig (noPackage_iff.mpr hnearest))

/-! ### Ignoring -/

/-- The answer about ignoring, by the rules in the nearest ignore file. -/
theorem isIgnored_of_nearest {a : Path} (hwhole : t.absolute? file = some whole)
    (hdirectory : whole.parent? = some directory)
    (hnearest : nearest t ignoreFile directory = some (a.join ignoreFile))
    (hparent : (a.join ignoreFile).parent? = some a) :
    ((withHome home).isIgnored t file).1 =
      ((rulesIn? t (a.join ignoreFile)).map fun rules => (⟨a, rules⟩ : Ignore.Rules).isIgnored whole).getD
        false := by
  have hread : ∀ rules, readRules t (a.join ignoreFile) = .ok rules ↔
      (rulesIn? t (a.join ignoreFile)).map (⟨a, ·⟩) = some rules := by
    intro rules
    rw [← readRules_of_parent? hparent]
    cases readRules t (a.join ignoreFile) <;> simp [Except.toOption]
  rw [Bool.eq_iff_iff, isIgnored_withHome hwhole hdirectory, hnearest]
  simp only [Option.some.injEq, exists_and_left, exists_eq_left', hread]
  cases rulesIn? t (a.join ignoreFile) <;> simp

theorem isIgnored_of_nearest_none (hwhole : t.absolute? file = some whole)
    (hdirectory : whole.parent? = some directory) (hnearest : nearest t ignoreFile directory = none) :
    ((withHome home).isIgnored t file).1 = false := by
  rw [← Bool.not_eq_true, isIgnored_withHome hwhole hdirectory, hnearest]
  rintro ⟨path, rules, hnone, -⟩
  cases hnone

/-- Rules judge the normal path as they do the spelling, if both go on alike behind their root. -/
theorem Way.rules_isIgnored_eq (h : Way t whole directory slashes dirs n) {found rest : List (List Char)}
    (hdirs : dirs = found ++ rest) (hrest : ['.', '.'] ∉ rest) (rules : List Ignore.Rule) :
    (⟨through slashes found, rules⟩ : Ignore.Rules).isIgnored whole =
      (⟨rooted (lead [] found), rules⟩ : Ignore.Rules).isIgnored (rooted (lead [] dirs ++ [n])) := by
  subst hdirs
  have hwritten := h.written
  have hnormal := h.normal.written
  have hbelow : lead [] (found ++ rest) ++ [n] = lead [] found ++ (rest ++ [n]) := by
    rw [FileTree.lead_append, lead_of_not_mem hrest, List.append_assoc]
  rw [List.append_assoc] at hwritten
  rw [hbelow] at hnormal ⊢
  obtain ⟨hstarts, hrelative⟩ := Ignore.Rules.relative_through
    (r := ⟨through slashes found, rules⟩) hwritten (by simp) rfl
  obtain ⟨hstarts', hrelative'⟩ := Ignore.Rules.relative_through
    (r := ⟨rooted (lead [] found), rules⟩) hnormal (by simp) (Path.through_slash _).symm
  exact Ignore.Rules.isIgnored_congr_relative rfl hstarts hstarts' (hrelative.trans hrelative'.symm)

theorem Way.isIgnored_eq (h : Way t whole directory slashes dirs n) (home : Option Path)
    (hwhole : t.absolute? file = some whole) (hfits : SearchFits ignoreFile directory)
    (hfits' : SearchFits ignoreFile (rooted (lead [] dirs)))
    (hbehind : Behind t ignoreFile whole directory) :
    ((withHome home).isIgnored t file).1 =
      ((withHome home).isIgnored t (rooted (lead [] dirs ++ [n]))).1 := by
  have htwin := h.twin isName_ignoreFile hfits hfits' (h.straight_of_behind hbehind)
  have hdirectory := h.parent?_whole
  have hwhole' := h.absolute?_normal
  have hdirectory' := h.normal.parent?_whole
  generalize hv : nearest t ignoreFile directory = v at htwin
  generalize hw : nearest t ignoreFile (rooted (lead [] dirs)) = w at htwin
  cases htwin with
  | none =>
      rw [isIgnored_of_nearest_none hwhole hdirectory hv,
        isIgnored_of_nearest_none hwhole' hdirectory' hw]
  | @some found rest hdirs hlength hlength' =>
      have hfound := h.isPiece_of_prefix (hdirs ▸ List.prefix_append found rest)
      have hthrough := Path.written_through h.written.slashes hfound
      have hrooted := Path.written_rooted (FileTree.isPiece_of_mem_lead hfound)
      have hparent := Path.parent?_join_name isName_ignoreFile (decide_eq_true hthrough.head?_eq)
        (hthrough.trimmed fun hnil => if_pos hnil)
      have hparent' := Path.parent?_join_name isName_ignoreFile (decide_eq_true hrooted.head?_eq)
        (hrooted.trimmed fun _ => rfl)
      rw [isIgnored_of_nearest hwhole hdirectory hv hparent,
        isIgnored_of_nearest hwhole' hdirectory' hw hparent', rulesIn?, rulesIn?,
        h.readText_eq isName_ignoreFile hdirs hlength hlength']
      exact congrArg (fun answer => Option.getD answer false) (Option.map_congr fun rules _ =>
        h.rules_isIgnored_eq hdirs (h.up_not_mem_of_behind hbehind hdirs hv) rules)

/-- A file that is not found on a detour lies in a directory above. -/
theorem Way.found_above {path : Path} (h : Way t whole directory slashes dirs n) (hname : IsName name)
    (hstraight : Straight t name directory) (hnearest : nearest t name directory = some path) :
    ∃ place, t.locate path = .ok (place ++ [name.toList]) ∧ place <+: t.placeOf whole := by
  have hexists : t.exists? path = true := List.find?_some hnearest
  obtain ⟨a, ha, rfl⟩ := exists_of_nearest hnearest
  have habove := hstraight a ha hnearest
  obtain ⟨ms, hms, rfl⟩ := h.mem_ancestors_iff.mp ha
  rw [h.placeOf_through hms, h.directory, h.placeOf_through List.prefix_rfl] at habove
  refine ⟨lead [] ms, ?_, ?_⟩
  · rw [FileTree.exists?, FileTree.node] at hexists
    cases hlocate : t.locate ((through slashes ms).join name) with
    | error e =>
        rw [hlocate] at hexists
        cases hexists
    | ok place =>
        have hjoined := written_join h.written.slashes (h.isPiece_of_prefix hms) hname
        have harrive := (FileTree.locate_of_fits (FileTree.fits_of_locate hlocate)).symm.trans hlocate
        rw [FileTree.arrive_written hjoined] at harrive
        split at harrive
        · cases harrive
        · rw [FileTree.eq_lead_of_follow_names hjoined.isPiece harrive,
            lead_concat_name (ne_up_of_isName hname)]
  · rw [h.placeOf_whole]
    exact habove.trans (List.prefix_append _ _)

/-- The normal path leads to the same file. -/
theorem Way.node_normal (h : Way t whole directory slashes dirs n) (hfits : Fits whole)
    (hfits' : Fits (rooted (t.placeOf whole))) : t.node whole = t.node (rooted (t.placeOf whole)) := by
  have hnormal := h.normal.written
  rw [h.placeOf_whole] at hfits' ⊢
  rw [← lead_concat_name h.name_ne] at hnormal hfits' ⊢
  exact FileTree.node_of_arrive hfits hfits'
    (FileTree.arrive_lead h.written hnormal (h.passable.concat_name h.name_ne))

/-! ### Any loader -/

section

variable (ht : t.Proper) (l : Loader) {queries : List Query} (hnamed : ∀ r ∈ queries, r.Named)
  (hfits : ∀ r ∈ queries, r.Fits t)

include ht hnamed hfits

/-- What a loader was asked before does not show in its reply. -/
theorem asked_agrees {q : Query} (hq : q.Named) (hqfits : q.Fits t)
    (hhalted : ∀ file, q = .isIgnored file → ((l.forget.asked t queries).ask t q).2.halted = false) :
    ((l.forget.asked t queries).ask t q).1.Agrees ((withHome l.home).ask t q).1 := by
  have hF : Uniform t (LookedFor t (q :: queries)) :=
    uniform_lookedFor (List.forall_mem_cons.mpr ⟨hq, hnamed⟩) (List.forall_mem_cons.mpr ⟨hqfits, hfits⟩)
  have hlooked : ∀ r ∈ q :: queries, ∀ s ∈ r.searches t, LookedFor t (q :: queries) s.1 s.2 :=
    fun r hr s hs => ⟨r, hr, s.2, hs, Path.mem_ancestors_self s.2⟩
  have hforgot : Faithful t (LookedFor t (q :: queries)) l.forget := faithful_withHome l.home
  obtain ⟨hasked, hhome⟩ := hforgot.asked hF fun r hr => hlooked r (List.mem_cons_of_mem q hr)
  exact ask_agrees ht hasked (faithful_withHome l.home) hF hhome (hlooked q List.mem_cons_self)
    fun file hfile => ⟨hhalted file hfile, ask_withHome_not_halted ht l.home q⟩

theorem options_resolve_asked (hfile : (Query.resolve file).Fits t) :
    ((l.forget.asked t queries).resolve t file).1.options =
      ((withHome l.home).resolve t file).1.options :=
  (asked_agrees (q := .resolve file) ht l hnamed hfits trivial hfile fun _ h => nomatch h).options

theorem isIgnored_asked (hfile : (Query.isIgnored file).Fits t)
    (hhalted : ((l.forget.asked t queries).isIgnored t file).2.halted = false) :
    ((l.forget.asked t queries).isIgnored t file).1 = ((withHome l.home).isIgnored t file).1 :=
  asked_agrees (q := .isIgnored file) ht l hnamed hfits trivial hfile fun _ h => by
    cases h
    exact hhalted

end

theorem resolve_of_directoryOf? (hof : directoryOf? t file = some directory) (l : Loader) :
    l.resolve t file = l.resolveIn t directory := by
  rw [resolve, hof]

theorem searchFits_of_resolve (hof : directoryOf? t file = some directory)
    (h : (Query.resolve file).Fits t) :
    (∀ name ∈ [packageFile, configFile], SearchFits name directory) ∧ ChainsFit t directory := by
  rw [Query.Fits, searches_resolve hof] at h
  refine ⟨fun name hname a ha => ?_, fun a ha => (h (configFile, directory) (by simp) a ha).2 rfl⟩
  exact (h (name, directory) (by simpa using hname) a ha).1

theorem searchFits_of_isIgnored (hof : directoryOf? t file = some directory)
    (h : (Query.isIgnored file).Fits t) : SearchFits ignoreFile directory := by
  rw [Query.Fits, searches_isIgnored hof] at h
  exact fun a ha => (h (ignoreFile, directory) (by simp) a ha).1

/-- How a file is spelled shows only where the spelling makes a detour. Its normal path leads to the same
file. If the package file, and the configuration where that one has no options, are not found on a detour,
the options are those of the normal path; if the ignore file is not found on a detour, rules ignore the file
only if they stand in a directory above it; and if it is found behind the last `..`, or nowhere, the answer
about ignoring is that of the normal path. A spelling without `..` makes no detours. The loaders may have
been asked anything before, as long as no path that they look at is too long, and the rules may not break
down. -/
theorem spelling_unseen (ht : t.Proper) (hwhole : t.absolute? file = some whole)
    (hdirectory : whole.parent? = some directory) (hspells : t.Spells whole) (l : Loader)
    (before after : List Query) (hnamed : ∀ r ∈ before ++ after, r.Named)
    (hfits : ∀ r ∈ before ++ after ++ [.resolve file, .isIgnored file,
      .resolve (rooted (t.placeOf whole)), .isIgnored (rooted (t.placeOf whole))], r.Fits t) :
    let normal := rooted (t.placeOf whole)
    let loader := l.forget.asked t before
    let other := l.forget.asked t after
    (Fits whole → Fits normal → t.node whole = t.node normal) ∧
    (Straight t packageFile directory → (NoPackage t directory → Straight t configFile directory) →
      (loader.resolve t file).1.options = (other.resolve t normal).1.options) ∧
    ((loader.isIgnored t file).2.halted = false →
      (Straight t ignoreFile directory → (loader.isIgnored t file).1 = true →
        ∃ path place, nearest t ignoreFile directory = some path ∧
          t.locate path = .ok (place ++ [ignoreFile.toList]) ∧ place <+: t.placeOf whole) ∧
      (Behind t ignoreFile whole directory → (other.isIgnored t normal).2.halted = false →
        (loader.isIgnored t file).1 = (other.isIgnored t normal).1)) ∧
    (.parent ∉ whole.components → ∀ name, Straight t name directory ∧ Behind t name whole directory) := by
  obtain ⟨slashes, dirs, n, h⟩ := exists_way ht hwhole hdirectory hspells
  have hof : directoryOf? t file = some directory :=
    directoryOf?_eq_some_iff.mpr ⟨whole, hwhole, hdirectory⟩
  have hof' : directoryOf? t (rooted (t.placeOf whole)) = some (rooted (lead [] dirs)) := by
    rw [h.placeOf_whole]
    exact directoryOf?_eq_some_iff.mpr ⟨_, h.absolute?_normal, h.normal.parent?_whole⟩
  simp only [List.forall_mem_append, List.forall_mem_cons] at hnamed hfits
  obtain ⟨hnamed, hnamed'⟩ := hnamed
  obtain ⟨⟨hfits, hfits'⟩, hresolve, hignored, hresolve', hignored', -⟩ := hfits
  refine ⟨h.node_normal, fun hpackage hconfig => ?_, fun hhalted => ?_, fun hup name =>
    ⟨h.straight_of_behind (behind_of_not_mem hup name), behind_of_not_mem hup name⟩⟩
  · obtain ⟨hsearch, hchains⟩ := searchFits_of_resolve hof hresolve
    obtain ⟨hsearch', hchains'⟩ := searchFits_of_resolve hof' hresolve'
    rw [options_resolve_asked ht l hnamed hfits hresolve,
      options_resolve_asked ht l hnamed' hfits' hresolve', resolve_of_directoryOf? hof,
      resolve_of_directoryOf? hof']
    exact h.options_resolveIn_eq l.home (fun name hname => ⟨hsearch name hname, hsearch' name hname⟩)
      hchains hchains' hpackage hconfig
  · rw [isIgnored_asked ht l hnamed hfits hignored hhalted]
    refine ⟨fun hstraight hignores => ?_, fun hbehind hhalted' => ?_⟩
    · obtain ⟨path, rules, hnearest, -, -⟩ := (isIgnored_withHome hwhole hdirectory).mp hignores
      obtain ⟨place, hlocate, habove⟩ := h.found_above isName_ignoreFile hstraight hnearest
      exact ⟨path, place, hnearest, hlocate, habove⟩
    · rw [isIgnored_asked ht l hnamed' hfits' hignored' hhalted', h.placeOf_whole]
      exact h.isIgnored_eq l.home hwhole (searchFits_of_isIgnored hof hignored)
        (searchFits_of_isIgnored hof' hignored') hbehind

/-- A configuration and an ignore file beside a directory. -/
def besides : FileTree :=
  ((((FileTree.bare [['w']]).write ⟨".jshintrc"⟩
    (.file (Text.Utf8.encode "\x7b\"eqeqeq\":true\x7d"))).write ⟨".jshintignore"⟩
      (.file (Text.Utf8.encode "/a.js"))).write ⟨"a.js"⟩ (.file [])).write ⟨"sub/b.js"⟩ (.file [])

theorem spelling_unseen_besides :
    let loader := (withHome none).forget.asked besides [.isIgnored ⟨"sub//b.js"⟩]
    let other := (withHome none).forget.asked besides [.findFile ".jshintrc" ⟨"sub"⟩]
    (loader.resolve besides ⟨"sub/./../a.js"⟩).1.options = (other.resolve besides ⟨"/w/a.js"⟩).1.options ∧
      (loader.isIgnored besides ⟨"sub/./../a.js"⟩).1 = (other.isIgnored besides ⟨"/w/a.js"⟩).1 := by
  have hwhole : besides.absolute? ⟨"sub/./../a.js"⟩ = some ⟨"/w/sub/../a.js"⟩ := by decide +kernel
  have hdirectory : (⟨"/w/sub/../a.js"⟩ : Path).parent? = some ⟨"/w/sub/.."⟩ := by decide +kernel
  have hunseen := spelling_unseen (by decide +kernel) hwhole hdirectory (by decide +kernel)
    (withHome none) [.isIgnored ⟨"sub//b.js"⟩] [.findFile ".jshintrc" ⟨"sub"⟩] (by decide +kernel)
    (by decide +kernel)
  exact ⟨hunseen.2.1 (by decide +kernel) fun _ => by decide +kernel,
    (hunseen.2.2.1 (by decide +kernel)).2 (by decide +kernel) (by decide +kernel)⟩

/-- A configuration and an ignore file in a directory that is left again. -/
def detoured : FileTree :=
  (((FileTree.bare [['w']]).write ⟨"sub/.jshintrc"⟩
    (.file (Text.Utf8.encode "\x7b\"eqeqeq\":true\x7d"))).write ⟨"sub/.jshintignore"⟩
      (.file (Text.Utf8.encode "*.js"))).write ⟨"a.js"⟩ (.file [])

/-- A file is given the options of a directory that it does not lie in, and ignored for its rules. -/
theorem spelling_seen_on_detour :
    let spelled : Path := ⟨"sub/../a.js"⟩
    let whole : Path := ⟨"/w/sub/../a.js"⟩
    detoured.absolute? spelled = some whole ∧ detoured.Spells whole ∧
      rooted (detoured.placeOf whole) = ⟨"/w/a.js"⟩ ∧
      ((withHome none).isIgnored detoured spelled).1 = true ∧
      ((withHome none).isIgnored detoured ⟨"/w/a.js"⟩).1 = false ∧
      ((withHome none).resolve detoured spelled).1.isEmpty = false ∧
      ((withHome none).resolve detoured ⟨"/w/a.js"⟩).1.isEmpty = true := by
  decide +kernel

end LintMargin.Loader
