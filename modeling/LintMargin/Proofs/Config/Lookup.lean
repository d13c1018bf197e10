import LintMargin.Proofs.Config.Queries
import LintMargin.Proofs.Json.Members

/-!
# Where configurations come from

`Applies` are the rules by which the configuration of the files in a directory is found, with no regard to
what a loader remembers while it looks. A loader that has just been made follows them.
-/

namespace LintMargin.Loader

open LintMargin.Path (IsName)

variable {t : FileTree} {name : String} {file directory whole : Path} {home : Option Path}

/-! ### Rules -/

/-- A package file can be read, is a JSON object, and has its options as an object. -/
def HasOptions (t : FileTree) (path : Path) (options : Members) : Prop :=
  ∃ text members, t.readText path = .ok text ∧
    Json.Strict.read? (String.ofList text) = some (.object members) ∧
      Members.get? "jshintConfig" members = some (.object options)

/-- The nearest package file, if there is one, has no options. -/
def NoPackage (t : FileTree) (directory : Path) : Prop :=
  ∀ path options, nearest t packageFile directory = some path → ¬ HasOptions t path options

/-- The configurations of files in a directory. A package file without options lets the next rules apply,
but no other package file; a configuration file that cannot be loaded ends the search. -/
inductive Applies (t : FileTree) (home : Option Path) (directory : Path) : LintConfig → Prop where
  | package {path options} (hnearest : nearest t packageFile directory = some path)
      (hoptions : HasOptions t path options) :
      Applies t home directory ⟨options.erase "dirname", some path⟩
  | project {path config} (hpackage : NoPackage t directory)
      (hnearest : nearest t configFile directory = some path)
      (hload : LintConfig.load t path = .ok config) : Applies t home directory config
  | broken {path e} (hpackage : NoPackage t directory)
      (hnearest : nearest t configFile directory = some path)
      (hload : LintConfig.load t path = .error e) : Applies t home directory .empty
  | home {base config} (hpackage : NoPackage t directory)
      (hnone : nearest t configFile directory = none) (hhome : home = some base)
      (hfile : t.isFile (base.join configFile) = true)
      (hload : LintConfig.load t (base.join configFile) = .ok config) : Applies t home directory config
  | nothing (hpackage : NoPackage t directory) (hnone : nearest t configFile directory = none)
      (hhome : ∀ base config, home = some base → t.isFile (base.join configFile) = true →
        LintConfig.load t (base.join configFile) ≠ .ok config) : Applies t home directory .empty

/-! ### A loader that was just made -/

theorem isName_packageFile : IsName packageFile := by decide

theorem isName_configFile : IsName configFile := by decide

theorem answers_nearest (hname : IsName name) :
    Answers t (fun name a => IsName name ∧ a ∈ directory.ancestors) name directory
      (nearest t name directory) where
  same := .refl _
  origin p hp := by
    obtain ⟨a, ha, rfl⟩ := exists_of_nearest hp
    exact ⟨a, ⟨hname, ha⟩, rfl⟩

/-- Where every directory has one spelling, a search has one answer. -/
theorem Answers.eq_nearest {v : Option Path}
    (h : Answers t (fun name a => IsName name ∧ a ∈ directory.ancestors) name directory v)
    (hname : IsName name) : v = nearest t name directory := by
  rcases h.pair (uniform_above directory) (answers_nearest hname) with
    ⟨hv, hnone⟩ | ⟨a, b, ⟨-, ha⟩, ⟨-, hb⟩, hab, hv, hnearest⟩
  · rw [hv, hnone]
  · rw [hv, hnearest, Path.eq_of_mem_ancestors ha hb hab]

/-- The search for another name does not show. -/
theorem findFile_after_findFile (t : FileTree) (first second : String) (directory : Path)
    (home : Option Path) (hfirst : IsName first) (hsecond : IsName second) :
    (((withHome home).findFile t first directory).2.findFile t second directory).1 =
      nearest t second directory := by
  have hF := uniform_above (t := t) directory
  have hself := Path.mem_ancestors_self directory
  have hfaithful := ((faithful_withHome home).findFile hF ⟨hfirst, hself⟩).2
  exact (hfaithful.findFile hF ⟨hsecond, hself⟩).1.eq_nearest hsecond

/-- The configuration file in the home directory. -/
def homeFile? (t : FileTree) (home : Option Path) : Option Path :=
  (home.map (·.join configFile)).filter t.isFile

theorem homeConfig?_eq (t : FileTree) (l : Loader) : l.homeConfig? t = homeFile? t l.home := by
  rw [homeConfig?, homeFile?]
  cases l.home with
  | none => rfl
  | some base =>
      dsimp only [Option.map_some]
      split <;> simp_all [Option.filter]

/-- What is resolved, in terms of the nearest files. -/
theorem resolveIn_withHome (t : FileTree) (directory : Path) (home : Option Path) :
    ((withHome home).resolveIn t directory).1 =
      match (nearest t packageFile directory).bind (packageConfig? t) with
      | some config => config
      | none => loadOrEmpty t ((nearest t configFile directory).or (homeFile? t home)) := by
  have hconfig := findFile_after_findFile t packageFile configFile directory home isName_packageFile
    isName_configFile
  rw [resolveIn_eq]
  dsimp only
  rw [hconfig, findFile_withHome, homeConfig?_eq, findFile_home, findFile_home]
  cases (nearest t packageFile directory).bind (packageConfig? t) <;> rfl

theorem packageOptions?_eq_some_iff {text : List Char} {options : Members} :
    packageOptions? text = some options ↔
      ∃ members, Json.Strict.read? (String.ofList text) = some (.object members) ∧
        Members.get? "jshintConfig" members = some (.object options) := by
  unfold packageOptions?
  split
  · next members hread =>
      simp only [hread, Option.some.injEq, Json.object.injEq, exists_eq_left', Option.bind_eq_some_iff]
      constructor
      · rintro ⟨value, hvalue, hobject⟩
        rw [hvalue, Json.eq_object_of_object? hobject]
      · intro hvalue
        exact ⟨_, hvalue, rfl⟩
  · next hother =>
      simp only [reduceCtorEq, false_iff]
      rintro ⟨members, hread, -⟩
      exact hother members hread

theorem hasOptions_iff {path : Path} {options : Members} :
    HasOptions t path options ↔ (t.readText path).toOption.bind packageOptions? = some options := by
  unfold HasOptions
  cases t.readText path with
  | error cause => simp [Except.toOption]
  | ok text => simp [Except.toOption, packageOptions?_eq_some_iff]

theorem packageConfig?_eq_some_iff {path : Path} {config : LintConfig} :
    packageConfig? t path = some config ↔
      ∃ options, HasOptions t path options ∧ config = ⟨options.erase "dirname", some path⟩ := by
  simp only [packageConfig?_eq, Option.map_eq_some_iff, hasOptions_iff, eq_comm (a := config)]
  rfl

theorem noPackage_iff :
    NoPackage t directory ↔ (nearest t packageFile directory).bind (packageConfig? t) = none := by
  simp only [NoPackage, Option.eq_none_iff_forall_ne_some, ne_eq, Option.bind_eq_some_iff,
    packageConfig?_eq_some_iff]
  constructor
  · rintro hnone config ⟨path, hpath, options, hoptions, -⟩
    exact hnone path options hpath hoptions
  · intro hnone path options hpath hoptions
    exact hnone _ ⟨path, hpath, options, hoptions, rfl⟩

theorem homeFile?_eq_some_iff {path : Path} :
    homeFile? t home = some path ↔
      ∃ base, home = some base ∧ base.join configFile = path ∧ t.isFile path = true := by
  simp only [homeFile?, Option.filter_eq_some_iff, Option.map_eq_some_iff]
  constructor
  · rintro ⟨⟨base, hbase, hpath⟩, hfile⟩
    exact ⟨base, hbase, hpath, hfile⟩
  · rintro ⟨base, hbase, hpath, hfile⟩
    exact ⟨⟨base, hbase, hpath⟩, hfile⟩

/-- The rules lead to what is resolved. -/
theorem Applies.resolveIn_eq {config : LintConfig} (h : Applies t home directory config) :
    ((withHome home).resolveIn t directory).1 = config := by
  rw [resolveIn_withHome]
  cases h with
  | package hnearest hoptions =>
      rw [hnearest, Option.bind_some, packageConfig?_eq_some_iff.mpr ⟨_, hoptions, rfl⟩]
  | project hpackage hnearest hload =>
      rw [noPackage_iff.mp hpackage, hnearest]
      simp only [Option.some_or, loadOrEmpty, hload]
  | broken hpackage hnearest hload =>
      rw [noPackage_iff.mp hpackage, hnearest]
      simp only [Option.some_or, loadOrEmpty, hload]
  | home hpackage hnone hhome hfile hload =>
      have hfound := homeFile?_eq_some_iff.mpr ⟨_, hhome, rfl, hfile⟩
      rw [noPackage_iff.mp hpackage, hnone]
      simp only [Option.none_or, hfound, loadOrEmpty, hload]
  | nothing hpackage hnone hhome =>
      rw [noPackage_iff.mp hpackage, hnone]
      simp only [Option.none_or]
      cases hfound : homeFile? t home with
      | none => rfl
      | some path =>
          obtain ⟨base, hbase, rfl, hfile⟩ := homeFile?_eq_some_iff.mp hfound
          rw [loadOrEmpty]
          split
          · next config hload => exact absurd hload (hhome base config hbase hfile)
          · rfl

/-- Some rule applies. -/
theorem exists_applies (t : FileTree) (home : Option Path) (directory : Path) :
    ∃ config, Applies t home directory config := by
  by_cases hpackage : NoPackage t directory
  · cases hnearest : nearest t configFile directory with
    | some path =>
        cases hload : LintConfig.load t path with
        | ok config => exact ⟨config, .project hpackage hnearest hload⟩
        | error e => exact ⟨.empty, .broken hpackage hnearest hload⟩
    | none =>
        by_cases hhome : ∃ base config, home = some base ∧ t.isFile (base.join configFile) = true ∧
            LintConfig.load t (base.join configFile) = .ok config
        · obtain ⟨base, config, hbase, hfile, hload⟩ := hhome
          exact ⟨config, .home hpackage hnearest hbase hfile hload⟩
        · exact ⟨.empty, .nothing hpackage hnearest fun base config hbase hfile hload =>
            hhome ⟨base, config, hbase, hfile, hload⟩⟩
  · simp only [NoPackage, not_forall, not_not] at hpackage
    obtain ⟨path, options, hnearest, hoptions⟩ := hpackage
    exact ⟨_, .package hnearest hoptions⟩

theorem applies_iff {config : LintConfig} :
    Applies t home directory config ↔ ((withHome home).resolveIn t directory).1 = config := by
  refine ⟨Applies.resolveIn_eq, ?_⟩
  rintro rfl
  obtain ⟨config, h⟩ := exists_applies t home directory
  rwa [h.resolveIn_eq]

/-- A configuration has been found if it comes from one of three files. -/
def Discovers (t : FileTree) (home : Option Path) (directory : Path) : Prop :=
  (∃ path options, nearest t packageFile directory = some path ∧ HasOptions t path options) ∨
  (∃ path config, nearest t configFile directory = some path ∧ LintConfig.load t path = .ok config) ∨
  nearest t configFile directory = none ∧
    ∃ base config, home = some base ∧ t.isFile (base.join configFile) = true ∧
      LintConfig.load t (base.join configFile) = .ok config

theorem Applies.isDiscovered_iff {config : LintConfig} (h : Applies t home directory config) :
    config.isDiscovered = true ↔ Discovers t home directory := by
  have hloaded : ∀ {path config}, LintConfig.load t path = .ok config → config.isDiscovered = true := by
    intro path config hload
    rw [LintConfig.isDiscovered, source_of_load hload]
    rfl
  cases h with
  | package hnearest hoptions => exact iff_of_true rfl (.inl ⟨_, _, hnearest, hoptions⟩)
  | project hpackage hnearest hload =>
      exact iff_of_true (hloaded hload) (.inr (.inl ⟨_, _, hnearest, hload⟩))
  | broken hpackage hnearest hload =>
      refine iff_of_false Bool.false_ne_true ?_
      rintro (⟨path, options, hpath, hoptions⟩ | ⟨path, config, hpath, hconfig⟩ | ⟨hnone, -⟩)
      · exact hpackage path options hpath hoptions
      · obtain rfl := Option.some.inj (hnearest.symm.trans hpath)
        cases hload.symm.trans hconfig
      · cases hnearest.symm.trans hnone
  | home hpackage hnone hhome hfile hload =>
      exact iff_of_true (hloaded hload) (.inr (.inr ⟨hnone, _, _, hhome, hfile, hload⟩))
  | nothing hpackage hnone hhome =>
      refine iff_of_false Bool.false_ne_true ?_
      rintro (⟨path, options, hpath, hoptions⟩ | ⟨path, config, hpath, -⟩ |
        ⟨-, base, config, hbase, hfile, hload⟩)
      · exact hpackage path options hpath hoptions
      · cases hnone.symm.trans hpath
      · exact hhome base config hbase hfile hload

/-! ### Ignoring -/

/-- What is ignored, in terms of the nearest ignore file. -/
theorem isIgnored_withHome (hwhole : t.absolute? file = some whole)
    (hdirectory : whole.parent? = some directory) :
    ((withHome home).isIgnored t file).1 = true ↔
      ∃ path rules, nearest t ignoreFile directory = some path ∧ readRules t path = .ok rules ∧
        rules.isIgnored whole = true := by
  have hof : directoryOf? t file = some directory := by rw [directoryOf?, hwhole]; exact hdirectory
  have hfound := findFile_withHome t ignoreFile directory home
  rw [isIgnored, hof]
  dsimp only
  have hignores : ((withHome home).findFile t ignoreFile directory).2.ignores = [] := rfl
  generalize (withHome home).findFile t ignoreFile directory = found at hfound hignores ⊢
  obtain ⟨v, l⟩ := found
  dsimp only at hfound hignores
  rw [← hfound]
  cases v with
  | none => simp
  | some path =>
      simp only [rulesAt, hignores, List.lookup_nil, Option.some.injEq, exists_and_left,
        exists_eq_left', hwhole, Option.getD_some]
      cases readRules t path <;> simp

/-- A loader that was just made resolves the configuration of a file by the rules, in the directories
above the file as it is spelled from the root; without such a directory it finds nothing. What it finds
counts as discovered if it comes from a file, and a file is ignored if the rules in the nearest ignore
file, as far as that one can be used, say so. -/
theorem resolve_in_order (t : FileTree) (home : Option Path) (file : Path) :
    ((t.absolute? file).bind Path.parent? = none →
      ((withHome home).resolve t file).1 = .empty ∧ ((withHome home).isIgnored t file).1 = false) ∧
    ∀ whole directory, t.absolute? file = some whole → whole.parent? = some directory →
      (∀ config, Applies t home directory config ↔ ((withHome home).resolve t file).1 = config) ∧
      (((withHome home).resolve t file).1.isDiscovered = true ↔ Discovers t home directory) ∧
      (((withHome home).isIgnored t file).1 = true ↔
        ∃ path rules, nearest t ignoreFile directory = some path ∧ readRules t path = .ok rules ∧
          rules.isIgnored whole = true) := by
  constructor
  · intro hnone
    change directoryOf? t file = none at hnone
    rw [resolve, isIgnored, hnone]
    exact ⟨rfl, rfl⟩
  · intro whole directory hwhole hdirectory
    have hof : directoryOf? t file = some directory :=
      directoryOf?_eq_some_iff.mpr ⟨whole, hwhole, hdirectory⟩
    have hresolve : ((withHome home).resolve t file).1 = ((withHome home).resolveIn t directory).1 := by
      rw [resolve, hof]
    rw [hresolve]
    exact ⟨fun config => applies_iff, (applies_iff.mpr rfl).isDiscovered_iff,
      isIgnored_withHome hwhole hdirectory⟩

/-- Options in a package file, and an ignore file beside it. -/
def packaged : FileTree :=
  ((FileTree.bare [['w']]).write ⟨"package.json"⟩
    (.file (Text.Utf8.encode "\x7b\"jshintConfig\":\x7b\"undef\":true\x7d\x7d"))).write ⟨".jshintignore"⟩
      (.file (Text.Utf8.encode "src/"))

theorem resolve_in_order_packaged :
    (∃ config, Applies packaged none ⟨"/w/src"⟩ config ∧ config.isDiscovered = true) ∧
    (∃ path rules, nearest packaged ignoreFile ⟨"/w/src"⟩ = some path ∧
      readRules packaged path = .ok rules ∧ rules.isIgnored ⟨"/w/src/a.js"⟩ = true) := by
  have hwhole : packaged.absolute? ⟨"src/a.js"⟩ = some ⟨"/w/src/a.js"⟩ := by decide +kernel
  have hdirectory : (⟨"/w/src/a.js"⟩ : Path).parent? = some ⟨"/w/src"⟩ := by decide +kernel
  obtain ⟨happlies, -, hignored⟩ :=
    (resolve_in_order packaged none ⟨"src/a.js"⟩).2 ⟨"/w/src/a.js"⟩ ⟨"/w/src"⟩ hwhole hdirectory
  exact ⟨⟨_, (happlies _).mpr rfl, by decide +kernel⟩, hignored.mp (by decide +kernel)⟩

end LintMargin.Loader
