import LintMargin.Proofs.Config.Search
import LintMargin.Proofs.Ignore.Judging

/-!
# What a loader remembers

What a loader remembers of a path is what a search from there would find, and the rules it remembers are
those in the file. Two such loaders answer alike, whatever each of them was asked before. Asking makes a
loader forget nothing.
-/

namespace LintMargin

/-- Configurations that differ at most in the spelling of their source. -/
structure LintConfig.Agrees (c d : LintConfig) : Prop where
  options : c.options = d.options
  source : c.source.map Path.components = d.source.map Path.components

theorem LintConfig.Agrees.refl (c : LintConfig) : c.Agrees c := ⟨rfl, rfl⟩

namespace Loader

open LintMargin.Path (IsName)

variable {t : FileTree} {F : String → Path → Prop} {l l' : Loader} {name : String} {a b : Path}

/-- What a loader remembers is what it would find. -/
structure Faithful (t : FileTree) (F : String → Path → Prop) (l : Loader) : Prop where
  found : Remembers t F l.found
  ignores : ∀ a rules, F ignoreFile a →
    l.ignores.lookup (a.join ignoreFile).components = some rules →
      ∃ b, F ignoreFile b ∧ b.components = a.components ∧
        readRules t (b.join ignoreFile) = .ok rules

theorem faithful_withHome (home : Option Path) : Faithful t F (withHome home) where
  found := remembers_nil
  ignores _ _ _ h := nomatch h

theorem Faithful.halt (h : Faithful t F l) (b : Bool) : Faithful t F { l with halted := b } :=
  ⟨h.found, h.ignores⟩

theorem Faithful.findFile (h : Faithful t F l) (hF : Uniform t F) (ha : F name a) :
    Answers t F name a (l.findFile t name a).1 ∧ Faithful t F (l.findFile t name a).2 := by
  obtain ⟨hanswers, hfound⟩ := findFile_answers hF h.found ha
  exact ⟨hanswers, hfound, h.ignores⟩

/-! ### Configurations -/

/-- The options in the text of a package file. -/
def packageOptions? (text : List Char) : Option Members :=
  match Json.Strict.read? (String.ofList text) with
  | some (.object members) => (Members.get? "jshintConfig" members).bind Json.object?
  | _ => none

theorem packageConfig?_eq (t : FileTree) (path : Path) :
    packageConfig? t path = ((t.readText path).toOption.bind packageOptions?).map fun options =>
      (LintConfig.ofOptions options).withSource path := by
  unfold packageConfig? packageOptions?
  cases t.readText path with
  | error cause => rfl
  | ok text =>
      simp only [Except.toOption, Option.bind_some]
      cases Json.Strict.read? (String.ofList text) with
      | none => rfl
      | some value =>
          cases value with
          | object members =>
              dsimp only
              cases Members.get? "jshintConfig" members with
              | none => rfl
              | some inner => cases inner <;> rfl
          | _ => rfl

/-- Both are none, or they agree. -/
inductive BothAgree : Option LintConfig → Option LintConfig → Prop
  | none : BothAgree none none
  | some {c d : LintConfig} (h : c.Agrees d) : BothAgree (some c) (some d)

theorem packageConfig?_agrees (hF : Uniform t F) (ha : F packageFile a) (hb : F packageFile b)
    (h : a.components = b.components) :
    BothAgree (packageConfig? t (a.join packageFile)) (packageConfig? t (b.join packageFile)) := by
  rw [packageConfig?_eq, packageConfig?_eq, FileTree.readText_congr (hF.node ha hb h)]
  cases (t.readText (b.join packageFile)).toOption.bind packageOptions? with
  | none => exact .none
  | some options => exact .some ⟨rfl, same_join h packageFile⟩

theorem source_of_load {path : Path} {c : LintConfig} (h : LintConfig.load t path = .ok c) :
    c.source = some path := by
  unfold LintConfig.load at h
  cases hread : LintConfig.readChain t [] LintConfig.maxFiles path with
  | error e =>
      rw [hread] at h
      cases h
  | ok options =>
      rw [hread] at h
      obtain rfl := Except.ok.inj h
      rfl

theorem loadOrEmpty_agrees {p q : Path} (h : p.components = q.components)
    (hload : (LintConfig.load t p).toOption.map LintConfig.options =
      (LintConfig.load t q).toOption.map LintConfig.options) :
    (loadOrEmpty t (some p)).Agrees (loadOrEmpty t (some q)) := by
  rw [loadOrEmpty, loadOrEmpty]
  cases hp : LintConfig.load t p with
  | error e =>
      cases hq : LintConfig.load t q with
      | error e' => exact .refl _
      | ok d =>
          rw [hp, hq] at hload
          cases hload
  | ok c =>
      cases hq : LintConfig.load t q with
      | error e' =>
          rw [hp, hq] at hload
          cases hload
      | ok d =>
          rw [hp, hq] at hload
          refine ⟨Option.some.inj hload, ?_⟩
          rw [source_of_load hp, source_of_load hq]
          exact congrArg some h

/-- The loader after the search for a package file, and after that for a configuration. -/
theorem resolveIn_eq (t : FileTree) (directory : Path) (l : Loader) :
    l.resolveIn t directory =
      let first := l.findFile t packageFile directory
      let second := first.2.findFile t configFile directory
      match first.1.bind (packageConfig? t) with
      | some config => (config, first.2)
      | none => (loadOrEmpty t (second.1.or (second.2.homeConfig? t)), second.2) := rfl

theorem resolveIn_home (t : FileTree) (directory : Path) (l : Loader) :
    (l.resolveIn t directory).2.home = l.home := by
  rw [resolveIn_eq]
  dsimp only
  split <;> rfl

theorem resolveIn_halted (t : FileTree) (directory : Path) (l : Loader) :
    (l.resolveIn t directory).2.halted = l.halted := by
  rw [resolveIn_eq]
  dsimp only
  split <;> rfl

theorem Faithful.resolveIn (h : Faithful t F l) (hF : Uniform t F) (hpackage : F packageFile a)
    (hconfig : F configFile a) : Faithful t F (l.resolveIn t a).2 := by
  have hfirst := (h.findFile hF hpackage).2
  rw [resolveIn_eq]
  dsimp only
  split
  · exact hfirst
  · exact (hfirst.findFile hF hconfig).2

/-- Configurations do not depend on what else was remembered. -/
theorem resolveIn_agrees (h : Faithful t F l) (h' : Faithful t F l') (hF : Uniform t F)
    (hhome : l.home = l'.home) (hpackage : F packageFile a) (hconfig : F configFile a) :
    (l.resolveIn t a).1.Agrees (l'.resolveIn t a).1 := by
  obtain ⟨hv, hfirst⟩ := h.findFile hF hpackage
  obtain ⟨hv', hfirst'⟩ := h'.findFile hF hpackage
  have hboth : BothAgree ((l.findFile t packageFile a).1.bind (packageConfig? t))
      ((l'.findFile t packageFile a).1.bind (packageConfig? t)) := by
    rcases hv.pair hF hv' with ⟨hnone, hnone'⟩ | ⟨c, d, hc, hd, hcd, hsome, hsome'⟩
    · rw [hnone, hnone']
      exact .none
    · rw [hsome, hsome']
      exact packageConfig?_agrees hF hc hd hcd
  rw [resolveIn_eq, resolveIn_eq]
  dsimp only
  generalize (l.findFile t packageFile a).1.bind (packageConfig? t) = v at hboth ⊢
  generalize (l'.findFile t packageFile a).1.bind (packageConfig? t) = v' at hboth ⊢
  cases hboth with
  | some hagrees => exact hagrees
  | none =>
      obtain ⟨hw, -⟩ := hfirst.findFile hF hconfig
      obtain ⟨hw', -⟩ := hfirst'.findFile hF hconfig
      dsimp only
      rcases hw.pair hF hw' with ⟨hnone, hnone'⟩ | ⟨c, d, hc, hd, hcd, hsome, hsome'⟩
      · rw [hnone, hnone', homeConfig?, homeConfig?, findFile_home, findFile_home, findFile_home,
          findFile_home, hhome]
        exact .refl _
      · rw [hsome, hsome']
        exact loadOrEmpty_agrees (Path.alike_join hcd configFile).components (hF.load hc hd hcd)

/-! ### Ignore rules -/

theorem isName_ignoreFile : IsName ignoreFile := by decide

/-- The rules in an ignore file without the directory they speak of. -/
def rulesIn? (t : FileTree) (path : Path) : Option (List Ignore.Rule) :=
  (t.readText path).toOption.bind fun text => (Ignore.Rules.globLines text).mapM Ignore.Rule.ofLine?

theorem toOption_readRules (t : FileTree) (path : Path) :
    (readRules t path).toOption = (rulesIn? t path).map (⟨path.parent?.getD ⟨""⟩, ·⟩) := by
  unfold readRules rulesIn?
  cases t.readText path with
  | error cause => rfl
  | ok text =>
      simp only [Except.toOption, Option.bind_some, Ignore.Rules.ofText?]
      cases (Ignore.Rules.globLines text).mapM Ignore.Rule.ofLine? <;> rfl

/-- The rules of a directory are those in its file, perhaps by another spelling of the directory. -/
theorem rulesAt_spec (h : Faithful t F l) (ha : F ignoreFile a) :
    let r := l.rulesAt t (a.join ignoreFile)
    (∃ b, F ignoreFile b ∧ b.components = a.components ∧
      r.1 = (readRules t (b.join ignoreFile)).toOption) ∧
    Faithful t F r.2 ∧ r.2.home = l.home ∧ r.2.halted = l.halted := by
  unfold rulesAt
  cases hlookup : l.ignores.lookup (a.join ignoreFile).components with
  | some rules =>
      obtain ⟨b, hb, hba, hread⟩ := h.ignores a rules ha hlookup
      exact ⟨⟨b, hb, hba, by rw [hread]; rfl⟩, h, rfl, rfl⟩
  | none =>
      dsimp only
      cases hread : readRules t (a.join ignoreFile) with
      | error e => exact ⟨⟨a, ha, rfl, by rw [hread]; rfl⟩, h, rfl, rfl⟩
      | ok rules =>
          refine ⟨⟨a, ha, rfl, by rw [hread]; rfl⟩, ⟨h.found, fun b rules' hb hlookup' => ?_⟩, rfl, rfl⟩
          by_cases hkey : (b.join ignoreFile).components = (a.join ignoreFile).components
          · rw [hkey, List.lookup_cons_self] at hlookup'
            obtain rfl := Option.some.inj hlookup'
            have hab := (components_of_join_name isName_ignoreFile isName_ignoreFile hkey).1
            exact ⟨a, ha, hab.symm, hread⟩
          · rw [List.lookup_cons, beq_false_of_ne hkey] at hlookup'
            exact h.ignores b rules' hb hlookup'

/-- What the rules in a directory say of a path: whether it is ignored, and whether they break down. -/
def verdictIn (t : FileTree) (whole directory : Path) : Bool × Bool :=
  match (readRules t (directory.join ignoreFile)).toOption with
  | some rules => (rules.isIgnored whole, !rules.canJudge whole)
  | none => (false, false)

/-- What may be said of a path by the nearest ignore file, as some search spells its directory. -/
def Judged (t : FileTree) (F : String → Path → Prop) (whole directory : Path) (r : Bool × Bool) : Prop :=
  (nearest t ignoreFile directory = none ∧ r = (false, false)) ∨
    ∃ b, F ignoreFile b ∧ Same (some (b.join ignoreFile)) (nearest t ignoreFile directory) ∧
      r = verdictIn t whole b

theorem isIgnored_judged {file directory whole : Path} (h : Faithful t F l) (hF : Uniform t F)
    (hwhole : t.absolute? file = some whole) (hdirectory : whole.parent? = some directory)
    (ha : F ignoreFile directory) :
    ∃ r, Judged t F whole directory r ∧ (l.isIgnored t file).1 = r.1 ∧
      (l.isIgnored t file).2.halted = (l.halted || r.2) ∧
      (l.isIgnored t file).2.home = l.home ∧ Faithful t F (l.isIgnored t file).2 := by
  have hof : directoryOf? t file = some directory := by rw [directoryOf?, hwhole]; exact hdirectory
  obtain ⟨hanswers, hfaithful⟩ := h.findFile hF ha
  have hhome : (l.findFile t ignoreFile directory).2.home = l.home := rfl
  have hhalted : (l.findFile t ignoreFile directory).2.halted = l.halted := rfl
  rw [isIgnored, hof]
  dsimp only
  generalize l.findFile t ignoreFile directory = found at hanswers hfaithful hhome hhalted ⊢
  obtain ⟨v, l₁⟩ := found
  cases v with
  | none =>
      refine ⟨(false, false), .inl ⟨Option.map_eq_none_iff.mp hanswers.same.symm, rfl⟩, rfl, ?_, hhome,
        hfaithful⟩
      simpa using hhalted
  | some path =>
      obtain ⟨b, hb, rfl⟩ := hanswers.origin path rfl
      obtain ⟨⟨c, hc, hcb, hrules⟩, hfaithful', hhome', hhalted'⟩ := rulesAt_spec hfaithful hb
      have hsame : Same (some (c.join ignoreFile)) (nearest t ignoreFile directory) :=
        (same_join hcb ignoreFile).trans hanswers.same
      refine ⟨verdictIn t whole c, .inr ⟨c, hc, hsame, rfl⟩, ?_⟩
      dsimp only at hrules hfaithful' hhome' hhalted' ⊢
      generalize l₁.rulesAt t (b.join ignoreFile) = judged at hrules hfaithful' hhome' hhalted' ⊢
      obtain ⟨rules, l₂⟩ := judged
      dsimp only at hrules hfaithful' hhome' hhalted' hhome hhalted ⊢
      subst hrules
      rw [hwhole]
      unfold verdictIn
      generalize (readRules t (c.join ignoreFile)).toOption = read
      cases read with
      | none =>
          dsimp only
          rw [Bool.or_false]
          exact ⟨rfl, hhalted'.trans hhalted, hhome'.trans hhome, hfaithful'⟩
      | some rules =>
          dsimp only
          rw [hhalted', hhalted]
          exact ⟨rfl, rfl, hhome'.trans hhome, hfaithful'.halt _⟩

theorem readRules_of_parent? {root : Path} (h : (a.join ignoreFile).parent? = some root) :
    (readRules t (a.join ignoreFile)).toOption = (rulesIn? t (a.join ignoreFile)).map (⟨root, ·⟩) := by
  rw [toOption_readRules, h, Option.getD_some]

section

variable {directory whole : Path} {r r' : Bool × Bool}

/-- The nearest ignore file lies in a directory above, perhaps by another spelling. -/
theorem exists_of_same_nearest (h : Same (some (b.join ignoreFile)) (nearest t ignoreFile directory)) :
    ∃ a ∈ directory.ancestors, t.exists? (a.join ignoreFile) = true ∧ a.components = b.components := by
  obtain ⟨p, hp, hpb⟩ := Option.map_eq_some_iff.mp (Eq.symm h)
  obtain ⟨a, ha, rfl⟩ := exists_of_nearest hp
  exact ⟨a, ha, exists?_of_nearest hp,
    (components_of_join_name isName_ignoreFile isName_ignoreFile hpb).1⟩

/-- Verdicts that do not break down are one verdict. -/
theorem Judged.agree (hF : Uniform t F) (h : Judged t F whole directory r)
    (h' : Judged t F whole directory r') (habsolute : whole.isAbsolute = true)
    (hdirectory : whole.parent? = some directory) (hr : r.2 = false) (hr' : r'.2 = false) :
    r.1 = r'.1 := by
  rcases h with ⟨hnone, rfl⟩ | ⟨b, hb, hsame, rfl⟩ <;>
    rcases h' with ⟨hnone', rfl⟩ | ⟨c, hc, hsame', rfl⟩
  · rfl
  · rw [hnone] at hsame'
    cases hsame'
  · rw [hnone'] at hsame
    cases hsame
  · have hbc : b.components = c.components :=
      (components_of_join_name isName_ignoreFile isName_ignoreFile
        (Option.some.inj (hsame.trans (Eq.symm hsame')))).1
    obtain ⟨a, ha, -, hab⟩ := exists_of_same_nearest hsame
    have habove := (Path.above_of_mem_ancestors hdirectory habsolute ha).1
    have hbabsolute : b.isAbsolute = true := (Path.isAbsolute_congr hab).symm.trans habove
    have hcabsolute : c.isAbsolute = true := (Path.isAbsolute_congr hbc).symm.trans hbabsolute
    obtain ⟨root, hparent, hroot, htrimmed⟩ := Path.exists_parent?_join isName_ignoreFile hbabsolute
    obtain ⟨root', hparent', hroot', htrimmed'⟩ := Path.exists_parent?_join isName_ignoreFile hcabsolute
    have hrules : rulesIn? t (b.join ignoreFile) = rulesIn? t (c.join ignoreFile) := by
      rw [rulesIn?, rulesIn?, FileTree.readText_congr (hF.node hb hc hbc)]
    unfold verdictIn at hr hr' ⊢
    rw [readRules_of_parent? hparent, hrules] at hr ⊢
    rw [readRules_of_parent? hparent'] at hr' ⊢
    cases hread : rulesIn? t (c.join ignoreFile) with
    | none => rfl
    | some rules =>
        simp only [hread, Option.map_some, Bool.not_eq_false'] at hr hr' ⊢
        exact Ignore.Rules.isIgnored_congr rfl (hroot.trans (hbc.trans hroot'.symm)) htrimmed htrimmed'
          habsolute hr hr'

/-- Where directories with ignore files are searched under one spelling only, rules can judge. -/
theorem Judged.not_broken (hF : Uniform t F)
    (hunique : ∀ {a b}, F ignoreFile a → F ignoreFile b → t.exists? (a.join ignoreFile) = true →
      a.components = b.components → a = b)
    (ha : F ignoreFile directory) (h : Judged t F whole directory r) {slashes tail : List Char}
    {ns : List (List Char)} (hwritten : Path.Written whole.chars slashes ns tail)
    (hdirectory : whole.parent? = some directory) : r.2 = false := by
  rcases h with ⟨-, rfl⟩ | ⟨b, hb, hsame, rfl⟩
  · rfl
  · obtain ⟨c, hc, hexists, hcb⟩ := exists_of_same_nearest hsame
    obtain rfl := hunique (hF.of_mem_ancestors ha hc) hb hexists hcb
    obtain ⟨habsolute, htrimmed, hinfront⟩ :=
      Path.above_of_mem_ancestors hdirectory (decide_eq_true hwritten.head?_eq) hc
    have hparent := Path.parent?_join_name isName_ignoreFile habsolute htrimmed
    unfold verdictIn
    rw [readRules_of_parent? hparent]
    cases rulesIn? t (c.join ignoreFile) with
    | none => rfl
    | some rules =>
        simp only [Option.map_some, Bool.not_eq_false']
        exact Ignore.Rules.canJudge_of_written hwritten htrimmed hinfront

end

/-! ### A memory only grows -/

/-- Everything that was remembered still is. -/
structure Grown (l l' : Loader) : Prop where
  home : l'.home = l.home
  found : ∀ p v, l.found.lookup p = some v → l'.found.lookup p = some v
  ignores : ∀ p rules, l.ignores.lookup p = some rules → l'.ignores.lookup p = some rules
  halted : l.halted = true → l'.halted = true

theorem Grown.refl (l : Loader) : l.Grown l := ⟨rfl, fun _ _ h => h, fun _ _ h => h, id⟩

theorem Grown.trans {l'' : Loader} (h : l.Grown l') (h' : l'.Grown l'') : l.Grown l'' where
  home := h'.home.trans h.home
  found p v hv := h'.found p v (h.found p v hv)
  ignores p rules hrules := h'.ignores p rules (h.ignores p rules hrules)
  halted hl := h'.halted (h.halted hl)

/-- Only what nothing was remembered of is remembered anew. -/
theorem grown_findFile (t : FileTree) (name : String) (directory : Path) (l : Loader) :
    l.Grown (l.findFile t name directory).2 where
  home := rfl
  found p v hv := by
    have htried : ((search t l.found (directory.ancestors.map (·.join name))).2.map
        fun q => (q.components,
          (search t l.found (directory.ancestors.map (·.join name))).1)).lookup p = none := by
      rw [List.lookup_eq_none_iff]
      rintro ⟨k, w⟩ hin
      obtain ⟨q, hq, heq⟩ := List.mem_map.mp hin
      cases heq
      refine bne_iff_ne.mpr fun hp => ?_
      rw [hp, lookup_of_mem_tried hq] at hv
      cases hv
    simp only [findFile, List.lookup_append, htried, hv, Option.none_or]
  ignores _ _ h := h
  halted := id

theorem grown_rulesAt (t : FileTree) (path : Path) (l : Loader) : l.Grown (l.rulesAt t path).2 := by
  unfold rulesAt
  cases hlookup : l.ignores.lookup path.components with
  | some rules => exact .refl l
  | none =>
      cases readRules t path with
      | error cause => exact .refl l
      | ok rules =>
          refine ⟨rfl, fun _ _ h => h, fun p old hold => ?_, id⟩
          have hp : p ≠ path.components := by
            rintro rfl
            rw [hlookup] at hold
            cases hold
          rwa [List.lookup_cons, beq_false_of_ne hp]

theorem grown_isIgnored (t : FileTree) (file : Path) (l : Loader) :
    l.Grown (l.isIgnored t file).2 := by
  unfold isIgnored
  cases directoryOf? t file with
  | none => exact .refl l
  | some directory =>
      have hsearched := grown_findFile t ignoreFile directory l
      dsimp only
      generalize l.findFile t ignoreFile directory = first at hsearched
      obtain ⟨_ | path, l'⟩ := first
      · exact hsearched
      · have hread := hsearched.trans (grown_rulesAt t path l')
        dsimp only
        generalize l'.rulesAt t path = second at hread
        obtain ⟨_ | rules, l''⟩ := second
        · exact hread
        · exact ⟨hread.home, hread.found, hread.ignores, fun hl =>
            Bool.or_eq_true_iff.mpr (.inl (hread.halted hl))⟩

theorem grown_resolve (t : FileTree) (file : Path) (l : Loader) : l.Grown (l.resolve t file).2 := by
  unfold resolve
  cases directoryOf? t file with
  | none => exact .refl l
  | some directory =>
      have hfirst := grown_findFile t packageFile directory l
      dsimp only
      rw [resolveIn_eq]
      dsimp only
      split
      · exact hfirst
      · exact hfirst.trans (grown_findFile t configFile directory _)

end Loader

end LintMargin
