import LintMargin.Proofs.Config.Layers

/-!
# What a chain of configurations comes to

`Reads` are the rules by which a chain is read, `Chain` is the list of its files with their own options,
and `Merged` says what every option is in terms of that list. A chain without an end is never read to one.
-/

namespace LintMargin.LintConfig

variable {t : FileTree} {path : Path}

/-! ### Single files -/

/-- What a configuration file itself says. -/
def fileOptions (t : FileTree) (path : Path) : Except ConfigError Members :=
  match t.readText path with
  | .error cause => .error (.unreadable path cause)
  | .ok text => readMembers (String.ofList text)

theorem tidy_of_readMembers {text : String} {options : Members}
    (h : readMembers text = .ok options) : options.Tidy := by
  unfold readMembers Json.Lenient.read at h
  split at h
  · cases h
  · cases h
    exact Members.tidy_nil
  · next hread =>
      cases h
      split at hread
      · cases hread
      · cases hread
      · split at hread
        · next hvalue =>
            cases hread
            obtain ⟨w, -, hw⟩ := Option.bind_eq_some_iff.mp hvalue
            exact Json.Written.tidy_of_value? hw
        · cases hread
  · cases h

theorem tidy_of_fileOptions {options : Members} (h : fileOptions t path = .ok options) :
    options.Tidy := by
  unfold fileOptions at h
  split at h
  · cases h
  · exact tidy_of_readMembers h

/-- A file extends the one that its options name. -/
theorem extended?_eq_some_iff {next : Path} :
    extended? t path = some next ↔ ∃ options name, fileOptions t path = .ok options ∧
      options.get? "extends" = some (.string name) ∧ extendedPath path name = next := by
  unfold extended? fileOptions
  cases t.readText path with
  | error cause => simp
  | ok text =>
      dsimp only
      cases readMembers (String.ofList text) with
      | error e => simp
      | ok options =>
          dsimp only
          split
          · next name hname => simp [hname]
          · next hother =>
              simp only [reduceCtorEq, Except.ok.injEq, false_iff]
              rintro ⟨_, name, rfl, hname, -⟩
              exact hother name hname

/-! ### Rules of reading -/

/-- Reading a chain from a path, given the paths it has been at. The rules do not count what is left to
be read. -/
inductive Reads (t : FileTree) : List (List Path.Component) → Path → Except ConfigError Members → Prop where
  /-- A chain has no more than `maxFiles` files, and none of them twice. -/
  | broken {visited path} (hend : maxFiles ≤ visited.length ∨ path.components ∈ visited) :
      Reads t visited path (.error (.brokenChain path))
  | unusable {visited path e} (hroom : visited.length < maxFiles) (hnew : path.components ∉ visited)
      (hfile : fileOptions t path = .error e) : Reads t visited path (.error e)
  | last {visited path options} (hroom : visited.length < maxFiles) (hnew : path.components ∉ visited)
      (hfile : fileOptions t path = .ok options) (hextends : options.get? "extends" = none) :
      Reads t visited path (.ok options)
  | misshaped {visited path options value} (hroom : visited.length < maxFiles)
      (hnew : path.components ∉ visited) (hfile : fileOptions t path = .ok options)
      (hextends : options.get? "extends" = some value) (hvalue : ∀ name, value ≠ .string name) :
      Reads t visited path (.error (.misshaped .extendsNotString))
  | extending {visited path options name result} (hroom : visited.length < maxFiles)
      (hnew : path.components ∉ visited) (hfile : fileOptions t path = .ok options)
      (hextends : options.get? "extends" = some (.string name))
      (hbase : Reads t (path.components :: visited) (extendedPath path name) result) :
      Reads t visited path (result.map (overlay · (options.erase "extends")))

section Rules

variable {visited : List (List Path.Component)} {left : Nat}

theorem readChain_of_mem (h : path.components ∈ visited) :
    readChain t visited left path = .error (.brokenChain path) := by
  cases left with
  | zero => rfl
  | succ left => rw [readChain, if_pos h]

/-- What a file comes to, given what the file that it extends does. -/
def fileOver (t : FileTree) (path : Path) (base : Path → Except ConfigError Members) :
    Except ConfigError Members :=
  (fileOptions t path).bind fun options =>
    match options.get? "extends" with
    | none => .ok options
    | some (.string name) =>
      (base (extendedPath path name)).map (overlay · (options.erase "extends"))
    | some _ => .error (.misshaped .extendsNotString)

theorem readChain_succ (h : path.components ∉ visited) :
    readChain t visited (left + 1) path =
      fileOver t path (readChain t (path.components :: visited) left) := by
  rw [readChain, if_neg h, fileOver, fileOptions]
  cases t.readText path <;> rfl

/-- While there is room, one more file is read. -/
theorem exists_readChain_eq_fileOver (hleft : visited.length + left = maxFiles)
    (hroom : visited.length < maxFiles) (hnew : path.components ∉ visited) :
    ∃ rest, (path.components :: visited).length + rest = maxFiles ∧
      readChain t visited left path =
        fileOver t path (readChain t (path.components :: visited) rest) := by
  obtain ⟨rest, rfl⟩ : ∃ n, left = n + 1 := Nat.exists_eq_succ_of_ne_zero (by omega)
  refine ⟨rest, ?_, readChain_succ hnew⟩
  rw [List.length_cons]
  omega

/-- Reading follows the rules. -/
theorem reads_readChain (hleft : visited.length + left = maxFiles) :
    Reads t visited path (readChain t visited left path) := by
  induction left generalizing visited path with
  | zero => exact .broken (.inl (Nat.le_of_eq hleft.symm))
  | succ left ih =>
      by_cases hnew : path.components ∈ visited
      · rw [readChain_of_mem hnew]
        exact .broken (.inr hnew)
      · have hroom : visited.length < maxFiles := by omega
        rw [readChain_succ hnew, fileOver]
        cases hfile : fileOptions t path with
        | error e => exact .unusable hroom hnew hfile
        | ok options =>
            simp only [Except.bind]
            split
            · next hextends => exact .last hroom hnew hfile hextends
            · next name hextends =>
                refine .extending hroom hnew hfile hextends (ih ?_)
                rw [List.length_cons]
                omega
            · next value hvalue hextends =>
                exact .misshaped hroom hnew hfile hextends fun name heq => hvalue name heq

/-- The rules leave no choice. -/
theorem Reads.readChain_eq {result : Except ConfigError Members} (h : Reads t visited path result)
    (hleft : visited.length + left = maxFiles) : readChain t visited left path = result := by
  induction h generalizing left with
  | broken hend =>
      rcases hend with hend | hend
      · obtain rfl : left = 0 := by omega
        rfl
      · exact readChain_of_mem hend
  | unusable hroom hnew hfile =>
      obtain ⟨rest, -, hread⟩ := exists_readChain_eq_fileOver hleft hroom hnew
      rw [hread, fileOver, hfile]
      rfl
  | last hroom hnew hfile hextends =>
      obtain ⟨rest, -, hread⟩ := exists_readChain_eq_fileOver hleft hroom hnew
      rw [hread, fileOver, hfile]
      simp only [Except.bind, hextends]
  | misshaped hroom hnew hfile hextends hvalue =>
      obtain ⟨rest, -, hread⟩ := exists_readChain_eq_fileOver hleft hroom hnew
      rw [hread, fileOver, hfile]
      simp only [Except.bind, hextends]
  | extending hroom hnew hfile hextends hbase ih =>
      obtain ⟨rest, hrest, hread⟩ := exists_readChain_eq_fileOver hleft hroom hnew
      rw [hread, fileOver, hfile]
      simp only [Except.bind, hextends, ih hrest]

/-- A chain in which every file extends another one is broken somewhere. -/
theorem exists_readChain_eq_brokenChain {paths : Nat → Path}
    (hpaths : ∀ i, extended? t (paths i) = some (paths (i + 1))) (visited : List (List Path.Component))
    (left i : Nat) : ∃ q, readChain t visited left (paths i) = .error (.brokenChain q) := by
  induction left generalizing visited i with
  | zero => exact ⟨paths i, rfl⟩
  | succ left ih =>
      by_cases hnew : (paths i).components ∈ visited
      · exact ⟨paths i, readChain_of_mem hnew⟩
      · obtain ⟨options, name, hfile, hextends, hnext⟩ := extended?_eq_some_iff.mp (hpaths i)
        obtain ⟨q, hq⟩ := ih ((paths i).components :: visited) (i + 1)
        refine ⟨q, ?_⟩
        rw [readChain_succ hnew, fileOver, hfile]
        simp only [Except.bind, hextends, hnext, hq]
        rfl

end Rules

/-! ### The files of a chain -/

/-- The options of the files on a chain, each without the name of the file it extends. -/
inductive Chain (t : FileTree) : Path → List Members → Prop where
  | last {path options} (hfile : fileOptions t path = .ok options)
      (hextends : options.get? "extends" = none) : Chain t path [options.erase "extends"]
  | extending {path options name levels} (hfile : fileOptions t path = .ok options)
      (hextends : options.get? "extends" = some (.string name))
      (hrest : Chain t (extendedPath path name) levels) :
      Chain t path (options.erase "extends" :: levels)

theorem Chain.tidy {levels : List Members} (h : Chain t path levels) :
    ∀ o ∈ levels, Members.Tidy o := by
  induction h with
  | last hfile _ =>
      exact List.forall_mem_singleton.mpr ((tidy_of_fileOptions hfile).erase _)
  | extending hfile _ _ ih =>
      exact List.forall_mem_cons.mpr ⟨(tidy_of_fileOptions hfile).erase _, ih⟩

theorem Chain.get?_extends {levels : List Members} (h : Chain t path levels) :
    ∀ o ∈ levels, o.get? "extends" = none := by
  have herased : ∀ options : Members, (options.erase "extends").get? "extends" = none :=
    fun options => by rw [Members.get?_erase, if_pos rfl]
  induction h with
  | last => exact List.forall_mem_singleton.mpr (herased _)
  | extending _ _ _ ih => exact List.forall_mem_cons.mpr ⟨herased _, ih⟩

/-- What is read is the stack of the files. -/
theorem Reads.exists_chain {visited : List (List Path.Component)} {result : Except ConfigError Members}
    (h : Reads t visited path result) {options : Members} (hresult : result = .ok options) :
    ∃ levels, Chain t path levels ∧ ∀ key, options.get? key = stacked key levels := by
  induction h generalizing options with
  | broken | unusable | misshaped => cases hresult
  | last _ _ hfile hextends =>
      cases hresult
      refine ⟨_, .last hfile hextends, fun key => ?_⟩
      rw [stacked_cons, Members.get?_erase]
      split
      · next hkey => rw [← hkey, hextends]; rfl
      · exact (none_overlaid key _).symm
  | @extending _ _ own _ result _ _ hfile hextends _ ih =>
      cases result with
      | error e => cases hresult
      | ok base =>
          cases hresult
          obtain ⟨levels, hlevels, hstacked⟩ := ih rfl
          have hown := (tidy_of_fileOptions hfile).ascending.erase "extends"
          refine ⟨_, .extending hfile hextends hlevels, fun key => ?_⟩
          rw [get?_overlay hown, hstacked, stacked_cons]

/-! ### The merged options -/

/-- What every option of a chain is, in terms of the options of its files. -/
structure Merged (levels : List Members) (options : Members) : Prop where
  noExtends : options.get? "extends" = none
  noDirname : options.get? "dirname" = none
  /-- An option comes from the first file that has it. -/
  first : ∀ key, key ≠ "extends" → key ≠ "dirname" → key ≠ "globals" →
    options.get? key = levels.findSome? (·.get? key)
  noGlobals : (∀ o ∈ levels, o.get? "globals" = none) → options.get? "globals" = none
  /-- The first globals count if they are no object. -/
  plainGlobals : ∀ before o after value, levels = before ++ o :: after →
    (∀ b ∈ before, b.get? "globals" = none) → o.get? "globals" = some value → value.object? = none →
      options.get? "globals" = some value
  /-- Otherwise every global comes from the first file that has it, among those before the next one whose
  globals are no object. -/
  globals : ∀ before o after (names : Members), levels = before ++ o :: after →
    (∀ b ∈ before, b.get? "globals" = none) → o.get? "globals" = some (.object names) →
      ∃ merged : Members, options.get? "globals" = some (.object merged) ∧ ∀ name,
        merged.get? name = (o :: after.takeWhile letsGlobalsThrough).findSome? (global? name)

theorem merged_of_stacked {levels : List Members} {options : Members}
    (htidy : ∀ o ∈ levels, Members.Tidy o) (hextends : ∀ o ∈ levels, o.get? "extends" = none)
    (hstacked : ∀ key, options.get? key = stacked key levels) :
    Merged levels (options.erase "dirname") := by
  have hkept : ∀ key, key ≠ "dirname" → (options.erase "dirname").get? key = stacked key levels := by
    intro key hkey
    rw [Members.get?_erase, if_neg (Ne.symm hkey), hstacked]
  have hglobals := hkept "globals" (by decide)
  refine ⟨?_, ?_, ?_, ?_, ?_, ?_⟩
  · rw [hkept _ (by decide), stacked_of_ne (by decide)]
    exact List.findSome?_eq_none_iff.mpr hextends
  · rw [Members.get?_erase, if_pos rfl]
  · intro key _ hdirname hkey
    rw [hkept key hdirname, stacked_of_ne hkey]
  · intro hnone
    have hempty := stacked_append hnone []
    rw [List.append_nil] at hempty
    rw [hglobals, hempty]
    rfl
  · rintro before o after value rfl hbefore ho hvalue
    rw [hglobals, stacked_append hbefore, stacked_cons, ho, overlaid_of_object?_eq_none (.inr hvalue)]
  · rintro before o after names rfl hbefore ho
    have hrest : ∀ a ∈ o :: after, Members.Tidy a :=
      fun a ha => htidy a (List.mem_append_right before ha)
    obtain ⟨merged, hmerged, -⟩ := exists_overlaid_object
      ((hrest o List.mem_cons_self).inner _ _ ho) (stacked "globals" after)
    have hstack : stacked "globals" (o :: after) = some (.object merged) := by
      rw [stacked_cons, ho, hmerged]
    have hthrough : letsGlobalsThrough o = true := by rw [letsGlobalsThrough, ho]; rfl
    refine ⟨merged, by rw [hglobals, stacked_append hbefore, hstack], fun name => ?_⟩
    have hgathered := global?_stacked hrest name
    rw [hstack, List.takeWhile_cons_of_pos hthrough] at hgathered
    exact hgathered

/-- Reading a chain comes to an end from every path. If every file extends another one without end, the
chain is broken; and what is loaded has the options of its first file over those of the files after it. -/
theorem load_merges_chain (t : FileTree) (path : Path) :
    (∃ result, (∀ other, Reads t [] path other ↔ other = result) ∧
      load t path = result.map fun options => (ofOptions options).withSource path) ∧
    (∀ paths : Nat → Path, paths 0 = path →
      (∀ i, extended? t (paths i) = some (paths (i + 1))) →
        ∃ q, load t path = .error (.brokenChain q)) ∧
    ∀ config, load t path = .ok config → config.source = some path ∧
      ∃ levels, Chain t path levels ∧ Merged levels config.options := by
  refine ⟨⟨readChain t [] maxFiles path, fun other => ⟨fun h => ?_, ?_⟩, rfl⟩, ?_, ?_⟩
  · exact (h.readChain_eq (Nat.zero_add maxFiles)).symm
  · rintro rfl
    exact reads_readChain (Nat.zero_add maxFiles)
  · rintro paths rfl hpaths
    obtain ⟨q, hq⟩ := exists_readChain_eq_brokenChain hpaths [] maxFiles 0
    exact ⟨q, by rw [load, hq]; rfl⟩
  · intro config hload
    rw [load] at hload
    cases hread : readChain t [] maxFiles path with
    | error e =>
        rw [hread] at hload
        cases hload
    | ok options =>
        rw [hread] at hload
        cases hload
        obtain ⟨levels, hlevels, hstacked⟩ :=
          (reads_readChain (Nat.zero_add maxFiles)).exists_chain hread
        exact ⟨rfl, levels, hlevels,
          merged_of_stacked hlevels.tidy hlevels.get?_extends hstacked⟩

/-- A configuration that extends itself, beside one that extends another. -/
def knotted : FileTree :=
  (((FileTree.bare [['w']]).write ⟨"knot"⟩
    (.file (Text.Utf8.encode "\x7b\"extends\":\"knot\"\x7d"))).write ⟨"top"⟩
      (.file (Text.Utf8.encode
        "\x7b\"extends\":\"base\",\"undef\":true,\"globals\":\x7b\"$\":true\x7d\x7d"))).write ⟨"base"⟩
          (.file (Text.Utf8.encode "\x7b\"undef\":false,\"globals\":7\x7d"))

theorem load_merges_chain_knotted :
    (∃ q, load knotted ⟨"/w/knot"⟩ = .error (.brokenChain q)) ∧
    ∃ config levels, load knotted ⟨"top"⟩ = .ok config ∧ config.source = some ⟨"top"⟩ ∧
      Chain knotted ⟨"top"⟩ levels ∧ Merged levels config.options := by
  constructor
  · exact (load_merges_chain knotted ⟨"/w/knot"⟩).2.1 (fun _ => ⟨"/w/knot"⟩) rfl
      (fun _ => by decide +kernel)
  · have hloads : (load knotted ⟨"top"⟩).toOption.isSome = true := by decide +kernel
    obtain ⟨config, hconfig⟩ : ∃ config, load knotted ⟨"top"⟩ = .ok config := by
      cases hload : load knotted ⟨"top"⟩ with
      | error e =>
          rw [hload] at hloads
          cases hloads
      | ok config => exact ⟨config, rfl⟩
    obtain ⟨hsource, levels, hchain, hmerged⟩ :=
      (load_merges_chain knotted ⟨"top"⟩).2.2 config hconfig
    exact ⟨config, levels, hconfig, hsource, hchain, hmerged⟩

end LintMargin.LintConfig
