import LintMargin.Proofs.Config.Merging
import LintMargin.Proofs.FileTree.Ways
import Mathlib.Logic.Relation

/-!
# Chains of configurations and places

What a chain comes to depends on the places of its files only. A chain that is back at a place never comes
to an end, so the paths that a chain has been at need not be looked up when it is read place by place.
-/

namespace LintMargin.LintConfig

open FileTree (Fits Nul Passable)
open LintMargin.Path (names ofPiece IsPiece)
open Relation (TransGen ReflTransGen)

variable {t : FileTree} {p q : Path} {place next : Place} {name : String}

/-! ### Reading by places -/

/-- What the configuration file at a place says itself. -/
def optionsAt? (t : FileTree) (place : Place) : Option Members :=
  match t.holds place with
  | some (.file octets) =>
    (Text.Utf8.decode octets).bind fun text => (readMembers (String.ofList text)).toOption
  | _ => none

/-- The place that a name leads to from a directory. -/
def arriveFrom? (t : FileTree) (directory : Place) (name : String) : Option Place :=
  if name.toList.contains '\x00' then none
  else (t.follow (if name.toList.head? = some '/' then [] else directory)
    (Text.split '/' name.toList)).toOption

/-- The options of a chain of at most some files, by the place of the first one. -/
def readAt (t : FileTree) : Nat → Place → Option Members
  | 0, _ => none
  | left + 1, place =>
    (optionsAt? t place).bind fun options =>
      match options.get? "extends" with
      | none => some options
      | some (.string name) =>
        ((arriveFrom? t place.dropLast name).bind (readAt t left)).map
          (overlay · (options.erase "extends"))
      | some _ => none

/-- The configuration at the first place extends the one at the second. -/
def Extends (t : FileTree) (place next : Place) : Prop :=
  ∃ options name, optionsAt? t place = some options ∧
    options.get? "extends" = some (.string name) ∧ arriveFrom? t place.dropLast name = some next

/-- A chain that is back at a place does not end. -/
theorem readAt_of_transGen (h : TransGen (Extends t) place place) (left : Nat) :
    readAt t left place = none := by
  induction left generalizing place with
  | zero => rfl
  | succ left ih =>
      obtain ⟨next, hfirst, hback⟩ := Relation.TransGen.head'_iff.mp h
      obtain ⟨options, name, hoptions, hextends, hnext⟩ := hfirst
      rw [readAt, hoptions]
      simp only [Option.bind_some, hextends, hnext,
        ih (.tail' hback ⟨options, name, hoptions, hextends, hnext⟩)]
      rfl

/-! ### Paths and places -/

theorem toOption_fileOptions (hp : Fits p) :
    (fileOptions t p).toOption = (t.arrive p).toOption.bind (optionsAt? t) := by
  unfold fileOptions FileTree.readText FileTree.readOctets FileTree.node
  rw [FileTree.locate_of_fits hp]
  cases t.arrive p with
  | error e => rfl
  | ok place =>
      simp only [bind, Except.bind, Except.toOption, Option.bind_some]
      unfold optionsAt?
      cases t.holds place with
      | none => rfl
      | some node =>
          cases node with
          | directory => rfl
          | file octets =>
              dsimp only
              cases Text.Utf8.decode octets <;> rfl

theorem isFile_of_optionsAt? {options : Members} (h : optionsAt? t place = some options) :
    ∃ octets, t.holds place = some (.file octets) := by
  unfold optionsAt? at h
  split at h
  · next octets hholds => exact ⟨octets, hholds⟩
  · cases h

theorem arrive_of_isAbsolute (hp : p.isAbsolute = true) :
    (t.arrive p).toOption = if p.chars.contains '\x00' then none
      else (t.follow [] (Text.split '/' p.chars)).toOption := by
  have hempty : p.chars.isEmpty = false := by simpa using Path.chars_ne_nil_of_isAbsolute hp
  rw [FileTree.arrive, hempty, if_pos hp]
  split <;> rfl

/-- What is joined to a path leads on from where that path leads. -/
theorem arrive_join (hp : p.isAbsolute = true) (hnul : ¬ Nul (names p.chars))
    (hfollow : t.follow [] (names p.chars) = .ok place) (name : String) :
    (t.arrive (p.join name)).toOption = arriveFrom? t place name := by
  rw [arrive_of_isAbsolute (Path.isAbsolute_join hp name), arriveFrom?]
  by_cases hname : name.toList.head? = some '/'
  · rw [Path.join_of_isAbsolute p hname, if_pos hname]
    rfl
  · have hcontains : (p.join name).chars.contains '\x00' = name.toList.contains '\x00' := by
      rw [Bool.eq_iff_iff, List.contains_iff_mem, List.contains_iff_mem,
        Path.mem_chars_iff (by decide) (by decide), Path.mem_chars_iff (by decide) (by decide),
        Path.names_join p hname]
      refine ⟨fun ⟨piece, hpiece, hmem⟩ => ?_, fun ⟨piece, hpiece, hmem⟩ =>
        ⟨piece, List.mem_append_right _ hpiece, hmem⟩⟩
      rcases List.mem_append.mp hpiece with hpiece | hpiece
      · exact absurd ⟨piece, hpiece, hmem⟩ hnul
      · exact ⟨piece, hpiece, hmem⟩
    have hcounting : FileTree.counting (Text.split '/' (p.join name).chars) =
        names p.chars ++ FileTree.counting (Text.split '/' name.toList) := by
      have hends := Path.endsVoid_join hname (Path.chars_ne_nil_of_isAbsolute hp)
      unfold Path.endsVoid at hends
      change names (p.join name).chars ++ _ = _
      rw [Path.names_join p hname, hends, List.append_assoc]
      rfl
    rw [hcontains, if_neg hname, ← FileTree.follow_counting, hcounting, FileTree.follow_append, hfollow]
    split
    · rfl
    · exact congrArg Except.toOption (FileTree.follow_counting t _ _)

/-- An absolute path that leads to a file: its names, and where its parent leads. -/
theorem exists_of_arrive_file {octets : List UInt8} (hp : p.isAbsolute = true)
    (h : t.arrive p = .ok place) (hfile : t.holds place = some (.file octets)) :
    ¬ Nul (names p.chars) ∧
      ∃ directory, p.parent? = some directory ∧ directory.isAbsolute = true ∧
        names directory.chars ⊆ names p.chars ∧
          t.follow [] (names directory.chars) = .ok place.dropLast := by
  rw [FileTree.arrive, if_pos hp] at h
  split at h
  · cases h
  next hnul =>
  split at h
  · cases h
  next hempty =>
  rw [← FileTree.follow_counting, FileTree.counting] at h
  have hnul : ¬ Nul (names p.chars) := by
    rw [List.contains_iff_mem, Path.mem_chars_iff (by decide) (by decide)] at hnul
    exact hnul
  obtain ⟨between, hnames, htail⟩ := FileTree.follow_prefix_ok h
  have hbetween : between = place := by
    split at htail
    · exact (FileTree.eq_lead_of_follow htail).symm
    · exact Except.ok.inj htail
  rw [hbetween] at hnames
  obtain ⟨init, last, hinit, hfollow⟩ :=
    FileTree.exists_of_holds_file (fun n hn => Path.isPiece_of_mem_names hn) hnul hnames hfile
  refine ⟨hnul, ?_⟩
  obtain ⟨directory, hparent, habsolute, hdirectory⟩ := Path.exists_parent?_of_isAbsolute hp hinit
  refine ⟨directory, hparent, habsolute, ?_, by rw [hdirectory, hfollow]⟩
  rw [hdirectory, hinit]
  exact List.subset_append_left _ _

/-- What a file extends is told by its place. -/
theorem arrive_extendedPath {options : Members} (hp : p.isAbsolute = true) (h : t.arrive p = .ok place)
    (hoptions : optionsAt? t place = some options) (name : String) :
    (extendedPath p name).isAbsolute = true ∧
      (t.arrive (extendedPath p name)).toOption = arriveFrom? t place.dropLast name := by
  obtain ⟨octets, hfile⟩ := isFile_of_optionsAt? hoptions
  obtain ⟨hnul, directory, hparent, habsolute, hsub, hfollow⟩ := exists_of_arrive_file hp h hfile
  have hpath : extendedPath p name = directory.join name := by rw [extendedPath, hparent]
  rw [hpath]
  exact ⟨Path.isAbsolute_join habsolute name,
    arrive_join habsolute (fun ⟨n, hn, hmem⟩ => hnul ⟨n, hsub hn, hmem⟩) hfollow name⟩

/-! ### Reading by paths -/

theorem toOption_fileOver (t : FileTree) (path : Path) (base : Path → Except ConfigError Members) :
    (fileOver t path base).toOption = (fileOptions t path).toOption.bind fun options =>
      match options.get? "extends" with
      | none => some options
      | some (.string name) =>
        (base (extendedPath path name)).toOption.map (overlay · (options.erase "extends"))
      | some _ => none := by
  unfold fileOver
  cases fileOptions t path with
  | error e => rfl
  | ok options =>
      simp only [Except.bind]
      change _ = (match options.get? "extends" with
        | none => some options
        | some (.string name) =>
          (base (extendedPath path name)).toOption.map (overlay · (options.erase "extends"))
        | some _ => none)
      cases options.get? "extends" with
      | none => rfl
      | some value =>
          cases value with
          | string name =>
              dsimp only
              cases base (extendedPath path name) <;> rfl
          | _ => rfl

/-- A chain is read as by places, if the paths it has been at lead on to the one it is at. -/
theorem toOption_readChain {visited : List (List Path.Component)} {left : Nat}
    (hp : p.isAbsolute = true) (hfits : ∀ r ∈ chain t visited left p, Fits r)
    (hvisited : ∀ r before reached, r.components ∈ visited → t.arrive r = .ok before →
      t.arrive p = .ok reached → TransGen (Extends t) before reached) :
    (readChain t visited left p).toOption = (t.arrive p).toOption.bind (readAt t left) := by
  induction left generalizing visited p with
  | zero => cases t.arrive p <;> rfl
  | succ left ih =>
      by_cases hmem : p.components ∈ visited
      · rw [readChain_of_mem hmem]
        cases harrive : t.arrive p with
        | error e => rfl
        | ok place => exact (readAt_of_transGen (hvisited p place place hmem harrive harrive) _).symm
      · rw [chain_succ_of_not_visited hmem] at hfits
        obtain ⟨hpfits, hrest⟩ := List.forall_mem_cons.mp hfits
        have hfile := toOption_fileOptions (t := t) hpfits
        rw [readChain_succ hmem, toOption_fileOver, hfile]
        cases harrive : t.arrive p with
        | error e => rfl
        | ok place =>
            rw [harrive] at hfile
            change (optionsAt? t place).bind _ = readAt t (left + 1) place
            change _ = optionsAt? t place at hfile
            rw [readAt]
            cases hoptions : optionsAt? t place with
            | none => rfl
            | some options =>
                simp only [Option.bind_some]
                split
                · rfl
                · next name hextends =>
                    obtain ⟨hextended, hnext⟩ := arrive_extendedPath hp harrive hoptions name
                    have hbelow : extended? t p = some (extendedPath p name) := by
                      refine extended?_eq_some_iff.mpr ⟨options, name, ?_, hextends, rfl⟩
                      rw [hoptions] at hfile
                      cases hown : fileOptions t p with
                      | error e => rw [hown] at hfile; cases hfile
                      | ok own => rw [hown] at hfile; exact congrArg _ (Option.some.inj hfile)
                    rw [hbelow] at hrest
                    rw [ih hextended hrest ?_, hnext]
                    intro r before reached hr hbefore hreached
                    have hstep : Extends t place reached :=
                      ⟨options, name, hoptions, hextends, by rw [← hnext, hreached]; rfl⟩
                    rcases List.mem_cons.mp hr with heq | hr
                    · obtain rfl := FileTree.eq_of_arrive heq hbefore harrive
                      exact .single hstep
                    · exact (hvisited r before place hr hbefore harrive).tail hstep
                · rfl

/-- Paths that lead to one place give the same options. -/
theorem load_congr_of_arrive (h : t.arrive p = t.arrive q) (hp : p.isAbsolute = true)
    (hq : q.isAbsolute = true) (hpfits : ChainFits t p) (hqfits : ChainFits t q) :
    (load t p).toOption.map options = (load t q).toOption.map options := by
  have hread : ∀ {r : Path}, r.isAbsolute = true → ChainFits t r →
      (readChain t [] maxFiles r).toOption = (t.arrive r).toOption.bind (readAt t maxFiles) :=
    fun hr hfits => toOption_readChain hr hfits fun _ _ _ hmem => nomatch hmem
  have hoptions : ∀ r : Path, (load t r).toOption.map options =
      (readChain t [] maxFiles r).toOption.map fun o => (ofOptions o).options := by
    intro r
    rw [load]
    cases readChain t [] maxFiles r <;> rfl
  rw [hoptions, hoptions, hread hp hpfits, hread hq hqfits, h]

end LintMargin.LintConfig
