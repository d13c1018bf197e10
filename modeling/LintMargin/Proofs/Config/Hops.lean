import LintMargin.Proofs.Config.Places

/-!
# How long a chain may be

A chain of configurations that ends with a file that extends none is loaded if it has at most `maxFiles`
files, which are joined by one hop less; a longer one is broken at the first file too many. A chain that
ends never comes back to a path, so nothing else breaks it.
-/

namespace LintMargin.LintConfig

open FileTree (Fits)

variable {t : FileTree} {p q : Path} {paths : Nat → Path} {n : Nat}

/-! ### Files that can be used -/

/-- A file that can be used is at some place. -/
theorem exists_arrive_of_fileOptions {options : Members} (h : fileOptions t p = .ok options) :
    ∃ place, t.arrive p = .ok place ∧ optionsAt? t place = some options := by
  cases hlocate : t.locate p with
  | error cause =>
      rw [fileOptions, FileTree.readText, FileTree.readOctets, FileTree.node, hlocate] at h
      cases h
  | ok place =>
      have hfits := FileTree.fits_of_locate hlocate
      have harrive : t.arrive p = .ok place := (FileTree.locate_of_fits hfits).symm.trans hlocate
      have hoptions := toOption_fileOptions (t := t) hfits
      rw [h, harrive] at hoptions
      exact ⟨place, harrive, hoptions.symm⟩

/-- Two spellings of a path by which a file can be used give the same options. -/
theorem fileOptions_congr {options others : Members} (h : p.components = q.components)
    (hp : fileOptions t p = .ok options) (hq : fileOptions t q = .ok others) : options = others := by
  obtain ⟨place, harrive, hoptions⟩ := exists_arrive_of_fileOptions hp
  obtain ⟨place', harrive', hothers⟩ := exists_arrive_of_fileOptions hq
  obtain rfl := FileTree.eq_of_arrive h harrive harrive'
  exact Option.some.inj (hoptions.symm.trans hothers)

/-! ### Chains that end -/

/-- A chain of so many hops: each of its files extends the next one, and the last one extends none. -/
structure Ends (t : FileTree) (paths : Nat → Path) (n : Nat) : Prop where
  hops : ∀ i < n, extended? t (paths i) = some (paths (i + 1))
  last : ∃ options, fileOptions t (paths n) = .ok options ∧ options.get? "extends" = none

instance (t : FileTree) (paths : Nat → Path) (n : Nat) : Decidable (Ends t paths n) :=
  decidable_of_iff ((∀ i < n, extended? t (paths i) = some (paths (i + 1))) ∧
      (fileOptions t (paths n)).toOption.any (fun options => (options.get? "extends").isNone) = true) <| by
    constructor
    · rintro ⟨hhops, hlast⟩
      refine ⟨hhops, ?_⟩
      cases hfile : fileOptions t (paths n) with
      | error e =>
          rw [hfile] at hlast
          cases hlast
      | ok options =>
          rw [hfile] at hlast
          exact ⟨options, rfl, Option.isNone_iff_eq_none.mp hlast⟩
    · rintro ⟨hhops, options, hfile, hnone⟩
      refine ⟨hhops, ?_⟩
      rw [hfile]
      exact Option.isNone_iff_eq_none.mpr hnone

/-- A chain that comes back to a path goes on from there as before, so it does not end. -/
theorem Ends.components_ne (h : Ends t paths n) {i j : Nat} (hij : i < j) (hj : j ≤ n) :
    (paths i).components ≠ (paths j).components := by
  intro heq
  obtain ⟨left, hleft⟩ := Nat.exists_eq_add_of_le hj
  induction left generalizing i j with
  | zero =>
      obtain ⟨options, name, hfile, hextends, -⟩ := extended?_eq_some_iff.mp (h.hops i (by omega))
      obtain ⟨others, hlast, hnone⟩ := h.last
      obtain rfl : n = j := hleft
      obtain rfl := fileOptions_congr heq hfile hlast
      rw [hextends] at hnone
      cases hnone
  | succ left ih =>
      obtain ⟨options, name, hfile, hextends, hnext⟩ := extended?_eq_some_iff.mp (h.hops i (by omega))
      obtain ⟨others, name', hfile', hextends', hnext'⟩ :=
        extended?_eq_some_iff.mp (h.hops j (by omega))
      obtain rfl := fileOptions_congr heq hfile hfile'
      rw [hextends] at hextends'
      cases hextends'
      have hlater : (paths (i + 1)).components = (paths (j + 1)).components := by
        rw [← hnext, ← hnext']
        exact (extendedPath_alike heq name).components
      exact ih (Nat.succ_lt_succ hij) (by omega) hlater (by omega)

/-! ### Room for a chain -/

/-- A chain is read to its end if there is room for the rest of its files, and else up to the first one
that there is no room for. -/
theorem Ends.readChain_eq (h : Ends t paths n) (left : Nat)
    {visited : List (List Path.Component)} {i : Nat} (hi : i ≤ n)
    (hnew : ∀ j, i ≤ j → j ≤ n → (paths j).components ∉ visited) :
    (n < i + left → ∃ options, readChain t visited left (paths i) = .ok options) ∧
    (i + left ≤ n → readChain t visited left (paths i) = .error (.brokenChain (paths (i + left)))) := by
  induction left generalizing visited i with
  | zero => exact ⟨fun hroom => absurd hi (by omega), fun _ => rfl⟩
  | succ left ih =>
      rw [readChain_succ (hnew i (Nat.le_refl i) hi), fileOver]
      rcases Nat.lt_or_eq_of_le hi with hlt | rfl
      · obtain ⟨options, name, hfile, hextends, hnext⟩ := extended?_eq_some_iff.mp (h.hops i hlt)
        simp only [hfile, Except.bind, hextends, hnext]
        have hrest : ∀ j, i + 1 ≤ j → j ≤ n → (paths j).components ∉ (paths i).components :: visited := by
          intro j hij hj
          rw [List.mem_cons, not_or]
          exact ⟨(h.components_ne hij hj).symm, hnew j (by omega) hj⟩
        obtain ⟨hfits, hlong⟩ := ih hlt hrest
        constructor
        · intro hroom
          obtain ⟨base, hbase⟩ := hfits (by omega)
          exact ⟨overlay base (options.erase "extends"), by rw [hbase]; rfl⟩
        · intro hroom
          rw [hlong (by omega), Nat.succ_add]
          rfl
      · obtain ⟨options, hlast, hnone⟩ := h.last
        simp only [hlast, Except.bind, hnone]
        exact ⟨fun _ => ⟨options, rfl⟩, fun hroom => absurd hroom (by omega)⟩

theorem Ends.exists_load (h : Ends t paths n) (hn : n ≤ 15) : ∃ config, load t (paths 0) = .ok config := by
  obtain ⟨hroom, -⟩ := h.readChain_eq maxFiles (Nat.zero_le n) fun _ _ _ => List.not_mem_nil
  rw [Nat.zero_add] at hroom
  obtain ⟨options, hread⟩ := hroom (Nat.lt_succ_of_le hn)
  exact ⟨_, by rw [load, hread]; rfl⟩

theorem Ends.load_eq_brokenChain (h : Ends t paths n) (hn : 15 < n) :
    load t (paths 0) = .error (.brokenChain (paths 16)) := by
  obtain ⟨-, hlong⟩ := h.readChain_eq maxFiles (Nat.zero_le n) fun _ _ _ => List.not_mem_nil
  rw [Nat.zero_add] at hlong
  rw [load, hlong hn]
  rfl

/-- A chain that ends is loaded exactly if it has at most 15 hops. With more it is broken at the seventeenth
file. -/
theorem load_iff_hops (h : Ends t paths n) :
    ((∃ config, load t (paths 0) = .ok config) ↔ n ≤ 15) ∧
    (15 < n → load t (paths 0) = .error (.brokenChain (paths 16))) := by
  refine ⟨⟨?_, h.exists_load⟩, h.load_eq_brokenChain⟩
  rintro ⟨config, hconfig⟩
  by_contra hn
  rw [h.load_eq_brokenChain (Nat.lt_of_not_le hn)] at hconfig
  cases hconfig

/-! ### A ladder -/

/-- What is behind the first file of a chain is a chain. -/
theorem Ends.tail (h : Ends t paths (n + 1)) : Ends t (fun i => paths (i + 1)) n where
  hops i hi := h.hops (i + 1) (Nat.succ_lt_succ hi)
  last := h.last

/-- Configurations that are named by letters. -/
def rung (i : Nat) : Path := ⟨String.singleton (Char.ofNat ('a'.toNat + i))⟩

/-- Seventeen configurations, each of which extends the next one; the last one is empty. -/
def ladder : FileTree where
  below place :=
    if place = [['w']] then some .directory
    else ((List.range 17).find? fun i => place = [['w'], (rung i).chars]).map fun i =>
      .file (Text.Utf8.encode
        (if i < 16 then "\x7b\"extends\":\"" ++ (rung (i + 1)).text ++ "\"\x7d" else "\x7b\x7d"))
  workingDirectory := [['w']]

theorem ends_ladder : Ends ladder rung 16 := by decide +kernel

theorem load_iff_hops_ladder :
    (Ends ladder (fun i => rung (i + 1)) 15 ∧ ∃ config, load ladder (rung 1) = .ok config) ∧
    Ends ladder rung 16 ∧ load ladder (rung 0) = .error (.brokenChain (rung 16)) :=
  ⟨⟨ends_ladder.tail, (load_iff_hops ends_ladder.tail).1.mpr (Nat.le_refl 15)⟩, ends_ladder,
    (load_iff_hops ends_ladder).2 (Nat.lt_succ_self 15)⟩

/-- Sixteen hops over different files are too many. -/
theorem not_loaded_over_sixteen_hops :
    Ends ladder rung 16 ∧ (∀ i j, i < j → j ≤ 16 → rung i ≠ rung j) ∧
    ¬ ∃ config, load ladder (rung 0) = .ok config := by
  refine ⟨ends_ladder, fun i j hij hj heq => ends_ladder.components_ne hij hj (congrArg _ heq), ?_⟩
  rintro ⟨config, hconfig⟩
  rw [ends_ladder.load_eq_brokenChain (Nat.lt_succ_self 15)] at hconfig
  cases hconfig

end LintMargin.LintConfig
