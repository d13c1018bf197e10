import LintMargin.Config.Extends
import LintMargin.Proofs.FileTree

/-!
# Chains of configurations and spelling

A chain is read alike from two spellings of its first path, as long as no path on either chain is too
long. Only the paths in error messages may differ.
-/

namespace LintMargin.LintConfig

open FileTree (Fits)

variable {t : FileTree} {p q : Path}

/-- The path that a configuration file extends. -/
def extended? (t : FileTree) (path : Path) : Option Path :=
  match t.readText path with
  | .error _ => none
  | .ok text =>
    match readMembers (String.ofList text) with
    | .error _ => none
    | .ok options =>
      match options.get? "extends" with
      | some (.string name) => some (extendedPath path name)
      | _ => none

/-- The paths that are looked at when a chain is read. -/
def chain (t : FileTree) (visited : List (List Path.Component)) : Nat → Path → List Path
  | 0, _ => []
  | left + 1, path =>
    if visited.contains path.components then []
    else path :: (extended? t path).elim [] (chain t (path.components :: visited) left)

/-- No path is too long when the chain from a path is read. -/
def ChainFits (t : FileTree) (path : Path) : Prop := ∀ p ∈ chain t [] maxFiles path, Fits p

instance (t : FileTree) (path : Path) : Decidable (ChainFits t path) :=
  inferInstanceAs (Decidable (∀ p ∈ chain t [] maxFiles path, Fits p))

theorem extendedPath_alike (h : p.components = q.components) (name : String) :
    (extendedPath p name).Alike (extendedPath q name) := by
  have hparents := Path.parent?_congr h
  unfold extendedPath
  cases hp : p.parent? with
  | none =>
      rw [hp] at hparents
      rw [Option.map_eq_none_iff.mp hparents.symm]
      exact .refl _
  | some a =>
      rw [hp] at hparents
      obtain ⟨b, hb, hab⟩ := Option.map_eq_some_iff.mp hparents.symm
      rw [hb]
      exact Path.alike_join hab.symm name

/-- A chain that can be read: the first file, and the rest of the chain below its options. -/
theorem toOption_readChain_succ (visited : List (List Path.Component)) (left : Nat) (path : Path) :
    (readChain t visited (left + 1) path).toOption =
      if path.components ∈ visited then none
      else (t.readText path).toOption.bind fun text =>
        (readMembers (String.ofList text)).toOption.bind fun options =>
          match options.get? "extends" with
          | none => some options
          | some (.string name) =>
            (readChain t (path.components :: visited) left (extendedPath path name)).toOption.map
              (overlay · (options.erase "extends"))
          | some _ => none := by
  rw [readChain]
  split
  · rfl
  · cases t.readText path with
    | error cause => rfl
    | ok text =>
        simp only [Except.toOption, Option.bind_some]
        cases readMembers (String.ofList text) with
        | error e => rfl
        | ok options =>
            simp only [bind, Except.bind, Option.bind_some]
            cases options.get? "extends" with
            | none => rfl
            | some value =>
                cases value with
                | string name =>
                    dsimp only
                    cases readChain t (path.components :: visited) left (extendedPath path name) <;> rfl
                | _ => rfl

theorem chain_succ_of_not_visited {visited : List (List Path.Component)} {left : Nat}
    (h : p.components ∉ visited) :
    chain t visited (left + 1) p =
      p :: (extended? t p).elim [] (chain t (p.components :: visited) left) := by
  rw [chain, if_neg (by simpa using h)]

/-- What a chain gives does not depend on the spelling of its first path. -/
theorem readChain_congr {visited : List (List Path.Component)} {left : Nat} (h : p.Alike q)
    (hp : ∀ r ∈ chain t visited left p, Fits r) (hq : ∀ r ∈ chain t visited left q, Fits r) :
    (readChain t visited left p).toOption = (readChain t visited left q).toOption := by
  induction left generalizing visited p q with
  | zero => rfl
  | succ left ih =>
      rw [toOption_readChain_succ, toOption_readChain_succ, ← h.components]
      split
      · rfl
      next hvisited =>
      rw [chain_succ_of_not_visited hvisited] at hp
      rw [chain_succ_of_not_visited (h.components ▸ hvisited), ← h.components] at hq
      obtain ⟨hpfits, hp⟩ := List.forall_mem_cons.mp hp
      obtain ⟨hqfits, hq⟩ := List.forall_mem_cons.mp hq
      have hread : t.readText p = t.readText q :=
        FileTree.readText_congr (FileTree.node_congr h hpfits hqfits)
      rw [extended?] at hp hq
      rw [← hread] at hq ⊢
      cases htext : t.readText p with
      | error cause => rfl
      | ok text =>
          rw [htext] at hp hq
          simp only [Except.toOption, Option.bind_some]
          cases hmembers : readMembers (String.ofList text) with
          | error e => rfl
          | ok options =>
              simp only [hmembers] at hp hq
              simp only [Option.bind_some]
              cases hextends : options.get? "extends" with
              | none => rfl
              | some value =>
                  cases value with
                  | string name =>
                      rw [hextends] at hp hq
                      have hbase := ih (extendedPath_alike h.components name) hp hq
                      exact congrArg (Option.map (overlay · (options.erase "extends"))) hbase
                  | _ => rfl

/-- Two spellings of a configuration give the same options, or both give none. -/
theorem load_congr (h : p.Alike q) (hp : ChainFits t p) (hq : ChainFits t q) :
    (load t p).toOption.map options = (load t q).toOption.map options := by
  have hchain : (readChain t [] maxFiles p).toOption = (readChain t [] maxFiles q).toOption :=
    readChain_congr h hp hq
  unfold load
  cases hreadp : readChain t [] maxFiles p <;> cases hreadq : readChain t [] maxFiles q <;>
    rw [hreadp, hreadq] at hchain <;> cases hchain <;> rfl

end LintMargin.LintConfig
