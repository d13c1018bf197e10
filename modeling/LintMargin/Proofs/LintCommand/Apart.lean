import LintMargin.Proofs.Config.Steady
import LintMargin.Proofs.LintCommand.Files

/-!
# Linting many files is linting each

One run over many files prints and finds what a run over each of them does, unless some of the paths begin
with two slashes and others do not. Then the loader may remember an ignore file by a spelling of its
directory that a later path does not begin with, and the rules in it cannot be asked about that path.
-/

namespace LintMargin.LintCommand

open LintMargin.Path (BeginsDoubly slashesOf)

variable {t : FileTree} {runner : Runner} {home : Option Path} {o : LintOptions} {s : Settings}

/-- Either none of some files begins with two slashes, or all of them do. -/
theorem exists_slashesOf_eq {files : List Path}
    (h : ∀ f ∈ files, ∀ g ∈ files, BeginsDoubly f.chars → BeginsDoubly g.chars) :
    ∃ slashes, ∀ f ∈ files, slashesOf f.chars = slashes := by
  by_cases hsome : ∃ f ∈ files, BeginsDoubly f.chars
  · obtain ⟨f, hf, hdoubly⟩ := hsome
    exact ⟨['/', '/'], fun g hg => if_pos (h f hf g hg hdoubly)⟩
  · exact ⟨['/'], fun g hg => if_neg fun hdoubly => hsome ⟨g, hg, hdoubly⟩⟩

theorem run_eq_lintFiles (hsettings : settings t o = .ok s) (files : List Path) :
    run t runner home o files =
      lintFiles t (.ofFiles t runner o.programs) 1 files (startSession home s) := by
  rw [run, hsettings]

/-- A run over some files prints what runs over each of them print, one after another, up to the first
file that cannot be read. It ends with 2 if there is such a file, else with 1 if one of the files alone
makes a run end with 1, else with 0. It takes that no file that is read begins with two slashes unless all
of them do. -/
theorem run_apart (ht : t.Proper) (hsettings : settings t o = .ok s) {files : List Path}
    (hfiles : ∀ f ∈ files.takeWhile (readable t), ∀ g ∈ files.takeWhile (readable t),
      BeginsDoubly f.chars → BeginsDoubly g.chars) :
    let alone := fun f => run t runner home o [f]
    let together := run t runner home o files
    together.printed = String.join ((files.takeWhile (readable t)).map fun f => (alone f).printed) ∧
      together.exitCode = if ∃ f ∈ files, readable t f = false then 2
        else if ∃ f ∈ files, (alone f).exitCode = 1 then 1 else 0 := by
  intro alone together
  obtain ⟨slashes, hslashes⟩ := exists_slashesOf_eq hfiles
  have hsv := Services.steady_ofFiles ht runner o.programs slashes home
  have hstart := atRest_startSession (Loader.sound_withHome t slashes home) s
  simp only [together, alone, run_eq_lintFiles hsettings]
  exact ⟨(hstart.lintFiles_apart hstart hsv hslashes 1).1,
    hstart.exitCode_apart hstart hsv hslashes 1⟩

/-- Two files, one of which is excluded. -/
def excluding : FileTree :=
  (((FileTree.bare [['w']]).write ⟨".jshintignore"⟩ (.file (Text.Utf8.encode "/a.js\n"))).write ⟨"a.js"⟩
    (.file (Text.Utf8.encode "x"))).write ⟨"b.js"⟩ (.file (Text.Utf8.encode "y"))

/-- A linter that finds the same in every source. -/
def complaining : Runner := fun _ =>
  .ok ⟨Text.Utf8.encode "stdin:1:1: Missing semicolon. (W033)\n", [], .code 2⟩

/-- A file is linted before and after one that is excluded, and by another spelling; what comes after the
one that is missing is not linted. -/
theorem run_apart_excluding :
    let o : LintOptions := ⟨false, false, none, {}⟩
    let alone := fun f => run excluding complaining none o [f]
    let together := run excluding complaining none o
      [⟨"b.js"⟩, ⟨"a.js"⟩, ⟨"./b.js"⟩, ⟨"c.js"⟩, ⟨"b.js"⟩]
    together.printed = String.join [(alone ⟨"b.js"⟩).printed, (alone ⟨"a.js"⟩).printed,
      (alone ⟨"./b.js"⟩).printed] ∧ together.exitCode = 2 := by
  intro o alone together
  let files : List Path := [⟨"b.js"⟩, ⟨"a.js"⟩, ⟨"./b.js"⟩, ⟨"c.js"⟩, ⟨"b.js"⟩]
  have hread : files.takeWhile (readable excluding) = [⟨"b.js"⟩, ⟨"a.js"⟩, ⟨"./b.js"⟩] := by
    decide +kernel
  have hapart := @run_apart excluding complaining none o _ (by decide +kernel) rfl files
    (by rw [hread]; decide)
  rw [hread] at hapart
  exact ⟨hapart.1, hapart.2.trans (if_pos (by decide +kernel))⟩

/-! ### Two slashes -/

/-- An excluded file, first by a spelling that begins with two slashes. -/
theorem run_not_apart :
    let o : LintOptions := ⟨false, false, none, {}⟩
    let alone := fun f => run excluding complaining none o [f]
    (alone ⟨"//w/a.js"⟩).exitCode = 0 ∧ (alone ⟨"/w/a.js"⟩).exitCode = 0 ∧
      (run excluding complaining none o [⟨"//w/a.js"⟩, ⟨"/w/a.js"⟩]).exitCode = 101 := by
  decide +kernel

end LintMargin.LintCommand
