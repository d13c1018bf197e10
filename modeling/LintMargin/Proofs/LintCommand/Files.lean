import LintMargin.LintCommand
import LintMargin.Proofs.Session.Finding
import LintMargin.Proofs.Terminal

/-!
# Files one after another

Between two files a session is at rest: what it holds is consistent, no cursor is left behind and its
services are steady. From there what is printed about a file is a matter of the file and the settings
alone, and the session comes to rest again; so a run over many files prints what runs over each of them
would.
-/

namespace LintMargin

universe u

variable {σ : Type u}

namespace LintCommand

open LintMargin.Session (Undisturbed)

variable {sv : Services σ} {About : Path → Prop} {Good : σ → Prop} {settings : Settings}
  {t : FileTree} {s r : Session σ} {path : Path} {text : String} {doc : DocumentId}

/-- A session between two files. Which documents were open before, and what was found in them, is of no
account. -/
structure AtRest (Good : σ → Prop) (settings : Settings) (s : Session σ) : Prop where
  consistent : s.Consistent
  manner : s.editor.manner = .plain
  cursors : s.editor.cursors = ∅
  settings : s.settings = settings
  services : Good s.services

theorem atRest_startSession {Good : Loader → Prop} {home : Option Path} (h : Good (.withHome home))
    (settings : Settings) : AtRest Good settings (startSession home settings) where
  consistent := Session.consistent_start .plain none _ settings
  manner := rfl
  cursors := rfl
  settings := rfl
  services := h

/-! ### One file -/

/-- A file as a document. -/
def document (path : Path) (text : String) : Document := ⟨text, some path, Terminal.grammarFor path⟩

/-- A file was opened. -/
def opened (doc : DocumentId) (path : Path) (text : String) (s : Session σ) : Session σ :=
  { s with editor := Terminal.openFile s.editor doc path text }

/-- The issues in a file, if it has any. -/
def issues? (sv : Services σ) (path : Path) (text : String) (s : Session σ) : Option Diagnostics :=
  (s.finds sv (document path text)).filter fun diagnostics => diagnostics.size ≠ 0

/-- What is printed about a file. -/
def printed (path : Path) (text : String) (issues : Option Diagnostics) : String :=
  (issues.map (Terminal.printout (document path text))).getD ""

theorem AtRest.open_file (hs : AtRest Good settings s) (doc : DocumentId) (path : Path)
    (text : String) : AtRest Good settings (opened doc path text s) where
  consistent := hs.consistent.congr rfl rfl rfl rfl rfl rfl (Nat.le_refl _)
  manner := hs.manner
  cursors := hs.cursors
  settings := hs.settings
  services := hs.services

/-- Closing a file brings a session to rest. -/
theorem AtRest.close_file (hs : AtRest Good settings s) (doc : DocumentId) :
    AtRest Good settings (close doc s) where
  consistent := ((Session.closed_moves doc s).consistent hs.consistent).congr rfl rfl rfl rfl rfl rfl
    (Nat.le_refl _)
  manner := (Session.undisturbed_closed s doc).editor.manner.trans hs.manner
  cursors := by
    have hcursors : (s.closed doc).editor.cursors = ∅ :=
      (Session.undisturbed_closed s doc).editor.cursors.trans hs.cursors
    change (s.closed doc).editor.cursors.erase doc = ∅
    rw [hcursors]
    rfl
  settings := (Session.undisturbed_closed s doc).settings.trans hs.settings
  services := hs.services

theorem about_document (habout : About path) : ∀ p, (document path text).path = some p → About p :=
  fun _ hp => Option.some.inj hp ▸ habout

/-- The pass over a file that was opened. -/
theorem AtRest.exists_pass (hs : AtRest Good settings s) (hsv : sv.Steady About Good)
    (habout : About path) (doc : DocumentId) (text : String) :
    ∃ r, Undisturbed (opened doc path text s) r ∧ Good r.services ∧
      r.editor.documents.get? doc = some (document path text) ∧
      r.finds sv (document path text) = s.finds sv (document path text) ∧
      openAndLint sv doc path text s = ((r.runPass sv doc).1,
        if (r.runPass sv doc).1.isSkipped then (r.runPass sv doc).2.updateStatus
        else (r.runPass sv doc).2) := by
  have hundisturbed := Session.undisturbed_attend (opened doc path text s) doc
  have hgood : Good ((opened doc path text s).attend doc).services :=
    (Session.services_attend (opened doc path text s) doc).symm ▸ hs.services
  refine ⟨_, hundisturbed, hgood, ?_, ?_, Session.activated_eq sv doc (opened doc path text s)⟩
  · rw [hundisturbed.editor.documents]
    exact SortedMap.get?_insert_self ..
  · exact Session.finds_eq_of_steady hsv (about_document habout) hs.services hgood
      hundisturbed.settings

theorem AtRest.lint_file (hs : AtRest Good settings s) (hsv : sv.Steady About Good)
    (habout : About path) (doc : DocumentId) (text : String) :
    AtRest Good settings (openAndLint sv doc path text s).2 := by
  have ho := hs.open_file doc path text
  have hmoves : Session.Moves (opened doc path text s) (openAndLint sv doc path text s).2 :=
    Session.activated_moves sv doc _
  obtain ⟨r, hundisturbed, hgood, hdoc, -, hlint⟩ := hs.exists_pass hsv habout doc text
  have hpassed := hundisturbed.trans (Session.confined_runPass sv doc r).undisturbed
  have hleft := Session.keeps_runPass hsv.keeps
    (fun d p hd => Option.some.inj (hdoc.symm.trans hd) ▸ about_document habout p) hgood
  have hafter : Undisturbed (opened doc path text s) (openAndLint sv doc path text s).2 ∧
      Good (openAndLint sv doc path text s).2.services := by
    rw [hlint]
    dsimp only
    split
    · exact ⟨hpassed.trans (Session.confined_updateStatus _).undisturbed, hleft⟩
    · exact ⟨hpassed, hleft⟩
  exact {
    consistent := hmoves.consistent ho.consistent
    manner := hafter.1.editor.manner.trans ho.manner
    cursors := hafter.1.editor.cursors.trans ho.cursors
    settings := hafter.1.settings.trans ho.settings
    services := hafter.2 }

/-- A file with issues is printed with just these. -/
theorem AtRest.lint_issues (hs : AtRest Good settings s) (hsv : sv.Steady About Good)
    (habout : About path) (doc : DocumentId) {diagnostics : Diagnostics}
    (hissues : issues? sv path text s = some diagnostics) :
    (openAndLint sv doc path text s).1 = .linted diagnostics.size ∧ diagnostics.size ≠ 0 ∧
      Terminal.report (openAndLint sv doc path text s).2.editor doc =
        Terminal.printout (document path text) diagnostics := by
  obtain ⟨hfinds, hsize⟩ := Option.filter_eq_some_iff.mp hissues
  have hlast := (hs.lint_file hsv habout doc text).consistent
  obtain ⟨r, hundisturbed, -, hdoc, hsame, hlint⟩ := hs.exists_pass hsv habout doc text
  obtain ⟨q, hpass, hstored, hread⟩ := Session.exists_render_of_finds hdoc (hsame.trans hfinds)
  rw [hpass] at hlint
  rw [hlint] at hlast ⊢
  refine ⟨rfl, of_decide_eq_true hsize, ?_⟩
  have hq := (hundisturbed.trans hread).editor
  have hdrawn : (q.render doc).Consistent := hlast.congr rfl rfl rfl rfl rfl rfl (Nat.le_refl _)
  rw [← hstored]
  refine Terminal.report_render (d := document path text) hdrawn (hq.manner.trans hs.manner) ?_
    hq.active ?_
  · rw [hq.documents]
    exact SortedMap.get?_insert_self ..
  · rw [hq.cursors, (hs.open_file doc path text).cursors]
    rfl

/-- A file without issues is not linted, or nothing is found in it. -/
theorem AtRest.lint_no_issues (hs : AtRest Good settings s) (hsv : sv.Steady About Good)
    (habout : About path) (doc : DocumentId) (hissues : issues? sv path text s = none) (rows : Nat)
    (hlinted : (openAndLint sv doc path text s).1 = .linted rows) : rows = 0 := by
  obtain ⟨r, -, -, hdoc, hsame, hlint⟩ := hs.exists_pass hsv habout doc text
  rw [hlint] at hlinted
  cases hfinds : s.finds sv (document path text) with
  | none => exact absurd hlinted (Session.not_linted_of_finds_eq_none hdoc (hsame.trans hfinds) rows)
  | some diagnostics =>
      obtain ⟨q, hpass, -⟩ := Session.exists_render_of_finds hdoc (hsame.trans hfinds)
      rw [hpass] at hlinted
      obtain rfl := Outcome.linted.inj hlinted
      simpa [issues?, hfinds, Option.filter] using hissues

/-! ### All files -/

/-- One file more: what is printed about it comes first. -/
theorem AtRest.exists_lintFiles_cons (hs : AtRest Good settings s) (hsv : sv.Steady About Good)
    (habout : About path) {content : List Char} (hread : t.readText path = .ok content) (number : Nat)
    (rest : List Path) :
    ∃ next, AtRest Good settings next ∧ lintFiles t sv number (path :: rest) s =
      let issues := issues? sv path (String.ofList content) s
      let later := lintFiles t sv (number + 1) rest next
      { later with
        printed := printed path (String.ofList content) issues ++ later.printed
        hasIssues := issues.isSome || later.hasIssues } := by
  have hlast := hs.lint_file hsv habout ⟨UInt64.ofNat number⟩ (String.ofList content)
  refine ⟨_, hlast.close_file ⟨UInt64.ofNat number⟩, ?_⟩
  rw [lintFiles, hread]
  dsimp only
  rw [hsv.running hlast.services, if_neg Bool.false_ne_true]
  cases hissues : issues? sv path (String.ofList content) s with
  | some diagnostics =>
      obtain ⟨houtcome, hsize, hreport⟩ := hs.lint_issues hsv habout ⟨UInt64.ofNat number⟩ hissues
      simp [houtcome, hsize, hreport, printed]
  | none =>
      have hnone := hs.lint_no_issues hsv habout ⟨UInt64.ofNat number⟩ hissues
      cases houtcome : (openAndLint sv ⟨UInt64.ofNat number⟩ path (String.ofList content) s).1 with
      | linted rows =>
          obtain rfl := hnone rows houtcome
          simp [printed]
      | skipped reason => simp [printed]
      | ignored => simp [printed]

theorem issues?_eq_of_atRest (hs : AtRest Good settings s) (hr : AtRest Good settings r)
    (hsv : sv.Steady About Good) (habout : About path) (text : String) :
    issues? sv path text r = issues? sv path text s := by
  rw [issues?, issues?, Session.finds_eq_of_steady hsv (about_document habout) hs.services hr.services
    (hr.settings.trans hs.settings.symm)]

theorem lintFiles_nil (t : FileTree) (sv : Services σ) (number : Nat) (s : Session σ) :
    lintFiles t sv number [] s = ⟨"", false, true, false, s⟩ := rfl

/-- Whether a file can be linted at all. -/
def readable (t : FileTree) (path : Path) : Bool := (t.readText path).isOk

theorem AtRest.lintFiles_alone (hs : AtRest Good settings s) (hsv : sv.Steady About Good)
    (habout : About path) {content : List Char} (hread : t.readText path = .ok content) (number : Nat) :
    let issues := issues? sv path (String.ofList content) s
    let alone := lintFiles t sv number [path] s
    alone.printed = printed path (String.ofList content) issues ∧ alone.hasIssues = issues.isSome := by
  intro issues alone
  obtain ⟨last, -, hcons⟩ := hs.exists_lintFiles_cons hsv habout hread number []
  simp only [alone]
  rw [hcons, lintFiles_nil]
  exact ⟨String.append_empty, Bool.or_false _⟩

/-- A run over some files in one session prints what runs over each of them alone in another one do, up
to the first file that cannot be read. -/
theorem AtRest.lintFiles_apart (hs : AtRest Good settings s) (hr : AtRest Good settings r)
    (hsv : sv.Steady About Good) {files : List Path}
    (habout : ∀ f ∈ files.takeWhile (readable t), About f) (number : Nat) :
    let alone := fun f => lintFiles t sv 1 [f] r
    let read := files.takeWhile (readable t)
    let together := lintFiles t sv number files s
    together.printed = String.join (read.map fun f => (alone f).printed) ∧
      together.hasIssues = read.any (fun f => (alone f).hasIssues) ∧
      together.complete = files.all (readable t) ∧ together.halted = false := by
  induction files generalizing s number with
  | nil => exact ⟨rfl, rfl, rfl, rfl⟩
  | cons path rest ih =>
      intro alone read together
      cases hread : t.readText path with
      | error e =>
          have hunreadable : readable t path = false := by rw [readable, hread]; rfl
          simp [together, read, lintFiles, hread, hunreadable, String.join]
      | ok content =>
          have hreadable : readable t path = true := by rw [readable, hread]; rfl
          rw [List.takeWhile_cons_of_pos hreadable, List.forall_mem_cons] at habout
          have hsame := issues?_eq_of_atRest hs hr hsv habout.1 (String.ofList content)
          obtain ⟨next, hnext, hcons⟩ := hs.exists_lintFiles_cons hsv habout.1 hread number rest
          have hfirst := hr.lintFiles_alone hsv habout.1 hread 1
          obtain ⟨hprinted, hissues, hcomplete, hhalted⟩ := ih hnext habout.2 (number + 1)
          rw [hsame] at hfirst
          have hmore : read = path :: rest.takeWhile (readable t) :=
            List.takeWhile_cons_of_pos hreadable
          simp only [together]
          rw [hcons, hmore]
          refine ⟨?_, ?_, ?_, hhalted⟩
          · rw [List.map_cons, String.join_cons]
            exact congrArg₂ (· ++ ·) hfirst.1.symm hprinted
          · rw [List.any_cons]
            exact congrArg₂ (· || ·) hfirst.2.symm hissues
          · rw [List.all_cons, hreadable, Bool.true_and]
            exact hcomplete

/-! ### The exit code -/

theorem Result.exitCode_of_not_halted {res : Result σ} (h : res.halted = false) :
    res.exitCode = if res.complete then if res.hasIssues then 1 else 0 else 2 := by
  rw [exitCode, h, if_neg Bool.false_ne_true]

theorem AtRest.exitCode_alone (hs : AtRest Good settings s) (hsv : sv.Steady About Good)
    (habout : About path) (hread : readable t path = true) :
    (lintFiles t sv 1 [path] s).exitCode = if (lintFiles t sv 1 [path] s).hasIssues then 1 else 0 := by
  have habout' : ∀ f ∈ [path].takeWhile (readable t), About f := fun f hf => by
    obtain rfl := List.mem_singleton.mp ((List.takeWhile_sublist _).subset hf)
    exact habout
  obtain ⟨-, -, hcomplete, hhalted⟩ := hs.lintFiles_apart hs hsv habout' 1
  rw [Result.exitCode_of_not_halted hhalted, hcomplete, List.all_cons, hread]
  rfl

/-- A run over some files ends with 2 if one of them cannot be read, else with 1 if one of them alone makes
a run end so, else with 0. -/
theorem AtRest.exitCode_apart (hs : AtRest Good settings s) (hr : AtRest Good settings r)
    (hsv : sv.Steady About Good) {files : List Path}
    (habout : ∀ f ∈ files.takeWhile (readable t), About f) (number : Nat) :
    (lintFiles t sv number files s).exitCode =
      if ∃ f ∈ files, readable t f = false then 2
      else if ∃ f ∈ files, (lintFiles t sv 1 [f] r).exitCode = 1 then 1 else 0 := by
  obtain ⟨-, hissues, hcomplete, hhalted⟩ := hs.lintFiles_apart hr hsv habout number
  rw [Result.exitCode_of_not_halted hhalted, hcomplete]
  by_cases hunreadable : ∃ f ∈ files, readable t f = false
  · rw [if_pos hunreadable, if_neg]
    simpa using hunreadable
  · have hreadable : ∀ f ∈ files, readable t f = true := by simpa using hunreadable
    rw [List.takeWhile_eq_self_iff.mpr hreadable] at hissues habout
    have hany : (∃ f ∈ files, (lintFiles t sv 1 [f] r).exitCode = 1) ↔
        (lintFiles t sv number files s).hasIssues = true := by
      rw [hissues, List.any_eq_true]
      refine exists_congr fun f => and_congr_right fun hf => ?_
      rw [hr.exitCode_alone hsv (habout f hf) (hreadable f hf)]
      simp
    rw [if_neg hunreadable, if_pos (List.all_eq_true.mpr hreadable)]
    simp only [hany]

end LintCommand

end LintMargin
