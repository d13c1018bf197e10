import LintMargin.Proofs.Config.Memory
import LintMargin.Proofs.Session.Desk

/-!
# What a pass finds

Services are steady if what they were asked before does not show in their answers. With such services
what a pass finds in a document is a matter of the document and the settings alone, whatever else the
session holds.
-/

namespace LintMargin

universe u

variable {σ : Type u}

/-- While their state passes the test, services answer questions about some files in one way, and their
state goes on to pass it. -/
structure Services.Steady (sv : Services σ) (About : Path → Prop) (Good : σ → Prop) : Prop where
  isIgnored : ∀ {path a b}, About path → Good a → Good b →
    (sv.isIgnored path a).1 = (sv.isIgnored path b).1
  resolve : ∀ {path a b}, About path → Good a → Good b →
    (sv.resolve path a).1.Agrees (sv.resolve path b).1
  lint : ∀ flavor source {c d : LintConfig} {a b}, c.Agrees d → Good a → Good b →
    (sv.lint flavor source c c.globals? a).1 = (sv.lint flavor source d d.globals? b).1
  good_isIgnored : ∀ {path a}, About path → Good a → Good (sv.isIgnored path a).2
  good_resolve : ∀ {path a}, About path → Good a → Good (sv.resolve path a).2
  good_lint : ∀ flavor source config globals {a}, Good a →
    Good (sv.lint flavor source config globals a).2
  running : ∀ {a}, Good a → sv.halted a = false

theorem Services.Steady.keeps {sv : Services σ} {About : Path → Prop} {Good : σ → Prop}
    (hsv : sv.Steady About Good) : sv.Keeps About Good :=
  ⟨hsv.good_isIgnored, hsv.good_resolve, hsv.good_lint _ _ _ _⟩

theorem LintConfig.Agrees.isDiscovered {c d : LintConfig} (h : c.Agrees d) :
    c.isDiscovered = d.isDiscovered := by
  simpa [LintConfig.isDiscovered] using congrArg Option.isSome h.source

namespace Session

variable {sv : Services σ} {About : Path → Prop} {Good : σ → Prop} {s t : Session σ}
  {doc : DocumentId} {d : Document}

/-- What a pass finds in a document: nothing unless it is linted. -/
def finds (sv : Services σ) (d : Document) (s : Session σ) : Option Diagnostics :=
  if isSupportedGrammar d.grammar && !s.isExcluded sv d &&
      !(s.settings.onlyConfig && !(s.lookUp sv d).1.isDiscovered) then
    some (diagnosticsOf s.settings d
      (.ofAnswer ((s.lookUp sv d).2.linterAnswer sv d (s.lookUp sv d).1)))
  else none

/-! ### Finding and passing -/

/-- A pass that finds something has drawn just that. -/
theorem exists_render_of_finds {diagnostics : Diagnostics}
    (hdoc : s.editor.documents.get? doc = some d) (hfinds : s.finds sv d = some diagnostics) :
    ∃ r, s.runPass sv doc = (.linted diagnostics.size, (r.render doc).setPhase doc .annotated) ∧
      r.store.diagnostics doc = diagnostics ∧ Undisturbed s r := by
  obtain ⟨hgoes, hfound⟩ := Option.ite_none_right_eq_some.mp hfinds
  obtain rfl := Option.some.inj hfound
  simp only [Bool.and_eq_true, Bool.not_eq_true'] at hgoes
  obtain ⟨⟨hgrammar, hexcluded⟩, hconfig⟩ := hgoes
  have hpass := runPass_eq_lintDocument hdoc hgrammar hexcluded (by simpa using hconfig)
  rw [lintDocument_eq, settings_lookUp] at hpass
  refine ⟨_, hpass, ?_, (confined_lookUp sv d s).undisturbed.trans ⟨⟨rfl, rfl⟩, rfl⟩⟩
  rw [stored]
  dsimp only
  rw [Store.diagnostics_insert_self, settings_lookUp]

theorem not_linted_of_finds_eq_none (hdoc : s.editor.documents.get? doc = some d)
    (hfinds : s.finds sv d = none) (rows : Nat) : (s.runPass sv doc).1 ≠ .linted rows := by
  intro hlinted
  obtain ⟨d', hdoc', hgrammar, hexcluded, hconfig, -⟩ := exists_lintDocument_of_linted hlinted
  obtain rfl : d = d' := Option.some.inj (hdoc.symm.trans hdoc')
  have hgoes : (s.settings.onlyConfig && !(s.lookUp sv d).1.isDiscovered) = false := by
    simpa using hconfig
  simp [finds, hgrammar, hexcluded, hgoes] at hfinds

/-! ### Steady services -/

theorem isExcluded_eq_of_steady (hsv : sv.Steady About Good) (habout : ∀ p, d.path = some p → About p)
    (hs : Good s.services) (ht : Good t.services) : t.isExcluded sv d = s.isExcluded sv d := by
  unfold isExcluded
  cases hpath : d.path with
  | none => rfl
  | some path => exact hsv.isIgnored (habout path hpath) ht hs

theorem lookUp_agrees_of_steady (hsv : sv.Steady About Good) (habout : ∀ p, d.path = some p → About p)
    (hs : Good s.services) (ht : Good t.services) :
    (t.lookUp sv d).1.Agrees (s.lookUp sv d).1 := by
  unfold lookUp
  cases hpath : d.path with
  | none => exact .refl _
  | some path =>
      have habout := habout path hpath
      exact hsv.resolve habout (hsv.good_isIgnored habout ht) (hsv.good_isIgnored habout hs)

/-- Two passes over one document find the same in it. -/
theorem finds_eq_of_steady (hsv : sv.Steady About Good) (habout : ∀ p, d.path = some p → About p)
    (hs : Good s.services) (ht : Good t.services) (hsettings : t.settings = s.settings) :
    t.finds sv d = s.finds sv d := by
  have hexcluded := isExcluded_eq_of_steady hsv habout hs ht
  have hconfig := lookUp_agrees_of_steady hsv habout hs ht
  have hanswer : (t.lookUp sv d).2.linterAnswer sv d (t.lookUp sv d).1 =
      (s.lookUp sv d).2.linterAnswer sv d (s.lookUp sv d).1 := by
    simp only [linterAnswer, settings_lookUp, hsettings]
    exact hsv.lint _ _ hconfig (keeps_lookUp hsv.keeps habout ht) (keeps_lookUp hsv.keeps habout hs)
  rw [finds, finds, hexcluded, hsettings, hconfig.isDiscovered, hanswer]

end Session

end LintMargin
