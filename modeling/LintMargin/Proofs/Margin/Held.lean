import LintMargin.Proofs.Editor
import Mathlib.Logic.Function.Basic

/-!
# What is held of the margin

The session keeps the handle of every anchor and tooltip it made. `Held` says that these handles and the
things the editor shows are in one-to-one correspondence. Each request that the session makes keeps the
correspondence, if the books are brought up to date with it.
-/

namespace LintMargin

open Function (update)

/-- The decorations of an anchor that is ready. -/
def Decoration.both : List Decoration := [.line, .lineNumber]

namespace Anchors

theorem anchor?_insert (a : Anchors) (doc : DocumentId) (held : SortedMap Row Handle)
    (d : DocumentId) (row : Row) :
    Anchors.anchor? (a.insert doc held) d row = if doc = d then held.get? row else a.anchor? d row := by
  rw [anchor?, ofDocument, SortedMap.get?_insert]
  split <;> rfl

theorem anchor?_erase (a : Anchors) (doc d : DocumentId) (row : Row) :
    Anchors.anchor? (a.erase doc) d row = if doc = d then none else a.anchor? d row := by
  rw [anchor?, ofDocument, SortedMap.get?_erase]
  split <;> rfl

end Anchors

/-- The anchors and tooltips that the editor shows are those that are held: an anchor by its document and
row, tooltips by their document. -/
structure Held (tooltips : DocumentId → List Handle) (a : Anchors) (e : Editor) : Prop where
  anchor : ∀ h m, e.markers.get? h = some m ↔
    m.decorations = Decoration.both ∧ a.anchor? m.doc m.row = some h
  tooltip : ∀ h doc, h ∈ tooltips doc ↔ ∃ t, e.tooltips.get? h = some (doc, t)
  distinct : ∀ doc, (tooltips doc).Nodup
  anchor_issued : ∀ h m, e.markers.get? h = some m → e.Issued h
  tooltip_issued : ∀ h t, e.tooltips.get? h = some t → e.Issued h

namespace Held

variable {tooltips : DocumentId → List Handle} {a : Anchors} {e : Editor}

theorem empty (manner : Manner) (status : Option String) :
    Held (fun _ => []) ∅ (.fresh manner status) := by
  constructor <;> simp [Editor.fresh, Anchors.anchor?, Anchors.ofDocument]

/-- The correspondence is about nothing but what the editor shows in the margin. -/
theorem congr {f : Editor} (hheld : Held tooltips a e) (hmarkers : f.markers = e.markers)
    (htooltips : f.tooltips = e.tooltips) (hmanner : f.manner = e.manner)
    (hissued : e.issued ≤ f.issued) : Held tooltips a f where
  anchor h m := by rw [hmarkers]; exact hheld.anchor h m
  tooltip h doc := by rw [htooltips]; exact hheld.tooltip h doc
  distinct := hheld.distinct
  anchor_issued h m hm :=
    (hheld.anchor_issued h m (hmarkers ▸ hm)).mono hmanner hissued
  tooltip_issued h t ht :=
    (hheld.tooltip_issued h t (htooltips ▸ ht)).mono hmanner hissued

/-! ### Handles name one thing -/

theorem marker_of_anchor (hheld : Held tooltips a e) {doc : DocumentId} {row : Row} {h : Handle}
    (ha : a.anchor? doc row = some h) :
    e.markers.get? h = some ⟨doc, row, Decoration.both⟩ :=
  (hheld.anchor h ⟨doc, row, Decoration.both⟩).mpr ⟨rfl, ha⟩

theorem anchor_inj (hheld : Held tooltips a e) {doc d : DocumentId} {row r : Row} {h : Handle}
    (h₁ : a.anchor? doc row = some h) (h₂ : a.anchor? d r = some h) : doc = d ∧ row = r := by
  have hsame := (hheld.marker_of_anchor h₁).symm.trans (hheld.marker_of_anchor h₂)
  simpa using hsame

theorem tooltip_doc_eq (hheld : Held tooltips a e) {doc d : DocumentId} {h : Handle}
    (h₁ : h ∈ tooltips doc) (h₂ : h ∈ tooltips d) : doc = d := by
  obtain ⟨t, ht⟩ := (hheld.tooltip h doc).mp h₁
  obtain ⟨u, hu⟩ := (hheld.tooltip h d).mp h₂
  rw [ht] at hu
  exact congrArg Prod.fst (Option.some.inj hu)

/-- Anchors that the books name alike are alike. -/
theorem markers_eq {tooltips' : DocumentId → List Handle} {b : Anchors} {f : Editor}
    (hheld : Held tooltips a e) (hother : Held tooltips' b f)
    (hbooks : ∀ doc row, b.anchor? doc row = a.anchor? doc row) : f.markers = e.markers := by
  apply SortedMap.ext
  intro h
  ext m
  rw [hother.anchor, hheld.anchor, hbooks]

theorem not_marker_fresh (hheld : Held tooltips a e) : e.markers.get? e.freshHandle = none := by
  cases hm : e.markers.get? e.freshHandle with
  | none => rfl
  | some m => exact absurd (hheld.anchor_issued _ m hm) e.not_issued_freshHandle

theorem not_tooltip_fresh (hheld : Held tooltips a e) : e.tooltips.get? e.freshHandle = none := by
  cases ht : e.tooltips.get? e.freshHandle with
  | none => rfl
  | some t => exact absurd (hheld.tooltip_issued _ t ht) e.not_issued_freshHandle

/-! ### Taking away -/

/-- Anchors may go if the books let go of their rows. -/
theorem destroyAll (hheld : Held tooltips a e) {doc : DocumentId} {b : Anchors}
    {handles : List Handle} (gone : Row → Prop)
    (hhandles : ∀ h, h ∈ handles ↔ ∃ row, gone row ∧ a.anchor? doc row = some h)
    (hgone : ∀ row, gone row → b.anchor? doc row = none)
    (hkept : ∀ d row, ¬ (d = doc ∧ gone row) → b.anchor? d row = a.anchor? d row) :
    Held tooltips b (Anchors.destroyAll doc handles e) := by
  rw [Anchors.destroyAll_eq]
  constructor
  case anchor =>
      intro h m
      simp only [SortedMap.get?_filter, Option.filter_eq_some_iff, Bool.not_eq_true',
        List.contains_eq_mem, decide_eq_false_iff_not, hheld.anchor]
      by_cases hm : m.doc = doc ∧ gone m.row
      · rw [hm.1, hgone m.row hm.2]
        constructor
        · rintro ⟨⟨-, ha⟩, hnot⟩
          exact absurd ((hhandles h).mpr ⟨m.row, hm.2, ha⟩) hnot
        · rintro ⟨-, hnone⟩
          cases hnone
      · rw [hkept m.doc m.row hm]
        refine ⟨fun hmem => hmem.1, fun hmem => ⟨hmem, fun hin => ?_⟩⟩
        obtain ⟨row, hrow, ha⟩ := (hhandles h).mp hin
        obtain ⟨rfl, rfl⟩ := hheld.anchor_inj ha hmem.2
        exact hm ⟨rfl, hrow⟩
  case tooltip => exact hheld.tooltip
  case distinct => exact hheld.distinct
  case anchor_issued =>
      intro h m hm
      rw [SortedMap.get?_filter, Option.filter_eq_some_iff] at hm
      exact hheld.anchor_issued h m hm.1
  case tooltip_issued => exact hheld.tooltip_issued

/-- The tooltips of a document may go together. -/
theorem releaseAll (hheld : Held tooltips a e) (doc : DocumentId) :
    Held (update tooltips doc []) a (Renderer.releaseAll (tooltips doc) e) := by
  rw [Renderer.releaseAll_eq]
  constructor
  case anchor => exact hheld.anchor
  case tooltip =>
      intro h d
      simp only [SortedMap.get?_filter, Option.filter_eq_some_iff, Bool.not_eq_true',
        List.contains_eq_mem, decide_eq_false_iff_not, exists_and_right, ← hheld.tooltip]
      by_cases hd : d = doc
      · subst hd
        simp
      · rw [Function.update_of_ne hd]
        refine ⟨fun hin => ⟨hin, fun hdoc => hd (hheld.tooltip_doc_eq hin hdoc)⟩, And.left⟩
  case distinct =>
      intro d
      by_cases hd : d = doc
      · subst hd
        simp
      · rw [Function.update_of_ne hd]
        exact hheld.distinct d
  case anchor_issued => exact hheld.anchor_issued
  case tooltip_issued =>
      intro h t ht
      rw [SortedMap.get?_filter, Option.filter_eq_some_iff] at ht
      exact hheld.tooltip_issued h t ht.1

/-! ### Putting up -/

/-- A new tooltip joins those of its document. -/
theorem showTooltip (hheld : Held tooltips a e) (doc : DocumentId) (t : Tooltip) :
    Held (update tooltips doc (tooltips doc ++ [e.freshHandle])) a (e.showTooltip doc t).2 := by
  have hnew := hheld.not_tooltip_fresh
  have habsent : ∀ d, e.freshHandle ∉ tooltips d := by
    intro d hin
    obtain ⟨u, hu⟩ := (hheld.tooltip _ d).mp hin
    rw [hnew] at hu
    cases hu
  constructor
  case anchor => exact hheld.anchor
  case tooltip =>
      intro h d
      simp only [Editor.showTooltip, Editor.note, SortedMap.get?_insert]
      by_cases hh : e.freshHandle = h
      · subst hh
        by_cases hd : d = doc
        · subst hd
          simp
        · simp [Function.update_of_ne hd, habsent d, Ne.symm hd]
      · rw [if_neg hh, ← hheld.tooltip]
        by_cases hd : d = doc
        · subst hd
          simp [Ne.symm hh]
        · rw [Function.update_of_ne hd]
  case distinct =>
      intro d
      by_cases hd : d = doc
      · subst hd
        rw [Function.update_self]
        refine List.nodup_append.mpr ⟨hheld.distinct d, by simp, ?_⟩
        intro h hin k hk heq
        rw [heq, List.mem_singleton.mp hk] at hin
        exact habsent d hin
      · rw [Function.update_of_ne hd]
        exact hheld.distinct d
  case anchor_issued =>
      intro h m hm
      exact (hheld.anchor_issued h m hm).mono rfl (Nat.le_succ _)
  case tooltip_issued =>
      intro h u hu
      simp only [Editor.showTooltip, Editor.note, SortedMap.get?_insert] at hu
      split at hu
      · next hh => exact hh ▸ Editor.issued_freshHandle rfl (Nat.lt_succ_self _)
      · exact (hheld.tooltip_issued h u hu).mono rfl (Nat.le_succ _)

end Held

end LintMargin
