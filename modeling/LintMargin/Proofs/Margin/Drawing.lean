import LintMargin.Proofs.Margin.Held
import LintMargin.Proofs.Diagnostics

/-!
# Drawing a document

Drawing goes through the groups of a document from top to bottom. `Drawn` relates the tooltips made so
far, the anchors and the editor before and after some groups; it holds of no groups, and one more group
in front extends it. What is known of a whole drawing follows by induction on the groups.
-/

namespace LintMargin

open Function (update)

/-- The tooltip of a group. -/
def Tooltip.ofGroup (entry : Row × LineGroup) : Tooltip := .belowGutter entry.1 entry.2.tooltipText

/-- The requests for a new anchor. -/
def Call.marking (doc : DocumentId) (row : Row) (h : Handle) : List Call :=
  [.mark doc row h, .decorate doc h .line, .decorate doc h .lineNumber]

/-! ### Providing an anchor -/

/-- A new anchor with its decorations. -/
def Editor.annotate (e : Editor) (doc : DocumentId) (row : Row) : Editor :=
  { e with
    markers := e.markers.insert e.freshHandle ⟨doc, row, Decoration.both⟩
    issued := e.issued + 1
    journal := e.journal ++ Call.marking doc row e.freshHandle }

theorem Editor.decorate_mark_eq_annotate (e : Editor) (doc : DocumentId) (row : Row) :
    ((e.mark doc row).2.decorate doc e.freshHandle .line).decorate doc e.freshHandle .lineNumber =
      e.annotate doc row := by
  simp only [Editor.mark, Editor.decorate, Editor.note, SortedMap.modify_insert, Editor.annotate,
    Call.marking, Decoration.both, List.append_assoc, List.nil_append, List.cons_append]

namespace Anchors

/-- Sees to it that a row has an anchor. -/
def provide (a : Anchors) (doc : DocumentId) (row : Row) (e : Editor) : Anchors × Editor :=
  match a.anchor? doc row with
  | some _ => (a, e)
  | none => (a.insert doc ((a.ofDocument doc).insert row e.freshHandle), e.annotate doc row)

/-- The requests that take a row's anchors from one state of the books to another. -/
def markings (before after : Anchors) (doc : DocumentId) (row : Row) : List Call :=
  match before.anchor? doc row, after.anchor? doc row with
  | none, some h => Call.marking doc row h
  | _, _ => []

theorem provide_of_some {a : Anchors} {doc : DocumentId} {row : Row} {h : Handle} (e : Editor)
    (ha : a.anchor? doc row = some h) : a.provide doc row e = (a, e) := by
  rw [provide, ha]

theorem provide_of_none {a : Anchors} {doc : DocumentId} {row : Row} (e : Editor)
    (ha : a.anchor? doc row = none) :
    a.provide doc row e =
      (a.insert doc ((a.ofDocument doc).insert row e.freshHandle), e.annotate doc row) := by
  rw [provide, ha]

theorem anchor?_provide (a : Anchors) (doc d : DocumentId) (row r : Row) (e : Editor) :
    (a.provide doc row e).1.anchor? d r =
      if doc = d ∧ row = r then some ((a.anchor? doc row).getD e.freshHandle) else a.anchor? d r := by
  cases ha : a.anchor? doc row with
  | some h =>
      rw [provide_of_some e ha]
      split
      · next hsame =>
          obtain ⟨rfl, rfl⟩ := hsame
          exact ha
      · rfl
  | none =>
      rw [provide_of_none e ha, anchor?_insert]
      by_cases hd : doc = d
      · subst hd
        rw [if_pos rfl, SortedMap.get?_insert]
        by_cases hr : row = r <;> simp [hr, anchor?]
      · simp [hd]

theorem offMargin_provide (a : Anchors) (doc : DocumentId) (row : Row) (e : Editor) :
    e.OffMargin (a.provide doc row e).2 := by
  unfold provide
  split
  · exact .refl e
  · exact ⟨rfl, rfl, rfl, rfl, rfl, rfl, Nat.le_succ _⟩

end Anchors

theorem Renderer.drawGroup_eq (doc : DocumentId) (g : SubscriptionGroup Handle) (a : Anchors)
    (e : Editor) (entry : Row × LineGroup) :
    Renderer.drawGroup doc (g, a, e) entry =
      let placed := a.provide doc entry.1 e
      (g.add (.live placed.2.freshHandle), placed.1,
        (placed.2.showTooltip doc (Tooltip.ofGroup entry)).2) := by
  cases ha : a.anchor? doc entry.1 with
  | some h =>
      simp only [Renderer.drawGroup, Anchors.create, Anchors.provide, ha]
      rfl
  | none =>
      simp only [Renderer.drawGroup, Anchors.create, Anchors.provide, ha,
        ← Editor.decorate_mark_eq_annotate]
      rfl

theorem Held.provide {tooltips : DocumentId → List Handle} {a : Anchors} {e : Editor}
    (hheld : Held tooltips a e) (doc : DocumentId) (row : Row) :
    Held tooltips (a.provide doc row e).1 (a.provide doc row e).2 := by
  cases ha : a.anchor? doc row with
  | some h =>
      rw [Anchors.provide_of_some e ha]
      exact hheld
  | none =>
      have hbooks := fun d r => Anchors.anchor?_provide a doc d row r e
      rw [Anchors.provide_of_none e ha] at hbooks ⊢
      have habsent : ∀ d r, a.anchor? d r ≠ some e.freshHandle := by
        intro d r hin
        have hmarker := hheld.marker_of_anchor hin
        rw [hheld.not_marker_fresh] at hmarker
        cases hmarker
      constructor
      case anchor =>
          intro h m
          rw [hbooks]
          simp only [Editor.annotate, SortedMap.get?_insert, ha, Option.getD_none]
          by_cases hh : e.freshHandle = h
          · subst hh
            rw [if_pos rfl]
            constructor
            · intro hm
              obtain rfl := Option.some.inj hm
              simp
            · rintro ⟨hdecorations, hm⟩
              split at hm
              · next hplace =>
                  obtain ⟨rfl, rfl⟩ := hplace
                  rw [← hdecorations]
              · exact absurd hm (habsent _ _)
          · rw [if_neg hh, hheld.anchor]
            split
            · next hplace =>
                rw [← hplace.1, ← hplace.2, ha]
                simp [hh]
            · rfl
      case tooltip => exact hheld.tooltip
      case distinct => exact hheld.distinct
      case anchor_issued =>
          intro h m hm
          simp only [Editor.annotate, SortedMap.get?_insert] at hm
          split at hm
          · next hh => exact hh ▸ Editor.issued_freshHandle rfl (Nat.lt_succ_self _)
          · exact (hheld.anchor_issued h m hm).mono rfl (Nat.le_succ _)
      case tooltip_issued =>
          intro h t ht
          exact (hheld.tooltip_issued h t ht).mono rfl (Nat.le_succ _)

/-! ### Drawing some groups -/

/-- Some groups of a document were drawn, which led from `a` and `e` to `b` and `f` and made the tooltips
in `made`. -/
structure Drawn (doc : DocumentId) (entries : List (Row × LineGroup))
    (tooltips : DocumentId → List Handle) (a : Anchors) (e : Editor)
    (made : List Handle) (b : Anchors) (f : Editor) : Prop where
  held : Held (update tooltips doc (tooltips doc ++ made)) b f
  offMargin : e.OffMargin f
  kept : ∀ d row h, a.anchor? d row = some h → b.anchor? d row = some h
  rows : ∀ d row, (b.anchor? d row).isSome ↔
    (a.anchor? d row).isSome ∨ d = doc ∧ row ∈ entries.map Prod.fst
  standing : ∀ h t, e.tooltips.get? h = some t → f.tooltips.get? h = some t
  shown : made.map f.tooltips.get? = entries.map fun entry => some (doc, Tooltip.ofGroup entry)
  journal : f.journal = e.journal ++ (entries.zip made).flatMap fun x =>
    a.markings b doc x.1.1 ++ [.showTooltip doc x.2 (Tooltip.ofGroup x.1)]

namespace Drawn

variable {doc : DocumentId} {tooltips : DocumentId → List Handle} {a b c : Anchors}
  {e f k : Editor}

theorem nil (hheld : Held tooltips a e) : Drawn doc [] tooltips a e [] a e where
  held := by
    rw [List.append_nil, Function.update_eq_self]
    exact hheld
  offMargin := .refl e
  kept _ _ _ h := h
  rows d row := by simp
  standing _ _ h := h
  shown := rfl
  journal := by simp

/-- Other documents keep their anchors. -/
theorem anchors_ne {entries : List (Row × LineGroup)} {made : List Handle}
    (h : Drawn doc entries tooltips a e made b f) {d : DocumentId} (hd : d ≠ doc) (row : Row) :
    b.anchor? d row = a.anchor? d row := by
  cases ha : a.anchor? d row with
  | some g => exact h.kept d row g ha
  | none =>
      rw [← Option.not_isSome_iff_eq_none, h.rows, ha]
      simp [hd]

/-- One group: its anchor, then its tooltip. -/
theorem single (doc : DocumentId) (hheld : Held tooltips a e) (entry : Row × LineGroup) :
    let placed := a.provide doc entry.1 e
    Drawn doc [entry] tooltips a e [placed.2.freshHandle] placed.1
      (placed.2.showTooltip doc (Tooltip.ofGroup entry)).2 := by
  intro placed
  have hplaced : Held tooltips placed.1 placed.2 := hheld.provide doc entry.1
  have hbooks : ∀ d r, placed.1.anchor? d r = if doc = d ∧ entry.1 = r then
      some ((a.anchor? doc entry.1).getD e.freshHandle) else a.anchor? d r :=
    fun d r => Anchors.anchor?_provide a doc d entry.1 r e
  have hfresh := hplaced.not_tooltip_fresh
  have hsame : placed.2.tooltips = e.tooltips := by
    cases ha : a.anchor? doc entry.1 with
    | some h => simp only [placed, Anchors.provide_of_some e ha]
    | none => simp only [placed, Anchors.provide_of_none e ha, Editor.annotate]
  constructor
  case held => exact hplaced.showTooltip doc (Tooltip.ofGroup entry)
  case offMargin =>
      exact (a.offMargin_provide doc entry.1 e).trans ⟨rfl, rfl, rfl, rfl, rfl, rfl, Nat.le_succ _⟩
  case kept =>
      intro d r h ha
      rw [hbooks]
      split
      · next hplace =>
          obtain ⟨rfl, rfl⟩ := hplace
          simp [ha]
      · exact ha
  case rows =>
      intro d r
      rw [hbooks]
      split
      · next hplace => simp [hplace.1, hplace.2]
      · next hplace =>
          have hnot : ¬ (d = doc ∧ r = entry.1) := fun h => hplace ⟨h.1.symm, h.2.symm⟩
          simp [hnot]
  case standing =>
      intro h t ht
      have hne : placed.2.freshHandle ≠ h := by
        rintro rfl
        rw [hsame, ht] at hfresh
        cases hfresh
      simp only [Editor.showTooltip, Editor.note, SortedMap.get?_insert_of_ne _ _ hne, hsame, ht]
  case shown =>
      simp [Editor.showTooltip, Editor.note]
  case journal =>
      have hmarkings : placed.2.journal = e.journal ++ a.markings placed.1 doc entry.1 := by
        cases ha : a.anchor? doc entry.1 with
        | some h => simp [placed, Anchors.provide_of_some e ha, Anchors.markings, ha]
        | none =>
            have hnew := hbooks doc entry.1
            simp only [and_self, if_true, ha, Option.getD_none] at hnew
            simp only [Anchors.markings, ha, hnew]
            simp only [placed, Anchors.provide_of_none e ha, Editor.annotate]
      simp [Editor.showTooltip, Editor.note, hmarkings]

/-- A group can be drawn in front of others on other rows. -/
theorem cons {entry : Row × LineGroup} {rest : List (Row × LineGroup)} {h : Handle}
    {made : List Handle} (hfirst : Drawn doc [entry] tooltips a e [h] b f)
    (hrest : Drawn doc rest (update tooltips doc (tooltips doc ++ [h])) b f made c k)
    (hrow : entry.1 ∉ rest.map Prod.fst) :
    Drawn doc (entry :: rest) tooltips a e (h :: made) c k where
  held := by
    have hheld := hrest.held
    rw [Function.update_self, Function.update_idem, List.append_assoc] at hheld
    exact hheld
  offMargin := hfirst.offMargin.trans hrest.offMargin
  kept d row g ha := hrest.kept d row g (hfirst.kept d row g ha)
  rows d row := by
    rw [hrest.rows, hfirst.rows]
    simp only [List.map_cons, List.map_nil, List.mem_cons, List.not_mem_nil, or_false]
    tauto
  standing g t ht := hrest.standing g t (hfirst.standing g t ht)
  shown := by
    have hh : f.tooltips.get? h = some (doc, Tooltip.ofGroup entry) := by
      simpa using hfirst.shown
    rw [List.map_cons, List.map_cons, hrest.standing h _ hh, hrest.shown]
  journal := by
    -- The anchor of the first row stays as it is, and no other row has changed before its turn.
    have hhead : a.markings c doc entry.1 = a.markings b doc entry.1 := by
      obtain ⟨g, hg⟩ := Option.isSome_iff_exists.mp
        ((hfirst.rows doc entry.1).mpr (.inr ⟨rfl, by simp⟩))
      simp only [Anchors.markings, hg, hrest.kept doc entry.1 g hg]
    have htail : ∀ x ∈ rest.zip made, a.markings c doc x.1.1 = b.markings c doc x.1.1 := by
      intro x hx
      have hne : x.1.1 ≠ entry.1 := by
        intro heq
        exact hrow (heq ▸ List.mem_map_of_mem (List.of_mem_zip hx).1)
      have hiff := hfirst.rows doc x.1.1
      cases ha : a.anchor? doc x.1.1 with
      | some g => simp only [Anchors.markings, ha, hfirst.kept doc _ g ha]
      | none =>
          have hb : b.anchor? doc x.1.1 = none := by
            rw [← Option.not_isSome_iff_eq_none, hiff, ha]
            simp [hne]
          simp only [Anchors.markings, ha, hb]
    rw [hrest.journal, hfirst.journal]
    simp only [List.zip_cons_cons, List.zip_nil_left, List.flatMap_cons, List.flatMap_nil,
      List.append_nil, List.append_assoc, hhead]
    congr 3
    exact (List.flatMap_congr fun x hx => by rw [htail x hx]).symm

end Drawn

/-- Drawing some groups on different rows ends with all of them drawn. -/
theorem Renderer.exists_drawn (doc : DocumentId) (g : SubscriptionGroup Handle)
    {entries : List (Row × LineGroup)} {tooltips : DocumentId → List Handle} {a : Anchors} {e : Editor}
    (hheld : Held tooltips a e) (hrows : (entries.map Prod.fst).Nodup) :
    ∃ made b f, entries.foldl (Renderer.drawGroup doc) (g, a, e) =
        (g ++ made.map .live, b, f) ∧
      Drawn doc entries tooltips a e made b f := by
  induction entries generalizing tooltips g a e with
  | nil => exact ⟨[], a, e, by simp, .nil hheld⟩
  | cons entry rest ih =>
      rw [List.map_cons, List.nodup_cons] at hrows
      have hfirst := Drawn.single doc hheld entry
      obtain ⟨made, b, f, hfold, hrest⟩ :=
        ih (g.add (.live _)) hfirst.held hrows.2
      refine ⟨_ :: made, b, f, ?_, hfirst.cons hrest hrows.1⟩
      rw [List.foldl_cons, Renderer.drawGroup_eq, hfold]
      simp [SubscriptionGroup.add]

end LintMargin
