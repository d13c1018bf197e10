import LintMargin.Proofs.Margin.Drawing

/-!
# Bringing a margin up to date

A document is redrawn in three steps: anchors on rows without a group go, its tooltips go, its groups are
drawn. `Redrawn` says what comes of that for the document and that nothing comes of it for the others.
Clearing a document takes all of its anchors and tooltips away.
-/

namespace LintMargin

open Function (update)

namespace Anchors

/-- The anchors of a document on other than the given rows, from top to bottom. -/
def stale (a : Anchors) (doc : DocumentId) (rows : List Row) : List Handle :=
  ((a.ofDocument doc).filter fun row _ => !rows.contains row).values

theorem mem_stale_iff {a : Anchors} {doc : DocumentId} {rows : List Row} {h : Handle} :
    h ∈ a.stale doc rows ↔ ∃ row, row ∉ rows ∧ a.anchor? doc row = some h := by
  simp only [stale, SortedMap.mem_values_iff, SortedMap.get?_filter, Option.filter_eq_some_iff,
    Bool.not_eq_true', List.contains_eq_mem, decide_eq_false_iff_not, anchor?, and_comm]

theorem anchor?_reconcile (a : Anchors) (doc d : DocumentId) (rows : List Row) (row : Row)
    (e : Editor) :
    (a.reconcile doc rows e).2.1.anchor? d row =
      if d = doc ∧ row ∉ rows then none else a.anchor? d row := by
  cases hget : a.get? doc with
  | none =>
      simp only [reconcile, hget]
      split
      · next h => simp [anchor?, ofDocument, h.1, hget]
      · rfl
  | some held =>
      have hheld : ∀ r, a.anchor? doc r = held.get? r := by
        intro r
        simp [anchor?, ofDocument, hget]
      have hkept : (a.reconcile doc rows e).2.1.anchor? d row =
          if doc = d then (held.filter fun r _ => rows.contains r).get? row
          else a.anchor? d row := by
        simp only [reconcile, hget]
        split
        · next hempty =>
            rw [anchor?_erase]
            have hkeys := SortedMap.isEmpty_iff.mp hempty
            have hnone : (held.filter fun r _ => rows.contains r).get? row = none := by
              rw [SortedMap.get?_eq_none_iff, hkeys]
              exact List.not_mem_nil
            rw [hnone]
        · rw [anchor?_insert]
      rw [hkept]
      by_cases hd : doc = d
      · subst hd
        rw [if_pos rfl, SortedMap.get?_filter, hheld]
        by_cases hr : row ∈ rows <;> cases held.get? row <;> simp [Option.filter, hr]
      · simp [hd, Ne.symm hd]

theorem reconcile_editor (a : Anchors) (doc : DocumentId) (rows : List Row) (e : Editor) :
    (a.reconcile doc rows e).2.2 = destroyAll doc (a.stale doc rows) e := by
  cases hget : a.get? doc with
  | none =>
      simp only [reconcile, hget, stale, ofDocument, Option.getD_none]
      rfl
  | some held => simp only [reconcile, hget, stale, ofDocument, Option.getD_some]

theorem offMargin_destroyAll (doc : DocumentId) (handles : List Handle) (e : Editor) :
    e.OffMargin (destroyAll doc handles e) := by
  rw [destroyAll_eq]
  exact ⟨rfl, rfl, rfl, rfl, rfl, rfl, Nat.le_refl _⟩

end Anchors

namespace Held

variable {tooltips : DocumentId → List Handle} {a : Anchors} {e : Editor}

theorem reconcile (hheld : Held tooltips a e) (doc : DocumentId) (rows : List Row) :
    Held tooltips (a.reconcile doc rows e).2.1 (a.reconcile doc rows e).2.2 := by
  rw [Anchors.reconcile_editor]
  refine hheld.destroyAll (fun row => row ∉ rows) (fun h => Anchors.mem_stale_iff) ?_ ?_
  · intro row hrow
    rw [Anchors.anchor?_reconcile, if_pos ⟨rfl, hrow⟩]
  · intro d row hrow
    rw [Anchors.anchor?_reconcile, if_neg hrow]

theorem removeAll (hheld : Held tooltips a e) (doc : DocumentId) :
    Held tooltips (a.removeAll doc e).1 (a.removeAll doc e).2 := by
  refine hheld.destroyAll (fun _ => True) ?_ ?_ ?_
  · intro h
    simp only [SortedMap.mem_values_iff, true_and]
    rfl
  · intro row _
    rw [Anchors.removeAll, Anchors.anchor?_erase, if_pos rfl]
  · intro d row hd
    rw [Anchors.removeAll, Anchors.anchor?_erase, if_neg fun h => hd ⟨h.symm, trivial⟩]

end Held

namespace Renderer

/-- The tooltips that are held of a document. -/
def handles (r : Renderer) (doc : DocumentId) : List Handle := (r.tooltipGroup doc).released

theorem released_map_live (made : List Handle) :
    SubscriptionGroup.released (made.map .live) = made := by
  induction made with
  | nil => rfl
  | cons h rest ih =>
      simp only [SubscriptionGroup.released, List.map_cons, List.flatMap_cons,
        Subscription.released] at ih ⊢
      rw [ih]
      rfl

theorem offMargin_releaseAll (handles : List Handle) (e : Editor) :
    e.OffMargin (releaseAll handles e) := by
  rw [releaseAll_eq]
  exact ⟨rfl, rfl, rfl, rfl, rfl, rfl, Nat.le_refl _⟩

/-- Keeping no tooltips of a document and keeping an empty group of them come to the same. -/
theorem tooltipGroup_keep (r : Renderer) (doc d : DocumentId) (g : SubscriptionGroup Handle)
    (shown : Option (DocumentId × Issue)) :
    Renderer.tooltipGroup ⟨if g.isEmpty then r.tooltips.erase doc else r.tooltips.insert doc g, shown⟩
      d = if d = doc then g else r.tooltipGroup d := by
  by_cases hd : d = doc
  · subst hd
    cases g <;> simp [tooltipGroup]
  · have hne : doc ≠ d := Ne.symm hd
    cases g <;> simp [tooltipGroup, hd, SortedMap.get?_erase_of_ne, SortedMap.get?_insert_of_ne, hne]

theorem handles_keep (r : Renderer) (doc : DocumentId) (made : List Handle)
    (shown : Option (DocumentId × Issue)) :
    handles ⟨if (made.map Subscription.live).isEmpty then r.tooltips.erase doc
      else r.tooltips.insert doc (made.map .live), shown⟩ = update r.handles doc made := by
  funext d
  rw [handles, tooltipGroup_keep]
  by_cases hd : d = doc
  · subst hd
    rw [if_pos rfl, released_map_live, Function.update_self]
  · rw [if_neg hd, Function.update_of_ne hd, handles]

/-- A document was redrawn from the first renderer, anchors and editor to the second ones, and got the
tooltips in `made`. -/
structure Redrawn (store : Store) (doc : DocumentId) (r : Renderer) (a : Anchors) (e : Editor)
    (made : List Handle) (r' : Renderer) (b : Anchors) (f : Editor) : Prop where
  held : Held r'.handles b f
  offMargin : e.OffMargin f
  displayed : r'.displayed = r.displayed
  handles_self : r'.handles doc = made
  handles_ne : ∀ d, d ≠ doc → r'.handles d = r.handles d
  rows : ∀ row, (b.anchor? doc row).isSome ↔ row ∈ store.rows doc
  kept : ∀ row h, row ∈ store.rows doc → a.anchor? doc row = some h → b.anchor? doc row = some h
  anchors_ne : ∀ d row, d ≠ doc → b.anchor? d row = a.anchor? d row
  shown : made.map f.tooltips.get? =
    (store.diagnostics doc).entries.map fun entry => some (doc, Tooltip.ofGroup entry)
  standing : ∀ d h, d ≠ doc → h ∈ r.handles d → f.tooltips.get? h = e.tooltips.get? h
  journal : f.journal = e.journal ++ ((a.stale doc (store.rows doc)).map (.destroy doc) ++
    (r.handles doc).map .releaseTooltip ++
    ((store.diagnostics doc).entries.zip made).flatMap fun x =>
      a.markings b doc x.1.1 ++ [.showTooltip doc x.2 (Tooltip.ofGroup x.1)])

theorem draw_eq (r : Renderer) (store : Store) (a : Anchors) (doc : DocumentId) (e : Editor) :
    r.draw store a doc e =
      let cleared := a.reconcile doc (store.rows doc) e
      let drawn := (store.diagnostics doc).entries.foldl (drawGroup doc)
        ([], cleared.2.1, releaseAll (r.handles doc) cleared.2.2)
      (⟨if drawn.1.isEmpty then r.tooltips.erase doc else r.tooltips.insert doc drawn.1,
          r.displayed⟩, drawn.2.1, drawn.2.2) :=
  rfl

/-- Drawing the groups of a document where only the anchors on its rows were left, and no tooltips of it,
redraws it. -/
theorem redrawn_of_drawn {r : Renderer} {a a₁ b : Anchors} {e f : Editor} {store : Store}
    {doc : DocumentId} {made : List Handle} (hheld : Held r.handles a e)
    (hbooks : ∀ d row, a₁.anchor? d row =
      if d = doc ∧ row ∉ store.rows doc then none else a.anchor? d row)
    (h : Drawn doc (store.diagnostics doc).entries (update r.handles doc []) a₁
      (releaseAll (r.handles doc) (Anchors.destroyAll doc (a.stale doc (store.rows doc)) e)) made b f) :
    Redrawn store doc r a e made
      ⟨if (made.map Subscription.live).isEmpty then r.tooltips.erase doc
        else r.tooltips.insert doc (made.map .live), r.displayed⟩ b f := by
  have hrow : ∀ row ∈ store.rows doc, a₁.anchor? doc row = a.anchor? doc row := by
    intro row hin
    rw [hbooks, if_neg fun h => h.2 hin]
  constructor
  case held =>
      have hdrawn := h.held
      rwa [Function.update_self, Function.update_idem, List.nil_append, ← handles_keep r] at hdrawn
  case offMargin =>
      exact ((Anchors.offMargin_destroyAll doc _ e).trans (offMargin_releaseAll _ _)).trans h.offMargin
  case displayed => rfl
  case handles_self => rw [handles_keep, Function.update_self]
  case handles_ne =>
      intro d hd
      rw [handles_keep, Function.update_of_ne hd]
  case rows =>
      intro row
      rw [h.rows, hbooks]
      by_cases hin : row ∈ store.rows doc
      · have hmem : row ∈ (store.diagnostics doc).entries.map Prod.fst := hin
        simp [hin, hmem]
      · have hnot : row ∉ (store.diagnostics doc).entries.map Prod.fst := hin
        simp [hin, hnot]
  case kept =>
      intro row g hin ha
      exact h.kept doc row g ((hrow row hin).trans ha)
  case anchors_ne =>
      intro d row hd
      rw [h.anchors_ne hd, hbooks, if_neg fun h => hd h.1]
  case shown => exact h.shown
  case standing =>
      intro d g hd hin
      obtain ⟨t, ht⟩ := (hheld.tooltip g d).mp hin
      rw [ht]
      apply h.standing
      have hnot : g ∉ r.handles doc := fun hdoc => hd (hheld.tooltip_doc_eq hin hdoc)
      rw [releaseAll_eq, Anchors.destroyAll_eq]
      simp [SortedMap.get?_filter, ht, Option.filter, hnot]
  case journal =>
      rw [h.journal, releaseAll_eq, Anchors.destroyAll_eq]
      simp only [List.append_assoc]
      congr 3
      apply List.flatMap_congr
      intro x hx
      have hin : x.1.1 ∈ store.rows doc := List.mem_map_of_mem (List.of_mem_zip hx).1
      simp only [Anchors.markings, hrow x.1.1 hin]

theorem exists_redrawn {r : Renderer} {a : Anchors} {e : Editor} (hheld : Held r.handles a e)
    (store : Store) (doc : DocumentId) :
    ∃ made, Redrawn store doc r a e made (r.draw store a doc e).1 (r.draw store a doc e).2.1
      (r.draw store a doc e).2.2 := by
  have hreleased := (hheld.reconcile doc (store.rows doc)).releaseAll doc
  obtain ⟨made, b, f, hfold, hdrawn⟩ :=
    exists_drawn doc [] hreleased (store.diagnostics doc).keys_nodup
  rw [Anchors.reconcile_editor] at hfold hdrawn
  refine ⟨made, ?_⟩
  rw [draw_eq]
  dsimp only
  rw [Anchors.reconcile_editor, hfold]
  exact redrawn_of_drawn hheld
    (fun d row => Anchors.anchor?_reconcile a doc d (store.rows doc) row e) hdrawn

/-! ### What drawing has no part in -/

theorem offMargin_draw (r : Renderer) (store : Store) (a : Anchors) (doc : DocumentId) (e : Editor) :
    e.OffMargin (r.draw store a doc e).2.2 := by
  have hcleared : e.OffMargin (a.reconcile doc (store.rows doc) e).2.2 := by
    rw [Anchors.reconcile_editor]
    exact Anchors.offMargin_destroyAll doc _ e
  refine List.foldlRecOn (motive := fun x : SubscriptionGroup Handle × Anchors × Editor =>
    e.OffMargin x.2.2) _ _ (hcleared.trans (offMargin_releaseAll (r.handles doc) _)) ?_
  rintro ⟨g, b, f⟩ hf entry -
  rw [drawGroup_eq]
  exact (hf.trans (b.offMargin_provide doc entry.1 f)).trans ⟨rfl, rfl, rfl, rfl, rfl, rfl, Nat.le_succ _⟩

/-! ### Clearing -/

theorem handles_clearDocument (r : Renderer) (doc d : DocumentId) (e : Editor) :
    (r.clearDocument doc e).1.handles d = update r.handles doc [] d := by
  by_cases hd : d = doc
  · subst hd
    simp [handles, tooltipGroup, clearDocument, SubscriptionGroup.released]
  · simp [handles, tooltipGroup, clearDocument, SortedMap.get?_erase_of_ne _ (Ne.symm hd), hd]

end Renderer

end LintMargin
