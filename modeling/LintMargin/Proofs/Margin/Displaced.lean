import LintMargin.Proofs.Margin.Redrawing

/-!
# Anchors that were moved

An editor may move its anchors, as long as their lines stay in the document. No request depends on where
anchors are, so a margin with moved anchors is drawn as one with anchors that stay where they were put,
and the same anchors end up elsewhere (`draw_displaced`).
-/

namespace LintMargin

variable {moved : Handle → Option Row}

namespace Editor

/-- The editor with some anchors on other rows. -/
def displaced (moved : Handle → Option Row) (e : Editor) : Editor :=
  { e with markers := e.markers.mapValues fun h m => { m with row := (moved h).getD m.row } }

/-- No anchor was moved before it was made. -/
def Supports (e : Editor) (moved : Handle → Option Row) : Prop :=
  ∀ h row, moved h = some row → e.Issued h

theorem Supports.mono {e f : Editor} (he : e.Supports moved) (hmanner : f.manner = e.manner)
    (hissued : e.issued ≤ f.issued) : f.Supports moved :=
  fun h row hmoved => (he h row hmoved).mono hmanner hissued

theorem Supports.freshHandle {e : Editor} (he : e.Supports moved) : moved e.freshHandle = none := by
  cases hmoved : moved e.freshHandle with
  | none => rfl
  | some row => exact absurd (he _ row hmoved) e.not_issued_freshHandle

theorem get?_displaced (e : Editor) (h : Handle) :
    (e.displaced moved).markers.get? h =
      (e.markers.get? h).map fun m => { m with row := (moved h).getD m.row } :=
  SortedMap.get?_mapValues _ _ h

theorem Supports.annotate_displaced {e : Editor} (he : e.Supports moved) (doc : DocumentId) (row : Row) :
    (e.displaced moved).annotate doc row = (e.annotate doc row).displaced moved := by
  have hmarkers : (e.displaced moved).markers.insert e.freshHandle ⟨doc, row, Decoration.both⟩ =
      ((e.annotate doc row).displaced moved).markers := by
    apply SortedMap.ext
    intro h
    simp only [get?_displaced, SortedMap.get?_insert, annotate]
    split
    · next hh =>
        subst hh
        rw [he.freshHandle]
        rfl
    · rfl
  exact congrArg (fun markers => { (e.annotate doc row).displaced moved with markers }) hmarkers

end Editor

theorem Anchors.destroyAll_displaced (doc : DocumentId) (handles : List Handle) (e : Editor) :
    destroyAll doc handles (e.displaced moved) = (destroyAll doc handles e).displaced moved := by
  have hmarkers : (e.displaced moved).markers.filter (fun h _ => !handles.contains h) =
      ((destroyAll doc handles e).displaced moved).markers := by
    rw [destroyAll_eq]
    apply SortedMap.ext
    intro h
    simp only [Editor.get?_displaced, SortedMap.get?_filter]
    cases e.markers.get? h with
    | none => rfl
    | some m =>
        simp only [Option.map_some, Option.filter]
        split <;> rfl
  rw [destroyAll_eq, hmarkers, destroyAll_eq]
  rfl

theorem Renderer.releaseAll_displaced (handles : List Handle) (e : Editor) :
    releaseAll handles (e.displaced moved) = (releaseAll handles e).displaced moved := by
  rw [releaseAll_eq, releaseAll_eq]
  rfl

namespace Anchors

theorem provide_displaced (a : Anchors) (doc : DocumentId) (row : Row) {e : Editor}
    (he : e.Supports moved) :
    a.provide doc row (e.displaced moved) =
      ((a.provide doc row e).1, (a.provide doc row e).2.displaced moved) := by
  cases ha : a.anchor? doc row with
  | some h => rw [provide_of_some _ ha, provide_of_some e ha]
  | none =>
      rw [provide_of_none _ ha, provide_of_none e ha, he.annotate_displaced]
      rfl

theorem reconcile_displaced (a : Anchors) (doc : DocumentId) (rows : List Row) (e : Editor) :
    (a.reconcile doc rows (e.displaced moved)).2 =
      ((a.reconcile doc rows e).2.1, (a.reconcile doc rows e).2.2.displaced moved) := by
  have heditor := a.reconcile_editor doc rows (e.displaced moved)
  rw [destroyAll_displaced, ← reconcile_editor] at heditor
  refine Prod.ext ?_ heditor
  unfold reconcile
  split <;> rfl

end Anchors

namespace Renderer

theorem drawGroup_displaced (doc : DocumentId) (g : SubscriptionGroup Handle) (a : Anchors)
    {e : Editor} (he : e.Supports moved) (entry : Row × LineGroup) :
    let drawn := drawGroup doc (g, a, e) entry
    drawGroup doc (g, a, e.displaced moved) entry =
        (drawn.1, drawn.2.1, drawn.2.2.displaced moved) ∧
      drawn.2.2.Supports moved := by
  have hplaced := a.offMargin_provide doc entry.1 e
  intro drawn
  constructor
  · simp only [drawn, drawGroup_eq, a.provide_displaced doc entry.1 he]
    rfl
  · simp only [drawn, drawGroup_eq]
    exact he.mono hplaced.manner (Nat.le_trans hplaced.issued (Nat.le_succ _))

theorem foldl_drawGroup_displaced (doc : DocumentId) (g : SubscriptionGroup Handle) (a : Anchors)
    {e : Editor} (he : e.Supports moved) (entries : List (Row × LineGroup)) :
    let drawn := entries.foldl (drawGroup doc) (g, a, e)
    entries.foldl (drawGroup doc) (g, a, e.displaced moved) =
        (drawn.1, drawn.2.1, drawn.2.2.displaced moved) ∧
      drawn.2.2.Supports moved := by
  induction entries generalizing g a e with
  | nil => exact ⟨rfl, he⟩
  | cons entry rest ih =>
      obtain ⟨hfirst, hsupports⟩ := drawGroup_displaced doc g a he entry
      simp only [List.foldl_cons, hfirst]
      exact ih _ _ hsupports

theorem supports_cleared {r : Renderer} {a : Anchors} {e : Editor} (he : e.Supports moved)
    (doc : DocumentId) (rows : List Row) :
    (releaseAll (r.handles doc) (a.reconcile doc rows e).2.2).Supports moved := by
  rw [Anchors.reconcile_editor, Anchors.destroyAll_eq, releaseAll_eq]
  exact he

/-- Drawing a margin with moved anchors comes to drawing it with anchors that stayed where they were. -/
theorem draw_displaced (r : Renderer) (store : Store) (a : Anchors) (doc : DocumentId) {e : Editor}
    (he : e.Supports moved) :
    let drawn := r.draw store a doc e
    r.draw store a doc (e.displaced moved) = (drawn.1, drawn.2.1, drawn.2.2.displaced moved) ∧
      drawn.2.2.Supports moved := by
  have hfold := foldl_drawGroup_displaced doc [] (a.reconcile doc (store.rows doc) e).2.1
    (supports_cleared (r := r) (a := a) he doc (store.rows doc)) (store.diagnostics doc).entries
  intro drawn
  simp only [drawn, draw_eq, a.reconcile_displaced, releaseAll_displaced, hfold.1]
  exact ⟨trivial, hfold.2⟩

/-! ### New anchors -/

/-- An anchor that was not there before is newly made. -/
theorem anchor?_foldl_drawGroup (doc : DocumentId) (g : SubscriptionGroup Handle) (a : Anchors)
    (e : Editor) (entries : List (Row × LineGroup)) {d : DocumentId} {row : Row} {h : Handle}
    (hdrawn : (entries.foldl (drawGroup doc) (g, a, e)).2.1.anchor? d row = some h) :
    a.anchor? d row = some h ∨ ¬ e.Issued h := by
  induction entries generalizing g a e with
  | nil => exact .inl hdrawn
  | cons entry rest ih =>
      have hplaced := a.offMargin_provide doc entry.1 e
      rw [List.foldl_cons, drawGroup_eq] at hdrawn
      rcases ih _ _ _ hdrawn with hfirst | hnew
      · rw [Anchors.anchor?_provide] at hfirst
        split at hfirst
        · next hsame =>
            obtain ⟨rfl, rfl⟩ := hsame
            cases ha : a.anchor? doc entry.1 with
            | some k => exact .inl (by rwa [ha] at hfirst)
            | none =>
                rw [ha] at hfirst
                exact .inr (Option.some.inj hfirst ▸ e.not_issued_freshHandle)
        · exact .inl hfirst
      · exact .inr fun hissued =>
          hnew (hissued.mono hplaced.manner (Nat.le_trans hplaced.issued (Nat.le_succ _)))

theorem anchor?_draw (r : Renderer) (store : Store) (a : Anchors) (doc : DocumentId) (e : Editor)
    {d : DocumentId} {row : Row} {h : Handle}
    (hdrawn : (r.draw store a doc e).2.1.anchor? d row = some h) :
    a.anchor? d row = some h ∨ ¬ e.Issued h := by
  rw [draw_eq] at hdrawn
  rcases anchor?_foldl_drawGroup doc _ _ _ _ hdrawn with hkept | hnew
  · rw [Anchors.anchor?_reconcile] at hkept
    split at hkept
    · cases hkept
    · exact .inl hkept
  · rw [Anchors.reconcile_editor, Anchors.destroyAll_eq, releaseAll_eq] at hnew
    exact .inr hnew

end Renderer

end LintMargin
