import LintMargin.Proofs.Session.Acts

/-!
# Strokes

A stroke is something that is put before the user: a tooltip, or a status text. Drawing a document puts up
the tooltips of its groups from top to bottom and then the status text, and nothing else puts up a tooltip.
So the strokes in the journal tell which documents were drawn, how often and in which order.
-/

namespace LintMargin

universe u

inductive Stroke where
  | tooltip (doc : DocumentId) (t : Tooltip)
  | statusText
deriving DecidableEq

def Call.stroke? : Call → Option Stroke
  | .showTooltip doc _ t => some (.tooltip doc t)
  | .setStatus _ => some .statusText
  | _ => none

/-- The tooltips of some groups. -/
def groupStrokes (doc : DocumentId) (entries : List (Row × LineGroup)) : List Stroke :=
  entries.map fun entry => .tooltip doc (Tooltip.ofGroup entry)

/-- The strokes that draw the diagnostics of a document. -/
def Diagnostics.strokes (d : Diagnostics) (doc : DocumentId) : List Stroke :=
  groupStrokes doc d.entries ++ [.statusText]

/-- The strokes of a pass over a document that leaves it with some diagnostics. -/
def Outcome.strokes (outcome : Outcome) (doc : DocumentId) (d : Diagnostics) : List Stroke :=
  match outcome with
  | .skipped _ => []
  | .ignored => [.statusText]
  | .linted _ => d.strokes doc

/-! ### The strokes of one document -/

namespace Stroke

def isOf (doc : DocumentId) : Stroke → Bool
  | .tooltip d _ => d = doc
  | .statusText => false

variable {doc : DocumentId}

theorem filter_groupStrokes (d : DocumentId) (entries : List (Row × LineGroup)) :
    (groupStrokes d entries).filter (isOf doc) = if d = doc then groupStrokes d entries else [] := by
  have hmem : ∀ stroke ∈ groupStrokes d entries, stroke.isOf doc = decide (d = doc) := by
    intro stroke hstroke
    obtain ⟨entry, -, rfl⟩ := List.mem_map.mp hstroke
    rfl
  rw [List.filter_congr hmem]
  by_cases hd : d = doc <;> simp [hd]

theorem filter_strokes (d : DocumentId) (found : Diagnostics) :
    (found.strokes d).filter (isOf doc) = if d = doc then groupStrokes d found.entries else [] := by
  rw [Diagnostics.strokes, List.filter_append, filter_groupStrokes]
  exact List.append_nil _

/-- A pass over an excluded document puts up a status text, but nothing of the document. -/
theorem filter_passes (passes : List (DocumentId × Outcome)) (store : Store) :
    (passes.flatMap fun pass => pass.2.strokes pass.1 (store.diagnostics pass.1)).filter (isOf doc) =
      (Session.lintedIn passes).flatMap fun d =>
        if d = doc then groupStrokes d (store.diagnostics d).entries else [] := by
  induction passes with
  | nil => rfl
  | cons pass rest ih =>
      obtain ⟨d, outcome⟩ := pass
      rw [List.flatMap_cons, List.filter_append, ih]
      cases outcome with
      | skipped | ignored => rfl
      | linted rows =>
          have hlinted : Session.lintedIn ((d, .linted rows) :: rest) = d :: Session.lintedIn rest :=
            rfl
          rw [hlinted, List.flatMap_cons, ← filter_strokes]
          rfl

/-- Of several documents that were drawn, one is the document in question or none. -/
theorem flatMap_of_nodup {docs : List DocumentId} (hdocs : docs.Nodup)
    (strokes : DocumentId → List Stroke) :
    (docs.flatMap fun d => if d = doc then strokes d else []) =
      if doc ∈ docs then strokes doc else [] := by
  induction docs with
  | nil => rfl
  | cons d rest ih =>
      obtain ⟨hnot, hrest⟩ := List.nodup_cons.mp hdocs
      rw [List.flatMap_cons, ih hrest]
      by_cases hd : d = doc
      · subst hd
        simp [hnot]
      · simp [hd, Ne.symm hd]

end Stroke

namespace Editor

/-- Between the two, just these strokes were made. -/
def Traced (strokes : List Stroke) (e f : Editor) : Prop :=
  ∃ calls, f.journal = e.journal ++ calls ∧ calls.filterMap Call.stroke? = strokes

variable {early late : List Stroke} {e f g : Editor}

theorem Traced.refl (e : Editor) : e.Traced [] e := ⟨[], by simp, rfl⟩

theorem Traced.trans (h : e.Traced early f) (h' : f.Traced late g) : e.Traced (early ++ late) g := by
  obtain ⟨calls, hjournal, rfl⟩ := h
  obtain ⟨later, hlater, rfl⟩ := h'
  exact ⟨calls ++ later, by rw [hlater, hjournal, List.append_assoc], List.filterMap_append⟩

/-- Requests that put nothing up. -/
theorem Traced.none {calls : List Call} (hjournal : f.journal = e.journal ++ calls)
    (hcalls : ∀ c ∈ calls, c.stroke? = none) : e.Traced [] f :=
  ⟨calls, hjournal, List.filterMap_eq_nil_iff.mpr hcalls⟩

/-- The strokes after some requests that put nothing up. -/
theorem Traced.behind (h : e.Traced [] f) (h' : f.Traced late g) : e.Traced late g := h.trans h'

end Editor

/-! ### Taking down and drawing -/

theorem Anchors.traced_destroyAll (doc : DocumentId) (handles : List Handle) (e : Editor) :
    e.Traced [] (Anchors.destroyAll doc handles e) := by
  rw [Anchors.destroyAll_eq]
  refine .none rfl fun c hc => ?_
  obtain ⟨h, -, rfl⟩ := List.mem_map.mp hc
  rfl

theorem Anchors.traced_provide (a : Anchors) (doc : DocumentId) (row : Row) (e : Editor) :
    e.Traced [] (a.provide doc row e).2 := by
  unfold provide
  split
  · exact .refl e
  · exact ⟨Call.marking doc row e.freshHandle, rfl, rfl⟩

namespace Renderer

theorem traced_releaseAll (handles : List Handle) (e : Editor) :
    e.Traced [] (Renderer.releaseAll handles e) := by
  rw [Renderer.releaseAll_eq]
  refine .none rfl fun c hc => ?_
  obtain ⟨h, -, rfl⟩ := List.mem_map.mp hc
  rfl

theorem traced_foldl_drawGroup (doc : DocumentId) (g : SubscriptionGroup Handle) (a : Anchors)
    (e : Editor) (entries : List (Row × LineGroup)) :
    e.Traced (groupStrokes doc entries) (entries.foldl (drawGroup doc) (g, a, e)).2.2 := by
  induction entries generalizing g a e with
  | nil => exact .refl e
  | cons entry rest ih =>
      rw [List.foldl_cons, drawGroup_eq]
      have hshown : (a.provide doc entry.1 e).2.Traced [.tooltip doc (Tooltip.ofGroup entry)]
          ((a.provide doc entry.1 e).2.showTooltip doc (Tooltip.ofGroup entry)).2 :=
        ⟨_, rfl, rfl⟩
      exact (a.traced_provide doc entry.1 e).behind (hshown.trans (ih _ _ _))

end Renderer

namespace Session

variable {σ : Type u} (s : Session σ) (doc : DocumentId)

theorem traced_updateStatus : s.editor.Traced [.statusText] s.updateStatus.editor := ⟨_, rfl, rfl⟩

theorem traced_draw :
    s.editor.Traced (groupStrokes doc (s.store.diagnostics doc).entries) (s.draw doc).editor := by
  have hcleared : s.editor.Traced [] (s.anchors.reconcile doc (s.store.rows doc) s.editor).2.2 := by
    rw [Anchors.reconcile_editor]
    exact Anchors.traced_destroyAll doc _ s.editor
  exact (hcleared.behind (Renderer.traced_releaseAll (s.renderer.handles doc) _)).behind
    (Renderer.traced_foldl_drawGroup doc [] _ _ _)

theorem traced_render :
    s.editor.Traced ((s.store.diagnostics doc).strokes doc) (s.render doc).editor :=
  (traced_draw s doc).trans (traced_updateStatus (s.draw doc))

/-- Documents that are drawn one after another are drawn from the same store. -/
theorem traced_renderAll (docs : List DocumentId) :
    s.editor.Traced (docs.flatMap fun doc => (s.store.diagnostics doc).strokes doc)
      (docs.foldl (fun s doc => s.render doc) s).editor := by
  induction docs generalizing s with
  | nil => exact .refl s.editor
  | cons doc rest ih => exact (traced_render s doc).trans (ih (s.render doc))

theorem traced_forgetDiagnostics : s.editor.Traced [] (s.forgetDiagnostics doc).editor :=
  (Anchors.traced_destroyAll doc _ s.editor).behind (Renderer.traced_releaseAll _ _)

/-! ### Passes -/

variable (sv : Services σ)

theorem traced_lookUp (d : Document) : s.editor.Traced [] (s.lookUp sv d).2.editor := by
  refine .none (journal_lookUp sv d s) fun c hc => ?_
  obtain ⟨path, rfl | rfl⟩ := mem_lookUps hc <;> rfl

theorem traced_runPass :
    s.editor.Traced
      ((s.runPass sv doc).1.strokes doc ((s.runPass sv doc).2.store.diagnostics doc))
      (s.runPass sv doc).2.editor := by
  have hresult := runPass_result sv doc s
  generalize s.runPass sv doc = result at hresult ⊢
  cases hresult with
  | noDocument => exact .refl s.editor
  | unsupported => exact .refl s.editor
  | @ignored _ path =>
      have hasked : s.editor.Traced [] (s.askIgnored sv path).2.editor := ⟨_, rfl, rfl⟩
      exact (hasked.behind (traced_forgetDiagnostics _ doc)).behind (traced_updateStatus _)
  | @noConfig d => exact traced_lookUp s sv d
  | @linted d =>
      rw [lintDocument_eq]
      have hstored : (s.lookUp sv d).2.editor.Traced []
          ((s.lookUp sv d).2.stored sv doc d (s.lookUp sv d).1).editor :=
        ⟨_, journal_stored sv doc d (s.lookUp sv d).1 (s.lookUp sv d).2, rfl⟩
      exact ((traced_lookUp s sv d).behind hstored).behind (traced_render _ doc)

/-- In passes over different documents, what one of them drew is what is stored in the end. -/
theorem traced_passAll {docs : List DocumentId} (hdocs : docs.Nodup) :
    s.editor.Traced
      ((passAll sv docs s).1.flatMap fun pass =>
        pass.2.strokes pass.1 ((passAll sv docs s).2.store.diagnostics pass.1))
      (passAll sv docs s).2.editor := by
  induction docs generalizing s with
  | nil => exact .refl s.editor
  | cons doc rest ih =>
      obtain ⟨hnot, hrest⟩ := List.nodup_cons.mp hdocs
      have hspared : Spares doc (s.runPass sv doc).2 (passAll sv rest (s.runPass sv doc).2).2 :=
        (passAll_steps (P := (· ∈ rest)) fun d hd => .inl hd).spares hnot
      have hfirst := traced_runPass s doc sv
      rw [Store.diagnostics, ← hspared.store] at hfirst
      exact hfirst.trans (ih (s.runPass sv doc).2 hrest)

end Session

end LintMargin
