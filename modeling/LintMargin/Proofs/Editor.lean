import LintMargin.Renderer
import LintMargin.Session.Basic
import LintMargin.Proofs.SortedMap
import Mathlib.Data.List.Perm.Basic

/-!
# What requests do to the editor

Repeated requests in closed form, and the freshness of handles: what the editor is about to hand out is
not the name of anything yet.
-/

namespace LintMargin

namespace Editor

/-! ### Handles -/

/-- The editor has handed out this handle. -/
def Issued (e : Editor) (h : Handle) : Prop := ∃ n < e.issued, e.manner.handle n = h

theorem not_issued_freshHandle (e : Editor) : ¬ e.Issued e.freshHandle := by
  rintro ⟨n, hlt, heq⟩
  rw [e.manner.handle_inj heq] at hlt
  exact Nat.lt_irrefl _ hlt

/-- Handing out more handles takes none back. -/
theorem Issued.mono {e f : Editor} {h : Handle} (he : e.Issued h) (hmanner : f.manner = e.manner)
    (hissued : e.issued ≤ f.issued) : f.Issued h := by
  obtain ⟨n, hlt, rfl⟩ := he
  exact ⟨n, Nat.lt_of_lt_of_le hlt hissued, by rw [hmanner]⟩

theorem issued_freshHandle {e f : Editor} (hmanner : f.manner = e.manner)
    (hissued : e.issued < f.issued) : f.Issued e.freshHandle :=
  ⟨e.issued, hissued, by rw [hmanner]; rfl⟩

/-! ### Outside of the margin -/

/-- Nothing outside of the margin has changed, except that handles were given out and requests noted. -/
structure OffMargin (e f : Editor) : Prop where
  manner : f.manner = e.manner
  documents : f.documents = e.documents
  active : f.active = e.active
  cursors : f.cursors = e.cursors
  listeners : f.listeners = e.listeners
  status : f.status = e.status
  issued : e.issued ≤ f.issued

theorem OffMargin.refl (e : Editor) : e.OffMargin e := ⟨rfl, rfl, rfl, rfl, rfl, rfl, Nat.le_refl _⟩

theorem OffMargin.trans {e f g : Editor} (h : e.OffMargin f) (h' : f.OffMargin g) : e.OffMargin g where
  manner := h'.manner.trans h.manner
  documents := h'.documents.trans h.documents
  active := h'.active.trans h.active
  cursors := h'.cursors.trans h.cursors
  listeners := h'.listeners.trans h.listeners
  status := h'.status.trans h.status
  issued := Nat.le_trans h.issued h'.issued

/-! ### What belongs to a document -/

/-- Lists with equal images are matched by their images. -/
private theorem matched_of_map_eq {α β γ : Type*} {f : α → γ} {g : β → γ} {as : List α} {bs : List β}
    (h : as.map f = bs.map g) :
    (∀ a b, (a, b) ∈ as.zip bs → f a = g b) ∧ ∀ a ∈ as, ∃ b, (a, b) ∈ as.zip bs := by
  induction as generalizing bs with
  | nil => simp
  | cons x as ih =>
      cases bs with
      | nil => simp at h
      | cons y bs =>
          simp only [List.map_cons, List.cons.injEq] at h
          obtain ⟨hmatch, hevery⟩ := ih h.2
          constructor
          · intro a b hmem
            rcases List.mem_cons.mp hmem with heq | hmem
            · cases heq
              exact h.1
            · exact hmatch a b hmem
          · intro a ha
            rcases List.mem_cons.mp ha with rfl | ha
            · exact ⟨y, List.mem_cons_self⟩
            · obtain ⟨b, hb⟩ := hevery a ha
              exact ⟨b, List.mem_cons_of_mem _ hb⟩

section Share

variable {α : Type*} {doc : DocumentId} {m n : SortedMap Handle (DocumentId × α)} {h : Handle} {a : α}

/-- The share of a document in named things that each belong to one. -/
def share (doc : DocumentId) (m : SortedMap Handle (DocumentId × α)) : List (Handle × α) :=
  m.entries.filterMap fun x => if x.2.1 = doc then some (x.1, x.2.2) else none

theorem mem_share : (h, a) ∈ share doc m ↔ m.get? h = some (doc, a) := by
  simp only [share, List.mem_filterMap, SortedMap.get?_eq_some_iff]
  constructor
  · rintro ⟨⟨g, d, b⟩, hmem, heq⟩
    split at heq
    · next hdoc =>
        cases heq
        exact hdoc ▸ hmem
    · cases heq
  · intro hmem
    exact ⟨(h, doc, a), hmem, by simp⟩

theorem nodup_share_handles (doc : DocumentId) (m : SortedMap Handle (DocumentId × α)) :
    ((share doc m).map Prod.fst).Nodup := by
  rw [share, List.map_filterMap]
  apply SortedMap.nodup_filterMap_entries
  rintro ⟨g, t⟩ ⟨g', t'⟩ k hx hy
  simp only [Option.map_eq_some_iff, Option.ite_none_right_eq_some, Option.some.injEq] at hx hy
  obtain ⟨⟨_, _⟩, ⟨-, hx⟩, rfl⟩ := hx
  obtain ⟨⟨_, _⟩, ⟨-, hy⟩, rfl⟩ := hy
  cases hx
  cases hy
  rfl

theorem share_eq_map_filter (doc : DocumentId) (m : SortedMap Handle (DocumentId × α)) :
    share doc m = (m.entries.filter fun x => x.2.1 = doc).map fun x => (x.1, x.2.2) := by
  rw [share, ← List.filterMap_eq_map, List.filterMap_filter]
  apply List.filterMap_congr
  intro x _
  by_cases h : x.2.1 = doc <;> simp [h]

/-- The share of a document, from the names of its things, if no name was given to anything else. -/
theorem share_eq_of_names {names : List Handle} (hm : ∀ h, h ∈ names ↔ ∃ a, m.get? h = some (doc, a))
    (hn : ∀ h, h ∈ names ↔ ∃ a, n.get? h = some (doc, a))
    (hsame : ∀ h a b, m.get? h = some (doc, a) → n.get? h = some (doc, b) → a = b) :
    share doc m = share doc n := by
  rw [share_eq_map_filter, share_eq_map_filter]
  congr 1
  apply SortedMap.filter_entries_eq
  rintro h ⟨d, a⟩ hkeep
  obtain rfl : d = doc := of_decide_eq_true hkeep
  constructor
  · intro ha
    obtain ⟨b, hb⟩ := (hn h).mp ((hm h).mpr ⟨a, ha⟩)
    rw [hsame h a b ha hb, hb]
  · intro ha
    obtain ⟨b, hb⟩ := (hm h).mp ((hn h).mpr ⟨a, ha⟩)
    rw [← hsame h b a hb ha, hb]

/-- The share of a document, from the names of its things and what they stand for. -/
theorem share_perm_zip {names : List Handle} {values : List α} (hnames : names.Nodup)
    (hmem : ∀ h, h ∈ names ↔ ∃ a, m.get? h = some (doc, a))
    (hvalues : names.map m.get? = values.map fun a => some (doc, a)) :
    (share doc m).Perm (names.zip values) := by
  have hlength : names.length = values.length := by simpa using congrArg List.length hvalues
  have hnodup : (names.zip values).Nodup := by
    apply List.Nodup.of_map Prod.fst
    rwa [List.map_fst_zip (Nat.le_of_eq hlength)]
  obtain ⟨hmatch, hevery⟩ := matched_of_map_eq hvalues
  rw [List.perm_ext_iff_of_nodup (nodup_share_handles doc m).of_map hnodup]
  rintro ⟨h, a⟩
  rw [mem_share]
  constructor
  · intro ha
    obtain ⟨b, hb⟩ := hevery h ((hmem h).mpr ⟨a, ha⟩)
    have heq := (hmatch h b hb).symm.trans ha
    simp only [Option.some.injEq, Prod.mk.injEq, true_and] at heq
    exact heq ▸ hb
  · exact hmatch h a

theorem share_values_perm {names : List Handle} {values : List α} (hnames : names.Nodup)
    (hmem : ∀ h, h ∈ names ↔ ∃ a, m.get? h = some (doc, a))
    (hvalues : names.map m.get? = values.map fun a => some (doc, a)) :
    ((share doc m).map Prod.snd).Perm values := by
  have hlength : names.length = values.length := by simpa using congrArg List.length hvalues
  have hperm := (share_perm_zip hnames hmem hvalues).map Prod.snd
  rwa [List.map_snd_zip (Nat.le_of_eq hlength.symm)] at hperm

end Share

end Editor

/-! ### Repeated requests -/

theorem Anchors.destroyAll_eq (doc : DocumentId) (handles : List Handle) (e : Editor) :
    Anchors.destroyAll doc handles e =
      { e with
        markers := e.markers.filter fun h _ => !handles.contains h
        journal := e.journal ++ handles.map (.destroy doc) } := by
  induction handles generalizing e with
  | nil => simp [Anchors.destroyAll, SortedMap.filter_true]
  | cons h rest ih =>
      rw [Anchors.destroyAll, List.foldl_cons]
      change Anchors.destroyAll doc rest (e.destroy doc h) = _
      rw [ih]
      simp only [Editor.destroy, Editor.note, SortedMap.filter_erase, List.append_assoc,
        List.map_cons, List.singleton_append]

theorem Renderer.releaseAll_eq (handles : List Handle) (e : Editor) :
    Renderer.releaseAll handles e =
      { e with
        tooltips := e.tooltips.filter fun h _ => !handles.contains h
        journal := e.journal ++ handles.map .releaseTooltip } := by
  induction handles generalizing e with
  | nil => simp [Renderer.releaseAll, SortedMap.filter_true]
  | cons h rest ih =>
      rw [Renderer.releaseAll, List.foldl_cons]
      change Renderer.releaseAll rest (e.releaseTooltip h) = _
      rw [ih]
      simp only [Editor.releaseTooltip, Editor.note, SortedMap.filter_erase, List.append_assoc,
        List.map_cons, List.singleton_append]

end LintMargin
