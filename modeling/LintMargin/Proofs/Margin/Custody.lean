import LintMargin.Proofs.Margin.Redrawing
import Mathlib.Data.List.Induction

/-!
# The custody of handles

What an editor has made and what it was told to take away again can be read off its journal. A request is
proper if it makes something under a new name, and no second anchor for one row, or if it is about
something that is still there; an anchor gets two decorations at most. `Recorded` says that all requests
so far were proper and that the editor shows what its journal has not taken away. Every request that is
proper keeps it so.
-/

namespace LintMargin

/-- Something that an editor has made. -/
inductive Thing where
  | anchor (doc : DocumentId) (row : Row)
  | tooltip (doc : DocumentId) (tooltip : Tooltip)
  | listener (doc : DocumentId) (event : DocumentEvent)

/-- The document for which it was made. -/
def Thing.doc : Thing → DocumentId
  | .anchor doc _ | .tooltip doc _ | .listener doc _ => doc

/-! ### Reading a journal -/

namespace Call

/-- What was made, with its handle. -/
def made? : Call → Option (Handle × Thing)
  | .mark doc row h => some (h, .anchor doc row)
  | .showTooltip doc h t => some (h, .tooltip doc t)
  | .subscribe doc h event => some (h, .listener doc event)
  | _ => none

/-- The handle of what was taken away. -/
def ended? : Call → Option Handle
  | .destroy _ h | .releaseTooltip h | .unsubscribe h => some h
  | _ => none

/-- The handle that a request is answered with or about. -/
def handle? : Call → Option Handle
  | .mark _ _ h | .destroy _ h | .decorate _ h _ | .showTooltip _ h _ | .releaseTooltip h
  | .subscribe _ h _ | .unsubscribe h => some h
  | _ => none

/-- The anchor that got a decoration. -/
def decorated? : Call → Option Handle
  | .decorate _ h _ => some h
  | _ => none

end Call

def madeIn (calls : List Call) : List (Handle × Thing) := calls.filterMap Call.made?

def endedIn (calls : List Call) : List Handle := calls.filterMap Call.ended?

def decoratedIn (calls : List Call) : List Handle := calls.filterMap Call.decorated?

/-- Something was made and not taken away since. -/
def Live (calls : List Call) (h : Handle) (thing : Thing) : Prop :=
  (h, thing) ∈ madeIn calls ∧ h ∉ endedIn calls

theorem Call.handle?_of_made? {c : Call} {x : Handle × Thing} (h : c.made? = some x) :
    c.handle? = some x.1 := by
  cases c with
  | mark | showTooltip | subscribe => cases h; rfl
  | _ => cases h

theorem Call.handle?_of_ended? {c : Call} {g : Handle} (h : c.ended? = some g) :
    c.handle? = some g := by
  cases c with
  | destroy | releaseTooltip | unsubscribe => cases h; rfl
  | _ => cases h

theorem Call.handle?_of_decorated? {c : Call} {g : Handle} (h : c.decorated? = some g) :
    c.handle? = some g := by
  cases c with
  | decorate => cases h; rfl
  | _ => cases h

/-- A request that has to do with no handle. -/
theorem Call.kinds_of_handle?_eq_none {c : Call} (h : c.handle? = none) :
    c.made? = none ∧ c.ended? = none ∧ c.decorated? = none := by
  cases c <;> first | exact ⟨rfl, rfl, rfl⟩ | cases h

theorem filterMap_concat {α β : Type*} (f : α → Option β) (l : List α) (a : α) :
    (l ++ [a]).filterMap f = l.filterMap f ++ (f a).toList := by
  rw [List.filterMap_append]
  cases hfa : f a <;> simp [hfa]

theorem madeIn_append (calls later : List Call) : madeIn (calls ++ later) = madeIn calls ++ madeIn later :=
  List.filterMap_append

theorem endedIn_append (calls later : List Call) :
    endedIn (calls ++ later) = endedIn calls ++ endedIn later :=
  List.filterMap_append

theorem decoratedIn_append (calls later : List Call) :
    decoratedIn (calls ++ later) = decoratedIn calls ++ decoratedIn later :=
  List.filterMap_append

theorem madeIn_concat (calls : List Call) (c : Call) :
    madeIn (calls ++ [c]) = madeIn calls ++ c.made?.toList :=
  filterMap_concat Call.made? calls c

theorem endedIn_concat (calls : List Call) (c : Call) :
    endedIn (calls ++ [c]) = endedIn calls ++ c.ended?.toList :=
  filterMap_concat Call.ended? calls c

theorem decoratedIn_concat (calls : List Call) (c : Call) :
    decoratedIn (calls ++ [c]) = decoratedIn calls ++ c.decorated?.toList :=
  filterMap_concat Call.decorated? calls c

theorem mem_madeIn_concat {calls : List Call} {c : Call} {x : Handle × Thing} :
    x ∈ madeIn (calls ++ [c]) ↔ x ∈ madeIn calls ∨ c.made? = some x := by
  rw [madeIn_concat, List.mem_append, Option.mem_toList]

theorem mem_endedIn_concat {calls : List Call} {c : Call} {h : Handle} :
    h ∈ endedIn (calls ++ [c]) ↔ h ∈ endedIn calls ∨ c.ended? = some h := by
  rw [endedIn_concat, List.mem_append, Option.mem_toList]

/-- A request that may be made after others. -/
def Call.Proper (before : List Call) : Call → Prop
  | .mark doc row h =>
    h ∉ (madeIn before).map Prod.fst ∧ ∀ g, ¬ Live before g (.anchor doc row)
  | .destroy doc h => ∃ row, Live before h (.anchor doc row)
  | .decorate doc h _ =>
    (∃ row, Live before h (.anchor doc row)) ∧ (decoratedIn before).count h < 2
  | .showTooltip _ h _ | .subscribe _ h _ => h ∉ (madeIn before).map Prod.fst
  | .releaseTooltip h => ∃ doc t, Live before h (.tooltip doc t)
  | .unsubscribe h => ∃ doc event, Live before h (.listener doc event)
  | _ => True

/-- Every request may be made after those before it. -/
def AllProper (calls : List Call) : Prop :=
  ∀ before c after, calls = before ++ c :: after → c.Proper before

theorem allProper_nil : AllProper [] := fun before c after h => by simp at h

theorem allProper_concat {calls : List Call} {c : Call} (hcalls : AllProper calls)
    (hc : c.Proper calls) : AllProper (calls ++ [c]) := by
  intro before d after heq
  rcases List.eq_nil_or_concat after with rfl | ⟨after, b, rfl⟩
  · obtain ⟨rfl, hlast⟩ := List.append_inj' heq rfl
    cases hlast
    exact hc
  · rw [List.concat_eq_append, ← List.cons_append, ← List.append_assoc] at heq
    obtain ⟨rfl, -⟩ := List.append_inj' heq rfl
    exact hcalls before d after rfl

theorem AllProper.of_append {calls later : List Call} (h : AllProper (calls ++ later)) :
    AllProper calls := by
  intro before c after heq
  exact h before c (after ++ later) (by simp [heq])

theorem AllProper.last {calls : List Call} {c : Call} (h : AllProper (calls ++ [c])) :
    c.Proper calls :=
  h calls c [] rfl

theorem Call.proper_of_handle?_eq_none {c : Call} (hc : c.handle? = none) (before : List Call) :
    c.Proper before := by
  cases c <;> first | exact trivial | cases hc

theorem AllProper.append_quiet {calls later : List Call} (hcalls : AllProper calls)
    (hlater : ∀ c ∈ later, c.handle? = none) : AllProper (calls ++ later) := by
  induction later using List.reverseRecOn with
  | nil => rwa [List.append_nil]
  | append_singleton later c ih =>
      rw [← List.append_assoc]
      refine allProper_concat (ih fun b hb => hlater b (List.mem_append_left _ hb)) ?_
      exact Call.proper_of_handle?_eq_none (hlater c (by simp)) _

theorem Call.Proper.made_new {before : List Call} {c : Call} (hc : c.Proper before) {h : Handle}
    {thing : Thing} (hmade : c.made? = some (h, thing)) : h ∉ (madeIn before).map Prod.fst := by
  cases c with
  | mark => cases hmade; exact hc.1
  | showTooltip => cases hmade; exact hc
  | subscribe => cases hmade; exact hc
  | _ => cases hmade

theorem Call.Proper.ended_live {before : List Call} {c : Call} (hc : c.Proper before) {h : Handle}
    (hended : c.ended? = some h) : ∃ thing, Live before h thing := by
  cases c with
  | destroy => cases hended; obtain ⟨row, hlive⟩ := hc; exact ⟨_, hlive⟩
  | releaseTooltip => cases hended; obtain ⟨doc, t, hlive⟩ := hc; exact ⟨_, hlive⟩
  | unsubscribe => cases hended; obtain ⟨doc, event, hlive⟩ := hc; exact ⟨_, hlive⟩
  | _ => cases hended

theorem Call.Proper.decorated_few {before : List Call} {c : Call} (hc : c.Proper before) {h : Handle}
    (hdecorated : c.decorated? = some h) : (decoratedIn before).count h < 2 := by
  cases c with
  | decorate => cases hdecorated; exact hc.2
  | _ => cases hdecorated

/-- A handle is the name of one thing. -/
theorem AllProper.thing_eq {calls : List Call} (hcalls : AllProper calls) {h : Handle} {x y : Thing}
    (hx : (h, x) ∈ madeIn calls) (hy : (h, y) ∈ madeIn calls) : x = y := by
  induction calls using List.reverseRecOn with
  | nil => cases hx
  | append_singleton calls c ih =>
      have hnew : ∀ z w, c.made? = some (h, z) → (h, w) ∈ madeIn calls → False :=
        fun z w hz hw => hcalls.last.made_new hz (List.mem_map_of_mem hw)
      rcases mem_madeIn_concat.mp hx with hx | hx <;> rcases mem_madeIn_concat.mp hy with hy | hy
      · exact ih hcalls.of_append hx hy
      · exact (hnew y x hy hx).elim
      · exact (hnew x y hx hy).elim
      · exact congrArg Prod.snd (Option.some.inj (hx.symm.trans hy))

/-- Nothing is taken away twice. -/
theorem AllProper.nodup_endedIn {calls : List Call} (hcalls : AllProper calls) :
    (endedIn calls).Nodup := by
  induction calls using List.reverseRecOn with
  | nil => exact List.nodup_nil
  | append_singleton calls c ih =>
      have hold := ih hcalls.of_append
      rw [endedIn_concat]
      cases hended : c.ended? with
      | none => simpa using hold
      | some h =>
          obtain ⟨thing, -, hstanding⟩ := hcalls.last.ended_live hended
          exact List.nodup_append'.mpr ⟨hold, by simp, by simpa using hstanding⟩

/-- No anchor gets more than two decorations. -/
theorem AllProper.count_decoratedIn {calls : List Call} (hcalls : AllProper calls) (h : Handle) :
    (decoratedIn calls).count h ≤ 2 := by
  induction calls using List.reverseRecOn with
  | nil => exact Nat.zero_le 2
  | append_singleton calls c ih =>
      have hold := ih hcalls.of_append
      rw [decoratedIn_concat, List.count_append]
      cases hdecorated : c.decorated? with
      | none => simpa using hold
      | some g =>
          by_cases hg : g = h
          · subst hg
            simpa using Nat.succ_le_of_lt (hcalls.last.decorated_few hdecorated)
          · simpa [List.count_cons, hg] using hold

/-! ### The editor and its journal -/

namespace Editor

/-- Something is there to be seen. -/
def Shows (e : Editor) (h : Handle) : Thing → Prop
  | .anchor doc row => ∃ decorations, e.markers.get? h = some ⟨doc, row, decorations⟩
  | .tooltip doc t => e.tooltips.get? h = some (doc, t)
  | .listener doc event => e.listeners.get? h = some (doc, event)

/-- All requests were proper, and the journal tells what there is. -/
structure Recorded (e : Editor) : Prop where
  proper : AllProper e.journal
  shows_iff : ∀ {h thing}, e.Shows h thing ↔ Live e.journal h thing
  decorations : ∀ {h m}, e.markers.get? h = some m →
    (decoratedIn e.journal).count h = m.decorations.length
  issued : ∀ c ∈ e.journal, ∀ h, c.handle? = some h → e.Issued h

namespace Recorded

variable {e f : Editor} {c : Call} {h g : Handle} {x y : Thing} {doc : DocumentId}

theorem empty (manner : Manner) (status : Option String) : (fresh manner status).Recorded where
  proper := allProper_nil
  shows_iff {h thing} := by cases thing <;> simp [Shows, fresh, Live, madeIn]
  decorations hm := by cases hm
  issued c hc := by cases hc

theorem thing_eq (he : e.Recorded) (hx : e.Shows h x) (hy : e.Shows h y) : x = y :=
  he.proper.thing_eq (he.shows_iff.mp hx).1 (he.shows_iff.mp hy).1

theorem issued_of_shows (he : e.Recorded) (hx : e.Shows h x) : e.Issued h := by
  obtain ⟨c, hc, hmade⟩ := List.mem_filterMap.mp (he.shows_iff.mp hx).1
  exact he.issued c hc h (Call.handle?_of_made? hmade)

/-- Whatever is requested later, a handle stays the name of what it was made for. -/
theorem thing_eq_later (he : e.Recorded) (hf : f.Recorded) {calls : List Call}
    (hlater : f.journal = e.journal ++ calls) (hx : e.Shows h x) (hy : f.Shows h y) : x = y := by
  have hmade : (h, x) ∈ madeIn f.journal := by
    rw [hlater, madeIn_append]
    exact List.mem_append_left _ (he.shows_iff.mp hx).1
  exact hf.proper.thing_eq hmade (hf.shows_iff.mp hy).1

theorem handle?_ne_fresh (he : e.Recorded) (hc : c ∈ e.journal) : c.handle? ≠ some e.freshHandle :=
  fun heq => e.not_issued_freshHandle (he.issued c hc _ heq)

theorem fresh_not_made (he : e.Recorded) : e.freshHandle ∉ (madeIn e.journal).map Prod.fst := by
  intro hin
  obtain ⟨x, hx, hfresh⟩ := List.mem_map.mp hin
  obtain ⟨c, hc, hmade⟩ := List.mem_filterMap.mp hx
  exact he.handle?_ne_fresh hc (hfresh ▸ Call.handle?_of_made? hmade)

theorem fresh_not_ended (he : e.Recorded) : e.freshHandle ∉ endedIn e.journal := by
  intro hin
  obtain ⟨c, hc, hended⟩ := List.mem_filterMap.mp hin
  exact he.handle?_ne_fresh hc (Call.handle?_of_ended? hended)

theorem fresh_not_decorated (he : e.Recorded) : e.freshHandle ∉ decoratedIn e.journal := by
  intro hin
  obtain ⟨c, hc, hdecorated⟩ := List.mem_filterMap.mp hin
  exact he.handle?_ne_fresh hc (Call.handle?_of_decorated? hdecorated)

theorem not_shows_fresh (he : e.Recorded) : ¬ e.Shows e.freshHandle x :=
  fun hx => he.fresh_not_made (List.mem_map_of_mem (he.shows_iff.mp hx).1)

theorem fresh_not_listening (he : e.Recorded) : e.listeners.get? e.freshHandle = none := by
  cases hlistener : e.listeners.get? e.freshHandle with
  | none => rfl
  | some l => exact absurd hlistener (he.not_shows_fresh (x := .listener l.1 l.2))

/-- One more request whose handle was handed out. -/
theorem issued_concat (he : e.Recorded) (hjournal : f.journal = e.journal ++ [c])
    (hmanner : f.manner = e.manner) (hissued : e.issued ≤ f.issued)
    (hlast : ∀ g, c.handle? = some g → f.Issued g) :
    ∀ b ∈ f.journal, ∀ g, b.handle? = some g → f.Issued g := by
  intro b hb g hg
  rw [hjournal, List.mem_append, List.mem_singleton] at hb
  rcases hb with hb | rfl
  · exact (he.issued b hb g hg).mono hmanner hissued
  · exact hlast g hg

/-- Something new is made; if it is an anchor, then on a row without one. -/
theorem make (he : e.Recorded) (hjournal : f.journal = e.journal ++ [c])
    (hmade : c.made? = some (e.freshHandle, x)) (hproper : c.Proper e.journal)
    (hshows : ∀ {g y}, f.Shows g y ↔ e.Shows g y ∨ g = e.freshHandle ∧ y = x)
    (hmarkers : ∀ {g m}, f.markers.get? g = some m →
      e.markers.get? g = some m ∨ g = e.freshHandle ∧ m.decorations = [])
    (hmanner : f.manner = e.manner) (hissued : f.issued = e.issued + 1) : f.Recorded where
  proper := hjournal ▸ allProper_concat he.proper hproper
  shows_iff {g y} := by
    have hended : c.ended? = none := by cases c <;> first | rfl | cases hmade
    rw [hshows, he.shows_iff, hjournal, Live, Live, mem_madeIn_concat, mem_endedIn_concat, hended,
      hmade]
    simp only [Option.some.injEq, Prod.mk.injEq, reduceCtorEq, or_false]
    constructor
    · rintro (⟨hold, hstanding⟩ | ⟨rfl, rfl⟩)
      · exact ⟨.inl hold, hstanding⟩
      · exact ⟨.inr ⟨rfl, rfl⟩, he.fresh_not_ended⟩
    · rintro ⟨hold | ⟨rfl, rfl⟩, hstanding⟩
      · exact .inl ⟨hold, hstanding⟩
      · exact .inr ⟨rfl, rfl⟩
  decorations {g m} hm := by
    have hdecorated : c.decorated? = none := by cases c <;> first | rfl | cases hmade
    rw [hjournal, decoratedIn_concat, hdecorated, Option.toList_none, List.append_nil]
    rcases hmarkers hm with hold | ⟨rfl, hbare⟩
    · exact he.decorations hold
    · rw [hbare, List.count_eq_zero_of_not_mem he.fresh_not_decorated]
      rfl
  issued := by
    refine he.issued_concat hjournal hmanner (hissued ▸ Nat.le_succ _) fun g hg => ?_
    obtain rfl := Option.some.inj ((Call.handle?_of_made? hmade).symm.trans hg)
    exact issued_freshHandle hmanner (hissued ▸ Nat.lt_succ_self _)

/-- Something that is there is taken away. -/
theorem finish (he : e.Recorded) (hjournal : f.journal = e.journal ++ [c])
    (hended : c.ended? = some h) (hproper : c.Proper e.journal)
    (hshows : ∀ {g y}, f.Shows g y ↔ e.Shows g y ∧ g ≠ h)
    (hmarkers : ∀ {g m}, f.markers.get? g = some m → e.markers.get? g = some m)
    (hmanner : f.manner = e.manner) (hissued : f.issued = e.issued) : f.Recorded where
  proper := hjournal ▸ allProper_concat he.proper hproper
  shows_iff {g y} := by
    have hmade : c.made? = none := by cases c <;> first | rfl | cases hended
    rw [hshows, he.shows_iff, hjournal, Live, Live, mem_madeIn_concat, mem_endedIn_concat, hended,
      hmade]
    simp only [Option.some.injEq, reduceCtorEq, or_false, not_or, and_assoc, ne_eq, eq_comm]
  decorations {g m} hm := by
    have hdecorated : c.decorated? = none := by cases c <;> first | rfl | cases hended
    rw [hjournal, decoratedIn_concat, hdecorated, Option.toList_none, List.append_nil]
    exact he.decorations (hmarkers hm)
  issued := by
    refine he.issued_concat hjournal hmanner (Nat.le_of_eq hissued.symm) fun g hg => ?_
    obtain rfl := Option.some.inj ((Call.handle?_of_ended? hended).symm.trans hg)
    obtain ⟨thing, hlive, -⟩ := hproper.ended_live hended
    obtain ⟨b, hb, hmade⟩ := List.mem_filterMap.mp hlive
    exact (he.issued b hb _ (Call.handle?_of_made? hmade)).mono hmanner (Nat.le_of_eq hissued.symm)

/-- Requests that have to do with no handle. -/
theorem quiet (he : e.Recorded) {calls : List Call} (hjournal : f.journal = e.journal ++ calls)
    (hcalls : ∀ c ∈ calls, c.handle? = none) (hmarkers : f.markers = e.markers)
    (htooltips : f.tooltips = e.tooltips) (hlisteners : f.listeners = e.listeners)
    (hmanner : f.manner = e.manner) (hissued : f.issued = e.issued) : f.Recorded where
  proper := hjournal ▸ he.proper.append_quiet hcalls
  shows_iff {g y} := by
    have hsame : f.Shows g y ↔ e.Shows g y := by
      cases y <;> simp only [Shows, hmarkers, htooltips, hlisteners]
    have hmade : madeIn calls = [] := List.filterMap_eq_nil_iff.mpr fun c hc =>
      (Call.kinds_of_handle?_eq_none (hcalls c hc)).1
    have hended : endedIn calls = [] := List.filterMap_eq_nil_iff.mpr fun c hc =>
      (Call.kinds_of_handle?_eq_none (hcalls c hc)).2.1
    rw [hsame, he.shows_iff, hjournal, Live, Live, madeIn_append, endedIn_append, hmade, hended,
      List.append_nil, List.append_nil]
  decorations {g m} hm := by
    have hdecorated : decoratedIn calls = [] := List.filterMap_eq_nil_iff.mpr fun c hc =>
      (Call.kinds_of_handle?_eq_none (hcalls c hc)).2.2
    rw [hjournal, decoratedIn_append, hdecorated, List.append_nil]
    exact he.decorations (hmarkers ▸ hm)
  issued c hc g hg := by
    rw [hjournal, List.mem_append] at hc
    rcases hc with hc | hc
    · exact (he.issued c hc g hg).mono hmanner (Nat.le_of_eq hissued.symm)
    · rw [hcalls c hc] at hg
      cases hg

/-! ### Single requests -/

theorem mark (he : e.Recorded) {row : Row} (hfree : ∀ g, ¬ e.Shows g (.anchor doc row)) :
    (e.mark doc row).2.Recorded := by
  refine he.make (x := .anchor doc row) rfl rfl
    ⟨he.fresh_not_made, fun g hlive => hfree g (he.shows_iff.mpr hlive)⟩ ?_ ?_ rfl rfl
  · intro g y
    cases y with
    | anchor d r =>
        have hnew := he.not_shows_fresh (x := .anchor d r)
        simp only [Shows, Editor.mark, note, SortedMap.get?_insert] at hnew ⊢
        by_cases hg : e.freshHandle = g
        · subst hg
          simp only [hnew, if_true, false_or, Option.some.injEq, Marker.mk.injEq, true_and,
            Thing.anchor.injEq]
          constructor
          · rintro ⟨_, rfl, rfl, -⟩
            exact ⟨rfl, rfl⟩
          · rintro ⟨rfl, rfl⟩
            exact ⟨[], rfl, rfl, rfl⟩
        · simp [hg, Ne.symm hg]
    | tooltip | listener => simp [Shows, Editor.mark, note]
  · intro g m hm
    simp only [Editor.mark, note, SortedMap.get?_insert] at hm
    split at hm
    · next hg =>
        cases hm
        exact .inr ⟨hg.symm, rfl⟩
    · exact .inl hm

theorem showTooltip (he : e.Recorded) (doc : DocumentId) (t : Tooltip) :
    (e.showTooltip doc t).2.Recorded := by
  refine he.make (x := .tooltip doc t) rfl rfl he.fresh_not_made ?_ (fun hm => .inl hm) rfl rfl
  intro g y
  cases y with
  | tooltip d u =>
      have hnew := he.not_shows_fresh (x := .tooltip d u)
      simp only [Shows, Editor.showTooltip, note, SortedMap.get?_insert] at hnew ⊢
      by_cases hg : e.freshHandle = g
      · subst hg
        simp [hnew, eq_comm]
      · simp [hg, Ne.symm hg]
  | anchor | listener => simp [Shows, Editor.showTooltip, note]

theorem subscribe (he : e.Recorded) (doc : DocumentId) (event : DocumentEvent) :
    (e.subscribe doc event).2.Recorded := by
  refine he.make (x := .listener doc event) rfl rfl he.fresh_not_made ?_ (fun hm => .inl hm) rfl rfl
  intro g y
  cases y with
  | listener d u =>
      have hnew := he.not_shows_fresh (x := .listener d u)
      simp only [Shows, Editor.subscribe, note, SortedMap.get?_insert] at hnew ⊢
      by_cases hg : e.freshHandle = g
      · subst hg
        simp [hnew, eq_comm]
      · simp [hg, Ne.symm hg]
  | anchor | tooltip => simp [Shows, Editor.subscribe, note]

theorem decorate (he : e.Recorded) {m : Marker} (hm : e.markers.get? h = some m)
    (hfew : m.decorations.length < 2) (d : Decoration) : (e.decorate m.doc h d).Recorded where
  proper := by
    refine allProper_concat he.proper ⟨⟨m.row, he.shows_iff.mp ⟨m.decorations, hm⟩⟩, ?_⟩
    rwa [he.decorations hm]
  shows_iff {g y} := by
    have hsame : (e.decorate m.doc h d).Shows g y ↔ e.Shows g y := by
      cases y with
      | anchor k r =>
          simp only [Shows, Editor.decorate, note, SortedMap.get?_modify]
          by_cases hg : h = g
          · subst hg
            obtain ⟨k', r', ds⟩ := m
            simp [hm]
          · rw [if_neg hg]
      | tooltip | listener => rfl
    rw [hsame, he.shows_iff]
    simp only [Editor.decorate, note, Live, mem_madeIn_concat, mem_endedIn_concat]
    simp [Call.made?, Call.ended?]
  decorations {g k} hk := by
    simp only [Editor.decorate, note, SortedMap.get?_modify] at hk ⊢
    rw [decoratedIn_concat, List.count_append]
    by_cases hg : h = g
    · subst hg
      rw [if_pos rfl, hm, Option.map_some, Option.some.injEq] at hk
      rw [he.decorations hm, ← hk]
      simp [Call.decorated?]
    · rw [if_neg hg] at hk
      rw [he.decorations hk]
      simp [Call.decorated?, hg]
  issued := by
    refine he.issued_concat rfl rfl (Nat.le_refl _) fun g hg => ?_
    cases hg
    have hshown : e.Shows h (.anchor m.doc m.row) := ⟨m.decorations, hm⟩
    obtain ⟨c, hc, hmade⟩ := List.mem_filterMap.mp (he.shows_iff.mp hshown).1
    exact he.issued c hc h (Call.handle?_of_made? hmade)

/-- After one thing was taken away, all others are there still. -/
theorem shows_destroy (he : e.Recorded) {row : Row} (hshown : e.Shows h (.anchor doc row)) :
    (e.destroy doc h).Shows g y ↔ e.Shows g y ∧ g ≠ h := by
  have hkind : e.Shows h y → y = .anchor doc row := fun hy => he.thing_eq hy hshown
  cases y with
  | anchor d r =>
      simp only [Shows, Editor.destroy, note, SortedMap.get?_erase]
      by_cases hg : h = g
      · simp [hg]
      · simp [hg, Ne.symm hg]
  | tooltip | listener =>
      simp only [Shows, Editor.destroy, note, reduceCtorEq, imp_false] at hkind ⊢
      by_cases hg : g = h <;> simp [hg, hkind]

theorem shows_releaseTooltip (he : e.Recorded) {t : Tooltip} (hshown : e.Shows h (.tooltip doc t)) :
    (e.releaseTooltip h).Shows g y ↔ e.Shows g y ∧ g ≠ h := by
  have hkind : e.Shows h y → y = .tooltip doc t := fun hy => he.thing_eq hy hshown
  cases y with
  | tooltip d r =>
      simp only [Shows, Editor.releaseTooltip, note, SortedMap.get?_erase]
      by_cases hg : h = g
      · simp [hg]
      · simp [hg, Ne.symm hg]
  | anchor | listener =>
      simp only [Shows, Editor.releaseTooltip, note, reduceCtorEq, imp_false] at hkind ⊢
      by_cases hg : g = h <;> simp [hg, hkind]

theorem shows_unsubscribe (he : e.Recorded) {event : DocumentEvent}
    (hshown : e.Shows h (.listener doc event)) :
    (e.unsubscribe h).Shows g y ↔ e.Shows g y ∧ g ≠ h := by
  have hkind : e.Shows h y → y = .listener doc event := fun hy => he.thing_eq hy hshown
  cases y with
  | listener d r =>
      simp only [Shows, Editor.unsubscribe, note, SortedMap.get?_erase]
      by_cases hg : h = g
      · simp [hg]
      · simp [hg, Ne.symm hg]
  | anchor | tooltip =>
      simp only [Shows, Editor.unsubscribe, note, reduceCtorEq, imp_false] at hkind ⊢
      by_cases hg : g = h <;> simp [hg, hkind]

theorem destroy (he : e.Recorded) {row : Row} (hshown : e.Shows h (.anchor doc row)) :
    (e.destroy doc h).Recorded := by
  refine he.finish rfl rfl ⟨row, he.shows_iff.mp hshown⟩ (he.shows_destroy hshown) ?_ rfl rfl
  intro g m hm
  simp only [Editor.destroy, note, SortedMap.get?_erase] at hm
  split at hm
  · cases hm
  · exact hm

theorem releaseTooltip (he : e.Recorded) {t : Tooltip} (hshown : e.Shows h (.tooltip doc t)) :
    (e.releaseTooltip h).Recorded :=
  he.finish rfl rfl ⟨doc, t, he.shows_iff.mp hshown⟩ (he.shows_releaseTooltip hshown) id rfl rfl

theorem unsubscribe (he : e.Recorded) {event : DocumentEvent}
    (hshown : e.Shows h (.listener doc event)) : (e.unsubscribe h).Recorded :=
  he.finish rfl rfl ⟨doc, event, he.shows_iff.mp hshown⟩ (he.shows_unsubscribe hshown) id rfl rfl

/-! ### Requests one after another -/

theorem destroyAll (he : e.Recorded) {handles : List Handle} (hdistinct : handles.Nodup)
    (hshown : ∀ h ∈ handles, ∃ row, e.Shows h (.anchor doc row)) :
    (Anchors.destroyAll doc handles e).Recorded := by
  induction handles generalizing e with
  | nil => exact he
  | cons h rest ih =>
      rw [List.nodup_cons] at hdistinct
      obtain ⟨row, hrow⟩ := hshown h List.mem_cons_self
      refine ih (he.destroy hrow) hdistinct.2 fun g hg => ?_
      obtain ⟨r, hr⟩ := hshown g (List.mem_cons_of_mem _ hg)
      exact ⟨r, (he.shows_destroy hrow).mpr ⟨hr, fun heq => hdistinct.1 (heq ▸ hg)⟩⟩

theorem releaseAll (he : e.Recorded) {handles : List Handle} (hdistinct : handles.Nodup)
    (hshown : ∀ h ∈ handles, ∃ t, e.Shows h (.tooltip doc t)) :
    (Renderer.releaseAll handles e).Recorded := by
  induction handles generalizing e with
  | nil => exact he
  | cons h rest ih =>
      rw [List.nodup_cons] at hdistinct
      obtain ⟨t, ht⟩ := hshown h List.mem_cons_self
      refine ih (he.releaseTooltip ht) hdistinct.2 fun g hg => ?_
      obtain ⟨u, hu⟩ := hshown g (List.mem_cons_of_mem _ hg)
      exact ⟨u, (he.shows_releaseTooltip ht).mpr ⟨hu, fun heq => hdistinct.1 (heq ▸ hg)⟩⟩

theorem unsubscribeAll (he : e.Recorded) {handles : List Handle} (hdistinct : handles.Nodup)
    (hshown : ∀ h ∈ handles, ∃ event, e.Shows h (.listener doc event)) :
    (handles.foldl Editor.unsubscribe e).Recorded := by
  induction handles generalizing e with
  | nil => exact he
  | cons h rest ih =>
      rw [List.nodup_cons] at hdistinct
      obtain ⟨event, hevent⟩ := hshown h List.mem_cons_self
      refine ih (he.unsubscribe hevent) hdistinct.2 fun g hg => ?_
      obtain ⟨other, hother⟩ := hshown g (List.mem_cons_of_mem _ hg)
      exact ⟨other, (he.shows_unsubscribe hevent).mpr ⟨hother, fun heq => hdistinct.1 (heq ▸ hg)⟩⟩

/-- A new anchor gets its two decorations at once. -/
theorem annotate (he : e.Recorded) {row : Row} (hfree : ∀ g, ¬ e.Shows g (.anchor doc row)) :
    (e.annotate doc row).Recorded := by
  have hmarked := he.mark hfree
  have hbare : (e.mark doc row).2.markers.get? e.freshHandle = some ⟨doc, row, []⟩ :=
    SortedMap.get?_insert_self e.markers e.freshHandle _
  have hline := hmarked.decorate hbare (by simp) .line
  have hone : ((e.mark doc row).2.decorate doc e.freshHandle .line).markers.get? e.freshHandle =
      some ⟨doc, row, [.line]⟩ := by
    simp [Editor.decorate, note, SortedMap.get?_modify, hbare]
  rw [← Editor.decorate_mark_eq_annotate]
  exact hline.decorate hone (by simp) .lineNumber

/-! ### Drawing -/

section Drawing

variable {tooltips : DocumentId → List Handle} {a : Anchors}

theorem provide (he : e.Recorded) (hheld : Held tooltips a e) (doc : DocumentId) (row : Row) :
    (a.provide doc row e).2.Recorded := by
  cases ha : a.anchor? doc row with
  | some h =>
      rw [Anchors.provide_of_some e ha]
      exact he
  | none =>
      rw [Anchors.provide_of_none e ha]
      refine he.annotate fun g => ?_
      rintro ⟨decorations, hg⟩
      rw [((hheld.anchor g _).mp hg).2] at ha
      cases ha

theorem foldl_drawGroup (he : e.Recorded) (hheld : Held tooltips a e) (doc : DocumentId)
    (group : SubscriptionGroup Handle) (entries : List (Row × LineGroup)) :
    (entries.foldl (Renderer.drawGroup doc) (group, a, e)).2.2.Recorded := by
  induction entries generalizing tooltips group a e with
  | nil => exact he
  | cons entry rest ih =>
      rw [List.foldl_cons, Renderer.drawGroup_eq]
      exact ih ((he.provide hheld doc entry.1).showTooltip doc _) (Drawn.single doc hheld entry).held _

/-- Anchors that are held may be destroyed. -/
theorem destroy_values (he : e.Recorded) (hheld : Held tooltips a e) {rows : SortedMap Row Handle}
    (hrows : ∀ row h, rows.get? row = some h → a.anchor? doc row = some h) :
    (Anchors.destroyAll doc rows.values e).Recorded := by
  refine he.destroyAll (SortedMap.nodup_values fun r q h hr hq => ?_) fun h hin => ?_
  · exact (hheld.anchor_inj (hrows r h hr) (hrows q h hq)).2
  · obtain ⟨row, hrow⟩ := SortedMap.mem_values_iff.mp hin
    exact ⟨row, Decoration.both, hheld.marker_of_anchor (hrows row h hrow)⟩

/-- Tooltips that are held may be released. -/
theorem release_tooltips (he : e.Recorded) (hheld : Held tooltips a e) (doc : DocumentId) :
    (Renderer.releaseAll (tooltips doc) e).Recorded :=
  he.releaseAll (hheld.distinct doc) fun h hin => (hheld.tooltip h doc).mp hin

theorem draw {r : Renderer} (he : e.Recorded) (hheld : Held r.handles a e) (store : Store)
    (doc : DocumentId) : (r.draw store a doc e).2.2.Recorded := by
  have hcleared := hheld.reconcile doc (store.rows doc)
  have hdestroyed : (a.reconcile doc (store.rows doc) e).2.2.Recorded := by
    rw [Anchors.reconcile_editor]
    refine he.destroy_values hheld fun row h hrow => ?_
    rw [SortedMap.get?_filter, Option.filter_eq_some_iff] at hrow
    exact hrow.1
  exact (hdestroyed.release_tooltips hcleared doc).foldl_drawGroup (hcleared.releaseAll doc) doc [] _

/-- Everything that is held of a document may be taken away. -/
theorem clear {r : Renderer} (he : e.Recorded) (hheld : Held r.handles a e) (doc : DocumentId) :
    (r.clearDocument doc (a.removeAll doc e).2).2.Recorded :=
  (he.destroy_values hheld fun _ _ hrow => hrow).release_tooltips (hheld.removeAll doc) doc

end Drawing

end Recorded

end Editor

end LintMargin
