import LintMargin.Proofs.Config.Chain
import LintMargin.Proofs.Json.Members

/-!
# Configurations in layers

What layers of options come to when each is laid over those below it, key by key. Overlaying is not
associative: globals that are no object hide all globals below them, so those of a stack are gathered from
its upper layers only (`global?_stacked`).
-/

namespace LintMargin.LintConfig

variable {t : FileTree} {path : Path}

/-! ### One layer over another -/

/-- The value of a key in an overlay, from its values in the layers. -/
def overlaid (key : String) (below above : Option Json) : Option Json :=
  match key, below, above with
  | "globals", some (.object names), some (.object more) =>
    some (.object (Members.merge names more))
  | _, _, _ => above.or below

@[simp] theorem overlaid_none (key : String) (below : Option Json) : overlaid key below none = below := by
  unfold overlaid
  split
  · next heq => cases heq
  · rfl

@[simp] theorem none_overlaid (key : String) (above : Option Json) : overlaid key none above = above := by
  unfold overlaid
  split
  · next heq => cases heq
  · exact Option.or_none

theorem overlaid_of_ne {key : String} (hkey : key ≠ "globals") (below above : Option Json) :
    overlaid key below above = above.or below := by
  unfold overlaid
  split
  · exact absurd rfl hkey
  · rfl

/-- What is above hides what is below, unless both are globals and objects. -/
theorem overlaid_some {key : String} {below : Option Json} {value : Json}
    (h : ∀ names more, key = "globals" → below = some (.object names) → value = .object more → False) :
    overlaid key below (some value) = some value := by
  unfold overlaid
  split
  · next habove =>
      cases habove
      exact (h _ _ rfl rfl rfl).elim
  · rfl

theorem overlaid_of_object?_eq_none {below : Option Json} {value : Json}
    (h : below.bind Json.object? = none ∨ value.object? = none) (key : String) :
    overlaid key below (some value) = some value := by
  refine overlaid_some fun names more _ hbelow hvalue => ?_
  subst hbelow hvalue
  rcases h with h | h <;> cases h

/-- Globals that are an object stay one, with those from below that they do not have. -/
theorem exists_overlaid_object {more : Members} (hmore : more.Ascending) (below : Option Json) :
    ∃ merged : Members, overlaid "globals" below (some (.object more)) = some (.object merged) ∧
      ∀ name, merged.get? name =
        (more.get? name).or ((below.bind Json.object?).bind (Members.get? name)) := by
  cases hbelow : below.bind Json.object? with
  | none =>
      exact ⟨more, overlaid_of_object?_eq_none (.inl hbelow) _, fun name => (Option.or_none).symm⟩
  | some names =>
      obtain ⟨value, rfl, hvalue⟩ := Option.bind_eq_some_iff.mp hbelow
      obtain rfl := Json.eq_object_of_object? hvalue
      exact ⟨Members.merge names more, rfl, Members.get?_merge hmore names⟩

/-- One more option over those that are there. -/
def place (base : Members) (key : String) (value : Json) : Members :=
  match key, base.get? "globals", value with
  | "globals", some (.object names), .object more =>
    base.insert "globals" (.object (Members.merge names more))
  | _, _, _ => base.insert key value

theorem overlay_cons (base : Members) (m : String × Json) (top : Members) :
    overlay base (m :: top) = overlay (place base m.1 m.2) top :=
  rfl

theorem get?_place (base : Members) (key : String) (value : Json) (k : String) :
    (place base key value).get? k =
      if key = k then overlaid key (base.get? key) (some value) else base.get? k := by
  unfold place
  split
  · next hglobals =>
      rw [Members.get?_insert, hglobals]
      rfl
  · next hother =>
      rw [Members.get?_insert, overlaid_some fun names more hkey hbelow hvalue =>
        hother names more hkey (hkey ▸ hbelow) hvalue]

theorem get?_overlay {top : Members} (htop : top.Ascending) (base : Members) (key : String) :
    (overlay base top).get? key = overlaid key (base.get? key) (top.get? key) := by
  induction top generalizing base with
  | nil => exact (overlaid_none key _).symm
  | cons m rest ih =>
      obtain ⟨k, v⟩ := m
      rw [overlay_cons, ih (List.Pairwise.of_cons htop), get?_place, Members.get?]
      split
      · next hkey =>
          subst hkey
          rw [htop.get?_rest, overlaid_none]
      · rfl

/-! ### Any number of layers -/

/-- The value of a key in a stack of layers, the uppermost first. -/
def stacked (key : String) (levels : List Members) : Option Json :=
  levels.foldr (fun level below => overlaid key below (level.get? key)) none

theorem stacked_cons (key : String) (level : Members) (levels : List Members) :
    stacked key (level :: levels) = overlaid key (stacked key levels) (level.get? key) :=
  rfl

/-- The uppermost layer that has an option gives its value. -/
theorem stacked_of_ne {key : String} (hkey : key ≠ "globals") (levels : List Members) :
    stacked key levels = levels.findSome? (·.get? key) := by
  induction levels with
  | nil => rfl
  | cons level levels ih =>
      rw [stacked_cons, overlaid_of_ne hkey, ih, List.findSome?_cons]
      cases level.get? key <;> rfl

/-- Layers without globals do not matter for globals. -/
theorem stacked_append {before : List Members} (hbefore : ∀ o ∈ before, o.get? "globals" = none)
    (levels : List Members) : stacked "globals" (before ++ levels) = stacked "globals" levels := by
  induction before with
  | nil => rfl
  | cons o before ih =>
      rw [List.forall_mem_cons] at hbefore
      rw [List.cons_append, stacked_cons, hbefore.1, overlaid_none, ih hbefore.2]

/-- Whether globals further down come through a layer: it has none itself, or an object. -/
def letsGlobalsThrough (level : Members) : Bool :=
  match level.get? "globals" with
  | none => true
  | some value => value.object?.isSome

/-- The value of one global in a layer. -/
def global? (name : String) (level : Members) : Option Json :=
  ((level.get? "globals").bind Json.object?).bind (Members.get? name)

/-- Each global of a stack has its value from the uppermost layer that has it, down to the first layer
that does not let globals through. -/
theorem global?_stacked {levels : List Members} (htidy : ∀ o ∈ levels, Members.Tidy o) (name : String) :
    ((stacked "globals" levels).bind Json.object?).bind (Members.get? name) =
      (levels.takeWhile letsGlobalsThrough).findSome? (global? name) := by
  induction levels with
  | nil => rfl
  | cons level levels ih =>
      rw [List.forall_mem_cons] at htidy
      rw [stacked_cons, List.takeWhile_cons]
      cases hlevel : level.get? "globals" with
      | none =>
          have hown : global? name level = none := by rw [global?, hlevel]; rfl
          simp only [letsGlobalsThrough, hlevel, overlaid_none, if_true, List.findSome?_cons, hown]
          exact ih htidy.2
      | some value =>
          cases hvalue : value.object? with
          | none =>
              rw [overlaid_of_object?_eq_none (.inr hvalue)]
              simp [letsGlobalsThrough, hlevel, hvalue]
          | some more =>
              obtain rfl := Json.eq_object_of_object? hvalue
              obtain ⟨merged, hmerged, hnames⟩ :=
                exists_overlaid_object (htidy.1.inner _ _ hlevel) (stacked "globals" levels)
              have hown : global? name level = more.get? name := by rw [global?, hlevel]; rfl
              rw [hmerged]
              simp only [letsGlobalsThrough, hlevel, Option.isSome_some, if_true,
                List.findSome?_cons, hown, Option.bind_some, Json.object?, hnames, ih htidy.2]
              cases more.get? name <;> rfl

end LintMargin.LintConfig
