import LintMargin.Proofs.FileTree

/-!
# Ways

The names of a path are a way from the root: a name leads down, and `..` leads back up. Where every `..`
leaves a directory, a way leads to the same place as the names that are left of it when each `..` takes
back the name before it.
-/

namespace LintMargin.FileTree

open LintMargin.Path (IsPiece Written isVoid names through rooted)

variable {t : FileTree} {p q : Path} {slashes : List Char} {ns ms : List (List Char)} {place : Place}

/-! ### Where a way leads -/

/-- One piece further. -/
def turn (place : Place) (piece : List Char) : Place :=
  if piece = ['.', '.'] then place.dropLast else place ++ [piece]

/-- The place that a way leads to, whatever there is on it. -/
def lead (place : Place) (ns : List (List Char)) : Place := ns.foldl turn place

@[simp] theorem lead_nil (place : Place) : lead place [] = place := rfl

theorem lead_cons (place : Place) (n : List Char) (ns : List (List Char)) :
    lead place (n :: ns) = lead (turn place n) ns := rfl

theorem lead_append (place : Place) (ns ms : List (List Char)) :
    lead place (ns ++ ms) = lead (lead place ns) ms := List.foldl_append

@[simp] theorem lead_concat_up (place : Place) (ns : List (List Char)) :
    lead place (ns ++ [['.', '.']]) = (lead place ns).dropLast := by
  rw [lead_append]
  rfl

theorem lead_concat_name {n : List Char} (hn : n ≠ ['.', '.']) :
    lead place (ns ++ [n]) = lead place ns ++ [n] := by
  rw [lead_append, lead_cons, lead_nil, turn, if_neg hn]

/-- A way without `..` only leads down. -/
theorem lead_of_not_mem (h : ['.', '.'] ∉ ns) : lead place ns = place ++ ns := by
  induction ns using List.reverseRecOn with
  | nil => simp
  | append_singleton ns n ih =>
      simp only [List.mem_append, List.mem_singleton, not_or] at h
      rw [lead_concat_name (Ne.symm h.2), ih h.1, List.append_assoc]

/-- A way leads to a place with names of its own, none of them `..`. -/
theorem lead_root (ns : List (List Char)) : lead [] ns ⊆ ns ∧ ['.', '.'] ∉ lead [] ns := by
  induction ns using List.reverseRecOn with
  | nil => simp
  | append_singleton ns n ih =>
      obtain ⟨hsub, hup⟩ := ih
      by_cases hn : n = ['.', '.']
      · subst hn
        rw [lead_concat_up]
        exact ⟨fun m hm => List.mem_append_left _ (hsub (List.dropLast_subset _ hm)),
          fun hm => hup (List.dropLast_subset _ hm)⟩
      · rw [lead_concat_name hn]
        refine ⟨fun m hm => ?_, ?_⟩
        · rcases List.mem_append.mp hm with hm | hm
          · exact List.mem_append_left _ (hsub hm)
          · exact List.mem_append_right _ hm
        · simp [hup, Ne.symm hn]

theorem isPiece_of_mem_lead (hns : ∀ n ∈ ns, IsPiece n) : ∀ n ∈ lead [] ns, IsPiece n :=
  fun n hn => hns n ((lead_root ns).1 hn)

theorem placeOf_eq (h : p.isAbsolute = true) : t.placeOf p = lead [] (names p.chars) := by
  rw [placeOf, if_pos h, lead, names, List.foldl_filter]
  congr 1
  funext place piece
  cases isVoid piece <;> simp [turn]

theorem placeOf_written (h : Written p.chars slashes ns []) : t.placeOf p = lead [] ns := by
  rw [placeOf_eq (decide_eq_true h.head?_eq), h.names_eq]

/-! ### Following a way -/

theorem follow_append (t : FileTree) (place : Place) (before after : List (List Char)) :
    t.follow place (before ++ after) = (t.follow place before).bind (t.follow · after) := by
  induction before generalizing place with
  | nil => rfl
  | cons piece rest ih =>
      rw [List.cons_append, follow, follow]
      cases t.holds place with
      | none => rfl
      | some node =>
          cases node with
          | file octets => rfl
          | directory =>
              dsimp only
              split
              · exact ih _
              · split
                · exact ih _
                · split
                  · rfl
                  · split
                    · exact ih _
                    · rfl

/-- What is followed to an end leads there. -/
theorem eq_lead_of_follow {pieces : List (List Char)} {reached : Place}
    (h : t.follow place pieces = .ok reached) : reached = lead place (pieces.filter (!isVoid ·)) := by
  induction pieces generalizing place with
  | nil => exact (Except.ok.inj h).symm
  | cons piece rest ih =>
      rw [follow] at h
      split at h
      · cases h
      · cases h
      · split at h
        · next hvoid => rw [List.filter_cons_of_neg (by simp [hvoid])]; exact ih h
        · next hvoid =>
            rw [List.filter_cons_of_pos (by simpa using hvoid), lead_cons, turn]
            split at h
            · next hup => rw [if_pos hup]; exact ih h
            · next hup =>
                rw [if_neg hup]
                split at h
                · cases h
                · split at h
                  · exact ih h
                  · cases h

theorem eq_lead_of_follow_names {reached : Place} (hns : ∀ n ∈ ns, IsPiece n)
    (h : t.follow [] ns = .ok reached) : reached = lead [] ns := by
  have hnames : ns.filter (!isVoid ·) = ns := List.filter_eq_self.mpr fun n hn => by simp [(hns n hn).1]
  rw [eq_lead_of_follow h, hnames]

/-- With a place those above it can be followed to. -/
theorem follow_prefix_ok {reached : Place} {before after : List (List Char)}
    (h : t.follow place (before ++ after) = .ok reached) :
    ∃ between, t.follow place before = .ok between ∧ t.follow between after = .ok reached := by
  rw [follow_append] at h
  cases hbefore : t.follow place before with
  | error e =>
      rw [hbefore] at h
      cases h
  | ok between =>
      rw [hbefore] at h
      exact ⟨between, rfl, h⟩

theorem holds_of_follow_cons {piece : List Char} {rest : List (List Char)} {reached : Place}
    (h : t.follow place (piece :: rest) = .ok reached) : t.holds place = some .directory := by
  rw [follow] at h
  split at h
  · cases h
  · cases h
  · assumption

theorem follow_up (h : t.holds place = some .directory) :
    t.follow place [['.', '.']] = .ok place.dropLast := by
  rw [follow, h]
  rfl

/-- A place that can be followed to lies in a directory that can be followed to. -/
theorem follow_dropLast (hup : ['.', '.'] ∉ place) (hplace : ∀ n ∈ place, IsPiece n)
    (h : t.follow [] place = .ok place) :
    t.follow [] place.dropLast = .ok place.dropLast ∧ t.holds place.dropLast = some .directory := by
  rcases List.eq_nil_or_concat place with rfl | ⟨init, last, rfl⟩
  · exact ⟨rfl, rfl⟩
  · rw [List.concat_eq_append] at *
    obtain ⟨between, hbetween, hlast⟩ := follow_prefix_ok h
    have hinit := eq_lead_of_follow_names
      (fun n hn => hplace n (List.mem_append_left _ hn)) hbetween
    rw [lead_of_not_mem fun hmem => hup (List.mem_append_left _ hmem), List.nil_append] at hinit
    subst hinit
    rw [List.dropLast_concat]
    exact ⟨hbetween, holds_of_follow_cons hlast⟩

/-! ### Where a path leads -/

/-- The place that a path leads to, however long it is. -/
def arrive (t : FileTree) (p : Path) : Except IoError Place :=
  if p.chars.contains '\x00' then .error .nulInPath
  else if p.chars.isEmpty then .error .notFound
  else t.follow (if p.isAbsolute then [] else t.workingDirectory) (Text.split '/' p.chars)

theorem locate_of_fits (h : Fits p) : t.locate p = t.arrive p := by
  rw [locate, arrive, if_neg (Nat.not_lt.mpr h)]

theorem fits_of_locate (h : t.locate p = .ok place) : Fits p := by
  by_contra hlong
  rw [locate, if_pos (Nat.lt_of_not_le hlong)] at h
  split at h
  · cases h
  · split at h <;> cases h

theorem exists?_of_fits (h : Fits p) : t.exists? p = ((t.arrive p).toOption.bind t.holds).isSome := by
  rw [exists?, node, locate_of_fits h]
  cases t.arrive p with
  | error e => rfl
  | ok place => cases hholds : t.holds place <;> simp [bind, Except.bind, Except.toOption, hholds]

theorem node_of_arrive (hp : Fits p) (hq : Fits q) (h : t.arrive p = t.arrive q) :
    t.node p = t.node q := by
  rw [node, node, locate_of_fits hp, locate_of_fits hq, h]

/-- Whether the character U+0000 is in a name, which no name of a file is. -/
def Nul (ns : List (List Char)) : Prop := ∃ n ∈ ns, '\x00' ∈ n

instance (ns : List (List Char)) : Decidable (Nul ns) :=
  inferInstanceAs (Decidable (∃ n ∈ ns, '\x00' ∈ n))

/-- A path from the root leads where its names do. -/
theorem arrive_written (h : Written p.chars slashes ns []) :
    t.arrive p = if Nul ns then .error .nulInPath else t.follow [] ns := by
  have hnul : p.chars.contains '\x00' = true ↔ Nul ns := by
    rw [List.contains_iff_mem, Path.mem_chars_iff (by decide) (by decide), h.names_eq, Nul]
  have hempty : p.chars.isEmpty = false := by simpa using h.ne_nil
  have habsolute : p.isAbsolute = true := decide_eq_true h.head?_eq
  have hfollow : t.follow [] (Text.split '/' p.chars) = t.follow [] ns := by
    rw [← follow_counting, counting]
    change t.follow [] (names p.chars ++ if p.endsVoid then [[]] else []) = _
    rw [h.names_eq]
    by_cases hns : ns = []
    · subst hns
      cases p.endsVoid <;> rfl
    · have hends : p.endsVoid = false := h.endsVoid_eq hns
      rw [hends]
      simp
  rw [arrive, hempty, habsolute, if_congr hnul rfl rfl, if_neg Bool.false_ne_true, if_pos rfl, hfollow]

/-- Where a path leads is told by its components. -/
theorem eq_of_arrive {place' : Place} (h : p.components = q.components) (hp : t.arrive p = .ok place)
    (hq : t.arrive q = .ok place') : place = place' := by
  have hlead : ∀ {r : Path} {reached}, t.arrive r = .ok reached →
      reached = lead (if r.isAbsolute then [] else t.workingDirectory) (names r.chars) := by
    intro r reached hr
    rw [arrive] at hr
    split at hr
    · cases hr
    · split at hr
      · cases hr
      · exact eq_lead_of_follow hr
  rw [hlead hp, hlead hq, Path.isAbsolute_congr h, (Path.components_eq_components_iff.mp h).2]

/-! ### Ways through directories -/

/-- Every `..` on a way leaves a directory that the way can be followed to. -/
def Passable (t : FileTree) (ns : List (List Char)) : Prop :=
  ∀ ms, ms ++ [['.', '.']] <+: ns →
    ¬ Nul ms ∧ t.follow [] ms = .ok (lead [] ms) ∧ t.holds (lead [] ms) = some .directory

theorem Passable.of_prefix (h : t.Passable ns) (hms : ms <+: ns) : t.Passable ms :=
  fun before hbefore => h before (hbefore.trans hms)

theorem Passable.concat_name {n : List Char} (h : t.Passable ns) (hn : n ≠ ['.', '.']) :
    t.Passable (ns ++ [n]) := by
  intro ms hms
  rcases List.prefix_concat_iff.mp hms with heq | hms
  · exact absurd (List.append_inj' heq rfl).2 (by simpa using Ne.symm hn)
  · exact h ms hms

/-- What can be followed goes through directories. -/
theorem passable_of_follow (hns : ∀ n ∈ ns, IsPiece n) (hnul : ¬ Nul ns)
    (h : t.follow [] ns = .ok place) : t.Passable ns := by
  rintro ms ⟨rest, rfl⟩
  rw [List.append_assoc, List.singleton_append] at h
  obtain ⟨between, hbetween, hrest⟩ := follow_prefix_ok h
  have hms : ∀ n ∈ ms, n ∈ ms ++ [['.', '.']] ++ rest := fun n hn => by simp [hn]
  obtain rfl := eq_lead_of_follow_names (fun n hn => hns n (hms n hn)) hbetween
  exact ⟨fun ⟨n, hn, hn'⟩ => hnul ⟨n, hms n hn, hn'⟩, hbetween, holds_of_follow_cons hrest⟩

/-- A path that leads to a directory can be followed to it. -/
theorem follow_of_node (hp : Written p.chars slashes ns []) (h : t.node p = .ok .directory) :
    ¬ Nul ns ∧ t.follow [] ns = .ok (lead [] ns) ∧ t.holds (lead [] ns) = some .directory := by
  rw [node] at h
  cases hlocate : t.locate p with
  | error e =>
      rw [hlocate] at h
      cases h
  | ok place =>
      have harrive := (locate_of_fits (fits_of_locate hlocate)).symm.trans hlocate
      rw [arrive_written hp] at harrive
      split at harrive
      · cases harrive
      · next hnul =>
          obtain rfl := eq_lead_of_follow_names hp.isPiece harrive
          refine ⟨hnul, harrive, ?_⟩
          rw [hlocate] at h
          simp only [bind, Except.bind] at h
          split at h
          · next hholds => exact hholds.trans (congrArg some (Except.ok.inj h))
          · cases h

/-- A way through directories leads where the names that are left of it do. -/
theorem follow_lead (hns : ∀ n ∈ ns, IsPiece n) (h : t.Passable ns) :
    t.follow [] (lead [] ns) = t.follow [] ns := by
  induction ns using List.reverseRecOn with
  | nil => rfl
  | append_singleton ns n ih =>
      have hinit : ∀ m ∈ ns, IsPiece m := fun m hm => hns m (List.mem_append_left _ hm)
      have hbefore := ih hinit (h.of_prefix (List.prefix_append ns [n]))
      by_cases hn : n = ['.', '.']
      · subst hn
        obtain ⟨-, hfollow, hholds⟩ := h ns List.prefix_rfl
        have hlead : t.follow [] (lead [] ns) = .ok (lead [] ns) := hbefore.trans hfollow
        rw [lead_concat_up, follow_append, hfollow]
        exact (follow_dropLast (lead_root ns).2 (isPiece_of_mem_lead hinit) hlead).1.trans
          (follow_up hholds).symm
      · rw [lead_concat_name hn, follow_append, hbefore, ← follow_append]

theorem nul_lead_iff (h : t.Passable ns) : Nul (lead [] ns) ↔ Nul ns := by
  refine ⟨fun ⟨n, hn, hnul⟩ => ⟨n, (lead_root ns).1 hn, hnul⟩, ?_⟩
  induction ns using List.reverseRecOn with
  | nil => exact id
  | append_singleton ns n ih =>
      rintro ⟨m, hm, hnul⟩
      by_cases hn : n = ['.', '.']
      · subst hn
        rcases List.mem_append.mp hm with hm | hm
        · exact absurd ⟨m, hm, hnul⟩ (h ns List.prefix_rfl).1
        · rw [List.mem_singleton.mp hm] at hnul
          exact absurd hnul (by decide)
      · rw [lead_concat_name hn]
        rcases List.mem_append.mp hm with hm | hm
        · obtain ⟨k, hk, hnulk⟩ := ih (h.of_prefix (List.prefix_append ns [n])) ⟨m, hm, hnul⟩
          exact ⟨k, List.mem_append_left _ hk, hnulk⟩
        · exact ⟨m, List.mem_append_right _ hm, hnul⟩

/-- A path through directories leads where the one without its detours does. -/
theorem arrive_lead {slashes' : List Char} (hp : Written p.chars slashes ns [])
    (hq : Written q.chars slashes' (lead [] ns) []) (h : t.Passable ns) : t.arrive p = t.arrive q := by
  rw [arrive_written hp, arrive_written hq, follow_lead hp.isPiece h, if_congr (nul_lead_iff h) rfl rfl]

/-- The place of a file is a name in the place that the way before its last name leads to. -/
theorem exists_of_holds_file {octets : List UInt8} (hns : ∀ n ∈ ns, IsPiece n) (hnul : ¬ Nul ns)
    (h : t.follow [] ns = .ok place) (hfile : t.holds place = some (.file octets)) :
    ∃ init last, ns = init ++ [last] ∧ t.follow [] init = .ok place.dropLast := by
  rcases List.eq_nil_or_concat ns with rfl | ⟨init, last, rfl⟩
  · obtain rfl := Except.ok.inj h
    cases hfile
  · rw [List.concat_eq_append] at *
    refine ⟨init, last, rfl, ?_⟩
    have hinit : ∀ n ∈ init, IsPiece n := fun n hn => hns n (List.mem_append_left _ hn)
    have hpassable := passable_of_follow hns hnul h
    obtain rfl := eq_lead_of_follow_names hns h
    obtain ⟨between, hbetween, -⟩ := follow_prefix_ok h
    obtain rfl := eq_lead_of_follow_names hinit hbetween
    by_cases hlast : last = ['.', '.']
    · -- What `..` leads to is a directory.
      subst hlast
      have hlead := (follow_lead hinit (hpassable.of_prefix (List.prefix_append init _))).trans hbetween
      have hholds := (follow_dropLast (lead_root init).2 (isPiece_of_mem_lead hinit) hlead).2
      rw [lead_concat_up, hholds] at hfile
      cases hfile
    · rw [lead_concat_name hlast, List.dropLast_concat]
      exact hbetween

/-! ### The way back -/

section

variable {f : List (List Char) → Bool} {has : Place → Bool}

/-- The way back begins at the end. -/
theorem find?_inits_concat (ns : List (List Char)) (n : List Char) :
    (ns ++ [n]).inits.reverse.find? f =
      if f (ns ++ [n]) then some (ns ++ [n]) else ns.inits.reverse.find? f := by
  rw [Path.inits_concat, List.reverse_concat, List.find?_cons]
  cases f (ns ++ [n]) <;> rfl

theorem find?_inits_of_pos (h : f ns = true) : ns.inits.reverse.find? f = some ns := by
  rcases List.eq_nil_or_concat ns with rfl | ⟨init, last, rfl⟩
  · simp [h]
  · rw [List.concat_eq_append] at *
    rw [find?_inits_concat, if_pos h]

/-- On the way back from a way, what lies above its end comes in the order in which it lies there. So what
is found first is what is nearest, if it lies above the end. -/
theorem map_lead_find?_inits
    (h : ∀ ms, (ns.inits.reverse.find? fun ms => has (lead [] ms)) = some ms →
      lead [] ms <+: lead [] ns) :
    (ns.inits.reverse.find? fun ms => has (lead [] ms)).map (lead []) =
      (lead [] ns).inits.reverse.find? has := by
  induction ns using List.reverseRecOn with
  | nil => cases hroot : has [] <;> simp [hroot]
  | append_singleton ns n ih =>
      by_cases hend : has (lead [] (ns ++ [n])) = true
      · have hfirst := find?_inits_of_pos (f := fun ms => has (lead [] ms)) hend
        rw [hfirst, find?_inits_of_pos hend, Option.map_some]
      · rw [find?_inits_concat, if_neg hend] at h ⊢
        by_cases hn : n = ['.', '.']
        · subst hn
          rw [lead_concat_up] at h hend ⊢
          rw [ih fun ms hms => (h ms hms).trans (List.dropLast_prefix _)]
          rcases List.eq_nil_or_concat (lead [] ns) with hroot | ⟨init, last, hlast⟩
          · rw [hroot, List.dropLast_nil]
          · -- The directory that was left lies above the end no more, so it would have been found.
            rw [List.concat_eq_append] at hlast
            have hleft : ¬ has (lead [] ns) = true := by
              intro hhas
              have hlength := (h ns (find?_inits_of_pos hhas)).length_le
              simp only [hlast, List.dropLast_concat, List.length_append, List.length_singleton]
                at hlength
              omega
            rw [hlast] at hleft ⊢
            rw [List.dropLast_concat, find?_inits_concat, if_neg hleft]
        · rw [lead_concat_name hn] at h hend ⊢
          rw [find?_inits_concat, if_neg hend]
          refine ih fun ms hms => ?_
          rcases List.prefix_concat_iff.mp (h ms hms) with heq | habove
          · have hhas : has (lead [] ms) = true := List.find?_some (p := fun ms => has (lead [] ms)) hms
            rw [heq] at hhas
            exact absurd hhas hend
          · exact habove

end

end LintMargin.FileTree
