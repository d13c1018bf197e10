import LintMargin.Proofs.Config.Search
import LintMargin.Proofs.FileTree.Ways
import Mathlib.Data.List.Find

/-!
# Searches on ways with detours

A path from the root keeps its `..`, so a search goes back through all directories that the spelling comes
through, and some of them may not lie above the file. As long as what it finds is not in one of these, it
finds what a search from the normal path finds.
-/

namespace LintMargin

open LintMargin.Path (IsName IsPiece Written names through rooted ofPiece)
open FileTree (Fits lead lead_of_not_mem lead_concat_name placeOf_written)

/-- A path from the root that spells a file: it ends in a name without a slash behind it, and every `..`
in it leaves a directory. -/
structure FileTree.Spells (t : FileTree) (whole : Path) : Prop where
  named : whole.fileName?.isSome = true
  plain : whole.endsVoid = false
  passable : ∀ a ∈ whole.ancestors,
    whole.components[a.components.length]? = some .parent → t.node a = .ok .directory

instance (t : FileTree) (whole : Path) : Decidable (t.Spells whole) :=
  decidable_of_iff (whole.fileName?.isSome = true ∧ whole.endsVoid = false ∧
    ∀ a ∈ whole.ancestors,
      whole.components[a.components.length]? = some .parent → t.node a = .ok .directory)
    ⟨fun ⟨h, h', h''⟩ => ⟨h, h', h''⟩, fun ⟨h, h', h''⟩ => ⟨h, h', h''⟩⟩

namespace Loader

variable {t : FileTree} {name : String} {file whole directory : Path} {home : Option Path}
  {slashes : List Char} {dirs ms : List (List Char)} {n : List Char}

/-- If a file is found on the way back from a directory, it lies above the place of that directory, and not
in a directory that the spelling of the way leaves again. -/
def Straight (t : FileTree) (name : String) (directory : Path) : Prop :=
  ∀ a ∈ directory.ancestors, nearest t name directory = some (a.join name) →
    t.placeOf a <+: t.placeOf directory

/-- If a file is found on the way back from a directory, it is found before the way comes to a `..`. -/
def Behind (t : FileTree) (name : String) (whole directory : Path) : Prop :=
  ∀ a ∈ directory.ancestors, nearest t name directory = some (a.join name) →
    .parent ∉ whole.components.drop a.components.length

instance (t : FileTree) (name : String) (directory : Path) : Decidable (Straight t name directory) :=
  inferInstanceAs (Decidable (∀ a ∈ directory.ancestors,
    nearest t name directory = some (a.join name) → t.placeOf a <+: t.placeOf directory))

instance (t : FileTree) (name : String) (whole directory : Path) :
    Decidable (Behind t name whole directory) :=
  inferInstanceAs (Decidable (∀ a ∈ directory.ancestors,
    nearest t name directory = some (a.join name) →
      .parent ∉ whole.components.drop a.components.length))

/-- A way without `..` never comes to one. -/
theorem behind_of_not_mem (hup : .parent ∉ whole.components) (name : String) :
    Behind t name whole directory :=
  fun _ _ _ hmem => hup (List.mem_of_mem_drop hmem)

/-! ### The way of a spelling -/

/-- A spelling as a way through directories and a name behind it. -/
structure Way (t : FileTree) (whole directory : Path) (slashes : List Char) (dirs : List (List Char))
    (n : List Char) : Prop where
  written : Written whole.chars slashes (dirs ++ [n]) []
  directory : directory = through slashes dirs
  name_ne : n ≠ ['.', '.']
  passable : t.Passable dirs

theorem exists_way (ht : t.Proper) (hwhole : t.absolute? file = some whole)
    (hdirectory : whole.parent? = some directory) (h : t.Spells whole) :
    ∃ slashes dirs n, Way t whole directory slashes dirs n := by
  obtain ⟨ns, tail, hwritten⟩ := FileTree.exists_written_of_absolute? ht hwhole
  have hparent := hwritten.parent?_eq.symm.trans hdirectory
  obtain ⟨hns, hparent⟩ := Option.ite_none_left_eq_some.mp hparent
  obtain ⟨dirs, n, rfl⟩ := (List.eq_nil_or_concat ns).resolve_left hns
  rw [List.concat_eq_append] at *
  rw [List.dropLast_concat] at hparent
  obtain rfl := Option.some.inj hparent
  have htail : tail = [] := by
    have hends := hwritten.endsVoid_eq hns
    rw [h.plain, eq_comm, decide_eq_false_iff_not] at hends
    exact hwritten.tail.resolve_right fun hslash => hends hslash.1
  subst htail
  refine ⟨_, dirs, n, hwritten, rfl, ?_, fun ms hms => ?_⟩
  · rintro rfl
    have hnamed := h.named
    rw [Path.fileName?, hwritten.components_eq, List.map_append, ← List.cons_append, List.map_singleton,
      List.getLast?_concat] at hnamed
    cases hnamed
  · have hbelow : ms <+: dirs := (List.prefix_append ms _).trans hms
    have hdirs : ∀ m ∈ dirs, IsPiece m := fun m hm => hwritten.isPiece m (List.mem_append_left _ hm)
    have hthrough := Path.written_through hwritten.slashes fun m hm => hdirs m (hbelow.subset hm)
    refine FileTree.follow_of_node hthrough (h.passable _ ?_ ?_)
    · rw [Path.ancestors_of_parent? hdirectory]
      exact List.mem_cons_of_mem _
        ((Path.mem_ancestors_through_iff hwritten.slashes hdirs).mpr ⟨ms, hbelow, rfl⟩)
    · obtain ⟨rest, rfl⟩ := hms
      rw [hwritten.components_eq, hthrough.components_eq]
      simp [ofPiece]

namespace Way

variable (h : Way t whole directory slashes dirs n)

include h

theorem isPiece : ∀ m ∈ dirs, IsPiece m :=
  fun m hm => h.written.isPiece m (List.mem_append_left _ hm)

theorem isPiece_of_prefix (hms : ms <+: dirs) : ∀ m ∈ ms, IsPiece m :=
  fun m hm => h.isPiece m (hms.subset hm)

/-- The normal path: the names that are left when each `..` takes back the name before it. -/
theorem placeOf_whole : t.placeOf whole = lead [] dirs ++ [n] := by
  rw [placeOf_written h.written, lead_concat_name h.name_ne]

theorem placeOf_through (hms : ms <+: dirs) : t.placeOf (through slashes ms) = lead [] ms :=
  placeOf_written (Path.written_through h.written.slashes (h.isPiece_of_prefix hms))

theorem mem_ancestors_iff {a : Path} :
    a ∈ directory.ancestors ↔ ∃ ms, ms <+: dirs ∧ through slashes ms = a := by
  rw [h.directory]
  exact Path.mem_ancestors_through_iff h.written.slashes h.isPiece

/-- The normal path is a way of its own. -/
theorem normal : Way t (rooted (lead [] dirs ++ [n])) (rooted (lead [] dirs)) ['/'] (lead [] dirs) n where
  written := by
    refine Path.written_rooted fun m hm => ?_
    rcases List.mem_append.mp hm with hm | hm
    · exact FileTree.isPiece_of_mem_lead h.isPiece m hm
    · exact h.written.isPiece m (List.mem_append_right _ hm)
  directory := (Path.through_slash _).symm
  name_ne := h.name_ne
  passable := by
    rintro ms ⟨rest, hrest⟩
    exact absurd (by rw [← hrest]; simp) (FileTree.lead_root dirs).2

theorem absolute?_normal :
    t.absolute? (rooted (lead [] dirs ++ [n])) = some (rooted (lead [] dirs ++ [n])) :=
  Path.absolute?_rooted h.normal.written.isPiece (by simp) _

theorem parent?_whole : whole.parent? = some directory := by
  rw [h.written.parent?_eq, if_neg (by simp), List.dropLast_concat, h.directory]

end Way

/-! ### Searches -/

theorem isPiece_of_isName (hname : IsName name) : IsPiece name.toList := by
  have hnames := hname.names_eq
  exact Path.isPiece_of_mem_names (by rw [hnames]; exact List.mem_singleton.mpr rfl)

theorem written_join (hslashes : slashes = ['/'] ∨ slashes = ['/', '/']) (hms : ∀ m ∈ ms, IsPiece m)
    (hname : IsName name) :
    Written ((through slashes ms).join name).chars (if ms = [] then ['/'] else slashes)
      (ms ++ [name.toList]) [] := by
  have hjoined := (Path.written_through hslashes hms).join_name (isPiece_of_isName hname)
  rwa [String.ofList_toList] at hjoined

/-- Whether a place has a file, as paths of any length say. -/
def has (t : FileTree) (name : String) (place : Place) : Bool :=
  ((t.arrive ((rooted place).join name)).toOption.bind t.holds).isSome

theorem ne_up_of_isName (hname : IsName name) : name.toList ≠ ['.', '.'] :=
  fun heq => hname.2.2.2 (String.toList_inj.mp heq)

section

variable (hslashes : slashes = ['/'] ∨ slashes = ['/', '/']) (hms : ∀ m ∈ ms, IsPiece m)
  (hpassable : t.Passable ms) (hname : IsName name)

include hslashes hms hpassable hname

/-- A directory and its place have the same files. -/
theorem arrive_through :
    t.arrive ((through slashes ms).join name) = t.arrive ((rooted (lead [] ms)).join name) := by
  have hrooted := written_join (.inl rfl) (FileTree.isPiece_of_mem_lead hms) hname
  rw [Path.through_slash, ← lead_concat_name (ne_up_of_isName hname)] at hrooted
  exact FileTree.arrive_lead (written_join hslashes hms hname) hrooted
    (hpassable.concat_name (ne_up_of_isName hname))

theorem exists?_through (hfits : Fits ((through slashes ms).join name)) :
    t.exists? ((through slashes ms).join name) = has t name (lead [] ms) := by
  rw [FileTree.exists?_of_fits hfits, arrive_through hslashes hms hpassable hname, has]

/-- A search goes back on the way. -/
theorem nearest_through (hfits : ∀ a ∈ (through slashes ms).ancestors, Fits (a.join name)) :
    nearest t name (through slashes ms) =
      (ms.inits.reverse.find? fun before => has t name (lead [] before)).map fun before =>
        (through slashes before).join name := by
  rw [nearest, Path.ancestors_through hslashes hms, List.map_map, List.find?_map]
  refine congrArg _ (List.find?_congr fun before hbefore => ?_)
  have hbefore : before <+: ms := by simpa using hbefore
  exact exists?_through hslashes (fun m hm => hms m (hbefore.subset hm)) (hpassable.of_prefix hbefore) hname
    (hfits _ ((Path.mem_ancestors_through_iff hslashes hms).mpr ⟨before, hbefore, rfl⟩))

end

/-- Two searches end at one place of the way, or both find nothing. -/
inductive Twin (t : FileTree) (name : String) (slashes : List Char) (dirs : List (List Char)) :
    Option Path → Option Path → Prop where
  | none : Twin t name slashes dirs none none
  | some {found rest} (hdirs : dirs = found ++ rest) (hfits : Fits ((through slashes found).join name))
      (hfits' : Fits ((rooted (lead [] found)).join name)) :
      Twin t name slashes dirs (some ((through slashes found).join name))
        (some ((rooted (lead [] found)).join name))

/-- No path that a search may look at is too long. -/
def SearchFits (name : String) (directory : Path) : Prop := ∀ a ∈ directory.ancestors, Fits (a.join name)

namespace Way

variable (h : Way t whole directory slashes dirs n)

include h

theorem nearest_eq (hname : IsName name) (hfits : SearchFits name directory) :
    nearest t name directory =
      (dirs.inits.reverse.find? fun ms => has t name (lead [] ms)).map fun ms =>
        (through slashes ms).join name := by
  rw [h.directory] at hfits ⊢
  exact nearest_through h.written.slashes h.isPiece h.passable hname hfits

theorem nearest_normal (hname : IsName name) (hfits : SearchFits name (rooted (lead [] dirs))) :
    nearest t name (rooted (lead [] dirs)) =
      ((lead [] dirs).inits.reverse.find? (has t name)).map fun place => (rooted place).join name := by
  rw [h.normal.nearest_eq hname hfits]
  simp only [Path.through_slash]
  refine congrArg _ (List.find?_congr fun place hplace => ?_)
  have hplace : place <+: lead [] dirs := by simpa using hplace
  rw [lead_of_not_mem fun hup => (FileTree.lead_root dirs).2 (hplace.subset hup), List.nil_append]

/-- Where a file is not found on a detour, both spellings find the same one. -/
theorem twin (hname : IsName name) (hfits : SearchFits name directory)
    (hfits' : SearchFits name (rooted (lead [] dirs))) (hstraight : Straight t name directory) :
    Twin t name slashes dirs (nearest t name directory) (nearest t name (rooted (lead [] dirs))) := by
  have hnearest := h.nearest_eq hname hfits
  have habove : ∀ ms, (dirs.inits.reverse.find? fun ms => has t name (lead [] ms)) = some ms →
      ms <+: dirs ∧ lead [] ms <+: lead [] dirs := by
    intro ms hfind
    have hms : ms <+: dirs := by simpa using List.mem_of_find?_eq_some hfind
    have hplaces := hstraight _ (h.mem_ancestors_iff.mpr ⟨ms, hms, rfl⟩) (by rw [hnearest, hfind]; rfl)
    rw [h.placeOf_through hms, h.directory, h.placeOf_through List.prefix_rfl] at hplaces
    exact ⟨hms, hplaces⟩
  have hback := FileTree.map_lead_find?_inits fun ms hfind => (habove ms hfind).2
  rw [hnearest, h.nearest_normal hname hfits', ← hback]
  cases hfind : dirs.inits.reverse.find? fun ms => has t name (lead [] ms) with
  | none => exact .none
  | some found =>
      obtain ⟨⟨rest, hdirs⟩, hplaces⟩ := habove found hfind
      exact .some hdirs.symm (hfits _ (h.mem_ancestors_iff.mpr ⟨found, ⟨rest, hdirs⟩, rfl⟩))
        (hfits' _ (h.normal.mem_ancestors_iff.mpr ⟨lead [] found, hplaces, Path.through_slash _⟩))

/-- No `..` comes behind a file that is found before the way comes to one. -/
theorem up_not_mem_of_behind {rest : List (List Char)} (hbehind : Behind t name whole directory)
    (hdirs : dirs = ms ++ rest)
    (hnearest : nearest t name directory = some ((through slashes ms).join name)) :
    ['.', '.'] ∉ rest := by
  have hms : ms <+: dirs := hdirs ▸ List.prefix_append ms rest
  have hup := hbehind _ (h.mem_ancestors_iff.mpr ⟨ms, hms, rfl⟩) hnearest
  rw [h.written.components_eq,
    (Path.written_through h.written.slashes (h.isPiece_of_prefix hms)).components_eq, hdirs] at hup
  simp only [List.length_cons, List.length_map, List.drop_succ_cons, List.map_append,
    List.append_assoc, List.drop_left' (List.length_map _)] at hup
  exact fun hmem => hup (List.mem_append_left _ (List.mem_map.mpr ⟨_, hmem, rfl⟩))

theorem straight_of_behind (hbehind : Behind t name whole directory) : Straight t name directory := by
  intro a ha hnearest
  obtain ⟨ms, ⟨rest, hdirs⟩, rfl⟩ := h.mem_ancestors_iff.mp ha
  have hrest := h.up_not_mem_of_behind hbehind hdirs.symm hnearest
  rw [h.placeOf_through ⟨rest, hdirs⟩, h.directory, h.placeOf_through List.prefix_rfl, ← hdirs,
    FileTree.lead_append, lead_of_not_mem hrest]
  exact List.prefix_append _ _

theorem arrive_eq {rest : List (List Char)} (hname : IsName name) (hdirs : dirs = ms ++ rest) :
    t.arrive ((through slashes ms).join name) = t.arrive ((rooted (lead [] ms)).join name) := by
  have hms : ms <+: dirs := hdirs ▸ List.prefix_append _ _
  exact arrive_through h.written.slashes (h.isPiece_of_prefix hms) (h.passable.of_prefix hms) hname

theorem isAbsolute_join {rest : List (List Char)} (hdirs : dirs = ms ++ rest) (name : String) :
    ((through slashes ms).join name).isAbsolute = true ∧
      ((rooted (lead [] ms)).join name).isAbsolute = true := by
  have hms := h.isPiece_of_prefix (hdirs ▸ List.prefix_append ms rest)
  have hthrough := Path.written_through h.written.slashes hms
  have hrooted := Path.written_rooted (FileTree.isPiece_of_mem_lead hms)
  exact ⟨Path.isAbsolute_join (decide_eq_true hthrough.head?_eq) name,
    Path.isAbsolute_join (decide_eq_true hrooted.head?_eq) name⟩

theorem readText_eq {rest : List (List Char)} (hname : IsName name) (hdirs : dirs = ms ++ rest)
    (hfits : Fits ((through slashes ms).join name)) (hfits' : Fits ((rooted (lead [] ms)).join name)) :
    t.readText ((through slashes ms).join name) = t.readText ((rooted (lead [] ms)).join name) :=
  FileTree.readText_congr (FileTree.node_of_arrive hfits hfits' (h.arrive_eq hname hdirs))

end Way

end Loader

end LintMargin
