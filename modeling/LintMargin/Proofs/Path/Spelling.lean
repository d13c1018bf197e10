import LintMargin.Proofs.Path.Components

/-!
# Spellings

Two spellings of a path that end alike are as good as each other wherever files are looked for. A parent
is spelled without slashes and dots at its end; so where two parents are written in front of one text and
have the same components, they are spelled alike.
-/

namespace LintMargin.Path

variable {p q : Path}

/-! ### Spellings that end alike -/

/-- Whether the last piece of a path names nothing, as behind a slash at the end. -/
def endsVoid (p : Path) : Bool := (Text.split '/' p.chars).getLast?.any isVoid

/-- Spellings of one path that both ask for a directory or both do not. -/
structure Alike (p q : Path) : Prop where
  components : p.components = q.components
  endsVoid : p.endsVoid = q.endsVoid

theorem Alike.refl (p : Path) : p.Alike p := ⟨rfl, rfl⟩

theorem getLast?_split_append (before after : List Char) :
    (Text.split '/' (before ++ '/' :: after)).getLast? = (Text.split '/' after).getLast? := by
  rw [Text.split_append, List.getLast?_append]
  cases hlast : (Text.split '/' after).getLast? with
  | none => exact absurd (List.getLast?_eq_none_iff.mp hlast) (Text.split_ne_nil _ _)
  | some piece => rfl

/-- A joined path ends as the second path does. -/
theorem endsVoid_join {base : Path} {below : String} (h : below.toList.head? ≠ some '/')
    (hbase : base.chars ≠ []) : (base.join below).endsVoid = (⟨below⟩ : Path).endsVoid := by
  unfold endsVoid
  rw [chars_join h, if_neg hbase]
  split
  · next hlast =>
      obtain ⟨before, hbefore⟩ := List.getLast?_eq_some_iff.mp hlast
      rw [hbefore, List.append_assoc, List.singleton_append, getLast?_split_append]
      rfl
  · rw [getLast?_split_append]
    rfl

/-- The same name below two spellings of a directory. -/
theorem alike_join {a b : Path} (h : a.components = b.components) (below : String) :
    (a.join below).Alike (b.join below) := by
  by_cases habsolute : below.toList.head? = some '/'
  · rw [join_of_isAbsolute a habsolute, join_of_isAbsolute b habsolute]
    exact .refl _
  · by_cases ha : a.chars = []
    · have hb : b.chars = [] := by rwa [← components_eq_nil_iff, ← h, components_eq_nil_iff]
      rw [chars_injective (ha.trans hb.symm)]
      exact .refl _
    · have hb : b.chars ≠ [] := by rwa [Ne, ← components_eq_nil_iff, ← h, components_eq_nil_iff]
      exact ⟨by rw [components_join habsolute ha, components_join habsolute hb, h],
        by rw [endsVoid_join habsolute ha, endsVoid_join habsolute hb]⟩

theorem isAbsolute_congr (h : p.components = q.components) :
    p.isAbsolute = q.isAbsolute := by
  have hfront := (components_eq_components_iff.mp h).1
  simp only [isAbsolute, ← front_eq_root_iff, hfront]

/-- A character other than a slash and a dot is in a path if it is in a name of it. -/
theorem mem_chars_iff {c : Char} (hslash : c ≠ '/') (hdot : c ≠ '.') (cs : List Char) :
    c ∈ cs ↔ ∃ piece ∈ names cs, c ∈ piece := by
  have hpieces : c ∈ cs ↔ ∃ piece ∈ Text.split '/' cs, c ∈ piece := by
    conv_lhs => rw [← Text.join_split '/' cs]
    exact Text.mem_join_iff (by simpa using hslash)
  rw [hpieces]
  constructor
  · rintro ⟨piece, hpiece, hc⟩
    refine ⟨piece, mem_names_iff.mpr ⟨hpiece, ?_⟩, hc⟩
    rw [← Bool.not_eq_true, isVoid_iff]
    rintro (rfl | rfl)
    · cases hc
    · exact hdot (List.mem_singleton.mp hc)
  · rintro ⟨piece, hpiece, hc⟩
    exact ⟨piece, (mem_names_iff.mp hpiece).1, hc⟩

/-! ### Texts that end in a name -/

theorem exists_concat_of_not_endsVoid (h : p.endsVoid = false) :
    ∃ init last, Text.split '/' p.chars = init ++ [last] ∧ isVoid last = false := by
  obtain ⟨init, last, hsplit⟩ := (List.eq_nil_or_concat _).resolve_left (Text.split_ne_nil '/' p.chars)
  rw [List.concat_eq_append] at hsplit
  refine ⟨init, last, hsplit, ?_⟩
  simpa [endsVoid, hsplit] using h

/-- Of two texts that have the same names and end in a name, none goes on where the other one ends. -/
theorem eq_of_prefix_of_names (hp : p.endsVoid = false) (hq : q.endsVoid = false)
    (hnames : names p.chars = names q.chars) (hinfront : p.chars <+: q.chars) : p.chars = q.chars := by
  obtain ⟨init, last, hsplit, hlast⟩ := exists_concat_of_not_endsVoid hp
  obtain ⟨after, hafter⟩ := hinfront
  obtain ⟨first, rest, hrest⟩ := List.exists_cons_of_ne_nil (Text.split_ne_nil '/' after)
  have hslash : '/' ∉ last := by
    refine @Text.not_mem_of_mem_split '/' p.chars last ?_
    rw [hsplit]
    simp
  have hsplitq : Text.split '/' q.chars = init ++ (last ++ first) :: rest := by
    rw [← hafter, Text.split_append_of_concat hsplit, Text.split_append_of_not_mem hslash hrest]
  have hlonger : isVoid (last ++ first) = false := by
    rw [← Bool.not_eq_true, isVoid_iff] at hlast ⊢
    rintro (hnil | hdot)
    · exact hlast (.inl (List.append_eq_nil_iff.mp hnil).1)
    · rcases List.append_eq_singleton_iff.mp hdot with ⟨hnil, -⟩ | ⟨hdot, -⟩
      · exact hlast (.inl hnil)
      · exact hlast (.inr hdot)
  have hnamed : [last] = (last ++ first) :: rest.filter (!isVoid ·) := by
    unfold names at hnames
    rw [hsplit, hsplitq, List.filter_append, List.filter_append] at hnames
    simpa [hlast, hlonger] using hnames
  obtain ⟨hfirst, hfilter⟩ := List.cons.inj hnamed
  have hnorest : rest = [] := by
    by_contra hne
    obtain ⟨more, final, rfl⟩ := (List.eq_nil_or_concat rest).resolve_left hne
    have hfinal : isVoid final = false := by
      rw [List.concat_eq_append, ← List.cons_append, ← List.append_assoc] at hsplitq
      rw [endsVoid, hsplitq, List.getLast?_concat] at hq
      exact hq
    simp [hfinal] at hfilter
  have hnothing : after = [] := by
    have hfirst : first = [] := by simpa using hfirst
    rw [← Text.join_split '/' after, hrest, hnorest, hfirst]
    rfl
  rw [← hafter, hnothing, List.append_nil]

/-! ### Parents -/

theorem head_append_drop (cs : List Char) : head cs ++ cs.drop (head cs).length = cs := by
  unfold head
  split <;> rfl

/-- A parent is written in front of the path. -/
theorem prefix_of_parent? (h : p.parent? = some q) : q.chars <+: p.chars := by
  by_cases hnames : names p.chars = []
  · rw [parent?_of_names_eq_nil hnames] at h
    split at h
    · obtain rfl := Option.some.inj h
      exact List.nil_prefix
    · cases h
  · obtain ⟨kept, last, -, hkept, -, hparent⟩ := exists_parent?_eq hnames
    obtain rfl : q = _ := Option.some.inj (h.symm.trans hparent)
    have hjoin : Text.join ['/'] kept <+: p.chars.drop (head p.chars).length := by
      rw [← Text.join_split '/' (p.chars.drop _)]
      exact Text.join_isPrefix hkept
    rw [chars, String.toList_ofList]
    conv_rhs => rw [← head_append_drop p.chars]
    exact (List.prefix_append_right_inj _).mpr hjoin

theorem isAbsolute_iff_components : p.isAbsolute = true ↔ ∃ rest, p.components = .root :: rest := by
  rw [isAbsolute, decide_eq_true_iff, ← front_eq_root_iff]
  constructor
  · intro h
    exact ⟨_, by rw [components_eq, h]; rfl⟩
  · rintro ⟨rest, hrest⟩
    have hfilter := (filter_isFront_components p).1
    rw [hrest, List.filter_cons_of_pos rfl] at hfilter
    rcases front_cases p.chars with ⟨after, heq⟩ | heq | ⟨after, heq⟩ | hplain
    · rw [heq]
      rfl
    · rw [heq] at hfilter
      cases hfilter
    · rw [heq] at hfilter
      cases hfilter
    · rw [hplain.front_eq_nil] at hfilter
      cases hfilter

theorem isAbsolute_of_parent? (h : p.parent? = some q) (hp : p.isAbsolute = true) :
    q.isAbsolute = true := by
  obtain ⟨rest, hrest⟩ := isAbsolute_iff_components.mp hp
  cases rest with
  | nil =>
      rw [parent?_eq_none_iff.mpr (.inr hrest)] at h
      cases h
  | cons c more =>
      refine isAbsolute_iff_components.mpr ⟨(c :: more).dropLast, ?_⟩
      rw [components_parent? h, hrest]
      rfl

theorem chars_ne_nil_of_isAbsolute (hp : p.isAbsolute = true) : p.chars ≠ [] := by
  intro hnil
  rw [isAbsolute, hnil] at hp
  cases hp

theorem isAbsolute_join (hp : p.isAbsolute = true) (name : String) :
    (p.join name).isAbsolute = true := by
  by_cases hname : name.toList.head? = some '/'
  · rw [join_of_isAbsolute p hname]
    exact decide_eq_true hname
  · rw [isAbsolute, decide_eq_true_iff, ← front_eq_root_iff,
      front_join hname (chars_ne_nil_of_isAbsolute hp), front_eq_root_iff]
    exact of_decide_eq_true hp

/-- The parent of an absolute path has its names but the last one. -/
theorem exists_parent?_of_isAbsolute {init : List (List Char)} {last : List Char}
    (hp : p.isAbsolute = true) (hnames : names p.chars = init ++ [last]) :
    ∃ q, p.parent? = some q ∧ q.isAbsolute = true ∧ names q.chars = init := by
  have hcomponents : p.components = .root :: init.map ofPiece ++ [ofPiece last] := by
    rw [components_eq, front_eq_root_iff.mpr (of_decide_eq_true hp), hnames]
    simp
  cases hparent : p.parent? with
  | none =>
      rcases parent?_eq_none_iff.mp hparent with hnone | hnone <;> simp [hcomponents] at hnone
  | some q =>
      have habsolute := isAbsolute_of_parent? hparent hp
      refine ⟨q, rfl, habsolute, ?_⟩
      have hq := components_parent? hparent
      rw [hcomponents, List.dropLast_concat, components_eq,
        front_eq_root_iff.mpr (of_decide_eq_true habsolute)] at hq
      exact List.map_injective_iff.mpr ofPiece_injective (List.cons.inj hq).2

/-- A path that ends in a name or is the root. -/
def Trimmed (p : Path) : Prop := p.endsVoid = false ∨ p.chars = ['/']

/-- A parent that begins at the root ends in a name or is the root. -/
theorem trimmed_of_parent? (h : p.parent? = some q) (habsolute : q.isAbsolute = true) :
    q.Trimmed := by
  by_cases hnames : names p.chars = []
  · rw [parent?_of_names_eq_nil hnames] at h
    split at h
    · obtain rfl := Option.some.inj h
      cases habsolute
    · cases h
  · obtain ⟨kept, last, -, hkept, hlast, hparent⟩ := exists_parent?_eq hnames
    obtain rfl : q = _ := Option.some.inj (h.symm.trans hparent)
    have hfront := (front_names_of_pieces hkept hlast hnames).1
    rw [isAbsolute, chars, String.toList_ofList, decide_eq_true_iff, ← front_eq_root_iff, hfront,
      front_eq_root_iff] at habsolute
    obtain ⟨rest, hrest⟩ := List.head?_eq_some_iff.mp habsolute
    have hhead : head p.chars = ['/'] := by rw [hrest, head]
    rw [Trimmed, endsVoid, chars, String.toList_ofList, hhead, List.singleton_append,
      Text.split_separator]
    cases kept with
    | nil => exact .inr rfl
    | cons first more =>
        have hslash : ∀ piece ∈ first :: more, '/' ∉ piece := fun piece hpiece =>
          Text.not_mem_of_mem_split (hkept.subset hpiece)
        rw [Text.split_join (List.cons_ne_nil first more) hslash, List.getLast?_cons_cons,
          List.getLast?_eq_getLast_of_ne_nil (List.cons_ne_nil first more)]
        exact .inl (hlast (List.cons_ne_nil first more))

theorem names_ne_nil_of_endsVoid (h : p.endsVoid = false) : names p.chars ≠ [] := by
  obtain ⟨init, last, hsplit, hlast⟩ := exists_concat_of_not_endsVoid h
  refine List.ne_nil_of_mem (a := last) (mem_names_iff.mpr ⟨?_, hlast⟩)
  rw [hsplit]
  exact List.mem_append_right _ (List.mem_singleton.mpr rfl)

/-- Trimmed paths that are written in front of one text and have the same names are spelled alike. -/
theorem eq_of_trimmed {whole : List Char} (hp : p.Trimmed) (hq : q.Trimmed)
    (hnames : names p.chars = names q.chars) (hwhole : p.chars <+: whole)
    (hwhole' : q.chars <+: whole) : p = q := by
  apply chars_injective
  rcases hp with hpe | hpe <;> rcases hq with hqe | hqe
  · rcases List.prefix_or_prefix_of_prefix hwhole hwhole' with hpre | hpre
    · exact eq_of_prefix_of_names hpe hqe hnames hpre
    · exact (eq_of_prefix_of_names hqe hpe hnames.symm hpre).symm
  · refine absurd ?_ (names_ne_nil_of_endsVoid hpe)
    rw [hnames, hqe]
    rfl
  · refine absurd ?_ (names_ne_nil_of_endsVoid hqe)
    rw [← hnames, hpe]
    rfl
  · rw [hpe, hqe]

/-- A name that is joined to an absolute path has a trimmed spelling of that path as its parent. -/
theorem exists_parent?_join {a : Path} {name : String} (hname : IsName name)
    (habsolute : a.isAbsolute = true) :
    ∃ root, (a.join name).parent? = some root ∧ root.components = a.components ∧ root.Trimmed := by
  have hcomponents := components_join_name a hname
  cases hparent : (a.join name).parent? with
  | none =>
      obtain ⟨rest, hrest⟩ := isAbsolute_iff_components.mp habsolute
      rcases parent?_eq_none_iff.mp hparent with h | h <;>
        simp [hcomponents, hrest] at h
  | some root =>
      have hroot : root.components = a.components := by
        rw [components_parent? hparent, hcomponents, List.dropLast_concat]
      exact ⟨root, rfl, hroot, trimmed_of_parent? hparent ((isAbsolute_congr hroot).trans habsolute)⟩

/-- What a name is joined to is the parent again, if it is trimmed. -/
theorem parent?_join_name {a : Path} {name : String} (hname : IsName name)
    (habsolute : a.isAbsolute = true) (ha : a.Trimmed) : (a.join name).parent? = some a := by
  obtain ⟨root, hparent, hroot, htrimmed⟩ := exists_parent?_join hname habsolute
  have habove : a.chars <+: (a.join name).chars := by
    rw [chars_join hname.head?_ne]
    split
    · next hnil =>
        rw [hnil]
        exact List.nil_prefix
    · split <;> exact List.prefix_append _ _
  rw [hparent, eq_of_trimmed htrimmed ha (components_eq_components_iff.mp hroot).2
    (prefix_of_parent? hparent) habove]

end LintMargin.Path
