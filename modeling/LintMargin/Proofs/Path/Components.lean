import LintMargin.Proofs.Path.Split
import Mathlib.Data.List.DropRight

/-!
# Components of paths

The components of a path come from the names between its slashes and from the part in front that cannot
be left out. Joining paths appends components, and a parent has all components but the last one; the
spelling matters for neither.
-/

namespace LintMargin.Path

variable {p q : Path}

theorem chars_injective : Function.Injective chars := fun p q h => by
  cases p
  cases q
  exact congrArg Path.mk (String.toList_inj.mp h)

/-! ### Names -/

/-- What lies between the slashes and names something. -/
def names (cs : List Char) : List (List Char) := (Text.split '/' cs).filter (!isVoid ·)

/-- What the part in front names. -/
def front (cs : List Char) : List Component :=
  match head cs with
  | ['/'] => [.root]
  | ['.'] => [.current]
  | _ => []

@[simp] theorem names_nil : names [] = [] := rfl

@[simp] theorem names_slash (cs : List Char) : names ('/' :: cs) = names cs := by
  rw [names, Text.split_separator]
  rfl

theorem names_append (before after : List Char) :
    names (before ++ '/' :: after) = names before ++ names after := by
  rw [names, Text.split_append, List.filter_append]
  rfl

theorem isVoid_iff {piece : List Char} : isVoid piece = true ↔ piece = [] ∨ piece = ['.'] := by
  simp [isVoid]

theorem mem_names_iff {cs piece : List Char} :
    piece ∈ names cs ↔ piece ∈ Text.split '/' cs ∧ isVoid piece = false := by
  simp [names]

/-- Leaving out the part in front loses no name. -/
theorem filter_pieces (cs : List Char) : (pieces cs).filter (!isVoid ·) = names cs := by
  unfold pieces head
  split
  · exact (names_slash _).symm
  · rfl
  · next rest =>
      have hnames : names ('.' :: '/' :: rest) = names rest := names_append ['.'] rest
      rw [hnames]
      exact names_slash rest
  · rfl

theorem components_eq (p : Path) : p.components = front p.chars ++ (names p.chars).map ofPiece := by
  rw [components, filter_pieces]
  rfl

/-! ### The part in front -/

/-- A text that begins with a name has nothing in front of it. -/
def BeginsPlainly (cs : List Char) : Prop :=
  cs.head? ≠ some '/' ∧ cs ≠ ['.'] ∧ ∀ rest, cs ≠ '.' :: '/' :: rest

theorem BeginsPlainly.head_eq_nil {cs : List Char} (h : BeginsPlainly cs) : head cs = [] := by
  unfold head
  split
  · exact absurd rfl h.1
  · exact absurd rfl h.2.1
  · exact absurd rfl (h.2.2 _)
  · rfl

theorem BeginsPlainly.front_eq_nil {cs : List Char} (h : BeginsPlainly cs) : front cs = [] := by
  rw [front, h.head_eq_nil]

/-- The four ways in which a path can begin. -/
theorem front_cases (cs : List Char) :
    (∃ rest, cs = '/' :: rest) ∨ cs = ['.'] ∨ (∃ rest, cs = '.' :: '/' :: rest) ∨ BeginsPlainly cs := by
  by_cases hslash : cs.head? = some '/'
  · cases cs with
    | nil => cases hslash
    | cons c rest =>
        cases hslash
        exact .inl ⟨rest, rfl⟩
  · by_cases hdot : cs = ['.']
    · exact .inr (.inl hdot)
    · by_cases hdots : ∃ rest, cs = '.' :: '/' :: rest
      · exact .inr (.inr (.inl hdots))
      · exact .inr (.inr (.inr ⟨hslash, hdot, fun rest heq => hdots ⟨rest, heq⟩⟩))

/-- What a path begins with stays when more is written behind a slash. -/
theorem front_append {cs : List Char} (hcs : cs ≠ []) (more : List Char) :
    front (cs ++ '/' :: more) = front cs := by
  rcases front_cases cs with ⟨rest, rfl⟩ | rfl | ⟨rest, rfl⟩ | hplain
  · rfl
  · rfl
  · rfl
  · have happended : BeginsPlainly (cs ++ '/' :: more) := by
      obtain ⟨hslash, hdot, hdots⟩ := hplain
      cases cs with
      | nil => exact absurd rfl hcs
      | cons c rest =>
          refine ⟨by simpa using hslash, by simp, fun after heq => ?_⟩
          cases rest with
          | nil =>
              simp only [List.cons_append, List.nil_append, List.cons.injEq] at heq
              exact hdot (by rw [heq.1])
          | cons d rest =>
              simp only [List.cons_append, List.cons.injEq] at heq
              exact hdots rest (by rw [heq.1, heq.2.1])
    rw [happended.front_eq_nil, hplain.front_eq_nil]

/-- A text that is not empty begins plainly if its first piece is a name. -/
theorem beginsPlainly_iff {cs first : List Char} {rest : List (List Char)}
    (hsplit : Text.split '/' cs = first :: rest) :
    BeginsPlainly cs ↔ cs = [] ∨ isVoid first = false := by
  constructor
  · rintro ⟨hslash, hdot, hdots⟩
    by_contra hnot
    rw [not_or, Bool.not_eq_false, isVoid_iff] at hnot
    have hcs : cs = Text.join ['/'] (first :: rest) := by rw [← hsplit, Text.join_split]
    rcases hnot.2 with rfl | rfl <;> cases rest with
    | nil => first | exact hnot.1 hcs | exact hdot hcs
    | cons next rest =>
        rw [Text.join_cons (List.cons_ne_nil next rest)] at hcs
        first | exact hslash (by rw [hcs]; rfl) | exact hdots _ hcs
  · rintro (rfl | hnamed)
    · exact ⟨by simp, by simp, by simp⟩
    · refine ⟨fun hslash => ?_, ?_, ?_⟩
      · obtain ⟨after, rfl⟩ := List.head?_eq_some_iff.mp hslash
        rw [Text.split_separator] at hsplit
        cases hsplit
        cases hnamed
      · rintro rfl
        cases hsplit
        cases hnamed
      · rintro after rfl
        rw [show '.' :: '/' :: after = ['.'] ++ '/' :: after from rfl, Text.split_append] at hsplit
        cases hsplit
        cases hnamed

theorem BeginsPlainly.names_ne_nil {cs : List Char} (h : BeginsPlainly cs) (hcs : cs ≠ []) :
    names cs ≠ [] := by
  obtain ⟨first, rest, hsplit⟩ := List.exists_cons_of_ne_nil (Text.split_ne_nil '/' cs)
  have hnamed := ((beginsPlainly_iff hsplit).mp h).resolve_left hcs
  refine List.ne_nil_of_mem (a := first) (mem_names_iff.mpr ⟨?_, hnamed⟩)
  rw [hsplit]
  exact List.mem_cons_self

theorem components_eq_nil_iff : p.components = [] ↔ p.chars = [] := by
  rw [components_eq]
  constructor
  · intro h
    obtain ⟨hfront, hnames⟩ := List.append_eq_nil_iff.mp h
    rcases front_cases p.chars with ⟨rest, heq⟩ | heq | ⟨rest, heq⟩ | hplain
    · rw [heq] at hfront
      cases hfront
    · rw [heq] at hfront
      cases hfront
    · rw [heq] at hfront
      cases hfront
    · by_contra hcs
      exact hplain.names_ne_nil hcs (List.map_eq_nil_iff.mp hnames)
  · intro h
    rw [h]
    rfl

theorem front_eq_root_iff {cs : List Char} : front cs = [.root] ↔ cs.head? = some '/' := by
  rcases front_cases cs with ⟨rest, rfl⟩ | rfl | ⟨rest, rfl⟩ | hplain
  · simp [front, head]
  · simp [front, head]
  · simp [front, head]
  · simp [hplain.front_eq_nil, hplain.1]

theorem ofPiece_injective : Function.Injective ofPiece := by
  intro a b h
  unfold ofPiece at h
  split at h <;> split at h
  · next ha hb => rw [ha, hb]
  · cases h
  · cases h
  · exact Component.name.inj h

/-- Components that only stand in front. -/
def Component.isFront : Component → Bool
  | .root | .current => true
  | _ => false

theorem isFront_of_mem_front {cs : List Char} {c : Component} (hc : c ∈ front cs) :
    c.isFront = true := by
  rcases front_cases cs with ⟨rest, rfl⟩ | rfl | ⟨rest, rfl⟩ | hplain
  · rw [List.mem_singleton.mp hc]
    rfl
  · rw [List.mem_singleton.mp hc]
    rfl
  · rw [List.mem_singleton.mp hc]
    rfl
  · simp [hplain.front_eq_nil] at hc

theorem isFront_ofPiece (piece : List Char) : (ofPiece piece).isFront = false := by
  unfold ofPiece
  split <;> rfl

theorem filter_isFront_components (p : Path) :
    p.components.filter Component.isFront = front p.chars ∧
      p.components.filter (!·.isFront) = (names p.chars).map ofPiece := by
  have hfront : ∀ c ∈ front p.chars, c.isFront = true := fun c hc => isFront_of_mem_front hc
  have hnames : ∀ c ∈ (names p.chars).map ofPiece, c.isFront = false := by
    intro c hc
    obtain ⟨piece, -, rfl⟩ := List.mem_map.mp hc
    exact isFront_ofPiece piece
  rw [components_eq, List.filter_append, List.filter_append, List.filter_eq_self.mpr hfront,
    List.filter_eq_nil_iff.mpr fun c hc => by simp [hnames c hc],
    List.filter_eq_nil_iff.mpr fun c hc => by simp [hfront c hc],
    List.filter_eq_self.mpr fun c hc => by simp [hnames c hc]]
  exact ⟨List.append_nil _, rfl⟩

/-- The part in front and the names can be told apart among the components. -/
theorem components_eq_components_iff :
    p.components = q.components ↔ front p.chars = front q.chars ∧ names p.chars = names q.chars := by
  obtain ⟨hpf, hpn⟩ := filter_isFront_components p
  obtain ⟨hqf, hqn⟩ := filter_isFront_components q
  constructor
  · intro h
    rw [h] at hpf hpn
    exact ⟨hpf.symm.trans hqf, List.map_injective_iff.mpr ofPiece_injective (hpn.symm.trans hqn)⟩
  · rintro ⟨hf, hn⟩
    rw [components_eq, components_eq, hf, hn]

/-- Slashes at the end of a path name nothing. -/
theorem components_slashes (hp : p.chars ≠ []) (n : Nat) :
    (⟨String.ofList (p.chars ++ List.replicate n '/')⟩ : Path).components = p.components := by
  have hnames : ∀ n, names (p.chars ++ List.replicate n '/') = names p.chars := by
    intro n
    induction n with
    | zero => rw [List.replicate_zero, List.append_nil]
    | succ n ih =>
        rw [List.replicate_succ', ← List.append_assoc, names_append, ih, names_nil, List.append_nil]
  have hfront : front (p.chars ++ List.replicate n '/') = front p.chars := by
    cases n with
    | zero => rw [List.replicate_zero, List.append_nil]
    | succ n => rw [List.replicate_succ, front_append hp]
  rw [components_eq_components_iff]
  simp only [chars, String.toList_ofList] at hnames hfront ⊢
  exact ⟨hfront, hnames n⟩

/-! ### Joining -/

theorem join_of_isAbsolute (base : Path) {below : String} (h : below.toList.head? = some '/') :
    base.join below = ⟨below⟩ := by
  rw [join, if_pos h]

/-- How a path is written below another one. -/
theorem chars_join {base : Path} {below : String} (h : below.toList.head? ≠ some '/') :
    (base.join below).chars =
      if base.chars = [] then below.toList
      else if base.chars.getLast? = some '/' then base.chars ++ below.toList
      else base.chars ++ '/' :: below.toList := by
  unfold join
  rw [if_neg h]
  cases hlast : base.chars.getLast? with
  | none =>
      rw [if_pos (List.getLast?_eq_none_iff.mp hlast)]
      rfl
  | some c =>
      have hne : base.chars ≠ [] := by
        intro hnil
        rw [hnil] at hlast
        cases hlast
      rw [if_neg hne]
      by_cases hc : c = '/'
      · subst hc
        rw [if_pos rfl]
        exact String.toList_append
      · rw [if_neg fun heq => hc (Option.some.inj heq)]
        split
        · next heq => cases heq
        · next heq => exact absurd (Option.some.inj heq) hc
        · simp only [chars, String.toList_append, List.append_assoc]
          rfl

/-- The names of joined paths are those of both. -/
theorem names_join (base : Path) {below : String} (h : below.toList.head? ≠ some '/') :
    names (base.join below).chars = names base.chars ++ names below.toList := by
  rw [chars_join h]
  split
  · next hnil => rw [hnil, names_nil, List.nil_append]
  · split
    · next hlast =>
        obtain ⟨before, hbefore⟩ := List.getLast?_eq_some_iff.mp hlast
        rw [hbefore, List.append_assoc, List.singleton_append, names_append, names_append, names_nil,
          List.append_nil]
    · rw [names_append]

theorem front_join {base : Path} {below : String} (h : below.toList.head? ≠ some '/')
    (hbase : base.chars ≠ []) : front (base.join below).chars = front base.chars := by
  rw [chars_join h, if_neg hbase]
  split
  · next hlast =>
      obtain ⟨before, hbefore⟩ := List.getLast?_eq_some_iff.mp hlast
      rw [hbefore, List.append_assoc, List.singleton_append]
      cases before with
      | nil => rfl
      | cons c rest => rw [front_append (by simp), front_append (by simp)]
  · exact front_append hbase _

/-- Components of joined paths are appended, unless the second path stands for itself. -/
theorem components_join {base : Path} {below : String} (h : below.toList.head? ≠ some '/')
    (hbase : base.chars ≠ []) :
    (base.join below).components = base.components ++ (names below.toList).map ofPiece := by
  rw [components_eq, components_eq, front_join h hbase, names_join base h, List.map_append,
    List.append_assoc]

/-- A text that is one component and a name. -/
def IsName (s : String) : Prop :=
  s.toList ≠ [] ∧ '/' ∉ s.toList ∧ s ≠ "." ∧ s ≠ ".."

instance (s : String) : Decidable (IsName s) :=
  inferInstanceAs (Decidable (_ ∧ _ ∧ _ ∧ _))

theorem IsName.head?_ne {s : String} (h : IsName s) : s.toList.head? ≠ some '/' := by
  intro hhead
  exact h.2.1 (List.mem_of_head? hhead)

theorem IsName.names_eq {s : String} (h : IsName s) : names s.toList = [s.toList] := by
  have hnamed : isVoid s.toList = false := by
    rw [← Bool.not_eq_true, isVoid_iff]
    rintro (hnil | hdot)
    · exact h.1 hnil
    · exact h.2.2.1 (String.toList_inj.mp hdot)
  rw [names, Text.split_eq_singleton h.2.1]
  simp [hnamed]

theorem IsName.beginsPlainly {s : String} (h : IsName s) : BeginsPlainly s.toList := by
  refine ⟨h.head?_ne, fun heq => h.2.2.1 (String.toList_inj.mp heq), fun rest heq => h.2.1 ?_⟩
  rw [heq]
  simp

theorem components_join_name (base : Path) {name : String} (h : IsName name) :
    (base.join name).components = base.components ++ [.name name.toList] := by
  have hdots : name.toList ≠ ['.', '.'] := fun heq => h.2.2.2 (String.toList_inj.mp heq)
  have hpiece : (names name.toList).map ofPiece = [.name name.toList] := by
    rw [h.names_eq, List.map_singleton, ofPiece, if_neg hdots]
  by_cases hbase : base.chars = []
  · have hjoin : (base.join name).chars = name.toList := by rw [chars_join h.head?_ne, if_pos hbase]
    rw [components_eq, hjoin, h.beginsPlainly.front_eq_nil, hpiece, components_eq_nil_iff.mpr hbase]
  · rw [components_join h.head?_ne hbase, hpiece]

/-! ### Parents -/

theorem names_join_pieces {kept : List (List Char)} (h : ∀ piece ∈ kept, '/' ∉ piece) :
    names (Text.join ['/'] kept) = kept.filter (!isVoid ·) := by
  cases kept with
  | nil => rfl
  | cons first rest => rw [names, Text.split_join (List.cons_ne_nil first rest) h]

/-- Voids at the end do not count. -/
theorem filter_rdropWhile_isVoid (ps : List (List Char)) :
    (ps.rdropWhile isVoid).filter (!isVoid ·) = ps.filter (!isVoid ·) := by
  have hvoids : (ps.rtakeWhile isVoid).filter (!isVoid ·) = [] :=
    List.filter_eq_nil_iff.mpr fun piece hpiece => by simp [List.mem_rtakeWhile_imp hpiece]
  conv_rhs => rw [← List.rdropWhile_append_rtakeWhile (p := isVoid) (l := ps), List.filter_append,
    hvoids, List.append_nil]

/-- A path with a name has a parent: the pieces before its last name, without voids at their end. -/
theorem exists_parent?_eq {p : Path} (h : names p.chars ≠ []) :
    ∃ kept last, names p.chars = kept.filter (!isVoid ·) ++ [last] ∧ kept <+: pieces p.chars ∧
      (∀ hne : kept ≠ [], isVoid (kept.getLast hne) = false) ∧
      p.parent? = some ⟨String.ofList (head p.chars ++ Text.join ['/'] kept)⟩ := by
  rw [← filter_pieces] at h ⊢
  rw [parent?]
  generalize pieces p.chars = ps at h ⊢
  have htrimmed : ps.rdropWhile isVoid ≠ [] := by
    intro hnil
    rw [← filter_rdropWhile_isVoid, hnil] at h
    exact h rfl
  obtain ⟨init, last, hinit⟩ := List.eq_nil_or_concat _ |>.resolve_left htrimmed
  have hlast : isVoid last = false := by
    have hnot := List.rdropWhile_last_not isVoid ps htrimmed
    simpa [hinit] using hnot
  have hdrop : ps.reverse.dropWhile isVoid = last :: init.reverse := by
    rw [← List.reverse_inj, ← List.rdropWhile, hinit]
    simp
  rw [hdrop]
  refine ⟨init.rdropWhile isVoid, last, ?_, ?_, ?_, rfl⟩
  · rw [← filter_rdropWhile_isVoid ps, hinit, filter_rdropWhile_isVoid]
    simp [hlast]
  · have hinfront : init <+: ps := by
      have hdropped : ps.rdropWhile isVoid <+: ps := List.rdropWhile_prefix isVoid ps
      rw [hinit, List.concat_eq_append] at hdropped
      exact (List.prefix_append init [last]).trans hdropped
    have hkept : init.rdropWhile isVoid <+: init := List.rdropWhile_prefix isVoid init
    exact hkept.trans hinfront
  · intro hne
    exact Bool.not_eq_true _ ▸ List.rdropWhile_last_not isVoid init hne

/-- What a parent with some pieces begins with, and what it names. -/
theorem front_names_of_pieces {cs : List Char} {kept : List (List Char)} (hkept : kept <+: pieces cs)
    (hlast : ∀ hne : kept ≠ [], isVoid (kept.getLast hne) = false) (hnames : names cs ≠ []) :
    front (head cs ++ Text.join ['/'] kept) = front cs ∧
      names (head cs ++ Text.join ['/'] kept) = kept.filter (!isVoid ·) := by
  have hslash : ∀ piece ∈ kept, '/' ∉ piece := fun piece hpiece =>
    Text.not_mem_of_mem_split (hkept.subset hpiece)
  rcases front_cases cs with ⟨rest, rfl⟩ | rfl | ⟨rest, rfl⟩ | hplain
  · refine ⟨rfl, ?_⟩
    exact (names_slash _).trans (names_join_pieces hslash)
  · exact absurd rfl hnames
  · -- Behind a dot the first piece is void, so it is not the last one.
    cases kept with
    | nil => exact ⟨rfl, rfl⟩
    | cons first more =>
        obtain ⟨after, hafter⟩ := hkept
        have hfirst : first = [] := by
          have hpieces : pieces ('.' :: '/' :: rest) = [] :: Text.split '/' rest :=
            Text.split_separator '/' rest
          rw [hpieces, List.cons_append] at hafter
          exact (List.cons.inj hafter).1
        subst hfirst
        have hmore : more ≠ [] := by
          rintro rfl
          exact Bool.noConfusion (hlast (List.cons_ne_nil _ _))
        have hjoin : Text.join ['/'] ([] :: more) = '/' :: Text.join ['/'] more := by
          rw [Text.join_cons hmore]
          rfl
        refine ⟨by rw [hjoin]; rfl, ?_⟩
        rw [hjoin, show head ('.' :: '/' :: rest) = ['.'] from rfl, names_append,
          names_join_pieces fun piece hpiece => hslash piece (List.mem_cons_of_mem _ hpiece)]
        rfl
  · have hpieces : pieces cs = Text.split '/' cs := by rw [pieces, hplain.head_eq_nil]; rfl
    rw [hplain.head_eq_nil, List.nil_append, hplain.front_eq_nil]
    refine ⟨BeginsPlainly.front_eq_nil ?_, names_join_pieces hslash⟩
    cases kept with
    | nil => exact ⟨by simp [Text.join], by simp [Text.join], by simp [Text.join]⟩
    | cons first more =>
        obtain ⟨after, hafter⟩ := hkept
        rw [hpieces, List.cons_append] at hafter
        have hcs : cs ≠ [] := by
          rintro rfl
          exact hnames rfl
        have hnamed := ((beginsPlainly_iff hafter.symm).mp hplain).resolve_left hcs
        exact (beginsPlainly_iff (Text.split_join (List.cons_ne_nil first more) hslash)).mpr
          (.inr hnamed)

theorem parent?_of_names_eq_nil (h : names p.chars = []) :
    p.parent? = if head p.chars = ['.'] then some ⟨""⟩ else none := by
  have hdrop : (pieces p.chars).reverse.dropWhile isVoid = [] := by
    rw [List.dropWhile_eq_nil_iff]
    intro piece hpiece
    rw [← filter_pieces, List.filter_eq_nil_iff] at h
    simpa using h piece (List.mem_reverse.mp hpiece)
  rw [parent?, hdrop]

/-- A parent has all components but the last one. -/
theorem components_parent? (h : p.parent? = some q) : q.components = p.components.dropLast := by
  by_cases hnames : names p.chars = []
  · rw [parent?_of_names_eq_nil hnames] at h
    split at h
    · next hhead =>
        obtain rfl := Option.some.inj h
        rw [components_eq p, hnames, front, hhead]
        rfl
    · cases h
  · obtain ⟨kept, last, hsplit, hkept, hlast, hparent⟩ := exists_parent?_eq hnames
    obtain rfl : q = _ := Option.some.inj (h.symm.trans hparent)
    obtain ⟨hfront, hq⟩ := front_names_of_pieces hkept hlast hnames
    rw [components_eq, components_eq p, hsplit, List.map_append, List.map_singleton,
      ← List.append_assoc, List.dropLast_concat]
    simp only [chars, String.toList_ofList] at hfront hq ⊢
    rw [hfront, hq]

theorem parent?_eq_none_iff : p.parent? = none ↔ p.components = [] ∨ p.components = [.root] := by
  by_cases hnames : names p.chars = []
  · rw [parent?_of_names_eq_nil hnames, components_eq, hnames, front]
    rcases front_cases p.chars with ⟨rest, heq⟩ | heq | ⟨rest, heq⟩ | hplain
    · simp [heq, head]
    · simp [heq, head]
    · simp [heq, head]
    · simp [hplain.head_eq_nil]
  · obtain ⟨kept, last, hsplit, -, -, hparent⟩ := exists_parent?_eq hnames
    rw [hparent, components_eq, hsplit, List.map_append, List.map_singleton, ← List.append_assoc]
    constructor
    · intro h
      cases h
    · rintro (h | h)
      · simp at h
      · -- A root that comes from a name would be a name.
        have hfront := congrArg (List.getLast? ·) h
        simp only [List.getLast?_append, List.getLast?_singleton, Option.some_or,
          Option.some.injEq] at hfront
        have hmark := isFront_ofPiece last
        rw [hfront] at hmark
        cases hmark

/-- Paths with the same components have parents with the same components, or none. -/
theorem parent?_congr (h : p.components = q.components) :
    p.parent?.map components = q.parent?.map components := by
  cases hp : p.parent? with
  | none =>
      rw [parent?_eq_none_iff, h, ← parent?_eq_none_iff] at hp
      rw [hp]
  | some a =>
      cases hq : q.parent? with
      | none =>
          rw [parent?_eq_none_iff, ← h, ← parent?_eq_none_iff, hp] at hq
          cases hq
      | some b =>
          simp only [Option.map_some, components_parent? hp, components_parent? hq, h]

/-! ### Ancestors -/

theorem length_names_le (cs : List Char) : (names cs).length ≤ cs.length := by
  induction cs with
  | nil => exact Nat.le_refl _
  | cons c rest ih =>
      by_cases hc : c = '/'
      · rw [hc, names_slash]
        exact Nat.le_succ_of_le ih
      · unfold names at ih ⊢
        cases hrest : Text.split '/' rest with
        | nil => exact absurd hrest (Text.split_ne_nil _ _)
        | cons part parts =>
            rw [hrest] at ih
            rw [Text.split, hrest]
            simp only [if_neg hc, List.filter_cons, List.length_cons] at ih ⊢
            grind

theorem length_components_le (p : Path) : p.components.length ≤ p.chars.length := by
  rw [components_eq, List.length_append, List.length_map]
  rcases front_cases p.chars with ⟨rest, heq⟩ | heq | ⟨rest, heq⟩ | hplain
  · have hrest := length_names_le rest
    rw [heq, names_slash]
    simp only [front, head, List.length_cons, List.length_nil]
    omega
  · rw [heq]
    decide
  · have hrest := length_names_le rest
    have hnames : names ('.' :: '/' :: rest) = names rest := names_append ['.'] rest
    rw [heq, hnames]
    simp only [front, head, List.length_cons, List.length_nil]
    omega
  · have hcs := length_names_le p.chars
    rw [hplain.front_eq_nil]
    simpa using hcs

theorem length_components_parent? (h : p.parent? = some q) :
    q.components.length + 1 = p.components.length := by
  have hne : p.components ≠ [] := by
    intro hnil
    rw [parent?_eq_none_iff.mpr (.inl hnil)] at h
    cases h
  rw [components_parent? h, List.length_dropLast]
  have hpos := List.length_pos_of_ne_nil hne
  omega

/-- More steps than there are components change nothing. -/
theorem ancestors_go_eq {m n : Nat} (p : Path) (hm : p.components.length < m)
    (hn : p.components.length < n) : ancestors.go m p = ancestors.go n p := by
  induction m generalizing n p with
  | zero => exact absurd hm (Nat.not_lt_zero _)
  | succ m ih =>
      cases n with
      | zero => exact absurd hn (Nat.not_lt_zero _)
      | succ n =>
          rw [ancestors.go, ancestors.go]
          cases hparent : p.parent? with
          | none => rfl
          | some q =>
              have hlength := length_components_parent? hparent
              simp only [ih q (by omega) (by omega : q.components.length < n)]

/-- The ancestors of a path are the path and those of its parent. -/
theorem ancestors_eq (p : Path) :
    p.ancestors = p :: (p.parent?.map ancestors).getD [] := by
  rw [ancestors, ancestors.go]
  cases hparent : p.parent? with
  | none => rfl
  | some q =>
      have hlength := length_components_parent? hparent
      have hp := length_components_le p
      have hq := length_components_le q
      simp only [Option.map_some, Option.getD_some, ancestors]
      rw [ancestors_go_eq q (m := p.chars.length) (n := q.chars.length + 1) (by omega) (by omega)]

theorem mem_ancestors_self (p : Path) : p ∈ p.ancestors := by
  rw [ancestors_eq]
  exact List.mem_cons_self

theorem ancestors_of_parent? (h : p.parent? = some q) : p.ancestors = p :: q.ancestors := by
  rw [ancestors_eq, h]
  rfl

theorem ancestors_of_parent?_eq_none (h : p.parent? = none) : p.ancestors = [p] := by
  rw [ancestors_eq, h]
  rfl

/-- What holds of a path if it holds of its parent holds of all paths. -/
theorem parent_induction {motive : Path → Prop} (p : Path)
    (root : ∀ p, p.parent? = none → motive p)
    (step : ∀ p q, p.parent? = some q → motive q → motive p) : motive p := by
  induction hn : p.components.length generalizing p with
  | zero => exact root p (parent?_eq_none_iff.mpr (.inl (List.length_eq_zero_iff.mp hn)))
  | succ n ih =>
      cases hparent : p.parent? with
      | none => exact root p hparent
      | some q =>
          have hlength := length_components_parent? hparent
          exact step p q hparent (ih q (by omega))

/-- With a path its parent is among the ancestors. -/
theorem parent?_mem_ancestors {a b : Path} (ha : a ∈ p.ancestors) (hb : a.parent? = some b) :
    b ∈ p.ancestors := by
  induction p using parent_induction with
  | root p hroot =>
      rw [ancestors_of_parent?_eq_none hroot, List.mem_singleton] at ha
      rw [ha, hroot] at hb
      cases hb
  | step p q hq ih =>
      rw [ancestors_of_parent? hq] at ha ⊢
      rcases List.mem_cons.mp ha with rfl | ha
      · obtain rfl := Option.some.inj (hq.symm.trans hb)
        exact List.mem_cons_of_mem _ (mem_ancestors_self q)
      · exact List.mem_cons_of_mem _ (ih ha)

theorem length_components_of_mem_ancestors {a : Path} (ha : a ∈ p.ancestors) :
    a.components.length ≤ p.components.length := by
  induction p using parent_induction with
  | root p hroot =>
      rw [ancestors_of_parent?_eq_none hroot, List.mem_singleton] at ha
      rw [ha]
  | step p q hq ih =>
      rw [ancestors_of_parent? hq] at ha
      rcases List.mem_cons.mp ha with rfl | ha
      · exact Nat.le_refl _
      · have hshorter := length_components_parent? hq
        have habove := ih ha
        omega

/-- Every ancestor has one spelling. -/
theorem eq_of_mem_ancestors {a b : Path} (ha : a ∈ p.ancestors) (hb : b ∈ p.ancestors)
    (h : a.components = b.components) : a = b := by
  induction p using parent_induction with
  | root p hroot =>
      rw [ancestors_of_parent?_eq_none hroot, List.mem_singleton] at ha hb
      rw [ha, hb]
  | step p q hq ih =>
      have hshorter := length_components_parent? hq
      rw [ancestors_of_parent? hq] at ha hb
      rcases List.mem_cons.mp ha with ha | ha <;> rcases List.mem_cons.mp hb with hb | hb
      · rw [ha, hb]
      · have hlength := length_components_of_mem_ancestors hb
        rw [← h, ha] at hlength
        omega
      · have hlength := length_components_of_mem_ancestors ha
        rw [h, hb] at hlength
        omega
      · exact ih ha hb

end LintMargin.Path
