import LintMargin.Proofs.Path.Spelling
import Mathlib.Data.List.Infix

/-!
# Paths from the root

The path from the root has slashes in front, then names with single slashes between them, and at most one
slash at its end.
-/

namespace LintMargin.Path

variable {p q : Path}

/-- A piece of a path that names something. -/
def IsPiece (piece : List Char) : Prop := isVoid piece = false ∧ '/' ∉ piece

instance (piece : List Char) : Decidable (IsPiece piece) := inferInstanceAs (Decidable (_ ∧ _))

theorem isPiece_of_mem_names {cs piece : List Char} (h : piece ∈ names cs) : IsPiece piece :=
  ⟨(mem_names_iff.mp h).2, Text.not_mem_of_mem_split (mem_names_iff.mp h).1⟩

theorem IsPiece.ne_nil {piece : List Char} (h : IsPiece piece) : piece ≠ [] := by
  rintro rfl
  cases h.1

theorem IsPiece.head?_ne {piece : List Char} (h : IsPiece piece) : piece.head? ≠ some '/' :=
  fun hhead => h.2 (List.mem_of_head? hhead)

/-- A path with some slashes in front, names with single slashes between them, and an end. -/
structure Written (cs slashes : List Char) (ns : List (List Char)) (tail : List Char) : Prop where
  eq : cs = slashes ++ Text.join ['/'] ns ++ tail
  slashes : slashes = ['/'] ∨ slashes = ['/', '/']
  isPiece : ∀ n ∈ ns, IsPiece n
  tail : tail = [] ∨ tail = ['/'] ∧ ns ≠ []

namespace Written

variable {cs slashes tail : List Char} {ns : List (List Char)}

/-- Names that are joined do not end in a slash. -/
theorem getLast?_ne (h : Written cs slashes ns []) (hns : ns ≠ []) : cs.getLast? ≠ some '/' := by
  obtain ⟨init, last, rfl⟩ := (List.eq_nil_or_concat ns).resolve_left hns
  rw [List.concat_eq_append] at h
  have hlast : IsPiece last := h.isPiece last (by simp)
  obtain ⟨before, hbefore⟩ : ∃ before, cs = before ++ last := by
    rw [h.eq, List.append_nil]
    by_cases hinit : init = []
    · exact ⟨slashes, by rw [hinit]; rfl⟩
    · exact ⟨slashes ++ (Text.join ['/'] init ++ ['/']), by rw [Text.join_concat hinit]; simp⟩
  rw [hbefore, List.getLast?_append_of_ne_nil _ hlast.ne_nil]
  exact fun hslash => hlast.2 (List.mem_of_getLast? hslash)

theorem getLast?_slashes (h : Written cs slashes ns tail) : slashes.getLast? = some '/' := by
  rcases h.slashes with rfl | rfl <;> rfl

theorem ne_nil (h : Written cs slashes ns tail) : cs ≠ [] := by
  rw [h.eq]
  rcases h.slashes with rfl | rfl <;> simp

theorem join_name (h : Written p.chars slashes ns []) {n : List Char} (hn : IsPiece n) :
    Written (p.join (String.ofList n)).chars slashes (ns ++ [n]) [] := by
  have hbelow : (String.ofList n).toList.head? ≠ some '/' := by
    rw [String.toList_ofList]
    exact hn.head?_ne
  refine ⟨?_, h.slashes, ?_, .inl rfl⟩
  · rw [chars_join hbelow, String.toList_ofList, if_neg h.ne_nil, List.append_nil]
    by_cases hns : ns = []
    · have hchars : p.chars = slashes := by rw [h.eq, hns]; simp [Text.join]
      rw [hchars, if_pos h.getLast?_slashes, hns]
      rfl
    · rw [if_neg (h.getLast?_ne hns), Text.join_concat hns, h.eq]
      simp
  · intro m hm
    rcases List.mem_append.mp hm with hm | hm
    · exact h.isPiece m hm
    · exact List.mem_singleton.mp hm ▸ hn

theorem foldl_join {more : List (List Char)} (h : Written p.chars slashes ns [])
    (hmore : ∀ n ∈ more, IsPiece n) :
    Written (more.foldl (fun acc n => acc.join (String.ofList n)) p).chars slashes (ns ++ more) [] := by
  induction more generalizing p ns with
  | nil => rwa [List.append_nil]
  | cons n more ih =>
      obtain ⟨hn, hmore⟩ := List.forall_mem_cons.mp hmore
      rw [List.foldl_cons, ← List.singleton_append, ← List.append_assoc]
      exact ih (h.join_name hn) hmore

/-- Joining nothing puts a slash at the end, if there is none. -/
theorem join_nothing (h : Written p.chars slashes ns []) :
    ∃ tail, Written (p.join "").chars slashes ns tail := by
  have hchars := @chars_join p "" (by decide)
  rw [if_neg h.ne_nil] at hchars
  by_cases hns : ns = []
  · refine ⟨[], ?_, h.slashes, h.isPiece, .inl rfl⟩
    have hslashes : p.chars = slashes := by rw [h.eq, hns]; simp [Text.join]
    rw [hchars, if_pos (by rw [hslashes, h.getLast?_slashes]), ← h.eq]
    simp
  · refine ⟨['/'], ?_, h.slashes, h.isPiece, .inr ⟨rfl, hns⟩⟩
    rw [hchars, if_neg (h.getLast?_ne hns), h.eq]
    simp

theorem names_eq (h : Written cs slashes ns tail) : names cs = ns := by
  have hslash : ∀ n ∈ ns, '/' ∉ n := fun n hn => (h.isPiece n hn).2
  have hjoin : names (Text.join ['/'] ns) = ns := by
    rw [names_join_pieces hslash, List.filter_eq_self]
    intro n hn
    rw [(h.isPiece n hn).1]
    rfl
  have htail : names (Text.join ['/'] ns ++ tail) = ns := by
    rcases h.tail with rfl | ⟨rfl, -⟩
    · rw [List.append_nil, hjoin]
    · rw [names_append, hjoin, names_nil, List.append_nil]
  rw [h.eq, List.append_assoc]
  rcases h.slashes with rfl | rfl <;> simpa using htail

theorem head?_eq (h : Written cs slashes ns tail) : cs.head? = some '/' := by
  rw [h.eq]
  rcases h.slashes with rfl | rfl <;> rfl

/-- Names come right after the slashes in front. -/
theorem head?_join_ne (h : Written cs slashes ns tail) :
    (Text.join ['/'] ns ++ tail).head? ≠ some '/' := by
  cases ns with
  | nil =>
      rcases h.tail with rfl | ⟨-, hne⟩
      · simp [Text.join]
      · exact absurd rfl hne
  | cons n more =>
      have hn := h.isPiece n List.mem_cons_self
      obtain ⟨c, after, rfl⟩ := List.exists_cons_of_ne_nil hn.ne_nil
      have hc : c ≠ '/' := fun hc => hn.2 (hc ▸ List.mem_cons_self)
      cases more with
      | nil => simpa [Text.join] using hc
      | cons next more =>
          rw [Text.join_cons (List.cons_ne_nil next more)]
          simpa using hc

theorem split_join_append (h : Written cs slashes ns tail) :
    ∃ after, Text.split '/' (Text.join ['/'] ns ++ tail) = ns ++ after ∧ after.length ≤ 1 := by
  have hslash : ∀ n ∈ ns, '/' ∉ n := fun n hn => (h.isPiece n hn).2
  by_cases hns : ns = []
  · refine ⟨[[]], ?_, le_rfl⟩
    rcases h.tail with rfl | ⟨-, hne⟩
    · rw [hns]
      rfl
    · exact absurd hns hne
  · rcases h.tail with rfl | ⟨rfl, -⟩
    · exact ⟨[], by rw [List.append_nil, List.append_nil, Text.split_join hns hslash], Nat.zero_le _⟩
    · exact ⟨[[]], by rw [Text.split_append, Text.split_join hns hslash]; rfl, le_rfl⟩

/-- But for the last piece, those that name nothing come first. -/
theorem voids_first (h : Written cs slashes ns tail) :
    (Text.split '/' cs).dropLast.Pairwise fun a b => isVoid b = true → isVoid a = true := by
  obtain ⟨after, hsplit, hafter⟩ := h.split_join_append
  obtain ⟨voids, hvoids, hcs⟩ : ∃ voids, (∀ v ∈ voids, isVoid v = true) ∧
      Text.split '/' cs = (voids ++ ns) ++ after := by
    rw [h.eq, List.append_assoc]
    rcases h.slashes with rfl | rfl
    · exact ⟨[[]], by decide, by simp [hsplit]⟩
    · exact ⟨[[], []], by decide, by simp [hsplit]⟩
  have hpairs : (voids ++ ns).Pairwise fun a b => isVoid b = true → isVoid a = true := by
    refine List.pairwise_append.mpr ⟨?_, ?_, fun a ha b _ _ => hvoids a ha⟩
    · exact List.pairwise_of_forall_mem_list fun a ha b _ _ => hvoids a ha
    · refine List.pairwise_of_forall_mem_list fun a _ b hb hvoid => ?_
      rw [(h.isPiece b hb).1] at hvoid
      cases hvoid
  refine hpairs.sublist ?_
  rw [hcs, List.dropLast_eq_take, List.length_append, List.take_append_of_le_length (by omega)]
  exact List.take_sublist _ _

/-- Names without a slash at the end; without names there is one slash only. -/
theorem trimmed (h : Written p.chars slashes ns []) (hroot : ns = [] → slashes = ['/']) :
    p.Trimmed := by
  by_cases hns : ns = []
  · refine .inr ?_
    rw [h.eq, hns, hroot hns]
    rfl
  · refine .inl ?_
    obtain ⟨init, last, rfl⟩ := (List.eq_nil_or_concat ns).resolve_left hns
    rw [List.concat_eq_append] at h
    obtain ⟨voids, hsplit⟩ : ∃ voids, Text.split '/' p.chars = voids ++ (init ++ [last]) := by
      have hjoin : Text.split '/' (Text.join ['/'] (init ++ [last])) = init ++ [last] :=
        Text.split_join (by simp) fun n hn => (h.isPiece n hn).2
      rw [h.eq, List.append_nil]
      rcases h.slashes with rfl | rfl
      · exact ⟨[[]], by simp [hjoin]⟩
      · exact ⟨[[], []], by simp [hjoin]⟩
    rw [endsVoid, hsplit, ← List.append_assoc, List.getLast?_concat]
    exact (h.isPiece last (by simp)).1

end Written

/-! ### Paths from the root -/

/-- Whether a path begins with two slashes and not with more. -/
def BeginsDoubly (cs : List Char) : Prop := ∃ rest, cs = '/' :: '/' :: rest ∧ rest.head? ≠ some '/'

theorem beginsDoubly_iff {cs : List Char} :
    BeginsDoubly cs ↔ cs.take 2 = ['/', '/'] ∧ (cs.drop 2).head? ≠ some '/' := by
  constructor
  · rintro ⟨rest, rfl, hrest⟩
    exact ⟨rfl, hrest⟩
  · rintro ⟨hslashes, hrest⟩
    refine ⟨cs.drop 2, ?_, hrest⟩
    conv_lhs => rw [← List.take_append_drop 2 cs, hslashes]
    rfl

instance (cs : List Char) : Decidable (BeginsDoubly cs) := decidable_of_iff _ beginsDoubly_iff.symm

/-- The slashes in front of a path from the root, by those in front of what it was made from. -/
def slashesOf (cs : List Char) : List Char := if BeginsDoubly cs then ['/', '/'] else ['/']

/-- The path that leads from the root through names. -/
def rooted (ns : List (List Char)) : Path := ⟨String.ofList ('/' :: Text.join ['/'] ns)⟩

theorem written_rooted {ns : List (List Char)} (h : ∀ n ∈ ns, IsPiece n) :
    Written (rooted ns).chars ['/'] ns [] where
  eq := by simp [rooted, chars]
  slashes := .inl rfl
  isPiece := h
  tail := .inl rfl

theorem written_root {start : Path} (h : start.chars = ['/']) : Written start.chars ['/'] [] [] :=
  ⟨h, .inl rfl, by simp, .inl rfl⟩

/-- Where a path starts from. -/
def startOf (cs : List Char) (workingDirectory : Path) : Path :=
  match cs with
  | '/' :: '/' :: '/' :: _ => ⟨"/"⟩
  | '/' :: '/' :: _ => ⟨"//"⟩
  | '/' :: _ => ⟨"/"⟩
  | _ => workingDirectory

theorem absolute?_eq (p workingDirectory : Path) :
    p.absolute? workingDirectory =
      if p.chars.isEmpty then none
      else
        let whole := (names p.chars).foldl (fun acc n => acc.join (String.ofList n))
          (startOf p.chars workingDirectory)
        some (if p.chars.getLast? = some '/' then whole.join "" else whole) := rfl

/-- Two slashes are kept where there are no more. -/
theorem exists_written_startOf (cs : List Char) {wd : List (List Char)} (hwd : ∀ n ∈ wd, IsPiece n) :
    ∃ ms, Written (startOf cs (rooted wd)).chars (slashesOf cs) ms [] := by
  have hone : ¬ BeginsDoubly cs → slashesOf cs = ['/'] := fun h => if_neg h
  unfold startOf
  split
  · rw [hone (by simp [beginsDoubly_iff])]
    exact ⟨_, written_root rfl⟩
  · next rest hmore =>
      have hdoubly : BeginsDoubly ('/' :: '/' :: rest) := by
        refine ⟨rest, rfl, fun hhead => ?_⟩
        obtain ⟨after, rfl⟩ := List.head?_eq_some_iff.mp hhead
        exact hmore after rfl
      rw [slashesOf, if_pos hdoubly]
      exact ⟨[], rfl, .inr rfl, by simp, .inl rfl⟩
  · next rest _ hmore =>
      rw [hone (by rintro ⟨after, heq, -⟩; exact hmore after (List.cons.inj heq).2)]
      exact ⟨_, written_root rfl⟩
  · next hnot =>
      rw [hone (by rintro ⟨after, rfl, -⟩; exact hnot _ rfl)]
      exact ⟨_, written_rooted hwd⟩

/-- How a path from the root is written. -/
theorem exists_written_of_absolute? {wd : List (List Char)} (hwd : ∀ n ∈ wd, IsPiece n) {whole : Path}
    (h : p.absolute? (rooted wd) = some whole) :
    ∃ ns tail, Written whole.chars (slashesOf p.chars) ns tail := by
  obtain ⟨ms, hstart⟩ := exists_written_startOf p.chars hwd
  have hjoined := hstart.foldl_join fun n hn => @isPiece_of_mem_names p.chars n hn
  rw [absolute?_eq] at h
  split at h
  · cases h
  · obtain rfl := Option.some.inj h
    split
    · obtain ⟨tail, htail⟩ := hjoined.join_nothing
      exact ⟨_, tail, htail⟩
    · exact ⟨_, [], hjoined⟩

/-! ### Directories above a path from the root -/

theorem mem_ancestors_induction {motive : Path → Prop} (hp : motive p)
    (hparent : ∀ a b, motive a → a.parent? = some b → motive b) {a : Path} (ha : a ∈ p.ancestors) :
    motive a := by
  induction p using parent_induction with
  | root p hroot =>
      rw [ancestors_of_parent?_eq_none hroot, List.mem_singleton] at ha
      exact ha ▸ hp
  | step p q hq ih =>
      rw [ancestors_of_parent? hq] at ha
      rcases List.mem_cons.mp ha with rfl | ha
      · exact hp
      · exact ih (hparent p q hp hq) ha

/-- The directories above an absolute path are absolute, trimmed, and written in front of it. -/
theorem above_of_mem_ancestors {whole directory a : Path} (h : whole.parent? = some directory)
    (habsolute : whole.isAbsolute = true) (ha : a ∈ directory.ancestors) :
    a.isAbsolute = true ∧ a.Trimmed ∧ a.chars <+: whole.chars := by
  refine mem_ancestors_induction (motive := fun a => a.isAbsolute = true ∧ a.Trimmed ∧
    a.chars <+: whole.chars) ?_ ?_ ha
  · have hdirectory := isAbsolute_of_parent? h habsolute
    exact ⟨hdirectory, trimmed_of_parent? h hdirectory, prefix_of_parent? h⟩
  · rintro a b ⟨hab, -, hinfront⟩ hb
    have hbabs := isAbsolute_of_parent? hb hab
    exact ⟨hbabs, trimmed_of_parent? hb hbabs, (prefix_of_parent? hb).trans hinfront⟩

/-- The directory that is reached from the root through names, behind some slashes; where there are no
names it is the root with its one slash. -/
def through (slashes : List Char) (ns : List (List Char)) : Path :=
  if ns = [] then rooted [] else ⟨String.ofList (slashes ++ Text.join ['/'] ns)⟩

theorem written_through {slashes : List Char} {ns : List (List Char)}
    (hslashes : slashes = ['/'] ∨ slashes = ['/', '/']) (hns : ∀ n ∈ ns, IsPiece n) :
    Written (through slashes ns).chars (if ns = [] then ['/'] else slashes) ns [] := by
  unfold through
  split
  · next h =>
      subst h
      exact written_root rfl
  · exact ⟨by simp [chars], hslashes, hns, .inl rfl⟩

namespace Written

variable {slashes tail : List Char} {ns : List (List Char)}

theorem components_eq (h : Written p.chars slashes ns tail) : p.components = .root :: ns.map ofPiece := by
  rw [Path.components_eq, front_eq_root_iff.mpr h.head?_eq, h.names_eq]
  rfl

/-- The directories above a path are written in front of it. -/
theorem through_isPrefix {cs : List Char} {init more : List (List Char)}
    (h : Written cs slashes (init ++ more) tail) : (through slashes init).chars <+: cs := by
  rw [(written_through h.slashes fun n hn => h.isPiece n (List.mem_append_left more hn)).eq, h.eq,
    List.append_nil, List.append_assoc]
  by_cases hinit : init = []
  · rw [if_pos hinit, hinit]
    rcases h.slashes with rfl | rfl <;> simp [Text.join]
  · rw [if_neg hinit]
    exact (List.prefix_append_right_inj _).mpr
      ((Text.join_isPrefix (List.prefix_append init more)).trans (List.prefix_append _ _))

/-- The parent of a path that leads from the root through names leads through all but the last one. -/
theorem parent?_eq (h : Written p.chars slashes ns tail) :
    p.parent? = if ns = [] then none else some (through slashes ns.dropLast) := by
  have hcomponents := h.components_eq
  split
  · next hns =>
      rw [parent?_eq_none_iff, hcomponents, hns]
      exact .inr rfl
  · next hns =>
      obtain ⟨init, last, rfl⟩ := (List.eq_nil_or_concat ns).resolve_left hns
      rw [List.concat_eq_append] at h hcomponents ⊢
      rw [List.dropLast_concat]
      have hinit := written_through h.slashes fun n hn => h.isPiece n (List.mem_append_left [last] hn)
      cases hparent : p.parent? with
      | none =>
          rw [parent?_eq_none_iff, hcomponents] at hparent
          simp at hparent
      | some q =>
          have habsolute := isAbsolute_of_parent? hparent (decide_eq_true h.head?_eq)
          have hq : q.components = (through slashes init).components := by
            rw [components_parent? hparent, hcomponents, hinit.components_eq, List.map_append,
              List.map_singleton, ← List.cons_append, List.dropLast_concat]
          rw [eq_of_trimmed (trimmed_of_parent? hparent habsolute)
            (hinit.trimmed fun hnone => if_pos hnone) (components_eq_components_iff.mp hq).2
            (prefix_of_parent? hparent) h.through_isPrefix]

/-- A path that leads through names and does not end in a slash ends in a name. -/
theorem endsVoid_eq (h : Written p.chars slashes ns tail) (hns : ns ≠ []) :
    p.endsVoid = decide (tail = ['/']) := by
  rcases h.tail with rfl | ⟨rfl, -⟩
  · refine (h.trimmed fun hnil => absurd hnil hns).resolve_right fun hroot => hns ?_
    rw [← h.names_eq, hroot]
    rfl
  · rw [endsVoid, h.eq, getLast?_split_append]
    rfl

end Written

/-! ### The way up -/

theorem through_slash (ns : List (List Char)) : through ['/'] ns = rooted ns := by
  rw [through]
  split
  · next hns => rw [hns]
  · rfl

theorem parent?_through_concat {slashes : List Char} {ns : List (List Char)} {n : List Char}
    (hslashes : slashes = ['/'] ∨ slashes = ['/', '/']) (hns : ∀ m ∈ ns ++ [n], IsPiece m) :
    (through slashes (ns ++ [n])).parent? = some (through slashes ns) := by
  have hwritten := written_through hslashes hns
  rw [if_neg (by simp)] at hwritten
  rw [hwritten.parent?_eq, if_neg (by simp), List.dropLast_concat]

theorem inits_concat {α : Type*} (xs : List α) (x : α) : (xs ++ [x]).inits = xs.inits ++ [xs ++ [x]] := by
  rw [List.inits_append]
  rfl

/-- The directories above one that is reached through names, nearest first. -/
theorem ancestors_through {slashes : List Char} {ns : List (List Char)}
    (hslashes : slashes = ['/'] ∨ slashes = ['/', '/']) (hns : ∀ n ∈ ns, IsPiece n) :
    (through slashes ns).ancestors = ns.inits.reverse.map (through slashes) := by
  induction ns using List.reverseRecOn with
  | nil =>
      have hroot : (through slashes []).parent? = none := by
        rw [(written_through hslashes hns).parent?_eq, if_pos rfl]
      rw [ancestors_of_parent?_eq_none hroot]
      rfl
  | append_singleton ns n ih =>
      rw [ancestors_of_parent? (parent?_through_concat hslashes hns),
        ih fun m hm => hns m (List.mem_append_left _ hm), inits_concat, List.reverse_concat,
        List.map_cons]

theorem mem_ancestors_through_iff {slashes : List Char} {ns : List (List Char)} {a : Path}
    (hslashes : slashes = ['/'] ∨ slashes = ['/', '/']) (hns : ∀ n ∈ ns, IsPiece n) :
    a ∈ (through slashes ns).ancestors ↔ ∃ ms, ms <+: ns ∧ through slashes ms = a := by
  simp [ancestors_through hslashes hns]

/-! ### Paths that are from the root already -/

theorem startOf_rooted {ns : List (List Char)} (hns : ∀ n ∈ ns, IsPiece n) (workingDirectory : Path) :
    startOf (rooted ns).chars workingDirectory = rooted [] := by
  have hhead := (written_rooted hns).head?_join_ne
  rw [List.append_nil] at hhead
  rw [show (rooted ns).chars = '/' :: Text.join ['/'] ns from String.toList_ofList]
  unfold startOf
  split
  · next heq =>
      rw [(List.cons.inj heq).2] at hhead
      exact absurd rfl hhead
  · next heq =>
      rw [(List.cons.inj heq).2] at hhead
      exact absurd rfl hhead
  · rfl
  · next hnot => exact absurd rfl (hnot _)

/-- A path from the root through names is its own path from the root. -/
theorem absolute?_rooted {ns : List (List Char)} (hns : ∀ n ∈ ns, IsPiece n) (hne : ns ≠ [])
    (workingDirectory : Path) : (rooted ns).absolute? workingDirectory = some (rooted ns) := by
  have hwritten := written_rooted hns
  have hempty : (rooted ns).chars.isEmpty = false := by simpa using hwritten.ne_nil
  have hroot : Written (rooted []).chars ['/'] [] [] := written_rooted (by simp)
  have hjoined := hroot.foldl_join hns
  rw [absolute?_eq, hempty, startOf_rooted hns, hwritten.names_eq]
  simp only [if_neg Bool.false_ne_true, if_neg (hwritten.getLast?_ne hne)]
  exact congrArg some (chars_injective (hjoined.eq.trans hwritten.eq.symm))

end LintMargin.Path
