import LintMargin.Ignore.Rules
import LintMargin.Proofs.Path.Absolute

/-!
# Which paths rules can judge

Rules can judge a path that is written with their root in front. Rules that were read from two spellings of
one file judge alike wherever both can.
-/

namespace LintMargin.Ignore.Rules

variable {r r' : Rules} {path : Path}

theorem isIgnored_of_rules_eq_nil (h : r.rules = []) : r.isIgnored path = false := by
  have hverdict : ∀ p b, r.verdict? p b = none := fun p b => by simp [verdict?, h]
  unfold isIgnored
  split
  · split
    · rfl
    · next directories _ =>
        have hnone : directories.findSome? (fun d => r.verdict? d true) = none :=
          List.findSome?_eq_none_iff.mpr fun d _ => hverdict d true
        rw [hverdict, hnone]
        rfl
  · rfl

theorem relative_of_not_written (h : ¬ r.root.chars <+: path.chars) : r.relative path = path := by
  rw [relative, if_neg (by simpa using h)]

theorem prefix_of_canJudge (h : r.canJudge path = true) (hrules : r.rules ≠ [])
    (hstarts : path.startsWith r.root = true) (habsolute : path.isAbsolute = true) :
    r.root.chars <+: path.chars := by
  by_contra hnot
  simp [canJudge, hrules, hstarts, relative_of_not_written hnot, habsolute] at h

/-- Rules from two spellings of one file judge alike. -/
theorem isIgnored_congr (hrules : r.rules = r'.rules) (hroot : r.root.components = r'.root.components)
    (htrimmed : r.root.Trimmed) (htrimmed' : r'.root.Trimmed) (habsolute : path.isAbsolute = true)
    (h : r.canJudge path = true) (h' : r'.canJudge path = true) :
    r.isIgnored path = r'.isIgnored path := by
  have hstarts : path.startsWith r.root = path.startsWith r'.root := by
    rw [Path.startsWith, Path.startsWith, hroot]
  by_cases hnone : r.rules = []
  · rw [isIgnored_of_rules_eq_nil hnone, isIgnored_of_rules_eq_nil (hrules ▸ hnone)]
  · by_cases hbelow : path.startsWith r.root = true
    · have hinfront := prefix_of_canJudge h hnone hbelow habsolute
      have hinfront' := prefix_of_canJudge h' (hrules ▸ hnone) (hstarts ▸ hbelow) habsolute
      have hsame : r.root = r'.root := Path.eq_of_trimmed htrimmed htrimmed'
        (Path.components_eq_components_iff.mp hroot).2 hinfront hinfront'
      have : r = r' := by
        cases r
        cases r'
        exact congr (congrArg Rules.mk hsame) hrules
      rw [this]
    · rw [isIgnored, isIgnored, if_neg hbelow, if_neg (hstarts ▸ hbelow)]

/-- What rules say depends on the path below their root only. -/
theorem isIgnored_congr_relative {path' : Path} (hrules : r.rules = r'.rules)
    (hstarts : path.startsWith r.root = true) (hstarts' : path'.startsWith r'.root = true)
    (hrelative : r.relative path = r'.relative path') : r.isIgnored path = r'.isIgnored path' := by
  rw [isIgnored, isIgnored, if_pos hstarts, if_pos hstarts', hrelative]
  simp only [verdict?, hrules]

/-- The path below a directory on its way holds the names behind that directory. -/
theorem relative_through {slashes : List Char} {ns more : List (List Char)}
    (hwritten : Path.Written path.chars slashes (ns ++ more) []) (hmore : more ≠ [])
    (hroot : r.root = Path.through slashes ns) :
    path.startsWith r.root = true ∧ r.relative path = ⟨String.ofList (Text.join ['/'] more)⟩ := by
  have hns : ∀ n ∈ ns, Path.IsPiece n := fun n hn => hwritten.isPiece n (List.mem_append_left _ hn)
  have hthrough := Path.written_through hwritten.slashes hns
  have hinfront := hwritten.through_isPrefix
  refine ⟨?_, ?_⟩
  · rw [Path.startsWith, hroot, hwritten.components_eq, hthrough.components_eq, List.map_append]
    simp
  · rw [relative, hroot, if_pos (List.isPrefixOf_iff_prefix.mpr hinfront)]
    have hchars := hwritten.eq
    have hrootchars := hthrough.eq
    rw [List.append_nil] at hchars hrootchars
    by_cases hnone : ns = []
    · subst hnone
      rw [if_pos rfl, Text.join, List.append_nil] at hrootchars
      rw [hrootchars, hchars, List.nil_append]
      have hhead := hwritten.head?_join_ne
      rw [List.append_nil, List.nil_append] at hhead
      rcases hwritten.slashes with rfl | rfl
      · simp only [List.length_singleton, List.singleton_append, List.drop_one, List.tail_cons]
        split
        · next rest heq =>
            rw [heq] at hhead
            exact absurd rfl hhead
        · rfl
      · rfl
    · rw [if_neg hnone] at hrootchars
      have hbehind : path.chars = (Path.through slashes ns).chars ++ '/' :: Text.join ['/'] more := by
        rw [hchars, hrootchars, Text.join_append hnone hmore]
        simp
      rw [hbehind, List.drop_left]
      rfl

/-- Behind the root comes at most one slash. -/
theorem not_double_slash_behind {slashes tail rest more : List Char} {ns : List (List Char)}
    (hwritten : Path.Written path.chars slashes ns tail) (htrimmed : r.root.Trimmed)
    (hrest : r.root.chars ++ rest = path.chars) : rest ≠ '/' :: '/' :: more := by
  rintro rfl
  rcases htrimmed with hnamed | hroot
  · -- A piece that names nothing would come after one that does.
    obtain ⟨init, last, hsplit, hlast⟩ := Path.exists_concat_of_not_endsVoid hnamed
    have hvoids := hwritten.voids_first
    rw [← hrest, Text.split_append, Text.split_separator, hsplit,
      List.dropLast_append_of_ne_nil (by simp),
      List.dropLast_cons_of_ne_nil (Text.split_ne_nil '/' more)] at hvoids
    have hvoid := (List.pairwise_append.mp hvoids).2.2 last (by simp) [] (by simp) rfl
    rw [hlast] at hvoid
    cases hvoid
  · have hhead := hwritten.head?_join_ne
    rw [hroot, hwritten.eq, List.append_assoc] at hrest
    rcases hwritten.slashes with rfl | rfl
    · have hjoin : '/' :: '/' :: more = Text.join ['/'] ns ++ tail := List.cons.inj hrest |>.2
      exact hhead (by rw [← hjoin]; rfl)
    · have hjoin : '/' :: more = Text.join ['/'] ns ++ tail :=
        (List.cons.inj (List.cons.inj hrest).2).2
      exact hhead (by rw [← hjoin]; rfl)

/-- Rules can judge a path from the root that is written with their root in front. -/
theorem canJudge_of_written {slashes tail : List Char} {ns : List (List Char)}
    (hwritten : Path.Written path.chars slashes ns tail) (htrimmed : r.root.Trimmed)
    (hinfront : r.root.chars <+: path.chars) : r.canJudge path = true := by
  obtain ⟨rest, hrest⟩ := hinfront
  have hrelative : (r.relative path).isAbsolute = false := by
    rw [relative, if_pos (by rw [← hrest]; simp), ← hrest, List.drop_left]
    split
    · next after =>
        refine decide_eq_false fun hhead => ?_
        rw [Path.chars, String.toList_ofList] at hhead
        obtain ⟨more, rfl⟩ := List.head?_eq_some_iff.mp hhead
        exact not_double_slash_behind hwritten htrimmed hrest rfl
    · next hnot =>
        refine decide_eq_false fun hhead => ?_
        rw [Path.chars, String.toList_ofList] at hhead
        obtain ⟨more, rfl⟩ := List.head?_eq_some_iff.mp hhead
        exact hnot more rfl
  simp [canJudge, hrelative]

end LintMargin.Ignore.Rules
