import LintMargin.Json.Written

/-!
# Members of an object

Merging members is by key: what both sides have comes from the second. That holds of members in ascending
order, and the members of every object that is read from a text are.
-/

namespace LintMargin

namespace Members

/-- One member for each key, in key order. -/
def Ascending (members : Members) : Prop := members.Pairwise fun a b => a.1 < b.1

theorem ascending_nil : Ascending [] := .nil

theorem mem_insert {key : String} {value : Json} {m : String × Json} {members : Members}
    (h : m ∈ insert key value members) : m = (key, value) ∨ m ∈ members := by
  induction members with
  | nil => simpa [insert] using h
  | cons head rest ih =>
      simp only [insert] at h
      split at h
      · simpa using h
      · split at h
        · rcases List.mem_cons.mp h with h | h
          · exact .inl h
          · exact .inr (List.mem_cons_of_mem _ h)
        · rcases List.mem_cons.mp h with h | h
          · exact .inr (h ▸ List.mem_cons_self)
          · exact (ih h).imp_right (List.mem_cons_of_mem _)

theorem Ascending.insert {members : Members} (h : members.Ascending) (key : String) (value : Json) :
    (members.insert key value).Ascending := by
  induction members with
  | nil => exact List.pairwise_singleton _ _
  | cons head rest ih =>
      obtain ⟨habove, hrest⟩ := List.pairwise_cons.mp h
      simp only [Members.insert]
      split
      · next hlt =>
          refine List.pairwise_cons.mpr ⟨fun m hm => ?_, h⟩
          rcases List.mem_cons.mp hm with rfl | hm
          · exact hlt
          · exact String.lt_trans hlt (habove m hm)
      · next hnot =>
          split
          · next heq => exact List.pairwise_cons.mpr ⟨fun m hm => heq ▸ habove m hm, hrest⟩
          · next hne =>
              have hlt : head.1 < key :=
                Std.lt_of_le_of_ne (Std.not_lt.mp hnot) (Ne.symm hne)
              refine List.pairwise_cons.mpr ⟨fun m hm => ?_, ih hrest⟩
              rcases mem_insert hm with rfl | hm
              · exact hlt
              · exact habove m hm

theorem Ascending.merge {base : Members} (hbase : base.Ascending) (top : Members) :
    (base.merge top).Ascending :=
  List.foldlRecOn top _ hbase fun _ hacc m _ => hacc.insert m.1 m.2

theorem mem_merge {base top : Members} {m : String × Json} (h : m ∈ base.merge top) :
    m ∈ base ∨ m ∈ top := by
  induction top generalizing base with
  | nil => exact .inl h
  | cons head rest ih =>
      rcases ih h with h | h
      · rcases mem_insert h with rfl | h
        · exact .inr List.mem_cons_self
        · exact .inl h
      · exact .inr (List.mem_cons_of_mem _ h)

theorem ascending_ofList (members : List (String × Json)) : (ofList members).Ascending :=
  ascending_nil.merge members

theorem Ascending.erase {members : Members} (h : members.Ascending) (key : String) :
    (members.erase key).Ascending :=
  h.filter _

theorem mem_of_get?_eq_some {key : String} {value : Json} {members : Members}
    (h : members.get? key = some value) : (key, value) ∈ members := by
  induction members with
  | nil => cases h
  | cons m rest ih =>
      obtain ⟨k, v⟩ := m
      rw [get?] at h
      split at h
      · next hkey =>
          subst hkey
          exact Option.some.inj h ▸ List.mem_cons_self
      · exact List.mem_cons_of_mem _ (ih h)

/-- The first member of ascending members is the only one with its key. -/
theorem Ascending.get?_rest {m : String × Json} {rest : Members} (h : Ascending (m :: rest)) :
    get? m.1 rest = none := by
  cases hget : get? m.1 rest with
  | none => rfl
  | some value =>
      have hlt := List.rel_of_pairwise_cons h (mem_of_get?_eq_some hget)
      exact absurd hlt (String.lt_irrefl m.1)

theorem get?_merge {top : Members} (htop : top.Ascending) (base : Members) (key : String) :
    (base.merge top).get? key = (top.get? key).or (base.get? key) := by
  induction top generalizing base with
  | nil => rfl
  | cons m rest ih =>
      obtain ⟨k, v⟩ := m
      change get? key (merge (insert k v base) rest) = _
      rw [ih (List.Pairwise.of_cons htop), get?_insert, get?]
      split
      · next hkey =>
          subst hkey
          rw [htop.get?_rest]
          rfl
      · rfl

/-- Members in ascending order, and so those of every object among the values. -/
structure Tidy (members : Members) : Prop where
  ascending : members.Ascending
  inner : ∀ key (inner : Members), members.get? key = some (.object inner) → inner.Ascending

theorem tidy_nil : Tidy [] := ⟨ascending_nil, fun _ _ h => by cases h⟩

theorem Tidy.erase {members : Members} (h : members.Tidy) (key : String) :
    (members.erase key).Tidy := by
  refine ⟨h.ascending.erase key, fun k inner hinner => ?_⟩
  rw [get?_erase] at hinner
  split at hinner
  · cases hinner
  · exact h.inner k inner hinner

end Members

theorem Json.eq_object_of_object? {value : Json} {members : Members} (h : value.object? = some members) :
    value = .object members := by
  cases value with
  | object => exact congrArg Json.object (Option.some.inj h)
  | null | bool | number | string | array => cases h

namespace Json.Written

/-- An object is made of the values of what is written as its members. -/
theorem exists_memberValues? {w : Written} {members : Members}
    (h : w.value? = some (.object members)) :
    ∃ written values, memberValues? written = some values ∧ members = Members.ofList values := by
  cases w with
  | object written =>
      rw [value?, Option.map_eq_some_iff] at h
      obtain ⟨values, hvalues, h⟩ := h
      cases h
      exact ⟨written, values, hvalues, rfl⟩
  | null | bool => cases h
  | number | string | array =>
      rw [value?, Option.map_eq_some_iff] at h
      obtain ⟨_, -, h⟩ := h
      cases h

theorem ascending_of_value? {w : Written} {members : Members} (h : w.value? = some (.object members)) :
    members.Ascending := by
  obtain ⟨-, values, -, rfl⟩ := exists_memberValues? h
  exact Members.ascending_ofList values

theorem exists_of_mem_memberValues? {written : List (Option String × Written)}
    {values : List (String × Json)} (h : memberValues? written = some values) {m : String × Json}
    (hm : m ∈ values) : ∃ w : Written, w.value? = some m.2 := by
  induction written generalizing values with
  | nil =>
      cases h
      cases hm
  | cons head rest ih =>
      obtain ⟨key, item⟩ := head
      simp only [memberValues?, Option.bind_eq_bind, Option.bind_eq_some_iff] at h
      obtain ⟨k, -, v, hv, vs, hvs, h⟩ := h
      cases h
      rcases List.mem_cons.mp hm with rfl | hm
      · exact ⟨item, hv⟩
      · exact ih hvs hm

/-- What is read from a text is tidy. -/
theorem tidy_of_value? {w : Written} {members : Members} (h : w.value? = some (.object members)) :
    members.Tidy := by
  refine ⟨ascending_of_value? h, fun key inner hinner => ?_⟩
  obtain ⟨written, values, hvalues, rfl⟩ := exists_memberValues? h
  rcases Members.mem_merge (Members.mem_of_get?_eq_some hinner) with hm | hm
  · cases hm
  · obtain ⟨item, hitem⟩ := exists_of_mem_memberValues? hvalues hm
    exact ascending_of_value? hitem

end Json.Written

end LintMargin
