import LatentFactor.Proofs.Json.Text
import LatentFactor.Settings.Json

set_option autoImplicit false

namespace LatentFactor.Json

section

variable {fields members : List (String × Json)} {optionals : List String} {name : String}
  {value : Json}

-- The members are the fields and others, in any order. Only an optional field that is null may be
-- left out.
inductive Gives (optionals : List String) (fields : List (String × Json)) :
    List (String × Json) → Prop
  | intro {given others members : List (String × Json)} (kept : given.Sublist fields)
      (left : ∀ field ∈ fields, field ∉ given → field.1 ∈ optionals ∧ field.2 = .null)
      (foreign : ∀ other ∈ others, other.1 ∉ fields.map Prod.fst)
      (order : members.Perm (given ++ others)) : Gives optionals fields members

theorem gives_of_perm (optionals : List String) (order : members.Perm fields) :
    Gives optionals fields members := by
  have alone : members.Perm (fields ++ []) := (List.append_nil fields).symm ▸ order
  refine .intro (List.Sublist.refl _) ?_ ?_ alone
  · exact fun field listed left => absurd listed left
  · exact fun other member => (List.not_mem_nil member).elim

theorem filter_of_nodup {given : List (String × Json)} (distinct : (given.map Prod.fst).Nodup)
    (listed : (name, value) ∈ given) : given.filter (·.1 = name) = [(name, value)] := by
  rw [← List.perm_singleton]
  refine (List.perm_ext_iff_of_nodup ?_ (List.nodup_singleton _)).mpr fun member => ?_
  · exact (List.Nodup.of_map _ distinct).filter _
  · simp only [List.mem_filter, decide_eq_true_eq, List.mem_singleton]
    constructor
    · rintro ⟨own, same⟩
      exact List.inj_on_of_nodup_map distinct own listed same
    · rintro rfl
      exact ⟨listed, rfl⟩

theorem field_of_gives (gives : Gives optionals fields members)
    (distinct : (fields.map Prod.fst).Nodup) (listed : (name, value) ∈ fields) :
    field? members name = some (some value) ∨
      (name ∈ optionals ∧ value = .null ∧ field? members name = some none) := by
  obtain ⟨kept, left, foreign, order⟩ := gives
  rename_i given others
  have known : name ∈ fields.map Prod.fst := List.mem_map_of_mem listed
  have elsewhere : others.filter (·.1 = name) = [] := by
    refine List.filter_eq_nil_iff.mpr fun other member => ?_
    simp only [decide_eq_true_eq]
    rintro rfl
    exact foreign other member known
  have own : (members.filter (·.1 = name)).Perm (given.filter (·.1 = name)) := by
    rw [← List.append_nil (given.filter _), ← elsewhere, ← List.filter_append]
    exact order.filter _
  by_cases present : (name, value) ∈ given
  · rw [filter_of_nodup (distinct.sublist (kept.map _)) present, List.perm_singleton] at own
    exact .inl (by rw [field?, own])
  · obtain ⟨optional, null⟩ := left _ listed present
    have absent : given.filter (·.1 = name) = [] := by
      refine List.filter_eq_nil_iff.mpr fun member inside => ?_
      simp only [decide_eq_true_eq]
      intro same
      have one := List.inj_on_of_nodup_map distinct (kept.subset inside) listed same
      exact present (one ▸ inside)
    rw [absent, List.perm_nil] at own
    exact .inr ⟨optional, null, by rw [field?, own]⟩

theorem required_of_gives (gives : Gives optionals fields members)
    (distinct : (fields.map Prod.fst).Nodup) (listed : (name, value) ∈ fields)
    (needed : name ∉ optionals) : required members name = some value := by
  obtain found | ⟨optional, -, -⟩ := field_of_gives gives distinct listed
  · rw [required, found]
    rfl
  · exact absurd optional needed

theorem optional_of_gives (gives : Gives optionals fields members)
    (distinct : (fields.map Prod.fst).Nodup) (listed : (name, value) ∈ fields) :
    optional members name = some value := by
  obtain found | ⟨-, rfl, absent⟩ := field_of_gives gives distinct listed
  · rw [optional, found]
    rfl
  · rw [optional, absent]
    rfl

end

theorem text_members_record (members : List (String × Json)) :
    textMembers (members.map fun member => (Piece.ofText member.1, member.2)) = some members := by
  induction members with
  | nil => rfl
  | cons member members ih =>
      rw [textMembers] at ih ⊢
      rw [List.map_cons, List.mapM_cons, ih]
      simp [Piece.decode_of_text]

theorem proper_of_visible {text : String} (visible : ∀ c ∈ text.toList, ' ' ≤ c) :
    ∀ piece ∈ Piece.ofText text, piece.Proper := by
  intro piece member
  obtain ⟨c, inside, rfl⟩ := List.mem_map.mp member
  exact visible c inside

theorem proper_record {members : List (String × Json)}
    (visible : ∀ member ∈ members, ∀ c ∈ member.1.toList, ' ' ≤ c)
    (values : ∀ member ∈ members, member.2.Proper) : (record members).Proper := by
  refine .object ?_ ?_
  · intro member listed
    obtain ⟨field, inside, rfl⟩ := List.mem_map.mp listed
    exact proper_of_visible (visible field inside)
  · intro member listed
    obtain ⟨field, inside, rfl⟩ := List.mem_map.mp listed
    exact values field inside

theorem proper_of_option {β : Type} {write : β → Json} {given : Option β}
    (each : ∀ value ∈ given, (write value).Proper) : (ofOption write given).Proper := by
  cases given with
  | none => exact .null
  | some value => exact each value rfl

section

variable {limit n : ℕ} {value : Json}

theorem to_word_nat (fits : n < limit) : toWord? limit (.nat n) = some n := by
  simp [toWord?, nat, toNat?, Digits.to_nat_of_nat, fits]

theorem lt_of_to_word (read : toWord? limit value = some n) : n < limit := by
  rw [toWord?, Option.filter_eq_some_iff] at read
  exact of_decide_eq_true read.2

theorem proper_nat (n : ℕ) : (nat n).Proper := .number (Numeral.proper_of_nat n)

end

end LatentFactor.Json
