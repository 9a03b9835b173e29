import Mathlib.Data.List.Induction
import Mathlib.Data.List.Nodup

set_option autoImplicit false

namespace LatentFactor

variable {α β : Type} [BEq α] [LawfulBEq α] [BEq β] [LawfulBEq β]

theorem erase_dups_concat_of_mem {xs : List α} {x : α} (seen : x ∈ xs) :
    (xs ++ [x]).eraseDups = xs.eraseDups := by
  have removed : [x].removeAll xs = [] := by simp [List.removeAll, seen]
  rw [List.eraseDups_append, removed, List.eraseDups_nil, List.append_nil]

theorem erase_dups_concat_of_not_mem {xs : List α} {x : α} (fresh : x ∉ xs) :
    (xs ++ [x]).eraseDups = xs.eraseDups ++ [x] := by
  have kept : [x].removeAll xs = [x] := by simp [List.removeAll, fresh]
  rw [List.eraseDups_append, kept]
  rfl

theorem erase_dups_of_nodup {xs : List α} (distinct : xs.Nodup) : xs.eraseDups = xs := by
  induction xs using List.reverseRecOn with
  | nil => rfl
  | append_singleton xs x ih =>
      rw [← List.concat_eq_append, List.nodup_concat] at distinct
      rw [erase_dups_concat_of_not_mem distinct.1, ih distinct.2]

theorem filter_erase_dups (p : α → Bool) (xs : List α) :
    xs.eraseDups.filter p = (xs.filter p).eraseDups := by
  induction xs using List.reverseRecOn with
  | nil => rfl
  | append_singleton xs x ih =>
      by_cases passes : p x = true
      · have filtered : (xs ++ [x]).filter p = xs.filter p ++ [x] := by simp [passes]
        rw [filtered]
        by_cases seen : x ∈ xs
        · rw [erase_dups_concat_of_mem seen, ih,
            erase_dups_concat_of_mem (List.mem_filter.mpr ⟨seen, passes⟩)]
        · have apart : x ∉ xs.filter p := fun member => seen (List.mem_filter.mp member).1
          rw [erase_dups_concat_of_not_mem seen, erase_dups_concat_of_not_mem apart, ← ih]
          simp [passes]
      · have filtered : (xs ++ [x]).filter p = xs.filter p := by simp [passes]
        rw [filtered, ← ih]
        by_cases seen : x ∈ xs
        · rw [erase_dups_concat_of_mem seen]
        · rw [erase_dups_concat_of_not_mem seen]
          simp [passes]

-- What is dropped first would be dropped later: its image has appeared with the member before it.
theorem erase_dups_map_erase_dups (f : α → β) (xs : List α) :
    (xs.eraseDups.map f).eraseDups = (xs.map f).eraseDups := by
  induction xs using List.reverseRecOn with
  | nil => rfl
  | append_singleton xs x ih =>
      rw [List.map_append, List.map_singleton]
      by_cases seen : x ∈ xs
      · rw [erase_dups_concat_of_mem seen, ih,
          erase_dups_concat_of_mem (List.mem_map_of_mem seen)]
      · rw [erase_dups_concat_of_not_mem seen, List.map_append, List.map_singleton]
        have same : f x ∈ xs.eraseDups.map f ↔ f x ∈ xs.map f := by
          simp only [List.mem_map, List.mem_eraseDups]
        by_cases known : f x ∈ xs.map f
        · rw [erase_dups_concat_of_mem (same.mpr known), erase_dups_concat_of_mem known, ih]
        · rw [erase_dups_concat_of_not_mem (mt same.mp known), erase_dups_concat_of_not_mem known,
            ih]

theorem erase_dups_map {f : α → β} {xs : List α}
    (injective : ∀ x ∈ xs, ∀ y ∈ xs, f x = f y → x = y) :
    (xs.map f).eraseDups = xs.eraseDups.map f := by
  induction xs using List.reverseRecOn with
  | nil => rfl
  | append_singleton xs x ih =>
      have earlier := ih fun y member z other =>
        injective y (List.mem_append_left _ member) z (List.mem_append_left _ other)
      rw [List.map_append, List.map_singleton]
      by_cases seen : x ∈ xs
      · rw [erase_dups_concat_of_mem seen, erase_dups_concat_of_mem (List.mem_map_of_mem seen),
          earlier]
      · have apart : f x ∉ xs.map f := by
          intro known
          obtain ⟨y, member, same⟩ := List.mem_map.mp known
          have last : x ∈ xs ++ [x] := List.mem_append_right _ (List.mem_singleton_self x)
          exact seen (injective y (List.mem_append_left _ member) x last same ▸ member)
        rw [erase_dups_concat_of_not_mem seen, erase_dups_concat_of_not_mem apart, earlier,
          List.map_append, List.map_singleton]

end LatentFactor
