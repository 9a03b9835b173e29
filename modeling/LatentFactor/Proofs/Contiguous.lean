import LatentFactor.Proofs.Distinct

set_option autoImplicit false

namespace LatentFactor

variable {α κ : Type}

-- Between two members with one key there is none with another.
def Contiguous (key : α → κ) (xs : List α) : Prop :=
  ∀ first between last, [first, between, last].Sublist xs → key first = key last →
    key between = key first

structure Groups (key : α → κ) (keys : List κ) (group : κ → List α) : Prop where
  distinct : keys.Nodup
  own : ∀ k ∈ keys, ∀ x ∈ group k, key x = k

section

variable {key : α → κ} {xs ys : List α} {k : κ} {keys : List κ} {group : κ → List α}

theorem contiguous_of_sublist (contiguous : Contiguous key ys) (part : xs.Sublist ys) :
    Contiguous key xs := fun first between last inside =>
  contiguous first between last (inside.trans part)

theorem groups_tail (groups : Groups key (k :: keys) group) : Groups key keys group where
  distinct := groups.distinct.of_cons
  own := fun j listed => groups.own j (List.mem_cons_of_mem _ listed)

theorem ne_of_later (groups : Groups key (k :: keys) group) :
    ∀ x ∈ keys.flatMap group, key x ≠ k := by
  intro x member same
  obtain ⟨j, listed, there⟩ := List.mem_flatMap.mp member
  have own := (groups_tail groups).own j listed x there
  exact (List.nodup_cons.mp groups.distinct).1 (same ▸ own ▸ listed)

theorem contiguous_of_groups (groups : Groups key keys group) :
    Contiguous key (keys.flatMap group) := by
  induction keys with
  | nil =>
      intro first between last inside
      cases inside
  | cons k keys ih =>
      have here := groups.own k (List.mem_cons_self ..)
      intro first between last inside same
      rw [List.flatMap_cons, List.sublist_append_iff] at inside
      obtain ⟨front, back, split, inFront, inBack⟩ := inside
      cases front with
      | nil =>
          cases split
          exact ih (groups_tail groups) first between last inBack same
      | cons x front =>
          obtain ⟨rfl, following⟩ := List.cons.inj split
          have one := here first (inFront.subset (List.mem_cons_self ..))
          cases front with
          | nil =>
              have whole : [between, last] = back := following
              have there : last ∈ back := by simp [← whole]
              exact absurd (same.symm.trans one)
                (ne_of_later groups last (inBack.subset there))
          | cons y front =>
              obtain ⟨rfl, -⟩ := List.cons.inj following
              exact (here between (inFront.subset (by simp))).trans one.symm

variable [DecidableEq κ]

theorem filter_groups (groups : Groups key keys group) (listed : k ∈ keys) :
    (keys.flatMap group).filter (fun x => key x = k) = group k := by
  induction keys with
  | nil => cases listed
  | cons j keys ih =>
      have here := groups.own j (List.mem_cons_self ..)
      rw [List.flatMap_cons, List.filter_append]
      by_cases same : k = j
      · subst same
        have all : (group k).filter (fun x => key x = k) = group k := by
          rw [List.filter_eq_self]
          simpa using here
        have none : (keys.flatMap group).filter (fun x => key x = k) = [] := by
          rw [List.filter_eq_nil_iff]
          simpa only [decide_eq_true_eq] using ne_of_later groups
        rw [all, none, List.append_nil]
      · have none : (group j).filter (fun x => key x = k) = [] := by
          rw [List.filter_eq_nil_iff]
          intro x member equal
          exact same ((of_decide_eq_true equal).symm.trans (here x member))
        rw [none, List.nil_append]
        exact ih (groups_tail groups) ((List.mem_cons.mp listed).resolve_left same)

theorem keys_of_groups (groups : Groups key keys group) (some : ∀ k ∈ keys, group k ≠ []) :
    ((keys.flatMap group).map key).eraseDups = keys := by
  induction keys with
  | nil => rfl
  | cons k keys ih =>
      obtain ⟨nonempty, others⟩ := List.forall_mem_cons.mp some
      obtain ⟨x, xs, made⟩ := List.exists_cons_of_ne_nil nonempty
      have here := groups.own k (List.mem_cons_self ..)
      rw [made] at here
      obtain ⟨first, repeats⟩ := List.forall_mem_cons.mp here
      -- What follows the first member of the group adds no key before the next group.
      have kept : (xs.map key ++ (keys.flatMap group).map key).filter (fun j => !j == k) =
          (keys.flatMap group).map key := by
        rw [List.filter_append, List.filter_eq_nil_iff.mpr, List.filter_eq_self.mpr,
          List.nil_append]
        · intro j member
          obtain ⟨y, there, rfl⟩ := List.mem_map.mp member
          simpa using ne_of_later groups y there
        · simpa using repeats
      rw [List.flatMap_cons, List.map_append, made, List.map_cons, List.cons_append,
        List.eraseDups_cons, first, kept, ih (groups_tail groups) others]

theorem split_of_contiguous {x : α} (contiguous : Contiguous key (x :: xs)) :
    (xs.filter fun y => key y = key x) ++ (xs.filter fun y => key y ≠ key x) = xs := by
  induction xs with
  | nil => rfl
  | cons y xs ih =>
      by_cases same : key y = key x
      · have shorter : (x :: xs).Sublist (x :: y :: xs) := (List.sublist_cons_self y xs).cons_cons x
        have rest := ih (contiguous_of_sublist contiguous shorter)
        rw [List.filter_cons_of_pos (by simpa using same),
          List.filter_cons_of_neg (by simpa using same), List.cons_append, rest]
      · have apart : ∀ z ∈ xs, key z ≠ key x := by
          intro z member equal
          have inside : [x, y, z].Sublist (x :: y :: xs) :=
            ((List.singleton_sublist.mpr member).cons_cons y).cons_cons x
          exact same (contiguous x y z inside equal.symm)
        have none : (y :: xs).filter (fun z => key z = key x) = [] := by
          rw [List.filter_eq_nil_iff]
          simpa using ⟨same, apart⟩
        have all : (y :: xs).filter (fun z => key z ≠ key x) = y :: xs := by
          rw [List.filter_eq_self]
          simpa using ⟨same, apart⟩
        rw [none, all, List.nil_append]

theorem groups_of_contiguous (contiguous : Contiguous key xs) :
    ((xs.map key).eraseDups.flatMap fun k => xs.filter fun x => key x = k) = xs := by
  induction size : xs.length using Nat.strongRecOn generalizing xs with
  | _ count ih =>
      cases xs with
      | nil => rfl
      | cons x xs =>
          let others := xs.filter fun y => key y ≠ key x
          have keys : ((x :: xs).map key).eraseDups = key x :: (others.map key).eraseDups := by
            rw [List.map_cons, List.eraseDups_cons, List.filter_map]
            simp only [others, Function.comp_def, ne_eq, decide_not]
            rfl
          have groups : ∀ k ∈ (others.map key).eraseDups,
              (x :: xs).filter (fun y => key y = k) = others.filter fun y => key y = k := by
            intro k listed
            obtain ⟨z, member, rfl⟩ := List.mem_map.mp (List.mem_eraseDups.mp listed)
            have apart : key z ≠ key x := by simpa using (List.mem_filter.mp member).2
            rw [List.filter_cons_of_neg (by simpa using Ne.symm apart), List.filter_filter]
            refine List.filter_congr fun y _ => ?_
            by_cases same : key y = key z
            · simp [same, apart]
            · simp [same]
          have fewer : others.length < count := by
            rw [← size]
            exact Nat.lt_succ_of_le (List.length_filter_le _ _)
          have part : others.Sublist (x :: xs) := List.filter_sublist.cons x
          have rest := ih others.length fewer (contiguous_of_sublist contiguous part) rfl
          rw [keys, List.flatMap_cons, List.flatMap_congr groups, rest,
            List.filter_cons_of_pos (by simp), List.cons_append]
          exact congrArg (x :: ·) (split_of_contiguous contiguous)

end

end LatentFactor
