import Mathlib.Data.List.Nodup
import LatentFactor.Numbering
import LatentFactor.Proofs.Sequence

set_option autoImplicit false

namespace LatentFactor.Numbering

variable {α : Type}

theorem nodup_ids (numbering : Numbering) : numbering.ids.toList.Nodup := by
  rw [List.nodup_iff_getElem?_ne_getElem?]
  intro i j below inside same
  have there : numbering.ids[j]? = some numbering.ids[j] := Array.getElem?_eq_getElem inside
  simp only [Array.getElem?_toList] at same
  have first := (numbering.consistent numbering.ids[j] i).mpr (same.trans there)
  have second := (numbering.consistent numbering.ids[j] j).mpr there
  have equal := Option.some.inj (first.symm.trans second)
  omega

theorem get_eq_none_iff (numbering : Numbering) (id : EntityId) :
    numbering.get? id = none ↔ id ∉ numbering.ids.toList := by
  rw [Option.eq_none_iff_forall_ne_some, List.mem_iff_getElem?]
  constructor
  · rintro absent ⟨row, listed⟩
    rw [Array.getElem?_toList] at listed
    exact absent row ((numbering.get_eq_some_iff id row).mpr listed)
  · intro unlisted row found
    refine unlisted ⟨row, ?_⟩
    rw [Array.getElem?_toList]
    exact (numbering.get_eq_some_iff id row).mp found

theorem contains_eq (numbering : Numbering) (id : EntityId) :
    numbering.contains id = (numbering.get? id).isSome := Std.HashMap.contains_eq_isSome_getElem?

theorem get_of_ids {numbering other : Numbering}
    (same : numbering.ids.toList = other.ids.toList) (id : EntityId) :
    numbering.get? id = other.get? id := by
  apply Option.ext
  intro row
  rw [get_eq_some_iff, get_eq_some_iff, id?, id?, ← Array.getElem?_toList, same,
    Array.getElem?_toList]

theorem exists_get {numbering : Numbering} {id : EntityId}
    (listed : id ∈ numbering.ids.toList) : ∃ row, numbering.get? id = some row := by
  apply Option.ne_none_iff_exists'.mp
  intro unknown
  exact (numbering.get_eq_none_iff id).mp unknown listed

theorem extend_eq_ok {numbering next : Numbering} {id : EntityId}
    (extended : (numbering.extend id : Except (Error α) Numbering) = .ok next) :
    next.side = numbering.side ∧ next.ids.toList = numbering.ids.toList ++ [id] := by
  unfold extend at extended
  split at extended
  · cases extended
  · cases extended
    exact ⟨rfl, Array.toList_push⟩

theorem extend_of_fresh {numbering : Numbering} {id : EntityId}
    (fresh : id ∉ numbering.ids.toList) :
    ∃ next, (numbering.extend id : Except (Error α) Numbering) = .ok next := by
  have unknown := (numbering.get_eq_none_iff id).mpr fresh
  unfold extend
  split
  · rename_i row known
    rw [unknown] at known
    cases known
  · exact ⟨_, rfl⟩

theorem extend_of_known {numbering : Numbering} {id : EntityId}
    (known : id ∈ numbering.ids.toList) :
    (numbering.extend id : Except (Error α) Numbering) =
      .error (.repeatedId numbering.side id) := by
  obtain ⟨row, found⟩ := exists_get known
  unfold extend
  split
  · rfl
  · rename_i unknown
    rw [unknown] at found
    cases found

theorem fold_extend_eq_ok {first last : Numbering} (ids : List EntityId)
    (extended : (ids.foldlM extend first : Except (Error α) Numbering) = .ok last) :
    last.side = first.side ∧ last.ids.toList = first.ids.toList ++ ids := by
  induction ids generalizing first with
  | nil =>
      cases extended
      exact ⟨rfl, (List.append_nil _).symm⟩
  | cons id ids ih =>
      obtain ⟨next, own, others⟩ := bind_eq_ok_iff.mp extended
      obtain ⟨side, listed⟩ := extend_eq_ok own
      obtain ⟨sides, rest⟩ := ih others
      exact ⟨sides.trans side, by rw [rest, listed, List.append_assoc]; rfl⟩

theorem fold_extend_of_fresh {first : Numbering} (ids : List EntityId)
    (distinct : (first.ids.toList ++ ids).Nodup) :
    ∃ last, (ids.foldlM extend first : Except (Error α) Numbering) = .ok last := by
  induction ids generalizing first with
  | nil => exact ⟨first, rfl⟩
  | cons id ids ih =>
      have fresh : id ∉ first.ids.toList := fun listed =>
        (List.nodup_append.mp distinct).2.2 id listed id (List.mem_cons_self ..) rfl
      obtain ⟨next, own⟩ := extend_of_fresh (α := α) fresh
      have listed := (extend_eq_ok own).2
      obtain ⟨last, others⟩ := ih (by rw [listed, List.append_assoc]; exact distinct)
      exact ⟨last, bind_eq_ok_iff.mpr ⟨next, own, others⟩⟩

theorem of_ids_eq_ok {side : Side} {ids : List EntityId} {numbering : Numbering}
    (numbered : (ofIds side ids : Except (Error α) Numbering) = .ok numbering) :
    numbering.side = side ∧ numbering.ids.toList = ids := by
  obtain ⟨same, listed⟩ := fold_extend_eq_ok ids numbered
  exact ⟨same, by simpa [empty] using listed⟩

theorem exists_of_ids (side : Side) {ids : List EntityId} (distinct : ids.Nodup) :
    ∃ numbering, (ofIds side ids : Except (Error α) Numbering) = .ok numbering :=
  fold_extend_of_fresh ids (by simpa [empty] using distinct)

-- The list goes on with an id that it has listed already, for the first time.
structure Repeats (ids earlier : List EntityId) (id : EntityId) : Prop where
  start : earlier ++ [id] <+: ids
  distinct : earlier.Nodup
  again : id ∈ earlier

theorem repeats_tail {first ids earlier : List EntityId} {id : EntityId}
    (repeats : Repeats (first ++ ids) (first ++ earlier) id) : earlier ++ [id] <+: ids := by
  have start := repeats.start
  rwa [List.append_assoc, List.prefix_append_right_inj] at start

theorem fold_extend_eq_error_iff {first : Numbering} {ids : List EntityId} {error : Error α} :
    ids.foldlM extend first = .error error ↔
      ∃ earlier id, Repeats (first.ids.toList ++ ids) (first.ids.toList ++ earlier) id ∧
        error = .repeatedId first.side id := by
  induction ids generalizing first with
  | nil =>
      constructor
      · intro failed
        cases failed
      · rintro ⟨earlier, id, repeats, -⟩
        have none := repeats_tail repeats
        simp at none
  | cons id ids ih =>
      rw [List.foldlM_cons, bind_eq_error_iff]
      by_cases known : id ∈ first.ids.toList
      · rw [extend_of_known known]
        constructor
        · rintro (own | ⟨next, impossible, -⟩)
          · cases own
            refine ⟨[], id, ⟨?_, ?_, ?_⟩, rfl⟩
            · simp
            · simpa using first.nodup_ids
            · simpa using known
          · cases impossible
        · rintro ⟨earlier, other, repeats, rfl⟩
          have start := repeats_tail repeats
          cases earlier with
          | nil =>
              obtain ⟨rfl, -⟩ := List.cons_prefix_cons.mp start
              exact .inl rfl
          | cons head earlier =>
              obtain ⟨rfl, -⟩ := List.cons_prefix_cons.mp start
              have apart := (List.nodup_append.mp repeats.distinct).2.2 head known head
              exact absurd rfl (apart (List.mem_cons_self ..))
      · obtain ⟨next, own⟩ := extend_of_fresh (α := α) known
        obtain ⟨side, listed⟩ := extend_eq_ok own
        have regroup : ∀ rest, first.ids.toList ++ id :: rest = next.ids.toList ++ rest := by
          simp [listed]
        rw [own, regroup ids, ← side]
        constructor
        · rintro (impossible | ⟨_, same, others⟩)
          · cases impossible
          · cases same
            obtain ⟨earlier, other, repeats, failed⟩ := ih.mp others
            exact ⟨id :: earlier, other, regroup earlier ▸ repeats, failed⟩
        · rintro ⟨earlier, other, repeats, failed⟩
          have start := repeats_tail (regroup ids ▸ repeats)
          cases earlier with
          | nil =>
              obtain ⟨rfl, -⟩ := List.cons_prefix_cons.mp start
              have again := repeats.again
              rw [List.append_nil] at again
              exact absurd again known
          | cons head earlier =>
              obtain ⟨rfl, -⟩ := List.cons_prefix_cons.mp start
              rw [regroup earlier] at repeats
              exact .inr ⟨next, rfl, ih.mpr ⟨earlier, other, repeats, failed⟩⟩

theorem of_ids_eq_error_iff {side : Side} {ids : List EntityId} {error : Error α} :
    ofIds side ids = .error error ↔
      ∃ earlier id, Repeats ids earlier id ∧ error = .repeatedId side id :=
  fold_extend_eq_error_iff

theorem row_of_eq_ok_iff {numbering : Numbering} {id : EntityId} {row : Nat} :
    (numbering.rowOf id : Except (Error α) Nat) = .ok row ↔ numbering.get? id = some row := by
  unfold rowOf
  cases numbering.get? id with
  | none => simp
  | some found => simp

end LatentFactor.Numbering
