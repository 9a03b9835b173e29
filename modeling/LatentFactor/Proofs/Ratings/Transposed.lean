import LatentFactor.Proofs.Ratings.Representation

set_option autoImplicit false

namespace LatentFactor

variable {α : Type}

theorem Table.find_eq_ok_iff {table : Table α} {side : Side} {id : EntityId}
    {entries : Entries α} : table.find side id = .ok entries ↔ table.get? id = some entries := by
  rw [find]
  cases table.get? id with
  | none => simp
  | some found => simp

namespace Resolved

def Observes (resolved : Resolved α) (side : Side) (r : Nat) (observation : Nat × α) : Prop :=
  ∃ observations, (resolved.bySide side)[r]? = some observations ∧ observation ∈ observations

structure Transposed (source : Ratings α) (numbering : Side → Numbering)
    (resolved : Resolved α) : Prop where
  ids : ∀ side r, (numbering side).id? r = (source.ids side)[r]?
  sizes : ∀ side, (resolved.bySide side).size = (source.ids side).length
  entries : ∀ side r id, (numbering side).id? r = some id →
    ∃ (entries : Entries α) (observations : Observations α),
      source.entries side id = .ok entries ∧
      (resolved.bySide side)[r]? = some observations ∧
      (observations.map fun observation =>
          ((numbering side.other).id? observation.1, observation.2)) =
        entries.map fun entry => (some entry.1, entry.2)
  mirrored : ∀ user item value, resolved.Observes .user user (item, value) ↔
    resolved.Observes .item item (user, value)
  once : ∀ (side : Side) (r : Nat) (observations : Observations α),
    (resolved.bySide side)[r]? = some observations → (observations.map Prod.fst).Nodup

theorem names_of_lists {counterparts : Numbering} {entries : Entries α}
    {observations : Observations α} (lists : Lists counterparts entries observations) :
    (observations.map fun observation => (counterparts.id? observation.1, observation.2)) =
      entries.map fun entry => (some entry.1, entry.2) := by
  induction lists with
  | nil => rfl
  | cons same _ ih =>
      obtain ⟨position, value⟩ := same
      rw [List.map_cons, List.map_cons, ih, (counterparts.get_eq_some_iff _ _).mp position, value]

theorem mem_of_lists {counterparts : Numbering} {entries : Entries α}
    {observations : Observations α} (lists : Lists counterparts entries observations)
    (row : Nat) (value : α) : (row, value) ∈ observations ↔
      ∃ id, counterparts.id? row = some id ∧ (id, value) ∈ entries := by
  induction lists with
  | nil => simp
  | @cons entry observation _ _ same _ ih =>
      obtain ⟨position, equal⟩ := same
      have own : (row, value) = observation ↔
          ∃ id, counterparts.id? row = some id ∧ (id, value) = entry := by
        constructor
        · rintro rfl
          exact ⟨entry.1, (counterparts.get_eq_some_iff _ _).mp position, Prod.ext rfl equal.symm⟩
        · rintro ⟨id, named, rfl⟩
          have found := (counterparts.get_eq_some_iff _ _).mpr named
          exact Prod.ext (Option.some.inj (found.symm.trans position)) equal
      simp only [List.mem_cons, own, ih, and_or_left, exists_or]

variable {source : Ratings α} {numbering : Side → Numbering} {resolved : Resolved α}

theorem observed_of_resolve
    (byRow : resolve source (numbering .user) (numbering .item) = .ok resolved)
    {side : Side} {r : Nat} {observations : Observations α} :
    (resolved.bySide side)[r]? = some observations →
      ∃ id entries, (numbering side).id? r = some id ∧ source.entries side id = .ok entries ∧
        Lists (numbering side.other) entries observations := by
  intro found
  have rows := (resolve_eq_ok_iff numbering).mp byRow side
  obtain ⟨within, same⟩ := Array.getElem?_eq_some_iff.mp found
  have inside : r < (numbering side).ids.toList.length := by
    rw [rows.length_eq]
    exact within
  obtain ⟨entries, given, lists⟩ := (List.forall₂_iff_get.mp rows).2 r inside within
  refine ⟨_, entries, Array.getElem?_eq_getElem inside, given, ?_⟩
  rw [← same]
  exact lists

theorem exists_observed_of_resolve
    (byRow : resolve source (numbering .user) (numbering .item) = .ok resolved)
    {side : Side} {r : Nat} {id : EntityId} (named : (numbering side).id? r = some id) :
    ∃ entries observations, source.entries side id = .ok entries ∧
      (resolved.bySide side)[r]? = some observations ∧
      Lists (numbering side.other) entries observations := by
  have inside := (Array.getElem?_eq_some_iff.mp named).1
  have within : r < (resolved.bySide side).size :=
    Nat.lt_of_lt_of_eq inside ((resolve_eq_ok_iff numbering).mp byRow side).length_eq
  have found := Array.getElem?_eq_getElem within
  obtain ⟨other, entries, again, given, lists⟩ := observed_of_resolve byRow found
  cases named.symm.trans again
  exact ⟨entries, _, given, found, lists⟩

end Resolved

namespace Store

theorem entries_eq_ok_iff {store : Store α} {side : Side} {id : EntityId} {entries : Entries α} :
    store.toRatings.entries side id = .ok entries ↔
      (store.table side).get? id = some entries := by
  rw [entries_to_ratings, Table.find_eq_ok_iff]

theorem observes_iff {store : Store α} {numbering : Side → Numbering} {resolved : Resolved α}
    (byRow : Resolved.resolve store.toRatings (numbering .user) (numbering .item) = .ok resolved)
    (side : Side) (r c : Nat) (value : α) :
    resolved.Observes side r (c, value) ↔
      ∃ id other, (numbering side).id? r = some id ∧
        (numbering side.other).id? c = some other ∧ store.Lists side id (other, value) := by
  constructor
  · rintro ⟨observations, found, member⟩
    obtain ⟨id, entries, named, given, lists⟩ := Resolved.observed_of_resolve byRow found
    obtain ⟨other, counterpart, listed⟩ := (Resolved.mem_of_lists lists c value).mp member
    exact ⟨id, other, named, counterpart, entries, entries_eq_ok_iff.mp given, listed⟩
  · rintro ⟨id, other, named, counterpart, entries, found, listed⟩
    obtain ⟨again, observations, given, observed, lists⟩ :=
      Resolved.exists_observed_of_resolve byRow named
    cases Except.ok.inj (given.symm.trans (entries_eq_ok_iff.mpr found))
    exact ⟨observations, observed, (Resolved.mem_of_lists lists c value).mpr
      ⟨other, counterpart, listed⟩⟩

theorem transposed_of_consistent {store : Store α} (consistent : store.Consistent)
    {numbering : Side → Numbering} {resolved : Resolved α}
    (numbered : ∀ side, (Numbering.ofIds side (store.toRatings.ids side) :
      Except (Error α) Numbering) = .ok (numbering side))
    (byRow : Resolved.resolve store.toRatings (numbering .user) (numbering .item) =
      .ok resolved) :
    resolved.Transposed store.toRatings numbering := by
  have listed := fun side => (Numbering.of_ids_eq_ok (numbered side)).2
  refine ⟨fun side r => ?_, fun side => ?_, fun side r id named => ?_, fun user item value => ?_,
    fun side r observations found => ?_⟩
  · rw [← listed side, Array.getElem?_toList]
    rfl
  · rw [← listed side]
    exact ((resolve_eq_ok_iff numbering).mp byRow side).length_eq.symm
  · obtain ⟨entries, observations, given, found, lists⟩ :=
      Resolved.exists_observed_of_resolve byRow named
    exact ⟨entries, observations, given, found, Resolved.names_of_lists lists⟩
  · rw [observes_iff byRow, observes_iff byRow]
    constructor
    · rintro ⟨id, other, named, counterpart, lists⟩
      exact ⟨other, id, counterpart, named, (consistent.mirrored id other value).mp lists⟩
    · rintro ⟨other, id, counterpart, named, lists⟩
      exact ⟨id, other, named, counterpart, (consistent.mirrored id other value).mpr lists⟩
  · obtain ⟨id, entries, -, given, lists⟩ := Resolved.observed_of_resolve byRow found
    have distinct := consistent.once side id entries (entries_eq_ok_iff.mp given)
    have names : (observations.map Prod.fst).map (numbering side.other).id? =
        (entries.map Prod.fst).map some := by
      have both := congrArg (List.map Prod.fst) (Resolved.names_of_lists lists)
      simpa only [List.map_map, Function.comp_def] using both
    apply List.Nodup.of_map (numbering side.other).id?
    rw [names]
    exact distinct.map (Option.some_injective EntityId)

/-- The ids of a store can be numbered and its ratings resolved by row, and the result is the same
matrix by user and by item. -/
theorem transposed_of_derived [Scalar α] (records : List (Rating α)) (store : Store α)
    (derived : Derived records store) :
    ∃ (numbering : Side → Numbering) (resolved : Resolved α),
      (∀ side, (Numbering.ofIds side (store.toRatings.ids side) : Except (Error α) Numbering) =
        .ok (numbering side)) ∧
      Resolved.resolve store.toRatings (numbering .user) (numbering .item) = .ok resolved ∧
      resolved.Transposed store.toRatings numbering := by
  have built := built_of_derived derived
  obtain ⟨ratings, filled⟩ := filled_of_built built
  obtain ⟨numbering, resolved, numbered, byRow⟩ := Ratings.exists_resolve (agrees_of_built built).1
  exact ⟨numbering, resolved, numbered, byRow,
    transposed_of_consistent (consistent_of_filled filled) numbered byRow⟩

theorem transposed_of_derived_repeated_pair :
    let records : List (Rating ℝ) := [⟨1, 2, 3⟩, ⟨4, 2, 5⟩, ⟨1, 2, 6⟩]
    let store : Store ℝ := (ofList records).addItems [7]
    Derived records store ∧
      ∃ (numbering : Side → Numbering) (resolved : Resolved ℝ),
        (∀ side, (Numbering.ofIds side (store.toRatings.ids side) :
          Except (Error ℝ) Numbering) = .ok (numbering side)) ∧
        Resolved.resolve store.toRatings (numbering .user) (numbering .item) = .ok resolved ∧
        resolved.Transposed store.toRatings numbering := by
  intro records store
  have derived : Derived records store := .addItems _ [7] .ofList
  exact ⟨derived, transposed_of_derived records store derived⟩

end Store
end LatentFactor
