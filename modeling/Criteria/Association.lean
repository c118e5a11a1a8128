/-!
Lists of pairs as finite maps. Putting a value under a key takes the place of the one that was there, or goes behind
all others, so keys that were distinct stay distinct.
-/

namespace Criteria.Association

variable {κ α : Type} [DecidableEq κ]

def put (key : κ) (value : α) : List (κ × α) → List (κ × α)
  | [] => [(key, value)]
  | (other, kept) :: rest => if other = key then (key, value) :: rest else (other, kept) :: put key value rest

theorem lookup_put_self (key : κ) (value : α) (pairs : List (κ × α)) :
    (put key value pairs).lookup key = some value := by
  induction pairs with
  | nil => simp [put]
  | cons pair rest ih =>
    obtain ⟨other, kept⟩ := pair
    unfold put
    split
    · simp
    · next different =>
      rw [List.lookup_cons, beq_false_of_ne (Ne.symm different)]
      exact ih

theorem lookup_put_of_ne {key other : κ} (different : other ≠ key) (value : α) (pairs : List (κ × α)) :
    (put key value pairs).lookup other = pairs.lookup other := by
  induction pairs with
  | nil => simp [put, List.lookup_cons, beq_false_of_ne different]
  | cons pair rest ih =>
    obtain ⟨first, kept⟩ := pair
    unfold put
    split
    · next same =>
      subst same
      simp [List.lookup_cons, beq_false_of_ne different]
    · simp only [List.lookup_cons, ih]

theorem mem_put {key : κ} {value : α} {pair : κ × α} {pairs : List (κ × α)} (member : pair ∈ put key value pairs) :
    pair = (key, value) ∨ pair ∈ pairs := by
  induction pairs with
  | nil => exact .inl (List.mem_singleton.mp member)
  | cons first rest ih =>
    obtain ⟨other, kept⟩ := first
    unfold put at member
    split at member
    · exact (List.mem_cons.mp member).imp_right (List.mem_cons_of_mem _)
    · rcases List.mem_cons.mp member with rfl | later
      · exact .inr List.mem_cons_self
      · exact (ih later).imp_right (List.mem_cons_of_mem _)

theorem mem_keys_put {key other : κ} {value : α} {pairs : List (κ × α)}
    (member : other ∈ (put key value pairs).map Prod.fst) : other = key ∨ other ∈ pairs.map Prod.fst := by
  obtain ⟨pair, inside, rfl⟩ := List.mem_map.mp member
  rcases mem_put inside with rfl | kept
  · exact .inl rfl
  · exact .inr (List.mem_map_of_mem kept)

theorem nodup_keys_put (key : κ) (value : α) {pairs : List (κ × α)} (distinct : (pairs.map Prod.fst).Nodup) :
    ((put key value pairs).map Prod.fst).Nodup := by
  induction pairs with
  | nil => simp [put]
  | cons pair rest ih =>
    obtain ⟨first, kept⟩ := pair
    rw [List.map_cons, List.nodup_cons] at distinct
    unfold put
    split
    · next same =>
      subst same
      simpa using distinct
    · next different =>
      rw [List.map_cons, List.nodup_cons]
      refine ⟨fun member => ?_, ih distinct.2⟩
      rcases mem_keys_put member with same | earlier
      · exact different same
      · exact distinct.1 earlier

theorem put_of_fresh {key : κ} {pairs : List (κ × α)} (fresh : key ∉ pairs.map Prod.fst) (value : α) :
    put key value pairs = pairs ++ [(key, value)] := by
  induction pairs with
  | nil => rfl
  | cons pair rest ih =>
    rw [List.map_cons, List.mem_cons, not_or] at fresh
    rw [put, if_neg (Ne.symm fresh.1), ih fresh.2, List.cons_append]

theorem lookup_eq_none_iff_not_mem {key : κ} {pairs : List (κ × α)} :
    pairs.lookup key = none ↔ key ∉ pairs.map Prod.fst := by
  induction pairs with
  | nil => simp
  | cons pair rest ih =>
    obtain ⟨other, kept⟩ := pair
    rw [List.lookup_cons, List.map_cons, List.mem_cons, not_or, ← ih]
    by_cases same : key = other
    · simp [same]
    · simp [same, beq_false_of_ne same]

theorem lookup_eq_some_iff_mem {key : κ} {value : α} {pairs : List (κ × α)}
    (distinct : (pairs.map Prod.fst).Nodup) : pairs.lookup key = some value ↔ (key, value) ∈ pairs := by
  induction pairs with
  | nil => simp
  | cons pair rest ih =>
    obtain ⟨other, kept⟩ := pair
    rw [List.map_cons, List.nodup_cons] at distinct
    rw [List.lookup_cons, List.mem_cons]
    by_cases same : key = other
    · subst same
      have later : (key, value) ∉ rest := fun member => distinct.1 (List.mem_map.mpr ⟨_, member, rfl⟩)
      simp [later, eq_comm]
    · rw [beq_false_of_ne same]
      simp [same, ih distinct.2]

theorem lookup_perm {first second : List (κ × α)} (distinct : (first.map Prod.fst).Nodup) (order : first.Perm second)
    (key : κ) : first.lookup key = second.lookup key := by
  have distinct' : (second.map Prod.fst).Nodup := (order.map Prod.fst).nodup_iff.mp distinct
  apply Option.ext
  intro value
  rw [lookup_eq_some_iff_mem distinct, lookup_eq_some_iff_mem distinct', order.mem_iff]

end Criteria.Association
