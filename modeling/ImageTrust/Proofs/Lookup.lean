import Mathlib.Data.List.Basic

/-! # Lists of keys and values

What a list holds for a key, also after some of its keys have been taken out.
-/

namespace ImageTrust

variable {α β : Type} [BEq α] [LawfulBEq α]

theorem lookup_eq_none_iff_key {key : α} {entries : List (α × β)} :
    entries.lookup key = none ↔ key ∉ entries.map Prod.fst := by
  rw [List.lookup_eq_none_iff, List.mem_map, not_exists]
  refine forall_congr' fun entry => ?_
  rw [not_and, bne_iff_ne, ne_comm]

theorem lookup_of_mem {key : α} {value : β} {entries : List (α × β)}
    (hdistinct : (entries.map Prod.fst).Nodup) (h : (key, value) ∈ entries) :
    entries.lookup key = some value := by
  obtain ⟨before, after, rfl⟩ := List.append_of_mem h
  refine List.lookup_eq_some_iff.mpr ⟨before, after, rfl, fun entry hentry => ?_⟩
  rw [List.map_append, List.nodup_append] at hdistinct
  exact bne_iff_ne.mpr (hdistinct.2.2 _ (List.mem_map_of_mem hentry) _ List.mem_cons_self).symm

/-- What stands for a key behind a list that has the key does not count. -/
theorem lookup_append_congr {entries others front : List (α × β)} {key : α}
    (h : key ∉ front.map Prod.fst → entries.lookup key = others.lookup key) :
    (front ++ entries).lookup key = (front ++ others).lookup key := by
  rw [List.lookup_append, List.lookup_append]
  cases hkey : front.lookup key with
  | some value => rfl
  | none => rw [h (lookup_eq_none_iff_key.mp hkey)]

theorem lookup_filter_key (p : α → Bool) (key : α) (entries : List (α × β)) :
    (entries.filter fun entry => p entry.1).lookup key =
      if p key then entries.lookup key else none := by
  induction entries with
  | nil => simp
  | cons entry entries ih =>
      obtain ⟨other, value⟩ := entry
      rw [List.filter_cons]
      by_cases hkey : key = other
      · subst hkey
        cases hp : p key <;> simp [hp, ih]
      · have hne : (key == other) = false := beq_false_of_ne hkey
        split <;> simp [List.lookup_cons, hne, ih]

end ImageTrust
