import ImageTrust.Yaml.Document
import Mathlib.Data.Finset.Card
import Mathlib.Data.Fintype.Pigeonhole
import Mathlib.Data.Fintype.Basic

/-! # What stands for a mapping

A mapping that is tagged as a text has the text of the entry whose key is an equals sign, which may be a
mapping again. The chain of these entries ends in a text or breaks off, or it never ends; then it comes
back to one of its mappings within as many steps as there are collections.
-/

namespace ImageTrust.Yaml

/-- The text of a place that is no collection. -/
def Item.text? : Item → Option String
  | .leaf s => some s.text
  | .equals _ text => some text
  | .node _ => none

namespace Document

variable {d : Document}

/-- The entry that stands for a mapping, if there is one. -/
def standIn? (d : Document) : Item → Option Item
  | .node id =>
    match d.collection? id with
    | some (.mapping _ entries) => (entries.find? fun (key, _) => d.tagOf key = .value).map Prod.snd
    | _ => none
  | _ => none

/-- The place that some steps from a mapping to what stands for it lead to. -/
def chain (d : Document) : ℕ → Item → Option Item
  | 0, item => some item
  | steps + 1, item => (d.standIn? item).bind (d.chain steps)

theorem chain_add (i j : ℕ) (item : Item) :
    d.chain (i + j) item = (d.chain i item).bind (d.chain j) := by
  induction i generalizing item with
  | zero => rw [Nat.zero_add, chain, Option.bind_some]
  | succ i ih =>
      rw [Nat.succ_add, chain, chain]
      cases d.standIn? item with
      | none => rfl
      | some next => exact ih next

theorem isSome_chain_of_le {i j : ℕ} (hij : i ≤ j) {item : Item} (h : (d.chain j item).isSome) :
    (d.chain i item).isSome := by
  obtain ⟨k, rfl⟩ := Nat.exists_eq_add_of_le hij
  rw [chain_add] at h
  cases hchain : d.chain i item with
  | none => simp [hchain] at h
  | some _ => rfl

theorem textOf_succ_node (depth id : ℕ) : d.textOf (depth + 1) (.node id) =
    match d.standIn? (.node id) with
    | some item => d.textOf depth item
    | none => .error .malformed := by
  rw [textOf, standIn?]
  cases d.collection? id with
  | none => rfl
  | some collection =>
      cases collection with
      | sequence tag items => rfl
      | mapping tag entries =>
          dsimp only
          cases entries.find? fun (key, _) => d.tagOf key = .value <;> rfl

/-- A text is missed for lack of steps exactly if the chain does not end within them. -/
theorem textOf_eq_endlessText_iff (depth : ℕ) (item : Item) :
    d.textOf depth item = .error .endlessText ↔ (d.chain depth item).isSome := by
  induction depth generalizing item with
  | zero => simp [textOf, chain]
  | succ depth ih =>
      rw [chain]
      cases item with
      | leaf s => simp [textOf, standIn?]
      | equals number text => simp [textOf, standIn?]
      | node id =>
          rw [textOf_succ_node]
          cases d.standIn? (.node id) with
          | none => simp
          | some item => exact ih item

/-- A text that is found is that of the place at the end of the chain. -/
theorem exists_chain_of_textOf_eq_ok {depth : ℕ} {item : Item} {text : String}
    (h : d.textOf depth item = .ok text) :
    ∃ steps place, d.chain steps item = some place ∧ place.text? = some text := by
  induction depth generalizing item with
  | zero => cases h
  | succ depth ih =>
      cases item with
      | leaf s =>
          cases h
          exact ⟨0, .leaf s, rfl, rfl⟩
      | equals number text =>
          cases h
          exact ⟨0, .equals number text, rfl, rfl⟩
      | node id =>
          rw [textOf_succ_node] at h
          cases hnext : d.standIn? (.node id) with
          | none => simp [hnext] at h
          | some item =>
              rw [hnext] at h
              obtain ⟨steps, place, hchain, htext⟩ := ih h
              exact ⟨steps + 1, place, by rw [chain, hnext, Option.bind_some, hchain], htext⟩

/-! ## Chains that never end -/

theorem isSome_chain_of_cycle {steps : ℕ} {item : Item} (h : d.chain (steps + 1) item = some item)
    (n : ℕ) : (d.chain n item).isSome := by
  have hround : ∀ rounds, d.chain (rounds * (steps + 1)) item = some item := by
    intro rounds
    induction rounds with
    | zero => rw [Nat.zero_mul, chain]
    | succ rounds ih => rw [Nat.succ_mul, chain_add, ih, Option.bind_some, h]
  refine isSome_chain_of_le (Nat.le_mul_of_pos_right n (Nat.succ_pos steps)) ?_
  rw [hround n]
  rfl

theorem isSome_chain_of_eq {i j : ℕ} (hij : i < j) {item : Item}
    (heq : d.chain i item = d.chain j item) (hi : (d.chain i item).isSome) (n : ℕ) :
    (d.chain n item).isSome := by
  obtain ⟨steps, rfl⟩ := Nat.exists_eq_add_of_lt hij
  obtain ⟨place, hplace⟩ := Option.isSome_iff_exists.mp hi
  have hcycle : d.chain (steps + 1) place = some place := by
    rw [Nat.add_assoc, chain_add, hplace, Option.bind_some] at heq
    exact heq.symm
  refine isSome_chain_of_le (Nat.le_add_left n i) ?_
  rw [chain_add, hplace, Option.bind_some]
  exact isSome_chain_of_cycle hcycle n

/-- Something stands for collections of the document only. -/
theorem mem_of_standIn? {item next : Item} (h : d.standIn? item = some next) :
    item ∈ d.collections.map fun entry => Item.node entry.1 := by
  cases item with
  | node id =>
      rw [standIn?] at h
      split at h
      · next hid =>
          obtain ⟨before, after, heq, -⟩ := List.lookup_eq_some_iff.mp hid
          exact List.mem_map.mpr ⟨_, by rw [heq]; exact List.mem_append_right _ List.mem_cons_self, rfl⟩
      · cases h
  | _ => cases h

theorem mem_of_isSome_chain_succ {i : ℕ} {item : Item} (h : (d.chain (i + 1) item).isSome) :
    d.chain i item ∈ d.collections.map fun entry => some (Item.node entry.1) := by
  rw [chain_add] at h
  cases hplace : d.chain i item with
  | none => simp [hplace] at h
  | some place =>
      simp only [hplace, Option.bind_some, chain] at h
      cases hnext : d.standIn? place with
      | none => simp [hnext] at h
      | some next => simpa using mem_of_standIn? hnext

/-- A chain that goes on for one step more than there are collections never ends. -/
theorem isSome_chain {item : Item} (h : (d.chain (d.collections.length + 1) item).isSome) (n : ℕ) :
    (d.chain n item).isSome := by
  have hmaps : Set.MapsTo (fun i => d.chain i item) (Finset.range (d.collections.length + 1))
      (d.collections.map fun entry => some (Item.node entry.1)).toFinset := by
    intro i hi
    rw [Finset.coe_range, Set.mem_Iio] at hi
    rw [Finset.mem_coe, List.mem_toFinset]
    exact mem_of_isSome_chain_succ (isSome_chain_of_le hi h)
  have hcard : (d.collections.map fun entry => some (Item.node entry.1)).toFinset.card <
      (Finset.range (d.collections.length + 1)).card := by
    rw [Finset.card_range, Nat.lt_succ_iff]
    exact (List.toFinset_card_le _).trans (List.length_map _).le
  -- there are more steps than collections to be at, so the chain is at one of them twice
  obtain ⟨i, hi, j, hj, hne, heq⟩ := Finset.exists_ne_map_eq_of_card_lt_of_maps_to hcard hmaps
  have hsome : ∀ k ∈ Finset.range (d.collections.length + 1), (d.chain k item).isSome :=
    fun k hk => isSome_chain_of_le (Finset.mem_range.mp hk).le h
  rcases Nat.lt_or_gt_of_ne hne with hlt | hgt
  · exact isSome_chain_of_eq hlt heq (hsome i hi) n
  · exact isSome_chain_of_eq hgt heq.symm (hsome j hj) n

end Document

end ImageTrust.Yaml
