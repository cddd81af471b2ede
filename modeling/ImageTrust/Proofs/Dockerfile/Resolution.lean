import ImageTrust.Dockerfile.Stage
import Mathlib.Data.List.Basic

/-! # Stages that name earlier stages -/

namespace ImageTrust.Dockerfile

variable {stages : List Stage}

/-! ## References -/

/-- The stage at an index has a name, and this is the image `image` up to case. -/
def CalledAt (stages : List Stage) (image : String) (j : ℕ) : Prop :=
  ∃ stage name, stages[j]? = some stage ∧ stage.name = some name ∧ name ≠ "" ∧
    Text.lowercase name = Text.lowercase image

/-- What the image of the stage at an index stands for. The latest earlier stage of that name is
followed, however often; an image that names no earlier stage is meant itself. -/
inductive ResolvesTo (stages : List Stage) : ℕ → String → Prop
  | image {i : ℕ} {stage : Stage} (hi : stages[i]? = some stage)
      (unnamed : ∀ j < i, ¬ CalledAt stages stage.image j) :
      ResolvesTo stages i stage.image
  | reference {i j : ℕ} {stage : Stage} {image : String} (hi : stages[i]? = some stage)
      (earlier : j < i) (called : CalledAt stages stage.image j)
      (latest : ∀ k, j < k → k < i → ¬ CalledAt stages stage.image k) :
      ResolvesTo stages j image → ResolvesTo stages i image

/-- A stage is built on one image only. -/
theorem ResolvesTo.unique {i : ℕ} {image other : String} (h : ResolvesTo stages i image)
    (h' : ResolvesTo stages i other) : image = other := by
  induction h generalizing other with
  | image hi unnamed =>
      cases h' with
      | image hi' _ =>
          rw [hi] at hi'
          cases hi'
          rfl
      | reference hi' earlier called _ _ =>
          rw [hi] at hi'
          cases hi'
          exact absurd called (unnamed _ earlier)
  | @reference i j stage image hi earlier called latest _ ih =>
      cases h' with
      | image hi' unnamed =>
          rw [hi] at hi'
          cases hi'
          exact absurd called (unnamed _ earlier)
      | @reference _ j' _ _ hi' earlier' called' latest' hj' =>
          rw [hi] at hi'
          cases hi'
          rcases Nat.lt_trichotomy j j' with hlt | rfl | hgt
          · exact absurd called' (latest _ hlt earlier')
          · exact ih hj'
          · exact absurd called (latest' _ hgt earlier)

/-! ## The names known after some stages -/

/-- A table holds, for every name among the first `n` stages, the image of the latest stage of that
name. -/
structure Known (stages : List Stage) (n : ℕ) (named : Variables) : Prop where
  found : ∀ image base, named.lookup (Text.lowercase image) = some base →
    ∃ j < n, CalledAt stages image j ∧ (∀ k, j < k → k < n → ¬ CalledAt stages image k) ∧
      ResolvesTo stages j base
  missing : ∀ image, named.lookup (Text.lowercase image) = none →
    ∀ j < n, ¬ CalledAt stages image j

theorem known_nil (stages : List Stage) : Known stages 0 [] :=
  ⟨by simp, by simp⟩

theorem Known.resolvesTo {n : ℕ} {named : Variables} {stage : Stage} (h : Known stages n named)
    (hn : stages[n]? = some stage) : ResolvesTo stages n (resolvedImage named stage) := by
  rw [resolvedImage]
  cases hlookup : named.lookup (Text.lowercase stage.image) with
  | none => exact .image hn (h.missing _ hlookup)
  | some base =>
      obtain ⟨j, hj, called, latest, hbase⟩ := h.found _ _ hlookup
      exact .reference hn hj called latest hbase

/-- A stage without a name of its own leaves the table as it is. -/
theorem Known.succ {n : ℕ} {named : Variables} (h : Known stages n named)
    (hn : ∀ image, ¬ CalledAt stages image n) : Known stages (n + 1) named := by
  refine ⟨?_, ?_⟩
  · intro image base hlookup
    obtain ⟨j, hj, called, latest, hbase⟩ := h.found image base hlookup
    refine ⟨j, by omega, called, ?_, hbase⟩
    intro k hjk hk
    rcases Nat.lt_succ_iff_lt_or_eq.mp hk with hk | rfl
    · exact latest k hjk hk
    · exact hn image
  · intro image hlookup j hj
    rcases Nat.lt_succ_iff_lt_or_eq.mp hj with hj | rfl
    · exact h.missing image hlookup j hj
    · exact hn image

/-- The name of a stage hides the earlier stages of the same name. -/
theorem Known.cons {n : ℕ} {named : Variables} {stage : Stage} {name base : String}
    (h : Known stages n named) (hn : stages[n]? = some stage) (hname : stage.name = some name)
    (hne : name ≠ "") (hbase : ResolvesTo stages n base) :
    Known stages (n + 1) ((Text.lowercase name, base) :: named) := by
  have hcalled : ∀ image, CalledAt stages image n ↔ Text.lowercase name = Text.lowercase image := by
    intro image
    refine ⟨?_, fun heq => ⟨stage, name, hn, hname, hne, heq⟩⟩
    rintro ⟨stage', name', hn', hname', _, heq⟩
    rw [hn] at hn'
    cases hn'
    rw [hname] at hname'
    cases hname'
    exact heq
  refine ⟨?_, ?_⟩
  · intro image image' hlookup
    rw [List.lookup_cons] at hlookup
    by_cases heq : Text.lowercase image = Text.lowercase name
    · simp only [heq, beq_self_eq_true, Option.some.injEq] at hlookup
      subst hlookup
      exact ⟨n, by omega, (hcalled image).mpr heq.symm, fun k _ _ => by omega, hbase⟩
    · rw [beq_false_of_ne heq] at hlookup
      obtain ⟨j, hj, called, latest, hj'⟩ := h.found image image' hlookup
      refine ⟨j, by omega, called, ?_, hj'⟩
      intro k hjk hk
      rcases Nat.lt_succ_iff_lt_or_eq.mp hk with hk | rfl
      · exact latest k hjk hk
      · exact fun hk' => heq ((hcalled image).mp hk').symm
  · intro image hlookup j hj
    rw [List.lookup_cons] at hlookup
    by_cases heq : Text.lowercase image = Text.lowercase name
    · simp [heq] at hlookup
    · rw [beq_false_of_ne heq] at hlookup
      rcases Nat.lt_succ_iff_lt_or_eq.mp hj with hj | rfl
      · exact h.missing image hlookup j hj
      · exact fun hj' => heq ((hcalled image).mp hj').symm

theorem Known.nameStage {n : ℕ} {named : Variables} {stage : Stage} (h : Known stages n named)
    (hn : stages[n]? = some stage) : Known stages (n + 1) (nameStage named stage) := by
  have hnot : (∀ name, stage.name = some name → name = "") →
      ∀ image, ¬ CalledAt stages image n := by
    rintro hname image ⟨stage', name, hn', hname', hne, _⟩
    rw [hn] at hn'
    cases hn'
    exact hne (hname name hname')
  rw [Dockerfile.nameStage]
  split
  · next hname => exact h.succ (hnot (by simp [hname]))
  · next name hname =>
      split
      · next hempty => exact h.succ (hnot (by simp [hname, hempty]))
      · next hne => exact h.cons hn hname hne (h.resolvesTo hn)

/-! ## The last stage -/

/-- Reading the stages from a known table on ends in what the last one resolves to. -/
theorem Known.lastImage? {n : ℕ} {named : Variables} (h : Known stages n named)
    (hlt : n < stages.length) :
    ∃ base, lastImage? named (stages.drop n) = some base ∧
      ResolvesTo stages (stages.length - 1) base := by
  obtain ⟨rest, hrest⟩ : ∃ rest, stages.drop n = stages[n] :: rest :=
    ⟨_, List.drop_eq_getElem_cons hlt⟩
  have hn : stages[n]? = some stages[n] := List.getElem?_eq_getElem hlt
  induction rest generalizing n named with
  | nil =>
      have hlast : stages.length - 1 = n := by
        have hlength := congrArg List.length hrest
        simp only [List.length_drop, List.length_singleton] at hlength
        omega
      refine ⟨resolvedImage named stages[n], ?_, ?_⟩
      · rw [hrest, Dockerfile.lastImage?]
      · rw [hlast]
        exact h.resolvesTo hn
  | cons next rest ih =>
      have hdrop : stages.drop (n + 1) = next :: rest := by
        have htail := congrArg List.tail hrest
        simpa using htail
      have hlt' : n + 1 < stages.length := by
        have hlength := congrArg List.length hdrop
        simp only [List.length_drop, List.length_cons] at hlength
        omega
      have hnext : stages[n + 1] = next := by
        rw [List.drop_eq_getElem_cons hlt'] at hdrop
        exact (List.cons.inj hdrop).1
      rw [hrest, Dockerfile.lastImage?, ← hdrop]
      · exact ih (h.nameStage hn) hlt' (by rw [hdrop, hnext]) (List.getElem?_eq_getElem hlt')
      · simp

/-! ## Public theorem -/

/-- A Dockerfile has a base image as soon as it has a stage, and this is what its last stage resolves
to. -/
theorem baseImage?_eq_some_iff_resolvesTo (given : Variables) (content : String) :
    (baseImage? given content = none ↔ Dockerfile.stages given content = []) ∧
      ∀ image, baseImage? given content = some image ↔
        ∃ last, (Dockerfile.stages given content).length = last + 1 ∧
          ResolvesTo (Dockerfile.stages given content) last image := by
  rw [baseImage?]
  cases hstages : Dockerfile.stages given content with
  | nil => simp [lastImage?]
  | cons stage rest =>
      obtain ⟨base, hbase, hresolves⟩ :=
        (known_nil (stage :: rest)).lastImage? (by simp)
      rw [List.drop_zero] at hbase
      refine ⟨by simp [hbase], fun image => ⟨?_, ?_⟩⟩
      · intro h
        rw [hbase] at h
        cases h
        exact ⟨rest.length, rfl, hresolves⟩
      · rintro ⟨last, hlast, himage⟩
        have heq : (stage :: rest).length - 1 = last := by omega
        rw [heq] at hresolves
        rw [hbase, hresolves.unique himage]

end ImageTrust.Dockerfile
