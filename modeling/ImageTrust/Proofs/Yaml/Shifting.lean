import ImageTrust.Proofs.Yaml.Progress

/-! # Texts further down

The tokens of a text do not depend on the place where it starts, as long as it starts a line: the places
in it are compared with each other only. A byte order mark is told apart at the very start.
-/

namespace ImageTrust.Yaml

/-! ## Places -/

/-- A place in a text that stands below a line of `count` characters. -/
def Mark.below (count : ℕ) (m : Mark) : Mark :=
  ⟨m.index + count, m.line + 1, m.column⟩

theorem Mark.after_below (count : ℕ) (m : Mark) (c : Char) (next : Option Char) :
    (m.below count).after c next = (m.after c next).below count := by
  unfold Mark.after
  split
  · simp [Mark.below, Nat.add_right_comm]
  · split <;> simp [Mark.below, Nat.add_right_comm]

theorem Mark.advance_below (count : ℕ) (m : Mark) (n : ℕ) (cs : List Char) :
    (m.below count).advance n cs = (m.advance n cs).below count := by
  induction n generalizing m cs with
  | zero => rfl
  | succ n ih =>
      cases cs with
      | nil => rfl
      | cons c cs => rw [Mark.advance, Mark.advance, Mark.after_below, ih]

/-! ## States -/

def PossibleKey.below (count : ℕ) (k : PossibleKey) : PossibleKey :=
  { k with mark := k.mark.below count }

namespace Scan

def keysBelow (count : ℕ) (keys : List (ℕ × PossibleKey)) : List (ℕ × PossibleKey) :=
  keys.map fun (level, k) => (level, k.below count)

def below (count : ℕ) (s : Scan) : Scan :=
  { s with mark := s.mark.below count, keys := keysBelow count s.keys }

/-- What a step does to a state, it does to the state further down. -/
def Shifts (count : ℕ) (x x' : Except Fault Scan) : Prop :=
  x' = x.map (below count)

variable {s : Scan} {count : ℕ}

theorem Shifts.bind {x x' : Except Fault Scan} {f : Scan → Except Fault Scan} (h : Shifts count x x')
    (hf : ∀ s, Shifts count (f s) (f (s.below count))) : Shifts count (x >>= f) (x' >>= f) := by
  rw [h]
  cases x with
  | ok s => exact hf s
  | error fault => rfl

theorem Shifts.ok {t t' : Scan} (h : t' = t.below count) : Shifts count (.ok t) (.ok t') :=
  congrArg Except.ok h

theorem Shifts.error (fault : Fault) : Shifts count (.error fault) (.error fault) :=
  rfl

theorem Shifts.ite {p q : Prop} [Decidable p] [Decidable q] {x x' y y' : Except Fault Scan} (hpq : p ↔ q)
    (hx : Shifts count x x') (hy : Shifts count y y') :
    Shifts count (if p then x else y) (if q then x' else y') := by
  by_cases hp : p
  · rwa [if_pos hp, if_pos (hpq.mp hp)]
  · rwa [if_neg hp, if_neg (mt hpq.mpr hp)]

/-! ## Moving on -/

theorem goTo_below (count : ℕ) (s : Scan) (rest : List Char) :
    (s.below count).goTo rest = (s.goTo rest).below count := by
  simp only [goTo, below, Mark.advance_below]

theorem take_below (count : ℕ) (s : Scan) (n : ℕ) (t : Token) :
    (s.below count).take n t = (s.take n t).below count := by
  rw [take, take, goTo_below]
  rfl

/-- No byte order mark stands at the start of the text. -/
def Unmarked (s : Scan) : Prop :=
  s.mark.index = 0 → s.rest.head? ≠ some '\uFEFF'

theorem Unmarked.skipToToken_eq (h : s.Unmarked) : s.skipToToken =
    { s.goTo (skipGap (s.rest.length + 1) s.rest).1 with
      keyAllowed := s.keyAllowed || ((skipGap (s.rest.length + 1) s.rest).2 && s.flow = 0) } := by
  have hstart : ¬ (s.mark.index = 0 && s.rest.head? = some '\uFEFF') = true := by
    simpa [Unmarked] using h
  unfold skipToToken
  rw [if_neg hstart]

theorem skipToToken_below (h : s.Unmarked) (count : ℕ) :
    (s.below count).skipToToken = s.skipToToken.below count := by
  have hbelow : (s.below count).Unmarked := fun hindex => h (Nat.eq_zero_of_add_eq_zero_right hindex)
  rw [hbelow.skipToToken_eq, h.skipToToken_eq, goTo_below]
  rfl

/-! ## Possible keys -/

theorem isStale_below (count : ℕ) (s : Scan) (k : PossibleKey) :
    (s.below count).isStale (k.below count) = s.isStale k := by
  simp only [isStale, below, PossibleKey.below, Mark.below, Nat.add_sub_add_right, ne_eq,
    Nat.add_right_cancel_iff]

theorem lookup_keysBelow (count : ℕ) (keys : List (ℕ × PossibleKey)) (level : ℕ) :
    (keysBelow count keys).lookup level = (keys.lookup level).map (PossibleKey.below count) := by
  induction keys with
  | nil => rfl
  | cons entry keys ih =>
      rw [keysBelow, List.map_cons, List.lookup_cons, List.lookup_cons]
      cases level == entry.1 with
      | true => rfl
      | false => exact ih

section Keys

variable {p p' : ℕ × PossibleKey → Bool}

theorem any_keysBelow (h : ∀ level k, p (level, k.below count) = p' (level, k))
    (keys : List (ℕ × PossibleKey)) : (keysBelow count keys).any p = keys.any p' := by
  rw [keysBelow, List.any_map]
  congr 1
  funext ⟨level, k⟩
  exact h level k

theorem filter_keysBelow (h : ∀ level k, p (level, k.below count) = p' (level, k))
    (keys : List (ℕ × PossibleKey)) :
    (keysBelow count keys).filter p = keysBelow count (keys.filter p') := by
  rw [keysBelow, List.filter_map, keysBelow]
  congr 2
  funext ⟨level, k⟩
  exact h level k

/-- Keys are forgotten, unless one of them is required. -/
theorem forget_below {q q' : ℕ × PossibleKey → Bool}
    (hfault : ∀ level k, p (level, k.below count) = p' (level, k))
    (hkeep : ∀ level k, q (level, k.below count) = q' (level, k)) (s : Scan) :
    Shifts count (if s.keys.any p' then .error .malformed else .ok { s with keys := s.keys.filter q' })
      (if (s.below count).keys.any p then .error .malformed
        else .ok { s.below count with keys := (s.below count).keys.filter q }) := by
  refine .ite (Bool.eq_iff_iff.mp (any_keysBelow hfault s.keys).symm) (.error _) (.ok ?_)
  exact congrArg (fun keys => { s.below count with keys }) (filter_keysBelow hkeep s.keys)

end Keys

theorem dropStaleKeys_below (count : ℕ) (s : Scan) :
    Shifts count s.dropStaleKeys (s.below count).dropStaleKeys :=
  forget_below (fun _ k => congrArg (· && k.required) (isStale_below count s k))
    (fun _ k => congrArg (!·) (isStale_below count s k)) s

theorem dropKey_below (count : ℕ) (s : Scan) : Shifts count s.dropKey (s.below count).dropKey :=
  forget_below (fun _ _ => rfl) (fun _ _ => rfl) s

theorem markKey_below (count : ℕ) (s : Scan) : Shifts count s.markKey (s.below count).markKey :=
  .ite Iff.rfl ((dropKey_below count s).bind fun _ => rfl) rfl

/-! ## Indentation -/

theorem unwind_go_below (count : ℕ) (s : Scan) (column : Int) (outer : List Int) (indent : Int)
    (tokens : List Token) : unwind.go (s.below count) column outer indent tokens =
      (unwind.go s column outer indent tokens).below count := by
  induction outer generalizing indent tokens with
  | nil =>
      unfold unwind.go
      split <;> rfl
  | cons next outer ih =>
      unfold unwind.go
      split
      · exact ih next _
      · rfl

theorem unwind_below (count : ℕ) (s : Scan) (column : Int) :
    (s.below count).unwind column = (s.unwind column).below count := by
  have hflow : (s.below count).flow = s.flow := rfl
  unfold unwind
  rw [hflow]
  split
  · rfl
  · exact unwind_go_below count s column _ _ _

theorem openBlock_below (count : ℕ) (s : Scan) (token : Token) :
    Shifts count (s.openBlock token) ((s.below count).openBlock token) :=
  .ite Iff.rfl rfl (.ite Iff.rfl rfl (.ite Iff.rfl rfl rfl))

/-! ## Kinds of tokens -/

theorem streamEnd_below (count : ℕ) (s : Scan) : Shifts count s.streamEnd (s.below count).streamEnd := by
  unfold streamEnd
  rw [unwind_below]
  exact (dropKey_below count _).bind fun _ => rfl

/-- A token has been read, and the state goes on to what is left. -/
theorem read_below {α : Type} (count : ℕ) (s : Scan) (x : Except Fault (α × List Char)) (f : α → Token)
    (keyAllowed : Bool) : Shifts count
      (do
        let (a, rest) ← x
        return { (s.goTo rest).add (f a) with keyAllowed })
      (do
        let (a, rest) ← x
        return { ((s.below count).goTo rest).add (f a) with keyAllowed }) := by
  cases x with
  | error fault => rfl
  | ok r =>
      obtain ⟨a, rest⟩ := r
      refine .ok ?_
      dsimp only
      rw [goTo_below]
      rfl

theorem take_keyAllowed_below (count : ℕ) (s : Scan) (n : ℕ) (token : Token) (keyAllowed : Bool) :
    { (s.below count).take n token with keyAllowed } =
      below count { s.take n token with keyAllowed } := by
  rw [take_below]
  rfl

theorem directive_below (count : ℕ) (s : Scan) : Shifts count s.directive (s.below count).directive := by
  unfold directive
  rw [unwind_below]
  exact (dropKey_below count _).bind fun t => read_below count t _ id false

theorem documentMark_below (count : ℕ) (s : Scan) (token : Token) :
    Shifts count (s.documentMark token) ((s.below count).documentMark token) := by
  unfold documentMark
  rw [unwind_below]
  exact (dropKey_below count _).bind fun t => .ok (take_keyAllowed_below count t 3 token false)

theorem flowStart_below (count : ℕ) (s : Scan) (token : Token) :
    Shifts count (s.flowStart token) ((s.below count).flowStart token) := by
  refine (markKey_below count s).bind fun t => .ok ?_
  rw [take_below]
  rfl

theorem flowEnd_below (count : ℕ) (s : Scan) (token : Token) :
    Shifts count (s.flowEnd token) ((s.below count).flowEnd token) := by
  refine (dropKey_below count s).bind fun t => .ok ?_
  rw [take_below]
  rfl

theorem flowEntry_below (count : ℕ) (s : Scan) : Shifts count s.flowEntry (s.below count).flowEntry :=
  (dropKey_below count s).bind fun t => .ok (take_keyAllowed_below count t 1 .flowEntry true)

theorem blockEntry_below (count : ℕ) (s : Scan) : Shifts count s.blockEntry (s.below count).blockEntry :=
  (openBlock_below count s _).bind fun t => (dropKey_below count t).bind fun u =>
    .ok (take_keyAllowed_below count u 1 .blockEntry true)

theorem explicitKey_below (count : ℕ) (s : Scan) :
    Shifts count s.explicitKey (s.below count).explicitKey :=
  (openBlock_below count s _).bind fun t => (dropKey_below count t).bind fun u =>
    .ok (take_keyAllowed_below count u 1 .key _)

theorem value_below (count : ℕ) (s : Scan) : Shifts count s.value (s.below count).value := by
  have hlookup : (s.below count).keys.lookup (s.below count).flow =
      (s.keys.lookup s.flow).map (PossibleKey.below count) := lookup_keysBelow count s.keys s.flow
  have hkeys : (keysBelow count s.keys).filter (fun (level, _) => level ≠ s.flow) =
      keysBelow count (s.keys.filter fun (level, _) => level ≠ s.flow) :=
    filter_keysBelow (fun _ _ => rfl) s.keys
  -- A block mapping that starts with the key starts in the same column.
  have hopen : ∀ (t : Scan) (k : PossibleKey),
      (if (t.below count).flow = 0 && (t.below count).opensAt k.mark.column then
        ((t.below count).openAt k.mark.column).insert k.position .blockMappingStart
      else t.below count) =
        (if t.flow = 0 && t.opensAt k.mark.column then
          (t.openAt k.mark.column).insert k.position .blockMappingStart
        else t).below count := by
    intro t k
    rw [apply_ite (below count)]
    rfl
  unfold value
  rw [hlookup]
  cases s.keys.lookup s.flow with
  | some k =>
      have hinsert :
          { s.below count with
            keys := (keysBelow count s.keys).filter fun (level, _) => level ≠ s.flow }.insert
              k.position .key =
            ({ s with keys := s.keys.filter fun (level, _) => level ≠ s.flow }.insert
              k.position .key).below count :=
        congrArg (fun keys => { s.below count with keys }.insert k.position .key) hkeys
      refine .ok ?_
      rw [← take_keyAllowed_below, ← hopen, ← hinsert]
      rfl
  | none =>
      exact (openBlock_below count s _).bind fun t => (dropKey_below count t).bind fun u =>
        .ok (take_keyAllowed_below count u 1 .value _)

theorem node_below (count : ℕ) (s : Scan) (read : List Char → Except Fault (Token × List Char)) :
    Shifts count (s.node read) ((s.below count).node read) :=
  (markKey_below count s).bind fun t => read_below count t _ id false

theorem blockScalar_below (count : ℕ) (s : Scan) (folded : Bool) :
    Shifts count (s.blockScalar folded) ((s.below count).blockScalar folded) :=
  (dropKey_below count s).bind fun t =>
    read_below count t _ (fun text => .scalar (String.ofList text) false) true

theorem plain_below (count : ℕ) (s : Scan) : Shifts count s.plain (s.below count).plain := by
  refine (markKey_below count s).bind fun t => ?_
  have hscalar : plainScalar? ((t.below count).rest.length + 1) ((t.below count).flow ≠ 0)
      ((t.below count).indent + 1) (t.below count).rest =
        plainScalar? (t.rest.length + 1) (t.flow ≠ 0) (t.indent + 1) t.rest := rfl
  rw [hscalar]
  cases plainScalar? (t.rest.length + 1) (t.flow ≠ 0) (t.indent + 1) t.rest with
  | none => rfl
  | some scalar =>
      refine .ok ?_
      rw [goTo_below]
      rfl

/-! ## One token -/

theorem token_below (count : ℕ) (s : Scan) : Shifts count s.token (s.below count).token := by
  have hrest : (s.below count).rest = s.rest := rfl
  unfold token
  rw [hrest]
  split
  · exact streamEnd_below count s
  · refine .ite Iff.rfl (directive_below count s) ?_
    refine .ite Iff.rfl (documentMark_below count s _) ?_
    refine .ite Iff.rfl (documentMark_below count s _) ?_
    refine .ite Iff.rfl (flowStart_below count s _) ?_
    refine .ite Iff.rfl (flowStart_below count s _) ?_
    refine .ite Iff.rfl (flowEnd_below count s _) ?_
    refine .ite Iff.rfl (flowEnd_below count s _) ?_
    refine .ite Iff.rfl (flowEntry_below count s) ?_
    refine .ite Iff.rfl (blockEntry_below count s) ?_
    refine .ite Iff.rfl (explicitKey_below count s) ?_
    refine .ite Iff.rfl (value_below count s) ?_
    refine .ite Iff.rfl (node_below count s _) ?_
    refine .ite Iff.rfl (node_below count s _) ?_
    refine .ite Iff.rfl (node_below count s _) ?_
    refine .ite Iff.rfl (blockScalar_below count s false) ?_
    refine .ite Iff.rfl (blockScalar_below count s true) ?_
    refine .ite Iff.rfl (node_below count s _) ?_
    refine .ite Iff.rfl (node_below count s _) ?_
    exact .ite Iff.rfl (plain_below count s) rfl

/-- Where the next tokens of two texts start is all that counts. -/
theorem next_shifts {s' : Scan} (h : s'.skipToToken = s.skipToToken.below count) :
    Shifts count s.next s'.next := by
  unfold next
  rw [h]
  refine (dropStaleKeys_below count _).bind fun t => ?_
  have hcolumn : (t.below count).mark.column = t.mark.column := rfl
  rw [hcolumn, unwind_below]
  exact token_below count _

theorem next_below (h : s.Unmarked) (count : ℕ) : Shifts count s.next (s.below count).next :=
  next_shifts (skipToToken_below h count)

/-! ## All tokens -/

theorem certain_below (count : ℕ) (s : Scan) : (s.below count).certain = s.certain := by
  have hkeys : (s.below count).keys.filter (fun (_, k) => !(s.below count).isStale k) =
      keysBelow count (s.keys.filter fun (_, k) => !s.isStale k) :=
    filter_keysBelow (fun _ k => congrArg (!·) (isStale_below count s k)) s.keys
  unfold certain
  rw [hkeys]
  dsimp only
  rw [keysBelow, List.foldl_map]
  rfl

/-- Two runs are the same from the next states on, if they are so before them. -/
theorem run_succ_eq {s' : Scan} {bound : ℕ} (hfinished : s'.finished = s.finished)
    (htokens : s'.tokens = s.tokens) (hcertain : s'.certain = s.certain)
    (hnext : Shifts count s.next s'.next)
    (hrun : ∀ t, s.next = .ok t → (t.below count).run bound = t.run bound) :
    s'.run (bound + 1) = s.run (bound + 1) := by
  unfold run
  rw [hfinished, htokens, hnext, hcertain]
  split
  · rfl
  · cases heq : s.next with
    | error fault => rfl
    | ok t => exact hrun t heq

/-- What a state has behind it is counted, and what it has left is the end of a text. -/
structure Within (cs : List Char) (s : Scan) : Prop where
  rest : s.rest <:+ cs
  index : s.mark.index + s.rest.length = cs.length

theorem within_start (cs : List Char) : (start cs).Within cs :=
  ⟨List.suffix_refl cs, Nat.zero_add _⟩

theorem Within.unmarked {cs : List Char} (h : s.Within cs) (hmark : cs.head? ≠ some '\uFEFF') :
    s.Unmarked := by
  intro hzero
  -- nothing has been passed, so all of the text is left
  have hindex := h.index
  rwa [h.rest.eq_of_length (by omega)]

theorem Within.next {cs : List Char} {t : Scan} (h : s.Within cs) (ht : s.next = .ok t) :
    t.finished = true ∨ t.Within cs := by
  have hpasses := s.passes_next
  rw [ht] at hpasses
  exact hpasses.imp_right fun ⟨hpasses, _⟩ => ⟨hpasses.rest.trans h.rest, hpasses.index.trans h.index⟩

theorem run_below_of_finished (h : s.finished = true) (count bound : ℕ) :
    (s.below count).run bound = s.run bound := by
  have hbelow : (s.below count).finished = true := h
  rw [run_of_finished h, run_of_finished hbelow]
  rfl

/-- A run does not depend on where the text starts, if the text has no mark at the start. -/
theorem Within.run_below {cs : List Char} (h : s.Within cs) (hmark : cs.head? ≠ some '\uFEFF')
    (count bound : ℕ) : (s.below count).run bound = s.run bound := by
  induction bound generalizing s with
  | zero => rfl
  | succ bound ih =>
      have hnext := next_below (h.unmarked hmark) count
      refine run_succ_eq rfl rfl (certain_below count s) hnext fun t ht => ?_
      obtain hend | hwithin := h.next ht
      · exact run_below_of_finished hend count bound
      · exact ih hwithin

end Scan

end ImageTrust.Yaml
