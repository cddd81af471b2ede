import ImageTrust.Proofs.Yaml.Readers
import ImageTrust.Yaml.Construction

/-! # Steps that change a state

What a step can end in that merges mappings or builds values: a value and a state, or a fault. The rules
are those of a program logic.
-/

namespace ImageTrust.Yaml

variable {σ α β : Type}

/-- A step after one that ends in a value and a state. -/
theorem run_bind_of_ok {step : StateT σ (Except Fault) α} {s s' : σ} {a : α}
    (h : step.run s = .ok (a, s')) (next : α → StateT σ (Except Fault) β) :
    (step >>= next).run s = (next a).run s' := by
  rw [StateT.run_bind, h]
  rfl

/-- From a state that satisfies `P`, a step ends in a value and a state that satisfy `Q`, or in a fault
that satisfies `F`. -/
def Triple (P : σ → Prop) (step : StateT σ (Except Fault) α) (Q : α → σ → Prop) (F : Fault → Prop) :
    Prop :=
  ∀ s, P s → Ends (fun r => Q r.1 r.2) F (step.run s)

namespace Triple

variable {P P' : σ → Prop} {Q Q' : α → σ → Prop} {R : β → σ → Prop} {F G : Fault → Prop}
variable {step : StateT σ (Except Fault) α}

theorem mono (h : Triple P step Q F) (hP : ∀ s, P' s → P s) (hQ : ∀ a s, Q a s → Q' a s)
    (hF : ∀ fault, F fault → G fault) : Triple P' step Q' G :=
  fun s hs => (h s (hP s hs)).mono (fun r => hQ r.1 r.2) hF

theorem imp (h : Triple P step Q F) (hQ : ∀ a s, Q a s → Q' a s) : Triple P step Q' F :=
  h.mono (fun _ hs => hs) hQ fun _ hfault => hfault

theorem at_state (h : Triple P step Q F) {s : σ} (hs : P s) : Triple (· = s) step Q F := by
  rintro _ rfl
  exact h _ hs

theorem of_forall (h : ∀ s, P s → Triple (· = s) step Q F) : Triple P step Q F :=
  fun s hs => h s hs s rfl

/-- What does not hang on the state can be assumed. -/
theorem assume {p : Prop} (h : p → Triple P step Q F) : Triple (fun s => p ∧ P s) step Q F :=
  fun s hs => h hs.1 s hs.2

theorem pure {a : α} (h : ∀ s, P s → Q a s) :
    Triple P (Pure.pure a : StateT σ (Except Fault) α) Q F :=
  h

theorem pure_at {s : σ} {a : α} (h : Q a s) :
    Triple (· = s) (Pure.pure a : StateT σ (Except Fault) α) Q F :=
  fun _ hs => hs ▸ h

theorem of_run {s s' : σ} {a : α} (hrun : step.run s = .ok (a, s')) (h : Q a s') :
    Triple (· = s) step Q F := by
  intro t ht
  rw [ht, hrun]
  exact h

theorem throw {fault : Fault} (h : F fault) :
    Triple P (MonadExcept.throw fault : StateT σ (Except Fault) α) Q F :=
  fun _ _ => h

theorem bind {next : α → StateT σ (Except Fault) β} (h : Triple P step Q F)
    (hnext : ∀ a, Triple (Q a) (next a) R F) : Triple P (step >>= next) R F :=
  fun s hs => (h s hs).bind fun r => hnext r.1 r.2

/-- A step that looks at the state goes on in that state. -/
theorem get_bind {next : σ → StateT σ (Except Fault) β} (h : ∀ s, P s → Triple (· = s) (next s) R F) :
    Triple P (get >>= next) R F :=
  fun s hs => h s hs s rfl

theorem set_bind {s' : σ} {next : PUnit → StateT σ (Except Fault) β} {s : σ}
    (h : Triple (· = s') (next ⟨⟩) R F) : Triple (· = s) (set s' >>= next) R F :=
  fun _ _ => h s' rfl

theorem set {s s' : σ} {Q : PUnit → σ → Prop} (h : Q ⟨⟩ s') :
    Triple (· = s) (MonadStateOf.set s' : StateT σ (Except Fault) PUnit) Q F :=
  fun _ _ => h

/-- A result that does not hang on the state leaves it as it is. -/
theorem lift {x : Except Fault α} {V : α → Prop} (h : Ends V F x) :
    Triple P (liftM x : StateT σ (Except Fault) α) (fun a s => V a ∧ P s) F := by
  intro s hs
  cases x with
  | ok a => exact ⟨h, hs⟩
  | error fault => exact h

theorem modify {f : σ → σ} {Q : PUnit → σ → Prop} (h : ∀ s, P s → Q ⟨⟩ (f s)) :
    Triple P (modify f : StateT σ (Except Fault) PUnit) Q F :=
  h

theorem forM {xs : List α} {f : α → StateT σ (Except Fault) PUnit}
    (h : ∀ a ∈ xs, Triple P (f a) (fun _ => P) F) : Triple P (xs.forM f) (fun _ => P) F := by
  induction xs with
  | nil => exact pure fun _ hs => hs
  | cons a xs ih =>
      change Triple P (f a >>= fun _ => xs.forM f) (fun _ => P) F
      apply bind (h a List.mem_cons_self)
      exact fun _ => ih fun b hb => h b (List.mem_cons_of_mem _ hb)

theorem mapM {xs : List α} {f : α → StateT σ (Except Fault) β} {V : β → Prop}
    (h : ∀ a ∈ xs, Triple P (f a) (fun b s => V b ∧ P s) F) :
    Triple P (xs.mapM f) (fun bs s => (∀ b ∈ bs, V b) ∧ P s) F := by
  induction xs with
  | nil =>
      rw [List.mapM_nil]
      exact pure fun _ hs => ⟨List.forall_mem_nil _, hs⟩
  | cons a xs ih =>
      rw [List.mapM_cons]
      refine bind (h a List.mem_cons_self) fun b => assume fun hb => ?_
      refine bind (ih fun c hc => h c (List.mem_cons_of_mem _ hc)) fun bs => pure fun s hs => ?_
      exact ⟨List.forall_mem_cons.mpr ⟨hb, hs.1⟩, hs.2⟩

end Triple

end ImageTrust.Yaml
