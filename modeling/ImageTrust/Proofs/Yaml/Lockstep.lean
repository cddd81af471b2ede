import ImageTrust.Yaml.Fault
import Mathlib.Data.List.Forall2

/-! # Two runs side by side

What two runs of steps have in common, if both end in a value: from related states they end in related
values and states. The rules are those of a program logic for pairs of runs.
-/

namespace ImageTrust.Yaml

/-- Two results are alike, unless both are values that are not. -/
def EndsAlike {ε α β : Type} (R : α → β → Prop) : Except ε α → Except ε β → Prop
  | .ok a, .ok b => R a b
  | _, _ => True

section Results

variable {ε α β γ δ : Type} {R R' : α → β → Prop} {S : γ → δ → Prop}

theorem EndsAlike.mono {x : Except ε α} {y : Except ε β} (h : EndsAlike R x y)
    (hR : ∀ a b, R a b → R' a b) : EndsAlike R' x y := by
  cases x with
  | error fault => trivial
  | ok a =>
      cases y with
      | error fault => trivial
      | ok b => exact hR a b h

theorem EndsAlike.bind {x : Except ε α} {y : Except ε β} {f : α → Except ε γ} {g : β → Except ε δ}
    (h : EndsAlike R x y) (hfg : ∀ a b, R a b → EndsAlike S (f a) (g b)) :
    EndsAlike S (x >>= f) (y >>= g) := by
  cases x with
  | error fault => trivial
  | ok a =>
      cases y with
      | error fault =>
          change EndsAlike S (f a) (.error fault)
          cases f a <;> trivial
      | ok b => exact hfg a b h

end Results

variable {σ α β γ δ : Type}

/-- From states that `P` relates, two steps end in values and states that `Q` relates, if both end in a
value. -/
def Coupled (P : σ → σ → Prop) (m : StateT σ (Except Fault) α) (m' : StateT σ (Except Fault) β)
    (Q : α → β → σ → σ → Prop) : Prop :=
  ∀ s t, P s t → EndsAlike (fun r r' => Q r.1 r'.1 r.2 r'.2) (m.run s) (m'.run t)

namespace Coupled

variable {P P' : σ → σ → Prop} {Q Q' : α → β → σ → σ → Prop} {S : γ → δ → σ → σ → Prop}
variable {m : StateT σ (Except Fault) α} {m' : StateT σ (Except Fault) β}

theorem mono (h : Coupled P m m' Q) (hP : ∀ s t, P' s t → P s t) (hQ : ∀ a b s t, Q a b s t → Q' a b s t) :
    Coupled P' m m' Q' :=
  fun s t hst => (h s t (hP s t hst)).mono fun r r' => hQ r.1 r'.1 r.2 r'.2

/-- What does not hang on the states can be assumed. -/
theorem assume {p : Prop} (h : p → Coupled P m m' Q) : Coupled (fun s t => p ∧ P s t) m m' Q :=
  fun s t hst => h hst.1 s t hst.2

theorem bind {f : α → StateT σ (Except Fault) γ} {g : β → StateT σ (Except Fault) δ}
    (h : Coupled P m m' Q) (hfg : ∀ a b, Coupled (Q a b) (f a) (g b) S) :
    Coupled P (m >>= f) (m' >>= g) S :=
  fun s t hst => (h s t hst).bind fun r r' => hfg r.1 r'.1 r.2 r'.2

theorem ite {p : Prop} [Decidable p] {n : StateT σ (Except Fault) α} {n' : StateT σ (Except Fault) β}
    (hm : Coupled P m m' Q) (hn : Coupled P n n' Q) :
    Coupled P (if p then m else n) (if p then m' else n') Q := by
  split
  · exact hm
  · exact hn

/-- Steps that look at the states go on in those states. -/
theorem get_bind {f : σ → StateT σ (Except Fault) γ} {g : σ → StateT σ (Except Fault) δ}
    (h : ∀ s t, P s t → Coupled (fun s' t' => s' = s ∧ t' = t) (f s) (g t) S) :
    Coupled P (get >>= f) (get >>= g) S :=
  fun s t hst => h s t hst s t ⟨rfl, rfl⟩

theorem pure_at {s t : σ} {a : α} {b : β} (h : Q a b s t) :
    Coupled (fun s' t' => s' = s ∧ t' = t) (pure a) (pure b) Q := by
  rintro _ _ ⟨rfl, rfl⟩
  exact h

theorem set {s t s' t' : σ} {Q : PUnit → PUnit → σ → σ → Prop} (h : Q ⟨⟩ ⟨⟩ s' t') :
    Coupled (fun a b => a = s ∧ b = t) (MonadStateOf.set s' : StateT σ (Except Fault) PUnit)
      (MonadStateOf.set t' : StateT σ (Except Fault) PUnit) Q :=
  fun _ _ _ => h

/-- Results that do not hang on the states leave them as they are. -/
theorem lift {x : Except Fault α} {y : Except Fault β} {R : α → β → Prop} (h : EndsAlike R x y) :
    Coupled P (liftM x : StateT σ (Except Fault) α) (liftM y : StateT σ (Except Fault) β)
      fun a b s t => R a b ∧ P s t := by
  intro s t hst
  cases x with
  | error fault => trivial
  | ok a =>
      cases y with
      | error fault => trivial
      | ok b => exact ⟨h, hst⟩

end Coupled

/-- From states that `P` relates, two steps end in values that `R` relates and again in such states. -/
abbrev Lockstep (P : σ → σ → Prop) (R : α → β → Prop) (m : StateT σ (Except Fault) α)
    (m' : StateT σ (Except Fault) β) : Prop :=
  Coupled P m m' fun a b s t => R a b ∧ P s t

namespace Lockstep

variable {P : σ → σ → Prop} {R R' : α → β → Prop} {S : γ → δ → Prop}
variable {m n : StateT σ (Except Fault) α} {m' n' : StateT σ (Except Fault) β}

theorem imp (h : Lockstep P R m m') (hR : ∀ a b, R a b → R' a b) : Lockstep P R' m m' :=
  Coupled.mono h (fun _ _ hst => hst) fun a b _ _ => And.imp_left (hR a b)

theorem pure {a : α} {b : β} (h : R a b) : Lockstep P R (pure a) (pure b) :=
  fun _ _ hst => ⟨h, hst⟩

theorem throw (fault : Fault) (m' : StateT σ (Except Fault) β) :
    Lockstep P R (MonadExcept.throw fault : StateT σ (Except Fault) α) m' :=
  fun _ _ _ => trivial

theorem bind {f : α → StateT σ (Except Fault) γ} {g : β → StateT σ (Except Fault) δ}
    (h : Lockstep P R m m') (hfg : ∀ a b, R a b → Lockstep P S (f a) (g b)) :
    Lockstep P S (m >>= f) (m' >>= g) :=
  Coupled.bind h fun a b => Coupled.assume (hfg a b)

/-- Steps after ones that find the same. -/
theorem bindEq {k k' : StateT σ (Except Fault) α} {f : α → StateT σ (Except Fault) γ}
    {g : α → StateT σ (Except Fault) δ} (h : Lockstep P Eq k k') (hfg : ∀ a, Lockstep P S (f a) (g a)) :
    Lockstep P S (k >>= f) (k' >>= g) :=
  bind h fun a _ hab => hab ▸ hfg a

theorem ite {p : Prop} [Decidable p] (hm : Lockstep P R m m') (hn : Lockstep P R n n') :
    Lockstep P R (if p then m else n) (if p then m' else n') :=
  Coupled.ite hm hn

theorem get : Lockstep P P get get :=
  fun _ _ hst => ⟨hst, hst⟩

theorem modify {f f' : σ → σ} (h : ∀ s t, P s t → P (f s) (f' t)) :
    Lockstep P Eq (modify f : StateT σ (Except Fault) PUnit) (modify f') :=
  fun s t hst => ⟨rfl, h s t hst⟩

/-- Steps for the items of two lists, one after the other. -/
theorem forM {T : α → β → Prop} {xs : List α} {ys : List β} {f : α → StateT σ (Except Fault) PUnit}
    {g : β → StateT σ (Except Fault) PUnit} (h : List.Forall₂ R xs ys)
    (hfg : ∀ a b, R a b → Lockstep P (fun _ _ => T a b) (f a) (g b)) :
    Lockstep P (fun _ _ => List.Forall₂ T xs ys) (xs.forM f) (ys.forM g) := by
  induction h with
  | nil => exact pure .nil
  | @cons a b xs ys hab _ ih =>
      change Lockstep P _ (f a >>= fun _ => xs.forM f) (g b >>= fun _ => ys.forM g)
      apply bind (hfg a b hab)
      intro _ _ hT
      exact ih.imp fun _ _ hTs => .cons hT hTs

theorem mapM {xs : List α} {ys : List β} {f : α → StateT σ (Except Fault) γ}
    {g : β → StateT σ (Except Fault) δ} (h : List.Forall₂ R xs ys)
    (hfg : ∀ a b, R a b → Lockstep P S (f a) (g b)) :
    Lockstep P (List.Forall₂ S) (xs.mapM f) (ys.mapM g) := by
  induction h with
  | nil => exact pure .nil
  | cons hab _ ih =>
      rw [List.mapM_cons, List.mapM_cons]
      apply bind (hfg _ _ hab)
      intro c d hcd
      apply bind ih
      exact fun cs ds hcds => pure (.cons hcd hcds)

end Lockstep

end ImageTrust.Yaml
