import Mathlib.Data.List.Forall2

/-!
# Steps that may fail

What the success or the failure of a chain of steps says about the single steps, and what two chains
have in common whose steps go alike (`SameOutcome`).
-/

namespace QuantumDiagram

theorem bind_eq_ok {ε α β : Type} {x : Except ε α} {f : α → Except ε β} {b : β} :
    (x >>= f) = .ok b ↔ ∃ a, x = .ok a ∧ f a = .ok b := by
  cases x <;> simp [bind, Except.bind]

theorem map_eq_ok {ε α β : Type} {x : Except ε α} {f : α → β} {b : β} :
    x.map f = .ok b ↔ ∃ a, x = .ok a ∧ f a = b := by
  cases x <;> simp [Except.map]

theorem toOption_eq_some {ε α : Type} {x : Except ε α} {a : α} :
    x.toOption = some a ↔ x = .ok a := by
  cases x <;> simp [Except.toOption]

theorem bind_eq_error {ε α β : Type} {x : Except ε α} {f : α → Except ε β} {e : ε} :
    (x >>= f) = .error e ↔ x = .error e ∨ ∃ a, x = .ok a ∧ f a = .error e := by
  cases x <;> simp [bind, Except.bind]

theorem map_eq_error {ε α β : Type} {x : Except ε α} {f : α → β} {e : ε} :
    x.map f = .error e ↔ x = .error e := by
  cases x <;> simp [Except.map]

theorem length_of_mapM_ok {ε α β : Type} {f : α → Except ε β} {as : List α} {bs : List β}
    (h : as.mapM f = .ok bs) : bs.length = as.length := by
  induction as generalizing bs with
  | nil =>
    cases h
    rfl
  | cons a as ih =>
    rw [List.mapM_cons] at h
    obtain ⟨c, -, h⟩ := bind_eq_ok.1 h
    obtain ⟨cs, hcs, h⟩ := bind_eq_ok.1 h
    cases h
    rw [List.length_cons, List.length_cons, ih hcs]

/-- Each member of a list of results is the result for a member of the list. -/
theorem exists_of_mem_mapM_ok {ε α β : Type} {f : α → Except ε β} {as : List α} {bs : List β}
    (h : as.mapM f = .ok bs) {b : β} (hb : b ∈ bs) : ∃ a ∈ as, f a = .ok b := by
  induction as generalizing bs with
  | nil =>
    cases h
    simp at hb
  | cons a as ih =>
    rw [List.mapM_cons] at h
    obtain ⟨c, hc, h⟩ := bind_eq_ok.1 h
    obtain ⟨cs, hcs, h⟩ := bind_eq_ok.1 h
    cases h
    rcases List.mem_cons.1 hb with rfl | hb
    · exact ⟨a, List.mem_cons_self, hc⟩
    · obtain ⟨x, hx, hxb⟩ := ih hcs hb
      exact ⟨x, List.mem_cons_of_mem _ hx, hxb⟩

/-- A list of results fails for one of its members. -/
theorem exists_of_mapM_error {ε α β : Type} {f : α → Except ε β} {as : List α} {e : ε}
    (h : as.mapM f = .error e) : ∃ a ∈ as, f a = .error e := by
  induction as with
  | nil => cases h
  | cons a as ih =>
    rw [List.mapM_cons] at h
    obtain ha | ⟨_, -, h⟩ := bind_eq_error.1 h
    · exact ⟨a, List.mem_cons_self, ha⟩
    · obtain has | ⟨_, -, h⟩ := bind_eq_error.1 h
      · obtain ⟨b, hb, hbe⟩ := ih has
        exact ⟨b, List.mem_cons_of_mem _ hb, hbe⟩
      · cases h

theorem exists_of_foldlM_error {ε α β : Type} {f : β → α → Except ε β} {as : List α} {b : β}
    {e : ε} (h : as.foldlM f b = .error e) : ∃ c, ∃ a ∈ as, f c a = .error e := by
  induction as generalizing b with
  | nil => cases h
  | cons a as ih =>
    rw [List.foldlM_cons] at h
    obtain ha | ⟨c, -, h⟩ := bind_eq_error.1 h
    · exact ⟨b, a, List.mem_cons_self, ha⟩
    · obtain ⟨c, a', ha', he⟩ := ih h
      exact ⟨c, a', List.mem_cons_of_mem _ ha', he⟩

/-! ## Chains that go alike -/

section Alike

variable {ε α β γ δ : Type} {E : ε → ε → Prop} {R : α → β → Prop} {S : γ → δ → Prop}

/-- Two outcomes are the same but for what they carry: both are results, related by `R`, or both are
errors, related by `E`. -/
inductive SameOutcome (E : ε → ε → Prop) (R : α → β → Prop) : Except ε α → Except ε β → Prop
  | ok {a : α} {b : β} : R a b → SameOutcome E R (.ok a) (.ok b)
  | error {e e' : ε} : E e e' → SameOutcome E R (.error e) (.error e')

namespace SameOutcome

theorem bind {x : Except ε α} {y : Except ε β} (h : SameOutcome E R x y) {f : α → Except ε γ}
    {g : β → Except ε δ} (hfg : ∀ a b, R a b → SameOutcome E S (f a) (g b)) :
    SameOutcome E S (x >>= f) (y >>= g) := by
  cases h with
  | ok h => exact hfg _ _ h
  | error h => exact .error h

theorem trans {E' E'' : ε → ε → Prop} {S : β → γ → Prop} {T : α → γ → Prop} {x : Except ε α}
    {y : Except ε β} {z : Except ε γ} (h : SameOutcome E R x y) (h' : SameOutcome E' S y z)
    (herror : ∀ e e' e'', E e e' → E' e' e'' → E'' e e'')
    (hresult : ∀ a b c, R a b → S b c → T a c) : SameOutcome E'' T x z := by
  cases h with
  | ok h =>
    cases h' with
    | ok h' => exact .ok (hresult _ _ _ h h')
  | error h =>
    cases h' with
    | error h' => exact .error (herror _ _ _ h h')

theorem map {x : Except ε α} {y : Except ε β} (h : SameOutcome E R x y) {f : α → γ} {g : β → δ}
    (hfg : ∀ a b, R a b → S (f a) (g b)) : SameOutcome E S (x.map f) (y.map g) := by
  cases h with
  | ok h => exact .ok (hfg _ _ h)
  | error h => exact .error h

theorem imp {E' : ε → ε → Prop} {R' : α → β → Prop} {x : Except ε α} {y : Except ε β}
    (h : SameOutcome E R x y) (herror : ∀ e e', E e e' → E' e e')
    (hresult : ∀ a b, R a b → R' a b) : SameOutcome E' R' x y := by
  cases h with
  | ok h => exact .ok (hresult _ _ h)
  | error h => exact .error (herror _ _ h)

theorem mapM {P : γ → δ → Prop} {f : γ → Except ε α} {g : δ → Except ε β} {cs : List γ}
    {ds : List δ} (hs : List.Forall₂ P cs ds)
    (h : ∀ c d, P c d → SameOutcome E R (f c) (g d)) :
    SameOutcome E (List.Forall₂ R) (cs.mapM f) (ds.mapM g) := by
  induction hs with
  | nil => exact .ok .nil
  | cons hcd _ ih =>
    rw [List.mapM_cons, List.mapM_cons]
    exact (h _ _ hcd).bind fun _ _ hab => ih.bind fun _ _ hrest => .ok (.cons hab hrest)

theorem foldlM {P : γ → δ → Prop} {f : α → γ → Except ε α} {g : β → δ → Except ε β}
    {cs : List γ} {ds : List δ} (hs : List.Forall₂ P cs ds)
    (hstep : ∀ a b c d, R a b → P c d → SameOutcome E R (f a c) (g b d)) {a : α} {b : β}
    (h : R a b) : SameOutcome E R (cs.foldlM f a) (ds.foldlM g b) := by
  induction hs generalizing a b with
  | nil => exact .ok h
  | cons hcd _ ih =>
    rw [List.foldlM_cons, List.foldlM_cons]
    exact (hstep _ _ _ _ h hcd).bind fun _ _ h => ih h

theorem exists_of_ok {a : α} {y : Except ε β} (h : SameOutcome E R (.ok a) y) :
    ∃ b, y = .ok b ∧ R a b := by
  cases h with
  | ok h => exact ⟨_, rfl, h⟩

theorem exists_of_error {e : ε} {y : Except ε β} (h : SameOutcome E R (.error e) y) :
    ∃ e', y = .error e' ∧ E e e' := by
  cases h with
  | error h => exact ⟨_, rfl, h⟩

theorem eq_mapError {f : ε → ε} {x y : Except ε α}
    (h : SameOutcome (fun e e' => e' = f e) (· = ·) x y) : y = x.mapError f := by
  cases h with
  | ok h => exact congrArg Except.ok h.symm
  | error h => exact congrArg Except.error h

end SameOutcome

/-- Where one chain of steps succeeds, another one does whose steps go along with it. -/
theorem exists_foldlM_ok {P : γ → δ → Prop} {f : α → γ → Except ε α} {g : β → δ → Except ε β}
    {cs : List γ} {ds : List δ} (hs : List.Forall₂ P cs ds)
    (hstep : ∀ a b c d a', R a b → P c d → f a c = .ok a' → ∃ b', g b d = .ok b' ∧ R a' b')
    {a a' : α} {b : β} (hab : R a b) (h : cs.foldlM f a = .ok a') :
    ∃ b', ds.foldlM g b = .ok b' ∧ R a' b' := by
  induction hs generalizing a b with
  | nil =>
    cases h
    exact ⟨b, rfl, hab⟩
  | cons hcd _ ih =>
    rw [List.foldlM_cons] at h ⊢
    obtain ⟨a₁, ha₁, h⟩ := bind_eq_ok.1 h
    obtain ⟨b₁, hb₁, hab₁⟩ := hstep _ _ _ _ _ hab hcd ha₁
    obtain ⟨b', hb', hab'⟩ := ih hab₁ h
    exact ⟨b', bind_eq_ok.2 ⟨b₁, hb₁, hb'⟩, hab'⟩

end Alike

end QuantumDiagram
