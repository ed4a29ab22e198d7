import Mathlib.Data.List.Basic
import Mathlib.Data.Nat.Basic
import Mathlib.Tactic.Common

/-!
# Computations that can stop

`Exec α` is the result of a computation that can fail to produce a value in two ways: its recursion
bound is used up (`Stop.fuel`), or it does something that has no defined result (`Stop.fault`). The
lemmas are the ones every proof about such a computation starts from: how a bind succeeds, and what
a monadic left fold keeps. `Reach step good s₀` are the states of the runs of a system whose `step`
is such a computation.
-/

namespace Nas

/-- Why a computation has no result. -/
inductive Stop where
  /-- The recursion bound is used up. -/
  | fuel
  /-- The program does something undefined: freed memory, an index outside its array. -/
  | fault
deriving DecidableEq, Repr

abbrev Exec := Except Stop

namespace Exec
variable {α β σ : Type}

theorem bind_eq_ok {x : Exec α} {f : α → Exec β} {b : β} :
    x >>= f = .ok b ↔ ∃ a, x = .ok a ∧ f a = .ok b := by
  cases x <;> simp [bind, Except.bind]

theorem pure_eq_ok {a b : α} : (pure a : Exec α) = .ok b ↔ a = b := by
  simp [pure, Except.pure]

@[simp] theorem ok_bind (a : α) (f : α → Exec β) : (Except.ok a : Exec α) >>= f = f a := rfl

@[simp] theorem error_bind (e : Stop) (f : α → Exec β) : (Except.error e : Exec α) >>= f = .error e := rfl

theorem map_eq_ok {x : Exec α} {f : α → β} {b : β} : f <$> x = .ok b ↔ ∃ a, x = .ok a ∧ f a = b := by
  cases x <;> simp [Functor.map, Except.map]

theorem map_eq_error {x : Exec α} {f : α → β} {e : Stop} :
    f <$> x = .error e ↔ x = .error e := by
  cases x <;> simp [Functor.map, Except.map]

/-- The value behind a pointer that must be valid. -/
def deref (x : Option α) : Exec α :=
  match x with
  | some a => .ok a
  | none => .error .fault

@[simp] theorem deref_eq_ok {x : Option α} {a : α} : deref x = .ok a ↔ x = some a := by
  cases x <;> simp [deref]

@[simp] theorem deref_some (a : α) : deref (some a) = .ok a := rfl

theorem toOption_eq_some {x : Exec α} {a : α} : x.toOption = some a ↔ x = .ok a := by
  cases x <;> simp [Except.toOption]

theorem foldlM_nil_eq_ok {f : σ → α → Exec σ} {s s' : σ} :
    List.foldlM f s [] = .ok s' ↔ s = s' := pure_eq_ok

theorem foldlM_cons_eq_ok {f : σ → α → Exec σ} {a : α} {l : List α} {s s' : σ} :
    List.foldlM f s (a :: l) = .ok s' ↔ ∃ t, f s a = .ok t ∧ List.foldlM f t l = .ok s' := by
  rw [List.foldlM_cons, bind_eq_ok]

theorem foldlM_append_eq_ok {f : σ → α → Exec σ} {l₁ l₂ : List α} {s s' : σ} :
    List.foldlM f s (l₁ ++ l₂) = .ok s' ↔
      ∃ t, List.foldlM f s l₁ = .ok t ∧ List.foldlM f t l₂ = .ok s' := by
  rw [List.foldlM_append, bind_eq_ok]

theorem foldlM_congr {f g : σ → α → Exec σ} {l : List α} (h : ∀ a ∈ l, ∀ s, f s a = g s a) (s : σ) :
    List.foldlM f s l = List.foldlM g s l := by
  induction l generalizing s with
  | nil => rfl
  | cons a l ih =>
    rw [List.foldlM_cons, List.foldlM_cons, h a (by simp)]
    congr 1
    funext t
    exact ih (fun b hb => h b (by simp [hb])) t

/-- A loop in a loop is one loop. -/
theorem foldlM_flatMap {f : σ → β → Exec σ} {g : α → List β} {l : List α} (s : σ) :
    List.foldlM f s (l.flatMap g) = List.foldlM (fun s a => List.foldlM f s (g a)) s l := by
  induction l generalizing s with
  | nil => rfl
  | cons a l ih =>
    rw [List.flatMap_cons, List.foldlM_append, List.foldlM_cons]
    congr 1
    funext t
    exact ih t

/-- A relation that every step of a fold respects holds between the fold's ends. -/
theorem foldlM_rel {f : σ → α → Exec σ} {R : σ → σ → Prop} (hrefl : ∀ s, R s s)
    (htrans : ∀ s t u, R s t → R t u → R s u) {l : List α}
    (hf : ∀ a ∈ l, ∀ s s', f s a = .ok s' → R s s') {s s' : σ}
    (h : List.foldlM f s l = .ok s') : R s s' := by
  induction l generalizing s with
  | nil => rw [foldlM_nil_eq_ok] at h; subst h; exact hrefl s
  | cons a l ih =>
    obtain ⟨t, ht, h⟩ := foldlM_cons_eq_ok.1 h
    exact htrans s t s' (hf a (by simp) s t ht) (ih (fun b hb => hf b (by simp [hb])) h)

/-- An invariant of every step of a fold is an invariant of the fold. -/
theorem foldlM_inv {f : σ → α → Exec σ} {I : σ → Prop} {l : List α}
    (hf : ∀ a ∈ l, ∀ s s', I s → f s a = .ok s' → I s') {s s' : σ} (hs : I s)
    (h : List.foldlM f s l = .ok s') : I s' :=
  foldlM_rel (R := fun s s' => I s → I s') (fun _ h => h) (fun _ _ _ h₁ h₂ h => h₂ (h₁ h))
    (fun a ha s s' he hi => hf a ha s s' hi he) h hs

end Exec

/-! ### Runs -/

section Reach
variable {σ ρ : Type} {step : σ → ρ → Exec σ} {good good' : σ → ρ → Prop} {s₀ s : σ}

/-- The states that steps whose input satisfies `good` lead to from `s₀`. -/
inductive Reach (step : σ → ρ → Exec σ) (good : σ → ρ → Prop) (s₀ : σ) : σ → Prop where
  | init : Reach step good s₀ s₀
  | step {s s' : σ} (r : ρ) : Reach step good s₀ s → good s r → step s r = .ok s' →
      Reach step good s₀ s'

namespace Reach

/-- The invariant rule. -/
theorem inv {I : σ → Prop} (h₀ : I s₀)
    (hstep : ∀ s r s', I s → good s r → step s r = .ok s' → I s') (h : Reach step good s₀ s) : I s := by
  induction h with
  | init => exact h₀
  | step r _ hg he ih => exact hstep _ r _ ih hg he

theorem mono (hg : ∀ s r, good s r → good' s r) (h : Reach step good s₀ s) :
    Reach step good' s₀ s := by
  induction h with
  | init => exact .init
  | step r _ hr he ih => exact .step r ih (hg _ _ hr) he

theorem trans {s' : σ} (h : Reach step good s₀ s) (h' : Reach step good s s') :
    Reach step good s₀ s' := by
  induction h' with
  | init => exact h
  | step r _ hr he ih => exact .step r ih hr he

theorem run {l : List ρ} (h : List.foldlM step s₀ l = .ok s) : Reach step (fun _ _ => True) s₀ s := by
  induction l generalizing s₀ with
  | nil =>
    rw [Exec.foldlM_nil_eq_ok] at h
    subst h
    exact .init
  | cons r l ih =>
    obtain ⟨t, ht, h⟩ := Exec.foldlM_cons_eq_ok.1 h
    exact (Reach.step r .init trivial ht).trans (ih h)

end Reach

end Reach

/-! ### Along a run -/

section
variable {σ ρ : Type}

/-- `P` holds at the start of a run and after each of its steps. -/
def Always (step : σ → ρ → Exec σ) (P : σ → Prop) : List ρ → σ → Prop
  | [], s => P s
  | r :: l, s => P s ∧ ∀ s', step s r = .ok s' → Always step P l s'

/-- Each step of a run is good where it is taken. -/
def Each (step : σ → ρ → Exec σ) (good : σ → ρ → Prop) : List ρ → σ → Prop
  | [], _ => True
  | r :: l, s => good s r ∧ ∀ s', step s r = .ok s' → Each step good l s'

variable {step : σ → ρ → Exec σ} {given good : σ → ρ → Prop} {P I : σ → Prop} {l : List ρ} {s : σ}

theorem Always.start (h : Always step P l s) : P s := by
  cases l with
  | nil => exact h
  | cons r l => exact h.1

theorem Always.run {s' : σ} (h : Always step P l s) (he : List.foldlM step s l = .ok s') : P s' := by
  induction l generalizing s with
  | nil =>
    rw [Exec.foldlM_nil_eq_ok] at he
    subst he
    exact h
  | cons r l ih =>
    obtain ⟨t, ht, he⟩ := Exec.foldlM_cons_eq_ok.1 he
    exact ih (h.2 t ht) he

instance Each.decidable [∀ s r, Decidable (good s r)] : (l : List ρ) → (s : σ) → Decidable (Each step good l s)
  | [], _ => .isTrue trivial
  | r :: l, s =>
    have : Decidable (∀ s', step s r = .ok s' → Each step good l s') :=
      match h : step s r with
      | .ok t =>
        have := Each.decidable l t
        decidable_of_iff (Each step good l t) ⟨fun ht s' he => by cases he; exact ht, fun h' => h' t rfl⟩
      | .error e => .isTrue fun s' he => by cases he
    inferInstanceAs (Decidable (_ ∧ _))

theorem Each.of_forall (h : ∀ r ∈ l, ∀ s, good s r) : Each step good l s := by
  induction l generalizing s with
  | nil => trivial
  | cons r l ih => exact ⟨h r (by simp) s, fun _ _ => ih fun r' hr => h r' (by simp [hr])⟩

theorem Each.append {l' : List ρ} {t : σ} (h : Each step good l s) (he : List.foldlM step s l = .ok t)
    (h' : Each step good l' t) : Each step good (l ++ l') s := by
  induction l generalizing s with
  | nil =>
    rw [Exec.foldlM_nil_eq_ok] at he
    subst he
    exact h'
  | cons r l ih =>
    obtain ⟨u, hu, he⟩ := Exec.foldlM_cons_eq_ok.1 he
    refine ⟨h.1, fun s' hs' => ?_⟩
    rw [hu] at hs'
    cases hs'
    exact ih (h.2 u hu) he

/-- Of a run whose steps are good, the invariant says more. -/
theorem Each.of_inv {good' : σ → ρ → Prop} (hstep : ∀ s r s', I s → given s r → good s r → step s r = .ok s' → I s')
    (h' : ∀ s r, I s → given s r → good s r → good' s r) (hs : I s) (hgiven : Each step given l s)
    (h : Each step good l s) : Each step good' l s := by
  induction l generalizing s with
  | nil => trivial
  | cons r l ih =>
    exact ⟨h' s r hs hgiven.1 h.1, fun s' he => ih (hstep s r s' hs hgiven.1 h.1 he) (hgiven.2 s' he) (h.2 s' he)⟩

/-- The invariant rule along a run with given steps, with what goes wrong at a step that is not good. -/
theorem always_iff_each (hI : ∀ s, I s → P s)
    (hstep : ∀ s r s', I s → given s r → good s r → step s r = .ok s' → I s')
    (hbad : ∀ s r, I s → given s r → ¬ good s r → ∃ s', step s r = .ok s' ∧ ¬ P s') (hs : I s)
    (hgiven : Each step given l s) : Always step P l s ↔ Each step good l s := by
  induction l generalizing s with
  | nil => exact ⟨fun _ => trivial, fun _ => hI s hs⟩
  | cons r l ih =>
    obtain ⟨hr, hgiven⟩ := hgiven
    constructor
    · rintro ⟨-, h⟩
      have hgood : good s r := by
        by_contra hnot
        obtain ⟨s', he, hP⟩ := hbad s r hs hr hnot
        exact hP (h s' he).start
      exact ⟨hgood, fun s' he => (ih (hstep s r s' hs hr hgood he) (hgiven s' he)).1 (h s' he)⟩
    · rintro ⟨hgood, h⟩
      exact ⟨hI s hs, fun s' he => (ih (hstep s r s' hs hr hgood he) (hgiven s' he)).2 (h s' he)⟩

/-- `P` holds at the start of a run, and every step of it has a result, after which `P` holds. -/
def Throughout (step : σ → ρ → Exec σ) (P : σ → Prop) : List ρ → σ → Prop
  | [], s => P s
  | r :: l, s => P s ∧ ∃ s', step s r = .ok s' ∧ Throughout step P l s'

theorem Throughout.start (h : Throughout step P l s) : P s := by
  cases l with
  | nil => exact h
  | cons r l => exact h.1

theorem Throughout.runs (h : Throughout step P l s) : ∃ s', List.foldlM step s l = .ok s' := by
  induction l generalizing s with
  | nil => exact ⟨s, rfl⟩
  | cons r l ih =>
    obtain ⟨-, t, ht, h⟩ := h
    obtain ⟨s', hs'⟩ := ih h
    exact ⟨s', by rw [List.foldlM_cons, ht]; exact hs'⟩

/-- The invariant rule for runs all of whose steps have results. -/
theorem throughout_iff_each (hI : ∀ s, I s → P s) (hstep : ∀ s r, I s → good s r → ∃ s', step s r = .ok s' ∧ I s')
    (hbad : ∀ s r s', I s → ¬ good s r → step s r = .ok s' → ¬ P s') (hs : I s) :
    Throughout step P l s ↔ Each step good l s := by
  induction l generalizing s with
  | nil => exact ⟨fun _ => trivial, fun _ => hI s hs⟩
  | cons r l ih =>
    constructor
    · rintro ⟨-, s', he, h⟩
      have hgood : good s r := by
        by_contra hnot
        exact hbad s r s' hs hnot he h.start
      obtain ⟨t, ht, hI'⟩ := hstep s r hs hgood
      rw [he] at ht
      cases ht
      refine ⟨hgood, fun s'' he' => ?_⟩
      rw [he] at he'
      cases he'
      exact (ih hI').1 h
    · rintro ⟨hgood, h⟩
      obtain ⟨t, ht, hI'⟩ := hstep s r hs hgood
      exact ⟨hI s hs, t, ht, (ih hI').2 (h t ht)⟩

end

end Nas
