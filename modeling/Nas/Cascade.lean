import Nas.Exec
import Mathlib.Order.Preorder.Finite
import Mathlib.Logic.Relation
import Mathlib.Order.WellFounded

/-!
# Recursions that set off calls

A `Cascade` is a recursive procedure on a state. A call of it enters (changes the state and finds out
what to go through), visits one item after the other, each of which sets off further calls in the state
as it then is, and leaves. `run` bounds the recursion by fuel; `Ends` says that some bound is enough.

`SetsOff` relates a call to the calls it makes itself, each with the state it is made in. Along a
relation `R` between states that every part of the procedure respects, so does the whole (`run_rel`).

`ends_iff`: where only finitely many keys (a call together with the part of the state that steers the
recursion) can come up, a call ends if and only if no call that it leads to leads to one with the same
key again. Calls with the same key run in lockstep (`run_lockstep`), so such a call needs as much fuel as
one inside it.
-/

namespace Nas

open Relation

namespace Exec
variable {α β α' β' : Type}

/-- Two results are the same up to `R`. -/
def Rel (R : α → β → Prop) : Exec α → Exec β → Prop
  | .ok a, .ok b => R a b
  | .error e, .error e' => e = e'
  | _, _ => False

namespace Rel
variable {R : α → β → Prop} {R' : α' → β' → Prop} {x : Exec α} {y : Exec β}

theorem error_iff (h : Rel R x y) {e : Stop} : x = .error e ↔ y = .error e := by
  cases x <;> cases y <;> simp_all [Rel]

theorem bind {f : α → Exec α'} {g : β → Exec β'} (h : Rel R x y)
    (hf : ∀ a b, R a b → Rel R' (f a) (g b)) : Rel R' (x >>= f) (y >>= g) := by
  cases x <;> cases y <;> simp_all [Rel]

theorem foldlM {σ τ ι : Type} {R : σ → τ → Prop} {f : σ → ι → Exec σ} {g : τ → ι → Exec τ}
    (hf : ∀ i s t, R s t → Rel R (f s i) (g t i)) (l : List ι) {s : σ} {t : τ} (h : R s t) :
    Rel R (l.foldlM f s) (l.foldlM g t) := by
  induction l generalizing s t with
  | nil => exact h
  | cons i l ih =>
    rw [List.foldlM_cons, List.foldlM_cons]
    exact (hf i s t h).bind fun _ _ h => ih h

end Rel

end Exec

/-- `L` is what a call remembers from entering until it leaves. -/
structure Cascade (Call Item L S : Type) where
  enter : Call → S → Exec (List Item × L × S)
  visit : Call → Item → S → Exec (List Call × S)
  leave : Call → L → S → Exec S

namespace Cascade
variable {Call Item L S : Type} (C : Cascade Call Item L S)

/-- One call after the other. -/
def calls (rec : Call → S → Exec S) (cs : List Call) (s : S) : Exec S := cs.foldlM (fun s c => rec c s) s

/-- Go through items, with `rec` for the calls they set off. -/
def visits (rec : Call → S → Exec S) (c : Call) (is : List Item) (s : S) : Exec S :=
  is.foldlM (fun s i => do
    let (cs, s) ← C.visit c i s
    calls rec cs s) s

/-- A call, with `rec` for the calls it sets off. -/
def body (rec : Call → S → Exec S) (c : Call) (s : S) : Exec S := do
  let (is, l, s) ← C.enter c s
  let s ← C.visits rec c is s
  C.leave c l s

def run : (fuel : Nat) → Call → S → Exec S
  | 0, _, _ => .error .fuel
  | fuel + 1, c, s => C.body (run fuel) c s

/-- The recursion comes to an end: with a result, or because something undefined is done. -/
def Ends (x : Call × S) : Prop := ∃ n, C.run n x.1 x.2 ≠ .error .fuel

def Returns (c : Call) (s s' : S) : Prop := ∃ n, C.run n c s = .ok s'

/-- A move of a call between entering and leaving. What is left of it are the calls the current item has
still to set off, the further items, and the state. -/
inductive Move (c : Call) : List Call × List Item × S → List Call × List Item × S → Prop where
  | visit {i : Item} {is : List Item} {cs : List Call} {s s' : S} : C.visit c i s = .ok (cs, s') →
      Move c ([], i :: is, s) (cs, is, s')
  | call {c' : Call} {cs : List Call} {is : List Item} {s s' : S} : C.Returns c' s s' →
      Move c (c' :: cs, is, s) (cs, is, s')

/-- The first call makes the second one itself. -/
def SetsOff (x y : Call × S) : Prop :=
  ∃ is l s cs is', C.enter x.1 x.2 = .ok (is, l, s) ∧
    ReflTransGen (C.Move x.1) ([], is, s) (y.1 :: cs, is', y.2)

variable {C}
variable {c : Call} {s s' : S} {n m : Nat} {x y z : Call × S}

/-! ### What a call keeps -/

section Rules
variable {P : Call → S → Prop} {R : S → S → Prop}

/-- The parts of the procedure respect `R`, on calls that satisfy `P`. -/
structure Respects (C : Cascade Call Item L S) (P : Call → S → Prop) (R : S → S → Prop) : Prop where
  refl : ∀ s, R s s
  trans : ∀ s t u, R s t → R t u → R s u
  stable : ∀ {c s s'}, R s s' → P c s → P c s'
  enter : ∀ {c s is l s'}, P c s → C.enter c s = .ok (is, l, s') → R s s'
  visit : ∀ {c i s cs s'}, P c s → C.visit c i s = .ok (cs, s') → R s s' ∧ ∀ c' ∈ cs, P c' s'
  leave : ∀ {c l s s'}, P c s → C.leave c l s = .ok s' → R s s'

theorem body_eq_ok {rec : Call → S → Exec S} : C.body rec c s = .ok s' ↔
    ∃ is l s₁ s₂, C.enter c s = .ok (is, l, s₁) ∧ C.visits rec c is s₁ = .ok s₂ ∧
      C.leave c l s₂ = .ok s' := by
  simp only [body, Exec.bind_eq_ok, Prod.exists]
  constructor
  · rintro ⟨is, l, s₁, he, s₂, hv, hl⟩
    exact ⟨is, l, s₁, s₂, he, hv, hl⟩
  · rintro ⟨is, l, s₁, s₂, he, hv, hl⟩
    exact ⟨is, l, s₁, he, s₂, hv, hl⟩

section Fold
variable (h : C.Respects P R) {rec : Call → S → Exec S}
  (hrec : ∀ c s s', P c s → rec c s = .ok s' → R s s')
include h hrec

theorem Respects.calls {cs : List Call} (hcs : ∀ c ∈ cs, P c s) (he : calls rec cs s = .ok s') : R s s' := by
  induction cs generalizing s with
  | nil => obtain rfl := Exec.foldlM_nil_eq_ok.1 he; exact h.refl s
  | cons c cs ih =>
    obtain ⟨t, ht, he⟩ := Exec.foldlM_cons_eq_ok.1 he
    have hst := hrec c s t (hcs c (by simp)) ht
    exact h.trans _ _ _ hst (ih (fun c' hc' => h.stable hst (hcs c' (by simp [hc']))) he)

theorem Respects.visits (hc : P c s) {is : List Item} (he : C.visits rec c is s = .ok s') : R s s' := by
  induction is generalizing s with
  | nil => obtain rfl := Exec.foldlM_nil_eq_ok.1 he; exact h.refl s
  | cons i is ih =>
    obtain ⟨t, ht, he⟩ := Exec.foldlM_cons_eq_ok.1 he
    obtain ⟨⟨cs, t₁⟩, ht₁, ht⟩ := Exec.bind_eq_ok.1 ht
    obtain ⟨h₁, hcs⟩ := h.visit hc ht₁
    have hst := h.trans _ _ _ h₁ (h.calls hrec hcs ht)
    exact h.trans _ _ _ hst (ih (h.stable hst hc) he)

end Fold

theorem run_rel (h : C.Respects P R) (hc : P c s) (he : C.run n c s = .ok s') : R s s' := by
  induction n generalizing c s s' with
  | zero => simp [run] at he
  | succ n ih =>
    obtain ⟨is, l, s₁, s₂, he, hv, hl⟩ := body_eq_ok.1 he
    have h₁ := h.enter hc he
    have h₂ := h.visits (fun _ _ _ hp hr => ih hp hr) (h.stable h₁ hc) hv
    have h₂' := h.trans _ _ _ h₁ h₂
    exact h.trans _ _ _ h₂' (h.leave (h.stable h₂' hc) hl)

end Rules

/-! ### Fuel -/

section Mono
variable {rec rec' : Call → S → Exec S} (h : ∀ c s, rec c s ≠ .error .fuel → rec' c s = rec c s)
include h

theorem calls_mono (cs : List Call) (s : S) (hn : calls rec cs s ≠ .error .fuel) :
    calls rec' cs s = calls rec cs s := by
  induction cs generalizing s with
  | nil => rfl
  | cons c cs ih =>
    simp only [calls, List.foldlM_cons] at hn ih ⊢
    have hc : rec c s ≠ .error .fuel := by intro hc; simp [hc] at hn
    rw [h c s hc]
    cases hr : rec c s with
    | error e => rfl
    | ok t =>
      rw [hr, Exec.ok_bind] at hn
      exact ih t hn

theorem visits_mono (is : List Item) (s : S) (hn : C.visits rec c is s ≠ .error .fuel) :
    C.visits rec' c is s = C.visits rec c is s := by
  induction is generalizing s with
  | nil => rfl
  | cons i is ih =>
    simp only [visits, List.foldlM_cons] at hn ih ⊢
    cases hv : C.visit c i s with
    | error e => simp
    | ok r =>
      obtain ⟨cs, t⟩ := r
      simp only [hv, Exec.ok_bind] at hn ⊢
      have hc : calls rec cs t ≠ .error .fuel := by intro hc; simp [hc] at hn
      rw [calls_mono h cs t hc]
      cases hr : calls rec cs t with
      | error e => rfl
      | ok u =>
        rw [hr, Exec.ok_bind] at hn
        exact ih u hn

end Mono

theorem run_succ (hn : C.run n c s ≠ .error .fuel) : C.run (n + 1) c s = C.run n c s := by
  induction n generalizing c s with
  | zero => simp [run] at hn
  | succ n ih =>
    have hr : ∀ c s, C.run n c s ≠ .error .fuel → C.run (n + 1) c s = C.run n c s := fun _ _ h => ih h
    rw [run, body] at hn
    change C.body (C.run (n + 1)) c s = C.body (C.run n) c s
    unfold body
    cases he : C.enter c s with
    | error e => rfl
    | ok r =>
      obtain ⟨is, l, t⟩ := r
      simp only [he, Exec.ok_bind] at hn ⊢
      have hv : C.visits (C.run n) c is t ≠ .error .fuel := by intro hv; simp [hv] at hn
      rw [visits_mono hr is t hv]

theorem run_mono (hn : C.run n c s ≠ .error .fuel) (h : n ≤ m) : C.run m c s = C.run n c s := by
  induction h with
  | refl => rfl
  | step _ ih => rw [run_succ (by rwa [ih]), ih]

theorem Returns.run_eq (h : C.Returns c s s') (hn : C.run n c s ≠ .error .fuel) :
    C.run n c s = .ok s' := by
  obtain ⟨m, hm⟩ := h
  rcases Nat.le_total n m with hnm | hnm
  · rw [← run_mono hn hnm, hm]
  · rw [run_mono (by simp [hm]) hnm, hm]

/-! ### Ends -/

/-- What is left of a call, with `rec` for the calls it sets off. -/
def rest (C : Cascade Call Item L S) (rec : Call → S → Exec S) (c : Call)
    (p : List Call × List Item × S) : Exec S := do
  let s ← calls rec p.1 p.2.2
  C.visits rec c p.2.1 s

theorem rest_call {rec : Call → S → Exec S} {c' : Call} {cs : List Call} {is : List Item} {t : S}
    (h : rec c' s = .ok t) : C.rest rec c (c' :: cs, is, s) = C.rest rec c (cs, is, t) := by
  simp [rest, calls, h]

theorem rest_visit {rec : Call → S → Exec S} {i : Item} {cs : List Call} {is : List Item} {t : S}
    (h : C.visit c i s = .ok (cs, t)) : C.rest rec c ([], i :: is, s) = C.rest rec c (cs, is, t) := by
  simp [rest, calls, visits, h]

theorem rest_mono {p : List Call × List Item × S} (hn : C.rest (C.run n) c p ≠ .error .fuel)
    (h : n ≤ m) : C.rest (C.run m) c p = C.rest (C.run n) c p := by
  have hr : ∀ c s, C.run n c s ≠ .error .fuel → C.run m c s = C.run n c s := fun _ _ hr => run_mono hr h
  unfold rest at hn ⊢
  have hc : calls (C.run n) p.1 p.2.2 ≠ .error .fuel := by intro hc; simp [hc] at hn
  rw [calls_mono hr _ _ hc]
  cases ht : calls (C.run n) p.1 p.2.2 with
  | error e => rfl
  | ok t =>
    rw [ht, Exec.ok_bind] at hn
    exact visits_mono hr _ _ hn

theorem rest_moves {p q : List Call × List Item × S} (h : ReflTransGen (C.Move c) p q)
    (hn : C.rest (C.run n) c p ≠ .error .fuel) : C.rest (C.run n) c q ≠ .error .fuel := by
  induction h with
  | refl => exact hn
  | tail _ hmove ih =>
    cases hmove with
    | visit hv => rwa [rest_visit hv] at ih
    | @call c' cs is s s' hr =>
      have hc : C.run n c' s ≠ .error .fuel := by intro hc; simp [rest, calls, hc] at ih
      rwa [rest_call (hr.run_eq hc)] at ih

/-- A call that ends with some fuel sets off calls that end with less. -/
theorem run_setsOff (h : C.SetsOff x y) (hn : C.run n x.1 x.2 ≠ .error .fuel) :
    ∃ m < n, C.run m y.1 y.2 ≠ .error .fuel := by
  obtain ⟨is, l, s, cs, is', he, hm⟩ := h
  obtain _ | n := n
  · simp [run] at hn
  · refine ⟨n, by omega, ?_⟩
    have hs : C.rest (C.run n) x.1 ([], is, s) ≠ .error .fuel := by
      intro hs
      simp only [rest, calls, List.foldlM_nil, pure_bind] at hs
      simp [run, body, he, hs] at hn
    have hq := rest_moves hm hs
    intro hy
    simp [rest, calls, hy] at hq

theorem run_transGen (h : TransGen C.SetsOff x y) (hn : C.run n x.1 x.2 ≠ .error .fuel) :
    ∃ m < n, C.run m y.1 y.2 ≠ .error .fuel := by
  induction h with
  | single h => exact run_setsOff h hn
  | tail _ h ih =>
    obtain ⟨m, hm, hr⟩ := ih
    obtain ⟨k, hk, hr⟩ := run_setsOff h hr
    exact ⟨k, by omega, hr⟩

theorem ends_reflTransGen (h : ReflTransGen C.SetsOff x y) (hx : C.Ends x) : C.Ends y := by
  obtain ⟨n, hn⟩ := hx
  rcases h.cases_head with rfl | ⟨z, hz, h⟩
  · exact ⟨n, hn⟩
  · obtain ⟨m, -, hm⟩ := run_transGen (TransGen.head' hz h) hn
    exact ⟨m, hm⟩

/-- The parts of the procedure do not run out of fuel themselves while `I` holds, and keep it. -/
structure Tame (C : Cascade Call Item L S) (I : S → Prop) : Prop where
  enter : ∀ c s, I s → C.enter c s ≠ .error .fuel ∧ ∀ is l s', C.enter c s = .ok (is, l, s') → I s'
  visit : ∀ c i s, I s → C.visit c i s ≠ .error .fuel ∧ ∀ cs s', C.visit c i s = .ok (cs, s') → I s'
  leave : ∀ c l s, I s → C.leave c l s ≠ .error .fuel ∧ ∀ s', C.leave c l s = .ok s' → I s'

section Tame
variable {I : S → Prop} (hT : C.Tame I)
include hT

theorem Tame.respects : C.Respects (fun _ _ => True) fun s s' => I s → I s' where
  refl _ h := h
  trans _ _ _ h h' hs := h' (h hs)
  stable _ _ := trivial
  enter _ he hs := (hT.enter _ _ hs).2 _ _ _ he
  visit _ hv := ⟨fun hs => (hT.visit _ _ _ hs).2 _ _ hv, fun _ _ => trivial⟩
  leave _ hl hs := (hT.leave _ _ _ hs).2 _ hl

theorem Tame.returns (h : C.Returns c s s') (hs : I s) : I s' := by
  obtain ⟨n, hn⟩ := h
  exact run_rel hT.respects trivial hn hs

theorem Tame.rest_call_ends (hends : ∀ c' s', I s' → C.SetsOff x (c', s') → C.Ends (c', s'))
    {is₀ : List Item} {l : L} {s₀ : S} (he : C.enter x.1 x.2 = .ok (is₀, l, s₀)) {c' : Call}
    {cs : List Call} {is : List Item} {s : S} (hI : I s)
    (hm : ReflTransGen (C.Move x.1) ([], is₀, s₀) (c' :: cs, is, s))
    (ih : ∀ t, I t → ReflTransGen (C.Move x.1) ([], is₀, s₀) (cs, is, t) →
      ∃ n, C.rest (C.run n) x.1 (cs, is, t) ≠ .error .fuel) :
    ∃ n, C.rest (C.run n) x.1 (c' :: cs, is, s) ≠ .error .fuel := by
  obtain ⟨n, hn⟩ := hends c' s hI ⟨_, _, _, _, _, he, hm⟩
  cases hr : C.run n c' s with
  | error e => exact ⟨n, by simpa [rest, calls, hr] using fun h => hn (by rw [hr, h])⟩
  | ok t =>
    obtain ⟨k, hk⟩ := ih t (hT.returns ⟨n, hr⟩ hI) (hm.tail (.call ⟨n, hr⟩))
    refine ⟨max n k, ?_⟩
    rw [rest_call (run_mono hn (Nat.le_max_left n k) |>.trans hr)]
    rwa [rest_mono hk (Nat.le_max_right n k)]

/-- What is left of a call ends when the calls it sets off do. -/
theorem Tame.rest_ends (hends : ∀ c' s', I s' → C.SetsOff x (c', s') → C.Ends (c', s'))
    {is₀ : List Item} {l : L} {s₀ : S} (he : C.enter x.1 x.2 = .ok (is₀, l, s₀)) :
    ∀ (is : List Item) (cs : List Call) (s : S), I s →
      ReflTransGen (C.Move x.1) ([], is₀, s₀) (cs, is, s) →
      ∃ n, C.rest (C.run n) x.1 (cs, is, s) ≠ .error .fuel := by
  intro is
  induction is with
  | nil =>
    intro cs
    induction cs with
    | nil => exact fun s _ _ => ⟨0, by simp [rest, calls, visits, pure, Except.pure]⟩
    | cons c' cs ih => exact fun s hI hm => hT.rest_call_ends hends he hI hm ih
  | cons i is ihis =>
    intro cs
    induction cs with
    | nil =>
      intro s hI hm
      have hv := hT.visit x.1 i s hI
      cases hr : C.visit x.1 i s with
      | error e => exact ⟨0, by simpa [rest, calls, visits, hr] using fun h => hv.1 (by rw [hr, h])⟩
      | ok r =>
        obtain ⟨cs, t⟩ := r
        obtain ⟨n, hn⟩ := ihis cs t (hv.2 cs t hr) (hm.tail (.visit hr))
        exact ⟨n, by rwa [rest_visit hr]⟩
    | cons c' cs ih => exact fun s hI hm => hT.rest_call_ends hends he hI hm ih

/-- A call ends when all the calls it sets off do. -/
theorem Tame.ends (hx : I x.2) (hends : ∀ c' s', I s' → C.SetsOff x (c', s') → C.Ends (c', s')) :
    C.Ends x := by
  have hI := hT.enter x.1 x.2 hx
  cases he : C.enter x.1 x.2 with
  | error e => exact ⟨1, by simpa [run, body, he] using fun h => hI.1 (by rw [he, h])⟩
  | ok r =>
    obtain ⟨is, l, s⟩ := r
    have hs := hI.2 _ _ _ he
    obtain ⟨n, hn⟩ := hT.rest_ends hends he is [] s hs .refl
    refine ⟨n + 1, ?_⟩
    have hv : C.rest (C.run n) x.1 ([], is, s) = C.visits (C.run n) x.1 is s := by simp [rest, calls]
    rw [hv] at hn
    simp only [run, body, he, Exec.ok_bind]
    cases hr : C.visits (C.run n) x.1 is s with
    | error e => simpa [hr] using hn
    | ok t =>
      have ht : I t := by
        refine Exec.foldlM_inv (fun i _ u u' hu h => ?_) hs hr
        obtain ⟨⟨cs, u₁⟩, h₁, h⟩ := Exec.bind_eq_ok.1 h
        exact Exec.foldlM_inv (fun c' _ v v' hv h => hT.returns ⟨n, h⟩ hv) ((hT.visit _ _ _ hu).2 _ _ h₁) h
      exact (hT.leave _ _ _ ht).1

theorem Tame.setsOff (hx : I x.2) (h : C.SetsOff x y) : I y.2 := by
  obtain ⟨is, l, s, cs, is', he, hm⟩ := h
  have hs : I s := (hT.enter _ _ hx).2 _ _ _ he
  have key : ∀ p q, ReflTransGen (C.Move x.1) p q → I p.2.2 → I q.2.2 := by
    intro p q hpq hp
    induction hpq with
    | refl => exact hp
    | tail _ hmove ih =>
      cases hmove with
      | visit hv => exact (hT.visit _ _ _ ih).2 _ _ hv
      | call hr => exact hT.returns hr ih
  exact key _ _ hm hs

theorem Tame.ends_of_acc (hx : I x.2) (hacc : Acc (fun y z => C.SetsOff z y) x) : C.Ends x := by
  induction hacc with
  | intro x _ ih => exact hT.ends hx fun c' s' hs hoff => ih (c', s') hoff hs

end Tame

/-! ### Calls that come up again -/

/-- On states that `B` relates the parts of the procedure do the same. -/
structure Lockstep (C : Cascade Call Item L S) (B : S → S → Prop) : Prop where
  enter : ∀ c s t, B s t → Exec.Rel (fun x y => x.1 = y.1 ∧ x.2.1 = y.2.1 ∧ B x.2.2 y.2.2)
    (C.enter c s) (C.enter c t)
  visit : ∀ c i s t, B s t → Exec.Rel (fun x y => x.1 = y.1 ∧ B x.2 y.2) (C.visit c i s) (C.visit c i t)
  leave : ∀ c l s t, B s t → Exec.Rel B (C.leave c l s) (C.leave c l t)

theorem Lockstep.run {B : S → S → Prop} (h : C.Lockstep B) {t : S} (hst : B s t) :
    Exec.Rel B (C.run n c s) (C.run n c t) := by
  induction n generalizing c s t with
  | zero => rfl
  | succ n ih =>
    refine (h.enter c s t hst).bind fun a b hab => ?_
    obtain ⟨is, l, s₁⟩ := a
    obtain ⟨is', l', t₁⟩ := b
    obtain ⟨rfl, rfl, h₁⟩ := hab
    refine (Exec.Rel.foldlM (fun i u v huv => ?_) is h₁).bind fun _ _ h₂ => h.leave c l _ _ h₂
    refine (h.visit c i u v huv).bind fun a b hab => ?_
    obtain ⟨cs, u₁⟩ := a
    obtain ⟨cs', v₁⟩ := b
    obtain ⟨rfl, h₂⟩ := hab
    exact Exec.Rel.foldlM (f := fun s c => C.run n c s) (g := fun s c => C.run n c s)
      (fun c' _ _ h => ih h) cs h₂

/-- Infinitely many calls inside each other have two with the same key, when there are finitely many keys. -/
theorem acc_of_finite {α β : Type} {r : α → α → Prop} {key : α → β} {a : α}
    (hfin : (key '' {b | ReflTransGen r a b}).Finite)
    (h : ¬ ∃ b c, ReflTransGen r a b ∧ TransGen r b c ∧ key b = key c) : Acc (fun b c => r c b) a := by
  by_contra hacc
  obtain ⟨f, rfl, hf⟩ := not_acc_iff_exists_descending_chain.1 hacc
  have hreach : ∀ n, ReflTransGen r (f 0) (f n) := by
    intro n
    induction n with
    | zero => exact .refl
    | succ n ih => exact ih.tail (hf n)
  have hlt : ∀ i k, TransGen r (f i) (f (i + k + 1)) := by
    intro i k
    induction k with
    | zero => exact .single (hf i)
    | succ k ih => exact ih.tail (hf _)
  have hmem : ∀ n, key (f n) ∈ key '' {b | ReflTransGen r (f 0) b} := fun n => ⟨f n, hreach n, rfl⟩
  obtain ⟨i, j, hij, heq⟩ := Set.Finite.exists_lt_map_eq_of_forall_mem hmem hfin
  obtain ⟨k, rfl⟩ := Nat.exists_eq_add_of_lt hij
  exact h ⟨f i, f (i + k + 1), hreach i, hlt i k, heq⟩

/-- A call inside which a call comes up again with the same key does not end. -/
theorem Lockstep.not_ends {B : S → S → Prop} (h : C.Lockstep B) (hy : ReflTransGen C.SetsOff x y)
    (hz : TransGen C.SetsOff y z) (hc : y.1 = z.1) (hB : B y.2 z.2) : ¬ C.Ends x := by
  intro hx
  have hends := ends_reflTransGen hy hx
  classical
  obtain ⟨m, hm, hr⟩ := run_transGen hz (Nat.find_spec hends)
  refine Nat.find_min hends hm fun hf => hr ?_
  have hrel : Exec.Rel B (C.run m y.1 y.2) (C.run m z.1 z.2) := by
    rw [← hc]; exact h.run hB
  exact hrel.error_iff.1 hf

/-- A call ends if and only if inside no call it leads to the same one comes up again. -/
theorem ends_iff {I : S → Prop} {B : S → S → Prop} {β : Type} {key : Call × S → β} (hT : C.Tame I)
    (hL : C.Lockstep B) (hx : I x.2) (hfin : (key '' {y | ReflTransGen C.SetsOff x y}).Finite)
    (hkey : ∀ y z, ReflTransGen C.SetsOff x y → ReflTransGen C.SetsOff x z → key y = key z →
      y.1 = z.1 ∧ B y.2 z.2) :
    C.Ends x ↔ ¬ ∃ y z, ReflTransGen C.SetsOff x y ∧ TransGen C.SetsOff y z ∧ key y = key z := by
  constructor
  · rintro hends ⟨y, z, hy, hz, heq⟩
    obtain ⟨hc, hB⟩ := hkey y z hy (hy.trans hz.to_reflTransGen) heq
    exact hL.not_ends hy hz hc hB hends
  · exact fun h => hT.ends_of_acc hx (acc_of_finite hfin h)

end Cascade

end Nas
