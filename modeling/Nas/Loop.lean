import Nas.Exec
import Mathlib.Data.Set.Finite.Basic
import Mathlib.Data.Fintype.EquivFin
import Mathlib.Data.Finite.Prod
import Mathlib.Data.Fintype.Pigeonhole

/-!
# Loops

A loop whose turns go on with another state, stop with a result, or have none. `Halts` says that it does not go on for
ever. Where what decides about going on is a `key` of the state that has finitely many values, that is to say that no
key comes twice (`halts_iff`); it is enough that each turn makes some measure smaller (`halts_of_measure`).
-/

namespace Nas

inductive Turn (σ α : Type) where
  | next (s : σ)
  | stop (a : α)
deriving DecidableEq

namespace Turn
variable {σ α κ : Type} {turn : σ → Exec (Turn σ α)} {s t u : σ} {n m i j : Nat} {key : σ → κ}

def loop (turn : σ → Exec (Turn σ α)) : Nat → σ → Exec α
  | 0, _ => .error .fuel
  | n + 1, s => do
    match ← turn s with
    | .next s' => loop turn n s'
    | .stop a => .ok a

/-- The state after some turns, all of which went on. -/
def after (turn : σ → Exec (Turn σ α)) : Nat → σ → Option σ
  | 0, s => some s
  | n + 1, s =>
    match turn s with
    | .ok (.next s') => after turn n s'
    | _ => none

def Halts (turn : σ → Exec (Turn σ α)) (s : σ) : Prop := ∃ n, loop turn n s ≠ .error .fuel

/-- A turn goes on from one state to another. -/
def Goes (turn : σ → Exec (Turn σ α)) (s t : σ) : Prop := turn s = .ok (.next t)

theorem after_goes (h : Goes turn s t) : after turn (n + 1) s = after turn n t := by
  rw [after, h]

theorem after_stays (h : ∀ t, ¬ Goes turn s t) : after turn (n + 1) s = none := by
  rw [after]
  split
  · exact absurd ‹_› (h _)
  · rfl

theorem after_succ : after turn (n + 1) s = (after turn n s).bind fun t => after turn 1 t := by
  induction n generalizing s with
  | zero => rfl
  | succ n ih =>
    by_cases hgo : ∃ t, Goes turn s t
    · obtain ⟨t, ht⟩ := hgo
      rw [after_goes ht, after_goes ht, ih]
    · rw [after_stays (not_exists.1 hgo), after_stays (not_exists.1 hgo)]
      rfl

theorem after_add : after turn (n + m) s = (after turn n s).bind (after turn m) := by
  induction n generalizing s with
  | zero => rw [Nat.zero_add, after, Option.bind_some]
  | succ n ih =>
    rw [Nat.succ_add]
    by_cases hgo : ∃ t, Goes turn s t
    · obtain ⟨t, ht⟩ := hgo
      rw [after_goes ht, after_goes ht, ih]
    · rw [after_stays (not_exists.1 hgo), after_stays (not_exists.1 hgo)]
      rfl

theorem after_none_of_le (hnm : n ≤ m) (h : after turn n s = none) : after turn m s = none := by
  obtain ⟨k, rfl⟩ := Nat.exists_eq_add_of_le hnm
  rw [after_add, h]
  rfl

theorem after_inv {I : σ → Prop} (hI : I s) (hstep : ∀ t u, I t → Goes turn t u → I u) (h : after turn n s = some t) :
    I t := by
  induction n generalizing s with
  | zero =>
    cases h
    exact hI
  | succ n ih =>
    by_cases hgo : ∃ u, Goes turn s u
    · obtain ⟨u, hu⟩ := hgo
      rw [after_goes hu] at h
      exact ih (hstep s u hI hu) h
    · rw [after_stays (not_exists.1 hgo)] at h
      cases h

/-- A loop is out of fuel as long as it goes on. -/
theorem loop_eq_fuel (hturn : ∀ t, turn t ≠ .error .fuel) : loop turn n s = .error .fuel ↔ (after turn n s).isSome := by
  induction n generalizing s with
  | zero => exact ⟨fun _ => rfl, fun _ => rfl⟩
  | succ n ih =>
    rw [loop, after]
    rcases hs : turn s with e | (t | a)
    · have hne : e ≠ .fuel := fun he => hturn s (by rw [hs, he])
      simp [hne]
    · exact ih
    · simp

theorem halts_iff_none (hturn : ∀ t, turn t ≠ .error .fuel) : Halts turn s ↔ ∃ n, after turn n s = none := by
  constructor
  · rintro ⟨n, hn⟩
    rw [Ne, loop_eq_fuel hturn, Option.not_isSome_iff_eq_none] at hn
    exact ⟨n, hn⟩
  · rintro ⟨n, hn⟩
    refine ⟨n, ?_⟩
    rw [Ne, loop_eq_fuel hturn, hn]
    simp

/-- The result of a loop does not depend on the fuel. -/
theorem loop_mono (hn : loop turn n s ≠ .error .fuel) (hnm : n ≤ m) : loop turn m s = loop turn n s := by
  induction n generalizing s m with
  | zero => exact absurd rfl hn
  | succ n ih =>
    obtain ⟨m, rfl⟩ : ∃ k, m = k + 1 := ⟨m - 1, by omega⟩
    rw [loop] at hn ⊢
    rw [loop]
    rcases hs : turn s with e | (t | a)
    · rfl
    · rw [hs] at hn
      exact ih hn (by omega)
    · rfl

theorem Halts.of_le (h : Halts turn s) : ∃ n, ∀ m, n ≤ m → loop turn m s ≠ .error .fuel := by
  obtain ⟨n, hn⟩ := h
  exact ⟨n, fun m hm => by rwa [loop_mono hn hm]⟩

theorem loop_stuck (h : Goes turn s s) : loop turn n s = .error .fuel := by
  induction n with
  | zero => rfl
  | succ n ih =>
    rw [loop, h]
    exact ih

/-- A loop ends where a turn stops or fails. -/
theorem loop_eq_iff {r : Exec α} (hr : r ≠ .error .fuel) :
    (∃ n, loop turn n s = r) ↔ ∃ n t, after turn n s = some t ∧ turn t = Turn.stop <$> r := by
  constructor
  · rintro ⟨n, hn⟩
    induction n generalizing s with
    | zero => exact absurd hn.symm hr
    | succ n ih =>
      rw [loop] at hn
      rcases hs : turn s with e | (t | a)
      · rw [hs] at hn
        exact ⟨0, s, rfl, by rw [hs, ← hn]; rfl⟩
      · rw [hs] at hn
        obtain ⟨m, u, hm, hu⟩ := ih hn
        exact ⟨m + 1, u, by rw [after_goes hs, hm], hu⟩
      · rw [hs] at hn
        exact ⟨0, s, rfl, by rw [hs, ← hn]; rfl⟩
  · rintro ⟨n, t, hn, ht⟩
    refine ⟨n + 1, ?_⟩
    induction n generalizing s with
    | zero =>
      cases hn
      rw [loop, ht]
      rcases r with e | a <;> rfl
    | succ n ih =>
      by_cases hgo : ∃ u, Goes turn s u
      · obtain ⟨u, hu⟩ := hgo
        rw [after_goes hu] at hn
        rw [loop, hu]
        exact ih hn
      · rw [after_stays (not_exists.1 hgo)] at hn
        cases hn

/-! ### What a run goes by -/

/-- The states in which the first turns begin. -/
def visited (turn : σ → Exec (Turn σ α)) : Nat → σ → List σ
  | 0, _ => []
  | n + 1, s => s :: match turn s with
    | .ok (.next s') => visited turn n s'
    | _ => []

theorem visited_goes (h : Goes turn s t) : visited turn (n + 1) s = s :: visited turn n t := by
  rw [visited, h]

/-- The last thing that was put somewhere. -/
def lastPut {β : Type} (put : σ → Option β) (l : List σ) : Option β := l.reverse.findSome? put

/-- A field of the state that only some turns set has what was set last. -/
theorem after_lastPut {β : Type} {field : σ → Option β} {put : σ → Option β}
    (hput : ∀ t u, Goes turn t u → field u = (put t <|> field t)) (h : after turn n s = some t) :
    field t = (lastPut put (visited turn n s) <|> field s) := by
  induction n generalizing s with
  | zero =>
    cases h
    rfl
  | succ n ih =>
    by_cases hgo : ∃ u, Goes turn s u
    · obtain ⟨u, hu⟩ := hgo
      rw [after_goes hu] at h
      rw [ih h, hput s u hu, visited_goes hu, lastPut, lastPut, List.reverse_cons, List.findSome?_append]
      rcases (visited turn n u).reverse.findSome? put with _ | b
      · rcases hs : put s with _ | c <;> simp [hs]
      · rfl
    · rw [after_stays (not_exists.1 hgo)] at h
      cases h

/-! ### Halting -/

/-- A state with a key that was there before. -/
def ComesBack (turn : σ → Exec (Turn σ α)) (key : σ → κ) (s : σ) : Prop :=
  ∃ i j t u, i < j ∧ after turn i s = some t ∧ after turn j s = some u ∧ key t = key u

/-- The key decides about going on. -/
def Decides (turn : σ → Exec (Turn σ α)) (key : σ → κ) : Prop :=
  ∀ s t s', key s = key t → Goes turn s s' → ∃ t', Goes turn t t' ∧ key s' = key t'

/-- The key of the state that a turn goes on to. -/
def nextKey (key : σ → κ) : Exec (Turn σ α) → Option κ
  | .ok (.next s) => some (key s)
  | _ => none

theorem nextKey_eq_some {x : Exec (Turn σ α)} {k : κ} :
    nextKey key x = some k ↔ ∃ s, x = .ok (.next s) ∧ key s = k := by
  rcases x with e | (s | a) <;> simp [nextKey]

@[simp] theorem nextKey_stop {x : Exec α} : nextKey key (Turn.stop <$> x) = none := by
  rcases x with e | a <;> rfl

theorem Decides.of_nextKey (h : ∀ s t, key s = key t → nextKey key (turn s) = nextKey key (turn t)) :
    Decides turn key := by
  intro s t s' hst hgo
  have hnext : nextKey key (turn t) = some (key s') := by
    rw [← h s t hst]
    exact nextKey_eq_some.2 ⟨s', hgo, rfl⟩
  obtain ⟨t', ht', hk⟩ := nextKey_eq_some.1 hnext
  exact ⟨t', ht', hk.symm⟩

theorem Decides.after (hkey : Decides turn key) (h : key s = key t) (hs : after turn n s = some s') :
    ∃ t', Turn.after turn n t = some t' ∧ key s' = key t' := by
  induction n generalizing s t with
  | zero =>
    cases hs
    exact ⟨t, rfl, h⟩
  | succ n ih =>
    by_cases hgo : ∃ s₁, Goes turn s s₁
    · obtain ⟨s₁, h₁⟩ := hgo
      obtain ⟨t₁, h₂, hk⟩ := hkey s t s₁ h h₁
      rw [after_goes h₁] at hs
      rw [after_goes h₂]
      exact ih hk hs
    · rw [after_stays (not_exists.1 hgo)] at hs
      cases hs

theorem ComesBack.not_halts (hturn : ∀ t, turn t ≠ .error .fuel) (hkey : Decides turn key)
    (h : ComesBack turn key s) : ¬ Halts turn s := by
  obtain ⟨i, j, t, u, hij, ht, hu, htu⟩ := h
  rw [halts_iff_none hturn]
  intro hhalts
  -- the first turn that does not go on, behind the second of the two states
  classical
  obtain ⟨n, hn, hmin⟩ : ∃ n, after turn n s = none ∧ ∀ m < n, after turn m s ≠ none :=
    ⟨Nat.find hhalts, Nat.find_spec hhalts, fun m hm => Nat.find_min hhalts hm⟩
  have hjn : j < n := by
    by_contra hle
    rw [after_none_of_le (Nat.not_lt.1 hle) hn] at hu
    cases hu
  refine hmin (i + (n - j)) (by omega) ?_
  have hrest : after turn (n - j) u = none := by
    have := @after_add _ _ turn s j (n - j)
    rw [Nat.add_sub_cancel' (Nat.le_of_lt hjn), hn, hu] at this
    exact this.symm
  by_contra hsome
  rw [after_add, ht, Option.bind_some] at hsome
  obtain ⟨t', ht'⟩ := Option.ne_none_iff_exists'.1 hsome
  obtain ⟨u', hu', -⟩ := hkey.after htu ht'
  rw [hrest] at hu'
  cases hu'

/-- A loop halts if no key comes twice, when the keys are finitely many. -/
theorem halts_iff (hturn : ∀ t, turn t ≠ .error .fuel) (hkey : Decides turn key) {K : Set κ} (hK : K.Finite)
    (hin : ∀ n t u, after turn n s = some t → Goes turn t u → key t ∈ K) :
    Halts turn s ↔ ¬ ComesBack turn key s := by
  refine ⟨fun h hback => hback.not_halts hturn hkey h, fun hback => ?_⟩
  by_contra hhalts
  rw [halts_iff_none hturn, not_exists] at hhalts
  have hstate : ∀ n, ∃ t, after turn n s = some t := fun n => Option.ne_none_iff_exists'.1 (hhalts n)
  choose state hstate using hstate
  have hmem : ∀ n, key (state n) ∈ K := fun n => by
    have hnext := hstate (n + 1)
    rw [after_succ, hstate n, Option.bind_some] at hnext
    by_cases hgo : ∃ u, Goes turn (state n) u
    · obtain ⟨u, hu⟩ := hgo
      exact hin n _ u (hstate n) hu
    · rw [after_stays (not_exists.1 hgo)] at hnext
      cases hnext
  have := hK.to_subtype
  obtain ⟨i, j, hij, heq⟩ := Finite.exists_ne_map_eq_of_infinite fun n : Nat => (⟨key (state n), hmem n⟩ : K)
  have hkeys : key (state i) = key (state j) := congrArg Subtype.val heq
  rcases Nat.lt_or_gt_of_ne hij with hlt | hlt
  · exact hback ⟨i, j, _, _, hlt, hstate i, hstate j, hkeys⟩
  · exact hback ⟨j, i, _, _, hlt, hstate j, hstate i, hkeys.symm⟩

/-- A loop halts if every turn makes a measure smaller. -/
theorem halts_of_measure (hturn : ∀ t, turn t ≠ .error .fuel) (measure : σ → Nat) {I : σ → Prop} (hI : I s)
    (hstep : ∀ t u, I t → Goes turn t u → I u ∧ measure u < measure t) : Halts turn s := by
  rw [halts_iff_none hturn]
  generalize hm : measure s = m
  induction m using Nat.strong_induction_on generalizing s with
  | _ m ih =>
    by_cases hgo : ∃ t, Goes turn s t
    · obtain ⟨t, ht⟩ := hgo
      obtain ⟨hI', hlt⟩ := hstep s t hI ht
      obtain ⟨n, hn⟩ := ih (measure t) (hm ▸ hlt) hI' rfl
      exact ⟨n + 1, by rw [after_goes ht, hn]⟩
    · exact ⟨1, after_stays (not_exists.1 hgo)⟩

end Turn

end Nas
