import Mathlib.Data.List.Basic
import Mathlib.Tactic.Common

/-!
# Requests in a stream

A `Framer` says where the first request of some bytes ends, in each of several modes; more bytes behind
it do not change that. `Feed.next` takes the first request off a stream and lets a consumer react, who may
put bytes in front of the rest. `Feed.after n` are `n` such steps. Nothing else decides which requests a
stream delivers: two readers of one stream that have both taken steps of `next`, however many, have
delivered the same requests as far as both have got (`after_prefix`), and no more than the reader that has
got to the end (`after_le`).
-/

namespace Nas

structure Framer (M β : Type) where
  frame : M → List β → Option Nat
  le {m : M} {l : List β} {n : Nat} : frame m l = some n → n ≤ l.length
  append {m : M} {l : List β} {n : Nat} (l' : List β) : frame m l = some n → frame m (l ++ l') = some n

/-- What a consumer does about a request, besides taking it. -/
inductive Reaction (M β : Type) where
  | done
  /-- Put something before the rest. -/
  | insertFake (data : List β)
  /-- Put the request back, with another beginning and in another mode. -/
  | resetCurrent (start : List β) (mode : M)

/-- `start` over the first of `l`. -/
def overwrite {β : Type} (start l : List β) : List β := start.take l.length ++ l.drop start.length

@[simp] theorem length_overwrite {β : Type} (start l : List β) : (overwrite start l).length = l.length := by
  simp [overwrite]; omega

structure Feed (M β : Type) where
  mode : M
  rest : List β
  delivered : List (List β)

namespace Feed
variable {M β : Type} (F : Framer M β) (react : List (List β) → Reaction M β)

/-- The first `n` cells are a request. -/
def take (f : Feed M β) (n : Nat) : Feed M β :=
  let req := f.rest.take n
  let delivered := f.delivered ++ [req]
  match react delivered with
  | .done => ⟨f.mode, f.rest.drop n, delivered⟩
  | .insertFake data => ⟨f.mode, data ++ f.rest.drop n, delivered⟩
  | .resetCurrent start mode => ⟨mode, overwrite start req ++ f.rest.drop n, delivered⟩

def next (f : Feed M β) : Option (Feed M β) := (F.frame f.mode f.rest).map (f.take react)

def after : Nat → Feed M β → Option (Feed M β)
  | 0, f => some f
  | n + 1, f => (after n f).bind (next F react)

variable {F react} {f g g' : Feed M β} {m n : Nat}

theorem take_delivered (f : Feed M β) (n : Nat) :
    (f.take react n).delivered = f.delivered ++ [f.rest.take n] := by
  unfold take
  dsimp only
  split <;> rfl

theorem next_delivered (h : f.next F react = some g) :
    f.delivered <+: g.delivered ∧ g.delivered.length = f.delivered.length + 1 := by
  obtain ⟨n, -, rfl⟩ := Option.map_eq_some_iff.1 h
  rw [take_delivered]
  exact ⟨List.prefix_append .., by simp⟩

theorem after_length (h : f.after F react n = some g) :
    g.delivered.length = f.delivered.length + n := by
  induction n generalizing g with
  | zero => cases h; rfl
  | succ n ih =>
    obtain ⟨g', hg', h⟩ := Option.bind_eq_some_iff.1 h
    rw [(next_delivered h).2, ih hg']
    rfl

theorem after_prefix (hmn : m ≤ n) (hm : f.after F react m = some g) (hn : f.after F react n = some g') :
    g.delivered <+: g'.delivered := by
  induction n generalizing g' with
  | zero =>
    rcases Nat.le_zero.1 hmn with rfl
    rw [hm] at hn
    cases hn
    exact List.prefix_refl _
  | succ n ih =>
    rcases Nat.le_succ_iff.1 hmn with hmn | rfl
    · obtain ⟨g₁, hg₁, hn⟩ := Option.bind_eq_some_iff.1 hn
      exact (ih hmn hg₁).trans (next_delivered hn).1
    · rw [hm] at hn
      cases hn
      exact List.prefix_refl _

theorem after_le (hm : f.after F react m = some g) (hend : g.next F react = none)
    (hn : f.after F react n = some g') : n ≤ m := by
  by_contra hlt
  have hnone : ∀ k, f.after F react (m + 1 + k) = none := fun k => by
    induction k with
    | zero => rw [Nat.add_zero, after, hm, Option.bind_some, hend]
    | succ k ih => rw [← Nat.add_assoc, after, ih, Option.bind_none]
  have := hnone (n - (m + 1))
  rw [show m + 1 + (n - (m + 1)) = n by omega, hn] at this
  cases this

end Feed

end Nas
