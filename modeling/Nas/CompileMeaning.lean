import Nas.CompileTotal
import Nas.Dag
import Mathlib.Algebra.BigOperators.Group.List.Basic
import Mathlib.Algebra.BigOperators.Ring.List
import Mathlib.Tactic.Ring

/-!
# What a compiled flow computes

An element of an acyclic graph computes a value for each of its tracks from those of its inputs
(`ElementGraph.eval`). `AuCompileFlow` flattens the graph below an export into a list of inputs, each
with one multiplier, one constant and one selection of tracks (`denote`).

The flattening is right for imports, multipliers and sums, in exact arithmetic. It adds the constant
of an `AddConstant` once for each import below it, and not scaled by the multipliers above it. The
tracks of a bundle replace the selection a bundle above it has made. `auCompileFlow_denotes_iff`: where
no bundle rearranges the tracks of one below it (`Composes`), the compiled output computes what the
element does exactly when the constants that are wrong sum up to nothing (`addDefect`).
-/

namespace Nas
variable {K : Type}

/-! ### Evaluating the elements -/

/-- The inputs of an element. -/
def AuElement.inputs : AuElement K → List Nat
  | .bundle inputs => inputs.map (·.elementNum)
  | .multiplyConstant input _ => [input]
  | .addConstant input _ => [input]
  | .sum inputs => inputs
  | _ => []

/-- An acyclic graph of elements. -/
structure ElementGraph (K : Type) extends Dag (AuElement K) where
  succs_eq : succs = AuElement.inputs
  wellIndexed : ∀ e ∈ nodes, ∀ j ∈ e.inputs, j < nodes.length
  /-- Their number is an `AuUint32`. -/
  length_lt : nodes.length < 2 ^ 32

/-- The sum of the tracks that are there, none if none is. -/
def sumTracks [Add K] : List (Option K) → Option K
  | [] => none
  | none :: xs => sumTracks xs
  | some x :: xs => some (match sumTracks xs with
    | none => x
    | some y => x + y)

section Eval
variable [CommRing K]

/-- The tracks of element `i` from those of its inputs; `v` are the tracks of the imports. A track
that an element does not have is `none`. -/
def evalElement (v : Nat → Nat → K) (i : Nat) (e : AuElement K) (x : Nat → Nat → Option K) :
    Nat → Option K :=
  match e with
  | .importClient _ | .importDevice _ | .importBucket _ | .importWaveForm _ => fun t => some (v i t)
  | .multiplyConstant input constant => fun t => (x input t).map (· * constant)
  | .addConstant input constant => fun t => (x input t).map (· + constant)
  | .sum inputs => fun t => sumTracks (inputs.map (x · t))
  | .bundle inputs => fun t => (inputs[t]?.map fun it => x it.elementNum it.track).join
  | _ => fun _ => none

/-- How many imports contribute to a track of an element. -/
def leavesElement (_ : Nat) (e : AuElement K) (n : Nat → Nat → Nat) : Nat → Nat :=
  match e with
  | .importClient _ | .importDevice _ | .importBucket _ | .importWaveForm _ => fun _ => 1
  | .multiplyConstant input _ => n input
  | .addConstant input _ => n input
  | .sum inputs => fun t => (inputs.map (n · t)).sum
  | .bundle inputs => fun t => (inputs[t]?.map fun it => n it.elementNum it.track).getD 0
  | _ => fun _ => 0

/-- The constants that a track of an element is given too much when its multipliers so far are `m`:
those of each addition below it as often as there are imports below that, instead of `m` times. -/
def addDefectElement (leaves : Nat → Nat → Nat) (_ : Nat) (e : AuElement K) (d : Nat → Nat → K → K) :
    Nat → K → K :=
  match e with
  | .multiplyConstant input constant => fun t m => d input t (m * constant)
  | .addConstant input constant => fun t m =>
    d input t m + if leaves input t = 0 then 0 else (leaves input t - m) * constant
  | .sum inputs => fun t m => (inputs.map (d · t m)).sum
  | .bundle inputs => fun t m => (inputs[t]?.map fun it => d it.elementNum it.track m).getD 0
  | _ => fun _ _ => 0

/-- The runs of the tracks of a bundle. -/
def inputRuns : List AuInputTrack → List (Nat × List Nat)
  | [] => []
  | t :: tracks => bundleRuns t.elementNum [t.track] tracks

/-- No bundle rearranges the tracks of a bundle below it: what it selects of an element above another
bundle are the tracks from 0 on, as many as that bundle has at least. `inTracks` is the selection so
far, empty when there is none. -/
def composesElement (_ : Nat) (e : AuElement K) (p : Nat → List Nat → Prop) : List Nat → Prop :=
  match e with
  | .multiplyConstant input _ => p input
  | .addConstant input _ => p input
  | .sum inputs => fun inTracks => ∀ input ∈ inputs, p input inTracks
  | .bundle inputs => fun inTracks =>
    (if inTracks = [] then inputs.length ≤ 2 ^ 8
      else inTracks = List.range inTracks.length ∧ inputs.length ≤ inTracks.length) ∧
    ∀ r ∈ inputRuns inputs, p r.1 r.2
  | _ => fun _ => True

/-- The part of output track `t` when the values of some tracks are put on the output tracks from
`first` on, which are numbered in a byte. -/
def placed {β : Type} (f : β → K) : List β → (first t : Nat) → K
  | [], _, _ => 0
  | b :: bs, first, t => (if first % 2 ^ 8 = t then f b else 0) + placed f bs (first + 1) t

/-- The calls for the runs of a bundle, one after the other. -/
def flatRuns (x : Nat → List Nat → Nat → Nat → K) : List (Nat × List Nat) → (first t : Nat) → K
  | [], _, _ => 0
  | r :: rs, first, t => x r.1 r.2 first t + flatRuns x rs ((first + r.2.length) % 2 ^ 8) t

/-- The part of output track `t` that `compileInputs` makes of an element, from the parts it makes of
its inputs. -/
def flatElement (v : Nat → Nat → K) (i : Nat) (e : AuElement K)
    (x : Nat → K → K → List Nat → Nat → Nat → K) : K → K → List Nat → Nat → Nat → K :=
  match e with
  | .importClient _ | .importDevice _ | .importBucket _ | .importWaveForm _ =>
    fun m a inTracks first t =>
      if inTracks = [] then v i t * m + a else placed (fun s => v i s * m + a) inTracks first t
  | .multiplyConstant input constant => fun m a => x input (m * constant) a
  | .addConstant input constant => fun m a => x input m (a + constant)
  | .sum inputs => fun m a inTracks first t => (inputs.map (x · m a inTracks first t)).sum
  | .bundle inputs => fun m a _ first t => flatRuns (fun j => x j m a) (inputRuns inputs) first t
  | _ => fun _ _ _ _ _ => 0

end Eval

/-! ### The graph's functions -/

/-- The first run of a bundle is of the element of the tracks gathered so far, the others are of
elements of the bundle. -/
theorem bundleRuns_mem {n : Nat} {ts : List Nat} {tracks : List AuInputTrack} {r : Nat × List Nat}
    (h : r ∈ bundleRuns n ts tracks) : r.1 = n ∨ r.1 ∈ tracks.map (·.elementNum) := by
  induction tracks generalizing n ts with
  | nil => rw [bundleRuns, List.mem_singleton] at h; exact .inl (by rw [h])
  | cons t tracks ih =>
    rw [bundleRuns] at h
    rw [List.map_cons, List.mem_cons]
    split at h
    · rcases List.mem_cons.1 h with rfl | h
      · exact .inl rfl
      · exact .inr (ih h)
    · exact .inr (ih h)

theorem inputRuns_mem {inputs : List AuInputTrack} {r : Nat × List Nat} (h : r ∈ inputRuns inputs) :
    r.1 ∈ inputs.map (·.elementNum) := by
  cases inputs with
  | nil => cases h
  | cons t tracks =>
    rw [List.map_cons, List.mem_cons]
    exact bundleRuns_mem h

theorem flatRuns_congr [CommRing K] {x y : Nat → List Nat → Nat → Nat → K} {rs : List (Nat × List Nat)}
    {first t : Nat} (h : ∀ r ∈ rs, ∀ first, x r.1 r.2 first t = y r.1 r.2 first t) :
    flatRuns x rs first t = flatRuns y rs first t := by
  induction rs generalizing first with
  | nil => rfl
  | cons r rs ih =>
    rw [flatRuns, flatRuns, h r (.head _), ih fun r hr => h r (.tail _ hr)]

namespace ElementGraph
variable [CommRing K] (G : ElementGraph K)

/-- The tracks of an element. -/
noncomputable def eval (v : Nat → Nat → K) : Nat → Nat → Option K :=
  G.fold (fun _ => none) (evalElement v)

noncomputable def leaves : Nat → Nat → Nat := G.fold (fun _ => 0) leavesElement

noncomputable def addDefect : Nat → Nat → K → K := G.fold (fun _ _ => 0) (addDefectElement G.leaves)

def Composes : Nat → List Nat → Prop := G.fold (fun _ => True) composesElement

noncomputable def flat (v : Nat → Nat → K) : Nat → K → K → List Nat → Nat → Nat → K :=
  G.fold (fun _ _ _ _ _ => 0) (flatElement v)

variable {G} {v : Nat → Nat → K} {i : Nat} {e : AuElement K}

theorem getElem?_congr {α β : Type} {g g' : Nat → α} {inputs : List AuInputTrack}
    (h : ∀ j ∈ inputs.map (·.elementNum), g j = g' j) (f : α → Nat → β) (t : Nat) :
    (inputs[t]?.map fun it => f (g it.elementNum) it.track) =
      inputs[t]?.map fun it => f (g' it.elementNum) it.track := by
  cases hit : inputs[t]? with
  | none => rfl
  | some it =>
    rw [Option.map_some, Option.map_some, h it.elementNum (List.mem_map_of_mem (List.mem_of_getElem? hit))]

theorem map_congr {α β : Type} {g g' : Nat → α} {inputs : List Nat}
    (h : ∀ j ∈ inputs, g j = g' j) (f : α → β) :
    inputs.map (fun j => f (g j)) = inputs.map fun j => f (g' j) :=
  List.map_congr_left fun j hj => by rw [h j hj]

theorem eval_eq (he : G.nodes[i]? = some e) : G.eval v i = evalElement v i e (G.eval v) := by
  refine Dag.fold_eq (fun i e g g' h => ?_) he
  rw [G.succs_eq] at h
  cases e with
  | multiplyConstant input | addConstant input => simp only [evalElement, h input (.head _)]
  | sum inputs =>
    funext t
    exact congrArg sumTracks (map_congr h (· t))
  | bundle inputs =>
    funext t
    exact congrArg Option.join (getElem?_congr h (· ·) t)
  | _ => rfl

omit [CommRing K] in
theorem leaves_eq (he : G.nodes[i]? = some e) : G.leaves i = leavesElement i e G.leaves := by
  refine Dag.fold_eq (fun i e g g' h => ?_) he
  rw [G.succs_eq] at h
  cases e with
  | multiplyConstant input | addConstant input => simp only [leavesElement, h input (.head _)]
  | sum inputs =>
    funext t
    exact congrArg List.sum (map_congr h (· t))
  | bundle inputs =>
    funext t
    exact congrArg (Option.getD · 0) (getElem?_congr h (· ·) t)
  | _ => rfl

theorem addDefect_eq (he : G.nodes[i]? = some e) :
    G.addDefect i = addDefectElement G.leaves i e G.addDefect := by
  refine Dag.fold_eq (fun i e g g' h => ?_) he
  rw [G.succs_eq] at h
  cases e with
  | multiplyConstant input | addConstant input => simp only [addDefectElement, h input (.head _)]
  | sum inputs =>
    funext t m
    exact congrArg List.sum (map_congr h (· t m))
  | bundle inputs =>
    funext t m
    exact congrArg (Option.getD · 0) (getElem?_congr h (fun d t => d t m) t)
  | _ => rfl

omit [CommRing K] in
theorem composes_eq (he : G.nodes[i]? = some e) : G.Composes i = composesElement i e G.Composes := by
  refine Dag.fold_eq (fun i e g g' h => ?_) he
  rw [G.succs_eq] at h
  cases e with
  | multiplyConstant input | addConstant input => simp only [composesElement, h input (.head _)]
  | sum inputs =>
    funext inTracks
    exact propext (forall₂_congr fun j hj => by rw [h j hj])
  | bundle inputs =>
    funext inTracks
    exact propext (and_congr_right fun _ => forall₂_congr fun r hr => by rw [h r.1 (inputRuns_mem hr)])
  | _ => rfl

theorem flat_eq (he : G.nodes[i]? = some e) : G.flat v i = flatElement v i e (G.flat v) := by
  refine Dag.fold_eq (fun i e g g' h => ?_) he
  rw [G.succs_eq] at h
  cases e with
  | multiplyConstant input | addConstant input => simp only [flatElement, h input (.head _)]
  | sum inputs =>
    funext m a inTracks first t
    exact congrArg List.sum (map_congr h (· m a inTracks first t))
  | bundle inputs =>
    funext m a inTracks first t
    exact flatRuns_congr fun r hr first => by rw [h r.1 (inputRuns_mem hr)]
  | _ => rfl

/-- What `compileInputs` arrives at for track `t` of element `i`: its value times the multipliers so
far, the constant so far once for each import below, and the constants that are wrong. -/
noncomputable def flatTrack (G : ElementGraph K) (v : Nat → Nat → K) (m a : K) (i t : Nat) : K :=
  m * (G.eval v i t).getD 0 + G.leaves i t * a + G.addDefect i t m

end ElementGraph

/-! ### Placing tracks -/

section Placed
variable [CommRing K] {β : Type} {f g : β → K} {bs bs' : List β} {first t : Nat}

theorem placed_append : placed f (bs ++ bs') first t =
    placed f bs first t + placed f bs' (first + bs.length) t := by
  induction bs generalizing first with
  | nil => simp [placed]
  | cons b bs ih =>
    rw [List.cons_append, placed, placed, ih, List.length_cons, show first + 1 + bs.length =
      first + (bs.length + 1) by omega, add_assoc]

theorem placed_mod : placed f bs (first % 2 ^ 8) t = placed f bs first t := by
  suffices h : ∀ first first', first % 2 ^ 8 = first' % 2 ^ 8 → placed f bs first t = placed f bs first' t from
    h _ _ (Nat.mod_mod ..)
  induction bs with
  | nil => intros; rfl
  | cons b bs ih =>
    intro first first' h
    rw [placed, placed, h, ih (first + 1) (first' + 1) (by omega)]

theorem placed_congr (h : ∀ b ∈ bs, f b = g b) : placed f bs first t = placed g bs first t := by
  induction bs generalizing first with
  | nil => rfl
  | cons b bs ih => rw [placed, placed, h b (.head _), ih fun b hb => h b (.tail _ hb)]

theorem placed_map {γ : Type} {k : γ → β} {cs : List γ} :
    placed f (cs.map k) first t = placed (fun c => f (k c)) cs first t := by
  induction cs generalizing first with
  | nil => rfl
  | cons c cs ih => rw [List.map_cons, placed, placed, ih]

theorem placed_zero : placed (fun _ => (0 : K)) bs first t = 0 := by
  induction bs generalizing first with
  | nil => rfl
  | cons b bs ih => rw [placed, ih]; simp

theorem placed_add : placed (fun b => f b + g b) bs first t = placed f bs first t + placed g bs first t := by
  induction bs generalizing first with
  | nil => simp [placed]
  | cons b bs ih =>
    rw [placed, placed, placed, ih]
    split <;> ring

theorem placed_sum {γ : Type} {cs : List γ} {h : γ → β → K} :
    placed (fun b => (cs.map (h · b)).sum) bs first t = (cs.map fun c => placed (h c) bs first t).sum := by
  induction cs with
  | nil => simpa using placed_zero
  | cons c cs ih =>
    simp only [List.map_cons, List.sum_cons]
    rw [placed_add, ih]

/-- Tracks placed from 0 on, without going round, are at their own numbers. -/
theorem placed_at {k : Nat} (h : k + bs.length ≤ 2 ^ 8) :
    placed f bs k t = if k ≤ t then (bs[t - k]?.map f).getD 0 else 0 := by
  induction bs generalizing k with
  | nil => simp [placed]
  | cons b bs ih =>
    rw [List.length_cons] at h
    rw [placed, ih (by omega), Nat.mod_eq_of_lt (by omega)]
    rcases Nat.lt_trichotomy k t with hkt | rfl | hkt
    · obtain ⟨d, rfl⟩ : ∃ d, t = k + 1 + d := ⟨t - (k + 1), by omega⟩
      rw [if_neg (by omega), if_pos (by omega), if_pos (by omega), zero_add,
        show k + 1 + d - k = d + 1 by omega, show k + 1 + d - (k + 1) = d by omega, List.getElem?_cons_succ]
    · rw [if_pos rfl, if_neg (by omega), if_pos (Nat.le_refl _)]
      simp
    · rw [if_neg (by omega), if_neg (by omega), if_neg (by omega), add_zero]

/-- Placing the tracks that some numbers in order stand for. -/
theorem placed_range' {g : Nat → K} {k a : Nat} (hl : bs.length ≤ k)
    (hg : ∀ i, g (a + i) = (bs[i]?.map f).getD 0) :
    placed g (List.range' a k) first t = placed f bs first t := by
  induction k generalizing a bs first with
  | zero =>
    rw [List.length_eq_zero_iff.1 (Nat.le_zero.1 hl)]
    rfl
  | succ k ih =>
    rw [List.range'_succ, placed]
    cases bs with
    | nil =>
      have hg' : ∀ i, g (a + 1 + i) = (([] : List β)[i]?.map f).getD 0 := fun i => by
        simpa [Nat.add_assoc, Nat.add_comm 1] using hg (i + 1)
      rw [ih (Nat.zero_le _) hg']
      have := hg 0
      simp only [Nat.add_zero, List.getElem?_nil, Option.map_none, Option.getD_none] at this
      simp [placed, this]
    | cons b bs =>
      rw [ih (Nat.le_of_succ_le_succ hl)
        fun i => by simpa [Nat.add_assoc, Nat.add_comm 1] using hg (i + 1), placed]
      have := hg 0
      simp only [Nat.add_zero, List.getElem?_cons_zero, Option.map_some, Option.getD_some] at this
      rw [this]

/-- The tracks of the runs of a bundle, one after the other. -/
theorem flatMap_bundleRuns (n : Nat) (ts : List Nat) (tracks : List AuInputTrack) :
    (bundleRuns n ts tracks).flatMap (fun r => r.2.map (r.1, ·)) =
      ts.map (n, ·) ++ tracks.map fun t => (t.elementNum, t.track) := by
  induction tracks generalizing n ts with
  | nil => simp [bundleRuns]
  | cons t tracks ih =>
    rw [bundleRuns]
    split
    · rw [List.flatMap_cons, ih]
      simp
    · rename_i hne
      rw [ih, List.map_append, List.append_assoc]
      -- a track goes to the run of another element only when that run is empty
      rcases Decidable.em (ts = []) with rfl | hts
      · rfl
      · have : t.elementNum = n := by
          by_contra h
          exact hne ⟨hts, h⟩
        rw [this]
        simp [this]

theorem flatMap_inputRuns (inputs : List AuInputTrack) :
    (inputRuns inputs).flatMap (fun r => r.2.map (r.1, ·)) =
      inputs.map fun t => (t.elementNum, t.track) := by
  cases inputs with
  | nil => rfl
  | cons t tracks => exact flatMap_bundleRuns ..

theorem inputRuns_ne_nil {inputs : List AuInputTrack} {r : Nat × List Nat} (h : r ∈ inputRuns inputs) :
    r.2 ≠ [] := by
  suffices hs : ∀ (tracks : List AuInputTrack) (n : Nat) (ts : List Nat), ts ≠ [] →
      ∀ r ∈ bundleRuns n ts tracks, r.2 ≠ [] by
    cases inputs with
    | nil => cases h
    | cons t tracks => exact hs _ _ _ (by simp) r h
  intro tracks
  induction tracks with
  | nil =>
    intro n ts hts r hr
    rw [bundleRuns, List.mem_singleton] at hr
    rw [hr]; exact hts
  | cons t tracks ih =>
    intro n ts hts r hr
    rw [bundleRuns] at hr
    split at hr
    · rcases List.mem_cons.1 hr with rfl | hr
      · exact hts
      · exact ih _ _ (by simp) r hr
    · exact ih _ _ (by simp) r hr

/-- Runs that are each placed are placed together. -/
theorem flatRuns_placed {f : Nat → Nat → K} {rs : List (Nat × List Nat)} :
    flatRuns (fun j ts first t => placed (f j) ts first t) rs first t =
      placed (fun p : Nat × Nat => f p.1 p.2) (rs.flatMap fun r => r.2.map (r.1, ·)) first t := by
  induction rs generalizing first with
  | nil => rfl
  | cons r rs ih =>
    rw [flatRuns, ih, placed_mod, List.flatMap_cons, placed_append, placed_map, List.length_map]

end Placed

/-! ### What the walk arrives at -/

/-- The number of tracks present, and their sum. -/
theorem getD_sumTracks [CommRing K] (xs : List (Option K)) :
    (sumTracks xs).getD 0 = (xs.map (·.getD 0)).sum := by
  induction xs with
  | nil => rfl
  | cons x xs ih =>
    cases x with
    | none => simpa [sumTracks] using ih
    | some x =>
      rw [List.map_cons, List.sum_cons, ← ih, sumTracks]
      cases sumTracks xs <;> simp

theorem sumTracks_eq_none [Add K] (xs : List (Option K)) : sumTracks xs = none ↔ ∀ x ∈ xs, x = none := by
  induction xs with
  | nil => simp [sumTracks]
  | cons x xs ih => cases x <;> simp [sumTracks, ih]

namespace ElementGraph
variable [CommRing K] {G : ElementGraph K} {v : Nat → Nat → K} {i : Nat} {e : AuElement K}

/-- A track is there when an import contributes to it. -/
theorem leaves_eq_zero (t : Nat) : G.leaves i t = 0 ↔ G.eval v i t = none := by
  induction i using G.acyclic.induction generalizing t with
  | _ i ih =>
    rcases hi : G.nodes[i]? with _ | e
    · simp [leaves, eval, Dag.fold_none hi]
    have ih' : ∀ j ∈ e.inputs, ∀ t, G.leaves j t = 0 ↔ G.eval v j t = none :=
      fun j hj t => ih j ⟨e, hi, by rwa [G.succs_eq]⟩ t
    rw [leaves_eq hi, eval_eq hi]
    cases e with
    | multiplyConstant input | addConstant input =>
      simp only [leavesElement, evalElement, Option.map_eq_none_iff]
      exact ih' input (.head _) t
    | sum inputs =>
      simp only [leavesElement, evalElement, List.sum_eq_zero_iff_forall_eq_nat, sumTracks_eq_none, List.forall_mem_map]
      exact forall₂_congr fun j hj => ih' j hj t
    | bundle inputs =>
      simp only [leavesElement, evalElement]
      cases hit : inputs[t]? with
      | none => simp
      | some it =>
        simpa using ih' it.elementNum (List.mem_map_of_mem (List.mem_of_getElem? hit)) it.track
    | _ => simp [leavesElement, evalElement]

/-- `flatTrack` of each kind of element. -/
theorem flatTrack_sum {inputs : List Nat} (he : G.nodes[i]? = some (.sum inputs)) (m a : K) (t : Nat) :
    G.flatTrack v m a i t = (inputs.map fun j => G.flatTrack v m a j t).sum := by
  simp only [flatTrack]
  rw [eval_eq he, leaves_eq he, addDefect_eq he]
  simp only [evalElement, leavesElement, addDefectElement, getD_sumTracks, List.map_map]
  clear he
  induction inputs with
  | nil => simp
  | cons j inputs ih =>
    simp only [List.map_cons, List.sum_cons, ← ih, Function.comp_apply]
    push_cast
    ring

theorem flatTrack_multiply {input : Nat} {constant : K}
    (he : G.nodes[i]? = some (.multiplyConstant input constant)) (m a : K) (t : Nat) :
    G.flatTrack v m a i t = G.flatTrack v (m * constant) a input t := by
  simp only [flatTrack]
  rw [eval_eq he, leaves_eq he, addDefect_eq he]
  simp only [evalElement, leavesElement, addDefectElement]
  cases G.eval v input t with
  | none => simp
  | some x =>
    simp only [Option.map_some, Option.getD_some]
    ring

theorem flatTrack_add {input : Nat} {constant : K}
    (he : G.nodes[i]? = some (.addConstant input constant)) (m a : K) (t : Nat) :
    G.flatTrack v m a i t = G.flatTrack v m (a + constant) input t := by
  simp only [flatTrack]
  rw [eval_eq he, leaves_eq he, addDefect_eq he]
  simp only [evalElement, leavesElement, addDefectElement]
  have hn := G.leaves_eq_zero (v := v) (i := input) t
  cases hx : G.eval v input t with
  | none =>
    rw [hn.2 hx]
    simp
  | some x =>
    rw [if_neg (by rw [hn, hx]; simp)]
    simp only [Option.map_some, Option.getD_some]
    ring

theorem flatTrack_bundle {inputs : List AuInputTrack} (he : G.nodes[i]? = some (.bundle inputs))
    (m a : K) (t : Nat) : G.flatTrack v m a i t =
      (inputs[t]?.map fun it => G.flatTrack v m a it.elementNum it.track).getD 0 := by
  simp only [flatTrack]
  rw [eval_eq he, leaves_eq he, addDefect_eq he]
  simp only [evalElement, leavesElement, addDefectElement]
  cases inputs[t]? <;> simp

theorem flatTrack_import (he : G.nodes[i]? = some e) (himp : e.isImport) (m a : K) (t : Nat) :
    G.flatTrack v m a i t = v i t * m + a := by
  simp only [flatTrack]
  rw [eval_eq he, leaves_eq he, addDefect_eq he]
  cases e with
  | importClient | importDevice | importBucket | importWaveForm =>
    simp only [evalElement, leavesElement, addDefectElement, Option.getD_some]
    push_cast
    ring
  | _ => cases himp

theorem flatTrack_other (he : G.nodes[i]? = some e) (hk : e.inputs = []) (hc : e.calls = [])
    (himp : ¬ e.isImport) (m a : K) (t : Nat) : G.flatTrack v m a i t = 0 := by
  simp only [flatTrack]
  rw [eval_eq he, leaves_eq he, addDefect_eq he]
  cases e with
  | importClient | importDevice | importBucket | importWaveForm => exact absurd rfl himp
  | sum inputs => 
    cases hk
    simp [evalElement, leavesElement, addDefectElement, sumTracks]
  | bundle inputs => cases (List.map_eq_nil_iff.1 hk); simp [evalElement, leavesElement, addDefectElement]
  | multiplyConstant | addConstant => cases hc
  | _ => simp [evalElement, leavesElement, addDefectElement]

/-- Where bundles compose, `compileInputs` puts `flatTrack` of the selected tracks on the output
tracks, or of all tracks when none are selected. -/
theorem flat_eq_placed (m a : K) {inTracks : List Nat} {first : Nat} (hc : G.Composes i inTracks)
    (h0 : inTracks = [] → first = 0) (t : Nat) : G.flat v i m a inTracks first t =
      if inTracks = [] then G.flatTrack v m a i t
      else placed (G.flatTrack v m a i) inTracks first t := by
  induction i using G.acyclic.induction generalizing m a inTracks first t with
  | _ i ih =>
    rcases hi : G.nodes[i]? with _ | e
    · have hz : ∀ t, G.flatTrack v m a i t = 0 := fun t => by
        simp [flatTrack, leaves, eval, addDefect, Dag.fold_none hi]
      rw [flat, Dag.fold_none hi, show G.flatTrack v m a i = fun _ => 0 from funext hz, placed_zero, ite_self]
    have ih' : ∀ j ∈ e.inputs, ∀ m a {inTracks : List Nat} {first : Nat}, G.Composes j inTracks →
        (inTracks = [] → first = 0) → ∀ t, G.flat v j m a inTracks first t =
          if inTracks = [] then G.flatTrack v m a j t
          else placed (G.flatTrack v m a j) inTracks first t :=
      fun j hj m a {_ _} hc h0 t => ih j ⟨e, hi, by rwa [G.succs_eq]⟩ m a hc h0 t
    rw [flat_eq hi]
    rw [composes_eq hi] at hc
    have himport : e.isImport → (if inTracks = [] then v i t * m + a
        else placed (fun s => v i s * m + a) inTracks first t) =
        if inTracks = [] then G.flatTrack v m a i t
        else placed (G.flatTrack v m a i) inTracks first t := fun himp => by
      rw [show G.flatTrack v m a i = fun s => v i s * m + a from funext (flatTrack_import hi himp m a)]
    have hother : e.inputs = [] → e.calls = [] → ¬ e.isImport → (0 : K) =
        if inTracks = [] then G.flatTrack v m a i t
        else placed (G.flatTrack v m a i) inTracks first t := fun h1 h2 h3 => by
      rw [show G.flatTrack v m a i = fun _ => 0 from funext (flatTrack_other hi h1 h2 h3 m a),
        placed_zero, ite_self]
    cases e with
    | importClient | importDevice | importBucket | importWaveForm => exact himport rfl
    | multiplyConstant input constant =>
      simp only [flatElement]
      rw [ih' input (.head _) _ _ hc h0,
        show G.flatTrack v m a i = G.flatTrack v (m * constant) a input from
          funext (flatTrack_multiply hi m a)]
    | addConstant input constant =>
      simp only [flatElement]
      rw [ih' input (.head _) _ _ hc h0,
        show G.flatTrack v m a i = G.flatTrack v m (a + constant) input from funext (flatTrack_add hi m a)]
    | sum inputs =>
      simp only [flatElement]
      rw [show G.flatTrack v m a i = fun t => (inputs.map fun j => G.flatTrack v m a j t).sum from
          funext (flatTrack_sum hi m a), placed_sum]
      have hin := List.map_congr_left fun j (hj : j ∈ inputs) => ih' j hj m a (hc j hj) h0 t
      rw [hin]
      split <;> rfl
    | bundle inputs =>
      obtain ⟨hsel, hruns⟩ := hc
      simp only [flatElement]
      -- the runs of the bundle have a selection of their own, so the one so far is not looked at
      have hflat : flatRuns (fun j => G.flat v j m a) (inputRuns inputs) first t =
          placed (fun it : AuInputTrack => G.flatTrack v m a it.elementNum it.track) inputs first t := by
        rw [flatRuns_congr (y := fun j ts first t => placed (G.flatTrack v m a j) ts first t)
          fun r hr first => by
            rw [ih' r.1 (inputRuns_mem hr) m a (hruns r hr) (fun h => absurd h (inputRuns_ne_nil hr)) t,
              if_neg (inputRuns_ne_nil hr)],
          flatRuns_placed, flatMap_inputRuns, placed_map]
      rw [hflat]
      by_cases hts : inTracks = []
      · rw [if_pos hts] at hsel ⊢
        rw [h0 hts, placed_at (by omega), if_pos (Nat.zero_le _), flatTrack_bundle hi, Nat.sub_zero]
      · rw [if_neg hts] at hsel ⊢
        rw [hsel.1, List.range_eq_range']
        exact (placed_range' hsel.2 fun j => by rw [flatTrack_bundle hi, Nat.zero_add]).symm
    | exportClient | exportDevice | exportBucket | exportMonitor | other =>
      exact hother rfl rfl Bool.false_ne_true

end ElementGraph

/-! ### What the compiled inputs do -/

/-- What `accumulateOutput` adds to output track `t` for an input, in exact arithmetic. No selected
tracks mean that all input tracks map directly to the output tracks. -/
def CompiledInput.addTo [CommRing K] (v : Nat → Nat → K) (input : CompiledInput K) (t : Nat) : K :=
  if input.numTracks = 0 then v input.flowEl.num t * input.multiplyConstant + input.addConstant
  else (((input.inTrack.zip input.outTrack).filter (·.2 = t)).map fun s =>
    v input.flowEl.num s.1 * input.multiplyConstant + input.addConstant).sum

/-- Output track `t` of a compiled output, when the imports have the tracks `v`. -/
def denote [CommRing K] (v : Nat → Nat → K) (inputs : List (CompiledInput K)) (t : Nat) : K :=
  (inputs.map (·.addTo v t)).sum

section Denote
variable [CommRing K] {G : ElementGraph K} {env : CompileEnv K} {st st' st'' : Compiling K}

theorem denote_append (v : Nat → Nat → K) (xs ys : List (CompiledInput K)) (t : Nat) :
    denote v (xs ++ ys) t = denote v xs t + denote v ys t := by
  simp [denote]

theorem sum_zip_eq_placed (f : Nat → K) (ts : List Nat) (first t : Nat) (a : Nat) :
    (((ts.zip ((List.range' a ts.length).map fun j => (first + j) % 2 ^ 8)).filter (·.2 = t)).map
      fun s => f s.1).sum = placed f ts (first + a) t := by
  induction ts generalizing a with
  | nil => rfl
  | cons s ts ih =>
    rw [List.length_cons, List.range'_succ, List.map_cons, List.zip_cons_cons, List.filter_cons, placed,
      Nat.add_assoc, ← ih (a + 1)]
    dsimp only
    split <;> simp_all

/-- From `st` to `st'` inputs were compiled that add `f` to the output tracks. -/
structure Appends (G : ElementGraph K) (st st' : Compiling K) (f : (Nat → Nat → K) → Nat → K) : Prop where
  raws : st'.elements.map (·.raw) = G.nodes
  outputs : st'.outputs = st.outputs
  inputs : ∃ new, st'.inputs = st.inputs ++ new ∧ ∀ v t, denote v new t = f v t

theorem Appends.trans {f g : (Nat → Nat → K) → Nat → K} (h : Appends G st st' f)
    (h' : Appends G st' st'' g) : Appends G st st'' fun v t => f v t + g v t := by
  obtain ⟨xs, hxs, hf⟩ := h.inputs
  obtain ⟨ys, hys, hg⟩ := h'.inputs
  refine ⟨h'.raws, h'.outputs.trans h.outputs, xs ++ ys, by rw [hys, hxs, List.append_assoc], fun v t => ?_⟩
  rw [denote_append, hf, hg]

theorem Appends.nil (h : st.elements.map (·.raw) = G.nodes) : Appends G st st fun _ _ => 0 :=
  ⟨h, rfl, [], by simp, fun v t => by simp [denote]⟩

/-- A call compiles what the graph says. -/
def Flattens (G : ElementGraph K) (call : CompileCall K) (m a : K) : Prop :=
  ∀ st j inTracks first st', st.elements.map (·.raw) = G.nodes →
    call st j inTracks first = .ok (.auSuccess, st') →
    Appends G st st' fun v t => G.flat v j m a inTracks first t

omit [CommRing K] in
theorem map_raw_set {els : List (FlowElement K)} {i : Nat} {e e' : FlowElement K} (he : els[i]? = some e)
    (hr : e'.raw = e.raw) : (els.set i e').map (·.raw) = els.map (·.raw) := by
  rw [List.map_set, hr]
  refine List.ext_getElem? fun j => ?_
  rw [List.getElem?_set]
  split
  · rename_i hij
    subst hij
    rw [List.length_map, if_pos (List.getElem?_eq_some_iff.1 he).1, List.getElem?_map, he]
    rfl
  · rfl

theorem compileImport_appends {i : Nat} {e : FlowElement K} {m a : K} {inTracks : List Nat} {first : Nat}
    (hr : st.elements.map (·.raw) = G.nodes) (he : st.elements[i]? = some e) (himp : e.raw.isImport)
    (h : compileImport env (st.setElement i e.markCompiled) i e m a inTracks first =
      .ok (.auSuccess, st')) :
    Appends G st st' fun v t => G.flat v i m a inTracks first t := by
  have hi : G.nodes[i]? = some e.raw := by rw [← hr, List.getElem?_map, he]; rfl
  have hflat : ∀ v t, G.flat v i m a inTracks first t =
      if inTracks = [] then v i t * m + a else placed (fun s => v i s * m + a) inTracks first t := by
    intro v t
    rw [ElementGraph.flat_eq hi]
    cases hraw : e.raw with
    | importClient | importDevice | importBucket | importWaveForm => rfl
    | _ => rw [hraw] at himp; cases himp
  -- whatever gave the element its component, only the element and the inputs have changed
  have hfin : ∀ (st₂ : Compiling K) (e' : FlowElement K), st₂.elements = st.elements.set i e' →
      e'.raw = e.raw → st₂.outputs = st.outputs → st₂.inputs = st.inputs →
      (do
        let component ← Exec.deref ((st₂.elements[i]?).bind (·.component))
        .ok (.auSuccess, { st₂ with inputs := st₂.inputs ++
          [⟨component, ⟨env.flow, env.block, i⟩, m, a, inTracks.length, inTracks,
            (List.range inTracks.length).map fun j => (first + j) % 2 ^ 8⟩] }) :
          Exec (AuStatus × Compiling K)) = .ok (.auSuccess, st') →
      Appends G st st' fun v t => G.flat v i m a inTracks first t := by
    intro st₂ e' hel hraw hout hin h
    obtain ⟨p, -, h⟩ := Exec.bind_eq_ok.1 h
    cases h
    refine ⟨?_, hout, [⟨p, ⟨env.flow, env.block, i⟩, m, a, inTracks.length, inTracks,
      (List.range inTracks.length).map fun j => (first + j) % 2 ^ 8⟩], by rw [← hin], fun v t => ?_⟩
    · dsimp only
      rw [hel, map_raw_set he hraw, hr]
    · rw [hflat, denote, List.map_singleton, List.sum_singleton, CompiledInput.addTo]
      dsimp only
      by_cases hts : inTracks = []
      · rw [if_pos (by rw [hts]; rfl), if_pos hts]
      · rw [if_neg (by rwa [List.length_eq_zero_iff]), if_neg hts, List.range_eq_range',
          sum_zip_eq_placed (fun s => v i s * m + a), Nat.add_zero]
  unfold compileImport at h
  dsimp only at h
  split at h
  · cases h
  generalize hst₁ : ({ st.setElement i e.markCompiled with
    allocs := (st.setElement i e.markCompiled).allocs + 1 } : Compiling K) = st₁ at h
  have hel₁ : st₁.elements = st.elements.set i e.markCompiled := by rw [← hst₁]; rfl
  have hout₁ : st₁.outputs = st.outputs := by rw [← hst₁]; rfl
  have hin₁ : st₁.inputs = st.inputs := by rw [← hst₁]; rfl
  split at h
  · rw [if_neg (by simp)] at h
    rcases hcomp : e.component with _ | p
    · rw [show st₁.share i e = st₁ by rw [Compiling.share, hcomp]] at h
      exact hfin st₁ e.markCompiled hel₁ rfl hout₁ hin₁ h
    · refine hfin (st₁.share i e) { e with refCnt := e.refCnt + 1 } ?_ rfl ?_ ?_ h <;>
        rw [Compiling.share, hcomp]
      · simp [Compiling.modifyComponent, Compiling.setElement, hel₁]
      · exact hout₁
      · exact hin₁
  · rcases hatt : st₁.attach env i e with ⟨status, st₂⟩
    rw [hatt] at h
    dsimp only at h
    split at h
    · cases h; contradiction
    · rename_i hstat
      rw [not_not] at hstat
      subst hstat
      obtain ⟨-, hin, hout, e', hset, hraw, -⟩ := attach_cases hatt
      exact hfin st₂ e' (by rw [hset, hel₁, List.set_set]) hraw (hout.trans hout₁) (hin.trans hin₁) h

theorem compileSum_appends {call : CompileCall K} {m a : K} {inTracks inputs : List Nat} {first : Nat}
    (hcall : Flattens G call m a) (hr : st.elements.map (·.raw) = G.nodes)
    (h : compileSum call inTracks first inputs st = .ok (.auSuccess, st')) :
    Appends G st st' fun v t => (inputs.map (G.flat v · m a inTracks first t)).sum := by
  induction inputs generalizing st with
  | nil => cases h; exact .nil hr
  | cons input inputs ih =>
    unfold compileSum at h
    obtain ⟨⟨status, st₁⟩, h₁, h⟩ := Exec.bind_eq_ok.1 h
    dsimp only at h
    split at h
    · cases h; contradiction
    · rename_i hstat
      rw [not_not] at hstat
      subst hstat
      have ha := hcall st input inTracks first st₁ hr h₁
      exact ha.trans (ih ha.raws h)

theorem compileBundle_appends {call : CompileCall K} {m a : K} {tracks : List AuInputTrack}
    {nextInput : Nat} {inputTracks : List Nat} {first : Nat}
    (hcall : Flattens G call m a) (hr : st.elements.map (·.raw) = G.nodes)
    (h : compileBundle call tracks nextInput inputTracks first st = .ok (.auSuccess, st')) :
    Appends G st st' fun v t =>
      flatRuns (fun j => G.flat v j m a) (bundleRuns nextInput inputTracks tracks) first t := by
  induction tracks generalizing st nextInput inputTracks first with
  | nil =>
    have ha := hcall st nextInput inputTracks first st' hr h
    refine ⟨ha.raws, ha.outputs, ?_⟩
    obtain ⟨new, hnew, hd⟩ := ha.inputs
    exact ⟨new, hnew, fun v t => by rw [hd, bundleRuns, flatRuns, flatRuns, add_zero]⟩
  | cons t tracks ih =>
    unfold compileBundle at h
    rw [bundleRuns]
    split at h
    · rename_i hne
      rw [if_pos hne]
      obtain ⟨⟨status, st₁⟩, h₁, h⟩ := Exec.bind_eq_ok.1 h
      dsimp only at h
      split at h
      · cases h; contradiction
      · rename_i hstat
        rw [not_not] at hstat
        subst hstat
        have ha := hcall st nextInput inputTracks first st₁ hr h₁
        exact ha.trans (ih ha.raws h)
    · rename_i hne
      rw [if_neg hne]
      split at h
      · exact ih hr h
      · cases h

/-- What a successful walk has compiled. -/
theorem compileInputs_appends (hA : env.arith = Arith.exact K) (fuel : Nat) (m a : K) :
    Flattens G (compileInputs env fuel m a) m a := by
  induction fuel generalizing m a with
  | zero => intro st _ _ _ _ _ h; cases h
  | succ fuel ih =>
    intro st i inTracks first st' hr h
    unfold compileInputs at h
    obtain ⟨e, he, h⟩ := Exec.bind_eq_ok.1 h
    rw [Exec.deref_eq_ok] at he
    have hi : G.nodes[i]? = some e.raw := by rw [← hr, List.getElem?_map, he]; rfl
    have hr₁ : (st.setElement i e.markCompiled).elements.map (·.raw) = G.nodes := by
      exact (map_raw_set he (rfl : e.markCompiled.raw = e.raw)).trans hr
    -- what was compiled from the marked state on was compiled from this one
    have hmark : ∀ {f : (Nat → Nat → K) → Nat → K}, Appends G (st.setElement i e.markCompiled) st' f →
        Appends G st st' f := fun h => ⟨h.raws, h.outputs, h.inputs⟩
    unfold compileElement at h
    rw [hA] at h
    cases hraw : e.raw with
    | importClient | importDevice | importBucket | importWaveForm =>
      simp only [hraw] at h
      exact compileImport_appends hr he (by rw [hraw]; rfl) h
    | bundle inputs =>
      simp only [hraw] at h
      rw [hraw] at hi
      have ha := compileBundle_appends (ih m a) hr₁ h
      cases inputs with
      | nil =>
        -- the call for an empty bundle is for element -1, which is not there
        have hlen : st.elements.length = G.nodes.length := by rw [← hr, List.length_map]
        have hlt := G.length_lt
        cases fuel with
        | zero => cases h
        | succ fuel =>
          obtain ⟨e', he', -⟩ := Exec.bind_eq_ok.1 h
          rw [Exec.deref_eq_ok] at he'
          have := (List.getElem?_eq_some_iff.1 he').1
          rw [Compiling.setElement, List.length_set] at this
          omega
      | cons t tracks =>
        refine hmark ⟨ha.raws, ha.outputs, ?_⟩
        obtain ⟨new, hnew, hd⟩ := ha.inputs
        refine ⟨new, hnew, fun v t' => ?_⟩
        rw [hd, ElementGraph.flat_eq hi, flatElement, inputRuns, bundleRuns, if_neg (by simp)]
        rfl
    | multiplyConstant input constant =>
      simp only [hraw] at h
      rw [hraw] at hi
      have ha := ih _ _ _ input inTracks first st' hr₁ h
      refine hmark ⟨ha.raws, ha.outputs, ?_⟩
      obtain ⟨new, hnew, hd⟩ := ha.inputs
      exact ⟨new, hnew, fun v t => by rw [hd, ElementGraph.flat_eq hi]; rfl⟩
    | addConstant input constant =>
      simp only [hraw] at h
      rw [hraw] at hi
      have ha := ih _ _ _ input inTracks first st' hr₁ h
      refine hmark ⟨ha.raws, ha.outputs, ?_⟩
      obtain ⟨new, hnew, hd⟩ := ha.inputs
      exact ⟨new, hnew, fun v t => by rw [hd, ElementGraph.flat_eq hi]; rfl⟩
    | sum inputs =>
      simp only [hraw] at h
      rw [hraw] at hi
      have ha := compileSum_appends (ih m a) hr₁ h
      refine hmark ⟨ha.raws, ha.outputs, ?_⟩
      obtain ⟨new, hnew, hd⟩ := ha.inputs
      exact ⟨new, hnew, fun v t => by rw [hd, ElementGraph.flat_eq hi]; rfl⟩
    | exportClient | exportDevice | exportBucket | exportMonitor | other =>
      simp only [hraw] at h
      cases h

/-- `o` is the compiled output of export `i`. -/
structure Compiled (G : ElementGraph K) (i : Nat) (e : AuElement K) (o : CompiledOutput K) : Prop where
  element : G.nodes[i]? = some e
  isExport : e.isExport
  num : o.flowEl.num = i
  denotes : ∀ v t, denote v o.inputs t = G.flat v e.firstInput 1 0 [] 0 t

/-- One more element of the loop over the exports: an export is compiled, nothing else is. -/
theorem compileOutput_compiles (hA : env.arith = Arith.exact K) {fuel i : Nat} {e : FlowElement K}
    (hr : st.elements.map (·.raw) = G.nodes) (he : st.elements[i]? = some e)
    (h : compileOutput env fuel st i = .ok (.auSuccess, st')) :
    st'.elements.map (·.raw) = G.nodes ∧
      if e.raw.isExport then ∃ o, st'.outputs = st.outputs ++ [o] ∧ Compiled G i e.raw o
      else st'.outputs = st.outputs := by
  have hi : G.nodes[i]? = some e.raw := by rw [← hr, List.getElem?_map, he]; rfl
  by_cases hexp : e.raw.isExport = true
  swap
  · unfold compileOutput at h
    rw [he, Exec.deref_some, Exec.ok_bind, if_pos (by simpa using hexp)] at h
    cases h
    exact ⟨hr, by rw [if_neg hexp]⟩
  rw [if_pos hexp]
  unfold compileOutput at h
  rw [he, Exec.deref_some, Exec.ok_bind, if_neg (by simp [hexp])] at h
  dsimp only at h
  split at h
  · cases h
  rcases hatt : Compiling.attach env { st with allocs := st.allocs + 1 } i e with ⟨status, st₂⟩
  rw [hatt] at h
  dsimp only at h
  split at h
  · cases h; contradiction
  rename_i hstat
  rw [not_not] at hstat
  subst hstat
  obtain ⟨-, hin, hout, e', hset, hraw, -⟩ := attach_cases hatt
  obtain ⟨p, -, h⟩ := Exec.bind_eq_ok.1 h
  split at h
  · cases h
  obtain ⟨⟨status, st₃⟩, h₃, h⟩ := Exec.bind_eq_ok.1 h
  cases h
  have hr₂ : st₂.elements.map (·.raw) = G.nodes := by rw [hset]; exact (map_raw_set he hraw).trans hr
  rw [hA] at h₃
  have ha := compileInputs_appends (G := G) hA fuel _ _ { st₂ with inputs := [] } _ _ _ _ hr₂ h₃
  obtain ⟨new, hnew, hd⟩ := ha.inputs
  refine ⟨ha.raws, ⟨p, ⟨env.flow, env.block, i⟩, e.raw.firstInput, st₃.inputs⟩, ?_, hi, hexp, rfl,
    fun v t => ?_⟩
  · rw [show st₃.outputs = st.outputs from ha.outputs.trans hout]
  · dsimp only
    rw [hnew, List.nil_append, hd]
    rfl

theorem compileOutputs_compiles (hA : env.arith = Arith.exact K) {fuel k a : Nat}
    (hr : st.elements.map (·.raw) = G.nodes)
    (h : compileOutputs env fuel (List.range' a k) st = .ok (.auSuccess, st')) :
    ∃ os, st'.outputs = st.outputs ++ os ∧ (∀ o ∈ os, ∃ e, Compiled G o.flowEl.num e o) ∧
      ∀ i e, a ≤ i → i < a + k → G.nodes[i]? = some e → e.isExport → ∃ o ∈ os, o.flowEl.num = i := by
  induction k generalizing a st with
  | zero =>
    cases h
    exact ⟨[], by simp, by simp, fun i e hi hi' => absurd hi' (by omega)⟩
  | succ k ih =>
    rw [List.range'_succ, compileOutputs] at h
    obtain ⟨⟨status, st₁⟩, h₁, h⟩ := Exec.bind_eq_ok.1 h
    dsimp only at h
    split at h
    · cases h; contradiction
    rename_i hstat
    rw [not_not] at hstat
    subst hstat
    obtain ⟨e, he, -⟩ := Exec.bind_eq_ok.1 h₁
    rw [Exec.deref_eq_ok] at he
    have hra : G.nodes[a]? = some e.raw := by rw [← hr, List.getElem?_map, he]; rfl
    obtain ⟨hr₁, ho⟩ := compileOutput_compiles hA hr he h₁
    obtain ⟨os, hos, hall, hex⟩ := ih hr₁ h
    split at ho
    · obtain ⟨o, hout, hc⟩ := ho
      refine ⟨o :: os, by rw [hos, hout]; simp, ?_, fun i e' hi hi' he' hexp => ?_⟩
      · exact List.forall_mem_cons.2 ⟨⟨e.raw, by rw [hc.num]; exact hc⟩, hall⟩
      · rcases Nat.lt_or_eq_of_le hi with hi | rfl
        · obtain ⟨o', ho', hn⟩ := hex i e' hi (by omega) he' hexp
          exact ⟨o', .tail _ ho', hn⟩
        · exact ⟨o, .head _, hc.num⟩
    · rename_i hnot
      refine ⟨os, by rw [hos, ho], hall, fun i e' hi hi' he' hexp => ?_⟩
      rcases Nat.lt_or_eq_of_le hi with hi | rfl
      · exact hex i e' hi (by omega) he' hexp
      · rw [hra] at he'; cases he'; exact absurd hexp hnot

/-- Where bundles compose, the output of an export computes the tracks of its input exactly when the
constants added wrongly on its way sum up to nothing on every track. -/
theorem auCompileFlow_denotes_iff (hA : env.arith = Arith.exact K) {fuel i : Nat} {e : AuElement K}
    (hf : Fresh G.nodes st) (h : auCompileFlow env fuel st = .ok (.auSuccess, st'))
    (he : G.nodes[i]? = some e) (hx : e.isExport) (hc : G.Composes e.firstInput []) :
    (∃ o ∈ st'.outputs, o.flowEl.num = i) ∧ ∀ o ∈ st'.outputs, o.flowEl.num = i →
      ((∀ v t, denote v o.inputs t = (G.eval v e.firstInput t).getD 0) ↔
        ∀ t, G.addDefect e.firstInput t 1 = 0) := by
  have hlen : st.elements.length = G.nodes.length := by rw [← hf.raws, List.length_map]
  unfold auCompileFlow at h
  rw [List.range_eq_range'] at h
  obtain ⟨os, hos, hall, hex⟩ := compileOutputs_compiles hA (G := G) (by exact hf.raws) h
  rw [hos, List.nil_append]
  refine ⟨hex i e (Nat.zero_le _) ?_ he hx, fun o ho hn => ?_⟩
  · rw [hlen, Nat.zero_add]; exact (List.getElem?_eq_some_iff.1 he).1
  obtain ⟨e', hC⟩ := hall o ho
  have : e' = e := by
    have := hC.element
    rw [hn, he] at this
    cases this
    rfl
  subst this
  have hval : ∀ v t, denote v o.inputs t =
      (G.eval v e'.firstInput t).getD 0 + G.addDefect e'.firstInput t 1 := fun v t => by
    rw [hC.denotes, ElementGraph.flat_eq_placed 1 0 hc fun _ => rfl, if_pos rfl, ElementGraph.flatTrack]
    ring
  constructor
  · intro hp t
    have := hp (fun _ _ => 0) t
    rw [hval] at this
    exact add_eq_left.1 this
  · intro hd v t
    rw [hval, hd, add_zero]

end Denote

/-! ### Two flows -/

/-- A wave form, the elements `ops` on it, and a monitor of the last. -/
def chainElements (ops : List (AuElement ℤ)) : List (AuElement ℤ) :=
  .importWaveForm { sampleRate := 8000, numSamples := 0, waveForm := 0, frequency := 440, actions := [] } ::
    ops ++ [.exportMonitor { eventRate := 8000, input := ops.length, format := 6, numTracks := 1 }]

/-- An addition below a multiplication. -/
def addBelowMultiply : ElementGraph ℤ where
  toDag := Dag.ofRank (chainElements [.addConstant 0 3, .multiplyConstant 1 2]) AuElement.inputs id (by
    intro i e he j hj
    match i, he with
    | 0, he | 3, he => cases he; cases hj
    | 1, he | 2, he => cases he; cases hj with
      | head => decide
      | tail _ hj => cases hj)
  succs_eq := rfl
  wellIndexed := by decide
  length_lt := by decide

/-- A multiplication below an addition. -/
def multiplyBelowAdd : ElementGraph ℤ where
  toDag := Dag.ofRank (chainElements [.multiplyConstant 0 2, .addConstant 1 3]) AuElement.inputs id (by
    intro i e he j hj
    match i, he with
    | 0, he | 3, he => cases he; cases hj
    | 1, he | 2, he => cases he; cases hj with
      | head => decide
      | tail _ hj => cases hj)
  succs_eq := rfl
  wellIndexed := by decide
  length_lt := by decide

def exactEnv : CompileEnv ℤ := { friendlyEnv 4 with arith := Arith.exact ℤ }

/-- Scaling and adding, in this order, is compiled right. -/
theorem multiplyBelowAdd_denotes : ∃ st' o, auCompileFlow exactEnv 3 (freshElements multiplyBelowAdd.nodes) =
    .ok (.auSuccess, st') ∧ o ∈ st'.outputs ∧
    ∀ v t, denote v o.inputs t = (multiplyBelowAdd.eval v 2 t).getD 0 := by
  have h0 : multiplyBelowAdd.nodes[0]? = some (.importWaveForm _) := rfl
  have h1 : multiplyBelowAdd.nodes[1]? = some (.multiplyConstant 0 2) := rfl
  have h2 : multiplyBelowAdd.nodes[2]? = some (.addConstant 1 3) := rfl
  have hc : multiplyBelowAdd.Composes 2 [] := by
    rw [ElementGraph.composes_eq h2]
    show multiplyBelowAdd.Composes 1 []
    rw [ElementGraph.composes_eq h1]
    show multiplyBelowAdd.Composes 0 []
    rw [ElementGraph.composes_eq h0]
    trivial
  have hl : ∀ t, multiplyBelowAdd.leaves 1 t = 1 := fun t => by
    rw [ElementGraph.leaves_eq h1]
    show multiplyBelowAdd.leaves 0 t = 1
    rw [ElementGraph.leaves_eq h0]
    rfl
  have hd : ∀ t, multiplyBelowAdd.addDefect 2 t 1 = 0 := fun t => by
    rw [ElementGraph.addDefect_eq h2]
    simp only [addDefectElement, hl]
    rw [ElementGraph.addDefect_eq h1]
    simp only [addDefectElement]
    rw [ElementGraph.addDefect_eq h0]
    simp [addDefectElement]
  obtain ⟨st', hst'⟩ : ∃ st', auCompileFlow exactEnv 3 (freshElements multiplyBelowAdd.nodes) =
    .ok (.auSuccess, st') := ⟨_, rfl⟩
  obtain ⟨⟨o, ho, hn⟩, hall⟩ := auCompileFlow_denotes_iff rfl
    (fresh_freshElements multiplyBelowAdd.nodes) hst' (rfl : multiplyBelowAdd.nodes[3]? = _) rfl hc
  exact ⟨st', o, hst', ho, (hall o ho hn).2 hd⟩

/-- Adding and scaling, in this order, is not: the constant is not scaled. -/
theorem addBelowMultiply_differs : ¬ ∀ (G : ElementGraph ℤ) (env : CompileEnv ℤ) (fuel : Nat)
    (st st' : Compiling ℤ), env.arith = Arith.exact ℤ → Fresh G.nodes st →
    auCompileFlow env fuel st = .ok (.auSuccess, st') →
    ∀ o ∈ st'.outputs, ∀ v t, denote v o.inputs t = (G.eval v o.firstInput t).getD 0 := by
  intro h
  have hd := h addBelowMultiply exactEnv 3 _ _ rfl (fresh_freshElements _) rfl _ (.head _) (fun _ _ => 0) 0
  have h0 : addBelowMultiply.nodes[0]? = some (.importWaveForm _) := rfl
  have h1 : addBelowMultiply.nodes[1]? = some (.addConstant 0 3) := rfl
  have h2 : addBelowMultiply.nodes[2]? = some (.multiplyConstant 1 2) := rfl
  change (3 : ℤ) = (addBelowMultiply.eval (fun _ _ => 0) 2 0).getD 0 at hd
  rw [ElementGraph.eval_eq h2] at hd
  simp only [evalElement] at hd
  rw [ElementGraph.eval_eq h1] at hd
  simp only [evalElement] at hd
  rw [ElementGraph.eval_eq h0] at hd
  simp [evalElement] at hd

end Nas
