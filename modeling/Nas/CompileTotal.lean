import Nas.Compile
import Mathlib.Order.WellFounded
import Mathlib.Data.Fintype.Card
import Mathlib.Data.Fintype.Order
import Mathlib.Logic.Relation

/-!
# When a compilation comes to an end

`compileInputs` follows the graph the client sent. The calls it makes for an element are made one
after the other until one of them fails, which some elements always do: a call is made when no call
before it leads to such an element (`Makes`). The walk from an element ends well exactly when all the
elements it gets to are in range, no bundle it gets to has more than `auMaxTracks` tracks of one
element in a row, and it never gets back to an element it came from (`Compilable`).

`auCompileFlow_total_iff` is this for a whole flow, over all allocations that may fail and all
components that may exist. `ProcAuSetElements` and `AuCompileFlow` check none of it; an output's first
input may even be one behind the last element.
-/

namespace Nas
variable {K : Type}

/-! ### The graph of a flow -/

/-- The runs of tracks of one element, as the loop over a bundle finds them from `nextInput` and
`inputTracks` on. An empty bundle names element -1. -/
def bundleRuns (nextInput : Nat) (inputTracks : List Nat) : List AuInputTrack → List (Nat × List Nat)
  | [] => [(nextInput, inputTracks)]
  | t :: tracks =>
    if inputTracks ≠ [] ∧ t.elementNum ≠ nextInput then
      (nextInput, inputTracks) :: bundleRuns t.elementNum [t.track] tracks
    else bundleRuns t.elementNum (inputTracks ++ [t.track]) tracks

/-- The calls `compileInputs` makes for an element: which element, and how many tracks it gathers for
the call. -/
def AuElement.calls : AuElement K → List (Nat × Nat)
  | .bundle inputs => (bundleRuns (2 ^ 32 - 1) [] inputs).map fun r => (r.1, r.2.length)
  | .multiplyConstant input _ => [(input, 0)]
  | .addConstant input _ => [(input, 0)]
  | .sum inputs => inputs.map (·, 0)
  | _ => []

/-- A component that cannot be made, however much memory there is. -/
def ComponentSource.unmakeable : ComponentSource → Bool
  | .create _ size => size % 2 ^ 32 = 0
  | .refused => true
  | .device _ | .bucket _ => false

/-- An element that `compileInputs` always fails at. -/
def AuElement.fails (auMinibufSamples : Nat) : AuElement K → Bool
  | .importDevice _ | .importBucket _ => false
  | .importClient p => ((AuElement.importClient p : AuElement K).source auMinibufSamples).unmakeable
  | .importWaveForm p => ((AuElement.importWaveForm p : AuElement K).source auMinibufSamples).unmakeable
  | .bundle _ | .multiplyConstant .. | .addConstant .. | .sum _ => false
  | _ => true

section Graph
variable (auMinibufSamples : Nat) (raws : List (AuElement K))

/-- `j` is an input of element `i`. -/
def Calls (i j : Nat) : Prop := ∃ e n, raws[i]? = some e ∧ (j, n) ∈ e.calls

/-- The walk from `i` leads to an element it fails at. -/
def Refused (i : Nat) : Prop :=
  ∃ j e, Relation.ReflTransGen (Calls raws) i j ∧ raws[j]? = some e ∧ e.fails auMinibufSamples

/-- The walk makes the call `c` for element `i`: none of the calls before it is refused. -/
def Makes (i : Nat) (c : Nat × Nat) : Prop :=
  ∃ e pre post, raws[i]? = some e ∧ e.calls = pre ++ c :: post ∧
    ∀ c' ∈ pre, ¬ Refused auMinibufSamples raws c'.1

/-- The walk goes on from `i` to `j`. -/
def Next (i j : Nat) : Prop := ∃ n, Makes auMinibufSamples raws i (j, n)

/-- The walk from `i` only gets to elements that are there, gathers no more tracks than there are
places, and never goes round. -/
def Compilable (i : Nat) : Prop :=
  ∀ j, Relation.ReflTransGen (Next auMinibufSamples raws) i j →
    j < raws.length ∧ (∀ c, Makes auMinibufSamples raws j c → c.2 ≤ auMaxTracks) ∧
      ¬ Relation.TransGen (Next auMinibufSamples raws) j j

/-- An export that `AuCompileFlow` returns an error for, at once or from the walk. -/
def ExportRefused (e : AuElement K) : Prop :=
  (e.source auMinibufSamples).unmakeable ∨ raws.length < e.firstInput ∨
    Refused auMinibufSamples raws e.firstInput

/-- The flow can be compiled, or is refused: from every export that no refused one comes before, the
walk ends. -/
def FlowCompilable : Prop :=
  ∀ (i : Nat) (e : AuElement K), raws[i]? = some e → e.isExport →
    (∀ i' < i, ∀ e' : AuElement K, raws[i']? = some e' → e'.isExport → ¬ ExportRefused auMinibufSamples raws e') →
    (e.source auMinibufSamples).unmakeable ∨ raws.length < e.firstInput ∨
      Compilable auMinibufSamples raws e.firstInput

/-- `Compilable` by recursion: what holds of `i` and of all it goes on to. -/
inductive Walkable : Nat → Prop where
  | intro {i : Nat} {e : AuElement K} : raws[i]? = some e →
      (∀ c, Makes auMinibufSamples raws i c → c.2 ≤ auMaxTracks) →
      (∀ c, Makes auMinibufSamples raws i c → Walkable c.1) → Walkable i

end Graph

section Graph
variable {auMinibufSamples : Nat} {raws : List (AuElement K)} {i j : Nat} {e : AuElement K}

theorem Refused.head (h : Calls raws i j) (hj : Refused auMinibufSamples raws j) :
    Refused auMinibufSamples raws i := by
  obtain ⟨k, e, hp, he⟩ := hj
  exact ⟨k, e, hp.head h, he⟩

/-- An element is refused when the walk fails at it or one of its inputs is. -/
theorem refused_iff (he : raws[i]? = some e) : Refused auMinibufSamples raws i ↔
    e.fails auMinibufSamples = true ∨ ∃ c ∈ e.calls, Refused auMinibufSamples raws c.1 := by
  constructor
  · rintro ⟨k, e', hp, hk, hf⟩
    rcases Relation.ReflTransGen.cases_head hp with rfl | ⟨j, ⟨e₁, n, he₁, hc⟩, hp⟩
    · rw [he] at hk; cases hk; exact .inl hf
    · rw [he] at he₁; cases he₁
      exact .inr ⟨(j, n), hc, k, e', hp, hk, hf⟩
  · rintro (hf | ⟨c, hc, hr⟩)
    · exact ⟨i, e, .refl, he, hf⟩
    · exact hr.head ⟨e, c.2, he, hc⟩

/-- An element the walk does not fail at is not refused when none of its inputs is. -/
theorem not_refused_iff {refused : Nat → Prop} {cs : List (Nat × Nat)} {fails : Bool} (hf : fails = false) :
    ¬ (fails = true ∨ ∃ c ∈ cs, refused c.1) ↔ ∀ c ∈ cs, ¬ refused c.1 := by
  simp [hf]

theorem Walkable.lt (h : Walkable auMinibufSamples raws i) : i < raws.length := by
  cases h with
  | intro he _ _ => exact (List.getElem?_eq_some_iff.1 he).1

theorem Walkable.fit (h : Walkable auMinibufSamples raws i) (c : Nat × Nat)
    (hc : Makes auMinibufSamples raws i c) : c.2 ≤ auMaxTracks := by
  cases h with
  | intro _ hf _ => exact hf c hc

theorem Walkable.next (h : Walkable auMinibufSamples raws i) (hn : Next auMinibufSamples raws i j) :
    Walkable auMinibufSamples raws j := by
  obtain ⟨n, hc⟩ := hn
  cases h with
  | intro _ _ hw => exact hw (j, n) hc

theorem Walkable.acc (h : Walkable auMinibufSamples raws i) :
    Acc (flip (Next auMinibufSamples raws)) i := by
  induction h with
  | intro _ _ _ ih => exact ⟨_, fun j ⟨n, hc⟩ => ih (j, n) hc⟩

theorem not_transGen_of_acc {α : Type} {r : α → α → Prop} {a : α} (h : Acc (flip r) a) :
    ¬ Relation.TransGen r a a := by
  induction h with
  | intro a _ ih =>
    intro hc
    obtain ⟨b, hab, hba⟩ := Relation.TransGen.head'_iff.1 hc
    exact ih b hab (Relation.TransGen.tail' hba hab)

theorem Walkable.compilable (h : Walkable auMinibufSamples raws i) :
    Compilable auMinibufSamples raws i := by
  intro j hp
  have hj : Walkable auMinibufSamples raws j := by
    induction hp with
    | refl => exact h
    | tail _ hn ih => exact ih.next hn
  exact ⟨hj.lt, hj.fit, not_transGen_of_acc hj.acc⟩

/-- Among finitely many elements a walk that never goes round ends. -/
theorem Compilable.walkable (h : Compilable auMinibufSamples raws i) :
    Walkable auMinibufSamples raws i := by
  let Seen := {j // Relation.ReflTransGen (Next auMinibufSamples raws) i j}
  let r : Seen → Seen → Prop := fun a b => Relation.TransGen (Next auMinibufSamples raws) b.1 a.1
  have : Finite Seen := Finite.of_injective (fun a : Seen => (⟨a.1, (h a.1 a.2).1⟩ : Fin raws.length))
    fun a b hab => Subtype.ext (Fin.mk.inj_iff.1 hab)
  have : IsTrans Seen r := ⟨fun a b c hab hbc => hbc.trans hab⟩
  have : Std.Irrefl r := ⟨fun a ha => (h a.1 a.2).2.2 ha⟩
  have hwf : WellFounded r := Finite.wellFounded_of_trans_of_irrefl r
  suffices hall : ∀ a : Seen, Walkable auMinibufSamples raws a.1 from hall ⟨i, .refl⟩
  intro a
  induction a using hwf.induction with
  | _ a ih =>
    obtain ⟨hlt, hfit, -⟩ := h a.1 a.2
    refine .intro (List.getElem?_eq_getElem hlt) hfit fun c hc => ?_
    exact ih ⟨c.1, a.2.tail ⟨c.2, hc⟩⟩ (.single ⟨c.2, hc⟩)

theorem walkable_iff : Walkable auMinibufSamples raws i ↔ Compilable auMinibufSamples raws i :=
  ⟨Walkable.compilable, Compilable.walkable⟩

end Graph

/-! ### Calls one after the other -/

/-- Every call of a list satisfies `good`, up to and with the first that is refused. -/
def UpTo (refused : Nat → Prop) (good : Nat × Nat → Prop) : List (Nat × Nat) → Prop
  | [] => True
  | c :: cs => good c ∧ (¬ refused c.1 → UpTo refused good cs)

theorem upTo_iff {refused : Nat → Prop} {good : Nat × Nat → Prop} {cs : List (Nat × Nat)} :
    UpTo refused good cs ↔
      ∀ pre c post, cs = pre ++ c :: post → (∀ c' ∈ pre, ¬ refused c'.1) → good c := by
  induction cs with
  | nil => simp [UpTo]
  | cons c cs ih =>
    rw [UpTo, ih]
    constructor
    · rintro ⟨hc, hcs⟩ pre c' post heq hpre
      cases pre with
      | nil => cases heq; exact hc
      | cons p pre =>
        cases heq
        exact hcs (hpre _ (.head _)) pre c' post rfl fun c' hc' => hpre c' (.tail _ hc')
    · intro h
      refine ⟨h [] c cs rfl (by simp), fun hr pre c' post heq hpre => ?_⟩
      refine h (c :: pre) c' post (by rw [heq]; rfl) fun c'' hc'' => ?_
      rcases List.mem_cons.1 hc'' with rfl | hc''
      · exact hr
      · exact hpre c'' hc''

theorem UpTo.mono {refused : Nat → Prop} {good good' : Nat × Nat → Prop} {cs : List (Nat × Nat)}
    (h : UpTo refused good cs) (hg : ∀ c, good c → good' c) : UpTo refused good' cs := by
  rw [upTo_iff] at h ⊢
  exact fun pre c post heq hpre => hg c (h pre c post heq hpre)

theorem walkable_of_upTo {auMinibufSamples i : Nat} {raws : List (AuElement K)} {e : AuElement K}
    (he : raws[i]? = some e) (h : UpTo (Refused auMinibufSamples raws)
      (fun c => c.2 ≤ auMaxTracks ∧ Walkable auMinibufSamples raws c.1) e.calls) :
    Walkable auMinibufSamples raws i := by
  rw [upTo_iff] at h
  have hm : ∀ c, Makes auMinibufSamples raws i c →
      c.2 ≤ auMaxTracks ∧ Walkable auMinibufSamples raws c.1 := by
    rintro c ⟨e', pre, post, he', heq, hpre⟩
    rw [he] at he'; cases he'
    exact h pre c post heq hpre
  exact .intro he (fun c hc => (hm c hc).1) (fun c hc => (hm c hc).2)

theorem makes_upTo {auMinibufSamples i : Nat} {raws : List (AuElement K)} {e : AuElement K}
    {good : Nat × Nat → Prop} (he : raws[i]? = some e)
    (h : ∀ c, Makes auMinibufSamples raws i c → good c) :
    UpTo (Refused auMinibufSamples raws) good e.calls :=
  upTo_iff.2 fun pre c post heq hpre => h c ⟨e, pre, post, he, heq, hpre⟩

/-- The first run of a bundle starts with the tracks gathered so far. -/
theorem bundleRuns_head (n : Nat) (ts : List Nat) (tracks : List AuInputTrack) :
    ∃ m l rs, bundleRuns n ts tracks = (m, l) :: rs ∧ ts.length ≤ l.length := by
  induction tracks generalizing n ts with
  | nil => exact ⟨n, ts, [], rfl, Nat.le_refl _⟩
  | cons t tracks ih =>
    unfold bundleRuns
    split
    · exact ⟨n, ts, _, rfl, Nat.le_refl _⟩
    · obtain ⟨m, l, rs, heq, hl⟩ := ih t.elementNum (ts ++ [t.track])
      refine ⟨m, l, rs, heq, ?_⟩
      rw [List.length_append] at hl
      omega

/-! ### The walk ends -/

/-- The state of a compilation of the elements `raws`: an import that is marked as compiled has a
component. -/
structure Ready (auMinibufSamples : Nat) (raws : List (AuElement K)) (st : Compiling K) : Prop where
  raws : st.elements.map (·.raw) = raws
  compiled : ∀ e ∈ st.elements, e.raw.isImport → e.compiled →
    e.component.isSome ∧ e.raw.fails auMinibufSamples = false

theorem AuElement.fails_import {e : AuElement K} (auMinibufSamples : Nat) (h : e.isImport) :
    e.fails auMinibufSamples = (e.source auMinibufSamples).unmakeable := by
  cases e <;> first | rfl | cases h

theorem AuElement.calls_import {e : AuElement K} (h : e.isImport) : e.calls = [] := by
  cases e <;> first | rfl | cases h

section Walk
variable {auMinibufSamples : Nat} {raws : List (AuElement K)} {env : CompileEnv K}
  {st st' : Compiling K} {i : Nat} {e e' : FlowElement K}

namespace Ready

theorem length (h : Ready auMinibufSamples raws st) : st.elements.length = raws.length := by
  rw [← h.raws, List.length_map]

theorem raw (h : Ready auMinibufSamples raws st) (he : st.elements[i]? = some e) :
    raws[i]? = some e.raw := by
  rw [← h.raws, List.getElem?_map, he]; rfl

theorem exists_element {r : AuElement K} (h : Ready auMinibufSamples raws st) (he : raws[i]? = some r) :
    ∃ e, st.elements[i]? = some e ∧ e.raw = r := by
  rw [← h.raws, List.getElem?_map, Option.map_eq_some_iff] at he
  exact he

/-- Changing an element, but not what it is. -/
theorem set (h : Ready auMinibufSamples raws st) (he : st.elements[i]? = some e) (hr : e'.raw = e.raw)
    (hc : e'.raw.isImport → e'.compiled → e'.component.isSome ∧ e'.raw.fails auMinibufSamples = false)
    (hs : st'.elements = st.elements.set i e') : Ready auMinibufSamples raws st' := by
  constructor
  · rw [hs, List.map_set, h.raws, hr]
    have hraw := h.raw he
    exact List.ext_getElem? fun j => by
      rw [List.getElem?_set]
      split
      · rename_i hij
        rw [← hij, hraw, if_pos (List.getElem?_eq_some_iff.1 hraw).1]
      · rfl
  · rw [hs]
    intro a ha himp hcomp
    rcases List.mem_or_eq_of_mem_set ha with ha | rfl
    · exact h.compiled a ha himp hcomp
    · exact hc himp hcomp

end Ready

/-- What `attach` does when it succeeds. -/
theorem attach_cases (h : st.attach env i e = (.auSuccess, st')) :
    (e.raw.source env.auMinibufSamples).unmakeable = false ∧
      st'.inputs = st.inputs ∧ st'.outputs = st.outputs ∧
      ∃ e', st'.elements = st.elements.set i e' ∧ e'.raw = e.raw ∧ e'.component.isSome := by
  unfold Compiling.attach at h
  split at h
  · cases h
  · rename_i c size hsrc
    split at h
    · cases h
    · rename_i hmem
      cases h
      refine ⟨?_, rfl, rfl, _, rfl, rfl, rfl⟩
      simp only [hsrc, ComponentSource.unmakeable]
      simp only [aualloc, Bool.and_eq_true, decide_eq_true_eq, not_not] at hmem
      simpa using hmem.1
  · rename_i id hsrc
    split at h
    · cases h
    · dsimp only at h
      split at h <;> cases h <;> exact ⟨by rw [hsrc]; rfl, rfl, rfl, _, rfl, rfl, rfl⟩
  · rename_i id hsrc
    split at h
    · cases h
    · dsimp only at h
      split at h
      · cases h
      · cases h
        exact ⟨by rw [hsrc]; rfl, rfl, rfl, _, rfl, rfl, rfl⟩

/-- The call for an import returns, and successfully only when its component can be made. -/
theorem compileImport_ends (multiplyConstant addConstant : K) (inTracks : List Nat) (firstOutTrack : Nat)
    (hr : Ready env.auMinibufSamples raws st) (he : st.elements[i]? = some e) (himp : e.raw.isImport) :
    ∃ status st', compileImport env (st.setElement i e.markCompiled) i e multiplyConstant
        addConstant inTracks firstOutTrack = .ok (status, st') ∧
      (status = .auSuccess → Ready env.auMinibufSamples raws st' ∧
        e.raw.fails env.auMinibufSamples = false) := by
  have hlt : i < st.elements.length := (List.getElem?_eq_some_iff.1 he).1
  have hmem : e ∈ st.elements := List.mem_of_getElem? he
  unfold compileImport
  dsimp only
  by_cases hm : env.mem (st.setElement i e.markCompiled).allocs = true
  swap
  · exact ⟨_, _, by rw [if_pos hm], fun h => by cases h⟩
  rw [if_neg (by simpa using hm)]
  by_cases hc : e.compiled = true
  · obtain ⟨hsome, hf⟩ := hr.compiled e hmem himp hc
    obtain ⟨p, hp⟩ := Option.isSome_iff_exists.1 hsome
    simp only [hc, ↓reduceIte, ne_eq, not_true_eq_false]
    generalize hst₂ : Compiling.share _ i e = st₂
    have hel : st₂.elements = st.elements.set i { e with refCnt := e.refCnt + 1 } := by
      rw [← hst₂, Compiling.share, hp]; simp [Compiling.modifyComponent, Compiling.setElement]
    rw [show (st₂.elements[i]?).bind (·.component) = some p by rw [hel]; simp [hlt, hp],
      Exec.deref_some, Exec.ok_bind]
    refine ⟨_, _, rfl, fun _ => ⟨?_, hf⟩⟩
    exact hr.set he (rfl : ({ e with refCnt := e.refCnt + 1 } : FlowElement K).raw = e.raw)
      (fun _ _ => ⟨hsome, hf⟩) hel
  · simp only [hc, Bool.false_eq_true, ↓reduceIte]
    generalize hst₁ : ({ st.setElement i e.markCompiled with
      allocs := (st.setElement i e.markCompiled).allocs + 1 } : Compiling K) = st₁
    rcases hatt : st₁.attach env i e with ⟨status, st₂⟩
    dsimp only
    by_cases hstat : status = .auSuccess
    · subst hstat
      obtain ⟨hmake, -, -, e', hset, hraw, hsome⟩ := attach_cases hatt
      have hel : st₂.elements = st.elements.set i e' := by
        rw [hset, ← hst₁]; simp [Compiling.setElement]
      obtain ⟨p, hp⟩ := Option.isSome_iff_exists.1 hsome
      have hf : e.raw.fails env.auMinibufSamples = false := by
        rw [AuElement.fails_import _ himp]; exact hmake
      rw [if_neg (by simp), show (st₂.elements[i]?).bind (·.component) = some p by
        rw [hel]; simp [hlt, hp], Exec.deref_some, Exec.ok_bind]
      refine ⟨_, _, rfl, fun _ => ⟨?_, hf⟩⟩
      exact hr.set he hraw (fun _ _ => ⟨hsome, by rw [hraw]; exact hf⟩) hel
    · exact ⟨_, _, by rw [if_pos hstat], fun h => absurd h hstat⟩

/-- The call for `j` returns, and successfully only when `j` is not refused. -/
def Ends (auMinibufSamples : Nat) (raws : List (AuElement K)) (call : CompileCall K) (j : Nat) : Prop :=
  ∀ st inTracks firstOutTrack, Ready auMinibufSamples raws st →
    ∃ status st', call st j inTracks firstOutTrack = .ok (status, st') ∧
      (status = .auSuccess → Ready auMinibufSamples raws st' ∧ ¬ Refused auMinibufSamples raws j)

theorem compileSum_ends {call : CompileCall K} {inputs : List Nat} (inTracks : List Nat) (firstOutTrack : Nat)
    (h : UpTo (Refused auMinibufSamples raws)
      (fun c => Ends auMinibufSamples raws call c.1) (inputs.map (·, 0)))
    (hr : Ready auMinibufSamples raws st) :
    ∃ status st', compileSum call inTracks firstOutTrack inputs st = .ok (status, st') ∧
      (status = .auSuccess → Ready auMinibufSamples raws st' ∧
        ∀ c ∈ inputs.map ((·, 0) : Nat → Nat × Nat), ¬ Refused auMinibufSamples raws c.1) := by
  induction inputs generalizing st with
  | nil => exact ⟨_, _, rfl, fun _ => ⟨hr, by simp⟩⟩
  | cons input inputs ih =>
    obtain ⟨hc, hcs⟩ := h
    obtain ⟨status, st₁, h₁, hs₁⟩ := hc st inTracks firstOutTrack hr
    unfold compileSum
    rw [h₁, Exec.ok_bind]
    by_cases hstat : status = .auSuccess
    · obtain ⟨hr₁, hn⟩ := hs₁ hstat
      obtain ⟨status₂, st₂, h₂, hs₂⟩ := ih (hcs hn) hr₁
      refine ⟨status₂, st₂, by simpa [hstat] using h₂, fun hs => ⟨(hs₂ hs).1, ?_⟩⟩
      rw [List.map_cons, List.forall_mem_cons]
      exact ⟨hn, (hs₂ hs).2⟩
    · exact ⟨status, st₁, by simp [hstat], fun hs => absurd hs hstat⟩

theorem compileBundle_ends {call : CompileCall K} {tracks : List AuInputTrack} {nextInput : Nat}
    {inputTracks : List Nat} (firstOutTrack : Nat)
    (h : UpTo (Refused auMinibufSamples raws)
      (fun c => c.2 ≤ auMaxTracks ∧ Ends auMinibufSamples raws call c.1)
      ((bundleRuns nextInput inputTracks tracks).map fun r => (r.1, r.2.length)))
    (hr : Ready auMinibufSamples raws st) :
    ∃ status st', compileBundle call tracks nextInput inputTracks firstOutTrack st = .ok (status, st') ∧
      (status = .auSuccess → Ready auMinibufSamples raws st' ∧
        ∀ c ∈ (bundleRuns nextInput inputTracks tracks).map fun r => (r.1, r.2.length),
          ¬ Refused auMinibufSamples raws c.1) := by
  induction tracks generalizing st nextInput inputTracks firstOutTrack with
  | nil =>
    obtain ⟨⟨-, hc⟩, -⟩ := h
    obtain ⟨status, st₁, h₁, hs₁⟩ := hc st inputTracks firstOutTrack hr
    exact ⟨status, st₁, h₁, fun hs => ⟨(hs₁ hs).1, by simpa [bundleRuns] using (hs₁ hs).2⟩⟩
  | cons t tracks ih =>
    unfold compileBundle
    rw [bundleRuns] at h ⊢
    by_cases hne : inputTracks ≠ [] ∧ t.elementNum ≠ nextInput
    · rw [if_pos hne] at h ⊢
      rw [if_pos hne]
      obtain ⟨⟨-, hc⟩, hcs⟩ := h
      obtain ⟨status, st₁, h₁, hs₁⟩ := hc st inputTracks firstOutTrack hr
      rw [h₁, Exec.ok_bind]
      by_cases hstat : status = .auSuccess
      · obtain ⟨hr₁, hn⟩ := hs₁ hstat
        obtain ⟨status₂, st₂, h₂, hs₂⟩ := ih ((firstOutTrack + inputTracks.length) % 2 ^ 8)
          (hcs hn) hr₁
        refine ⟨status₂, st₂, by simpa [hstat] using h₂, fun hs => ⟨(hs₂ hs).1, ?_⟩⟩
        rw [List.map_cons, List.forall_mem_cons]
        exact ⟨hn, (hs₂ hs).2⟩
      · exact ⟨status, st₁, by simp [hstat], fun hs => absurd hs hstat⟩
    · rw [if_neg hne] at h ⊢
      rw [if_neg hne]
      -- the run these tracks start is not too long, so there is a place for this one
      have hplace : inputTracks.length < auMaxTracks := by
        obtain ⟨m, l, rs, heq, hl⟩ := bundleRuns_head t.elementNum (inputTracks ++ [t.track]) tracks
        rw [heq] at h
        have := h.1.1
        rw [List.length_append, List.length_singleton] at hl
        dsimp only at this
        omega
      rw [if_pos hplace]
      exact ih _ h hr

theorem exists_bound {α : Type} {P : α → Prop} {Q : Nat → α → Prop} (l : List α)
    (hm : ∀ a m n, m ≤ n → Q m a → Q n a) (h : ∀ a ∈ l, P a → ∃ n, Q n a) :
    ∃ n, ∀ a ∈ l, P a → Q n a := by
  induction l with
  | nil => exact ⟨0, by simp⟩
  | cons a l ih =>
    obtain ⟨n, hn⟩ := ih fun b hb => h b (.tail _ hb)
    by_cases ha : P a
    · obtain ⟨m, hm'⟩ := h a (.head _) ha
      refine ⟨max m n, List.forall_mem_cons.2 ⟨fun _ => hm a m _ (Nat.le_max_left ..) hm', ?_⟩⟩
      exact fun b hb hP => hm b n _ (Nat.le_max_right ..) (hn b hb hP)
    · exact ⟨n, List.forall_mem_cons.2 ⟨fun hP => absurd hP ha, hn⟩⟩

/-- With enough fuel the walk from a walkable element returns. -/
theorem compileInputs_ends (hw : Walkable env.auMinibufSamples raws i) :
    ∃ n, ∀ fuel, n ≤ fuel → ∀ multiplyConstant addConstant,
      Ends env.auMinibufSamples raws (compileInputs env fuel multiplyConstant addConstant) i := by
  induction hw with
  | @intro i r hi hfit _ ih =>
    obtain ⟨n, hn⟩ := exists_bound (P := Makes env.auMinibufSamples raws i) (Q := fun n c =>
      ∀ fuel, n ≤ fuel → ∀ multiplyConstant addConstant,
        Ends env.auMinibufSamples raws (compileInputs env fuel multiplyConstant addConstant) c.1)
      r.calls (fun _ _ _ hle h fuel hf => h fuel (hle.trans hf)) fun c _ hc => ih c hc
    refine ⟨n + 1, fun fuel hfuel M A st inTracks firstOutTrack hr => ?_⟩
    obtain ⟨fuel, rfl⟩ : ∃ k, fuel = k + 1 := ⟨fuel - 1, by omega⟩
    obtain ⟨e, he, rfl⟩ := hr.exists_element hi
    have hup : ∀ M A, UpTo (Refused env.auMinibufSamples raws) (fun c => c.2 ≤ auMaxTracks ∧
        Ends env.auMinibufSamples raws (compileInputs env fuel M A) c.1) e.raw.calls := fun M A =>
      makes_upTo hi fun c hc => ⟨hfit c hc, by
        obtain ⟨r', pre, post, hr', heq, -⟩ := id hc
        rw [hi] at hr'; cases hr'
        exact hn c (by rw [heq]; simp) hc fuel (by omega) M A⟩
    have hr₁ : ¬ e.raw.isImport → Ready env.auMinibufSamples raws
        (st.setElement i e.markCompiled) := fun himp =>
      hr.set he (rfl : e.markCompiled.raw = e.raw) (fun h => absurd h himp) rfl
    rw [refused_iff hi]
    unfold compileInputs
    rw [he, Exec.deref_some, Exec.ok_bind, compileElement]
    cases hraw : e.raw with
    | importClient | importDevice | importBucket | importWaveForm =>
      have himp : e.raw.isImport := by rw [hraw]; rfl
      obtain ⟨status, st', h, hs⟩ := compileImport_ends M A inTracks firstOutTrack hr he himp
      refine ⟨status, st', h, fun h => ⟨(hs h).1, ?_⟩⟩
      rw [← hraw, (hs h).2, AuElement.calls_import himp]
      simp
    | bundle inputs =>
      have h := hup M A
      rw [hraw] at h
      obtain ⟨status, st', h, hs⟩ := compileBundle_ends firstOutTrack h
        (hr₁ (by rw [hraw]; simp [AuElement.isImport]))
      refine ⟨status, st', h, fun h => ⟨(hs h).1, ?_⟩⟩
      rintro (hf | ⟨c, hc, hcr⟩)
      · cases hf
      · exact (hs h).2 c hc hcr
    | multiplyConstant input constant =>
      have h := hup (env.arith.multiply M constant) A
      rw [hraw] at h
      obtain ⟨status, st', h, hs⟩ := h.1.2 _ inTracks firstOutTrack
        (hr₁ (by rw [hraw]; simp [AuElement.isImport]))
      refine ⟨status, st', h, fun h => ⟨(hs h).1, ?_⟩⟩
      rintro (hf | ⟨c, hc, hcr⟩)
      · cases hf
      · rw [AuElement.calls, List.mem_singleton] at hc
        subst hc
        exact (hs h).2 hcr
    | addConstant input constant =>
      have h := hup M (env.arith.add A constant)
      rw [hraw] at h
      obtain ⟨status, st', h, hs⟩ := h.1.2 _ inTracks firstOutTrack
        (hr₁ (by rw [hraw]; simp [AuElement.isImport]))
      refine ⟨status, st', h, fun h => ⟨(hs h).1, ?_⟩⟩
      rintro (hf | ⟨c, hc, hcr⟩)
      · cases hf
      · rw [AuElement.calls, List.mem_singleton] at hc
        subst hc
        exact (hs h).2 hcr
    | sum inputs =>
      have h := hup M A
      rw [hraw] at h
      obtain ⟨status, st', h, hs⟩ := compileSum_ends inTracks firstOutTrack
        (h.mono fun c hc => hc.2) (hr₁ (by rw [hraw]; simp [AuElement.isImport]))
      refine ⟨status, st', h, fun h => ⟨(hs h).1, ?_⟩⟩
      rintro (hf | ⟨c, hc, hcr⟩)
      · cases hf
      · exact (hs h).2 c hc hcr
    | exportClient | exportDevice | exportBucket | exportMonitor | other =>
      exact ⟨_, _, rfl, fun h => by cases h⟩

theorem AuElement.not_import_of_export {e : AuElement K} (h : e.isExport) : ¬ e.isImport := by
  cases e <;> simp_all [AuElement.isExport, AuElement.isImport]

/-- What `compileOutput` does once its component is there. -/
theorem compileOutput_eq {fuel : Nat} {p : ComponentPtr} {st₁ st₂ : Compiling K}
    (he : st.elements[i]? = some e) (hx : e.raw.isExport) (hm : env.mem st.allocs = true)
    (hst : st₁ = { st with allocs := st.allocs + 1 }) (ha : st₁.attach env i e = (.auSuccess, st₂))
    (hp : (st₂.elements[i]?).bind (·.component) = some p) :
    compileOutput env fuel st i =
      if e.raw.firstInput > st₂.elements.length then .ok (.auBadElement, { st₂ with
        outputs := st₂.outputs ++ [⟨p, ⟨env.flow, env.block, i⟩, e.raw.firstInput, []⟩] })
      else
        compileInputs env fuel env.arith.one env.arith.zero { st₂ with inputs := [] } e.raw.firstInput [] 0 >>=
          fun r => .ok (r.1, { r.2 with
            outputs := r.2.outputs ++ [⟨p, ⟨env.flow, env.block, i⟩, e.raw.firstInput, r.2.inputs⟩] }) := by
  subst hst
  unfold compileOutput
  rw [he, Exec.deref_some, Exec.ok_bind, if_neg (by simp [hx])]
  dsimp only
  rw [if_neg (by simp [hm]), ha]
  dsimp only
  rw [if_neg (by simp), hp, Exec.deref_some, Exec.ok_bind]

/-- The exports return, provided that the walks from their inputs do. -/
theorem compileOutput_ends (fuel : Nat) (hr : Ready env.auMinibufSamples raws st)
    (he : st.elements[i]? = some e)
    (hx : e.raw.isExport → (e.raw.source env.auMinibufSamples).unmakeable ∨
      raws.length < e.raw.firstInput ∨ ∀ M A, Ends env.auMinibufSamples raws (compileInputs env fuel M A)
        e.raw.firstInput) :
    ∃ status st', compileOutput env fuel st i = .ok (status, st') ∧
      (status = .auSuccess → Ready env.auMinibufSamples raws st' ∧
        (e.raw.isExport → ¬ ExportRefused env.auMinibufSamples raws e.raw)) := by
  have hlt : i < st.elements.length := (List.getElem?_eq_some_iff.1 he).1
  by_cases hexp : e.raw.isExport = true
  swap
  · refine ⟨.auSuccess, st, ?_, fun _ => ⟨hr, fun h => absurd h hexp⟩⟩
    unfold compileOutput
    rw [he, Exec.deref_some, Exec.ok_bind, if_pos (by simpa using hexp)]
  by_cases hm : env.mem st.allocs = true
  swap
  · refine ⟨.auBadAlloc, { st with allocs := st.allocs + 1 }, ?_, fun h => by cases h⟩
    unfold compileOutput
    rw [he, Exec.deref_some, Exec.ok_bind, if_neg (by simp [hexp])]
    dsimp only
    rw [if_pos (by simpa using hm)]
  rcases hatt : Compiling.attach env { st with allocs := st.allocs + 1 } i e with ⟨status, st₂⟩
  by_cases hstat : status = .auSuccess
  swap
  · refine ⟨status, st₂, ?_, fun h => absurd h hstat⟩
    unfold compileOutput
    rw [he, Exec.deref_some, Exec.ok_bind, if_neg (by simp [hexp])]
    dsimp only
    rw [if_neg (by simp [hm]), hatt]
    dsimp only
    rw [if_pos hstat]
  subst hstat
  obtain ⟨hmake, -, -, e', hset, hraw, hsome⟩ := attach_cases hatt
  obtain ⟨p, hp⟩ := Option.isSome_iff_exists.1 hsome
  have hr₂ : Ready env.auMinibufSamples raws st₂ :=
    hr.set he hraw (fun h => absurd (hraw ▸ h) (AuElement.not_import_of_export hexp)) hset
  rw [compileOutput_eq he hexp hm rfl hatt (p := p) (by rw [hset]; simp [hlt, hp])]
  by_cases hlen : e.raw.firstInput > st₂.elements.length
  · exact ⟨_, _, by rw [if_pos hlen], fun h => by cases h⟩
  · rw [hr₂.length] at hlen
    obtain ⟨status, st₃, h₃, hs₃⟩ :=
      ((hx hexp).resolve_left (by simp [hmake])).resolve_left hlen env.arith.one env.arith.zero
        { st₂ with inputs := [] } [] 0 ⟨hr₂.raws, hr₂.compiled⟩
    refine ⟨_, _, by rw [if_neg (by rwa [hr₂.length]), h₃, Exec.ok_bind], fun hs => ?_⟩
    obtain ⟨hr₃, hn⟩ := hs₃ hs
    refine ⟨⟨hr₃.raws, hr₃.compiled⟩, fun _ hR => ?_⟩
    rcases hR with hR | hR | hR
    · rw [hmake] at hR; cases hR
    · exact hlen hR
    · exact hn hR

theorem compileOutputs_ends {fuel k a : Nat} (hr : Ready env.auMinibufSamples raws st)
    (ha : a + k = raws.length)
    (hpre : ∀ i' < a, ∀ e', raws[i']? = some e' → e'.isExport →
      ¬ ExportRefused env.auMinibufSamples raws e')
    (hc : FlowCompilable env.auMinibufSamples raws)
    (hf : ∀ r ∈ raws, Walkable env.auMinibufSamples raws r.firstInput → ∀ M A,
      Ends env.auMinibufSamples raws (compileInputs env fuel M A) r.firstInput) :
    ∃ r, compileOutputs env fuel (List.range' a k) st = .ok r := by
  induction k generalizing a st with
  | zero => exact ⟨_, rfl⟩
  | succ k ih =>
    obtain ⟨e, he, hraw⟩ := hr.exists_element (List.getElem?_eq_getElem (show a < raws.length by omega))
    have hra := hr.raw he
    obtain ⟨status, st₁, h₁, hs₁⟩ := compileOutput_ends fuel hr he fun hexp =>
      (hc a e.raw hra hexp hpre).imp_right (Or.imp_right fun hcomp =>
        hf e.raw (List.mem_of_getElem? hra) hcomp.walkable)
    rw [List.range'_succ, compileOutputs, h₁, Exec.ok_bind]
    by_cases hstat : status = .auSuccess
    · obtain ⟨hr₁, hn⟩ := hs₁ hstat
      obtain ⟨r, h⟩ := ih (a := a + 1) hr₁ (by omega) (fun i' hi' e' he' hexp => by
        rcases Nat.lt_succ_iff_lt_or_eq.1 hi' with hi' | rfl
        · exact hpre i' hi' e' he' hexp
        · rw [hra] at he'; cases he'; exact hn hexp)
      exact ⟨r, by simpa [hstat] using h⟩
    · exact ⟨(status, st₁), by simp [hstat]⟩

/-! ### Where the walk has been -/

/-- Component 0 is there and has a minibuffer, and is not the next to be made. -/
structure Stocked (st : Compiling K) : Prop where
  component : ∃ c, st.comps 0 = some c ∧ c.minibufSize = 4
  next : 0 < st.nextComponent

/-- All allocations succeed and component 0 is found under every name. -/
structure Friendly (env : CompileEnv K) : Prop where
  mem : ∀ n, env.mem n = true
  lookup : ∀ id, env.lookup id = some 0

namespace Stocked

theorem modifyComponent (h : Stocked st) {p : ComponentPtr} {f : Component → Component}
    (hf : ∀ c, (f c).minibufSize = c.minibufSize) : Stocked (st.modifyComponent p f) := by
  obtain ⟨c, hc, hm⟩ := h.component
  refine ⟨?_, h.next⟩
  by_cases hp : p = 0
  · subst hp
    exact ⟨f c, by simp [Compiling.modifyComponent, hc], by rw [hf, hm]⟩
  · exact ⟨c, by simp [Compiling.modifyComponent, Function.update_of_ne (Ne.symm hp), hc], hm⟩

theorem setElement (h : Stocked st) : Stocked (st.setElement i e) := ⟨h.component, h.next⟩

theorem allocs (h : Stocked st) (n : Nat) : Stocked { st with allocs := n } := ⟨h.component, h.next⟩

theorem minibufs (h : Stocked st) (l : List Nat) : Stocked { st with minibufs := l } := ⟨h.component, h.next⟩

theorem share (h : Stocked st) : Stocked (st.share i e) := by
  unfold Compiling.share
  split
  · exact h
  · exact h.setElement.modifyComponent fun _ => rfl

theorem bucketMinibuf (h : Stocked st) (e : AuElement K) : aualloc true (st.bucketMinibuf 0 e) = true := by
  obtain ⟨c, hc, hm⟩ := h.component
  unfold Compiling.bucketMinibuf
  rw [hc, Option.map_some, Option.getD_some, hm]
  split <;> rfl

/-- With all there is to have, an element gets its component if it can be made. -/
theorem attach (h : Stocked st) (hE : Friendly env)
    (hs : (e.raw.source env.auMinibufSamples).unmakeable = false) :
    ∃ st', st.attach env i e = (.auSuccess, st') ∧ Stocked st' := by
  unfold Compiling.attach
  cases hsrc : e.raw.source env.auMinibufSamples with
  | refused => rw [hsrc] at hs; cases hs
  | create c size =>
    rw [hsrc] at hs
    have hmem : aualloc (env.mem st.allocs) size = true := by
      rw [hE.mem, aualloc]
      simpa [ComponentSource.unmakeable] using hs
    dsimp only
    rw [if_neg (by simp [hmem])]
    obtain ⟨c', hc', hm⟩ := h.component
    refine ⟨_, rfl, ⟨c', ?_, hm⟩, Nat.succ_pos _⟩
    dsimp only [Compiling.setElement]
    rw [Function.update_of_ne (Nat.ne_of_lt h.next), hc']
  | device id =>
    dsimp only
    rw [hE.lookup]
    dsimp only
    split
    · exact ⟨_, rfl, h.setElement.modifyComponent fun _ => rfl⟩
    · exact ⟨_, rfl, h.setElement.modifyComponent fun _ => rfl⟩
  | bucket id =>
    dsimp only
    rw [hE.lookup]
    dsimp only
    rw [hE.mem, if_neg (by simpa using (h.allocs (st.allocs + 1)).bucketMinibuf e.raw)]
    exact ⟨_, rfl, ((h.allocs (st.allocs + 1)).minibufs (st.minibufs ++ [i])).setElement.modifyComponent fun _ => rfl⟩

/-- With all there is to have, an import is compiled if its component can be made. -/
theorem compileImport (h : Stocked st) (hE : Friendly env) {multiplyConstant addConstant : K}
    {inTracks : List Nat} {firstOutTrack : Nat} {status : AuStatus}
    (hs : (e.raw.source env.auMinibufSamples).unmakeable = false)
    (he : Nas.compileImport env st i e multiplyConstant addConstant inTracks firstOutTrack =
      .ok (status, st')) : status = .auSuccess ∧ Stocked st' := by
  unfold Nas.compileImport at he
  dsimp only at he
  rw [if_neg (by simp [hE.mem])] at he
  split at he
  · rw [if_neg (by simp)] at he
    obtain ⟨p, -, he⟩ := Exec.bind_eq_ok.1 he
    cases he
    have := (h.allocs (st.allocs + 1)).share (i := i) (e := e)
    exact ⟨rfl, this.component, this.next⟩
  · obtain ⟨st₂, hatt, hst₂⟩ := (h.allocs (st.allocs + 1)).attach (i := i) hE hs
    rw [hatt] at he
    dsimp only at he
    rw [if_neg (by simp)] at he
    obtain ⟨p, -, he⟩ := Exec.bind_eq_ok.1 he
    cases he
    exact ⟨rfl, hst₂.component, hst₂.next⟩

end Stocked

/-- When the call for `j` returns, then the walk from `j` ends well, and it returns success exactly
when `j` is not refused. -/
def Tells (auMinibufSamples : Nat) (raws : List (AuElement K)) (call : CompileCall K) (j : Nat) : Prop :=
  ∀ st inTracks firstOutTrack status st', Ready auMinibufSamples raws st → Stocked st →
    call st j inTracks firstOutTrack = .ok (status, st') →
    Walkable auMinibufSamples raws j ∧
      (status = .auSuccess → Ready auMinibufSamples raws st' ∧ Stocked st') ∧
      (status = .auSuccess ↔ ¬ Refused auMinibufSamples raws j)

theorem compileSum_tells {call : CompileCall K} {inTracks inputs : List Nat} {firstOutTrack : Nat}
    {status : AuStatus} (hcall : ∀ j, Tells auMinibufSamples raws call j)
    (hr : Ready auMinibufSamples raws st) (hs : Stocked st)
    (h : compileSum call inTracks firstOutTrack inputs st = .ok (status, st')) :
    UpTo (Refused auMinibufSamples raws)
        (fun c => c.2 ≤ auMaxTracks ∧ Walkable auMinibufSamples raws c.1) (inputs.map (·, 0)) ∧
      (status = .auSuccess → Ready auMinibufSamples raws st' ∧ Stocked st') ∧
      (status = .auSuccess ↔
        ∀ c ∈ inputs.map ((·, 0) : Nat → Nat × Nat), ¬ Refused auMinibufSamples raws c.1) := by
  induction inputs generalizing st with
  | nil => cases h; exact ⟨trivial, fun _ => ⟨hr, hs⟩, by simp⟩
  | cons input inputs ih =>
    unfold compileSum at h
    obtain ⟨⟨status₁, st₁⟩, h₁, h⟩ := Exec.bind_eq_ok.1 h
    obtain ⟨hw, hr₁, hn⟩ := hcall input st inTracks firstOutTrack status₁ st₁ hr hs h₁
    dsimp only at h
    rw [List.map_cons, List.forall_mem_cons]
    by_cases hstat : status₁ = .auSuccess
    · rw [if_neg (by simp [hstat])] at h
      obtain ⟨hup, hr₂, hn₂⟩ := ih (hr₁ hstat).1 (hr₁ hstat).2 h
      refine ⟨⟨⟨Nat.zero_le _, hw⟩, fun _ => hup⟩, hr₂, ?_⟩
      rw [hn₂]
      exact ⟨fun h => ⟨hn.1 hstat, h⟩, fun h => h.2⟩
    · rw [if_pos hstat] at h
      cases h
      have hR : ¬ ¬ Refused auMinibufSamples raws input := fun h => hstat (hn.2 h)
      exact ⟨⟨⟨Nat.zero_le _, hw⟩, fun h => absurd h hR⟩, fun h => absurd h hstat,
        fun h => absurd h hstat, fun h => absurd h.1 hR⟩

theorem compileBundle_tells {call : CompileCall K} {tracks : List AuInputTrack} {nextInput : Nat}
    {inputTracks : List Nat} {firstOutTrack : Nat} {status : AuStatus}
    (hcall : ∀ j, Tells auMinibufSamples raws call j)
    (hr : Ready auMinibufSamples raws st) (hs : Stocked st) (hlen : inputTracks.length ≤ auMaxTracks)
    (h : compileBundle call tracks nextInput inputTracks firstOutTrack st = .ok (status, st')) :
    UpTo (Refused auMinibufSamples raws)
        (fun c => c.2 ≤ auMaxTracks ∧ Walkable auMinibufSamples raws c.1)
        ((bundleRuns nextInput inputTracks tracks).map fun r => (r.1, r.2.length)) ∧
      (status = .auSuccess → Ready auMinibufSamples raws st' ∧ Stocked st') ∧
      (status = .auSuccess ↔ ∀ c ∈ (bundleRuns nextInput inputTracks tracks).map fun r => (r.1, r.2.length),
        ¬ Refused auMinibufSamples raws c.1) := by
  induction tracks generalizing st nextInput inputTracks firstOutTrack with
  | nil =>
    obtain ⟨hw, hr₁, hn⟩ := hcall nextInput st inputTracks firstOutTrack status st' hr hs h
    exact ⟨⟨⟨hlen, hw⟩, fun _ => trivial⟩, hr₁, by simpa [bundleRuns] using hn⟩
  | cons t tracks ih =>
    unfold compileBundle at h
    rw [bundleRuns]
    by_cases hne : inputTracks ≠ [] ∧ t.elementNum ≠ nextInput
    · rw [if_pos hne] at h ⊢
      obtain ⟨⟨status₁, st₁⟩, h₁, h⟩ := Exec.bind_eq_ok.1 h
      obtain ⟨hw, hr₁, hn⟩ := hcall nextInput st inputTracks firstOutTrack status₁ st₁ hr hs h₁
      dsimp only at h
      rw [List.map_cons, List.forall_mem_cons]
      by_cases hstat : status₁ = .auSuccess
      · rw [if_neg (by simp [hstat])] at h
        obtain ⟨hup, hr₂, hn₂⟩ := ih (hr₁ hstat).1 (hr₁ hstat).2 (by simp [auMaxTracks]) h
        refine ⟨⟨⟨hlen, hw⟩, fun _ => hup⟩, hr₂, ?_⟩
        rw [hn₂]
        exact ⟨fun h => ⟨hn.1 hstat, h⟩, fun h => h.2⟩
      · rw [if_pos hstat] at h
        cases h
        have hR : ¬ ¬ Refused auMinibufSamples raws nextInput := fun h => hstat (hn.2 h)
        exact ⟨⟨⟨hlen, hw⟩, fun h => absurd h hR⟩, fun h => absurd h hstat,
          fun h => absurd h hstat, fun h => absurd h.1 hR⟩
    · rw [if_neg hne] at h ⊢
      split at h
      · exact ih hr hs (by rw [List.length_append, List.length_singleton]; omega) h
      · cases h

theorem compileInputs_tells (hE : Friendly env) (fuel : Nat) (multiplyConstant addConstant : K) (i : Nat) :
    Tells env.auMinibufSamples raws (compileInputs env fuel multiplyConstant addConstant) i := by
  induction fuel generalizing multiplyConstant addConstant i with
  | zero => intro st _ _ _ _ _ _ h; cases h
  | succ fuel ih =>
    intro st inTracks firstOutTrack status st' hr hs h
    unfold compileInputs at h
    obtain ⟨e, he, h⟩ := Exec.bind_eq_ok.1 h
    rw [Exec.deref_eq_ok] at he
    have hi := hr.raw he
    have hr₁ : ¬ e.raw.isImport → Ready env.auMinibufSamples raws
        (st.setElement i e.markCompiled) := fun himp =>
      hr.set he (rfl : e.markCompiled.raw = e.raw) (fun h => absurd h himp) rfl
    have hs₁ : Stocked (st.setElement i e.markCompiled) := hs.setElement
    rw [refused_iff hi]
    unfold compileElement at h
    -- what a call for one input tells about an element that makes no other
    have hone : ∀ {input : Nat} {M A : K}, ¬ e.raw.isImport → e.raw.calls = [(input, 0)] →
        e.raw.fails env.auMinibufSamples = false →
        compileInputs env fuel M A (st.setElement i e.markCompiled) input inTracks firstOutTrack =
          .ok (status, st') →
        Walkable env.auMinibufSamples raws i ∧
          (status = .auSuccess → Ready env.auMinibufSamples raws st' ∧ Stocked st') ∧
          (status = .auSuccess ↔ ¬ (e.raw.fails env.auMinibufSamples = true ∨
            ∃ c ∈ e.raw.calls, Refused env.auMinibufSamples raws c.1)) := by
      intro input M A himp hcalls hfails h
      obtain ⟨hw, hr₂, hn⟩ := ih M A input _ inTracks firstOutTrack status st' (hr₁ himp) hs₁ h
      refine ⟨walkable_of_upTo hi ?_, hr₂, ?_⟩
      · rw [hcalls]; exact ⟨⟨Nat.zero_le _, hw⟩, fun _ => trivial⟩
      · rw [hn, hfails, hcalls]; simp
    cases hraw : e.raw with
    | importClient | importDevice | importBucket | importWaveForm =>
      have himp : e.raw.isImport := by rw [hraw]; rfl
      simp only [hraw] at h
      obtain ⟨status₁, st₁, h₁, hs₁'⟩ := compileImport_ends multiplyConstant addConstant
        inTracks firstOutTrack hr he himp
      rw [h] at h₁
      cases h₁
      rw [← hraw, AuElement.calls_import himp]
      refine ⟨walkable_of_upTo hi (by rw [AuElement.calls_import himp]; trivial), fun hstat => ?_, ?_⟩
      · have hf := (hs₁' hstat).2
        rw [AuElement.fails_import _ himp] at hf
        exact ⟨(hs₁' hstat).1, (hs₁.compileImport hE hf h).2⟩
      · constructor
        · intro hstat; rw [(hs₁' hstat).2]; simp
        · intro hf
          have hf : e.raw.fails env.auMinibufSamples = false := by simpa using hf
          rw [AuElement.fails_import _ himp] at hf
          exact (hs₁.compileImport hE hf h).1
    | bundle inputs =>
      simp only [hraw] at h
      obtain ⟨hup, hr₂, hn⟩ := compileBundle_tells (ih multiplyConstant addConstant)
        (hr₁ (by rw [hraw]; exact Bool.false_ne_true)) hs₁ (Nat.zero_le _) h
      refine ⟨walkable_of_upTo hi (by rw [hraw]; exact hup), hr₂, ?_⟩
      rw [hn]
      exact (not_refused_iff rfl).symm
    | multiplyConstant input constant =>
      simp only [hraw] at h
      rw [← hraw]
      exact hone (by rw [hraw]; exact Bool.false_ne_true) (by rw [hraw]; rfl) (by rw [hraw]; rfl) h
    | addConstant input constant =>
      simp only [hraw] at h
      rw [← hraw]
      exact hone (by rw [hraw]; exact Bool.false_ne_true) (by rw [hraw]; rfl) (by rw [hraw]; rfl) h
    | sum inputs =>
      simp only [hraw] at h
      obtain ⟨hup, hr₂, hn⟩ := compileSum_tells (ih multiplyConstant addConstant)
        (hr₁ (by rw [hraw]; exact Bool.false_ne_true)) hs₁ h
      refine ⟨walkable_of_upTo hi (by rw [hraw]; exact hup), hr₂, ?_⟩
      rw [hn]
      exact (not_refused_iff rfl).symm
    | exportClient | exportDevice | exportBucket | exportMonitor | other =>
      simp only [hraw] at h
      cases h
      refine ⟨walkable_of_upTo hi (by rw [hraw]; trivial), (fun h => by cases h), ?_⟩
      simp [AuElement.fails]

/-- What a friendly compilation of one element tells. -/
theorem compileOutput_tells (hE : Friendly env) {fuel : Nat} {status : AuStatus}
    (hr : Ready env.auMinibufSamples raws st) (hs : Stocked st) (he : st.elements[i]? = some e)
    (h : compileOutput env fuel st i = .ok (status, st')) :
    (e.raw.isExport → (e.raw.source env.auMinibufSamples).unmakeable ∨ raws.length < e.raw.firstInput ∨
        Walkable env.auMinibufSamples raws e.raw.firstInput) ∧
      ((e.raw.isExport → ¬ ExportRefused env.auMinibufSamples raws e.raw) →
        status = .auSuccess ∧ Ready env.auMinibufSamples raws st' ∧ Stocked st') := by
  have hlt : i < st.elements.length := (List.getElem?_eq_some_iff.1 he).1
  by_cases hexp : e.raw.isExport = true
  swap
  · unfold compileOutput at h
    rw [he, Exec.deref_some, Exec.ok_bind, if_pos (by simpa using hexp)] at h
    cases h
    exact ⟨fun h => absurd h hexp, fun _ => ⟨rfl, hr, hs⟩⟩
  by_cases hmake : (e.raw.source env.auMinibufSamples).unmakeable = true
  · exact ⟨fun _ => .inl hmake, fun hn => absurd (.inl hmake) (hn hexp)⟩
  obtain ⟨st₂, hatt, hs₂⟩ := (hs.allocs (st.allocs + 1)).attach (i := i) (e := e) hE (by simpa using hmake)
  obtain ⟨-, -, -, e', hset, hraw, hsome⟩ := attach_cases hatt
  obtain ⟨p, hp⟩ := Option.isSome_iff_exists.1 hsome
  have hr₂ : Ready env.auMinibufSamples raws st₂ :=
    hr.set he hraw (fun h => absurd (hraw ▸ h) (AuElement.not_import_of_export hexp)) hset
  rw [compileOutput_eq he hexp (hE.mem _) rfl hatt (p := p) (by rw [hset]; simp [hlt, hp]), hr₂.length] at h
  by_cases hlen : e.raw.firstInput > raws.length
  · exact ⟨fun _ => .inr (.inl hlen), fun hn => absurd (.inr (.inl hlen)) (hn hexp)⟩
  rw [if_neg hlen] at h
  obtain ⟨⟨status₃, st₃⟩, h₃, h⟩ := Exec.bind_eq_ok.1 h
  cases h
  obtain ⟨hw, hr₃, hn₃⟩ := compileInputs_tells hE fuel _ _ _ _ _ _ _ _
    (show Ready env.auMinibufSamples raws { st₂ with inputs := [] } from ⟨hr₂.raws, hr₂.compiled⟩)
    ⟨hs₂.component, hs₂.next⟩ h₃
  refine ⟨fun _ => .inr (.inr hw), fun hn => ?_⟩
  have hstat := hn₃.2 fun hR => hn hexp (.inr (.inr hR))
  obtain ⟨hr₄, hs₄⟩ := hr₃ hstat
  exact ⟨hstat, ⟨hr₄.raws, hr₄.compiled⟩, hs₄.component, hs₄.next⟩

theorem compileOutputs_tells (hE : Friendly env) {fuel k a : Nat} {r : AuStatus × Compiling K}
    (hr : Ready env.auMinibufSamples raws st) (hs : Stocked st) (ha : a + k = raws.length)
    (h : compileOutputs env fuel (List.range' a k) st = .ok r) :
    ∀ i e, a ≤ i → raws[i]? = some e → e.isExport →
      (∀ i', a ≤ i' → i' < i → ∀ e', raws[i']? = some e' → e'.isExport →
        ¬ ExportRefused env.auMinibufSamples raws e') →
      (e.source env.auMinibufSamples).unmakeable ∨ raws.length < e.firstInput ∨
        Walkable env.auMinibufSamples raws e.firstInput := by
  induction k generalizing a st with
  | zero =>
    intro i e hi he
    have := (List.getElem?_eq_some_iff.1 he).1
    omega
  | succ k ih =>
    intro i e hi he hexp hpre
    obtain ⟨el, hel, -⟩ := hr.exists_element (List.getElem?_eq_getElem (show a < raws.length by omega))
    have hra := hr.raw hel
    rw [List.range'_succ, compileOutputs] at h
    obtain ⟨⟨status, st₁⟩, h₁, h⟩ := Exec.bind_eq_ok.1 h
    obtain ⟨hw, hn⟩ := compileOutput_tells hE hr hs hel h₁
    rcases Nat.lt_or_eq_of_le hi with hi | rfl
    · obtain ⟨hstat, hr₁, hs₁⟩ := hn (hpre a (Nat.le_refl _) hi _ hra)
      dsimp only at h
      rw [if_neg (by simp [hstat])] at h
      exact ih hr₁ hs₁ (by omega) h i e hi he hexp fun i' hi' => hpre i' (by omega)
    · rw [hra] at he
      cases he
      exact hw hexp

end Walk

/-! ### Flows -/

/-- The elements as `ProcAuSetElements` leaves them to be compiled. -/
structure Fresh (raws : List (AuElement K)) (st : Compiling K) : Prop where
  raws : st.elements.map (·.raw) = raws
  compiled : ∀ e ∈ st.elements, e.compiled = false

theorem Fresh.ready {raws : List (AuElement K)} {st : Compiling K} (h : Fresh raws st)
    (auMinibufSamples : Nat) : Ready auMinibufSamples raws { st with outputs := [] } :=
  ⟨h.raws, fun e he _ hc => by rw [h.compiled e he] at hc; cases hc⟩

/-- A server in which all there is to look up is a bucket at address 0. -/
def friendlyEnv (auMinibufSamples : Nat) : CompileEnv AuFixedPoint where
  arith := auFixedPoint
  mem _ := true
  lookup _ := some 0
  auMinibufSamples := auMinibufSamples
  flow := 0
  block := 0

def freshElements (raws : List (AuElement K)) : Compiling K where
  elements := raws.map fun raw => { client := 0, raw, elementNum := 0, isComponent := raw.isComponent }
  comps p := if p = 0 then some { format := 6, numTracks := 1, minibufSize := 4, bytesPerSample := 2 } else none
  nextComponent := 1
  allocs := 0
  outputs := []
  inputs := []

theorem fresh_freshElements (raws : List (AuElement K)) : Fresh raws (freshElements raws) := by
  constructor
  · exact (List.map_map ..).trans (List.map_id raws)
  · unfold freshElements
    simp

theorem friendly_friendlyEnv (auMinibufSamples : Nat) : Friendly (friendlyEnv auMinibufSamples) :=
  ⟨fun _ => rfl, fun _ => rfl⟩

/-- The elements of a flow are compiled, or refused, without going wrong, whatever memory and
components there are, exactly when the walks from its exports end well. -/
theorem auCompileFlow_total_iff (auMinibufSamples : Nat) (raws : List (AuElement AuFixedPoint)) :
    (∀ (env : CompileEnv AuFixedPoint) (st : Compiling AuFixedPoint),
      env.auMinibufSamples = auMinibufSamples → Fresh raws st →
      ∃ fuel r, auCompileFlow env fuel st = .ok r) ↔ FlowCompilable auMinibufSamples raws := by
  constructor
  · intro h
    obtain ⟨fuel, r, hr⟩ := h (friendlyEnv auMinibufSamples) (freshElements raws) rfl
      (fresh_freshElements raws)
    unfold auCompileFlow at hr
    rw [List.range_eq_range'] at hr
    have hlen : (freshElements raws).elements.length = raws.length := by simp [freshElements]
    have htells := compileOutputs_tells (friendly_friendlyEnv auMinibufSamples)
      ((fresh_freshElements raws).ready _) ⟨⟨_, rfl, rfl⟩, Nat.one_pos⟩ (by rw [hlen]; exact Nat.zero_add _) hr
    intro i e he hexp hpre
    refine (htells i e (Nat.zero_le _) he hexp fun i' _ => hpre i').imp_right (Or.imp_right ?_)
    exact Walkable.compilable
  · rintro hc env st rfl hf
    obtain ⟨n, hn⟩ := exists_bound (P := fun r => Walkable env.auMinibufSamples raws r.firstInput)
      (Q := fun n (r : AuElement AuFixedPoint) => ∀ fuel, n ≤ fuel → ∀ M A,
        Ends env.auMinibufSamples raws (compileInputs env fuel M A) r.firstInput)
      raws (fun _ _ _ hle h fuel hf => h fuel (hle.trans hf)) fun _ _ hw => compileInputs_ends hw
    have hr := hf.ready env.auMinibufSamples
    refine ⟨n, ?_⟩
    unfold auCompileFlow
    rw [List.range_eq_range', show st.elements.length = raws.length from hr.length]
    exact compileOutputs_ends hr (Nat.zero_add _) (by simp) hc fun r hr hw => hn r hr hw n (Nat.le_refl _)

/-- An output whose first input is one behind the last element. -/
def behindLast : List (AuElement AuFixedPoint) :=
  [.exportMonitor { eventRate := 8000, input := 1, format := 6, numTracks := 1 }]

/-- The check of the first input lets it through, and the walk starts outside the elements. -/
theorem behindLast_not_total :
    ¬ ∃ fuel r, auCompileFlow (friendlyEnv 4) fuel (freshElements behindLast) = .ok r := by
  rintro ⟨fuel, r, hr⟩
  cases fuel with
  | zero => cases hr
  | succ fuel => cases hr

end Nas
