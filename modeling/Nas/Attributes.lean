import Nas.ServerRule
import Nas.TableLookup
import Nas.TrackBounds

/-!
# What requests leave of a component's attributes

A component is found by its id, and its attributes are what it was made with, except for its rate:
`compileInputs` writes that of an import of a device into whatever component the id leads to. `Steady` says what
becomes of the components, with the rates that may be set; `SetsRate` are those of the imports a compilation gets
to. `Moved` puts this together with the table of resources for a whole request.
-/

namespace Nas

/-- What a component is made with, less its rate. -/
structure Look where
  id : AuID
  kind : Nat
  access : Nat
  format : Nat
  numTracks : Nat
  numSamples : Nat
deriving DecidableEq

def Component.look (c : Component) : Look := ⟨c.id, c.kind, c.access, c.format, c.numTracks, c.numSamples⟩

/-- The components that were there keep what they were made with or are gone, with a rate they had or that `R` lets
them get. The new ones have no id. -/
structure Steady (R : ComponentPtr → Nat → Prop) (comps comps' : ComponentPtr → Option Component)
    (next next' : ComponentPtr) : Prop where
  le : next ≤ next'
  old : ∀ p < next, ∀ c', comps' p = some c' → ∃ c, comps p = some c ∧ c'.look = c.look ∧
    (c'.sampleRate = c.sampleRate ∨ R p c'.sampleRate)
  new : ∀ p c', next ≤ p → comps' p = some c' → p < next' ∧ c'.id = 0

namespace Steady
variable {R R' : ComponentPtr → Nat → Prop} {comps comps' comps'' : ComponentPtr → Option Component}
  {next next' next'' p : ComponentPtr} {c : Component}

theorem trans (h : Steady R comps comps' next next') (h' : Steady R comps' comps'' next' next'') :
    Steady R comps comps'' next next'' where
  le := h.le.trans h'.le
  old p hp c'' hc'' := by
    obtain ⟨c', hc', hlook', hrate'⟩ := h'.old p (hp.trans_le h.le) c'' hc''
    obtain ⟨c, hc, hlook, hrate⟩ := h.old p hp c' hc'
    refine ⟨c, hc, hlook'.trans hlook, ?_⟩
    rcases hrate' with hrate' | hR
    · rw [hrate']
      exact hrate
    · exact .inr hR
  new p c'' hp hc'' := by
    by_cases hp' : p < next'
    · obtain ⟨c', hc', hlook', -⟩ := h'.old p hp' c'' hc''
      exact ⟨hp'.trans_le h'.le, (congrArg Look.id hlook').trans (h.new p c' hp hc').2⟩
    · exact h'.new p c'' (Nat.le_of_not_lt hp') hc''

theorem mono (h : Steady R comps comps' next next') (hR : ∀ p rate, R p rate → R' p rate) :
    Steady R' comps comps' next next' where
  le := h.le
  old p hp c' hc' := by
    obtain ⟨c, hc, hlook, hrate⟩ := h.old p hp c' hc'
    exact ⟨c, hc, hlook, hrate.imp_right (hR _ _)⟩
  new := h.new

/-- Some components change, or go. -/
theorem same (hfresh : ∀ p c, comps p = some c → p < next) (h : ∀ p c', comps' p = some c' → ∃ c, comps p = some c ∧
    c'.look = c.look ∧ (c'.sampleRate = c.sampleRate ∨ R p c'.sampleRate)) : Steady R comps comps' next next where
  le := le_rfl
  old p _ c' hc' := h p c' hc'
  new p c' hp hc' := by
    obtain ⟨c, hc, -⟩ := h p c' hc'
    exact absurd (hfresh p c hc) (Nat.not_lt.2 hp)

theorem fresh (h : Steady R comps comps' next next') : ∀ p c', comps' p = some c' → p < next' := by
  intro p c' hc'
  by_cases hp : p < next
  · exact hp.trans_le h.le
  · exact (h.new p c' (Nat.le_of_not_lt hp) hc').1

theorem refl (hfresh : ∀ p c, comps p = some c → p < next) : Steady R comps comps next next :=
  same hfresh fun _ c' hc' => ⟨c', hc', rfl, .inl rfl⟩

/-- One component changes. -/
theorem update {f : Component → Component} (hfresh : ∀ p c, comps p = some c → p < next)
    (hf : ∀ c, comps p = some c →
      (f c).look = c.look ∧ ((f c).sampleRate = c.sampleRate ∨ R p (f c).sampleRate)) :
    Steady R comps (Function.update comps p ((comps p).map f)) next next := by
  refine same hfresh fun q c' hc' => ?_
  by_cases hq : q = p
  · subst hq
    rw [Function.update_self] at hc'
    obtain ⟨c, hc, rfl⟩ := Option.map_eq_some_iff.1 hc'
    exact ⟨c, hc, hf c hc⟩
  · rw [Function.update_of_ne hq] at hc'
    exact ⟨c', hc', rfl, .inl rfl⟩

/-- A component of an element is made. -/
theorem made (hfresh : ∀ p c, comps p = some c → p < next) (hid : c.id = 0) :
    Steady R comps (Function.update comps next (some c)) next (next + 1) where
  le := Nat.le_succ _
  old p hp c' hc' := by
    rw [Function.update_of_ne (Nat.ne_of_lt hp)] at hc'
    exact ⟨c', hc', rfl, .inl rfl⟩
  new p c' hp hc' := by
    by_cases hp' : p = next
    · subst hp'
      rw [Function.update_self, Option.some.injEq] at hc'
      exact ⟨Nat.lt_succ_self _, hc' ▸ hid⟩
    · rw [Function.update_of_ne hp'] at hc'
      exact absurd (hfresh p c' hc') (Nat.not_lt.2 hp)

end Steady

/-! ### A compilation -/

section Compile
variable {K : Type} {env : CompileEnv K} {raws : List (AuElement K)} {R : ComponentPtr → Nat → Prop}
  {st st' st'' : Compiling K} {i : Nat} {e : FlowElement K} {status : AuStatus}

/-- The rates a compilation of some elements sets: those of the imports of a device that it gets to. -/
def SetsRate (lookup : AuID → Option ComponentPtr) (raws : List (AuElement K)) (q : ComponentPtr) (rate : Nat) : Prop :=
  ∃ (i : Nat) (e : AuElement K) (d : TrackCall) (p : AuElementImportDevice), raws[i]? = some e ∧ e.isExport ∧
    Feeds raws ⟨e.firstInput, [], 0⟩ d ∧ raws[d.input]? = some (.importDevice p) ∧ lookup p.device = some q ∧
    p.sampleRate = rate

/-- A part of a compilation. -/
structure Compiling.Keeps (R : ComponentPtr → Nat → Prop) (raws : List (AuElement K)) (st st' : Compiling K) : Prop where
  raws : st'.elements.map (·.raw) = raws
  comps : Steady R st.comps st'.comps st.nextComponent st'.nextComponent

/-- The components are where components are. -/
def Compiling.Fresh (st : Compiling K) : Prop := ∀ p c, st.comps p = some c → p < st.nextComponent

theorem Compiling.Keeps.trans (h : Compiling.Keeps R raws st st') (h' : Compiling.Keeps R raws st' st'') :
    Compiling.Keeps R raws st st'' := ⟨h'.raws, h.comps.trans h'.comps⟩

/-- What else is in the state before does not matter. -/
theorem Compiling.Keeps.congr (h : Compiling.Keeps R raws st st') (hcomps : st''.comps = st.comps)
    (hnext : st''.nextComponent = st.nextComponent) : Compiling.Keeps R raws st'' st' :=
  ⟨h.raws, by rw [hcomps, hnext]; exact h.comps⟩

/-- The rate of this import of a device may be set. -/
def MaySet (R : ComponentPtr → Nat → Prop) (lookup : AuID → Option ComponentPtr) (el : AuElement K) : Prop :=
  ∀ p q, el = .importDevice p → lookup p.device = some q → R q p.sampleRate

theorem source_create_id {n : Nat} {el : AuElement K} {c : Component} {size : Nat} (h : el.source n = .create c size) :
    c.id = 0 := by
  have hport (format numTracks maxSamples low high sampleRate : Nat) (discard : Bool)
      (h : portSource (createPort n format numTracks maxSamples low high discard) sampleRate = .create c size) :
      c.id = 0 := by
    unfold portSource createPort at h
    dsimp only at h
    split at h
    · cases h
    · rename_i c₀ hc₀
      cases h
      split at hc₀
      · cases hc₀
      · cases hc₀
        rfl
  cases el with
  | importClient | exportClient => exact hport _ _ _ _ _ _ _ h
  | importWaveForm | exportMonitor =>
    cases h
    rfl
  | importDevice | importBucket | exportDevice | exportBucket | bundle | multiplyConstant | addConstant | sum | other =>
    cases h

/-- The one import whose component is looked up as a device. -/
theorem source_device {n : Nat} {el : AuElement K} {id : AuID} (h : el.source n = .device id) (himport : el.isImport) :
    ∃ p, el = .importDevice p ∧ p.device = id := by
  have hport (port : Option Component) (sampleRate : Nat) : portSource port sampleRate ≠ .device id := by
    unfold portSource
    split <;> nofun
  cases el with
  | importDevice p =>
    cases h
    exact ⟨p, rfl, rfl⟩
  | importClient => exact absurd h (hport _ _)
  | importBucket | importWaveForm => cases h
  | exportClient | exportDevice | exportBucket | exportMonitor | bundle | multiplyConstant | addConstant | sum | other =>
    cases himport

theorem attach_keeps (st : Compiling K) (hfresh : st.Fresh) (hraws : st.elements.map (·.raw) = raws)
    (hel : st.elements[i]? = some e ∨ ∃ e', st.elements[i]? = some e' ∧ e'.raw = e.raw)
    (hmay : MaySet R env.lookup e.raw) (h : st.attach env i e = (status, st')) : Compiling.Keeps R raws st st' := by
  have hset (compiled : Bool) (component : Option ComponentPtr) (sampleRate : Nat) :
      (st.elements.set i { e with compiled, component, sampleRate }).map (·.raw) = raws := by
    rcases hel with hel | ⟨e', hel, hraw⟩
    · exact Eq.trans (map_set_self hel (by rfl)) hraws
    · exact Eq.trans (map_set_self hel (by exact hraw.symm)) hraws
  have hidle (allocs : Nat) : Compiling.Keeps R raws st { st with allocs } := ⟨hraws, .refl hfresh⟩
  unfold Compiling.attach at h
  split at h
  · cases h
    exact ⟨hraws, .refl hfresh⟩
  · rename_i c size hsource
    split at h
    · cases h
      exact hidle _
    · cases h
      exact ⟨hset _ _ _, .made hfresh (source_create_id hsource)⟩
  · rename_i id hsource
    split at h
    · cases h
      exact ⟨hraws, .refl hfresh⟩
    · rename_i p hp
      dsimp only at h
      split at h
      · rename_i himport
        cases h
        refine ⟨hset _ _ _, .update hfresh fun c _ => ⟨rfl, .inr ?_⟩⟩
        obtain ⟨r, hraw, rfl⟩ := source_device hsource himport
        rw [hraw]
        exact hmay r p hraw hp
      · cases h
        exact ⟨hset _ _ _, .update hfresh fun c _ => ⟨rfl, .inl rfl⟩⟩
  · rename_i id hsource
    split at h
    · cases h
      exact ⟨hraws, .refl hfresh⟩
    · rename_i p hp
      dsimp only at h
      split at h
      · cases h
        exact hidle _
      · cases h
        exact ⟨hset _ _ _, .update hfresh fun c _ => ⟨rfl, .inl rfl⟩⟩

/-- A call that only gets to imports of devices whose rate may be set keeps the components. -/
def Careful (R : ComponentPtr → Nat → Prop) (lookup : AuID → Option ComponentPtr) (raws : List (AuElement K))
    (call : CompileCall K) : Prop :=
  ∀ st input inTracks firstOutTrack status st', st.Fresh → st.elements.map (·.raw) = raws →
    (∀ d, Feeds raws ⟨input, inTracks, firstOutTrack⟩ d → ∀ el, raws[d.input]? = some el → MaySet R lookup el) →
    call st input inTracks firstOutTrack = .ok (status, st') → Compiling.Keeps R raws st st'

theorem Compiling.Keeps.fresh (h : Compiling.Keeps R raws st st') : st'.Fresh := h.comps.fresh

theorem share_keeps (st : Compiling K) (hfresh : st.Fresh) (hraws : st.elements.map (·.raw) = raws)
    (hel : ∃ e', st.elements[i]? = some e' ∧ e'.raw = e.raw) : Compiling.Keeps R raws st (st.share i e) := by
  obtain ⟨e', hel, hraw⟩ := hel
  unfold Compiling.share
  split
  · exact ⟨hraws, .refl hfresh⟩
  · exact ⟨Eq.trans (map_set_self hel (by exact hraw.symm)) hraws, .update hfresh fun _ _ => ⟨rfl, .inl rfl⟩⟩

theorem compileImport_keeps {multiplyConstant addConstant : K} {inTracks : List Nat} {firstOutTrack : Nat}
    (hfresh : st.Fresh) (hraws : st.elements.map (·.raw) = raws) (hel : ∃ e', st.elements[i]? = some e' ∧ e'.raw = e.raw)
    (hmay : MaySet R env.lookup e.raw)
    (he : compileImport env st i e multiplyConstant addConstant inTracks firstOutTrack = .ok (status, st')) :
    Compiling.Keeps R raws st st' := by
  unfold compileImport at he
  dsimp only at he
  split at he
  · cases he
    exact ⟨hraws, .refl hfresh⟩
  · -- the component of the import
    obtain ⟨⟨status₁, st₁⟩, h₁⟩ : ∃ r, r = if e.compiled then
        (.auSuccess, ({ st with allocs := st.allocs + 1 } : Compiling K).share i e)
      else ({ st with allocs := st.allocs + 1 } : Compiling K).attach env i e := ⟨_, rfl⟩
    rw [← h₁] at he
    have hkeeps : Compiling.Keeps R raws st st₁ := by
      split at h₁
      · cases h₁
        exact (share_keeps { st with allocs := st.allocs + 1 } hfresh hraws hel).congr rfl rfl
      · exact (attach_keeps { st with allocs := st.allocs + 1 } hfresh hraws (.inr hel) hmay h₁.symm).congr rfl rfl
    dsimp only at he
    split at he
    · cases he
      exact hkeeps
    · obtain ⟨component, -, he⟩ := Exec.bind_eq_ok.1 he
      cases he
      exact ⟨hkeeps.raws, hkeeps.comps⟩

theorem compileSum_keeps {call : CompileCall K} {inTracks inputs : List Nat} {firstOutTrack : Nat}
    (hcall : Careful R env.lookup raws call) (hfresh : st.Fresh) (hraws : st.elements.map (·.raw) = raws)
    (hmay : ∀ c ∈ inputs.map fun input => (⟨input, inTracks, firstOutTrack⟩ : TrackCall), ∀ d, Feeds raws c d →
      ∀ el, raws[d.input]? = some el → MaySet R env.lookup el)
    (he : compileSum call inTracks firstOutTrack inputs st = .ok (status, st')) : Compiling.Keeps R raws st st' := by
  induction inputs generalizing st with
  | nil =>
    cases he
    exact ⟨hraws, .refl hfresh⟩
  | cons input inputs ih =>
    unfold compileSum at he
    obtain ⟨⟨status₁, st₁⟩, h₁, he⟩ := Exec.bind_eq_ok.1 he
    have hfirst := hcall st input inTracks firstOutTrack _ st₁ hfresh hraws (hmay _ List.mem_cons_self) h₁
    dsimp only at he
    split at he
    · cases he
      exact hfirst
    · exact hfirst.trans (ih hfirst.fresh hfirst.raws (fun c hc => hmay c (List.mem_cons_of_mem _ hc)) he)

theorem compileBundle_keeps {call : CompileCall K} {tracks : List AuInputTrack} {nextInput firstOutTrack : Nat}
    {inputTracks : List Nat} (hcall : Careful R env.lookup raws call) (hfresh : st.Fresh)
    (hraws : st.elements.map (·.raw) = raws)
    (hmay : ∀ c ∈ runCalls (bundleRuns nextInput inputTracks tracks) firstOutTrack, ∀ d, Feeds raws c d →
      ∀ el, raws[d.input]? = some el → MaySet R env.lookup el)
    (he : compileBundle call tracks nextInput inputTracks firstOutTrack st = .ok (status, st')) :
    Compiling.Keeps R raws st st' := by
  induction tracks generalizing st nextInput inputTracks firstOutTrack with
  | nil => exact hcall st nextInput inputTracks firstOutTrack _ st' hfresh hraws (hmay _ List.mem_cons_self) he
  | cons t tracks ih =>
    unfold compileBundle at he
    rw [bundleRuns] at hmay
    split at he
    · rename_i hnew
      rw [if_pos hnew, runCalls] at hmay
      obtain ⟨⟨status₁, st₁⟩, h₁, he⟩ := Exec.bind_eq_ok.1 he
      have hfirst := hcall st nextInput inputTracks firstOutTrack _ st₁ hfresh hraws (hmay _ List.mem_cons_self) h₁
      dsimp only at he
      split at he
      · cases he
        exact hfirst
      · exact hfirst.trans (ih hfirst.fresh hfirst.raws (fun c hc => hmay c (List.mem_cons_of_mem _ hc)) he)
    · rename_i hsame
      rw [if_neg hsame] at hmay
      split at he
      · exact ih hfresh hraws hmay he
      · cases he

theorem compileInputs_keeps (fuel : Nat) (multiplyConstant addConstant : K) :
    Careful R env.lookup raws (compileInputs env fuel multiplyConstant addConstant) := by
  induction fuel generalizing multiplyConstant addConstant with
  | zero =>
    intro st i inTracks firstOutTrack status st' _ _ _ he
    cases he
  | succ fuel ih =>
    intro st i inTracks firstOutTrack status st' hfresh hraws hmay he
    unfold compileInputs at he
    obtain ⟨e, hel, he⟩ := Exec.bind_eq_ok.1 he
    rw [Exec.deref_eq_ok] at hel
    have hi : raws[i]? = some e.raw := by rw [← hraws, List.getElem?_map, hel]; rfl
    have hlt : i < st.elements.length := (List.getElem?_eq_some_iff.1 hel).1
    have hraws₁ : (st.setElement i e.markCompiled).elements.map (·.raw) = raws :=
      Eq.trans (map_set_self hel (by rfl)) hraws
    have hel₁ : ∃ e', (st.setElement i e.markCompiled).elements[i]? = some e' ∧ e'.raw = e.raw :=
      ⟨e.markCompiled, by simp [Compiling.setElement, hlt], rfl⟩
    have hinput (himport : e.raw.isImport) : MaySet R env.lookup e.raw := hmay _ (.arrived hi himport) _ hi
    have hcalls : ∀ c ∈ e.raw.trackCalls inTracks firstOutTrack, ∀ d, Feeds raws c d →
        ∀ el, raws[d.input]? = some el → MaySet R env.lookup el :=
      fun c hc d hd => hmay d (.step hi hc hd)
    have hmarked : Compiling.Keeps R raws st (st.setElement i e.markCompiled) := ⟨hraws₁, .refl hfresh⟩
    refine hmarked.trans ?_
    unfold compileElement at he
    cases hraw : e.raw with
    | importClient | importDevice | importBucket | importWaveForm =>
      simp only [hraw] at he
      exact compileImport_keeps hfresh hraws₁ hel₁ (hinput (by rw [hraw]; rfl)) he
    | bundle inputs =>
      simp only [hraw] at he hcalls
      exact compileBundle_keeps (ih _ _) hfresh hraws₁ hcalls he
    | multiplyConstant input constant =>
      simp only [hraw] at he hcalls
      exact ih _ _ _ input inTracks firstOutTrack _ st' hfresh hraws₁ (hcalls _ List.mem_cons_self) he
    | addConstant input constant =>
      simp only [hraw] at he hcalls
      exact ih _ _ _ input inTracks firstOutTrack _ st' hfresh hraws₁ (hcalls _ List.mem_cons_self) he
    | sum inputs =>
      simp only [hraw] at he hcalls
      exact compileSum_keeps (ih _ _) hfresh hraws₁ hcalls he
    | exportClient | exportDevice | exportBucket | exportMonitor | other =>
      simp only [hraw] at he
      cases he
      exact ⟨hraws₁, .refl hfresh⟩

theorem compileOutput_keeps {fuel : Nat} (hfresh : st.Fresh) (hraws : st.elements.map (·.raw) = raws)
    (he : compileOutput env fuel st i = .ok (status, st')) :
    Compiling.Keeps (SetsRate env.lookup raws) raws st st' := by
  obtain ⟨e, hel, he⟩ := Exec.bind_eq_ok.1 he
  rw [Exec.deref_eq_ok] at hel
  have hi : raws[i]? = some e.raw := by rw [← hraws, List.getElem?_map, hel]; rfl
  split at he
  · cases he
    exact ⟨hraws, .refl hfresh⟩
  · rename_i hexport
    rw [not_not] at hexport
    dsimp only at he
    split at he
    · cases he
      exact ⟨hraws, .refl hfresh⟩
    · rcases hattach : Compiling.attach env { st with allocs := st.allocs + 1 } i e with ⟨status₁, st₁⟩
      rw [hattach] at he
      -- an export is no import of a device
      have hopened : Compiling.Keeps (SetsRate env.lookup raws) raws st st₁ :=
        (attach_keeps { st with allocs := st.allocs + 1 } hfresh hraws (.inl hel)
          (fun p q hraw => by rw [hraw] at hexport; cases hexport) hattach).congr rfl rfl
      dsimp only at he
      split at he
      · cases he
        exact hopened
      · obtain ⟨component, -, he⟩ := Exec.bind_eq_ok.1 he
        split at he
        · cases he
          exact ⟨hopened.raws, hopened.comps⟩
        · obtain ⟨⟨status₂, st₂⟩, h₂, he⟩ := Exec.bind_eq_ok.1 he
          cases he
          have hinputs := compileInputs_keeps (R := SetsRate env.lookup raws) fuel _ _ { st₁ with inputs := [] } _ _ _ _
            st₂ hopened.fresh hopened.raws (fun d hd el hel' p q hp hq => by
              subst hp
              exact ⟨i, e.raw, d, p, hi, hexport, hd, hel', hq, rfl⟩) h₂
          exact ⟨hinputs.raws, hopened.comps.trans hinputs.comps⟩

theorem compileOutputs_keeps (st : Compiling K) {fuel : Nat} {is : List Nat} (hfresh : st.Fresh)
    (hraws : st.elements.map (·.raw) = raws) (he : compileOutputs env fuel is st = .ok (status, st')) :
    Compiling.Keeps (SetsRate env.lookup raws) raws st st' := by
  induction is generalizing st with
  | nil =>
    cases he
    exact ⟨hraws, .refl hfresh⟩
  | cons i is ih =>
    unfold compileOutputs at he
    obtain ⟨⟨status₁, st₁⟩, h₁, he⟩ := Exec.bind_eq_ok.1 he
    have hfirst := compileOutput_keeps hfresh hraws h₁
    dsimp only at he
    split at he
    · cases he
      exact hfirst
    · exact hfirst.trans (ih st₁ hfirst.fresh hfirst.raws he)

theorem auCompileFlow_keeps (st : Compiling K) {fuel : Nat} (hfresh : st.Fresh) (hraws : st.elements.map (·.raw) = raws)
    (he : auCompileFlow env fuel st = .ok (status, st')) :
    Compiling.Keeps (SetsRate env.lookup raws) raws st st' :=
  (compileOutputs_keeps { st with outputs := [] } hfresh hraws he).congr rfl rfl

end Compile

/-! ### A request -/

section Requests
variable {env : Env} {R R' : ComponentPtr → Nat → Prop} {s s' s'' : Server} {p : FlowPtr} {q : ComponentPtr}
  {status : AuStatus}

def Server.Fresh (s : Server) : Prop := ∀ p c, s.comps p = some c → p < s.nextComponent

/-- A part of a request that leaves the table alone. -/
structure Server.Keeps (R : ComponentPtr → Nat → Prop) (s s' : Server) : Prop where
  clientTable : s'.clientTable = s.clientTable
  comps : Steady R s.comps s'.comps s.nextComponent s'.nextComponent

namespace Server.Keeps

theorem refl (h : s.Fresh) : Server.Keeps R s s := ⟨rfl, .refl h⟩

theorem trans (h : Server.Keeps R s s') (h' : Server.Keeps R s' s'') : Server.Keeps R s s'' :=
  ⟨h'.clientTable.trans h.clientTable, h.comps.trans h'.comps⟩

theorem fresh (h : Server.Keeps R s s') : s'.Fresh := h.comps.fresh

theorem mono (h : Server.Keeps R s s') (hR : ∀ p rate, R p rate → R' p rate) : Server.Keeps R' s s' :=
  ⟨h.clientTable, h.comps.mono hR⟩

/-- Nothing but flows and lists changes. -/
theorem rest (h : s.Fresh) (htable : s'.clientTable = s.clientTable) (hcomps : s'.comps = s.comps)
    (hnext : s'.nextComponent = s.nextComponent) : Server.Keeps R s s' :=
  ⟨htable, by rw [hcomps, hnext]; exact .refl h⟩

theorem static (h : s.Fresh) (hs : SameStatic s s') : Server.Keeps R s s' := by
  have hnext : s'.nextComponent = s.nextComponent := congrArg (·.nextComponent) hs.fixed
  refine ⟨hs.clientTable, ?_⟩
  rw [hnext]
  refine .same h fun p c' hc' => ?_
  have hp := hs.comps p
  rw [hc', Option.map_some] at hp
  obtain ⟨c, hc, hfixed⟩ := Option.map_eq_some_iff.1 hp.symm
  exact ⟨c, hc, (congrArg Component.look hfixed).symm, .inl (congrArg Component.sampleRate hfixed).symm⟩

end Server.Keeps

theorem auFreeComponent_keeps (h : s.Fresh) (he : auFreeComponent q s = .ok s') : Server.Keeps R s s' := by
  obtain ⟨c, hc, he⟩ := Exec.bind_eq_ok.1 he
  rw [Exec.deref_eq_ok] at hc
  split at he
  · cases he
    refine ⟨rfl, ?_⟩
    have hcomps : s.comps q = some c := hc
    have hupdate := Steady.update (R := R) (p := q) (f := fun c => { c with refCnt := c.refCnt - 1 }) h
      fun _ _ => ⟨rfl, .inl rfl⟩
    rw [hcomps, Option.map_some] at hupdate
    exact hupdate
  · obtain ⟨t, ht, he⟩ := Exec.bind_eq_ok.1 he
    cases he
    -- the lists' links change
    have ht : t.clientTable = s.clientTable ∧ t.comps = s.comps ∧ t.nextComponent = s.nextComponent := by
      unfold unlinkComponent at ht
      split at ht
      · obtain ⟨l, -, ht⟩ := Exec.bind_eq_ok.1 ht
        cases ht
        exact ⟨rfl, rfl, rfl⟩
      · split at ht
        · obtain ⟨l, -, ht⟩ := Exec.bind_eq_ok.1 ht
          cases ht
          exact ⟨rfl, rfl, rfl⟩
        · cases ht
          exact ⟨rfl, rfl, rfl⟩
    obtain ⟨htable, hcomps, hnext⟩ := ht
    refine ⟨htable, ?_⟩
    dsimp only
    rw [hcomps, hnext]
    refine .same h fun p c' hc' => ?_
    by_cases hp : p = q
    · rw [hp, Function.update_self] at hc'
      cases hc'
    · rw [Function.update_of_ne hp] at hc'
      exact ⟨c', hc', rfl, .inl rfl⟩

/-- A fold over parts. -/
theorem foldlM_keeps {α : Type} {f : Server → α → Exec Server} {l : List α}
    (hf : ∀ a ∈ l, ∀ s s', s.Fresh → f s a = .ok s' → Server.Keeps R s s') (h : s.Fresh)
    (he : l.foldlM f s = .ok s') : Server.Keeps R s s' := by
  induction l generalizing s with
  | nil =>
    rw [Exec.foldlM_nil_eq_ok] at he
    subst he
    exact .refl h
  | cons a l ih =>
    obtain ⟨t, ht, he⟩ := Exec.foldlM_cons_eq_ok.1 he
    have hfirst := hf a List.mem_cons_self s t h ht
    exact hfirst.trans (ih (fun b hb => hf b (List.mem_cons_of_mem _ hb)) hfirst.fresh he)

theorem freeCompiledFlow_keeps {cmp : CompiledFlow AuFixedPoint} (h : s.Fresh) (he : freeCompiledFlow cmp s = .ok s') :
    Server.Keeps R s s' := by
  refine foldlM_keeps (fun output _ s s' h he => ?_) h he
  obtain ⟨t, ht, he⟩ := Exec.bind_eq_ok.1 he
  have hinputs : Server.Keeps R s t := foldlM_keeps (fun _ _ _ _ h he => auFreeComponent_keeps h he) h ht
  exact hinputs.trans (auFreeComponent_keeps hinputs.fresh he)

theorem stopFlow_keeps (h : s.Fresh) (he : stopFlow env p s = .ok s') : Server.Keeps R s s' := by
  obtain ⟨f, -, he⟩ := Exec.bind_eq_ok.1 he
  split at he
  · obtain ⟨⟨b, t⟩, ht, he⟩ := Exec.bind_eq_ok.1 he
    cases he
    exact .static h (changeElementState_static ht)
  · cases he
    exact .refl h

theorem auFreeFlowElements_keeps (h : s.Fresh) (he : auFreeFlowElements env p s = .ok s') : Server.Keeps R s s' := by
  obtain ⟨s₁, h₁, he⟩ := Exec.bind_eq_ok.1 he
  obtain ⟨s₂, h₂, he⟩ := Exec.bind_eq_ok.1 he
  obtain ⟨f, -, he⟩ := Exec.bind_eq_ok.1 he
  obtain ⟨s₃, h₃, he⟩ := Exec.bind_eq_ok.1 he
  cases he
  have hstopped : Server.Keeps R s s₁ := stopFlow_keeps h h₁
  have hunlinked : Server.Keeps R s₁ s₂ := by
    obtain ⟨f, -, h₂⟩ := Exec.bind_eq_ok.1 h₂
    obtain ⟨l, -, h₂⟩ := Exec.bind_eq_ok.1 h₂
    cases h₂
    unfold Server.setList
    split
    · exact .rest hstopped.fresh rfl rfl rfl
    · exact .rest hstopped.fresh rfl rfl rfl
  have hgiven : Server.Keeps R s₂ s₃ := freeCompiledFlow_keeps hunlinked.fresh h₃
  exact hstopped.trans (hunlinked.trans (hgiven.trans (.rest hgiven.fresh rfl rfl rfl)))

theorem freeFlow_keeps (h : s.Fresh) (he : freeFlow env p s = .ok s') : Server.Keeps R s s' := by
  obtain ⟨f, -, he⟩ := Exec.bind_eq_ok.1 he
  obtain ⟨t, ht, he⟩ := Exec.bind_eq_ok.1 he
  cases he
  have hfreed : Server.Keeps R s t := by
    split at ht
    · exact auFreeFlowElements_keeps h ht
    · cases ht
      exact .refl h
  exact hfreed.trans (.rest hfreed.fresh rfl rfl rfl)

theorem deleteResource_keeps {r : Resource} (h : s.Fresh) (he : deleteResource env s r = .ok s') :
    Server.Keeps R s s' := by
  unfold deleteResource at he
  split at he
  · exact auFreeComponent_keeps h he
  · exact freeFlow_keeps h he

/-! ### `ProcAuSetElements` -/

theorem compileFlow_keeps {f : ServerFlow} (h : s.Fresh) (hf : s.flows.get p = some f)
    (he : compileFlow env p s = .ok (status, s')) :
    Server.Keeps (SetsRate (fun id => lookupIDByType s.clientTable id .auComponentType) (f.els.map (·.raw))) s s' := by
  obtain ⟨f', hf', he⟩ := Exec.bind_eq_ok.1 he
  rw [Server.flow, Exec.deref_eq_ok, hf, Option.some.injEq] at hf'
  subst hf'
  obtain ⟨⟨status₁, st⟩, hst, he⟩ := Exec.bind_eq_ok.1 he
  cases he
  exact ⟨rfl, (auCompileFlow_keeps _ (by exact h) (by rfl) hst).comps⟩

theorem linkFlow_keeps (h : s.Fresh) (he : s.linkFlow p = .ok s') : Server.Keeps R s s' ∧ s'.flows = s.flows := by
  obtain ⟨f, -, he⟩ := Exec.bind_eq_ok.1 he
  obtain ⟨l, -, he⟩ := Exec.bind_eq_ok.1 he
  cases he
  unfold Server.setList
  split
  · exact ⟨.rest h rfl rfl rfl, rfl⟩
  · exact ⟨.rest h rfl rfl rfl, rfl⟩

theorem installElements_keeps {r : SetElementsRequest} (h : s.Fresh) (hf : (s.flows.get p).isSome)
    (he : installElements env r p s = .ok (status, s')) :
    Server.Keeps (SetsRate (fun id => lookupIDByType s.clientTable id .auComponentType) r.elements) s s' := by
  unfold installElements at he
  split at he
  · cases he
    exact .refl h
  · dsimp only at he
    split at he
    · obtain ⟨t, ht, he⟩ := Exec.bind_eq_ok.1 he
      cases he
      have hinstalled : Server.Keeps (SetsRate (fun id => lookupIDByType s.clientTable id .auComponentType) r.elements) s
          { s with
            flows := s.flows.modify p (·.install r.clocked s.nextBlock ((r.elements.map (·.varLen)).sum)
              (r.elements.zipIdx.map fun x => initElement r.client x.2 x.1 []))
            nextBlock := s.nextBlock + 1 } := .rest h rfl rfl rfl
      exact hinstalled.trans (auFreeFlowElements_keeps hinstalled.fresh ht)
    · rename_i els hels
      obtain ⟨f, hf⟩ := Option.isSome_iff_exists.1 hf
      obtain ⟨t, ht, he⟩ := Exec.bind_eq_ok.1 he
      obtain ⟨⟨status₁, t'⟩, ht', he⟩ := Exec.bind_eq_ok.1 he
      have hinstalled : Server.Keeps (SetsRate (fun id => lookupIDByType s.clientTable id .auComponentType) r.elements) s
          { s with
            flows := s.flows.modify p (·.install r.clocked s.nextBlock ((r.elements.map (·.varLen)).sum) els)
            nextBlock := s.nextBlock + 1 } := .rest h rfl rfl rfl
      obtain ⟨hlinked, hflows⟩ := linkFlow_keeps hinstalled.fresh ht
      have hlinked := hinstalled.trans hlinked
      -- what is compiled are the elements of the request
      have hget : t.flows.get p =
          some (f.install r.clocked s.nextBlock ((r.elements.map (·.varLen)).sum) els) := by
        rw [hflows, Heap.get_modify_self, hf]
        rfl
      have hcompiled := compileFlow_keeps hlinked.fresh hget ht'
      rw [hlinked.clientTable, show (f.install r.clocked s.nextBlock ((r.elements.map (·.varLen)).sum) els).els.map (·.raw) =
        r.elements from (Rule.initElements_fresh hels).raws] at hcompiled
      have hcompiled := hlinked.trans hcompiled
      dsimp only at he
      split at he
      · cases he
        exact hcompiled.trans (.rest hcompiled.fresh rfl rfl rfl)
      · obtain ⟨t'', ht'', he⟩ := Exec.bind_eq_ok.1 he
        cases he
        exact hcompiled.trans (auFreeFlowElements_keeps hcompiled.fresh ht'')

theorem procAuSetElements_keeps {r : SetElementsRequest} (h : s.Fresh)
    (he : procAuSetElements env r s = .ok (status, s')) :
    Server.Keeps (SetsRate (fun id => lookupIDByType s.clientTable id .auComponentType) r.elements) s s' := by
  unfold procAuSetElements at he
  split at he
  · cases he
    exact .refl h
  · split at he
    · cases he
      exact .refl h
    · split at he
      · cases he
        exact .refl h
      · rename_i p _ _ _
        obtain ⟨f, hf, he⟩ := Exec.bind_eq_ok.1 he
        rw [Server.flow, Exec.deref_eq_ok] at hf
        obtain ⟨t, ht, he⟩ := Exec.bind_eq_ok.1 he
        have hfreed : Server.Keeps (SetsRate (fun id => lookupIDByType s.clientTable id .auComponentType) r.elements) s t ∧
            (t.flows.get p).isSome := by
          split at ht
          · obtain ⟨f', hf', -⟩ := auFreeFlowElements_get ht
            exact ⟨auFreeFlowElements_keeps h ht, by rw [hf']; rfl⟩
          · cases ht
            exact ⟨.refl h, by rw [hf]; rfl⟩
        obtain ⟨hfreed, hsome⟩ := hfreed
        have hinstalled := installElements_keeps hfreed.fresh hsome he
        rw [hfreed.clientTable] at hinstalled
        exact hfreed.trans hinstalled

/-! ### Whole requests -/

/-- What becomes of the components and of what is found, by a request that makes at most one bucket, with the id
`made`. -/
structure Moved (R : ComponentPtr → Nat → Prop) (made : Option AuID) (s s' : Server) : Prop where
  le : s.nextComponent ≤ s'.nextComponent
  old : ∀ p < s.nextComponent, ∀ c', s'.comps p = some c' → ∃ c, s.comps p = some c ∧ c'.look = c.look ∧
    (c'.sampleRate = c.sampleRate ∨ R p c'.sampleRate)
  new : ∀ p c', s.nextComponent ≤ p → s'.comps p = some c' →
    p < s'.nextComponent ∧ c'.id = if p = s.nextComponent then made.getD 0 else 0
  lookup : ∀ id q, lookupIDByType s'.clientTable id .auComponentType = some q →
    lookupIDByType s.clientTable id .auComponentType = some q ∨
      made = some id ∧ q = s.nextComponent ∧ q < s'.nextComponent
  placed : s'.clientTable.Placed

theorem Moved.of_steady (hcomps : Steady R s.comps s'.comps s.nextComponent s'.nextComponent)
    (hplaced : s'.clientTable.Placed) (hlookup : ∀ id q, lookupIDByType s'.clientTable id .auComponentType = some q →
      lookupIDByType s.clientTable id .auComponentType = some q) : Moved R none s s' where
  le := hcomps.le
  old := hcomps.old
  new p c' hp hc' := ⟨(hcomps.new p c' hp hc').1, (hcomps.new p c' hp hc').2.trans (ite_self 0).symm⟩
  lookup id q hq := .inl (hlookup id q hq)
  placed := hplaced

theorem Server.Keeps.moved (h : Server.Keeps R s s') (hplaced : s.clientTable.Placed) : Moved R none s s' :=
  .of_steady h.comps (by rw [h.clientTable]; exact hplaced) fun id q hq => by rwa [h.clientTable] at hq

theorem freeResource_moved {id : AuID} (h : s.Fresh) (hplaced : s.clientTable.Placed)
    (he : freeResource env id s = .ok s') : Moved R none s s' := by
  unfold freeResource at he
  dsimp only at he
  split at he
  · cases he
  · have hkeeps : Server.Keeps R { s with clientTable := (takeResource s.clientTable id).2 } s' :=
      foldlM_keeps (fun _ _ _ _ h he => deleteResource_keeps h he) h he
    refine .of_steady hkeeps.comps (by rw [hkeeps.clientTable]; exact hplaced.take id) fun id' q hq => ?_
    rw [hkeeps.clientTable] at hq
    exact lookup_take hq

theorem freeClientResources_moved {client : Nat} (h : s.Fresh) (hplaced : s.clientTable.Placed)
    (he : freeClientResources env client s = .ok s') : Moved R none s s' := by
  unfold freeClientResources at he
  dsimp only at he
  have hkeeps : Server.Keeps R { s with clientTable := (takeClientResources s.clientTable client).2 } s' :=
    foldlM_keeps (fun _ _ _ _ h he => deleteResource_keeps h he) h he
  refine .of_steady hkeeps.comps (by rw [hkeeps.clientTable]; exact hplaced.close client) fun id' q hq => ?_
  rw [hkeeps.clientTable] at hq
  exact lookup_close hq

/-- A record in the table for what a client has made, or neither of them. -/
structure Recorded (R : ComponentPtr → Nat → Prop) (r : Resource) (s s' : Server) : Prop where
  comps : Steady R s.comps s'.comps s.nextComponent s'.nextComponent
  placed : s'.clientTable.Placed
  lookup : ∀ id type q, lookupIDByType s'.clientTable id type = some q →
    lookupIDByType s.clientTable id type = some q ∨ id = r.id ∧ type = r.type ∧ q = r.value

theorem addResource_recorded (s : Server) {tableMem mem added : Bool} {r : Resource} (h : s.Fresh)
    (hplaced : s.clientTable.Placed) (he : addResource env tableMem mem r s = .ok (added, s')) : Recorded R r s s' := by
  unfold addResource at he
  split at he
  · cases he
    exact ⟨.refl h, hplaced, fun _ _ _ hq => .inl hq⟩
  · rename_i c hc
    dsimp only at he
    have hgrown : ClientTable.Placed (Function.update s.clientTable (clientId r.id) (some (c.grow tableMem))) :=
      hplaced.update ((hplaced _ c hc).grow tableMem)
    split at he
    · obtain ⟨t, ht, he⟩ := Exec.bind_eq_ok.1 he
      cases he
      have hkeeps : Server.Keeps R
          { s with clientTable := Function.update s.clientTable (clientId r.id) (some (c.grow tableMem)) } s' :=
        deleteResource_keeps h ht
      refine ⟨hkeeps.comps, by rw [hkeeps.clientTable]; exact hgrown, fun id type q hq => .inl ?_⟩
      rw [hkeeps.clientTable] at hq
      exact lookup_grow hplaced hc hq
    · cases he
      refine ⟨.refl h, hplaced.update (.add ((hplaced _ c hc).grow tableMem) r), fun id type q hq => ?_⟩
      exact (lookup_add hq).imp_left fun hq => lookup_grow hplaced hc hq

/-- A request whose effect on components is known. -/
def Request.Ordinary : Request → Prop
  | .connect _ | .createFlow _ | .destroyFlow _ | .setElements _ | .setElementStates _ _ | .destroyBucket _ _
  | .closeClient _ => True
  | .createBucket .. | .setElementParameters _ | .writeElement _ | .readElement .. => False

instance : DecidablePred Request.Ordinary := fun r => by
  cases r <;> unfold Request.Ordinary <;> infer_instance

/-- The rates a request sets. -/
def Request.SetsRate (s : Server) : Request → ComponentPtr → Nat → Prop
  | .setElements r => Nas.SetsRate (fun id => lookupIDByType s.clientTable id .auComponentType) r.elements
  | _ => fun _ _ => False

theorem dispatch_moved {r : Request} (hr : r.Ordinary) (h : s.Fresh) (hplaced : s.clientTable.Placed)
    (he : dispatch env s r = .ok (status, s')) : Moved (r.SetsRate s) none s s' := by
  have hsame : Moved (r.SetsRate s) none s s := (Server.Keeps.refl h).moved hplaced
  cases r with
  | connect client =>
    unfold dispatch at he
    dsimp only at he
    split at he
    · cases he
      exact hsame
    · rename_i hnone
      cases he
      refine .of_steady (.refl h) (hplaced.update fun j l hj r hr => ?_) fun id q hq => ?_
      · rw [initClientResources, List.getElem?_replicate] at hj
        split at hj
        · cases hj
          cases hr
        · cases hj
      · obtain ⟨c, r, hc, hr, hval⟩ := lookup_eq_some.1 hq
        dsimp only at hc
        by_cases hclient : clientId id = client
        · rw [hclient, Function.update_self, Option.some.injEq] at hc
          subst hc
          have hnil : initClientResources.chain id = [] := by
            unfold ClientResource.chain initClientResources
            rw [List.getD_eq_getElem?_getD, List.getElem?_replicate]
            split <;> rfl
          rw [hnil] at hr
          cases hr
        · rw [Function.update_of_ne hclient] at hc
          exact lookup_eq_some.2 ⟨c, r, hc, hr, hval⟩
  | createFlow id =>
    unfold dispatch procAuCreateFlow at he
    dsimp only at he
    split at he
    · cases he
      exact hsame
    · obtain ⟨⟨added, t⟩, ht, he⟩ := Exec.bind_eq_ok.1 he
      cases he
      have hadded : Recorded ((Request.createFlow id).SetsRate s) _ _ t :=
        addResource_recorded _ (by exact h) (by exact hplaced) ht
      exact .of_steady hadded.comps hadded.placed fun id' q hq =>
        (hadded.lookup id' _ q hq).resolve_right fun hr => by cases hr.2.1
  | destroyFlow id =>
    unfold dispatch procAuDestroyFlow at he
    dsimp only at he
    split at he
    · cases he
      exact hsame
    · obtain ⟨t, ht, he⟩ := Exec.bind_eq_ok.1 he
      cases he
      exact freeResource_moved h hplaced ht
  | setElements r => exact (procAuSetElements_keeps h he).moved hplaced
  | setElementStates lengthOk states =>
    unfold dispatch procAuSetElementStates at he
    dsimp only at he
    split at he
    · cases he
      exact hsame
    · split at he
      · cases he
        exact hsame
      · obtain ⟨⟨status₁, cs⟩, -, he⟩ := Exec.bind_eq_ok.1 he
        dsimp only at he
        split at he
        · cases he
          exact hsame
        · obtain ⟨t, ht, he⟩ := Exec.bind_eq_ok.1 he
          cases he
          obtain ⟨t₁, h₁, ht⟩ := Exec.bind_eq_ok.1 ht
          have hchanged : SameStatic s t₁ := by
            refine Exec.foldlM_rel .refl (fun _ _ _ h h' => h.trans h') (fun c _ s s' he => ?_) h₁
            obtain ⟨⟨b, t⟩, ht, he⟩ := Exec.bind_eq_ok.1 he
            cases he
            exact changeElementState_static ht
          exact (Server.Keeps.static h (hchanged.trans (auProcessClockedFlows_static ht))).moved hplaced
  | destroyBucket client id =>
    unfold dispatch procAuDestroyBucket at he
    dsimp only at he
    split at he
    · cases he
      exact hsame
    · rename_i p hp
      obtain ⟨c, hc, he⟩ := Exec.bind_eq_ok.1 he
      rw [Exec.deref_eq_ok] at hc
      split at he
      · cases he
        exact hsame
      · obtain ⟨t, ht, he⟩ := Exec.bind_eq_ok.1 he
        cases he
        have hmarked : Server.Keeps ((Request.destroyBucket client id).SetsRate s) s
            (s.setComponent p { c with destroyed := true }) := by
          have hupdate := Steady.update (R := (Request.destroyBucket client id).SetsRate s) (p := p)
            (f := fun c => { c with destroyed := true }) h fun _ _ => ⟨rfl, .inl rfl⟩
          rw [hc, Option.map_some] at hupdate
          exact ⟨rfl, hupdate⟩
        have hfreed : Moved ((Request.destroyBucket client id).SetsRate s) none _ s' :=
          freeResource_moved hmarked.fresh hplaced ht
        refine .of_steady (hmarked.comps.trans ⟨hfreed.le, hfreed.old, fun p c' hp hc' => ?_⟩) hfreed.placed fun id q hq => ?_
        · exact ⟨(hfreed.new p c' hp hc').1, (hfreed.new p c' hp hc').2.trans (ite_self 0)⟩
        · exact (hfreed.lookup id q hq).resolve_right fun hmade => by cases hmade.1
  | closeClient client =>
    obtain ⟨t, ht, he⟩ := Exec.bind_eq_ok.1 he
    cases he
    exact freeClientResources_moved h hplaced ht
  | createBucket | setElementParameters | writeElement | readElement => exact absurd hr id

/-- A bucket under its own id. -/
theorem createBucket_moved {id : AuID} {lengthOk maskOk : Bool} {a : AuBucketAttributes} (hid : a.id = id) (h : s.Fresh)
    (hplaced : s.clientTable.Placed) (he : procAuCreateBucket env id lengthOk maskOk a s = .ok (status, s')) :
    Moved R (some id) s s' := by
  have hsame : Moved R (some id) s s := by
    have hsame : Moved R none s s := (Server.Keeps.refl h).moved hplaced
    exact ⟨hsame.le, hsame.old, fun p c' hp hc' => absurd (h p c' hc') (Nat.not_lt.2 hp),
      fun id q hq => .inl hq, hplaced⟩
  unfold procAuCreateBucket at he
  dsimp only at he
  split at he
  · cases he
    exact hsame
  · split at he
    · cases he
      exact hsame
    · split at he
      · cases he
        exact hsame
      · obtain ⟨l, -, he⟩ := Exec.bind_eq_ok.1 he
        obtain ⟨⟨added, t⟩, ht, he⟩ := Exec.bind_eq_ok.1 he
        cases he
        have hfresh : ∀ p c, Function.update s.comps s.nextComponent (some (newBucket env a)) p = some c →
            p < s.nextComponent + 1 := by
          intro p c hc
          by_cases hp : p = s.nextComponent
          · exact hp ▸ Nat.lt_succ_self _
          · rw [Function.update_of_ne hp] at hc
            exact Nat.lt_succ_of_lt (h p c hc)
        have hadded : Recorded R _ _ t :=
          addResource_recorded _ (by exact hfresh) (by exact hplaced) ht
        refine ⟨(Nat.le_succ _).trans hadded.comps.le, fun p hp c' hc' => ?_, fun p c' hp hc' => ?_, fun id' q hq => ?_,
          hadded.placed⟩
        · obtain ⟨c, hc, hlook, hrate⟩ := hadded.comps.old p (Nat.lt_succ_of_lt hp) c' hc'
          dsimp only at hc
          rw [Function.update_of_ne (Nat.ne_of_lt hp)] at hc
          exact ⟨c, hc, hlook, hrate⟩
        · refine ⟨hadded.comps.fresh p c' hc', ?_⟩
          by_cases hp' : p = s.nextComponent
          · subst hp'
            obtain ⟨c, hc, hlook, -⟩ := hadded.comps.old _ (Nat.lt_succ_self _) c' hc'
            dsimp only at hc
            rw [Function.update_self, Option.some.injEq] at hc
            rw [if_pos rfl]
            exact (congrArg Look.id hlook).trans (hc ▸ hid)
          · rw [if_neg hp']
            exact (hadded.comps.new p c' (Nat.lt_of_le_of_ne hp (Ne.symm hp')) hc').2
        · rcases hadded.lookup id' _ q hq with hold | ⟨hid', -, hq⟩
          · exact .inl hold
          · exact .inr ⟨by rw [hid'], hq, hq ▸ hadded.comps.le⟩

theorem auProcessData_moved {tick : Tick} (h : s.Fresh) (hplaced : s.clientTable.Placed)
    (he : auProcessData env tick s = .ok s') : Moved R none s s' :=
  (Server.Keeps.static h (auProcessData_static he)).moved hplaced

end Requests

end Nas
