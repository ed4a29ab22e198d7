import Nas.Cascade
import Nas.Dispatch

/-!
# What a change of states does

`AuChangeElementState` as a cascade (`changeCascade`, `auChangeElementState_eq`), one inversion lemma for
each of its parts, and what it leaves as it is (`SameStatic`): it changes the states of elements and
flows, what is played and recorded from where, and the running flow; no element, action, compiled flow or
list.
-/

namespace Nas

/-! ### The cascade -/

/-- The changes the actions of an element ask for in the states it has. -/
def FlowElement.triggeredChanges (el : ServerElement) (reason : Nat) : List StateChange :=
  el.actions.filterMap fun a =>
    if a.triggered el.state el.prevState reason then
      match a.action with
      | .changeState flow elementNum newState => some ⟨flow, elementNum, newState, reason⟩
      | .sendNotify | .noop => none
    else none

/-- `triggerElement` up to the calls. -/
def visitElement (c : StateChange) (i : Nat) (s : Server) : Exec (List StateChange × Server) := do
  let el ← Exec.deref (s.element c.flow i)
  if ¬ el.stateChange then .ok ([], s)
  else do
    let el := el.clearStateChange
    if ← emptyImport el s then
      let el := el.pauseEmpty
      let s := s.setElement c.flow i el
      .ok (el.triggeredChanges auReasonUnderrun,
        { s with trace := s.trace ++ [.moved c.flow i auStateStart auStatePause] })
    else .ok (el.triggeredChanges c.reason, s.setElement c.flow i el)

/-- What is done before the actions are looked at: the elements, whether one of them changed. -/
def enterChange (env : Env) (c : StateChange) (s : Server) : Exec (List Nat × Bool × Server) := do
  let nums ← c.elementNums s
  let (stateChange, s) ← nums.foldlM (enterElement env c) (false, s)
  .ok (nums, stateChange, s)

def changeCascade (env : Env) (processFlow : Bool) : Cascade StateChange Nat Bool Server where
  enter := enterChange env
  visit := visitElement
  leave := finishChange env processFlow

theorem checkForTriggeredActions_eq (call : StateChange → Server → Exec Server) (el : ServerElement)
    (reason : Nat) (s : Server) :
    checkForTriggeredActions call el reason s = Cascade.calls call (el.triggeredChanges reason) s := by
  unfold checkForTriggeredActions FlowElement.triggeredChanges Cascade.calls
  induction el.actions generalizing s with
  | nil => rfl
  | cons a l ih =>
    rw [List.foldlM_cons]
    by_cases ht : a.triggered el.state el.prevState reason
    · cases ha : a.action <;> simp [ht, ha, ih]
    · simp [ht, ih]

theorem triggerElement_eq (call : StateChange → Server → Exec Server) (c : StateChange) (s : Server)
    (i : Nat) : triggerElement call c s i = (do
      let (cs, s) ← visitElement c i s
      Cascade.calls call cs s) := by
  unfold triggerElement visitElement
  cases he : s.element c.flow i with
  | none => rfl
  | some el =>
    simp only [Exec.deref_some, Exec.ok_bind]
    by_cases hc : el.stateChange
    · simp only [hc, not_true_eq_false, if_false]
      cases hi : emptyImport el.clearStateChange s with
      | error e => rfl
      | ok b => cases b <;> simp [checkForTriggeredActions_eq]
    · simp [hc, Cascade.calls]; rfl

theorem auChangeElementState_eq (env : Env) (processFlow : Bool) (n : Nat) (c : StateChange) (s : Server) :
    auChangeElementState env processFlow n c s = (changeCascade env processFlow).run n c s := by
  induction n generalizing c s with
  | zero => rfl
  | succ n ih =>
    have hrec : auChangeElementState env processFlow n = (changeCascade env processFlow).run n := by
      funext c s; exact ih c s
    have htrig : ∀ nums s, nums.foldlM (triggerElement ((changeCascade env processFlow).run n) c) s =
        (changeCascade env processFlow).visits ((changeCascade env processFlow).run n) c nums s := by
      intro nums s
      unfold Cascade.visits
      congr 1
      funext s i
      exact triggerElement_eq _ c s i
    simp only [auChangeElementState, Cascade.run, Cascade.body, hrec, htrig]
    simp only [changeCascade, enterChange]
    cases c.elementNums s with
    | error e => rfl
    | ok nums =>
      simp only [Exec.ok_bind]
      cases nums.foldlM (enterElement env c) (false, s) with
      | error e => rfl
      | ok r => rfl

/-! ### What stays -/

/-- An element less its states and its place in the data. -/
def FlowElement.fixed {K : Type} (e : FlowElement K) : FlowElement K :=
  { e with
    state := 0, prevState := 0, stateChange := false
    countSamples := false, numBytes := 0, currentSample := 0, read := 0, write := 0 }

/-- A flow less its states and those of its elements. -/
def Flow.fixed {K : Type} (f : Flow K) : Flow K :=
  { f with state := 0, pendingState := 0, elements := f.elements.map (List.map FlowElement.fixed) }

/-- A component less what is in it. -/
def Component.fixed (c : Component) : Component :=
  { c with
    read := 0, write := 0, incoming := 0, outgoing := 0, currentSize := 0, eof := false, frequency := 0
    words := [] }

/-- The lists, the table and the addresses to be given out next. -/
def Server.fixed (s : Server) : Server :=
  { s with flows := .empty, comps := fun _ => none, auFlow := none, processed := 0, trace := [] }

structure SameStatic (s s' : Server) : Prop where
  flows : ∀ p, (s'.flows.get p).map Flow.fixed = (s.flows.get p).map Flow.fixed
  next : s'.flows.next = s.flows.next
  comps : ∀ p, (s'.comps p).map Component.fixed = (s.comps p).map Component.fixed
  fixed : s'.fixed = s.fixed

section Fixed
variable {K : Type} {f f' : Flow K} {e e' : FlowElement K}

@[simp] theorem FlowElement.rewind_fixed : e.rewind.fixed = e.fixed := rfl
@[simp] theorem FlowElement.rewind_state : e.rewind.state = e.state := rfl
@[simp] theorem FlowElement.readAt_fixed {n : Nat} : (e.readAt n).fixed = e.fixed := rfl
@[simp] theorem FlowElement.readAt_state {n : Nat} : (e.readAt n).state = e.state := rfl
@[simp] theorem FlowElement.writeAt_fixed {n : Nat} : (e.writeAt n).fixed = e.fixed := rfl
@[simp] theorem FlowElement.writeAt_state {n : Nat} : (e.writeAt n).state = e.state := rfl

@[simp] theorem FlowElement.count_fixed {n b : Nat} : (e.count n b).fixed = e.fixed := by
  unfold count; split <;> rfl

@[simp] theorem FlowElement.count_state {n b : Nat} : (e.count n b).state = e.state := by
  unfold count; split <;> rfl

theorem FlowElement.fixed_raw (h : e'.fixed = e.fixed) : e'.raw = e.raw := congrArg (·.raw) h
theorem FlowElement.fixed_actions (h : e'.fixed = e.fixed) : e'.actions = e.actions := congrArg (·.actions) h
theorem FlowElement.fixed_component (h : e'.fixed = e.fixed) : e'.component = e.component :=
  congrArg (·.component) h
theorem FlowElement.fixed_isComponent (h : e'.fixed = e.fixed) : e'.isComponent = e.isComponent :=
  congrArg (·.isComponent) h

theorem Flow.fixed_clocked (h : f'.fixed = f.fixed) : f'.clocked = f.clocked := congrArg (·.clocked) h
theorem Flow.fixed_block (h : f'.fixed = f.fixed) : f'.block = f.block := congrArg (·.block) h
theorem Flow.fixed_compiled (h : f'.fixed = f.fixed) : f'.compiled = f.compiled := congrArg (·.compiled) h

theorem Flow.fixed_elements (h : f'.fixed = f.fixed) :
    f'.elements.map (List.map FlowElement.fixed) = f.elements.map (List.map FlowElement.fixed) :=
  congrArg (·.elements) h

theorem Flow.fixed_isSome (h : f'.fixed = f.fixed) : f'.elements.isSome = f.elements.isSome := by
  simpa using congrArg Option.isSome (Flow.fixed_elements h)

theorem Flow.els_map {β : Type} {g : FlowElement K → β} (f : Flow K) :
    (f.elements.map (List.map g)).getD [] = f.els.map g := by
  cases h : f.elements <;> simp [els, h]

theorem Flow.fixed_els (h : f'.fixed = f.fixed) :
    f'.els.map FlowElement.fixed = f.els.map FlowElement.fixed := by
  rw [← Flow.els_map, ← Flow.els_map, Flow.fixed_elements h]

theorem Flow.fixed_numElements (h : f'.fixed = f.fixed) : f'.numElements = f.numElements := by
  simpa [numElements] using congrArg List.length (Flow.fixed_els h)

theorem Flow.fixed_els_get (h : f'.fixed = f.fixed) {i : Nat} {e : FlowElement K} (he : f.els[i]? = some e) :
    ∃ e', f'.els[i]? = some e' ∧ e'.fixed = e.fixed := by
  have hi := congrArg (·[i]?) (Flow.fixed_els h)
  simpa [he] using hi

theorem Flow.setElement_fixed {i : Nat} (he : f.els[i]? = some e) (h : e'.fixed = e.fixed) :
    (f.setElement i e').fixed = f.fixed := by
  cases hf : f.elements with
  | none => simp [setElement, Flow.fixed, hf]
  | some l =>
    have hl : l[i]? = some e := by simpa [els, hf] using he
    obtain ⟨hi, hli⟩ := List.getElem?_eq_some_iff.1 hl
    have : (l.set i e').map FlowElement.fixed = l.map FlowElement.fixed := by
      rw [List.map_set, h, ← hli]
      exact List.ext_getElem (by simp) fun k _ _ => by by_cases hk : i = k <;> simp [hk]
    simp [setElement, Flow.fixed, hf, this]

@[simp] theorem Flow.setFlowState_fixed : f.setFlowState.fixed = f.fixed := rfl

@[simp] theorem Flow.update_fixed : f.update.fixed = f.fixed := rfl

end Fixed

namespace SameStatic
variable {s s' t : Server} {p : FlowPtr} {f f' : ServerFlow}

theorem refl (s : Server) : SameStatic s s := ⟨fun _ => rfl, rfl, fun _ => rfl, rfl⟩

theorem trans (h : SameStatic s t) (h' : SameStatic t s') : SameStatic s s' :=
  ⟨fun p => (h'.flows p).trans (h.flows p), h'.next.trans h.next,
    fun p => (h'.comps p).trans (h.comps p), h'.fixed.trans h.fixed⟩

theorem symm (h : SameStatic s t) : SameStatic t s :=
  ⟨fun p => (h.flows p).symm, h.next.symm, fun p => (h.comps p).symm, h.fixed.symm⟩

theorem links (h : SameStatic s s') : s'.links = s.links := congrArg (·.links) h.fixed
theorem auClockedFlows (h : SameStatic s s') : s'.auClockedFlows = s.auClockedFlows :=
  congrArg (·.auClockedFlows) h.fixed
theorem auUnclockedFlows (h : SameStatic s s') : s'.auUnclockedFlows = s.auUnclockedFlows :=
  congrArg (·.auUnclockedFlows) h.fixed
theorem clientTable (h : SameStatic s s') : s'.clientTable = s.clientTable :=
  congrArg (·.clientTable) h.fixed
theorem nextBlock (h : SameStatic s s') : s'.nextBlock = s.nextBlock := congrArg (·.nextBlock) h.fixed

theorem get (h : SameStatic s s') (hf : s.flows.get p = some f) :
    ∃ f', s'.flows.get p = some f' ∧ f'.fixed = f.fixed := by
  simpa [hf] using h.flows p

theorem element (h : SameStatic s s') {i : Nat} {e : ServerElement} (he : s.element p i = some e) :
    ∃ e', s'.element p i = some e' ∧ e'.fixed = e.fixed := by
  obtain ⟨f, hf, hi⟩ := Option.bind_eq_some_iff.1 he
  obtain ⟨f', hf', hfix⟩ := h.get hf
  obtain ⟨e', he', hfe⟩ := Flow.fixed_els_get hfix hi
  exact ⟨e', by simp [Server.element, hf', he'], hfe⟩

theorem live (h : SameStatic s s') : s'.flows.live = s.flows.live := by
  funext p
  simpa [Heap.live] using congrArg Option.isSome (h.flows p)

/-- A change of one flow. -/
theorem modify {g : ServerFlow → ServerFlow} (hg : ∀ f, s.flows.get p = some f → (g f).fixed = f.fixed) :
    SameStatic s { s with flows := s.flows.modify p g } := by
  refine ⟨fun q => ?_, rfl, fun _ => rfl, rfl⟩
  rw [Heap.get_modify]
  by_cases hq : q = p
  · subst hq
    cases hf : s.flows.get q with
    | none => simp
    | some f => simp [hg f hf]
  · simp [hq]

theorem setElement {i : Nat} {e e' : ServerElement} (he : s.element p i = some e) (h : e'.fixed = e.fixed) :
    SameStatic s (s.setElement p i e') := by
  refine modify fun f hf => ?_
  exact Flow.setElement_fixed (by simpa [Server.element, hf] using he) h

theorem setFlowState : SameStatic s (s.setFlowState p) := modify fun _ _ => rfl

/-- Changes of the components' contents. -/
theorem ofComps {comps : ComponentPtr → Option Component}
    (h : ∀ q, (comps q).map Component.fixed = (s.comps q).map Component.fixed) :
    SameStatic s { s with comps } := ⟨fun _ => rfl, rfl, h, rfl⟩

theorem ofTrace {l : List Event} : SameStatic s { s with trace := l } :=
  ⟨fun _ => rfl, rfl, fun _ => rfl, rfl⟩

end SameStatic

/-! ### What each part does -/

section Parts
variable {env : Env} {processFlow : Bool} {c : StateChange} {s s' : Server} {i : Nat}

theorem SameStatic.setComponent {el : ServerElement} {q : ComponentPtr} {k k' : Component}
    (hk : s.component el = .ok (q, k)) (hfix : k'.fixed = k.fixed) (r : ComponentPtr) :
    ((s.setComponent q k').comps r).map Component.fixed = (s.comps r).map Component.fixed := by
  simp only [Server.component, Exec.bind_eq_ok, Exec.deref_eq_ok, Except.ok.injEq, Prod.mk.injEq] at hk
  obtain ⟨q₀, -, k₀, hq, h₁, h₂⟩ := hk
  rw [h₁, h₂] at hq
  by_cases hr : r = q
  · subst hr; simp [Server.setComponent, hq, hfix]
  · simp [Server.setComponent, hr]

/-- Starting an element changes its place in the data and the contents of its component. -/
theorem startElement_eq {el el' : ServerElement} (h : startElement env el s = .ok (el', s')) :
    el'.fixed = el.fixed ∧ el'.state = el.state ∧
      ∃ comps, s' = { s with comps } ∧
        ∀ q, (comps q).map Component.fixed = (s.comps q).map Component.fixed := by
  have hsame : ∃ comps, s = { s with comps } ∧
      ∀ q, (comps q).map Component.fixed = (s.comps q).map Component.fixed := ⟨s.comps, rfl, fun _ => rfl⟩
  unfold startElement at h
  split at h
  case h_2 p _ | h_3 p _ =>
    split at h
    · cases h
      exact ⟨by simp, by simp, hsame⟩
    · obtain ⟨⟨q, k⟩, hk, h⟩ := Exec.bind_eq_ok.1 h
      cases h
      exact ⟨by simp, by simp, hsame⟩
  case h_6 p _ | h_7 p _ =>
    obtain ⟨⟨q, k⟩, hk, h⟩ := Exec.bind_eq_ok.1 h
    cases h
    exact ⟨by simp, by simp, hsame⟩
  case h_9 =>
    cases h
    exact ⟨by simp, by simp, hsame⟩
  all_goals
    obtain ⟨⟨q, k⟩, hk, h⟩ := Exec.bind_eq_ok.1 h
    cases h
    refine ⟨by simp, by simp, _, rfl, SameStatic.setComponent hk ?_⟩
  case h_1 => rfl
  case h_4 => unfold startImportPort; split <;> rfl
  case h_5 => unfold startExportPort; split <;> rfl
  case h_8 => rfl

theorem enterElement_cases {b b' : Bool} (h : enterElement env c (b, s) i = .ok (b', s')) :
    ∃ el, s.element c.flow i = some el ∧
      (((c.newState = el.state ∨ c.newState = auStatePause ∧ el.state = auStateStop) ∧ b' = b ∧ s' = s) ∨
        (c.newState ≠ el.state ∧ ¬ (c.newState = auStatePause ∧ el.state = auStateStop) ∧ b' = true ∧
          ∃ el' comps, el'.fixed = el.fixed ∧ el'.prevState = el.state ∧ el'.state = c.newState ∧
            (∀ q, (comps q).map Component.fixed = (s.comps q).map Component.fixed) ∧
            s' = { s.setElement c.flow i el' with
              comps, trace := s.trace ++ [.moved c.flow i el.state c.newState] })) := by
  obtain ⟨el, hel, h⟩ := Exec.bind_eq_ok.1 h
  rw [Exec.deref_eq_ok] at hel
  refine ⟨el, hel, ?_⟩
  split at h
  case isTrue hskip =>
    cases h
    exact .inl ⟨hskip, rfl, rfl⟩
  case isFalse hskip =>
    obtain ⟨hne, hstop⟩ := not_or.1 hskip
    refine .inr ⟨hne, hstop, ?_⟩
    obtain ⟨⟨el₁, s₁⟩, hstart, h⟩ := Exec.bind_eq_ok.1 h
    cases h
    have hel₁ : el₁.fixed = el.fixed ∧ el₁.state = el.state ∧ ∃ comps, s₁ = { s with comps } ∧
        ∀ q, (comps q).map Component.fixed = (s.comps q).map Component.fixed := by
      split at hstart
      · exact startElement_eq hstart
      · cases hstart
        exact ⟨rfl, rfl, s.comps, rfl, fun _ => rfl⟩
    obtain ⟨hfix, hstate, comps, rfl, hcomps⟩ := hel₁
    exact ⟨rfl, el₁.move c.newState, comps, hfix, hstate, rfl, hcomps, rfl⟩

theorem emptyImport_true {el : ServerElement} (h : emptyImport el s = .ok true) :
    el.prevState = auStateStop ∧ el.state = auStateStart := by
  unfold emptyImport at h
  split at h
  · obtain ⟨⟨q, k⟩, -, h⟩ := Exec.bind_eq_ok.1 h
    simp only [Except.ok.injEq, Bool.and_eq_true, beq_iff_eq] at h
    exact ⟨h.1.2, h.2⟩
  · cases h

theorem visitElement_cases {cs : List StateChange} (h : visitElement c i s = .ok (cs, s')) :
    ∃ el, s.element c.flow i = some el ∧
      ((el.stateChange = false ∧ cs = [] ∧ s' = s) ∨
        (el.stateChange = true ∧ ∃ el', el'.fixed = el.fixed ∧ el'.stateChange = false ∧
          ((el'.state = el.state ∧ el'.prevState = el.prevState ∧ cs = el'.triggeredChanges c.reason ∧
              s' = s.setElement c.flow i el') ∨
            (el.prevState = auStateStop ∧ el.state = auStateStart ∧
              el'.state = auStatePause ∧ el'.prevState = auStateStart ∧
              cs = el'.triggeredChanges auReasonUnderrun ∧
              s' = { s.setElement c.flow i el' with
                trace := s.trace ++ [.moved c.flow i auStateStart auStatePause] })))) := by
  obtain ⟨el, hel, h⟩ := Exec.bind_eq_ok.1 h
  rw [Exec.deref_eq_ok] at hel
  refine ⟨el, hel, ?_⟩
  split at h
  case isTrue hc =>
    cases h
    exact .inl ⟨by simpa using hc, rfl, rfl⟩
  case isFalse hc =>
    refine .inr ⟨by simpa using hc, ?_⟩
    obtain ⟨empty, hempty, h⟩ := Exec.bind_eq_ok.1 h
    split at h
    case isTrue he =>
      cases h
      subst he
      obtain ⟨hprev, hstate⟩ := emptyImport_true hempty
      exact ⟨el.clearStateChange.pauseEmpty, rfl, rfl, .inr ⟨hprev, hstate, rfl, rfl, rfl, rfl⟩⟩
    case isFalse he =>
      cases h
      exact ⟨el.clearStateChange, rfl, rfl, .inl ⟨rfl, rfl, rfl, rfl⟩⟩

theorem finishChange_cases {b : Bool} (h : finishChange env processFlow c b s = .ok s') :
    ∃ s₁ f, s₁ = (if b then s.setFlowState c.flow else s) ∧ s₁.flows.get c.flow = some f ∧
      ((¬ (processFlow ∧ f.state ≠ f.pendingState ∧ f.clocked) ∧ s' = s₁) ∨
        (f.state ≠ f.pendingState ∧ f.clocked ∧ auProcessClockedFlows env s₁ = .ok s')) := by
  obtain ⟨f, hf, h⟩ := Exec.bind_eq_ok.1 h
  refine ⟨_, f, rfl, Exec.deref_eq_ok.1 hf, ?_⟩
  split at h
  case isTrue hp =>
    split at h
    case isTrue hc => exact .inr ⟨hp.2, hc, h⟩
    case isFalse hc =>
      cases h
      exact .inl ⟨fun h => hc h.2.2, rfl⟩
  case isFalse hp =>
    cases h
    exact .inl ⟨fun h => hp ⟨h.1, h.2.1⟩, rfl⟩

/-- The list was walked, and either memory was lacking or the flows in it are up to date. -/
theorem auProcessClockedFlows_cases (h : auProcessClockedFlows env s = .ok s') :
    ∃ ps, LinkedList.walk s.flows.live s.links env.fuel s.auClockedFlows = .ok ps ∧
      ((compileFlows env.auAverageFlows (env.processMem s.processed) (fun _ => false)
          (ps.filterMap s.flows.get) = .ok none ∧ s' = { s with processed := s.processed + 1 }) ∨
        ∃ new, compileFlows env.auAverageFlows (env.processMem s.processed) (fun _ => false)
            (ps.filterMap s.flows.get) = .ok (some new) ∧
          s' = { s with
            processed := s.processed + 1
            flows := s.flows.modifyAll ps Flow.update
            auFlow := auStartFlow new }) := by
  obtain ⟨ps, hps, h⟩ := Exec.bind_eq_ok.1 h
  refine ⟨ps, hps, ?_⟩
  obtain ⟨r, hr, h⟩ := Exec.bind_eq_ok.1 h
  obtain ⟨new, hnew, hr⟩ := Exec.bind_eq_ok.1 hr
  cases new with
  | none =>
    cases hr
    cases h
    exact .inl ⟨hnew, rfl⟩
  | some new =>
    cases hr
    cases h
    exact .inr ⟨new, hnew, rfl⟩

theorem enterChange_eq_ok {nums : List Nat} {b : Bool} : enterChange env c s = .ok (nums, b, s') ↔
    c.elementNums s = .ok nums ∧ nums.foldlM (enterElement env c) (false, s) = .ok (b, s') := by
  simp only [enterChange, Exec.bind_eq_ok, Prod.exists, Except.ok.injEq, Prod.mk.injEq]
  constructor
  · rintro ⟨_, hn, _, _, hf, rfl, rfl, rfl⟩
    exact ⟨hn, hf⟩
  · rintro ⟨hn, hf⟩
    exact ⟨_, hn, _, _, hf, rfl, rfl, rfl⟩

end Parts

/-! ### What the cascade leaves as it is -/

section Static
variable {env : Env} {processFlow : Bool} {c : StateChange} {s s' : Server} {i : Nat}

theorem enterElement_static {b b' : Bool} (h : enterElement env c (b, s) i = .ok (b', s')) :
    SameStatic s s' := by
  obtain ⟨el, hel, ⟨-, -, rfl⟩ | ⟨-, -, -, el', comps, hfix, -, -, hcomps, rfl⟩⟩ := enterElement_cases h
  · exact .refl _
  · exact (SameStatic.setElement hel hfix).trans
      ((SameStatic.ofComps (s := s.setElement c.flow i el') hcomps).trans .ofTrace)

theorem enterChange_static {nums : List Nat} {b : Bool} (h : enterChange env c s = .ok (nums, b, s')) :
    SameStatic s s' :=
  Exec.foldlM_rel (R := fun x y : Bool × Server => SameStatic x.2 y.2) (fun x => .refl x.2)
    (fun _ _ _ h h' => h.trans h') (fun _ _ _ _ he => enterElement_static he) (enterChange_eq_ok.1 h).2

theorem visitElement_static {cs : List StateChange} (h : visitElement c i s = .ok (cs, s')) :
    SameStatic s s' := by
  obtain ⟨el, hel, ⟨-, -, rfl⟩ | ⟨-, el', hfix, -, h⟩⟩ := visitElement_cases h
  · exact .refl _
  · have hset := SameStatic.setElement hel hfix
    obtain ⟨-, -, -, rfl⟩ | ⟨-, -, -, -, -, rfl⟩ := h
    · exact hset
    · exact hset.trans .ofTrace

theorem auProcessClockedFlows_static (h : auProcessClockedFlows env s = .ok s') : SameStatic s s' := by
  obtain ⟨ps, -, ⟨-, rfl⟩ | ⟨new, -, rfl⟩⟩ := auProcessClockedFlows_cases h
  · exact ⟨fun _ => rfl, rfl, fun _ => rfl, rfl⟩
  · refine ⟨fun p => ?_, rfl, fun _ => rfl, rfl⟩
    simp only [Heap.get_modifyAll]
    split
    · cases s.flows.get p <;> simp
    · rfl

theorem finishChange_static {b : Bool} (h : finishChange env processFlow c b s = .ok s') :
    SameStatic s s' := by
  obtain ⟨s₁, f, rfl, -, h⟩ := finishChange_cases h
  have hset : SameStatic s (if b then s.setFlowState c.flow else s) := by
    cases b
    · exact .refl _
    · exact .setFlowState
  obtain ⟨-, rfl⟩ | ⟨-, -, h⟩ := h
  · exact hset
  · exact hset.trans (auProcessClockedFlows_static h)

theorem respects_sameStatic : (changeCascade env processFlow).Respects (fun _ _ => True) SameStatic where
  refl := .refl
  trans _ _ _ := .trans
  stable _ _ := trivial
  enter _ h := enterChange_static h
  visit _ h := ⟨visitElement_static h, fun _ _ => trivial⟩
  leave _ h := finishChange_static h

theorem auChangeElementState_static {n : Nat} (h : auChangeElementState env processFlow n c s = .ok s') :
    SameStatic s s' := by
  rw [auChangeElementState_eq] at h
  exact Cascade.run_rel respects_sameStatic trivial h

/-- An outermost call: the cascade, and the note of the states the flows are in now. -/
theorem changeElementState_eq_ok {b : Bool} : changeElementState env processFlow c s = .ok (b, s') ↔
    ∃ s₁ f, auChangeElementState env processFlow env.fuel c s = .ok s₁ ∧ s₁.flows.get c.flow = some f ∧
      b = decide (f.state ≠ f.pendingState) ∧ s' = { s₁ with trace := s₁.trace ++ [.returned s₁.flows] } := by
  simp only [changeElementState, Exec.bind_eq_ok, Server.flow, Exec.deref_eq_ok, Except.ok.injEq, Prod.mk.injEq]
  constructor
  · rintro ⟨s₁, hs, f, hf, rfl, rfl⟩
    exact ⟨s₁, f, hs, hf, rfl, rfl⟩
  · rintro ⟨s₁, f, hs, hf, rfl, rfl⟩
    exact ⟨s₁, hs, f, hf, rfl, rfl⟩

theorem changeElementState_static {b : Bool} (h : changeElementState env processFlow c s = .ok (b, s')) :
    SameStatic s s' := by
  obtain ⟨s₁, f, hs, -, -, rfl⟩ := changeElementState_eq_ok.1 h
  exact (auChangeElementState_static hs).trans .ofTrace

end Static

end Nas
