import Nas.SwapFraming

/-!
# There and back with `SwapElement`

`SwapElement` goes two ways: the elements of a request come in the byte order of the client and are brought into
that of the server (`swapElement`), and the elements of a reply go out in that of the client
(`swapElementOut`, which `auCopySwapElementWrite` calls on a copy). On the way in the counts can be read once they
are swapped, on the way out only before. `swapElement_involution` is about an element as a client of the other
byte order lays it out: the two undo each other, and agree about where it ends.
-/

namespace Nas

section
variable {m : List UInt8} {l k : List Field}

/-- Fields that do not overlap can be swapped in any order. -/
theorem swapAll_perm (hp : l.Perm k) (h : ∀ f ∈ l, f.Inside m) (hd : l.Pairwise fun f g => f.Before g ∨ g.Before f) :
    swapAll l m = swapAll k m := by
  induction hp generalizing m with
  | nil => rfl
  | cons f _ ih =>
    rw [swapAll_cons, swapAll_cons]
    exact ih (fun g hg => Field.inside_reverse.2 (h g (List.mem_cons_of_mem _ hg))) hd.of_cons
  | swap f g l =>
    have hfg := List.rel_of_pairwise_cons hd (List.mem_cons_self ..)
    rw [swapAll_cons, swapAll_cons, swapAll_cons, swapAll_cons, Field.reverse_comm (h f (by simp)) (h g (by simp)) hfg.symm]
  | trans hp _ ih₁ ih₂ =>
    rw [ih₁ h hd]
    refine ih₂ (fun f hf => h f (hp.mem_iff.2 hf)) ?_
    exact (hp.pairwise_iff fun {f g} hfg => hfg.symm).1 hd

end

namespace SwapRequests
open Elements Requests AuStatus

section
variable (o : ByteOrder)

/-- `SwapElement` of an outgoing element. Its counts are read before they are swapped, and its type is swapped
last. -/
def swapElementOut (e : Nat) (s : Swapping) : Exec (Option Int × Swapping) := do
  let type ← o.load 2 s.mem e
  match swapCase type with
  | none => .ok (none, s)
  | some (fixed, varData) => do
    match varData with
    | .nothing => do
      let s ← swapFields (fixed.map (Field.shift e)) s
      let s ← swap s ⟨e, 2⟩
      .ok (some ((e + sizeofAuElement : Nat) : Int), s)
    | .tracks => do
      let num ← o.load 2 s.mem (e + 2)
      let s ← swapFields (fixed.map (Field.shift e)) s
      let s ← swap s ⟨e, 2⟩
      .ok (some ((e + sizeofAuElement + num * sizeofAuInputTrack : Nat) : Int), s)
    | .inputs => do
      let num ← o.load 2 s.mem (e + 2)
      -- SwapShorts
      let s ← swapFields (spaced (e + sizeofAuElement) sizeofCARD16 2 num) s
      let s ← swapFields (fixed.map (Field.shift e)) s
      let s ← swap s ⟨e, 2⟩
      .ok (some ((e + sizeofAuElement + pad4 (num * sizeofCARD16) : Nat) : Int), s)
    | .actions off => do
      -- all but num_actions
      let s ← swapFields (fixed.dropLast.map (Field.shift e)) s
      let num ← o.load 4 s.mem (e + off)
      let na := asInt32 num
      let s ← swap s ⟨e + off, 4⟩
      let s ← swapFields (spaced (e + sizeofAuElement) sizeofAuElementAction 4 na.toNat) s
      let s ← swap s ⟨e, 2⟩
      .ok (some ((e + sizeofAuElement : Nat) + na * sizeofAuElementAction), s)

/-- `AuCopySwapElementWrite`: what is written to the client of the bytes from `p` on, when there is memory for the
copy. What `SwapElement` returns is not looked at. -/
def auCopySwapElementWrite (memory : Bool) (p : List UInt8) : Exec (List UInt8) :=
  if ¬ memory then .ok []
  else do
    let (_, s) ← swapElementOut o 0 { mem := p }
    .ok s.mem

end

/-- An element and what is behind it, in the byte order of its client. A size is an `int`. -/
structure ElementRecord (c : ByteOrder) where
  bytes : List UInt8
  element : IsElement c bytes
  length_lt : bytes.length < 2 ^ 31

section
variable {o : ByteOrder} {m r pre post : List UInt8} {type off p n : Nat} {l : List Field}

/-- The last number of the fixed part is that of the actions. -/
theorem elementNumbers_actions (h : actionsAt type = some off) :
    elementNumbers type = (elementNumbers type).dropLast ++ [⟨off, 4⟩] := by
  have hall : ∀ type < 14, ∀ off ∈ actionsAt type, elementNumbers type = (elementNumbers type).dropLast ++ [⟨off, 4⟩] := by
    decide
  refine hall type ?_ off h
  by_contra ht
  rw [actionsAt, if_neg, if_neg, if_neg, if_neg, if_neg, if_neg, if_neg] at h
  · cases h
  all_goals
    rintro rfl
    exact ht (by decide)

theorem itemsAt_middle (pre post : List UInt8) (h : headerSize (typeAt o r 0) ≤ r.length) :
    itemsAt o (pre ++ r ++ post) pre.length = itemsAt o r 0 := by
  have h2 := two_le_headerSize (typeAt o r 0)
  unfold itemsAt
  rw [typeAt_middle pre post (by omega), numActionsAt_middle pre post h]
  by_cases hs : typeAt o r 0 = sum
  · have hsize : headerSize (typeAt o r 0) = 4 := by
      rw [hs]
      decide
    rw [if_pos hs, if_pos hs, ByteOrder.read_middle (by omega), Nat.zero_add]
  · rw [if_neg hs, if_neg hs]

/-- Fields that are swapped after some others. -/
theorem swapFields_after {k : List Field} (h : ∀ f ∈ l, f.Inside m) :
    swapFields l { mem := swapAll k m, swapped := k } = .ok { mem := swapAll (k ++ l) m, swapped := k ++ l } := by
  rw [swapFields_ok fun f hf => inside_swapAll.2 (h f hf), swapAll_append]

theorem swap_after {k : List Field} {f : Field} (h : f.Inside m) :
    swap { mem := swapAll k m, swapped := k } f = .ok { mem := swapAll (k ++ [f]) m, swapped := k ++ [f] } := by
  rw [swap_ok (inside_swapAll.2 h), swapAll_append]
  rfl

theorem inside_of_element (hn : varBytes o m p = some n) (hin : p + n + sizeofAuElement ≤ m.length) :
    Field.Inside m ⟨p, 2⟩ ∧ (∀ f ∈ (elementNumbers (typeAt o m p)).map (Field.shift p), f.Inside m) ∧
      ∀ f ∈ itemFields (typeAt o m p) p (itemsAt o m p), f.Inside m := by
  have hinside : ∀ f ∈ fieldsOfElement (typeAt o m p) p (itemsAt o m p), f.Inside m :=
    fun f hf => ((fieldsOfElement_bounds hn).2 f hf).2.trans hin
  refine ⟨hinside _ List.mem_cons_self, fun f hf => hinside f ?_, fun f hf => hinside f ?_⟩
  · exact List.mem_append_left _ (List.mem_cons_of_mem _ hf)
  · exact List.mem_append_right _ hf

/-- What follows once all but the type of an element is swapped. -/
def swapsType (p n : Nat) (r : Exec (Option Int × Swapping)) (l : List Field) (m : List UInt8) : Prop :=
  r = .ok (some ((p + n + sizeofAuElement : Nat) : Int), { mem := swapAll (l ++ [⟨p, 2⟩]) m, swapped := l ++ [⟨p, 2⟩] })

/-- An outgoing element with actions. Their number is behind all that was swapped before it is read. -/
theorem swapElementOut_actions (ha : actionsAt (typeAt o m p) = some off) (hn : varBytes o m p = some n)
    (hin : p + n + sizeofAuElement ≤ m.length) (hsmall : n < 2 ^ 31) :
    swapsType p n (swapElementOut o p { mem := m }) ((elementNumbers (typeAt o m p)).map (Field.shift p) ++
      itemFields (typeAt o m p) p (itemsAt o m p)) m := by
  obtain ⟨htype, hfix, hitems⟩ := inside_of_element hn hin
  have hlast := elementNumbers_actions ha
  have hsum : typeAt o m p ≠ sum := by
    rintro hs
    rw [hs] at ha
    cases ha
  have hacts : numActionsAt o m p = o.read 4 m (p + off) := by rw [numActionsAt, ha]
  have hcount : itemsAt o m p = o.read 4 m (p + off) := by rw [itemsAt, if_neg hsum, hacts]
  have hsize : n = o.read 4 m (p + off) * sizeofAuElementAction := by
    rw [varBytes] at hn
    rw [if_pos (by rw [ha]; rfl), hacts] at hn
    exact (Option.some.inj hn).symm
  have hna : asInt32 (o.read 4 m (p + off)) = (o.read 4 m (p + off) : Nat) := by
    refine asInt32_small ?_
    unfold sizeofAuElementAction at hsize
    omega
  have hspaced : itemFields (typeAt o m p) p (itemsAt o m p) =
      spaced (p + sizeofAuElement) sizeofAuElementAction 4 (o.read 4 m (p + off)) := by
    rw [itemFields, if_pos (by rw [ha]; rfl), hcount]
  have hnum : Field.Inside m ⟨p + off, 4⟩ := hfix (Field.shift p ⟨off, 4⟩) (List.mem_map_of_mem (numActions_mem ha))
  have hinit : ∀ f ∈ (elementNumbers (typeAt o m p)).dropLast.map (Field.shift p), f.Inside m := by
    intro f hf
    obtain ⟨g, hg, rfl⟩ := List.mem_map.1 hf
    exact hfix _ (List.mem_map_of_mem (List.dropLast_subset _ hg))
  have hread : o.load 4 (swapAll ((elementNumbers (typeAt o m p)).dropLast.map (Field.shift p)) m) (p + off) =
      .ok (o.read 4 m (p + off)) := by
    have hord : Ordered ((elementNumbers (typeAt o m p)).map (Field.shift p)) :=
      ordered_shift (List.pairwise_cons.1 (elementNumbers_bounds _).1).2 p
    rw [hlast, List.map_append] at hord
    have hbefore := (List.pairwise_append.1 hord).2.2
    rw [ByteOrder.load_ok (inside_swapAll.2 hnum), read_swapAll_of_disjoint hinit]
    intro f hf
    exact .inr (hbefore f hf _ (List.mem_singleton_self _))
  have hall : (elementNumbers (typeAt o m p)).map (Field.shift p) =
      (elementNumbers (typeAt o m p)).dropLast.map (Field.shift p) ++ [⟨p + off, 4⟩] := by
    conv_lhs => rw [hlast]
    rw [List.map_append]
    rfl
  rw [hspaced] at hitems
  have hstart : ({ mem := m } : Swapping) = { mem := swapAll [] m, swapped := [] } := rfl
  rw [swapsType, hspaced, hall, swapElementOut, ByteOrder.load_ok htype, Exec.ok_bind, swapCase_eq]
  rw [show o.read 2 m p = typeAt o m p from rfl, ha]
  dsimp only
  rw [hstart, swapFields_after hinit, Exec.ok_bind, List.nil_append, hread, Exec.ok_bind]
  rw [swap_after hnum, Exec.ok_bind, hna, Int.toNat_natCast, swapFields_after hitems, Exec.ok_bind, swap_after htype,
    Exec.ok_bind, hsize]
  congr 3
  push_cast
  omega

/-- An outgoing element without. -/
theorem swapElementOut_inputs (ha : actionsAt (typeAt o m p) = none) (hn : varBytes o m p = some n)
    (hin : p + n + sizeofAuElement ≤ m.length) :
    ∃ l, l.Perm ((elementNumbers (typeAt o m p)).map (Field.shift p) ++ itemFields (typeAt o m p) p (itemsAt o m p)) ∧
      swapsType p n (swapElementOut o p { mem := m }) l m := by
  obtain ⟨htype, hfix, hitems⟩ := inside_of_element hn hin
  have hstart : ({ mem := m } : Swapping) = { mem := swapAll [] m, swapped := [] } := rfl
  have hno : ¬ (actionsAt (typeAt o m p)).isSome = true := by rw [ha]; exact Bool.false_ne_true
  have hload : ⟨2, 2⟩ ∈ elementNumbers (typeAt o m p) → o.load 2 m (p + 2) = .ok (o.read 2 m (p + 2)) :=
    fun hf => ByteOrder.load_ok (hfix (Field.shift p ⟨2, 2⟩) (List.mem_map_of_mem hf))
  have hnone : typeAt o m p ≠ sum → itemFields (typeAt o m p) p (itemsAt o m p) = [] := by
    intro hs
    rw [itemFields, if_neg hno, if_neg hs]
  rw [varBytes] at hn
  rw [if_neg hno] at hn
  rw [swapElementOut, ByteOrder.load_ok htype, Exec.ok_bind, swapCase_eq]
  rw [show o.read 2 m p = typeAt o m p from rfl, ha]
  dsimp only
  by_cases hb : typeAt o m p = bundle
  · rw [if_pos hb] at hn
    refine ⟨(elementNumbers (typeAt o m p)).map (Field.shift p), ?_, ?_⟩
    · rw [hnone (by rw [hb]; decide), List.append_nil]
    · rw [swapsType, if_pos hb]
      dsimp only
      rw [hload (by rw [hb]; decide), Exec.ok_bind, hstart, swapFields_after hfix, Exec.ok_bind, List.nil_append,
        swap_after htype, Exec.ok_bind, ← Option.some.inj hn]
      congr 3
      omega
  rw [if_neg hb] at hn
  rw [if_neg hb]
  by_cases hs : typeAt o m p = sum
  · rw [if_pos hs] at hn
    have hspaced : itemFields (typeAt o m p) p (itemsAt o m p) =
        spaced (p + sizeofAuElement) sizeofCARD16 2 (o.read 2 m (p + 2)) := by
      rw [itemFields, if_neg hno, if_pos hs, itemsAt, if_pos hs]
    rw [hspaced] at hitems
    refine ⟨spaced (p + sizeofAuElement) sizeofCARD16 2 (o.read 2 m (p + 2)) ++
      (elementNumbers (typeAt o m p)).map (Field.shift p), ?_, ?_⟩
    · rw [hspaced]
      exact List.perm_append_comm
    · rw [swapsType, if_pos hs]
      dsimp only
      rw [hload (by rw [hs]; decide), Exec.ok_bind, hstart, swapFields_after hitems, Exec.ok_bind, List.nil_append,
        swapFields_after hfix, Exec.ok_bind, swap_after htype, Exec.ok_bind, ← Option.some.inj hn]
      congr 3
      omega
  rw [if_neg hs] at hn
  rw [if_neg hs]
  split at hn
  · rename_i hk
    refine ⟨(elementNumbers (typeAt o m p)).map (Field.shift p), ?_, ?_⟩
    · rw [hnone hs, List.append_nil]
    · rw [swapsType, if_pos hk]
      dsimp only
      rw [hstart, swapFields_after hfix, Exec.ok_bind, List.nil_append, swap_after htype, Exec.ok_bind,
        ← Option.some.inj hn]
      rfl
  · cases hn

/-- An outgoing element has all its numbers swapped. -/
theorem swapElementOut_ok (hn : varBytes o m p = some n) (hin : p + n + sizeofAuElement ≤ m.length) (hsmall : n < 2 ^ 31) :
    ∃ l, swapElementOut o p { mem := m } = .ok (some ((p + n + sizeofAuElement : Nat) : Int),
      { mem := swapAll (fieldsOfElement (typeAt o m p) p (itemsAt o m p)) m, swapped := l }) := by
  obtain ⟨hord, hbound⟩ := fieldsOfElement_bounds hn
  obtain ⟨l, hperm, hout⟩ : ∃ l, l.Perm ((elementNumbers (typeAt o m p)).map (Field.shift p) ++
      itemFields (typeAt o m p) p (itemsAt o m p)) ∧ swapsType p n (swapElementOut o p { mem := m }) l m := by
    rcases ha : actionsAt (typeAt o m p) with - | off
    · exact swapElementOut_inputs ha hn hin
    · exact ⟨(elementNumbers (typeAt o m p)).map (Field.shift p) ++ itemFields (typeAt o m p) p (itemsAt o m p),
        List.Perm.refl _, swapElementOut_actions ha hn hin hsmall⟩
  have hall : (l ++ [(⟨p, 2⟩ : Field)]).Perm (fieldsOfElement (typeAt o m p) p (itemsAt o m p)) :=
    (List.perm_append_singleton _ _).trans (hperm.cons _)
  have hmem : swapAll (fieldsOfElement (typeAt o m p) p (itemsAt o m p)) m = swapAll (l ++ [⟨p, 2⟩]) m :=
    swapAll_perm hall.symm (fun f hf => (hbound f hf).2.trans hin) (hord.imp Or.inl)
  exact ⟨_, hout.trans (by rw [hmem])⟩

/-- An incoming element has them swapped, too. -/
theorem swapElement_ok (hn : varBytes o.other m p = some n) (hin : p + n + sizeofAuElement ≤ m.length) (hsmall : n < 2 ^ 31) :
    swapElement o p { mem := m } = .ok (some ((p + n + sizeofAuElement : Nat) : Int),
      { mem := swapAll (fieldsOfElement (typeAt o.other m p) p (itemsAt o.other m p)) m,
        swapped := fieldsOfElement (typeAt o.other m p) p (itemsAt o.other m p) }) := by
  obtain ⟨hord, hbound⟩ := fieldsOfElement_bounds hn
  have hinside : ∀ f ∈ fieldsOfElement (typeAt o.other m p) p (itemsAt o.other m p), f.Inside m :=
    fun f hf => (hbound f hf).2.trans hin
  have hspan : elementSpan o.other m p =
      some (fieldsOfElement (typeAt o.other m p) p (itemsAt o.other m p), ((p + n + sizeofAuElement : Nat) : Int)) := by
    exact elementSpan_eq hn hsmall
  have hbody := elementBody_spans (o := o) p { mem := m }
  rw [hspan, Exec.deref_some, Exec.ok_bind] at hbody
  dsimp only at hbody
  rw [swapFields_ok hinside, Exec.ok_bind, elementBody, if_neg (by omega), Int.toNat_natCast] at hbody
  rcases hs : swapElement o p { mem := m } with e | ⟨next, t⟩
  · rw [hs] at hbody
    cases hbody
  · rw [hs, Exec.ok_bind] at hbody
    rcases next with - | next
    · cases hbody
    · cases hbody
      rfl

/-- An element that comes in with something in front of it and behind it is where the server takes it to be once
it is swapped, and what goes out is what came in. -/
theorem swapElement_involution (o : ByteOrder) (r : ElementRecord o.other) (pre post : List UInt8) :
    ∃ (e : Int) (s t : Swapping) (n : Nat),
      swapElement o pre.length { mem := pre ++ r.bytes ++ post } = .ok (some e, s) ∧
      swapElementOut o pre.length { mem := s.mem } = .ok (some e, t) ∧
      t.mem = pre ++ r.bytes ++ post ∧
      varBytes o s.mem pre.length = some n ∧ e = pre.length + sizeofAuElement + n := by
  obtain ⟨bytes, ⟨n, hn, hlen⟩, hlt⟩ := r
  dsimp only
  have hhead := (IsElement.header ⟨n, hn, hlen⟩ : headerSize (typeAt o.other bytes 0) ≤ bytes.length)
  have hsmall : n < 2 ^ 31 := by
    unfold sizeofAuElement at hlen
    omega
  have hvar : varBytes o.other (pre ++ bytes ++ post) pre.length = some n := (varBytes_middle pre post hhead).trans hn
  generalize hm : pre ++ bytes ++ post = m at hvar ⊢
  have hin : pre.length + n + sizeofAuElement ≤ m.length := by
    rw [← hm, List.length_append, List.length_append]
    omega
  have hfields := fieldsOfElement_bounds hvar
  generalize hf : fieldsOfElement (typeAt o.other m pre.length) pre.length (itemsAt o.other m pre.length) = fields at hfields
  have hinside : ∀ f ∈ fields, f.Inside m := fun f hf => (hfields.2 f hf).2.trans hin
  -- what the server reads of the element that came in
  have hread := varBytes_swapAll hfields.1 hinside fun f hmem => hf ▸ hmem
  rw [ByteOrder.other_other] at hread
  obtain ⟨htype, -, hvar', hitems⟩ := hread
  obtain ⟨l, hout⟩ := swapElementOut_ok (hvar'.trans hvar) (by rw [length_swapAll]; exact hin) hsmall
  have hback : swapAll fields (swapAll fields m) = m := by
    have := @swapAll_cancel m fields [] (by rw [List.append_nil]; exact hfields.1)
      (by rw [List.append_nil]; exact hinside)
    rwa [List.append_nil] at this
  rw [htype, hitems, hf, hback] at hout
  refine ⟨_, _, { mem := m, swapped := l }, n, swapElement_ok hvar hin hsmall, ?_, rfl, ?_, ?_⟩
  · rw [hf]
    exact hout
  · rw [hf]
    exact hvar'.trans hvar
  · push_cast
    omega

/-- A sum of the first element alone, as it comes from a client of the other byte order. -/
example : let r := [0, 8, 0, 1] ++ List.replicate 20 0 ++ [0, 2, 0, 0]
    IsElement ByteOrder.big r ∧ swapElement .little 0 { mem := r } =
      .ok (some 28, { mem := [8, 0, 1, 0] ++ List.replicate 20 0 ++ [2, 0, 0, 0], swapped := [⟨0, 2⟩, ⟨2, 2⟩, ⟨24, 2⟩] }) :=
  ⟨⟨4, by decide, by decide⟩, by decide⟩

/-- An element of a reply is written as a client of the other byte order lays it out. -/
theorem auCopySwapElementWrite_foreign (r : ElementRecord o) :
    ∃ b, auCopySwapElementWrite o true r.bytes = .ok b ∧ b.length = r.bytes.length ∧ IsElement o.other b ∧
      swapAll (fieldsOfElement (typeAt o r.bytes 0) 0 (itemsAt o r.bytes 0)) b = r.bytes := by
  obtain ⟨bytes, ⟨n, hn, hlen⟩, hlt⟩ := r
  dsimp only
  have hin : 0 + n + sizeofAuElement ≤ bytes.length := by omega
  have hsmall : n < 2 ^ 31 := by
    unfold sizeofAuElement at hlen
    omega
  have hfields := fieldsOfElement_bounds hn
  have hinside : ∀ f ∈ fieldsOfElement (typeAt o bytes 0) 0 (itemsAt o bytes 0), f.Inside bytes :=
    fun f hf => (hfields.2 f hf).2.trans hin
  obtain ⟨-, -, hvar, -⟩ := varBytes_swapAll hfields.1 hinside fun f hmem => hmem
  obtain ⟨l, hout⟩ := swapElementOut_ok hn hin hsmall
  refine ⟨_, ?_, length_swapAll, ⟨n, hvar.trans hn, by rw [length_swapAll, hlen]⟩, ?_⟩
  · rw [auCopySwapElementWrite, if_neg (by decide), hout, Exec.ok_bind]
  · have := @swapAll_cancel bytes (fieldsOfElement (typeAt o bytes 0) 0 (itemsAt o bytes 0)) []
      (by rw [List.append_nil]; exact hfields.1) (by rw [List.append_nil]; exact hinside)
    rwa [List.append_nil] at this

end

end SwapRequests

end Nas
