import Culsans.Coherence.Copies

/-! # Coherence of every reachable state

Each operation takes every line from one coherent state to the next: the line it is
about by the protocol, the victim's line by a write-back or a clean drop, and every
other line unchanged.
-/

namespace Culsans.Coherence.System
open Dcache Library

variable {N : ℕ} {c : Cfg} {s : System N} {i : Fin N} {l : PAddr}

/-- The copies of a line, core by core. -/
def copies (s : System N) (l : PAddr) : Fin N → Option (Copy (Fin 16) Byte) := fun j => copyOf (s.cache j) l

/-- The line in memory. -/
def line (s : System N) (l : PAddr) : LineData := s.mem l.tag l.index

/-- No array holds a line twice. -/
abbrev Unique (s : System N) : Prop := ∀ j, UniqueTags (s.cache j)

structure Inv (s : System N) : Prop where
  unique : s.Unique
  coherent : ∀ l, Coherent (s.copies l) (s.line l)

/-! ### Effects of the building blocks -/

theorem copies_setCache (s : System N) (i : Fin N) (a : CacheArray) (l : PAddr) (j : Fin N) :
    (s.setCache i a).copies l j = if j = i then copyOf a l else s.copies l j := by
  simp only [copies, setCache]
  split_ifs <;> rfl

@[simp] theorem line_setCache (s : System N) (i : Fin N) (a : CacheArray) (l : PAddr) :
    (s.setCache i a).line l = s.line l := rfl

@[simp] theorem copies_writeMem (s : System N) (l' : PAddr) (be : LineBe) (d : LineData) (l : PAddr) :
    (s.writeMem l' be d).copies l = s.copies l := rfl

theorem line_writeMem_same (s : System N) {l l' : PAddr} (h : Same l l') (be : LineBe) (d : LineData) :
    (s.writeMem l be d).line l' = merge be d (s.line l') := by
  simp [line, writeMem, h.1, h.2]

theorem line_writeMem_other (s : System N) {l l' : PAddr} (h : ¬ Same l l') (be : LineBe) (d : LineData) :
    (s.writeMem l be d).line l' = s.line l' := by
  simp only [line, writeMem]
  exact if_neg h

theorem copies_same {l' : PAddr} (h : Same l l') : s.copies l' = s.copies l :=
  funext fun _ => copyOf_same h

theorem line_same {l' : PAddr} (h : Same l l') : s.line l' = s.line l := by
  rw [line, line, h.1, h.2]

theorem unique_setCache (hu : s.Unique) {a : CacheArray} (ha : UniqueTags a) : (s.setCache i a).Unique := by
  intro j
  simp only [setCache]
  split_ifs
  · exact ha
  · exact hu j

/-! ### Write-backs and clearing -/

theorem unique_writeBack (hu : s.Unique) (q : MissHandler) : (s.writeBack c i q).Unique :=
  unique_setCache hu (unique_clear (hu i) q.cnt q.evictWay)

/-- A write-back of a valid way: its line is given up, the others are untouched. -/
theorem inv_writeBack (h : s.Inv) {q : MissHandler} {w : Way} (hb : q.writingBack = true)
    (hw : q.evictWay = oneHot w) (hv : (s.cache i q.cnt w).valid = true)
    (ht : q.evictCl.tag = (s.cache i q.cnt w).tag) (hd : q.evictCl.data = (s.cache i q.cnt w).data)
    (hdy : q.evictCl.dirty = (s.cache i q.cnt w).dirty) : (s.writeBack c i q).Inv := by
  obtain ⟨hadr, hbe, hdat⟩ := MissHandler.axiReq_back (c := c) hb
  have hhas : Has (s.cache i) ⟨q.evictCl.tag, q.cnt, 0⟩ w := ⟨hv, ht.symm⟩
  refine ⟨unique_writeBack h.unique q, fun l => ?_⟩
  rw [writeBack, hadr, hbe, hdat, copies_writeMem]
  by_cases hs : Same ⟨q.evictCl.tag, q.cnt, 0⟩ l
  · rw [line_writeMem_same _ hs, line_setCache]
    have hcopy : s.copies l i = some (toCopy (s.cache i q.cnt w)) := by
      rw [copies_same hs]
      exact copyOf_of_has (h.unique i) hhas
    rw [hd, hdy]
    refine (h.coherent l).writeBack hcopy ?_ fun k hk => by rw [copies_setCache, if_neg hk]
    rw [copies_same hs, copies_setCache, if_pos rfl, hw]
    exact copyOf_clear_own (h.unique i) hhas
  · rw [line_writeMem_other _ hs, line_setCache]
    have hsame : (s.setCache i ((s.cache i).write (MissHandler.clearStatus q.cnt q.evictWay))).copies l =
        s.copies l := by
      funext j
      rw [copies_setCache]
      split_ifs with hj
      · rw [hj]
        refine copyOf_clear_other (h.unique i) fun v hi hv' hh => hs ⟨?_, hi⟩
        have hvw : v = w := by simpa [hw, oneHot] using hv'
        rw [← hh.2, hi, hvw]
        exact ht.symm
      · rfl
    rw [hsame]
    exact h.coherent l

/-- Ways without dirty bytes may be cleared. -/
theorem inv_clear (h : s.Inv) {idx : Index} {ways : WaySet}
    (hd : ∀ w, ways w = true → (s.cache i idx w).valid = true → ∀ b, (s.cache i idx w).dirty b = false) :
    (s.setCache i ((s.cache i).write (MissHandler.clearStatus idx ways))).Inv := by
  refine ⟨unique_setCache h.unique (unique_clear (h.unique i) idx ways), fun l => ?_⟩
  rw [line_setCache]
  by_cases hw : ∃ w, l.index = idx ∧ ways w = true ∧ Has (s.cache i) l w
  · obtain ⟨w, rfl, hway, hh⟩ := hw
    refine (h.coherent l).drop (i := i) ?_ (fun k hk => by rw [copies_setCache, if_neg hk]) fun m hm b => ?_
    · rw [copies_setCache, if_pos rfl]
      refine copyOf_eq_none.mpr fun v hv => ?_
      rw [has_clear] at hv
      exact hv.2 ⟨rfl, by rw [hh.unique (h.unique i) hv.1]; exact hway⟩
    · have hcopy : s.copies l i = some (toCopy (s.cache i l.index w)) := copyOf_of_has (h.unique i) hh
      rw [hcopy] at hm
      cases hm
      exact hd w hway hh.1 b
  · have hsame : (s.setCache i ((s.cache i).write (MissHandler.clearStatus idx ways))).copies l = s.copies l := by
      funext j
      rw [copies_setCache]
      split_ifs with hj
      · rw [hj]
        exact copyOf_clear_other (h.unique i) fun w hi hway hh => hw ⟨w, hi, hway, hh⟩
      · rfl
    rw [hsame]
    exact h.coherent l

theorem unique_evict (hu : s.Unique) (idx : Index) (w : Way) : (s.evict c i idx w).Unique := by
  unfold evict
  split_ifs
  · exact unique_writeBack hu _
  · exact hu

theorem inv_evict (h : s.Inv) (idx : Index) (w : Way) : (s.evict c i idx w).Inv := by
  unfold evict
  split_ifs with hd
  · rw [Bool.and_eq_true] at hd
    exact inv_writeBack h rfl rfl hd.1 rfl rfl rfl
  · exact h

theorem unique_flushSet (hu : s.Unique) (idx : Index) : (s.flushSet c i idx).Unique := by
  unfold flushSet
  cases hd : anyWay (MissHandler.dirtyWay (missIn (s.cache i) idx ⟨0, 0, 0⟩))
  · have hn : ¬ ((if idx == 255 then MissState.idle else .flushReqStatus) = .wbCachelineFlush) := by
      split_ifs <;> simp
    simp only [MissHandler.step, MissHandler.stepFlushing, MissHandler.port, hd, MissHandler.reset,
      Bool.false_eq_true, if_false, hn]
    exact unique_setCache hu (unique_clear (hu i) _ _)
  · simp only [MissHandler.step, MissHandler.stepFlushing, hd, if_true]
    exact unique_writeBack hu _

theorem inv_flushSet (h : s.Inv) (idx : Index) : (s.flushSet c i idx).Inv := by
  unfold flushSet
  cases hd : anyWay (MissHandler.dirtyWay (missIn (s.cache i) idx ⟨0, 0, 0⟩))
  · have hn : ¬ ((if idx == 255 then MissState.idle else .flushReqStatus) = .wbCachelineFlush) := by
      split_ifs <;> simp
    simp only [MissHandler.step, MissHandler.stepFlushing, MissHandler.port, hd, MissHandler.reset,
      Bool.false_eq_true, if_false, hn]
    refine inv_clear h fun w _ hv b => ?_
    have hw := anyWay_eq_false_iff.mp hd w
    simp only [MissHandler.dirtyWay, missIn, hv, Bool.true_and] at hw
    exact anyByte_eq_false_iff.mp hw b
  · simp only [MissHandler.step, MissHandler.stepFlushing, hd, if_true]
    have hv := oneHotToBin_spec hd
    simp only [MissHandler.dirtyWay, missIn, Bool.and_eq_true] at hv
    exact inv_writeBack h rfl rfl hv.1 rfl rfl rfl

/-- AMO_WB finds no own copy, clears a clean one or writes a dirty one back. -/
theorem dropOwn_cases (s : System N) (i : Fin N) (l : PAddr) :
    (s.copies l i = none ∧ s.dropOwn c i l = s) ∨ ∃ w, Has (s.cache i) l w ∧
      ((anyByte (s.cache i l.index w).dirty = false ∧
          s.dropOwn c i l = s.setCache i ((s.cache i).write (MissHandler.clearStatus l.index (oneHot w)))) ∨
        ∃ q : MissHandler, q.writingBack = true ∧ q.evictWay = oneHot w ∧ q.cnt = l.index ∧
          q.evictCl = s.cache i l.index w ∧ s.dropOwn c i l = s.writeBack c i q) := by
  unfold dropOwn
  cases hw : MissHandler.amoWay (missIn (s.cache i) l.index l) with
  | none =>
    have hnone : s.copies l i = none := by
      refine copyOf_eq_none.mpr fun w hh => ?_
      have hf := List.find?_eq_none.mp hw w (List.mem_finRange w)
      have hv : (s.cache i l.index w).valid = true := hh.1
      have ht : (s.cache i l.index w).tag = l.tag := hh.2
      simp [missIn, hv, ht] at hf
    have hsame : s.setCache i ((s.cache i).write .idle) = s := by
      rw [CacheArray.write_of_not_we rfl]
      simp only [setCache]
      congr 1
      funext j
      split_ifs with hj
      · rw [hj]
      · rfl
    simp only [MissHandler.step, MissHandler.stepAmoWb, MissHandler.port, hw, reduceCtorEq, if_false, hsame]
    exact .inl ⟨hnone, trivial⟩
  | some w =>
    have hf := List.find?_some hw
    simp only [missIn, Bool.and_eq_true, beq_iff_eq] at hf
    refine .inr ⟨w, hf, ?_⟩
    cases hd : anyByte (s.cache i l.index w).dirty
    · have hd' : anyByte ((missIn (s.cache i) l.index l).rdata w).dirty = false := hd
      simp only [MissHandler.step, MissHandler.stepAmoWb, MissHandler.port, hw, hd', Bool.false_eq_true,
        if_false, reduceCtorEq]
      exact .inl ⟨trivial, rfl⟩
    · have hd' : anyByte ((missIn (s.cache i) l.index l).rdata w).dirty = true := hd
      simp only [MissHandler.step, MissHandler.stepAmoWb, hw, hd', if_true]
      exact .inr ⟨_, rfl, rfl, rfl, rfl, rfl⟩

theorem unique_dropOwn (hu : s.Unique) (l : PAddr) : (s.dropOwn c i l).Unique := by
  rcases dropOwn_cases (c := c) s i l with ⟨-, he⟩ | ⟨w, -, ⟨-, he⟩ | ⟨q, -, -, -, -, he⟩⟩
  · rwa [he]
  · rw [he]
    exact unique_setCache hu (unique_clear (hu i) _ _)
  · rw [he]
    exact unique_writeBack hu q

/-- AMO_WB leaves no own copy. -/
theorem copies_dropOwn (hu : s.Unique) (l : PAddr) : (s.dropOwn c i l).copies l i = none := by
  rcases dropOwn_cases (c := c) s i l with ⟨hnone, he⟩ | ⟨w, hh, ⟨-, he⟩ | ⟨q, -, hw, hcnt, -, he⟩⟩
  · rwa [he]
  · rw [he, copies_setCache, if_pos rfl]
    exact copyOf_clear_own (hu i) hh
  · rw [he, writeBack, copies_writeMem, copies_setCache, if_pos rfl, hw, hcnt]
    exact copyOf_clear_own (hu i) hh

theorem inv_dropOwn (h : s.Inv) (l : PAddr) : (s.dropOwn c i l).Inv := by
  rcases dropOwn_cases (c := c) s i l with ⟨-, he⟩ | ⟨w, hh, ⟨hd, he⟩ | ⟨q, hb, hw, hcnt, hcl, he⟩⟩
  · rwa [he]
  · rw [he]
    refine inv_clear h fun v hv _ b => ?_
    have hvw : v = w := by simpa [oneHot] using hv
    rw [hvw]
    exact anyByte_eq_false_iff.mp hd b
  · rw [he]
    refine inv_writeBack h hb hw ?_ ?_ ?_ ?_ <;> rw [hcnt]
    · exact hh.1
    · rw [hcl]
    · rw [hcl]
    · rw [hcl]

/-! ### Transactions of the coherence unit -/

theorem dataAvailable_iff {k : AcSnoop} :
    s.dataAvailable i k l = true ↔ ∃ j, s.responds i k l j = true := by
  simp [dataAvailable]

theorem responds_first {k : AcSnoop} (h : s.dataAvailable i k l = true) (first : Fin N) :
    s.responds i k l (s.firstResponder i k l first) = true := by
  unfold firstResponder
  split_ifs with hf
  · exact hf
  · obtain ⟨j, hj⟩ := dataAvailable_iff.mp h
    cases hfind : (List.finRange N).find? (s.responds i k l) with
    | none => exact absurd hj (List.find?_eq_none.mp hfind j (List.mem_finRange j))
    | some v => exact List.find?_some hfind

/-- A responder holds the line, and its data is returned. -/
theorem copy_of_responds (hu : s.Unique) {k : AcSnoop} {j : Fin N} (hj : s.responds i k l j = true) :
    j ≠ i ∧ ∃ m, s.copies l j = some m ∧ (snooped (s.cache j) k l).cacheData = m.data ∧
      (evalFlags k true (anyByte m.dirty) m.shared).crResp.dataTransfer = true := by
  simp only [responds, Bool.and_eq_true, Bool.not_eq_true', beq_eq_false_iff_ne] at hj
  obtain ⟨⟨hji, hdt⟩, -⟩ := hj
  refine ⟨hji, ?_⟩
  cases hc : copyOf (s.cache j) l with
  | none =>
    rw [snooped_none k hc] at hdt
    simp [CrResp.zero] at hdt
  | some m =>
    obtain ⟨hcr, hcd⟩ := snooped_some (hu j) k hc
    rw [hcr] at hdt
    exact ⟨m, hc, hcd, hdt⟩

/-- A holder of the line responds whenever the answer to its snoop carries data. -/
theorem responds_of_copy (hu : s.Unique) {k : AcSnoop} {j : Fin N} (hji : j ≠ i) {m : Copy (Fin 16) Byte}
    (hc : s.copies l j = some m)
    (hd : (evalFlags k true (anyByte m.dirty) m.shared).crResp.dataTransfer = true) :
    s.responds i k l j = true := by
  obtain ⟨hcr, -⟩ := snooped_some (hu j) k hc
  have he : (evalFlags k true (anyByte m.dirty) m.shared).crResp.error = false := by cases k <;> rfl
  simp [responds, hji, hcr, hd, he]

theorem snoopOthers_own (s : System N) (i : Fin N) (k : AcSnoop) (l : PAddr) :
    (s.snoopOthers i k l).cache i = s.cache i := by simp [snoopOthers]

theorem unique_snoopOthers (hu : s.Unique) (i : Fin N) (k : AcSnoop) (l : PAddr) : (s.snoopOthers i k l).Unique := by
  intro j
  simp only [snoopOthers]
  split_ifs
  · exact hu j
  · exact unique_afterSnoop (hu j) k l

theorem copies_snoopOthers_other (hu : s.Unique) (k : AcSnoop) {l' : PAddr} (hn : ¬ Same l l') :
    (s.snoopOthers i k l).copies l' = s.copies l' := by
  funext j
  simp only [copies, snoopOthers]
  split_ifs
  · rfl
  · exact copyOf_afterSnoop_other (hu j) k hn

theorem copies_snoopOthers (k : AcSnoop) (j : Fin N) : (s.snoopOthers i k l).copies l j =
    if j = i then s.copies l i else copyOf (afterSnoop (s.cache j) k l) l := by
  simp only [copies, snoopOthers]
  split_ifs with hj
  · rw [hj]
  · rfl

/-- Every other copy is invalidated. -/
theorem copies_invalidateOthers (first j : Fin N) : (s.invalidateOthers i l first).copies l j =
    if j = i then s.copies l i else none := by
  have hc : (s.invalidateOthers i l first).copies l = (s.snoopOthers i .cleanInvalid l).copies l := by
    unfold invalidateOthers
    split_ifs <;> rfl
  rw [hc, copies_snoopOthers, copyOf_invalidated (by decide) (by decide)]

/-- What a dirty copy elsewhere held is in memory, so that memory has every clean byte of the own copy. -/
theorem line_invalidateOthers (h : s.Inv) (first : Fin N) {m : Copy (Fin 16) Byte}
    (hm : s.copies l i = some m) {b : Fin 16} (hb : m.dirty b = false) :
    (s.invalidateOthers i l first).line l b = m.data b := by
  have hco := h.coherent l
  unfold invalidateOthers
  split_ifs with ha
  · obtain ⟨-, n, hn, hcd, -⟩ := copy_of_responds h.unique (responds_first ha first)
    rw [line_writeMem_same _ ⟨rfl, rfl⟩, merge, if_pos rfl, snoopData, hcd, hco.agree hm hn]
  · refine hco.clean hm fun j n hn => ?_
    by_cases hji : j = i
    · rw [hji, hm] at hn
      cases hn
      exact hb
    · by_contra hd
      have hdirty : anyByte n.dirty = true := anyByte_iff.mpr ⟨b, by simpa using hd⟩
      exact ha (dataAvailable_iff.mpr ⟨j, responds_of_copy h.unique hji hn hdirty⟩)

theorem unique_invalidateOthers (hu : s.Unique) (l : PAddr) (first : Fin N) :
    (s.invalidateOthers i l first).Unique := by
  intro j
  have hc : (s.invalidateOthers i l first).cache j = (s.snoopOthers i .cleanInvalid l).cache j := by
    unfold invalidateOthers
    split_ifs <;> rfl
  rw [hc]
  exact unique_snoopOthers hu i _ l j

theorem inv_invalidateOthers (h : s.Inv) (l : PAddr) (first : Fin N) : (s.invalidateOthers i l first).Inv := by
  constructor
  · exact unique_invalidateOthers h.unique l first
  · intro l'
    by_cases hs : Same l l'
    · rw [copies_same hs, line_same hs]
      refine .sole (i := i) (fun k hk => by rw [copies_invalidateOthers, if_neg hk]) fun m hm b hb => ?_
      rw [copies_invalidateOthers, if_pos rfl] at hm
      exact line_invalidateOthers h first hm hb
    · have hsame : (s.invalidateOthers i l first).copies l' = s.copies l' ∧
          (s.invalidateOthers i l first).line l' = s.line l' := by
        unfold invalidateOthers
        split_ifs
        · exact ⟨copies_snoopOthers_other h.unique _ hs, line_writeMem_other _ hs _ _⟩
        · exact ⟨copies_snoopOthers_other h.unique _ hs, rfl⟩
      rw [hsame.1, hsame.2]
      exact h.coherent l'

/-! ### Stores -/

theorem unique_storeHit (hu : s.Unique) (i : Fin N) (l : PAddr) (be : WordBe) (wdata : Word) :
    (s.storeHit i l be wdata).Unique :=
  unique_setCache hu (unique_store (l := l) rfl rfl (hu i))

/-- A store to the only copy of a line. -/
theorem inv_storeHit (h : s.Inv) {be : WordBe} {wdata : Word} (ho : ∀ j, j ≠ i → s.copies l j = none) :
    (s.storeHit i l be wdata).Inv := by
  unfold storeHit
  generalize hq : ({ CacheCtrl.reset with
    state := .storeReq, hitWay := s.hitWay i l
    memReq := { MemReq.zero with
      index := l.index, offset := l.offset, tag := l.tag, be := be, we := true, wdata := wdata } } : CacheCtrl) = q
  have hw : q.hitWay = TagCmp.hitWay (s.cache i l.index) l.tag := by rw [← hq]; rfl
  have ha : q.memReq.addr = l := by rw [← hq]; rfl
  refine ⟨unique_setCache h.unique (unique_store hw ha (h.unique i)), fun l' => ?_⟩
  rw [line_setCache]
  by_cases hs : Same l l'
  · rw [copies_same hs, line_same hs]
    refine .sole (i := i) (fun k hk => by rw [copies_setCache, if_neg hk, ho k hk]) fun m hm b hb => ?_
    rw [copies_setCache, if_pos rfl, copyOf_store hw ha (h.unique i), Option.map_eq_some_iff] at hm
    obtain ⟨n, hn, rfl⟩ := hm
    simp only [storeCopy, Bool.or_eq_false_iff] at hb
    have hclean : s.line l b = n.data b := by
      refine (h.coherent l).clean (k := i) hn fun j m' hj => ?_
      by_cases hji : j = i
      · rw [hji] at hj
        cases (show some n = some m' from hn.symm.trans hj)
        exact hb.2
      · simp [ho j hji] at hj
    simp [storeCopy, hb.1, hclean]
  · have hsame : (s.setCache i ((s.cache i).write q.storeWrite)).copies l' = s.copies l' := by
      funext j
      rw [copies_setCache]
      split_ifs with hj
      · rw [hj]
        exact copyOf_store_other hw ha (h.unique i) hs
      · rfl
    rw [hsame]
    exact h.coherent l'

/-- A hit on an unshared line is a hit on the only copy. -/
theorem alone_of_unshared (h : s.Inv)
    (hh : (anyWay fun w => !(s.cache i l.index w).shared && s.hitWay i l w) = true) (j : Fin N) (hj : j ≠ i) :
    s.copies l j = none := by
  obtain ⟨w, hw⟩ := anyWay_iff.mp hh
  rw [Bool.and_eq_true, Bool.not_eq_true', hitWay, hitWay_iff_has] at hw
  cases hc : s.copies l j with
  | none => rfl
  | some m =>
    have hcopy : s.copies l i = some (toCopy (s.cache i l.index w)) := copyOf_of_has (h.unique i) hw.2
    exact absurd ((h.coherent l).alone hcopy hw.1 hc).symm hj

/-! ### Refills -/

/-- The victim of MISS_REPL is free, clean, or taken for a write-back. -/
theorem picked_spec (a : CacheArray) (m : Mshr) (lfsr : BitVec 8) :
    ∃ w, (picked a m lfsr).evictWay = oneHot w ∧ (picked a m lfsr).mshr = m ∧
      (((picked a m lfsr).state ≠ .wbCachelineMiss ∧
          ((a m.addr.index w).valid = true → ∀ b, (a m.addr.index w).dirty b = false)) ∨
        ((picked a m lfsr).state = .wbCachelineMiss ∧ (a m.addr.index w).valid = true ∧
          (picked a m lfsr).cnt = m.addr.index ∧ (picked a m lfsr).evictCl.tag = (a m.addr.index w).tag ∧
          (picked a m lfsr).evictCl.data = (a m.addr.index w).data ∧
          (picked a m lfsr).evictCl.dirty = (a m.addr.index w).dirty)) := by
  obtain ⟨q, j, hq, hqm, hj, hp⟩ : ∃ (q : MissHandler) (j : MissIn), q.state = .missRepl ∧ q.mshr = m ∧
      j.rdata = a m.addr.index ∧ picked a m lfsr = q.step j :=
    ⟨{ MissHandler.reset with state := .missRepl, mshr := m, lfsr := lfsr }, missIn a m.addr.index m.addr,
      rfl, rfl, rfl, rfl⟩
  have hr : q.refillState ≠ .wbCachelineMiss := by
    unfold MissHandler.refillState
    split_ifs <;> simp
  have hm := MissHandler.moves q j
  rw [hp, ← hj, ← hqm]
  generalize q.step j = d at hm
  cases hm with
  | free _ hf =>
    have hany : (anyWay fun w => !(j.rdata w).valid) = true := by simpa [MissHandler.full] using hf
    have hv := oneHotToBin_spec hany
    refine ⟨_, rfl, rfl, .inl ⟨hr, fun hval => ?_⟩⟩
    rw [Bool.not_eq_true'] at hv
    exact absurd (hval.symm.trans hv) (by decide)
  | clean _ hf hd => exact ⟨_, rfl, rfl, .inl ⟨hr, fun _ => anyByte_eq_false_iff.mp hd⟩⟩
  | dirty _ hf hd =>
    have hval : (j.rdata q.lfsrBin).valid = true := by
      simp only [MissHandler.full, Bool.not_eq_true', anyWay_eq_false_iff] at hf
      simpa using hf q.lfsrBin
    exact ⟨_, rfl, rfl, .inr ⟨rfl, hval, rfl, rfl, rfl, rfl⟩⟩
  | _ => simp_all [MissHandler.waiting, MissHandler.occupied]

section Refill
variable {d : MissHandler} {w : Way}

/-- The state after a snooped read whose answer is saved. -/
def saved (s : System N) (i : Fin N) (k : AcSnoop) (l : PAddr) (d : MissHandler) (first : Fin N) : System N :=
  (s.snoopOthers i k l).setCache i (((s.snoopOthers i k l).cache i).write (d.saveWrite (s.readResp i k l first)))

variable (first : Fin N) (hu : s.Unique) (hn : s.copies l i = none) (hw : d.evictWay = oneHot w)
  (hm : d.mshr.addr = l)
include hu hn hw hm

theorem unique_saved (k : AcSnoop) : (s.saved i k l d first).Unique := by
  intro j
  simp only [saved, setCache, snoopOthers_own]
  split_ifs
  · exact unique_save hw hm _ (hu i) hn
  · exact unique_snoopOthers hu i k l j

theorem copies_saved (k : AcSnoop) (j : Fin N) : (s.saved i k l d first).copies l j =
    if j = i then some (toCopy (d.saveLine (s.readResp i k l first)))
    else copyOf (afterSnoop (s.cache j) k l) l := by
  rw [saved, copies_setCache, snoopOthers_own]
  split_ifs with hj
  · exact copyOf_save hw hm _ (hu i) hn
  · rw [copies_snoopOthers, if_neg hj]

/-- Another line loses at most the copy that was in the way of the refill. -/
theorem copies_saved_other (k : AcSnoop) {l' : PAddr} (hs : ¬ Same l l') (j : Fin N) :
    (s.saved i k l d first).copies l' j =
      if j = i then if l'.index = l.index ∧ Has (s.cache i) l' w then none else s.copies l' i
      else s.copies l' j := by
  rw [saved, copies_setCache, snoopOthers_own]
  split_ifs with hj hh
  · rw [copyOf_save_other hw hm _ (hu i) hn hs, if_pos hh]
  · rw [copyOf_save_other hw hm _ (hu i) hn hs, if_neg hh]
    rfl
  · rw [copies_snoopOthers_other hu k hs]

end Refill

/-- A clean copy may be in the way. -/
theorem coherent_saved_other (h : s.Inv) (hn : s.copies l i = none) {d : MissHandler} {w : Way}
    (hw : d.evictWay = oneHot w) (hm : d.mshr.addr = l) (first : Fin N) (k : AcSnoop)
    (hc : (s.cache i l.index w).valid = true → ∀ b, (s.cache i l.index w).dirty b = false) {l' : PAddr}
    (hs : ¬ Same l l') : Coherent ((s.saved i k l d first).copies l') ((s.saved i k l d first).line l') := by
  have hline : (s.saved i k l d first).line l' = s.line l' := rfl
  have hcopies := copies_saved_other first h.unique hn hw hm k hs
  rw [hline]
  by_cases hh : l'.index = l.index ∧ Has (s.cache i) l' w
  · refine (h.coherent l').drop (i := i) (by rw [hcopies, if_pos rfl, if_pos hh])
      (fun j hj => by rw [hcopies, if_neg hj]) fun m hm' b => ?_
    have hcopy : s.copies l' i = some (toCopy (s.cache i l'.index w)) := copyOf_of_has (h.unique i) hh.2
    rw [hcopy] at hm'
    cases hm'
    have hv := hh.2.1
    rw [hh.1] at hv ⊢
    exact hc hv b
  · have hsame : (s.saved i k l d first).copies l' = s.copies l' := by
      funext j
      rw [hcopies]
      split_ifs with hj
      · rw [hj]
      · rfl
    rw [hsame]
    exact h.coherent l'

/-- The data of a read is that of a holder, or of memory when nobody holds the line. -/
theorem readResp_cases (h : s.Inv) (hn : s.copies l i = none) {k : AcSnoop}
    (hk : k = .readShared ∨ k = .readUnique) (first : Fin N) :
    (∃ f m, f ≠ i ∧ s.copies l f = some m ∧ (s.readResp i k l first).data = MissHandler.burstWords m.data ∧
      s.dataAvailable i k l = true) ∨
    ((∀ j, s.copies l j = none) ∧ s.dataAvailable i k l = false ∧
      (s.readResp i k l first).data = MissHandler.burstWords (s.line l)) := by
  cases ha : s.dataAvailable i k l
  · refine .inr ⟨fun j => ?_, rfl, by simp [readResp, ha, line]⟩
    by_cases hji : j = i
    · rw [hji, hn]
    · cases hc : s.copies l j with
      | none => rfl
      | some m =>
        have hd : (evalFlags k true (anyByte m.dirty) m.shared).crResp.dataTransfer = true := by
          rcases hk with rfl | rfl <;> rfl
        simp [dataAvailable_iff.mpr ⟨j, responds_of_copy h.unique hji hc hd⟩] at ha
  · obtain ⟨hf, m, hm, hcd, -⟩ := copy_of_responds h.unique (responds_first ha first)
    exact .inl ⟨_, m, hf, hm, by simp [readResp, ha, snoopData, hcd], rfl⟩

/-- A load miss: ReadShared and the fill. -/
theorem inv_saved_shared (h : s.Inv) (hn : s.copies l i = none) {d : MissHandler} {w : Way}
    (hw : d.evictWay = oneHot w) (hm : d.mshr.addr = l) (hwe : d.mshr.we = false) (first : Fin N)
    (hc : (s.cache i l.index w).valid = true → ∀ b, (s.cache i l.index w).dirty b = false) :
    (s.saved i .readShared l d first).Inv := by
  refine ⟨unique_saved first h.unique hn hw hm _, fun l' => ?_⟩
  by_cases hs : Same l l'
  swap
  · exact coherent_saved_other h hn hw hm first _ hc hs
  rw [copies_same hs, line_same hs]
  have hown := copies_saved first h.unique hn hw hm .readShared
  have hline : (s.saved i .readShared l d first).line l = s.line l := rfl
  have hcopy : toCopy (d.saveLine (s.readResp i .readShared l first)) =
      ⟨MissHandler.lineOfWords (s.readResp i .readShared l first).data,
        fun _ => (s.readResp i .readShared l first).dirty, (s.readResp i .readShared l first).shared⟩ := by
    simp [toCopy, MissHandler.saveLine, hwe]
  rw [hline]
  rcases readResp_cases h hn (.inl rfl) first with ⟨f, m, hf, hm', hdata, ha⟩ | ⟨hnone, ha, hdata⟩
  · -- some cache has the line: nobody passes dirty data, everybody answers shared
    have hanswer : ∀ j, (snooped (s.cache j) .readShared l).crResp.passDirty = false := by
      intro j
      cases hj : copyOf (s.cache j) l with
      | none => rw [snooped_none _ hj]; rfl
      | some n => rw [(snooped_some (h.unique j) _ hj).1]; rfl
    have hshared : (snooped (s.cache f) .readShared l).crResp.isShared = true := by
      rw [(snooped_some (h.unique f) _ hm').1]
      rfl
    have hd : (s.readResp i .readShared l first).dirty = false := by simp [readResp, ha, hanswer]
    have hsh : (s.readResp i .readShared l first).shared = true := by
      simp only [readResp, ha, if_true, List.any_eq_true]
      exact ⟨f, List.mem_finRange f, by simp [hf, hshared]⟩
    rw [hdata, MissHandler.lineOfWords_burstWords, hd, hsh] at hcopy
    refine (h.coherent l).read hm' hn (by rw [hown, if_pos rfl, hcopy]) fun j hj => ?_
    rw [hown, if_neg hj]
    exact copyOf_readShared (h.unique j) l
  · rw [hdata, MissHandler.lineOfWords_burstWords] at hcopy
    refine .sole (i := i) (fun j hj => ?_) fun m hm' b _ => ?_
    · rw [hown, if_neg hj, copyOf_readShared (h.unique j)]
      simp [show copyOf (s.cache j) l = none from hnone j]
    · rw [hown, if_pos rfl, hcopy] at hm'
      cases hm'
      rfl

/-- A store miss: ReadUnique and the fill with the store merged in. -/
theorem inv_saved_unique (h : s.Inv) (hn : s.copies l i = none) {d : MissHandler} {w : Way}
    (hw : d.evictWay = oneHot w) (hm : d.mshr.addr = l) (first : Fin N)
    (hc : (s.cache i l.index w).valid = true → ∀ b, (s.cache i l.index w).dirty b = false) :
    (s.saved i .readUnique l d first).Inv := by
  refine ⟨unique_saved first h.unique hn hw hm _, fun l' => ?_⟩
  by_cases hs : Same l l'
  swap
  · exact coherent_saved_other h hn hw hm first _ hc hs
  rw [copies_same hs, line_same hs]
  have hown := copies_saved first h.unique hn hw hm .readUnique
  have hline : (s.saved i .readUnique l d first).line l = s.line l := rfl
  rw [hline]
  refine .sole (i := i) (fun j hj => ?_) fun m hm' b hb => ?_
  · rw [hown, if_neg hj, copyOf_invalidated (by decide) (by decide)]
  · rw [hown, if_pos rfl] at hm'
    cases hm'
    simp only [toCopy, MissHandler.saveLine, Bool.or_eq_false_iff] at hb
    simp only [toCopy, MissHandler.saveLine, hb.2, Bool.false_eq_true, if_false]
    rcases readResp_cases h hn (.inr rfl) first with ⟨f, m, hf, hm', hdata, ha⟩ | ⟨-, -, hdata⟩
    · rw [hdata, MissHandler.lineOfWords_burstWords]
      refine (h.coherent l).clean hm' fun j n hj => ?_
      by_contra hd
      have hji : j ≠ i := by
        rintro rfl
        simp [hn] at hj
      have hdirty : anyByte n.dirty = true := anyByte_iff.mpr ⟨b, by simpa using hd⟩
      have hpass : (snooped (s.cache j) .readUnique l).crResp.passDirty = true := by
        rw [(snooped_some (h.unique j) _ hj).1]
        exact hdirty
      have hdr := hb.1
      simp only [readResp, ha, if_true, List.any_eq_false] at hdr
      exact hdr j (List.mem_finRange j) (by simp [hji, hpass])
    · rw [hdata, MissHandler.lineOfWords_burstWords]

theorem inv_refill (h : s.Inv) {m : Mshr} (hs : c.isInsideShareableRegions m.addr = true)
    (hn : s.copies m.addr i = none) (lfsr : BitVec 8) (first : Fin N) : (s.refill c i m lfsr first).Inv := by
  unfold refill
  obtain ⟨w, hw, hm', hv⟩ := picked_spec (s.cache i) m lfsr
  generalize picked (s.cache i) m lfsr = d at hw hm' hv
  -- the victim is out of the way
  obtain ⟨s', hs', hinv, hnone, hclean⟩ : ∃ s', (if d.state = .wbCachelineMiss then s.writeBack c i d else s) = s' ∧
      s'.Inv ∧ s'.copies m.addr i = none ∧
      ((s'.cache i m.addr.index w).valid = true → ∀ b, (s'.cache i m.addr.index w).dirty b = false) := by
    refine ⟨_, rfl, ?_⟩
    rcases hv with ⟨hst, hc⟩ | ⟨hst, hval, hcnt, ht, hd, hdy⟩
    · rw [if_neg hst]
      exact ⟨h, hn, hc⟩
    · rw [if_pos hst]
      refine ⟨inv_writeBack h (by simp [MissHandler.writingBack, hst]) hw ?_ ?_ ?_ ?_, ?_, fun hval' => ?_⟩
      · rwa [hcnt]
      · rwa [hcnt]
      · rwa [hcnt]
      · rwa [hcnt]
      · rw [writeBack, copies_writeMem, copies_setCache, if_pos rfl]
        exact copyOf_eq_none.mpr fun v hv => copyOf_eq_none.mp hn v (has_clear.mp hv).1
      · simp only [writeBack, writeMem, setCache, if_true] at hval'
        rw [write_clear, if_pos ⟨hcnt.symm, by rw [hw]; simp [oneHot]⟩] at hval'
        simp [CacheLine.invalidated] at hval'
  simp only [hs']
  have haddr : d.mshr.addr = m.addr := by rw [hm']
  have hfetch : s'.fetch c i { d with state := .reqCacheline } first =
      if m.we then (s'.snoopOthers i .readUnique m.addr, s'.readResp i .readUnique m.addr first)
      else (s'.snoopOthers i .readShared m.addr, s'.readResp i .readShared m.addr first) := by
    cases hwe : m.we <;> simp [fetch, MissHandler.refillType, hm', hs, hwe]
  rw [hfetch]
  cases hwe : m.we
  · exact inv_saved_shared hinv hnone hw haddr (by rw [hm', hwe]) first hclean
  · exact inv_saved_unique hinv hnone hw haddr first hclean

/-! ### Runs -/

theorem inv_step (h : s.Inv) {op : Op N} (hop : op.shareable c) : (s.step c op).Inv := by
  cases op with
  | load i l lfsr first =>
    simp only [step]
    split_ifs with hh
    · exact h
    · have hs : c.isInsideShareableRegions l = true := hop
      rw [Bool.not_eq_true, hitWay, anyWay_hitWay] at hh
      refine inv_refill h ?_ ?_ lfsr first
      · exact hs
      · exact hh
  | store i l be wdata lfsr first =>
    simp only [step]
    split_ifs with hh hu
    · exact inv_storeHit h (alone_of_unshared h hu)
    · exact inv_storeHit (inv_invalidateOthers h l first)
        fun j hj => by rw [copies_invalidateOthers, if_neg hj]
    · have hs : c.isInsideShareableRegions l = true := hop
      rw [Bool.not_eq_true, hitWay, anyWay_hitWay] at hh
      refine inv_refill h ?_ ?_ lfsr first
      · exact hs
      · exact hh
  | lr i l first => exact inv_invalidateOthers (inv_dropOwn h l) l first
  | amo i l first f =>
    have h1 := inv_invalidateOthers (i := i) (inv_dropOwn (c := c) (i := i) h l) l first
    refine ⟨h1.unique, fun l' => ?_⟩
    simp only [step]
    by_cases hs : Same l l'
    · rw [copies_writeMem, copies_same hs]
      refine .nowhere fun j => ?_
      rw [copies_invalidateOthers]
      split_ifs
      · exact copies_dropOwn h.unique l
      · rfl
    · rw [copies_writeMem, line_writeMem_other _ hs]
      exact h1.coherent l'
  | evict i idx w => exact inv_evict h idx w
  | flush i idx => exact inv_flushSet h idx

theorem inv_init (h : (machine c N).init s) : s.Inv := by
  constructor
  · intro j idx w v hw
    simp [h j idx w] at hw
  · intro l
    exact .nowhere fun j => copyOf_eq_none.mpr fun w hw => by simp [Has, h j l.index w] at hw

theorem inv_reachable (h : (machine c N).Reachable (fun _ op => op.shareable c) s) : s.Inv :=
  Machine.Reachable.invariant (P := Inv) (fun _ => inv_init) (fun _ _ hi hop => inv_step hi hop) h

/-- After the invalidations of an LR or an AMO no cache holds the line. -/
theorem copies_after_atomic (h : s.Inv) (first : Fin N) (j : Fin N) :
    ((s.dropOwn c i l).invalidateOthers i l first).copies l j = none := by
  rw [copies_invalidateOthers]
  split_ifs
  · exact copies_dropOwn h.unique l
  · rfl

/-- The caches are coherent in every reachable state, and an atomic leaves no copy of its line. -/
theorem coherent_reachable (h : (machine c N).Reachable (fun _ op => op.shareable c) s) :
    (∀ l j k w v, Has (s.cache j) l w → Has (s.cache k) l v →
      ((s.cache j l.index w).shared = false → j = k) ∧
      (∀ a b, (s.cache j l.index w).dirty a = true → (s.cache k l.index v).dirty b = true → j = k) ∧
      (s.cache j l.index w).data = (s.cache k l.index v).data) ∧
    (∀ l k v b, Has (s.cache k) l v →
      (∀ j w, Has (s.cache j) l w → (s.cache j l.index w).dirty b = false) →
      s.mem l.tag l.index b = (s.cache k l.index v).data b) ∧
    (∀ i l first j w, ¬ Has ((s.step c (.lr i l first)).cache j) l w) ∧
    (∀ i l first f j w, ¬ Has ((s.step c (.amo i l first f)).cache j) l w) := by
  have hi := inv_reachable h
  have hcopy : ∀ {l j w}, Has (s.cache j) l w → s.copies l j = some (toCopy (s.cache j l.index w)) :=
    fun hw => copyOf_of_has (hi.unique _) hw
  refine ⟨fun l j k w v hw hv => ?_, fun l k v b hv hd => ?_, fun i l first j => ?_, fun i l first f j => ?_⟩
  · have hco := hi.coherent l
    exact ⟨fun hs => hco.alone (hcopy hw) hs (hcopy hv), fun a b ha hb => hco.owner (hcopy hw) ha (hcopy hv) hb,
      hco.agree (hcopy hw) (hcopy hv)⟩
  · refine (hi.coherent l).clean (hcopy hv) fun j m hm => ?_
    obtain ⟨w, hw, rfl⟩ := has_of_copyOf hm
    exact hd j w hw
  · exact copyOf_eq_none.mp (copies_after_atomic hi first j)
  · exact copyOf_eq_none.mp (copies_after_atomic hi first j)

section Runs

/-- Two cores with empty caches and a cleared memory. -/
def empty : System 2 := ⟨fun _ _ _ => .zero, fun _ _ _ => 0⟩

/-- Every address is shareable. -/
def shareableCfg : Cfg := ⟨fun _ => true, fun _ => true⟩

/-- A store by core 0 and a load of the same line by core 1. -/
def storeThenLoad : List (Op 2) :=
  [.store 0 ⟨2, 1, 0⟩ (fun _ => true) (fun _ => 7) 0 0, .load 1 ⟨2, 1, 0⟩ 0 0]

set_option maxRecDepth 10000 in
theorem coherent_reachable_run :
    let s := (machine shareableCfg 2).run empty storeThenLoad
    Has (s.cache 0) ⟨2, 1, 0⟩ 0 ∧ (s.cache 0 1 0).dirty 0 = true ∧ Has (s.cache 1) ⟨2, 1, 0⟩ 0 ∧
      (s.cache 0 1 0).data = (s.cache 1 1 0).data := by
  have hr : (machine shareableCfg 2).Reachable (fun _ op => op.shareable shareableCfg)
      ((machine shareableCfg 2).run empty storeThenLoad) :=
    .run (.init fun _ _ _ => rfl) ⟨rfl, rfl, trivial⟩
  have h0 : Has (((machine shareableCfg 2).run empty storeThenLoad).cache 0) ⟨2, 1, 0⟩ 0 := by decide +kernel
  have h1 : Has (((machine shareableCfg 2).run empty storeThenLoad).cache 1) ⟨2, 1, 0⟩ 0 := by decide +kernel
  exact ⟨h0, by decide +kernel, h1, ((coherent_reachable hr).1 ⟨2, 1, 0⟩ 0 1 0 0 h0 h1).2.2⟩

end Runs
end Culsans.Coherence.System
