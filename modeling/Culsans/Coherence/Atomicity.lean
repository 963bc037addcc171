import Culsans.Coherence.Reservation

/-! # Atomicity of LR/SC

A foreign store leaves a dirty copy of the line in some cache, and dirty bytes only
go away with a write to memory, which clears the reservation.
-/

namespace Culsans.Coherence
open Dcache Library

theorem placeBe_byteOfLane (sel : Bool) (be : WordBe) (k : Fin 8) :
    placeBe sel be (byteOfLane sel k) = be k := by
  have hw : ∀ (sel : Bool) (k : Fin 8), wordOfByte (byteOfLane sel k) = sel ∧ laneOfByte (byteOfLane sel k) = k := by
    decide
  simp [placeBe, hw]

namespace System
variable {N : ℕ} {c : Cfg} {s t u : System N} {i : Fin N} {l : PAddr}

/-- Some cache holds bytes of the line that are newer than memory. -/
def Dirty (s : System N) (l : PAddr) : Prop :=
  ∃ j m b, s.copies l j = some m ∧ m.dirty b = true

theorem Dirty.of_same {l' : PAddr} (hs : Same l l') (h : s.Dirty l) : s.Dirty l' := by
  unfold Dirty
  rwa [copies_same hs]

/-- No copy appears, dirty bytes go to memory if they go, and memory changes only where it is written. -/
structure Keeps (s t : System N) (xs : List Line) : Prop where
  absent : ∀ {l j}, s.copies l j = none → t.copies l j = none
  dirty : ∀ {l}, s.Dirty l → t.Dirty l ∨ lineOf l ∈ xs
  line : ∀ {l}, lineOf l ∉ xs → t.line l = s.line l

/-- The copies after a store hit. -/
theorem copies_storeHit (hu : s.Unique) (i : Fin N) (l : PAddr) (be : WordBe) (wdata : Word) (l' : PAddr) (j : Fin N) :
    (s.storeHit i l be wdata).copies l' j =
      if j = i ∧ Same l l' then (s.copies l' j).map (storeCopy l be wdata) else s.copies l' j := by
  unfold storeHit
  generalize hq : ({ CacheCtrl.reset with
    state := .storeReq, hitWay := s.hitWay i l
    memReq := { MemReq.zero with
      index := l.index, offset := l.offset, tag := l.tag, be := be, we := true, wdata := wdata } } : CacheCtrl) = q
  have hw : q.hitWay = TagCmp.hitWay (s.cache i l.index) l.tag := by rw [← hq]; rfl
  have ha : q.memReq.addr = l := by rw [← hq]; rfl
  have hbe : q.memReq.be = be ∧ q.memReq.wdata = wdata := by rw [← hq]; exact ⟨rfl, rfl⟩
  rw [copies_setCache]
  by_cases hj : j = i
  · subst hj
    by_cases hs : Same l l'
    · rw [if_pos rfl, if_pos ⟨rfl, hs⟩, copyOf_same hs, copyOf_store hw ha (hu j), hbe.1, hbe.2,
        copies_same hs]
      rfl
    · rw [if_pos rfl, if_neg (fun hh => hs hh.2), copyOf_store_other hw ha (hu j) hs]
      rfl
  · rw [if_neg hj, if_neg fun hh => hj hh.1]

namespace Keeps

theorem refl (s : System N) : Keeps s s [] := ⟨id, .inl, fun _ => rfl⟩

theorem trans {xs ys : List Line} (h : Keeps s t xs) (h' : Keeps t u ys) : Keeps s u (xs ++ ys) where
  absent hn := h'.absent (h.absent hn)
  dirty hd := by
    rw [List.mem_append]
    rcases h.dirty hd with ht | hx
    · exact (h'.dirty ht).imp_right .inr
    · exact .inr (.inl hx)
  line hl := by
    rw [List.mem_append, not_or] at hl
    rw [h'.line hl.2, h.line hl.1]

theorem writeMem (s : System N) (l : PAddr) (be : LineBe) (d : LineData) :
    Keeps s (s.writeMem l be d) [lineOf l] where
  absent hn := hn
  dirty hd := .inl hd
  line hl := line_writeMem_other s (fun hs => hl (by rw [lineOf_eq.mpr hs]; exact List.mem_singleton_self _)) be d

/-- Clearing ways that are clean or whose line is written. -/
theorem clear (hu : UniqueTags (s.cache i)) {idx : Index} {ways : WaySet} {xs : List Line}
    (hd : ∀ w, ways w = true → (s.cache i idx w).valid = true →
      (∀ b, (s.cache i idx w).dirty b = false) ∨ ((s.cache i idx w).tag, idx) ∈ xs) :
    Keeps s (s.setCache i ((s.cache i).write (MissHandler.clearStatus idx ways))) xs where
  absent {l j} hn := by
    rw [copies_setCache]
    split_ifs with hj
    · subst hj
      exact copyOf_eq_none.mpr fun v hv => copyOf_eq_none.mp hn v (has_clear.mp hv).1
    · exact hn
  dirty {l} := by
    rintro ⟨j, m, b, hc, hb⟩
    by_cases hj : j = i
    · subst hj
      obtain ⟨v, hv, rfl⟩ := has_of_copyOf hc
      by_cases hw : l.index = idx ∧ ways v = true
      · obtain ⟨rfl, hway⟩ := hw
        rcases hd v hway hv.1 with hclean | hx
        · exact absurd hb (by simp [toCopy, hclean])
        · rw [hv.2] at hx
          exact .inr hx
      · -- the copy stays
        have hstay : copyOf ((s.cache j).write (MissHandler.clearStatus idx ways)) l = copyOf (s.cache j) l := by
          refine copyOf_clear_other hu fun w hi hway hh => hw ⟨hi, ?_⟩
          rwa [hv.unique hu hh] at hway
        exact .inl ⟨j, _, b, by rw [copies_setCache, if_pos rfl, hstay]; exact hc, hb⟩
    · exact .inl ⟨j, m, b, by rw [copies_setCache, if_neg hj]; exact hc, hb⟩
  line _ := rfl

/-- A victim that is written back gives its dirty bytes to memory. -/
theorem writeBack (hu : UniqueTags (s.cache i)) {q : MissHandler} {w : Way} (hb : q.writingBack = true)
    (hw : q.evictWay = oneHot w) (ht : q.evictCl.tag = (s.cache i q.cnt w).tag) :
    Keeps s (s.writeBack c i q) [(q.evictCl.tag, q.cnt)] := by
  obtain ⟨hadr, -, -⟩ := MissHandler.axiReq_back (c := c) hb
  have hclear : Keeps s (s.setCache i ((s.cache i).write (MissHandler.clearStatus q.cnt q.evictWay)))
      [(q.evictCl.tag, q.cnt)] := by
    refine clear hu fun v hv _ => .inr ?_
    have hvw : v = w := by simpa [hw, oneHot] using hv
    rw [hvw, ← ht]
    exact List.mem_singleton_self _
  have hmem := writeMem (s.setCache i ((s.cache i).write (MissHandler.clearStatus q.cnt q.evictWay)))
    ⟨q.evictCl.tag, q.cnt, 0⟩ (MissHandler.lineOfBe (q.axiReq c).be) (MissHandler.lineOfWords (q.axiReq c).wdata)
  rw [System.writeBack, hadr]
  refine ⟨fun hn => hmem.absent (hclear.absent hn), fun hd => ?_, fun hl => ?_⟩
  · exact hclear.dirty hd
  · rw [hmem.line hl, hclear.line hl]

theorem evict (hu : UniqueTags (s.cache i)) (idx : Index) (w : Way) :
    Keeps s (s.evict c i idx w) (s.evictBack i idx w) := by
  unfold System.evict evictBack
  split_ifs
  · exact writeBack hu rfl rfl rfl
  · exact refl s

theorem flushSet (hu : UniqueTags (s.cache i)) (idx : Index) :
    Keeps s (s.flushSet c i idx) (s.flushBack i idx) := by
  unfold System.flushSet flushBack
  cases hd : anyWay (MissHandler.dirtyWay (missIn (s.cache i) idx ⟨0, 0, 0⟩))
  · have hn : ¬ ((if idx == 255 then MissState.idle else .flushReqStatus) = .wbCachelineFlush) := by
      split_ifs <;> simp
    simp only [MissHandler.step, MissHandler.stepFlushing, MissHandler.port, hd, MissHandler.reset,
      Bool.false_eq_true, if_false, hn]
    refine clear hu fun w _ hv => .inl fun b => ?_
    have hw := anyWay_eq_false_iff.mp hd w
    simp only [MissHandler.dirtyWay, missIn, hv, Bool.true_and] at hw
    exact anyByte_eq_false_iff.mp hw b
  · simp only [MissHandler.step, MissHandler.stepFlushing, hd, if_true]
    exact writeBack hu rfl rfl rfl

theorem dropOwn (hu : UniqueTags (s.cache i)) (l : PAddr) : Keeps s (s.dropOwn c i l) (s.dropBack i l) := by
  unfold System.dropOwn dropBack
  cases hw : MissHandler.amoWay (missIn (s.cache i) l.index l) with
  | none =>
    have hsame : s.setCache i ((s.cache i).write .idle) = s := by
      rw [CacheArray.write_of_not_we rfl]
      simp only [setCache]
      congr 1
      funext j
      split_ifs with hj
      · rw [hj]
      · rfl
    simp only [MissHandler.step, MissHandler.stepAmoWb, MissHandler.port, hw, reduceCtorEq, if_false, hsame]
    exact refl s
  | some w =>
    cases hd : anyByte ((missIn (s.cache i) l.index l).rdata w).dirty
    · simp only [MissHandler.step, MissHandler.stepAmoWb, MissHandler.port, hw, hd, Bool.false_eq_true,
        if_false, reduceCtorEq]
      refine clear hu fun v hv _ => .inl fun b => ?_
      have hvw : v = w := by simpa [oneHot] using hv
      rw [hvw]
      exact anyByte_eq_false_iff.mp hd b
    · simp only [MissHandler.step, MissHandler.stepAmoWb, hw, hd, if_true]
      exact writeBack hu rfl rfl rfl

/-- CLEAN_INVALID takes every other copy, and a dirty one goes to memory. -/
theorem invalidateOthers (hu : s.Unique) (i : Fin N) (l : PAddr) (first : Fin N) :
    Keeps s (s.invalidateOthers i l first) (s.ccuBack i l) := by
  have hcopies : (s.invalidateOthers i l first).copies = (s.snoopOthers i .cleanInvalid l).copies := by
    unfold System.invalidateOthers
    split_ifs <;> rfl
  have hother : ∀ {l' : PAddr}, ¬ Same l l' → (s.snoopOthers i .cleanInvalid l).copies l' = s.copies l' :=
    fun hs => copies_snoopOthers_other hu _ hs
  constructor
  · intro l' j hn
    rw [hcopies]
    by_cases hs : Same l l'
    · rw [copies_same hs] at hn ⊢
      rw [copies_snoopOthers, copyOf_invalidated (by decide) (by decide)]
      split_ifs with hj
      · rw [← hj, hn]
      · rfl
    · rw [hother hs, hn]
  · rintro l' ⟨j, m, b, hc, hb⟩
    by_cases hs : Same l l'
    · rw [copies_same hs] at hc
      by_cases hj : j = i
      · subst hj
        refine .inl ⟨j, m, b, ?_, hb⟩
        rw [hcopies, copies_same hs, copies_snoopOthers, if_pos rfl, hc]
      · -- a dirty copy elsewhere answers the snoop with its data
        have ha : s.dataAvailable i .cleanInvalid l = true :=
          dataAvailable_iff.mpr ⟨j, responds_of_copy hu hj hc (anyByte_iff.mpr ⟨b, hb⟩)⟩
        rw [ccuBack, if_pos ha, lineOf_eq.mpr hs]
        exact .inr (List.mem_singleton_self _)
    · exact .inl ⟨j, m, b, by rw [hcopies, hother hs, hc], hb⟩
  · intro l' hl
    unfold System.invalidateOthers
    unfold ccuBack at hl
    split_ifs at hl ⊢
    · exact (writeMem _ l _ _).line hl
    · rfl

/-- A store keeps every copy and adds dirty bytes. -/
theorem storeHit (hu : s.Unique) (i : Fin N) (l : PAddr) (be : WordBe) (wdata : Word) :
    Keeps s (s.storeHit i l be wdata) [] := by
  refine ⟨fun hn => ?_, fun hd => .inl ?_, fun _ => rfl⟩
  · rename_i l' j
    rw [copies_storeHit hu, hn]
    split_ifs <;> rfl
  · rename_i l'
    obtain ⟨j, m, b, hc, hb⟩ := hd
    by_cases hj : j = i ∧ Same l l'
    · refine ⟨j, storeCopy l be wdata m, b, ?_, by simp [storeCopy, hb]⟩
      rw [copies_storeHit hu, if_pos hj, hc]
      rfl
    · exact ⟨j, m, b, by rw [copies_storeHit hu, if_neg hj, hc], hb⟩

theorem writeThrough (hu : s.Unique) (i : Fin N) (l : PAddr) (first : Fin N) (f : LineData → LineData) :
    Keeps s (Cores.writeThrough s i l first f) (s.ccuBack i l ++ [lineOf l]) :=
  (invalidateOthers hu i l first).trans (writeMem _ l _ _)

end Keeps

/-! ### Refills -/

section Refill
variable {m : Mshr} {w : Way} {first : Fin N}

/-- The miss handler of a refill into way `w`. -/
theorem refillWay_eq (hs : c.isInsideShareableRegions m.addr = true) :
    s.refillWay c i m w first = s.saved i (if m.we then .readUnique else .readShared) m.addr
      { MissHandler.reset with state := .reqCacheline, mshr := m, evictWay := oneHot w } first := by
  cases hwe : m.we <;> simp [refillWay, fetch, MissHandler.refillType, hs, hwe, saved]

variable (hu : s.Unique) (hs : c.isInsideShareableRegions m.addr = true) (hn : s.copies m.addr i = none)
  (hc : (s.cache i m.addr.index w).valid = true → ∀ b, (s.cache i m.addr.index w).dirty b = false)
include hu hs hn

theorem unique_refillWay : (s.refillWay c i m w first).Unique := by
  rw [refillWay_eq hs]
  exact unique_saved first hu hn rfl rfl _

include hc in
/-- A refill moves the dirty bytes of its line or leaves them, and loses none. -/
theorem dirty_refillWay {l : PAddr} (hd : s.Dirty l) : (s.refillWay c i m w first).Dirty l := by
  rw [refillWay_eq hs]
  generalize hq : ({ MissHandler.reset with
    state := .reqCacheline, mshr := m, evictWay := oneHot w } : MissHandler) = d
  have hw : d.evictWay = oneHot w := by rw [← hq]
  have hm : d.mshr.addr = m.addr := by rw [← hq]
  obtain ⟨j, n, b, hcopy, hb⟩ := hd
  by_cases hsame : Same m.addr l
  · refine Dirty.of_same hsame ?_
    rw [copies_same hsame] at hcopy
    have hj : j ≠ i := by
      rintro rfl
      simp [hn] at hcopy
    cases hwe : m.we
    · -- the owner stays the owner
      refine ⟨j, { n with shared := true }, b, ?_, hb⟩
      rw [copies_saved first hu hn hw hm, if_neg hj]
      simp [copyOf_readShared (hu j), show copyOf (s.cache j) m.addr = some n from hcopy]
    · -- the dirty bytes are handed over
      have hdirty : (s.readResp i .readUnique m.addr first).dirty = true := by
        have hr : s.dataAvailable i .readUnique m.addr = true :=
          dataAvailable_iff.mpr ⟨j, responds_of_copy hu hj hcopy rfl⟩
        have hpass : (snooped (s.cache j) .readUnique m.addr).crResp.passDirty = true := by
          rw [(snooped_some (hu j) _ hcopy).1]
          exact anyByte_iff.mpr ⟨b, hb⟩
        simp only [readResp, hr, if_true, List.any_eq_true]
        exact ⟨j, List.mem_finRange j, by simp [hj, hpass]⟩
      refine ⟨i, _, b, by rw [copies_saved first hu hn hw hm, if_pos rfl], ?_⟩
      simp [toCopy, MissHandler.saveLine, hdirty]
  · refine ⟨j, n, b, ?_, hb⟩
    rw [copies_saved_other first hu hn hw hm _ hsame]
    split_ifs with hj hh
    · -- the way of the refill was clean
      rw [hj, show s.copies l i = some (toCopy (s.cache i l.index w)) from copyOf_of_has (hu i) hh.2] at hcopy
      cases hcopy
      have hv := hh.2.1
      rw [hh.1] at hv
      exact absurd hb (by simp [toCopy, hh.1, hc hv])
    · rw [← hj, hcopy]
    · exact hcopy

/-- A store that misses leaves its bytes dirty. -/
theorem dirty_of_storeMiss (hwe : m.we = true) {k : Fin 8} (hk : m.be k = true) :
    (s.refillWay c i m w first).Dirty m.addr := by
  rw [refillWay_eq hs]
  refine ⟨i, _, byteOfLane m.addr.word k, by rw [copies_saved first hu hn rfl rfl, if_pos rfl], ?_⟩
  simp [toCopy, MissHandler.saveLine, hwe, placeBe_byteOfLane, hk]

/-- Only the refilling core gets a copy, and only of its line. -/
theorem absent_refillWay {l : PAddr} {j : Fin N} (hl : s.copies l j = none) (hij : j ≠ i ∨ ¬ Same m.addr l) :
    (s.refillWay c i m w first).copies l j = none := by
  rw [refillWay_eq hs]
  generalize hq : ({ MissHandler.reset with
    state := .reqCacheline, mshr := m, evictWay := oneHot w } : MissHandler) = d
  have hw : d.evictWay = oneHot w := by rw [← hq]
  have hm : d.mshr.addr = m.addr := by rw [← hq]
  by_cases hsame : Same m.addr l
  · have hj : j ≠ i := hij.resolve_right fun hh => hh hsame
    rw [copies_same hsame] at hl ⊢
    rw [copies_saved first hu hn hw hm, if_neg hj]
    cases hwe : m.we
    · simp [copyOf_readShared (hu j), show copyOf (s.cache j) m.addr = none from hl]
    · exact copyOf_invalidated (by simp) (by simp) _
  · rw [copies_saved_other first hu hn hw hm _ hsame]
    split_ifs with hj
    · rfl
    · rw [← hj, hl]
    · exact hl

end Refill
end System

namespace Cores
variable {N w : ℕ} {c : Cfg} {s : Cores N} {a : Act N} {i : Fin N} {l : PAddr}

/-- No array holds a line twice, and an atomic is served without an own copy. -/
structure Inv (s : Cores N) : Prop where
  unique : s.sys.Unique
  serving : ∀ {i l}, s.serving i = some l → s.sys.copies l i = none

theorem hitWay_eq_false (t : System N) (i : Fin N) (l : PAddr) :
    anyWay (t.hitWay i l) = false ↔ t.copies l i = none := by
  rw [System.hitWay, anyWay_hitWay]
  rfl

/-- What the guard of a refill says about copies. -/
theorem may_refill {m : Mshr} {v : Way} {first : Fin N} (hm : s.may c w (.refill i m v first)) :
    c.isInsideShareableRegions m.addr = true ∧ s.sys.copies m.addr i = none ∧
      ((s.sys.cache i m.addr.index v).valid = true → ∀ b, (s.sys.cache i m.addr.index v).dirty b = false) := by
  obtain ⟨-, hh, hs, hv⟩ := hm
  refine ⟨hs, (hitWay_eq_false _ _ _).mp hh, fun hval => ?_⟩
  rw [hval, Bool.true_and] at hv
  exact anyByte_eq_false_iff.mp hv

theorem unique_writeThrough {t : System N} (hu : t.Unique) (i : Fin N) (l : PAddr) (first : Fin N)
    (f : LineData → LineData) : (writeThrough t i l first f).Unique :=
  System.unique_invalidateOthers hu l first

theorem unique_sysAfter (h : s.Inv) (hm : s.may c w a) : (s.sysAfter c w a).Unique := by
  cases a with
  | load i l => exact h.unique
  | store i l be wdata => exact System.unique_storeHit h.unique i l be wdata
  | upgrade i l first => exact System.unique_invalidateOthers h.unique l first
  | refill i m v first =>
    obtain ⟨hs, hn, -⟩ := may_refill hm
    exact System.unique_refillWay h.unique hs hn
  | evict i idx v => exact System.unique_evict h.unique idx v
  | flush i idx => exact System.unique_flushSet h.unique idx
  | amoWb i l => exact System.unique_dropOwn h.unique l
  | lr i id first =>
    simp only [sysAfter]
    split
    · exact h.unique
    · exact System.unique_invalidateOthers h.unique _ first
  | sc i id first f =>
    simp only [sysAfter]
    split
    · exact h.unique
    · split_ifs
      · exact unique_writeThrough h.unique i _ first f
      · exact System.unique_invalidateOthers h.unique _ first
  | amo i id first f =>
    simp only [sysAfter]
    split
    · exact h.unique
    · exact unique_writeThrough h.unique i _ first f
  | writeUnique i l first f => exact unique_writeThrough h.unique i l first f

/-- Every step but a refill keeps the copies it does not write back. -/
theorem keeps_act (h : s.Inv) (hr : ∀ i m v first, a ≠ .refill i m v first) :
    System.Keeps s.sys (s.sysAfter c w a) (s.written w a) := by
  cases a with
  | load i l => exact .refl _
  | store i l be wdata => exact .storeHit h.unique i l be wdata
  | upgrade i l first => exact .invalidateOthers h.unique i l first
  | refill i m v first => exact absurd rfl (hr i m v first)
  | evict i idx v => exact .evict (h.unique i) idx v
  | flush i idx => exact .flushSet (h.unique i) idx
  | amoWb i l => exact .dropOwn (h.unique i) l
  | lr i id first =>
    simp only [sysAfter, written]
    split
    · exact .refl _
    · exact .invalidateOthers h.unique i _ first
  | sc i id first f =>
    simp only [sysAfter, written]
    split
    · exact .refl _
    · split_ifs
      · exact .writeThrough h.unique i _ first f
      · rw [List.append_nil]
        exact .invalidateOthers h.unique i _ first
  | amo i id first f =>
    simp only [sysAfter, written]
    split
    · exact .refl _
    · exact .writeThrough h.unique i _ first f
  | writeUnique i l first f => exact .writeThrough h.unique i l first f

theorem dirty_act (h : s.Inv) (hm : s.may c w a) (hd : s.sys.Dirty l) :
    (s.sysAfter c w a).Dirty l ∨ lineOf l ∈ s.written w a := by
  by_cases hr : ∃ i m v first, a = .refill i m v first
  · obtain ⟨i, m, v, first, rfl⟩ := hr
    obtain ⟨hs, hn, hc⟩ := may_refill hm
    exact .inl (System.dirty_refillWay h.unique hs hn hc hd)
  · push Not at hr
    exact (keeps_act h hr).dirty hd

/-- A core without a copy gets one only by its own refill of the line. -/
theorem absent_act (h : s.Inv) (hm : s.may c w a) (hl : s.sys.copies l i = none)
    (hr : ∀ m v first, a = .refill i m v first → lineOf m.addr ≠ lineOf l) :
    (s.sysAfter c w a).copies l i = none := by
  by_cases hf : ∃ j m v first, a = .refill j m v first
  · obtain ⟨j, m, v, first, rfl⟩ := hf
    obtain ⟨hs, hn, -⟩ := may_refill hm
    refine System.absent_refillWay h.unique hs hn hl ?_
    by_cases hij : i = j
    · subst hij
      exact .inr fun hh => hr m v first rfl (lineOf_eq.mpr hh).symm
    · exact .inl hij
  · push Not at hf
    exact (keeps_act h hf).absent hl

/-- An atomic is being served since AMO_WB, and its core does not refill meanwhile. -/
theorem servingAfter_eq (hi : s.servingAfter a i = some l) (hm : s.may c w a) :
    a = .amoWb i l ∨ (s.serving i = some l ∧ ∀ m v first, a ≠ .refill i m v first) := by
  cases a with
  | amoWb j l' =>
    simp only [servingAfter, Function.update_apply] at hi
    split_ifs at hi with hj
    · left
      rw [hj, Option.some.inj hi]
    · exact .inr ⟨hi, by simp⟩
  | lr j | sc j | amo j =>
    simp only [servingAfter, Function.update_apply] at hi
    split_ifs at hi
    exact .inr ⟨hi, by simp⟩
  | refill j m v first =>
    refine .inr ⟨hi, fun m' v' first' he => ?_⟩
    cases he
    exact absurd (hm.1.symm.trans hi) (by simp)
  | _ => exact .inr ⟨hi, by simp⟩

theorem inv_act (h : s.Inv) (hm : s.may c w a) : (s.act c w a).Inv := by
  refine ⟨unique_sysAfter h hm, fun {i l} hi => ?_⟩
  rcases servingAfter_eq hi hm with rfl | ⟨hold, hr⟩
  · exact System.copies_dropOwn h.unique l
  · exact absent_act h hm (h.serving hold) fun m v first he => absurd he (hr m v first)

theorem inv_init (h : (machine c w N).init s) : s.Inv := by
  have h : s.IsReset := h
  refine ⟨(System.inv_init (c := c) h.cache).unique, fun {i l} hi => ?_⟩
  simp [h.serving i] at hi

/-! ### Reservations -/

/-- A foreign store leaves the line dirty or memory written. -/
theorem dirty_or_written {j : Fin N} (h : s.Inv) (hm : s.may c w a) (hp : s.performs w (lineOf l) j a) :
    (s.sysAfter c w a).Dirty l ∨ lineOf l ∈ s.written w a := by
  cases a with
  | store i l' be wdata =>
    obtain ⟨rfl, hl, k, hk⟩ := hp
    have hs : Same l' l := lineOf_eq.mp hl.symm
    obtain ⟨m, hc⟩ : ∃ m, s.sys.copies l' i = some m := by
      rw [← Option.ne_none_iff_exists', Ne, ← hitWay_eq_false, hm.1]
      decide
    refine .inl (System.Dirty.of_same hs ⟨i, storeCopy l' be wdata m, byteOfLane l'.word k, ?_, ?_⟩)
    · show (s.sys.storeHit i l' be wdata).copies l' i = _
      rw [System.copies_storeHit h.unique, if_pos ⟨rfl, rfl, rfl⟩, hc]
      rfl
    · simp [storeCopy, placeBe_byteOfLane, hk]
  | refill i m v first =>
    obtain ⟨rfl, hl, hwe, k, hk⟩ := hp
    obtain ⟨hs, hn, -⟩ := may_refill hm
    exact .inl (System.Dirty.of_same (lineOf_eq.mp hl.symm) (System.dirty_of_storeMiss h.unique hs hn hwe hk))
  | amo i id first f =>
    obtain ⟨rfl, hl⟩ := hp
    obtain ⟨l', hl', hx⟩ := Option.map_eq_some_iff.mp hl
    simp [written, hl', hx]
  | sc i id first f =>
    obtain ⟨rfl, hl, hx⟩ := hp
    obtain ⟨l', hl', he⟩ := Option.map_eq_some_iff.mp hl
    simp [written, hl', hx, he]
  | writeUnique i l' first f => simp [written, hp.2]
  | _ => exact hp.elim

/-- The reservation of a core after a step: set by its own LR, or kept. -/
theorem tableAfter_eq {x : Line} (h : s.tableAfter w a i = some x) (hm : s.may c w a) :
    (∃ id first l, a = .lr i id first ∧ s.serving i = some l ∧ lineOf l = x) ∨
      (s.table i = some x ∧ x ∉ s.written w a ∧ ∀ id first, a ≠ .lr i id first) := by
  cases a with
  | lr j id first =>
    obtain ⟨l, hl⟩ := Option.isSome_iff_exists.mp hm.1
    simp only [tableAfter, hl, ResTable.set, ccuUser_muxId j.isLt hm.2, Function.update_apply] at h
    split_ifs at h with hj
    · left
      have hij : i = j := Fin.ext hj
      exact ⟨id, first, l, by rw [hij], by rw [hij, hl], Option.some.inj h⟩
    · obtain ⟨hx, hn⟩ := ResTable.clearAll_eq.mp h
      refine .inr ⟨hx, hn, fun id' first' he => ?_⟩
      cases he
      exact hj rfl
  | _ =>
    obtain ⟨hx, hn⟩ := ResTable.clearAll_eq.mp h
    exact .inr ⟨hx, hn, by simp⟩

/-- The run so far, latest step first, with the state each step was taken in. -/
abbrev History (N : ℕ) := List (Cores N × Act N)

/-- What `later` has seen since an LR of core `i` to the line. -/
structure SinceLr (h later : History N) (i : Fin N) (x : Line) : Prop where
  lr : ∃ t id first earlier, h = later ++ (t, .lr i id first) :: earlier ∧ (t.serving i).map lineOf = some x
  matching : ∀ e ∈ later, ∀ id first, e.2 ≠ .lr i id first

/-- A set reservation: no foreign store since the LR, or the line is still dirty somewhere. -/
def Guarded (w : ℕ) (s : Cores N) (h : History N) : Prop :=
  ∀ (i : Fin N) (l : PAddr), s.table i = some (lineOf l) → ∃ later, SinceLr h later i (lineOf l) ∧
    ((∀ e ∈ later, ∀ j, j ≠ i → ¬ e.1.performs w (lineOf l) j e.2) ∨ s.sys.Dirty l)

theorem guarded_act {h : History N} (hi : s.Inv) (hg : Guarded w s h) (hm : s.may c w a) :
    Guarded w (s.act c w a) ((s, a) :: h) := by
  intro i l ht
  rcases tableAfter_eq ht hm with ⟨id, first, l', rfl, hs, hl⟩ | ⟨hold, hn, hne⟩
  · exact ⟨[], ⟨⟨s, id, first, h, rfl, by rw [hs, Option.map_some, hl]⟩, by simp⟩, .inl (by simp)⟩
  · obtain ⟨later, ⟨⟨t, id, first, earlier, hh, hx⟩, hmatch⟩, hclean⟩ := hg i l hold
    refine ⟨(s, a) :: later, ⟨⟨t, id, first, earlier, by rw [hh]; rfl, hx⟩, ?_⟩, ?_⟩
    · rintro e (_ | ⟨_, he⟩)
      · exact hne
      · exact hmatch e he
    · rcases hclean with hclean | hd
      · by_cases hp : ∃ j, j ≠ i ∧ s.performs w (lineOf l) j a
        · obtain ⟨j, -, hp⟩ := hp
          exact .inr ((dirty_or_written hi hm hp).resolve_right hn)
        · push Not at hp
          left
          rintro e (_ | ⟨_, he⟩)
          · exact hp
          · exact hclean e he
      · exact .inr ((dirty_act hi hm hd).resolve_right hn)

/-- The cores with their history. -/
def observed (c : Cfg) (w N : ℕ) : Machine (Cores N × History N) (Act N) :=
  (machine c w N).observe [] fun h s a => (s, a) :: h

theorem guarded_reachable {x : Cores N × History N}
    (hr : (observed c w N).Reachable (fun y a => y.1.may c w a) x) : x.1.Inv ∧ Guarded w x.1 x.2 := by
  refine Machine.Reachable.invariant (P := fun y : Cores N × History N => y.1.Inv ∧ Guarded w y.1 y.2)
    (fun y hy => ?_) (fun y a hy hm => ⟨inv_act hy.1 hm, guarded_act hy.1 hy.2 hm⟩) hr
  refine ⟨inv_init hy.1, fun i l ht => ?_⟩
  rw [(show y.1.IsReset from hy.1).table] at ht
  cases ht

/-- A successful store-conditional follows an LR of the same core to the line, with no store, AMO
or store-conditional of another core to the line in between. -/
theorem sc_atomic {x : Cores N × History N} (hr : (observed c w N).Reachable (fun y a => y.1.may c w a) x)
    {i : Fin N} {id : ℕ} {first : Fin N} {f : LineData → LineData} {size : BitVec 2}
    (hm : x.1.may c w (.sc i id first f)) (hok : x.1.scResult w i id size = fun _ => 0) :
    ∃ l later t id' first' earlier, x.1.serving i = some l ∧
      x.2 = later ++ (t, .lr i id' first') :: earlier ∧ (t.serving i).map lineOf = some (lineOf l) ∧
      (∀ e ∈ later, ∀ id first, e.2 ≠ .lr i id first) ∧
      ∀ e ∈ later, ∀ j, j ≠ i → ¬ e.1.performs w (lineOf l) j e.2 := by
  obtain ⟨hi, hg⟩ := guarded_reachable hr
  obtain ⟨l, hl⟩ := Option.isSome_iff_exists.mp hm.1
  have hex : x.1.exokay w i id = true := by
    by_contra hn
    rw [scResult, if_neg hn] at hok
    simpa [AxiAdapter.scFailure] using congrFun hok 0
  simp only [exokay, hl, ccuUser_muxId i.isLt hm.2, beq_iff_eq] at hex
  obtain ⟨ht, hback⟩ := ResTable.clearAll_eq.mp hex
  obtain ⟨later, ⟨⟨t, id', first', earlier, hh, hx⟩, hmatch⟩, hclean⟩ := hg i l ht
  refine ⟨l, later, t, id', first', earlier, hl, hh, hx, hmatch, hclean.resolve_right ?_⟩
  -- a dirty copy would be elsewhere, and the CCU would have written it back
  rintro ⟨j, m, b, hc, hb⟩
  refine hback ?_
  have hj : j ≠ i := by
    rintro rfl
    simp [hi.serving hl] at hc
  have ha : x.1.sys.dataAvailable i .cleanInvalid l = true :=
    System.dataAvailable_iff.mpr ⟨j, System.responds_of_copy hi.unique hj hc (anyByte_iff.mpr ⟨b, hb⟩)⟩
  simp [System.ccuBack, ha]

section Runs

instance (c : Cfg) (w : ℕ) (s : Cores N) (a : Act N) : Decidable (s.may c w a) :=
  match a with
  | .load _ _ | .writeUnique _ _ _ _ => inferInstanceAs (Decidable True)
  | .store _ _ _ _ | .upgrade _ _ _ => inferInstanceAs (Decidable (_ ∧ _))
  | .refill _ _ _ _ => inferInstanceAs (Decidable (_ ∧ _ ∧ _ ∧ _))
  | .evict _ _ _ | .flush _ _ | .amoWb _ _ => inferInstanceAs (Decidable (_ = _))
  | .lr _ _ _ | .sc _ _ _ _ | .amo _ _ _ _ => inferInstanceAs (Decidable (_ ∧ _))

def empty : Cores 2 := ⟨System.empty, fun _ => none, fun _ => none, fun _ => none⟩

/-- A store miss of core 1. -/
def otherStore : Act 2 := .refill 1 ⟨2, true, true, ⟨2, 1, 0⟩, fun _ => 7, fun _ => true, false⟩ 0 0

/-- Core 1 stores to the line, then core 0 reserves it and is about to send its store-conditional. -/
def storeThenPair : List (Act 2) := [otherStore, .amoWb 0 ⟨2, 1, 0⟩, .lr 0 0 0, .amoWb 0 ⟨2, 1, 8⟩]

set_option maxRecDepth 10000 in
theorem sc_atomic_run :
    let x := (observed System.shareableCfg 1 2).run (empty, []) storeThenPair
    x.1.scResult 1 0 0 3 = (fun _ => 0) ∧ ∃ l later t id first earlier, x.1.serving 0 = some l ∧
      x.2 = later ++ (t, .lr 0 id first) :: earlier ∧ (t.serving 0).map lineOf = some (lineOf l) ∧
      (∀ e ∈ later, ∀ id first, e.2 ≠ .lr 0 id first) ∧
      ∀ e ∈ later, ∀ j, j ≠ 0 → ¬ e.1.performs 1 (lineOf l) j e.2 := by
  have hr : (observed System.shareableCfg 1 2).Reachable (fun y a => y.1.may System.shareableCfg 1 a)
      ((observed System.shareableCfg 1 2).run (empty, []) storeThenPair) := by
    have h0 : (observed System.shareableCfg 1 2).init (empty, []) :=
      ⟨⟨fun _ _ _ => rfl, fun _ => rfl, fun _ => rfl, fun _ => rfl⟩, rfl⟩
    exact .run (.init h0) (by decide +kernel)
  have hok : ((observed System.shareableCfg 1 2).run (empty, []) storeThenPair).1.scResult 1 0 0 3 = fun _ => 0 := by
    decide +kernel
  have hm : ((observed System.shareableCfg 1 2).run (empty, []) storeThenPair).1.may System.shareableCfg 1
      (.sc 0 0 0 id) := by
    decide +kernel
  exact ⟨hok, sc_atomic hr hm hok⟩

/-- A store of core 1 between the two, which goes no further than its cache, makes the store-conditional fail. -/
example : ((machine System.shareableCfg 1 2).run empty
    [.amoWb 0 ⟨2, 1, 0⟩, .lr 0 0 0, otherStore, .amoWb 0 ⟨2, 1, 8⟩]).scResult 1 0 0 3 ≠ fun _ => 0 := by
  decide +kernel

end Runs
end Cores
end Culsans.Coherence
