import Culsans.Coherence.System

/-! # The copy of a line in a cache

With unique tags an array holds at most one copy of a line. Every array write of the
controllers acts on the copy of one line and leaves the other lines alone, except that
a refill or an eviction also drops what was in its way.
-/

namespace Culsans.Coherence
open Dcache Library

variable {a a' : CacheArray} {l l' : PAddr} {w : Way}

/-- No set holds two valid ways with one tag. -/
def UniqueTags (a : CacheArray) : Prop :=
  ∀ idx w v, (a idx w).valid = true → (a idx v).valid = true → (a idx w).tag = (a idx v).tag → w = v

/-- The way holds the line. -/
def Has (a : CacheArray) (l : PAddr) (w : Way) : Prop :=
  (a l.index w).valid = true ∧ (a l.index w).tag = l.tag

instance : Decidable (Has a l w) := inferInstanceAs (Decidable (_ ∧ _))

/-- Two addresses of one line. -/
def Same (l l' : PAddr) : Prop := l'.tag = l.tag ∧ l'.index = l.index

def toCopy (l : CacheLine) : Copy (Fin 16) Byte := ⟨l.data, l.dirty, l.shared⟩

/-- The copy of a line. -/
def copyOf (a : CacheArray) (l : PAddr) : Option (Copy (Fin 16) Byte) :=
  ((List.finRange 8).find? (TagCmp.hitWay (a l.index) l.tag)).map fun w => toCopy (a l.index w)

theorem hitWay_iff_has : TagCmp.hitWay (a l.index) l.tag w = true ↔ Has a l w := by
  rw [TagCmp.hitWay_iff, Has, and_comm]

theorem copyOf_eq_none : copyOf a l = none ↔ ∀ w, ¬ Has a l w := by
  simp [copyOf, ← hitWay_iff_has]

theorem has_of_copyOf {m : Copy (Fin 16) Byte} (h : copyOf a l = some m) :
    ∃ w, Has a l w ∧ m = toCopy (a l.index w) := by
  simp only [copyOf, Option.map_eq_some_iff] at h
  obtain ⟨w, hw, rfl⟩ := h
  exact ⟨w, hitWay_iff_has.mp (List.find?_some hw), rfl⟩

theorem Has.unique {v : Way} (hu : UniqueTags a) (hw : Has a l w) (hv : Has a l v) : v = w :=
  hu l.index v w hv.1 hw.1 (hv.2.trans hw.2.symm)

theorem copyOf_of_has (hu : UniqueTags a) (h : Has a l w) : copyOf a l = some (toCopy (a l.index w)) := by
  cases hc : copyOf a l with
  | none => exact absurd h (copyOf_eq_none.mp hc w)
  | some m =>
    obtain ⟨v, hv, rfl⟩ := has_of_copyOf hc
    rw [h.unique hu hv]

theorem anyWay_hitWay : anyWay (TagCmp.hitWay (a l.index) l.tag) = false ↔ copyOf a l = none := by
  rw [anyWay_eq_false_iff, copyOf_eq_none]
  simp [← hitWay_iff_has]

/-- The copy of a line follows the ways that hold it. -/
theorem copyOf_map {g : Copy (Fin 16) Byte → Copy (Fin 16) Byte} (hu : UniqueTags a')
    (h : ∀ w, (Has a' l w ↔ Has a l w) ∧ (Has a l w → toCopy (a' l.index w) = g (toCopy (a l.index w)))) :
    copyOf a' l = (copyOf a l).map g := by
  cases hc : copyOf a l with
  | none => exact copyOf_eq_none.mpr fun w hw => copyOf_eq_none.mp hc w ((h w).1.mp hw)
  | some m =>
    obtain ⟨w, hw, rfl⟩ := has_of_copyOf hc
    rw [copyOf_of_has hu ((h w).1.mpr hw), (h w).2 hw]
    rfl

theorem copyOf_congr (hu : UniqueTags a')
    (h : ∀ w, a' l.index w = a l.index w ∨ (¬ Has a l w ∧ ¬ Has a' l w)) : copyOf a' l = copyOf a l := by
  have hmap : copyOf a' l = (copyOf a l).map id := by
    refine copyOf_map hu fun w => ?_
    rcases h w with he | ⟨hn, hn'⟩
    · exact ⟨by rw [Has, Has, he], fun _ => by rw [he]; rfl⟩
    · exact ⟨⟨fun hh => absurd hh hn', fun hh => absurd hh hn⟩, fun hh => absurd hh hn⟩
  rw [hmap, Option.map_id]
  rfl

/-- A write that makes no way valid and moves no tag keeps tags unique. -/
theorem UniqueTags.of_sub (hu : UniqueTags a)
    (h : ∀ idx w, (a' idx w).valid = true → (a idx w).valid = true ∧ (a' idx w).tag = (a idx w).tag) :
    UniqueTags a' := by
  intro idx w v hw hv ht
  obtain ⟨hw', htw⟩ := h idx w hw
  obtain ⟨hv', htv⟩ := h idx v hv
  exact hu idx w v hw' hv' (by rw [← htw, ← htv, ht])

/-! ### Array writes -/

/-- A write to one set, way by way. -/
theorem write_apply {p : ArrayPort} (hw : p.we = true)
    (hn : p.active = false → ∀ w, (a p.addr w).write p w = a p.addr w) (idx : Index) (w : Way) :
    a.write p idx w = if idx = p.addr then (a idx w).write p w else a idx w := by
  rw [CacheArray.write]
  by_cases hi : idx = p.addr
  · cases ha : p.active
    · simp [hi, hn ha]
    · simp [hi, hw]
  · simp [hi]

theorem write_clear (idx : Index) (ways : WaySet) (idx' : Index) (w : Way) :
    a.write (MissHandler.clearStatus idx ways) idx' w =
      if idx' = idx ∧ ways w = true then (a idx' w).invalidated else a idx' w := by
  have ha : (MissHandler.clearStatus idx ways).active = true := by
    simp [ArrayPort.active, MissHandler.clearStatus]
  rw [write_apply rfl (by simp [ha]), CacheLine.write_clearStatus]
  have hadr : (MissHandler.clearStatus idx ways).addr = idx := rfl
  rw [hadr]
  by_cases hi : idx' = idx <;> simp [hi]

theorem unique_clear (hu : UniqueTags a) (idx : Index) (ways : WaySet) :
    UniqueTags (a.write (MissHandler.clearStatus idx ways)) := by
  refine hu.of_sub fun idx' w hv => ?_
  rw [write_clear] at hv ⊢
  split_ifs at hv ⊢
  · simp [CacheLine.invalidated] at hv
  · exact ⟨hv, rfl⟩

theorem has_clear {idx : Index} {ways : WaySet} :
    Has (a.write (MissHandler.clearStatus idx ways)) l w ↔ Has a l w ∧ ¬(l.index = idx ∧ ways w = true) := by
  unfold Has
  rw [write_clear]
  split_ifs with h
  · simp [CacheLine.invalidated, h]
  · simp [h]

/-- Clearing a way drops the line that is in it. -/
theorem copyOf_clear_own (hu : UniqueTags a) (h : Has a l w) :
    copyOf (a.write (MissHandler.clearStatus l.index (oneHot w))) l = none := by
  refine copyOf_eq_none.mpr fun v hv => ?_
  rw [has_clear] at hv
  exact hv.2 ⟨rfl, by simp [h.unique hu hv.1, oneHot]⟩

theorem copyOf_clear_other (hu : UniqueTags a) {idx : Index} {ways : WaySet}
    (h : ∀ w, l.index = idx → ways w = true → ¬ Has a l w) :
    copyOf (a.write (MissHandler.clearStatus idx ways)) l = copyOf a l := by
  refine copyOf_congr (unique_clear hu idx ways) fun v => ?_
  rw [write_clear]
  split_ifs with hv
  · exact .inr ⟨h v hv.1 hv.2, fun hh => h v hv.1 hv.2 (has_clear.mp hh).1⟩
  · exact .inl rfl

/-! ### Snoops -/

/-- What a snoop does to a line it hits. -/
def snoopEffect (k : AcSnoop) (x : CacheLine) : CacheLine :=
  match k with
  | .readOnce => x
  | .readShared => { x with shared := true }
  | _ => x.invalidated

/-- The state the snoop goes to. -/
theorem snooped_state (k : AcSnoop) : (snooped a k l).state =
    if anyWay (TagCmp.hitWay (a l.index) l.tag) then
      match k with
      | .readOnce => .sendCrResp
      | .readShared => .updateShared
      | _ => .invalidate
    else .sendCrResp := by
  simp only [snooped, SnoopCtrl.stepEvalFlags, snoopIn]
  cases hh : anyWay (TagCmp.hitWay (a l.index) l.tag)
  · rfl
  · cases k <;> rfl

theorem afterSnoop_miss (k : AcSnoop) (h : anyWay (TagCmp.hitWay (a l.index) l.tag) = false) :
    afterSnoop a k l = a := by
  have hs : (snooped a k l).state = .sendCrResp := by simp [snooped_state, h]
  rw [afterSnoop, SnoopCtrl.port, hs]
  exact CacheArray.write_of_not_we rfl

theorem afterSnoop_apply (k : AcSnoop) (idx : Index) (w : Way) : afterSnoop a k l idx w =
    if idx = l.index ∧ TagCmp.hitWay (a l.index) l.tag w = true then snoopEffect k (a idx w) else a idx w := by
  cases hh : anyWay (TagCmp.hitWay (a l.index) l.tag)
  · rw [afterSnoop_miss k hh, if_neg]
    simp [anyWay_eq_false_iff.mp hh w]
  · have hact : ∀ p : ArrayPort, p.req = TagCmp.hitWay (a l.index) l.tag → p.active = true := by
      intro p hp
      rw [ArrayPort.active, hp, hh]
    have hst := snooped_state (a := a) (l := l) k
    rw [hh, if_pos rfl] at hst
    have hset : ∀ (p : ArrayPort) (g : CacheLine → CacheLine), p.req = TagCmp.hitWay (a l.index) l.tag →
        p.we = true → p.addr = l.index →
        (∀ x : CacheLine, x.write p w = if TagCmp.hitWay (a l.index) l.tag w = true then g x else x) →
        a.write p idx w =
          if idx = l.index ∧ TagCmp.hitWay (a l.index) l.tag w = true then g (a idx w) else a idx w := by
      intro p g hr hw ha hx
      rw [write_apply hw (by simp [hact p hr]), ha, hx]
      by_cases hi : idx = l.index <;> simp [hi]
    rw [afterSnoop, SnoopCtrl.port]
    cases k <;> simp only [hst, snoopEffect]
    case readOnce => rw [CacheArray.write_of_not_we rfl]; simp
    case readShared =>
      exact hset (SnoopCtrl.updateSharedWrite _) (fun x => { x with shared := true }) rfl rfl rfl
        fun x => CacheLine.write_updateShared x w _
    all_goals
      exact hset (SnoopCtrl.invalidateWrite _) CacheLine.invalidated rfl rfl rfl
        fun x => CacheLine.write_invalidate x w _

theorem unique_afterSnoop (hu : UniqueTags a) (k : AcSnoop) (l : PAddr) : UniqueTags (afterSnoop a k l) := by
  refine hu.of_sub fun idx w hv => ?_
  rw [afterSnoop_apply] at hv ⊢
  split_ifs at hv ⊢
  · cases k <;> simp_all [snoopEffect, CacheLine.invalidated]
  · exact ⟨hv, rfl⟩

theorem Has.of_same (hs : Same l l') (h : Has a l' w) : Has a l w := by
  unfold Has at h ⊢
  rwa [← hs.2, ← hs.1]

/-- A snoop of another line leaves the copy alone. -/
theorem copyOf_afterSnoop_other (hu : UniqueTags a) (k : AcSnoop) (hn : ¬ Same l l') :
    copyOf (afterSnoop a k l) l' = copyOf a l' := by
  refine copyOf_congr (unique_afterSnoop hu k l) fun w => ?_
  rw [afterSnoop_apply]
  split_ifs with h
  · have hh : Has a l w := hitWay_iff_has.mp h.2
    refine .inr ⟨fun hw => hn ⟨?_, h.1⟩, fun hw => hn ⟨?_, h.1⟩⟩
    · rw [← hw.2, h.1]
      exact hh.2
    · have ht : (afterSnoop a k l l'.index w).tag = (a l'.index w).tag := by
        rw [afterSnoop_apply, if_pos h]
        cases k <;> rfl
      rw [← hw.2, ht, h.1]
      exact hh.2
  · exact .inl rfl

theorem copyOf_same (hs : Same l l') : copyOf a l' = copyOf a l := by
  rw [copyOf, copyOf, hs.1, hs.2]

theorem copyOf_readShared (hu : UniqueTags a) (l : PAddr) :
    copyOf (afterSnoop a .readShared l) l = (copyOf a l).map fun m => { m with shared := true } := by
  refine copyOf_map (unique_afterSnoop hu _ l) fun w => ?_
  unfold Has
  rw [afterSnoop_apply]
  split_ifs with h
  · exact ⟨Iff.rfl, fun _ => rfl⟩
  · refine ⟨Iff.rfl, fun hh => absurd ⟨rfl, hitWay_iff_has.mpr hh⟩ h⟩

/-- An invalidating snoop leaves no copy. -/
theorem copyOf_invalidated {k : AcSnoop} (hk : k ≠ .readOnce) (hk' : k ≠ .readShared) (l : PAddr) :
    copyOf (afterSnoop a k l) l = none := by
  refine copyOf_eq_none.mpr fun w hw => ?_
  unfold Has at hw
  rw [afterSnoop_apply] at hw
  split_ifs at hw with h
  · cases k <;> simp_all [snoopEffect, CacheLine.invalidated]
  · exact h ⟨rfl, hitWay_iff_has.mpr hw⟩

/-- The answer to a snoop of a line that is not there. -/
theorem snooped_none (k : AcSnoop) (h : copyOf a l = none) : (snooped a k l).crResp = .zero := by
  simp [snooped, SnoopCtrl.stepEvalFlags, evalFlags, snoopIn, anyWay_hitWay.mpr h, CrResp.zero, SnoopCtrl.reset]

/-- The answer to a snoop of a line that is there. -/
theorem snooped_some (hu : UniqueTags a) (k : AcSnoop) {m : Copy (Fin 16) Byte} (h : copyOf a l = some m) :
    (snooped a k l).crResp = (evalFlags k true (anyByte m.dirty) m.shared).crResp ∧
      (snooped a k l).cacheData = m.data := by
  obtain ⟨w, hw, rfl⟩ := has_of_copyOf h
  have hany : anyWay (TagCmp.hitWay (a l.index) l.tag) = true := anyWay_iff.mpr ⟨w, hitWay_iff_has.mpr hw⟩
  have hone : ∀ f : Way → Bool, (anyWay fun v => f v && TagCmp.hitWay (a l.index) l.tag v) = f w := by
    intro f
    rw [Bool.eq_iff_iff, anyWay_iff]
    constructor
    · rintro ⟨v, hv⟩
      rw [Bool.and_eq_true, hitWay_iff_has] at hv
      rw [← hw.unique hu hv.2]
      exact hv.1
    · intro hf
      exact ⟨w, by rw [Bool.and_eq_true, hitWay_iff_has]; exact ⟨hf, hw⟩⟩
  obtain ⟨v, hv, hsel⟩ := CacheCtrl.selectLine_spec (a l.index) hany
  rw [hw.unique hu (hitWay_iff_has.mp hv)] at hsel
  refine ⟨?_, ?_⟩
  · simp only [snooped, SnoopCtrl.stepEvalFlags, snoopIn, hany, hone, toCopy, SnoopCtrl.reset, CrResp.zero]
    cases k <;> rfl
  · simp only [snooped, SnoopCtrl.stepEvalFlags, snoopIn, hany, if_true, hsel]
    rfl

/-! ### Stores and refills -/

/-- A store writes the bytes of its copy and makes it unshared. -/
def storeCopy (l : PAddr) (be : WordBe) (wdata : Word) (m : Copy (Fin 16) Byte) : Copy (Fin 16) Byte where
  data b := if placeBe l.word be b then wdata (laneOfByte b) else m.data b
  dirty b := placeBe l.word be b || m.dirty b
  shared := false

section Store
variable {q : CacheCtrl} (hq : q.hitWay = TagCmp.hitWay (a l.index) l.tag) (ha : q.memReq.addr = l)
include hq ha

theorem write_store (idx : Index) (w : Way) : a.write q.storeWrite idx w =
    if idx = l.index ∧ TagCmp.hitWay (a l.index) l.tag w = true then q.storeLine (a idx w) else a idx w := by
  have hn : q.storeWrite.active = false → ∀ w, (a q.storeWrite.addr w).write q.storeWrite w =
    a q.storeWrite.addr w := by
    intro h v
    have hv : q.hitWay v = false := anyWay_eq_false_iff.mp h v
    simp [CacheLine.write_storeWrite, hv]
  have hadr : q.storeWrite.addr = l.index := congrArg PAddr.index ha
  rw [write_apply rfl hn, CacheLine.write_storeWrite, hadr, hq]
  by_cases hi : idx = l.index <;> simp [hi]

theorem unique_store (hu : UniqueTags a) : UniqueTags (a.write q.storeWrite) := by
  refine hu.of_sub fun idx w hv => ?_
  rw [write_store hq ha] at hv ⊢
  split_ifs at hv ⊢ with h
  · have hh := hitWay_iff_has.mp h.2
    rw [h.1]
    exact ⟨hh.1, rfl⟩
  · exact ⟨hv, rfl⟩

theorem copyOf_store (hu : UniqueTags a) :
    copyOf (a.write q.storeWrite) l = (copyOf a l).map (storeCopy l q.memReq.be q.memReq.wdata) := by
  refine copyOf_map (unique_store hq ha hu) fun w => ?_
  unfold Has
  rw [write_store hq ha]
  split_ifs with h
  · have hh := hitWay_iff_has.mp h.2
    refine ⟨⟨fun _ => hh, fun _ => ⟨rfl, hh.2⟩⟩, fun _ => ?_⟩
    simp only [toCopy, CacheCtrl.storeLine, storeCopy, ha]
  · exact ⟨Iff.rfl, fun hh => absurd ⟨rfl, hitWay_iff_has.mpr hh⟩ h⟩

theorem copyOf_store_other (hu : UniqueTags a) (hn : ¬ Same l l') :
    copyOf (a.write q.storeWrite) l' = copyOf a l' := by
  refine copyOf_congr (unique_store hq ha hu) fun w => ?_
  rw [write_store hq ha]
  split_ifs with h
  · have hh := hitWay_iff_has.mp h.2
    refine .inr ⟨fun hw => hn ⟨?_, h.1⟩, fun hw => hn ⟨?_, h.1⟩⟩
    · rw [← hw.2, h.1]
      exact hh.2
    · have ht : (a.write q.storeWrite l'.index w).tag = (a l'.index w).tag := by
        rw [write_store hq ha, if_pos h]
        rfl
      rw [← hw.2, ht, h.1]
      exact hh.2
  · exact .inl rfl

end Store

theorem saveLine_tag {q : MissHandler} (hm : q.mshr.addr = l) (x : MissAxi) : (q.saveLine x).tag = l.tag :=
  congrArg PAddr.tag hm

section Save
variable {q : MissHandler} (hw : q.evictWay = oneHot w) (hm : q.mshr.addr = l) (x : MissAxi)
include hw hm

theorem write_save (idx : Index) (v : Way) : a.write (q.saveWrite x) idx v =
    if idx = l.index ∧ v = w then q.saveLine x else a idx v := by
  have ha : (q.saveWrite x).active = true := by simp [ArrayPort.active, MissHandler.saveWrite, hw]
  have hadr : (q.saveWrite x).addr = l.index := congrArg PAddr.index hm
  rw [write_apply rfl (by simp [ha]), CacheLine.write_saveWrite, hadr, hw]
  by_cases hi : idx = l.index <;> simp [hi, oneHot]

theorem unique_save (hu : UniqueTags a) (hn : copyOf a l = none) : UniqueTags (a.write (q.saveWrite x)) := by
  have hnew : ∀ u : Way, (a l.index u).valid = true → (a l.index u).tag ≠ l.tag :=
    fun u hv ht => copyOf_eq_none.mp hn u ⟨hv, ht⟩
  have hs := saveLine_tag hm x
  intro idx u v hu' hv' ht
  rw [write_save hw hm] at hu' hv' ht
  rw [write_save hw hm] at ht
  split_ifs at hu' hv' ht with h1 h2 h2
  · rw [h1.2, h2.2]
  · rw [h1.1, hs] at ht
    rw [h1.1] at hv'
    exact absurd ht.symm (hnew v hv')
  · rw [h2.1, hs] at ht
    rw [h2.1] at hu'
    exact absurd ht (hnew u hu')
  · exact hu idx u v hu' hv' ht

theorem copyOf_save (hu : UniqueTags a) (hn : copyOf a l = none) :
    copyOf (a.write (q.saveWrite x)) l = some (toCopy (q.saveLine x)) := by
  have hline : a.write (q.saveWrite x) l.index w = q.saveLine x := by
    rw [write_save hw hm, if_pos ⟨rfl, rfl⟩]
  have hh : Has (a.write (q.saveWrite x)) l w := by
    unfold Has
    rw [hline]
    exact ⟨rfl, saveLine_tag hm x⟩
  rw [copyOf_of_has (unique_save hw hm x hu hn) hh, hline]

/-- A refill drops the line that was in its way and leaves the others alone. -/
theorem copyOf_save_other (hu : UniqueTags a) (hn : copyOf a l = none) (hs : ¬ Same l l') :
    copyOf (a.write (q.saveWrite x)) l' = if l'.index = l.index ∧ Has a l' w then none else copyOf a l' := by
  have hu' := unique_save hw hm x hu hn
  have hnot : l'.index = l.index → ¬ Has (a.write (q.saveWrite x)) l' w := by
    intro hi hh
    unfold Has at hh
    rw [write_save hw hm, if_pos ⟨hi, rfl⟩, saveLine_tag hm] at hh
    exact hs ⟨hh.2.symm, hi⟩
  split_ifs with h
  · refine copyOf_eq_none.mpr fun v hv => ?_
    by_cases hvw : v = w
    · exact hnot h.1 (hvw ▸ hv)
    · unfold Has at hv
      rw [write_save hw hm, if_neg (by simp [hvw])] at hv
      exact hvw (Has.unique hu h.2 hv)
  · refine copyOf_congr hu' fun v => ?_
    by_cases hv : l'.index = l.index ∧ v = w
    · exact .inr ⟨fun hh => h ⟨hv.1, hv.2 ▸ hh⟩, fun hh => hnot hv.1 (hv.2 ▸ hh)⟩
    · exact .inl (by rw [write_save hw hm, if_neg hv])

end Save

end Culsans.Coherence
