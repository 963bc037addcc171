import Culsans.Dcache.Invariants

/-! # The status write of a snoop

A snoop looks its line up in one cycle and writes the status one or more cycles
later. The tag is not checked again, so the write lands in the snooped line as long
as no refill replaces a way that the snoop has hit.
-/

namespace Culsans.Dcache.Nbdcache
open Library TagCmp

variable {c : Cfg} {s : Nbdcache} {i : CacheIn}

/-- SAVE_CACHELINE puts another line into a way that the snoop in flight has hit. -/
def overwritesSnooped (c : Cfg) (s : Nbdcache) (i : CacheIn) : Bool :=
  s.miss.saves (s.missIn c i) && s.miss.mshr.addr.index == s.snoop.memReq.index &&
    !(s.miss.mshr.addr.tag == s.snoop.memReq.tag) &&
    anyWay fun w => s.miss.evictWay w &&
      ((s.snoop.state == .evalFlags && !(s.snoop.acSnoop == .readOnce) && s.hitWay i w) ||
        (s.snoop.writing && s.snoop.hitWay w))

/-- The ways a snoop is about to write hold the snooped line. -/
def SnoopOwns (s : Nbdcache) : Prop :=
  s.snoop.writing = true → ∀ w, s.snoop.hitWay w = true →
    (s.arr s.snoop.memReq.index w).tag = s.snoop.memReq.tag

/-- Only SAVE_CACHELINE changes a tag. -/
theorem LineEvent.tag {idx : Index} {w : Way} {l : CacheLine} (h : LineEvent c s i idx w l) :
    l.tag = (s.arr idx w).tag ∨
      (s.miss.saves (s.missIn c i) = true ∧ idx = s.miss.mshr.addr.index ∧ s.miss.evictWay w = true ∧
        l.tag = s.miss.mshr.addr.tag) := by
  cases h with
  | save h hi hw => exact .inr ⟨h, hi, hw, rfl⟩
  | _ => exact .inl rfl

/-- In EVAL_FLAGS the hit ways hold the snooped line. -/
theorem hitWay_evalFlags (hl : s.Lookups) (he : s.snoop.state = .evalFlags) {w : Way}
    (hw : s.hitWay i w = true) :
    (s.arr s.snoop.memReq.index w).tag = s.snoop.memReq.tag ∧
      (s.arr s.snoop.memReq.index w).valid = true := by
  obtain ⟨hid, hr⟩ := hl.evalFlags he
  have ht : s.selTag i = s.snoop.memReq.tag := by
    simp [selTag, hid, SnoopCtrl.tagO, SnoopCtrl.acReady, he]
  rw [hitWay, hitWay_iff, ht, hr] at hw
  exact hw

theorem snoopOwns_step (hl : s.Lookups) (h : s.SnoopOwns) (hok : overwritesSnooped c s i = false) :
    (s.step c i).SnoopOwns := by
  intro hw w hv
  have hkeep : (s.step c i).snoop.memReq = s.snoop.memReq ∧
      (s.arr s.snoop.memReq.index w).tag = s.snoop.memReq.tag ∧
      ((s.snoop.state = .evalFlags ∧ s.snoop.acSnoop ≠ .readOnce ∧ s.hitWay i w = true) ∨
        (s.snoop.writing = true ∧ s.snoop.hitWay w = true)) := by
    rcases SnoopCtrl.step_writing hw with ⟨he, -, hd, hm, ha, -⟩ | ⟨hq, -, hd⟩
    · have hh : s.hitWay i w = true := (congrFun hd w).symm.trans hv
      exact ⟨hm, (hitWay_evalFlags hl he hh).1, .inl ⟨he, ha, hh⟩⟩
    · have hd' : (s.step c i).snoop = s.snoop := hd
      rw [hd'] at hv ⊢
      exact ⟨rfl, h hq w hv, .inr ⟨hq, hv⟩⟩
  obtain ⟨hm, ht, hhit⟩ := hkeep
  rw [hm]
  rcases (step_line c s i s.snoop.memReq.index w).tag with he | ⟨hs, hi, he, htag⟩
  · rw [he, ht]
  · rw [htag]
    by_contra hne
    have hover : overwritesSnooped c s i = true := by
      simp only [overwritesSnooped, Bool.and_eq_true, anyWay_iff]
      refine ⟨⟨⟨hs, by simp [hi]⟩, by simpa using hne⟩, w, he, ?_⟩
      rcases hhit with ⟨h1, h2, h3⟩ | ⟨h1, h2⟩
      · simp [h1, h2, h3]
      · simp [h1, h2]
    simp [hover] at hok

theorem snoopOwns_reachable (h : (machine c).Reachable (fun s i => overwritesSnooped c s i = false) s) :
    s.SnoopOwns :=
  Machine.Reachable.invariant_of (P := Basic) (Q := SnoopOwns) (fun _ => basic_reachable)
    (fun _ h0 hw => by simp [h0.snoop, SnoopCtrl.reset, SnoopCtrl.writing] at hw)
    (fun _ _ hb hq hok => snoopOwns_step hb.lookups hq hok) h

/-- The array port of a snoop that is about to write the status. -/
theorem ports_of_writing (hw : s.snoop.writing = true) :
    s.ports c i 1 = s.snoop.updateSharedWrite ∨ s.ports c i 1 = s.snoop.invalidateWrite := by
  simp only [SnoopCtrl.writing, Bool.or_eq_true, beq_iff_eq] at hw
  rcases hw with hw | hw
  · exact .inl (by simp [ports, snoopPort, SnoopCtrl.port, hw])
  · exact .inr (by simp [ports, snoopPort, SnoopCtrl.port, hw])

theorem step_arr_of_writing (hl : s.Lookups) (hw : s.snoop.writing = true) (hg : s.gnt c i 1 = true) :
    (s.step c i).arr = s.arr.write (s.ports c i 1) := by
  refine step_arr_of_gnt hg ?_
  rcases ports_of_writing (c := c) (i := i) hw with hp | hp <;> rw [hp] <;> exact hl.writing hw

/-- A way the snoop has not hit is left alone by its status write. -/
theorem step_arr_of_status (hl : s.Lookups) (hw : s.snoop.writing = true) (hg : s.gnt c i 1 = true)
    {idx : Index} {w : Way} (hn : idx = s.snoop.memReq.index → s.snoop.hitWay w = false) :
    (s.step c i).arr idx w = s.arr idx w := by
  rw [step_arr_of_writing hl hw hg]
  by_cases hi : idx = s.snoop.memReq.index
  · have hh := hn hi
    rcases ports_of_writing (c := c) (i := i) hw with hp | hp <;>
      rw [hp, CacheArray.write] <;> split_ifs
    · simp [CacheLine.write_updateShared, hh]
    · rfl
    · simp [CacheLine.write_invalidate, hh]
    · rfl
  · refine CacheArray.write_other ?_ w
    rcases ports_of_writing (c := c) (i := i) hw with hp | hp <;> rw [hp] <;> exact hi

/-- A granted INVALIDATE clears the ways it has hit. -/
theorem step_arr_of_invalidate (hl : s.Lookups) (hw : s.snoop.state = .invalidate)
    (hg : s.gnt c i 1 = true) {w : Way} (hh : s.snoop.hitWay w = true) :
    (s.step c i).arr s.snoop.memReq.index w = (s.arr s.snoop.memReq.index w).invalidated := by
  have hp : s.ports c i 1 = s.snoop.invalidateWrite := by simp [ports, snoopPort, SnoopCtrl.port, hw]
  have hwr : s.snoop.writing = true := by simp [SnoopCtrl.writing, hw]
  have ha : s.snoop.invalidateWrite.active = true := hl.writing hwr
  rw [step_arr_of_writing hl hwr hg, hp, CacheArray.write, if_pos]
  · simp [CacheLine.write_invalidate, hh]
  · rw [ha]
    simp [SnoopCtrl.invalidateWrite]

/-- A snoop's status write touches the snooped line only. -/
theorem snoop_status_own_line (h : (machine c).Reachable (fun s i => overwritesSnooped c s i = false) s)
    (i : CacheIn) (hw : s.snoop.writing = true) (hg : s.gnt c i 1 = true) :
    (∀ w, s.snoop.hitWay w = true → (s.arr s.snoop.memReq.index w).tag = s.snoop.memReq.tag ∨
      (s.arr s.snoop.memReq.index w).valid = false) ∧
    ∀ idx w, (s.arr idx w).valid = true →
      (idx ≠ s.snoop.memReq.index ∨ (s.arr idx w).tag ≠ s.snoop.memReq.tag) →
      (s.step c i).arr idx w = s.arr idx w := by
  have hown := snoopOwns_reachable h hw
  refine ⟨fun w hv => .inl (hown w hv), fun idx w _ hne => ?_⟩
  refine step_arr_of_status (basic_reachable h).lookups hw hg fun hi => ?_
  by_contra hv
  have ht := hown w (by simpa using hv)
  rw [← hi] at ht
  exact hne.elim (· hi) (· ht)

section Runs
open Stimuli

/-- A line is loaded and then invalidated by a snoop. -/
def loadThenSnoop : List CacheIn :=
  quiet :: loadMiss 1 1 1 false ++ [snooping quiet .cleanInvalid 1 1, quiet, quiet]

set_option maxRecDepth 10000 in
theorem snoop_status_own_line_run :
    let s := (machine cfg).run initial loadThenSnoop
    s.snoop.state = .invalidate ∧ s.snoop.hitWay 0 = true ∧ (s.arr 1 0).tag = 1 := by
  have hr : (machine cfg).Reachable (fun s i => overwritesSnooped cfg s i = false)
      ((machine cfg).run initial loadThenSnoop) :=
    .run (.init initial_isReset) (by decide +kernel)
  have hs : ((machine cfg).run initial loadThenSnoop).snoop.state = .invalidate ∧
      ((machine cfg).run initial loadThenSnoop).snoop.hitWay 0 = true ∧
      ((machine cfg).run initial loadThenSnoop).snoop.memReq = ⟨1, 1, 0⟩ ∧
      ((machine cfg).run initial loadThenSnoop).gnt cfg quiet 1 = true ∧
      (((machine cfg).run initial loadThenSnoop).arr 1 0).valid = true := by decide +kernel
  obtain ⟨hst, hh, hm, hg, hv⟩ := hs
  have ht := (snoop_status_own_line hr quiet (by simp [SnoopCtrl.writing, hst]) hg).1 0 hh
  rw [hm] at ht
  exact ⟨hst, hh, ht.resolve_right fun hf => absurd (hv.symm.trans hf) (by decide)⟩

/-- Eight loads fill a set with clean lines. -/
def fillSet : List CacheIn :=
  quiet :: (List.range 8).flatMap fun k => loadMiss 1 (BitVec.ofNat 44 (k + 1)) 1 false

/-- A ninth load replaces the line of way 0 between the lookup and the status write of a snoop of it. -/
def staleSnoop : List CacheIn :=
  fillSet ++ [load 1 1, tag 1 9, quiet, quiet, quiet, bus arReady,
    snooping (bus (beat false false)) .cleanInvalid 1 1, bus (beat true false), quiet]

set_option maxRecDepth 10000 in
theorem snoop_status_other_line :
    ∃ s, (machine cfg).Reachable (fun _ _ => True) s ∧ s.snoop.state = .invalidate ∧
      s.gnt cfg quiet 1 = true ∧ s.snoop.hitWay 0 = true ∧ s.snoop.memReq = ⟨1, 1, 0⟩ ∧
      (s.arr 1 0).valid = true ∧ (s.arr 1 0).tag = 9 ∧
      ((s.step cfg quiet).arr 1 0).valid = false :=
  ⟨_, Machine.reachable_run _ initial_isReset staleSnoop, by decide +kernel⟩

end Runs
end Culsans.Dcache.Nbdcache
