import Culsans.Icache.FetchControl

/-! # Lines and lookups of the instruction cache

What the arrays hold is what memory has returned since the last completed flush, in one way of a
set at most; and the registers of the pipeline belong to the request that is looked up or fetched.
-/

namespace Culsans.Icache
open Library

variable {c : ArianeCfg} {q : Cva6Icache} {i : IcacheIn} {x : Cva6Icache × Ledger} {p : BitVec 56} {v : BitVec 64}
  {k k' : Way}

/-! ### Addresses -/

def tagOf (p : BitVec 56) : Tag := p.extractLsb' 12 44

def indexOf (v : BitVec 64) : Index := v.extractLsb' 4 8

/-- The address is a translation of the other: the offset of the word in the page is the same. -/
def Translates (v : BitVec 64) (p : BitVec 56) : Prop := p.extractLsb' 2 10 = v.extractLsb' 2 10

def cacheable (c : ArianeCfg) (t : Tag) : Bool := c.isInsideCacheableRegions ((t ++ 0#12).setWidth 64)

theorem Translates.extractLsb'_eq (h : Translates v p) {s n : ℕ} (hs : 2 ≤ s) (hn : s + n ≤ 12) :
    v.extractLsb' s n = p.extractLsb' s n := by
  apply BitVec.eq_of_getLsbD_eq
  intro j hj
  have hb := congrArg (fun w => w.getLsbD (s - 2 + j)) h
  simp only [BitVec.getLsbD_extractLsb', show s - 2 + j < 10 by omega, decide_true, Bool.true_and,
    show 2 + (s - 2 + j) = s + j by omega] at hb
  simp only [BitVec.getLsbD_extractLsb', hj, decide_true, Bool.true_and, hb]

/-- Only the offset in the word is lost on the way to the translation. -/
theorem fetchVaddr_extractLsb' (q : Cva6Icache) : q.fetchVaddr.extractLsb' 2 10 = q.vaddr.extractLsb' 2 10 := by
  apply BitVec.eq_of_getLsbD_eq
  intro j hj
  rw [Cva6Icache.fetchVaddr, BitVec.getLsbD_extractLsb', BitVec.getLsbD_setWidth, BitVec.getLsbD_append,
    if_neg (show ¬ 2 + j < 2 by omega), BitVec.getLsbD_ushiftRight, BitVec.getLsbD_extractLsb',
    show 2 + (2 + j - 2) = 2 + j by omega, decide_eq_true (show 2 + j < 64 by omega), Bool.true_and]

theorem Env.translates (hi : Env c x i) (hs : x.1.state = .read) (hv : i.fetchValid = true)
    (he : i.fetchException = false) :
    Translates x.1.vaddr i.fetchPaddr :=
  (hi.offset hs hv he).trans (fetchVaddr_extractLsb' x.1)

theorem tagOf_append {s n : ℕ} (hn : 12 = s + n) : tagOf p ++ p.extractLsb' s n = p.extractLsb' s (44 + n) :=
  BitVec.extractLsb'_append_extractLsb'_eq_extractLsb' hn

/-- The address of a request. -/
theorem requestAddr_eq (h : Translates v p) (nc : Bool) :
    (if nc then if c.axiCompliant then tagOf p ++ v.extractLsb' 3 9 ++ 0#3 else tagOf p ++ v.extractLsb' 2 10 ++ 0#2
      else tagOf p ++ v.extractLsb' 4 8 ++ 0#4) = requestAddr c nc p := by
  rw [requestAddr, h.extractLsb'_eq (by omega) (by omega), h.extractLsb'_eq (by omega) (by omega),
    h.extractLsb'_eq (by omega) (by omega), tagOf_append (by omega), tagOf_append (by omega), tagOf_append (by omega)]

/-- The offset of a word in its line. -/
def lineOffset (v : BitVec 64) : BitVec 4 := v.extractLsb' 2 2 ++ 0#2

/-- The offset of a word in the two words that are returned for it. -/
def wordOffset (v : BitVec 64) : BitVec 4 := 0#1 ++ v.extractLsb' 2 1 ++ 0#2

theorem returnOffset_eq (h : Translates v p) (nc : Bool) :
    returnOffset c nc p = if nc && c.axiCompliant then wordOffset v else lineOffset v := by
  rw [returnOffset, wordOffset, lineOffset, h.extractLsb'_eq (by omega) (by omega),
    h.extractLsb'_eq (by omega) (by omega)]

/-- The saved offset is rewritten for a word access. -/
theorem rewrite_offset {o : BitVec 4} (h : o = lineOffset v ∨ o = wordOffset v) :
    (o.extractLsb' 2 1).setWidth 4 <<< 2 = wordOffset v := by
  have hline : ∀ b : BitVec 2, ((b ++ 0#2).extractLsb' 2 1).setWidth 4 <<< 2 = 0#1 ++ b.extractLsb' 0 1 ++ 0#2 :=
    by decide
  have hword : ∀ b : BitVec 1, ((0#1 ++ b ++ 0#2).extractLsb' 2 1).setWidth 4 <<< 2 = 0#1 ++ b ++ 0#2 := by decide
  rcases h with rfl | rfl
  · rw [lineOffset, hline, wordOffset]
    congr 2
    apply BitVec.eq_of_getLsbD_eq
    intro j hj
    simp [show j < 2 by omega]
  · exact hword _

/-! ### What the arrays hold -/

namespace Cva6Icache

def entry (q : Cva6Icache) (n : Index) (k : Way) : TagEntry := (q.tagSram k).sram n

def line (q : Cva6Icache) (n : Index) (k : Way) : Line := (q.dataSram k).sram n

/-- The way holds a line with the tag. -/
def Present (q : Cva6Icache) (n : Index) (t : Tag) (k : Way) : Prop := (q.entry n k).vld = true ∧ (q.entry n k).tag = t

end Cva6Icache

theorem Does.flushEn {f : Fsm} (h : Does c q i f) : f.flushEn = (q.state == .flush) := by
  cases h <;> simp_all [Cva6Icache.fsmDefault, Cva6Icache.lookup]

theorem Does.cacheWren {f : Fsm} (h : Does c q i f) (hw : f.cacheWren = true) :
    q.state = .miss ∧ i.ifillAck = true ∧ q.paddrIsNc c i = false := by
  cases h <;> simp_all [Cva6Icache.fsmDefault, Cva6Icache.lookup]

theorem Does.cacheRden {f : Fsm} (h : Does c q i f) (hw : f.cacheRden = true) : q.state = .idle ∨ q.state = .read := by
  cases h <;> simp_all [Cva6Icache.fsmDefault, Cva6Icache.lookup]

theorem getLsbD_ways (f : Way → Bool) (k : Way) : (ways f).getLsbD k = f k := by
  match k with
  | 0 => cases h0 : f 0 <;> cases h1 : f 1 <;> cases h2 : f 2 <;> cases h3 : f 3 <;> simp [ways, h0, h1, h2, h3]
  | 1 => cases h0 : f 0 <;> cases h1 : f 1 <;> cases h2 : f 2 <;> cases h3 : f 3 <;> simp [ways, h0, h1, h2, h3]
  | 2 => cases h0 : f 0 <;> cases h1 : f 1 <;> cases h2 : f 2 <;> cases h3 : f 3 <;> simp [ways, h0, h1, h2, h3]
  | 3 => cases h0 : f 0 <;> cases h1 : f 1 <;> cases h2 : f 2 <;> cases h3 : f 3 <;> simp [ways, h0, h1, h2, h3]

theorem getLsbD_allOnes (k : Way) : (BitVec.allOnes 4).getLsbD k = true := by
  rw [BitVec.getLsbD_allOnes]
  exact decide_eq_true k.isLt

theorem sram_step {α : Type} (m : Sram α) (req we : Bool) (a : Index) (w : α) (n : Index) :
    (m.step req we a w).sram n = if n = a ∧ (req && we) = true then w else m.sram n := by
  rw [Sram.step]
  by_cases hr : (req && we) = true
  · simp [hr, Function.update_apply]
  · simp [hr]

theorem rdata_step {α : Type} (m : Sram α) (a : Index) (w : α) : (m.step true false a w).rdata = m.sram a := rfl

/-- A flush clears one set in each cycle. -/
theorem entry_clear (hd : Does c q i (q.fsm c i)) (hs : q.state = .flush) (n : Index) (k : Way) :
    (q.step c i).entry n k = if n = q.flushCnt then ⟨false, q.clTag⟩ else q.entry n k := by
  have hf : (q.fsm c i).flushEn = true := by rw [hd.flushEn, hs]; rfl
  have hw : (q.fsm c i).cacheWren = false := by
    rw [Bool.eq_false_iff]
    intro hw
    cases hs.symm.trans (hd.cacheWren hw).1
  have hreq : q.vldReq c i = BitVec.allOnes 4 := by simp [Cva6Icache.vldReq, hf]
  have haddr : q.vldAddr c i = q.flushCnt := by simp [Cva6Icache.vldAddr, hf]
  have hwe : q.vldWe c i = true := by simp [Cva6Icache.vldWe, hf]
  rw [Cva6Icache.entry, Cva6Icache.step, sram_step, hreq, haddr, hwe, getLsbD_allOnes, hw]
  simp [Cva6Icache.entry]

theorem clIndex_eq (hd : Does c q i (q.fsm c i)) (hs : q.state = .miss) : q.clIndex c i = indexOf q.vaddr := by
  have hr : (q.fsm c i).ready = false := by
    generalize q.fsm c i = f at hd
    cases hd <;> simp_all [Cva6Icache.fsmDefault]
  rw [Cva6Icache.clIndex, Cva6Icache.vaddrD, hr]
  rfl

/-- A return is written to the way that has been chosen. -/
theorem entry_fill (hd : Does c q i (q.fsm c i)) (hi : i.invEn = false) (hw : (q.fsm c i).cacheWren = true)
    (n : Index) (k : Way) :
    ((q.step c i).entry n k = if n = indexOf q.vaddr ∧ q.replWayOh.getLsbD k = true then ⟨true, q.clTag⟩
      else q.entry n k) ∧ (q.step c i).line n k = if n = indexOf q.vaddr ∧
      q.replWayOh.getLsbD k = true then i.memRtrn.data else q.line n k := by
  have hs := (hd.cacheWren hw).1
  have hidx := clIndex_eq hd hs
  have hf : (q.fsm c i).flushEn = false := by rw [hd.flushEn, hs]; rfl
  have hr : (q.fsm c i).cacheRden = false := by
    rw [Bool.eq_false_iff]
    intro hr
    rcases hd.cacheRden hr with hs' | hs' <;> cases hs.symm.trans hs'
  have hreq : q.vldReq c i = q.replWayOh := by simp [Cva6Icache.vldReq, hf, hr, hi]
  have haddr : q.vldAddr c i = indexOf q.vaddr := by simp [Cva6Icache.vldAddr, hf, hi, hidx]
  have hwe : q.vldWe c i = true := by simp [Cva6Icache.vldWe, hw]
  have hcl : q.clReq c i = q.replWayOh := by simp [Cva6Icache.clReq, hr, hw]
  constructor
  · rw [Cva6Icache.entry, Cva6Icache.step, sram_step, hreq, haddr, hwe, hw, Bool.and_true]
    rfl
  · rw [Cva6Icache.line, Cva6Icache.step, sram_step, hcl, hidx, hw, Bool.and_true]
    rfl

theorem line_same (hw : (q.fsm c i).cacheWren = false) (n : Index) (k : Way) : (q.step c i).line n k = q.line n k := by
  rw [Cva6Icache.line, Cva6Icache.step, sram_step, hw, Bool.and_false]
  simp [Cva6Icache.line]

theorem entry_same (hd : Does c q i (q.fsm c i)) (hi : i.invEn = false) (hs : q.state ≠ .flush)
    (hw : (q.fsm c i).cacheWren = false) (n : Index) (k : Way) :
    (q.step c i).entry n k = q.entry n k ∧ (q.step c i).line n k = q.line n k := by
  have hf : (q.fsm c i).flushEn = false := by
    rw [hd.flushEn, beq_eq_false_iff_ne]
    exact hs
  have hwe : q.vldWe c i = false := by simp [Cva6Icache.vldWe, hf, hw, hi]
  refine ⟨?_, line_same hw n k⟩
  rw [Cva6Icache.entry, Cva6Icache.step, sram_step, hwe, Bool.and_false]
  simp [Cva6Icache.entry]

/-! ### The request in the pipeline -/

/-- The request of a translation is for a word, because of its address or because the cache is disabled. -/
def WordAccess (c : ArianeCfg) (q : Cva6Icache) (p : BitVec 56) : Prop :=
  q.cacheEn = false ∨ cacheable c (tagOf p) = false

/-- The registers of a lookup: the arrays have been read for its address, and an offset that has been
rewritten, or a comparison that is off, belongs to a translation that has been seen before. -/
structure Lookup (c : ArianeCfg) (x : Cva6Icache × Ledger) : Prop where
  translates : ∀ p ∈ x.2.paddr, Translates x.1.vaddr p
  offset : x.1.clOffset = lineOffset x.1.vaddr ∨
    c.axiCompliant = true ∧ x.1.clOffset = wordOffset x.1.vaddr ∧ ∃ p ∈ x.2.paddr, WordAccess c x.1 p
  rdata : x.1.cacheEn = true → ∀ k, (x.1.tagSram k).rdata = x.1.entry (indexOf x.1.vaddr) k ∧
    (x.1.dataSram k).rdata = x.1.line (indexOf x.1.vaddr) k
  cmpEn : x.1.cacheEn = true → x.1.cmpEn = true ∨ ∃ p ∈ x.2.paddr, ∀ k, ¬x.1.Present (indexOf x.1.vaddr) (tagOf p) k

/-- The registers of a fetch, and the memory request that has been sent for it. -/
structure Fetching (c : ArianeCfg) (x : Cva6Icache × Ledger) (p : BitVec 56) (o : IcacheReq) : Prop where
  paddr : x.2.paddr = some p
  outstanding : x.2.outstanding = some o
  translates : Translates x.1.vaddr p
  clTag : x.1.clTag = tagOf p
  cmpEn : x.1.cmpEn = false
  request : o.paddr = requestAddr c o.nc p
  offset : x.1.clOffset = returnOffset c o.nc p
  word : o.nc = true → WordAccess c x.1 p
  line : o.nc = false → cacheable c (tagOf p) = true ∧ ∀ k, ¬x.1.Present (indexOf x.1.vaddr) (tagOf p) k

/-- What the arrays hold; a set counts from when the first flush has passed it. -/
structure Lines (c : ArianeCfg) (x : Cva6Icache × Ledger) : Prop where
  unique : ∀ n, x.2.cleared = true ∨ n < x.1.flushCnt → ∀ t k k', x.1.Present n t k → x.1.Present n t k' → k = k'
  emptied : x.1.state = .flush → ∀ n < x.1.flushCnt, ∀ k, (x.1.entry n k).vld = false
  held : x.1.state ≠ .flush → ∀ n t k, x.1.Present n t k → cacheable c t = true ∧
    ∃ r ∈ x.2.returns, r.nc = false ∧ r.paddr = t ++ n ++ 0#4 ∧ r.data = x.1.line n k

/-- The invariant of the runs. -/
structure Inv (c : ArianeCfg) (x : Cva6Icache × Ledger) : Prop where
  control : Control x
  lines : Lines c x
  oneWay : ∀ k k' : Way, x.1.replWayOh.getLsbD k = true → x.1.replWayOh.getLsbD k' = true → k = k'
  lookup : x.1.state = .read → Lookup c x
  fetching : x.1.state = .miss → ∃ p o, Fetching c x p o

namespace Inv

/-- Outside a flush a disabled cache stays disabled. -/
theorem cacheEn_of_step (h : Inv c x) (hi : Env c x i) (hs : x.1.state ≠ .flush) (he : (x.1.step c i).cacheEn = true) :
    x.1.cacheEn = true := by
  have hd := h.control.does hi
  have hen : (x.1.fsm c i).cacheEnD = ((x.1.cacheEn || i.initN) && i.en) := by
    generalize x.1.fsm c i = f at hd
    cases hd <;> simp_all [Cva6Icache.fsmDefault, Cva6Icache.lookup]
  rw [Cva6Icache.step, hen, Bool.and_eq_true, Bool.or_eq_true] at he
  rcases he.1 with hc | hn
  · exact hc
  · exact (hi.enable hn he.2).resolve_right hs

theorem oneWay_step (h : Inv c x) (k k' : Way) (hk : (x.1.step c i).replWayOh.getLsbD k = true)
    (hk' : (x.1.step c i).replWayOh.getLsbD k' = true) : k = k' := by
  have hbit (w : ℕ) (j : Way) : (icacheWayBin2oh w).getLsbD j = true → w = j := by
    rw [icacheWayBin2oh, ← BitVec.twoPow_eq, BitVec.getLsbD_twoPow, Bool.and_eq_true, decide_eq_true_eq,
      decide_eq_true_eq]
    exact fun hj => hj.2
  simp only [Cva6Icache.step, Cva6Icache.replWayOhD] at hk hk'
  split_ifs at hk hk' with hc
  · exact Fin.ext ((hbit _ _ hk).symm.trans (hbit _ _ hk'))
  · exact h.oneWay k k' hk hk'

/-- What is written is not yet in the set. -/
theorem fill (h : Inv c x) (hi : Env c x i) (hw : (x.1.fsm c i).cacheWren = true) :
    x.1.state = .miss ∧ i.ifillAck = true ∧ cacheable c x.1.clTag = true ∧
      (∀ k, ¬x.1.Present (indexOf x.1.vaddr) x.1.clTag k) ∧
      ∃ p o, Fetching c x p o ∧ o.nc = false ∧ x.1.clTag = tagOf p := by
  have hd := h.control.does hi
  obtain ⟨hs, ha, hn⟩ := hd.cacheWren hw
  obtain ⟨p, o, hp⟩ := h.fetching hs
  have hv : i.fetchValid = false := by
    rw [Bool.eq_false_iff]
    intro hv
    have hreq := hi.fetchReq hv
    generalize x.1.fsm c i = f at hd hreq
    cases hd <;> simp_all [Cva6Icache.fsmDefault]
  have htag : x.1.clTagD i = tagOf p := by
    rw [Cva6Icache.clTagD, hv, ← hp.clTag]
    rfl
  have hnc : o.nc = false := by
    rw [Bool.eq_false_iff]
    intro ho
    rw [Cva6Icache.paddrIsNc, htag, Bool.or_eq_false_iff, Bool.not_eq_false', Bool.not_eq_false'] at hn
    rcases hp.word ho with he | hc
    · exact Bool.false_ne_true (he.symm.trans hn.1)
    · exact Bool.false_ne_true (hc.symm.trans hn.2)
  refine ⟨hs, ha, ?_, ?_, p, o, hp, hnc, hp.clTag⟩
  · rw [hp.clTag]
    exact (hp.line hnc).1
  · rw [hp.clTag]
    exact (hp.line hnc).2

theorem present_clear (h : Inv c x) (hi : Env c x i) (hs : x.1.state = .flush) {n : Index} {t : Tag}
    (hp : (x.1.step c i).Present n t k) : n ≠ x.1.flushCnt ∧ x.1.Present n t k := by
  rw [Cva6Icache.Present, entry_clear (h.control.does hi) hs] at hp
  split_ifs at hp with hn
  · cases hp.1
  · exact ⟨hn, hp⟩

theorem present_fill (h : Inv c x) (hi : Env c x i) (hw : (x.1.fsm c i).cacheWren = true) {n : Index} {t : Tag}
    (hp : (x.1.step c i).Present n t k) : (n = indexOf x.1.vaddr ∧ x.1.replWayOh.getLsbD k = true) ∧ t = x.1.clTag ∨
      ¬(n = indexOf x.1.vaddr ∧ x.1.replWayOh.getLsbD k = true) ∧ x.1.Present n t k := by
  rw [Cva6Icache.Present, (entry_fill (h.control.does hi) hi.invEn_eq hw n k).1] at hp
  split_ifs at hp with hn
  · exact .inl ⟨hn, hp.2.symm⟩
  · exact .inr ⟨hn, hp⟩

theorem present_same (h : Inv c x) (hi : Env c x i) (hs : x.1.state ≠ .flush) (hw : (x.1.fsm c i).cacheWren = false)
    {n : Index} {t : Tag} :
    (x.1.step c i).Present n t k ↔ x.1.Present n t k := by
  rw [Cva6Icache.Present, (entry_same (h.control.does hi) hi.invEn_eq hs hw n k).1, Cva6Icache.Present]

theorem clears_eq (hd : Does c q i (q.fsm c i)) : Ledger.clears c q i = (q.state == .flush && q.flushDone) := by
  rw [Ledger.clears, hd.flushEn]

/-- The flush counter moves on over the sets that have been cleared. -/
theorem flushCnt_step (hd : Does c x.1 i (x.1.fsm c i)) (hs : x.1.state = .flush) :
    (x.1.flushDone = true ∧ x.1.flushCnt = 255 ∧ (x.1.step c i).state = .idle) ∨
      x.1.flushDone = false ∧ x.1.flushCnt ≠ 255 ∧ (x.1.step c i).flushCnt = x.1.flushCnt + 1 := by
  have hf := hd.flushEn
  rw [hs, beq_self_eq_true] at hf
  cases hdone : x.1.flushDone with
  | true =>
    refine .inl ⟨rfl, ?_, ?_⟩
    · rwa [Cva6Icache.flushDone, beq_iff_eq] at hdone
    · simp only [Cva6Icache.step]
      generalize x.1.fsm c i = f at hd
      cases hd <;> simp_all
  | false =>
    refine .inr ⟨rfl, ?_, ?_⟩
    · rwa [Cva6Icache.flushDone, beq_eq_false_iff_ne] at hdone
    · simp [Cva6Icache.step, hdone, hf]

theorem flushCnt_lt (hd : Does c x.1 i (x.1.fsm c i)) (hs : x.1.state = .flush) {n : Index}
    (hn : (x.2.watch c x.1 i).cleared = true ∨ n < (x.1.step c i).flushCnt) :
    (x.2.cleared = true ∨ n < x.1.flushCnt) ∨ n = x.1.flushCnt := by
  rcases flushCnt_step hd hs with ⟨-, hcnt, -⟩ | ⟨hdone, hcnt, hnext⟩
  · by_cases he : n = x.1.flushCnt
    · exact .inr he
    · exact .inl (.inr (by bv_omega))
  · rcases hn with hc | hlt
    · rw [Ledger.watch, clears_eq hd, hdone, Bool.and_false, Bool.or_false] at hc
      exact .inl (.inl hc)
    · rw [hnext] at hlt
      by_cases he : n = x.1.flushCnt
      · exact .inr he
      · exact .inl (.inr (by bv_omega))

theorem unique_step (h : Inv c x) (hi : Env c x i) (n : Index)
    (hn : (x.2.watch c x.1 i).cleared = true ∨ n < (x.1.step c i).flushCnt) (t : Tag) (k k' : Way)
    (hk : (x.1.step c i).Present n t k) (hk' : (x.1.step c i).Present n t k') : k = k' := by
  by_cases hs : x.1.state = .flush
  · obtain ⟨hne, hk⟩ := h.present_clear hi hs hk
    obtain ⟨-, hk'⟩ := h.present_clear hi hs hk'
    exact h.lines.unique n ((flushCnt_lt (h.control.does hi) hs hn).resolve_right hne) t k k' hk hk'
  · have huniq := h.lines.unique n (.inl (h.control.cleared hs)) t
    cases hw : (x.1.fsm c i).cacheWren with
    | false => exact huniq k k' ((h.present_same hi hs hw).mp hk) ((h.present_same hi hs hw).mp hk')
    | true =>
      obtain ⟨-, -, -, hno, -⟩ := h.fill hi hw
      rcases h.present_fill hi hw hk with ⟨⟨rfl, hb⟩, rfl⟩ | ⟨hb, hp⟩
      · rcases h.present_fill hi hw hk' with ⟨⟨-, hb'⟩, -⟩ | ⟨-, hp'⟩
        · exact h.oneWay k k' hb hb'
        · exact absurd hp' (hno k')
      · rcases h.present_fill hi hw hk' with ⟨⟨rfl, hb'⟩, rfl⟩ | ⟨-, hp'⟩
        · exact absurd hp (hno k)
        · exact huniq k k' hp hp'

theorem emptied_step (h : Inv c x) (hi : Env c x i) (hs' : (x.1.step c i).state = .flush) (n : Index)
    (hn : n < (x.1.step c i).flushCnt) (k : Way) : ((x.1.step c i).entry n k).vld = false := by
  have hd := h.control.does hi
  by_cases hs : x.1.state = .flush
  · rcases flushCnt_step hd hs with ⟨-, -, hidle⟩ | ⟨-, hcnt, hnext⟩
    · cases hs'.symm.trans hidle
    · rw [entry_clear hd hs]
      split_ifs with he
      · rfl
      · rw [hnext] at hn
        exact h.lines.emptied hs n (by bv_omega) k
  · have hcnt := h.control.flushCnt hs
    have hz : (x.1.step c i).flushCnt = 0 := by
      have hf := hd.flushEn
      rw [beq_false_of_ne hs] at hf
      simp [Cva6Icache.step, Cva6Icache.flushDone, hf, hcnt]
    rw [hz] at hn
    exact absurd hn (by bv_omega)

/-- The return that is written holds the line of its address. -/
theorem returnNow_fill {o : IcacheReq} {p : BitVec 56} (hp : Fetching c x p o) (ho : o.nc = false)
    (ha : i.ifillAck = true) :
    ∃ r ∈ x.2.returnNow i, r.nc = false ∧ r.paddr = x.1.clTag ++ indexOf x.1.vaddr ++ 0#4 ∧
      r.data = i.memRtrn.data := by
  refine ⟨⟨o.paddr, o.nc, i.memRtrn.data⟩, ?_, ho, ?_, rfl⟩
  · rw [Ledger.returnNow, hp.outstanding, ha]
    exact List.mem_singleton_self _
  · rw [hp.request, ho, hp.clTag, ← requestAddr_eq hp.translates]
    rfl

theorem held_step (h : Inv c x) (hi : Env c x i) (hs' : (x.1.step c i).state ≠ .flush) (n : Index) (t : Tag) (k : Way)
    (hk : (x.1.step c i).Present n t k) : cacheable c t = true ∧
      ∃ r ∈ (x.2.watch c x.1 i).returns, r.nc = false ∧ r.paddr = t ++ n ++ 0#4 ∧ r.data = (x.1.step c i).line n k := by
  have hd := h.control.does hi
  by_cases hs : x.1.state = .flush
  · obtain ⟨hne, hp⟩ := h.present_clear hi hs hk
    rcases flushCnt_step hd hs with ⟨-, hcnt, -⟩ | ⟨hdone, -, hnext⟩
    · exact absurd hp.1 (by rw [h.lines.emptied hs n (by bv_omega) k]; decide)
    · refine absurd ?_ hs'
      simp only [Cva6Icache.step]
      generalize x.1.fsm c i = f at hd
      cases hd <;> simp_all
  · have hret : (x.2.watch c x.1 i).returns = x.2.returns ++ x.2.returnNow i := by
      rw [Ledger.watch, clears_eq hd, beq_false_of_ne hs]
      rfl
    have hheld := h.lines.held hs n t k
    rw [hret]
    cases hw : (x.1.fsm c i).cacheWren with
    | false =>
      obtain ⟨hc, r, hr, hnc, ha, hdata⟩ := hheld ((h.present_same hi hs hw).mp hk)
      rw [(entry_same hd hi.invEn_eq hs hw n k).2]
      exact ⟨hc, r, List.mem_append_left _ hr, hnc, ha, hdata⟩
    | true =>
      obtain ⟨-, ha, hc, -, p, o, hp, ho, -⟩ := h.fill hi hw
      have hline := (entry_fill hd hi.invEn_eq hw n k).2
      rcases h.present_fill hi hw hk with ⟨hb, rfl⟩ | ⟨hb, hold⟩
      · rw [hline, if_pos hb, hb.1]
        obtain ⟨r, hr, hnc, haddr, hdata⟩ := returnNow_fill hp ho ha
        exact ⟨hc, r, List.mem_append_right _ hr, hnc, haddr, hdata⟩
      · rw [hline, if_neg hb]
        obtain ⟨hc, r, hr, hnc, haddr, hdata⟩ := hheld hold
        exact ⟨hc, r, List.mem_append_left _ hr, hnc, haddr, hdata⟩

end Inv

/-! ### From one cycle to the next -/

/-- How a lookup begins or goes on. -/
theorem Does.to_read {f : Fsm} (h : Does c q i f) (hs : f.stateD = .read) :
    (q.state ≠ .flush ∧ f.ready = true ∧ i.req = true ∧ f.cmpEnD = q.cacheEn ∧
      (q.cacheEn = true → f.cacheRden = true)) ∨ q.state = .read ∧ f.ready = false ∧ f.cacheRden = q.cacheEn ∧
        (f.memDataReq = false ∧ f.cmpEnD = q.cacheEn ∨
          f.memDataReq = true ∧ i.memDataAck = false ∧ translates c i = true ∧ q.answers i = false) := by
  cases h <;> simp_all [Cva6Icache.fsmDefault, Cva6Icache.lookup]
  case clear | killAtrans | killMiss => split_ifs at hs

/-- How a fetch begins or goes on. -/
theorem Does.to_miss {f : Fsm} (h : Does c q i f) (hs : f.stateD = .miss) : f.ready = false ∧ f.cmpEnD = false ∧
    (q.state = .miss ∧ i.ifillAck = false ∧ f.memDataReq = false ∧ f.fetchReq = false ∨
      q.state = .read ∧ f.memDataReq = true ∧ i.memDataAck = true ∧ translates c i = true ∧ q.answers i = false) := by
  cases h <;> simp_all [Cva6Icache.fsmDefault, Cva6Icache.lookup]
  case clear | accept | answer | killAtrans | killMiss => split_ifs at hs

theorem Does.cacheWren_eq_false {f : Fsm} (h : Does c q i f) (hs : f.stateD = .read ∨ f.stateD = .miss) :
    f.cacheWren = false := by
  rw [Bool.eq_false_iff]
  intro hw
  cases h <;> simp_all [Cva6Icache.fsmDefault, Cva6Icache.lookup]

theorem paddrIsNc_iff {p : BitVec 56} (ht : q.clTagD i = tagOf p) : q.paddrIsNc c i = true ↔ WordAccess c q p := by
  rw [Cva6Icache.paddrIsNc, ht, WordAccess, cacheable, Bool.or_eq_true, Bool.not_eq_true', Bool.not_eq_true']

/-- The arrays are read for the next lookup. -/
theorem rdata_eq (hd : Does c q i (q.fsm c i)) (hi : i.invEn = false) (hs : q.state ≠ .flush)
    (hw : (q.fsm c i).cacheWren = false) (hr : (q.fsm c i).cacheRden = true) (k : Way) :
    ((q.step c i).tagSram k).rdata = (q.step c i).entry (indexOf (q.step c i).vaddr) k ∧
      ((q.step c i).dataSram k).rdata = (q.step c i).line (indexOf (q.step c i).vaddr) k := by
  have hf : (q.fsm c i).flushEn = false := by
    rw [hd.flushEn, beq_eq_false_iff_ne]
    exact hs
  have hreq : q.vldReq c i = BitVec.allOnes 4 := by simp [Cva6Icache.vldReq, hr]
  have hcl : q.clReq c i = BitVec.allOnes 4 := by simp [Cva6Icache.clReq, hr]
  have hwe : q.vldWe c i = false := by simp [Cva6Icache.vldWe, hf, hw, hi]
  have haddr : q.vldAddr c i = indexOf (q.step c i).vaddr := by
    simp only [Cva6Icache.vldAddr, hf, hi, Bool.false_eq_true, if_false]
    rfl
  obtain ⟨he, hl⟩ := entry_same hd hi hs hw (indexOf (q.step c i).vaddr) k
  constructor
  · rw [he, Cva6Icache.entry, ← haddr]
    change ((q.tagSram k).step _ _ _ _).rdata = _
    rw [hreq, hwe, getLsbD_allOnes, rdata_step]
  · rw [hl, Cva6Icache.line]
    change ((q.dataSram k).step _ _ _ _).rdata = _
    rw [hcl, hw, getLsbD_allOnes, rdata_step]
    rfl

namespace Inv

/-- What a lookup without an answer has seen. -/
theorem unanswered (h : Inv c x) (hi : Env c x i) (hs : x.1.state = .read) (ht : translates c i = true)
    (ha : x.1.answers i = false) : x.2.translated x.1 i = some i.fetchPaddr ∧ x.1.clTagD i = tagOf i.fetchPaddr ∧
      Translates x.1.vaddr i.fetchPaddr ∧ (∀ p ∈ x.2.paddr, p = i.fetchPaddr) ∧
      (x.1.cacheEn = true → ∀ k, ¬x.1.Present (indexOf x.1.vaddr) (tagOf i.fetchPaddr) k) := by
  rw [translates, Bool.and_eq_true] at ht
  rw [Cva6Icache.answers, Bool.or_eq_false_iff] at ha
  have htag : x.1.clTagD i = tagOf i.fetchPaddr := by
    rw [Cva6Icache.clTagD, if_pos ht.1]
    rfl
  refine ⟨?_, htag, hi.translates hs ht.1 ha.2, fun p hp => (hi.same hs ht.1 ha.2 p hp).symm, fun he k hp => ?_⟩
  · rw [Ledger.translated, hs, ht.1, ha.2]
    rfl
  · obtain ⟨hr, -⟩ := (h.lookup hs).rdata he k
    have hno : x.1.clHit i = 0 := by
      have h1 := ha.1
      rw [he, Bool.and_true] at h1
      simpa using h1
    have hbit := getLsbD_ways (fun k => (x.1.tagSram k).rdata.tag == x.1.clTagD i && (x.1.tagSram k).rdata.vld) k
    rw [show ways _ = x.1.clHit i from rfl, hno, hr, htag, hp.1, hp.2] at hbit
    simp at hbit

theorem translated_translates (h : Inv c x) (hi : Env c x i) (hs : x.1.state = .read) :
    ∀ p ∈ x.2.translated x.1 i, Translates x.1.vaddr p := by
  intro p hp
  rw [Ledger.translated, hs, beq_self_eq_true, Bool.true_and] at hp
  split_ifs at hp with hv
  · rw [Bool.and_eq_true, Bool.not_eq_true'] at hv
    obtain rfl := Option.some.inj hp
    exact hi.translates hs hv.1 hv.2
  · exact (h.lookup hs).translates p hp

theorem translated_keeps (hi : Env c x i) (hs : x.1.state = .read) : ∀ p ∈ x.2.paddr, p ∈ x.2.translated x.1 i := by
  intro p hp
  rw [Ledger.translated, hs, beq_self_eq_true, Bool.true_and]
  split_ifs with hv
  · rw [Bool.and_eq_true, Bool.not_eq_true'] at hv
    rw [hi.same hs hv.1 hv.2 p hp]
    rfl
  · exact hp

theorem wordAccess_step (h : Inv c x) (hi : Env c x i) (hs : x.1.state ≠ .flush) (hp : WordAccess c x.1 p) :
    WordAccess c (x.1.step c i) p := by
  refine hp.imp_left fun he => Bool.eq_false_iff.mpr fun he' => ?_
  exact Bool.false_ne_true (he.symm.trans (h.cacheEn_of_step hi hs he'))

theorem lookup_begin (h : Inv c x) (hi : Env c x i) (hs : x.1.state ≠ .flush) (hw : (x.1.fsm c i).cacheWren = false)
    (hready : (x.1.fsm c i).ready = true) (hreq : i.req = true) (hcmp : (x.1.fsm c i).cmpEnD = x.1.cacheEn)
    (hrd : x.1.cacheEn = true → (x.1.fsm c i).cacheRden = true) : Lookup c ((icache c).next x i) where
  translates p hp := by
    change p ∈ (x.2.watch c x.1 i).paddr at hp
    rw [Ledger.watch, Ledger.accepts, hready, hreq] at hp
    cases hp
  offset := by
    refine .inl ?_
    change x.1.clOffsetD c i = lineOffset (x.1.vaddrD c i)
    rw [Cva6Icache.clOffsetD, Cva6Icache.vaddrD, hready, hreq]
    rfl
  rdata he := rdata_eq (h.control.does hi) hi.invEn_eq hs hw (hrd (h.cacheEn_of_step hi hs he))
  cmpEn he := .inl (hcmp.trans (h.cacheEn_of_step hi hs he))

/-- A lookup that goes on keeps its address and its translation. -/
theorem lookup_stay (h : Inv c x) (hi : Env c x i) (hs : x.1.state = .read) (hw : (x.1.fsm c i).cacheWren = false)
    (hready : (x.1.fsm c i).ready = false) (hrd : (x.1.fsm c i).cacheRden = x.1.cacheEn)
    (hoff : x.1.clOffsetD c i = lineOffset x.1.vaddr ∨ c.axiCompliant = true ∧
      x.1.clOffsetD c i = wordOffset x.1.vaddr ∧ ∃ p ∈ x.2.translated x.1 i, WordAccess c x.1 p)
    (hcmp : x.1.cacheEn = true → (x.1.fsm c i).cmpEnD = true ∨
      ∃ p ∈ x.2.translated x.1 i, ∀ k, ¬x.1.Present (indexOf x.1.vaddr) (tagOf p) k) :
        Lookup c ((icache c).next x i) := by
  have hne : x.1.state ≠ .flush := by
    rw [hs]
    decide
  have hv : (x.1.step c i).vaddr = x.1.vaddr := by
    change x.1.vaddrD c i = x.1.vaddr
    rw [Cva6Icache.vaddrD, hready]
    rfl
  have hp : (x.2.watch c x.1 i).paddr = x.2.translated x.1 i := by
    rw [Ledger.watch, Ledger.accepts, hready]
    rfl
  constructor
  case translates =>
    change ∀ p ∈ (x.2.watch c x.1 i).paddr, Translates (x.1.step c i).vaddr p
    rw [hp, hv]
    exact h.translated_translates hi hs
  case offset =>
    change x.1.clOffsetD c i = lineOffset (x.1.step c i).vaddr ∨ c.axiCompliant = true ∧
      x.1.clOffsetD c i = wordOffset (x.1.step c i).vaddr ∧ ∃ p ∈ (x.2.watch c x.1 i).paddr,
      WordAccess c (x.1.step c i) p
    rw [hp, hv]
    refine hoff.imp_right ?_
    rintro ⟨ha, ho, p, hmem, hword⟩
    exact ⟨ha, ho, p, hmem, h.wordAccess_step hi hne hword⟩
  case rdata =>
    intro he
    exact rdata_eq (h.control.does hi) hi.invEn_eq hne hw (hrd.trans (h.cacheEn_of_step hi hne he))
  case cmpEn =>
    intro he
    change (x.1.fsm c i).cmpEnD = true ∨ ∃ p ∈ (x.2.watch c x.1 i).paddr, ∀ k,
      ¬(x.1.step c i).Present (indexOf (x.1.step c i).vaddr) (tagOf p) k
    rw [hp, hv]
    simp only [h.present_same hi hne hw]
    exact hcmp (h.cacheEn_of_step hi hne he)

/-- The offset while a memory request is put out. -/
theorem clOffsetD_fetch (h : Inv c x) (hi : Env c x i) (hs : x.1.state = .read) (ht : translates c i = true)
    (ha : x.1.answers i = false) (hready : (x.1.fsm c i).ready = false) (hm : (x.1.fsm c i).memDataReq = true) :
    x.1.clOffsetD c i = returnOffset c (x.1.paddrIsNc c i) i.fetchPaddr := by
  obtain ⟨-, htag, htr, hsame, -⟩ := h.unanswered hi hs ht ha
  rw [Cva6Icache.clOffsetD, hready, hm, Bool.and_true, Bool.false_and, if_neg Bool.false_ne_true, returnOffset_eq htr,
    Bool.and_comm c.axiCompliant]
  split_ifs with hn
  · exact rewrite_offset ((h.lookup hs).offset.imp_right fun ho => ho.2.1)
  · rcases (h.lookup hs).offset with ho | ⟨hax, -, p, hp, hword⟩
    · exact ho
    · obtain rfl := hsame p hp
      exact absurd (by rw [(paddrIsNc_iff htag).mpr hword, hax]; rfl) hn

theorem lookup_step (h : Inv c x) (hi : Env c x i) (hs' : (x.1.step c i).state = .read) :
    Lookup c ((icache c).next x i) := by
  have hd := h.control.does hi
  have hw := hd.cacheWren_eq_false (.inl hs')
  rcases hd.to_read hs' with ⟨hs, hready, hreq, hcmp, hrd⟩ | ⟨hs, hready, hrd, hm | hm⟩
  · exact h.lookup_begin hi hs hw hready hreq hcmp hrd
  · refine h.lookup_stay hi hs hw hready hrd ?_ fun he => .inl (hm.2.trans he)
    have hoff : x.1.clOffsetD c i = x.1.clOffset := by
      rw [Cva6Icache.clOffsetD, hready, hm.1]
      simp
    rw [hoff]
    refine (h.lookup hs).offset.imp_right ?_
    rintro ⟨ha, ho, p, hp, hword⟩
    exact ⟨ha, ho, p, translated_keeps hi hs p hp, hword⟩
  · obtain ⟨hm, -, ht, ha⟩ := hm
    obtain ⟨htrans, htag, htr, hsame, hno⟩ := h.unanswered hi hs ht ha
    refine h.lookup_stay hi hs hw hready hrd ?_ fun he => .inr ⟨i.fetchPaddr, htrans, hno he⟩
    rw [h.clOffsetD_fetch hi hs ht ha hready hm, returnOffset_eq htr]
    split_ifs with hn
    · rw [Bool.and_eq_true] at hn
      exact .inr ⟨hn.2, rfl, i.fetchPaddr, htrans, (paddrIsNc_iff htag).mp hn.1⟩
    · exact .inl rfl

theorem fetching_pend (h : Inv c x) (hi : Env c x i) (hs : x.1.state = .miss) (ha : i.ifillAck = false)
    (hready : (x.1.fsm c i).ready = false) (hm : (x.1.fsm c i).memDataReq = false)
    (hreq : (x.1.fsm c i).fetchReq = false) (hcmp : (x.1.fsm c i).cmpEnD = false)
    (hw : (x.1.fsm c i).cacheWren = false) : ∃ p o, Fetching c ((icache c).next x i) p o := by
  obtain ⟨p, o, hp⟩ := h.fetching hs
  have hne : x.1.state ≠ .flush := by
    rw [hs]
    decide
  have hv : (x.1.step c i).vaddr = x.1.vaddr := by
    change x.1.vaddrD c i = x.1.vaddr
    rw [Cva6Icache.vaddrD, hready]
    rfl
  have hfv : i.fetchValid = false := Bool.eq_false_iff.mpr fun hv =>
    Bool.false_ne_true (hreq.symm.trans (hi.fetchReq hv))
  refine ⟨p, o, ?_⟩
  constructor
  case paddr =>
    change (x.2.watch c x.1 i).paddr = some p
    rw [Ledger.watch, Ledger.accepts, hready, Ledger.translated, hs]
    exact hp.paddr
  case outstanding =>
    change (x.2.watch c x.1 i).outstanding = some o
    rw [Ledger.watch, Ledger.sends, hm, ha]
    exact hp.outstanding
  case translates =>
    change Translates (x.1.step c i).vaddr p
    rw [hv]
    exact hp.translates
  case clTag =>
    change x.1.clTagD i = tagOf p
    rw [Cva6Icache.clTagD, hfv]
    exact hp.clTag
  case cmpEn => exact hcmp
  case request => exact hp.request
  case offset =>
    change x.1.clOffsetD c i = returnOffset c o.nc p
    rw [Cva6Icache.clOffsetD, hready, hm, Bool.and_false, Bool.and_false]
    exact hp.offset
  case word => exact fun ho => h.wordAccess_step hi hne (hp.word ho)
  case line =>
    intro ho
    change cacheable c (tagOf p) = true ∧ ∀ k, ¬(x.1.step c i).Present (indexOf (x.1.step c i).vaddr) (tagOf p) k
    rw [hv]
    simp only [h.present_same hi hne hw]
    exact hp.line ho

theorem fetching_begin (h : Inv c x) (hi : Env c x i) (hs : x.1.state = .read) (hack : i.memDataAck = true)
    (ht : translates c i = true) (ha : x.1.answers i = false) (hready : (x.1.fsm c i).ready = false)
    (hm : (x.1.fsm c i).memDataReq = true) (hcmp : (x.1.fsm c i).cmpEnD = false)
    (hw : (x.1.fsm c i).cacheWren = false) :
    ∃ p o, Fetching c ((icache c).next x i) p o := by
  obtain ⟨htrans, htag, htr, -, hno⟩ := h.unanswered hi hs ht ha
  have hne : x.1.state ≠ .flush := by
    rw [hs]
    decide
  have hv : (x.1.step c i).vaddr = x.1.vaddr := by
    change x.1.vaddrD c i = x.1.vaddr
    rw [Cva6Icache.vaddrD, hready]
    rfl
  refine ⟨i.fetchPaddr, x.1.memData c i, ?_⟩
  constructor
  case paddr =>
    change (x.2.watch c x.1 i).paddr = some i.fetchPaddr
    rw [Ledger.watch, Ledger.accepts, hready]
    exact htrans
  case outstanding =>
    change (x.2.watch c x.1 i).outstanding = some (x.1.memData c i)
    rw [Ledger.watch, Ledger.sends, hm, hack]
    rfl
  case translates =>
    change Translates (x.1.step c i).vaddr i.fetchPaddr
    rw [hv]
    exact htr
  case clTag => exact htag
  case cmpEn => exact hcmp
  case request =>
    rw [← requestAddr_eq htr, Cva6Icache.memData, htag]
  case offset => exact h.clOffsetD_fetch hi hs ht ha hready hm
  case word => exact fun ho => h.wordAccess_step hi hne ((paddrIsNc_iff htag).mp ho)
  case line =>
    intro ho
    change x.1.paddrIsNc c i = false at ho
    rw [Cva6Icache.paddrIsNc, htag, Bool.or_eq_false_iff, Bool.not_eq_false', Bool.not_eq_false'] at ho
    change cacheable c (tagOf i.fetchPaddr) = true ∧
      ∀ k, ¬(x.1.step c i).Present (indexOf (x.1.step c i).vaddr) (tagOf i.fetchPaddr) k
    rw [hv]
    simp only [h.present_same hi hne hw]
    exact ⟨ho.2, hno ho.1⟩

theorem fetching_step (h : Inv c x) (hi : Env c x i) (hs' : (x.1.step c i).state = .miss) :
    ∃ p o, Fetching c ((icache c).next x i) p o := by
  have hd := h.control.does hi
  have hw := hd.cacheWren_eq_false (.inr hs')
  obtain ⟨hready, hcmp, ⟨hs, ha, hm, hreq⟩ | ⟨hs, hm, hack, ht, ha⟩⟩ := hd.to_miss hs'
  · exact h.fetching_pend hi hs ha hready hm hreq hcmp hw
  · exact h.fetching_begin hi hs hack ht ha hready hm hcmp hw

theorem step (h : Inv c x) (hi : Env c x i) : Inv c ((icache c).next x i) where
  control := h.control.step hi
  lines := ⟨h.unique_step hi, h.emptied_step hi, h.held_step hi⟩
  oneWay := h.oneWay_step
  lookup := h.lookup_step hi
  fetching := h.fetching_step hi

theorem init {q : Cva6Icache} (hq : q.Init) : Inv c (q, .empty) where
  control := .init hq
  lines := {
    unique := by
      intro n hn
      change false = true ∨ n < q.flushCnt at hn
      rw [hq.flushCnt] at hn
      exact absurd (hn.resolve_left Bool.false_ne_true) BitVec.not_lt_zero
    emptied := by
      intro _ n hn
      change n < q.flushCnt at hn
      rw [hq.flushCnt] at hn
      exact absurd hn BitVec.not_lt_zero
    held := fun hs => absurd hq.state hs }
  oneWay k k' hk := by
    change q.replWayOh.getLsbD k = true at hk
    rw [hq.replWayOh] at hk
    simp at hk
  lookup hs := by cases hq.state.symm.trans hs
  fetching hs := by cases hq.state.symm.trans hs

end Inv

theorem inv_of_reachable (hr : (icache c).Reachable (Env c) x) : Inv c x := by
  refine hr.invariant (P := Inv c) ?_ fun y i h hi => h.step hi
  rintro ⟨q, l⟩ ⟨hq, hl⟩
  obtain rfl : l = Ledger.empty := hl
  exact .init hq

end Culsans.Icache
