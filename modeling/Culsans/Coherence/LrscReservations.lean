import Culsans.Coherence.LrscWrites

/-! # Reservations behind the LR/SC adapter

The table of the adapter is the table of reservations that the cores rely on, and a store-conditional
that is passed on finds the line as its load-reserved has read it.
-/

namespace Culsans.Coherence
open Library

/-- The line in the terms of the caches. -/
def cacheLineOf (x : BitVec 60) : Line := (x.extractLsb' 8 44, x.extractLsb' 0 8)

/-- What the table holds for every user. -/
def ResTbl.resTable {u : ℕ} (t : ResTbl u) : ResTable := fun n =>
  if n < 2 ^ u ∧ t (BitVec.ofNat u n) ≠ 0 then some (cacheLineOf (t (BitVec.ofNat u n))) else none

theorem cacheLine_eq {w v : ℕ} (a : AxReq w v) : a.cacheLine = cacheLineOf a.line := by
  simp only [AxReq.cacheLine, cacheLineOf, AxReq.line, Prod.mk.injEq]
  constructor <;> ext j hj <;> simp [BitVec.getLsbD_extractLsb'] <;> grind

/-- Lines of 56-bit addresses are told apart by their tag and index. -/
theorem cacheLineOf_inj {x y : BitVec 60} (hx : x.extractLsb' 52 8 = 0) (hy : y.extractLsb' 52 8 = 0)
    (h : cacheLineOf x = cacheLineOf y) : x = y := by
  simp only [cacheLineOf, Prod.mk.injEq] at h
  have h1 := congrArg BitVec.toNat h.1
  have h2 := congrArg BitVec.toNat h.2
  have h3 := congrArg BitVec.toNat hx
  have h4 := congrArg BitVec.toNat hy
  simp only [BitVec.extractLsb'_toNat, Nat.shiftRight_eq_div_pow] at h1 h2 h3 h4
  apply BitVec.eq_of_toNat_eq
  have hx' := x.isLt
  have hy' := y.isLt
  simp at h3 h4
  omega

/-! ### What the table does -/

/-- The registers of the reads: an exclusive read that has been looked up waits for the queue of
reads or for memory. -/
structure ReadInv {w v u : ℕ} (q : Lrsc w v u) (g : LrscLog w v u) : Prop where
  fork : q.arPushFork = .waiting (g.taken && !q.arWait) 1
  held : g.arHeld = none → g.taken = false ∧ q.arWait = false
  wait : q.arWait = true → g.taken = true

namespace Lrsc
variable {w v u : ℕ} {c : LrscCfg} {q : Lrsc w v u} {g : LrscLog w v u} {i : LrscIn w v} {r a : AxReq w v}

/-- The table is not asked while a read looks for writes in flight. -/
theorem check_none (hb : LrscBase q g) (he : LrscEnv (q, g) i) (hg : q.arExistsGnt c i = true) :
    (q.awOut c i).check = none := by
  have hd := does (c := c) hb.aw he.write
  generalize q.awOut c i = o at hd
  cases hd with
  | keep => rfl
  | drop a ha hs hl => exact absurd hl.gnt (by simp [hg])
  | pass a x chk ha hs ht hx hl ho =>
    cases hin : c.inside a.addr with
    | true => exact absurd (hl hin).1.gnt (by simp [hg])
    | false => exact ho hin

theorem passes_eq_some : LrscLog.passes c q i = some a ↔ q.accepts c i = some (a, true) := by
  rw [LrscLog.passes]
  cases q.accepts c i with
  | none => simp
  | some e => rcases e with ⟨b, f⟩; cases f <;> simp

/-- A write that is passed on is inside the window and has been looked up, or is outside. -/
theorem passed_looked (hb : LrscBase q g) (he : LrscEnv (q, g) i) (h : LrscLog.passes c q i = some a) :
    i.aw = some a ∧ (c.inside a.addr = true → q.Looked c i a ∧ (q.awOut c i).check = some (a.line, a.lock)) ∧
      (c.inside a.addr = false → (q.awOut c i).check = none) ∧
        (a.exclusive c = true → q.art (resId a.user) = a.line) := by
  rw [passes_eq_some, accepts] at h
  have hd := does (c := c) hb.aw he.write
  generalize q.awOut c i = o at hd h
  cases hd with
  | keep => simp [awKeep] at h
  | drop b ha => simp [ha, awKeep] at h
  | pass b x chk ha hs ht hx hl ho hex =>
    obtain rfl : b = a := by simpa [ha] using h
    exact ⟨ha, hl, ho, hex⟩

/-- The queue is asked about the writes that memory has not answered. -/
theorem all_inFlight (hs : Stage c q g) (p : BitVec 60 → Bool) :
    (g.inFlight.all fun a => !p a.line) = !(q.writeInFlight.any fun e => p e.2.1) := by
  obtain ⟨hf, hi⟩ | ⟨a, hf, hi⟩ := hs.flight_eq <;> simp [hf, hi]

theorem reserves_eq (hs : Stage c q g) : g.reserves c q i =
    if !q.arWait && !g.taken && q.arPushRes c i then i.ar else none := by
  cases har : i.ar with
  | none => simp [LrscLog.reserves, har]
  | some r =>
    have hq := all_inFlight hs fun x => pageOf x == pageOf r.line
    cases hw : q.arWait <;> cases ht : g.taken <;> cases he : arPushExcl c r <;> cases hg : q.arExistsGnt c i <;>
      simp [LrscLog.reserves, arPushValid, arPushRes, har, hw, ht, he, hg, hq, arWifqExists, Option.filter]

theorem setReq_eq (hr : ReadInv q g) :
    (q.artIn c i).setReq = (!q.arWait && !g.taken && q.arPushRes c i) := by
  simp only [artIn]
  rw [hr.fork, StreamFork.validO_waiting]
  cases har : i.ar with
  | none => simp [arPushRes, har]
  | some r =>
    cases hw : q.arWait <;> cases ht : g.taken <;> cases he : arPushExcl c r <;> cases hg : q.arExistsGnt c i <;>
      simp [arPushValid, arPushRes, har, hw, he, hg]

/-- The table is written by the read that makes a reservation. -/
theorem setGnt_eq (hb : LrscBase q g) (hr : ReadInv q g) (hs : Stage c q g) (he : LrscEnv (q, g) i) :
    (q.artIn c i).setGnt = (g.reserves c q i).isSome := by
  rw [ResTblIn.setGnt, setReq_eq hr, reserves_eq hs]
  cases har : i.ar with
  | none => simp [arPushRes, har]
  | some r =>
    cases hp : q.arPushRes c i with
    | false => simp
    | true =>
      have hg : q.arExistsGnt c i = true := by
        simp only [arPushRes, har, Option.any_some, Bool.and_eq_true] at hp
        exact hp.1.2
      have hc : (q.artIn c i).checkClrReq = false := by simp [artIn, check_none hb he hg]
      rw [hc]
      cases q.arWait <;> cases g.taken <;> simp

theorem lock_single (h : a.inLine = true) (hk : a.lock = true) : a.len = 0 := by
  simp only [AxReq.inLine, Bool.and_eq_true, Bool.or_eq_true, Bool.not_eq_true', beq_iff_eq] at h
  simpa [hk] using h.2

/-- A write clears the reservations of its line when it is passed on, and only then. -/
theorem clear_eq (hc : c.WholeLines) (hb : LrscBase q g) (he : LrscEnv (q, g) i)
    (hin : ∀ k, q.art k ≠ 0 → c.insideLine (q.art k) = true) (k : BitVec u) :
    (if q.art.clr (q.artIn c i) && q.art k == (q.artIn c i).checkClrAddr then 0 else q.art k) =
      if (LrscLog.passes c q i).any fun a => a.line == q.art k then 0 else q.art k := by
  have hd := does (c := c) hb.aw he.write
  have hid : ∀ a, i.aw = some a → (q.artIn c i).checkId = resId a.user := by
    intro a ha
    simp [artIn, hb.aw, ha]
  generalize ho : q.awOut c i = o at hd
  cases hd with
  | keep => simp [LrscLog.passes, accepts, ResTbl.clr, artIn, ho, awKeep]
  | drop a ha hs hl hex hr =>
    have hm : (q.art (q.artIn c i).checkId == (q.artIn c i).checkClrAddr) = false := by
      rw [hid a ha]
      simpa [artIn, ho] using hr
    have hexcl : (q.artIn c i).checkClrExcl = true := by simp [artIn, ho]
    simp [LrscLog.passes, accepts, ho, ResTbl.clr, hm, hexcl, ha, awKeep]
  | pass a x chk ha hs ht hx hl hout hex =>
    have hp : LrscLog.passes c q i = some a := by simp [LrscLog.passes, accepts, ho, ha]
    rw [hp, Option.any_some, ResTbl.clr]
    cases hins : c.inside a.addr with
    | true =>
      obtain ⟨-, rfl⟩ := hl hins
      have hclr : ((q.artIn c i).checkClrReq &&
          !((q.artIn c i).checkClrExcl && !(q.art (q.artIn c i).checkId == (q.artIn c i).checkClrAddr))) = true := by
        cases hk : a.lock with
        | false => simp [artIn, ho, hk]
        | true =>
          have hn := lock_single (by simpa [ha] using he.write) hk
          have hm := hex (by simp [AxReq.exclusive, hins, hk, hn])
          rw [hid a ha, hm]
          simp [artIn, ho]
      have haddr : (q.artIn c i).checkClrAddr = a.line := by simp [artIn, ho]
      rw [hclr, haddr, Bool.true_and, BEq.comm]
    | false =>
      -- the table holds nothing outside the window
      have hne : q.art k ≠ 0 → (a.line == q.art k) = false := by
        intro h0
        apply beq_eq_false_iff_ne.mpr
        intro hline
        have hk := hin k h0
        rw [← hline, ← inside_eq hc, hins] at hk
        cases hk
      have hreq : (q.artIn c i).checkClrReq = false := by simp [artIn, ho, hout hins]
      rw [hreq]
      by_cases h0 : q.art k = 0
      · simp [h0]
      · simp [hne h0]

/-- Exclusive reads reserve their line, and writes that are passed on clear it. -/
theorem art_step (hc : c.WholeLines) (hb : LrscBase q g) (hr : ReadInv q g) (hs : Stage c q g) (he : LrscEnv (q, g) i)
    (hin : ∀ k, q.art k ≠ 0 → c.insideLine (q.art k) = true) (k : BitVec u) : (q.step c i).art k =
      match (g.reserves c q i).filter fun r => resId r.user == k with
      | some r => r.line
      | none => if (LrscLog.passes c q i).any fun a => a.line == q.art k then 0 else q.art k := by
  have hset := setGnt_eq hb hr hs he
  have hclear := clear_eq hc hb he hin k
  change q.art.step (q.artIn c i) k = _
  rw [ResTbl.step, hset]
  cases hrs : g.reserves c q i with
  | none => simpa using hclear
  | some r =>
    have har : i.ar = some r := by
      rw [reserves_eq hs] at hrs
      split_ifs at hrs
      exact hrs
    have hid : (q.artIn c i).setId = resId r.user := by simp [artIn, har]
    have haddr : (q.artIn c i).setAddr = r.line := by simp [artIn, har]
    rw [hid, haddr, hclear]
    by_cases hk : resId r.user = k
    · simp [hk, Option.filter]
    · simp [Option.filter, hk, Ne.symm hk]

end Lrsc

/-! ### The table of the cores -/

section Table
variable {u : ℕ} {t : ResTbl u}

theorem resTable_ofNat {n : ℕ} (hn : n < 2 ^ u) :
    t.resTable n = if t (BitVec.ofNat u n) = 0 then none else some (cacheLineOf (t (BitVec.ofNat u n))) := by
  simp [ResTbl.resTable, hn]

theorem resTable_eq_some {k : BitVec u} {x : BitVec 60} (ht : ∀ k, (t k).extractLsb' 52 8 = 0)
    (hx : x.extractLsb' 52 8 = 0) (h0 : x ≠ 0) : t.resTable k.toNat = some (cacheLineOf x) ↔ t k = x := by
  rw [resTable_ofNat k.isLt, BitVec.ofNat_toNat, BitVec.setWidth_eq]
  constructor
  · intro h
    split_ifs at h
    exact cacheLineOf_inj (ht k) hx (Option.some.inj h)
  · rintro rfl
    exact if_neg h0

end Table

/-! ### Runs -/

/-- A line that a user holds has been read by it, with no write since, or is being read. -/
def Fresh {w v u : ℕ} (c : LrscCfg) (g : LrscLog w v u) (k : BitVec u) (x : BitVec 60) : Prop :=
  g.clean k x = true ∨ g.taken = true ∧ (∃ r, g.arHeld = some r ∧ Lrsc.arPushExcl c r = true ∧ Lrsc.resId r.user = k ∧
    r.line = x) ∧ ∀ a ∈ g.inFlight, a.line ≠ x

structure LrscInv {w v u : ℕ} (c : LrscCfg) (q : Lrsc w v u) (g : LrscLog w v u) : Prop where
  base : LrscBase q g
  stage : Stage c q g
  read : ReadInv q g
  upper : ∀ k, (q.art k).extractLsb' 52 8 = 0
  inside : ∀ k, q.art k ≠ 0 → c.insideLine (q.art k) = true
  table : g.table = q.art.resTable
  fresh : ∀ k, q.art k ≠ 0 → Fresh c g k (q.art k)

theorem AxReq.upper_of_mapped {w v : ℕ} {a : AxReq w v} (h : a.mapped = true) :
    a.line ≠ 0 ∧ a.line.extractLsb' 52 8 = 0 := by
  simp only [mapped, Bool.and_eq_true, decide_eq_true_eq, beq_iff_eq] at h
  refine ⟨h.1, ?_⟩
  rw [← h.2]
  ext j hj
  simp [line]
  grind

theorem AxReq.mapped_of_inLine {w v : ℕ} {a : AxReq w v} (h : a.inLine = true) : a.mapped = true := by
  simp only [inLine, Bool.and_eq_true] at h
  exact h.1.1

namespace LrscInv
variable {w v u : ℕ} {c : LrscCfg} {q : Lrsc w v u} {g : LrscLog w v u} {i : LrscIn w v} {r a : AxReq w v}
open Lrsc LrscLog

/-- A read that makes a reservation. -/
structure Reserving (c : LrscCfg) (q : Lrsc w v u) (g : LrscLog w v u) (i : LrscIn w v) (r : AxReq w v) : Prop where
  ar : i.ar = some r
  excl : arPushExcl c r = true
  gnt : q.arExistsGnt c i = true
  valid : q.arPushValid c i = true
  quiet : ∀ a ∈ g.inFlight, a.line ≠ r.line

theorem reserving (h : LrscInv c q g) (hs : g.reserves c q i = some r) : Reserving c q g i r := by
  rw [reserves_eq h.stage] at hs
  split_ifs at hs with hp
  simp only [arPushRes, hs, Option.any_some, Bool.and_eq_true, Bool.not_eq_true'] at hp
  obtain ⟨⟨hw, -⟩, ⟨he, hg⟩, hf⟩ := hp
  refine ⟨hs, he, hg, by simp [arPushValid, hs, hw, hg], ?_⟩
  intro a ha hline
  have hq := all_inFlight h.stage fun x => pageOf x == pageOf r.line
  rw [← arWifqExists, hf, Bool.not_false, List.all_eq_true] at hq
  simpa [hline] using hq a ha

theorem pushReady (h : LrscInv c q g) (he : LrscEnv (q, g) i) (hb : (g.taken && !q.arWait) = false)
    (hv : q.arPushValid c i = true) : q.arPushReadies c i 1 = true := by
  have hset := setGnt_eq h.base h.read h.stage he (c := c)
  rw [arPushReadies, if_neg (by decide), hset, reserves_eq h.stage]
  cases har : i.ar with
  | none => simp [arPushRes, har]
  | some r =>
    have hw : q.arWait = false := by
      simp only [arPushValid, Bool.and_eq_true, Bool.not_eq_true'] at hv
      exact hv.1
    have ht : g.taken = false := by simpa [hw] using hb
    cases q.arPushRes c i <;> simp [hw, ht]

theorem arPushReady_eq (h : LrscInv c q g) (he : LrscEnv (q, g) i) :
    q.arPushReady c i = (q.arPushValid c i && q.rifqInpGnt i) := by
  rw [arPushReady, h.read.fork, StreamFork.readyO_waiting 1 (h.pushReady he)]
  rfl

theorem read_step (h : LrscInv c q g) (he : LrscEnv (q, g) i) : ReadInv (q.step c i) (g.watch c q i) := by
  have hready := h.arPushReady_eq he (c := c)
  have hwait : (q.step c i).arWait =
      if q.arWait then !(i.mstArReady && i.ar.isSome) else q.arPushReady c i && !i.mstArReady := rfl
  have htaken : (g.watch c q i).taken = (!q.slvArReady c i && (g.taken || q.arPushValid c i)) := rfl
  have hheld : (g.watch c q i).arHeld = if q.slvArReady c i then none else i.ar := rfl
  have hfork : (q.step c i).arPushFork =
      .waiting (if q.arPushValid c i then !q.rifqInpGnt i else g.taken && !q.arWait) 1 := by
    change q.arPushFork.step (q.arPushValid c i) (q.arPushReadies c i) = _
    rw [h.read.fork, StreamFork.step_waiting 1 (h.pushReady he)]
    rfl
  have hpush : q.arWait = true → q.arPushValid c i = false := fun hw => by simp [arPushValid, hw]
  have hsome : q.arWait = true → i.ar.isSome = true := by
    intro hw
    have hne : g.arHeld ≠ none := fun hn => by simp [(h.read.held hn).2] at hw
    rw [he.ar.resolve_left hne]
    exact Option.isSome_iff_ne_none.mpr hne
  refine ⟨?_, ?_, ?_⟩
  · rw [hfork, hwait, htaken, slvArReady, hready]
    congr 1
    cases hw : q.arWait with
    | true => cases i.mstArReady <;> simp [hpush hw, hsome hw, h.read.wait hw]
    | false => cases q.arPushValid c i <;> cases q.rifqInpGnt i <;> cases i.mstArReady <;> simp
  · intro hn
    rw [hheld] at hn
    rw [hwait, htaken]
    split_ifs at hn with hr
    · rw [slvArReady] at hr
      cases hw : q.arWait <;> simp_all [slvArReady]
    · have hv : q.arPushValid c i = false := by simp [arPushValid, hn]
      obtain ⟨ht, hw⟩ := h.read.held (by rcases he.ar with ha | ha <;> simp_all)
      simp [hready, hv, ht, hw]
  · rw [hwait, htaken, slvArReady]
    cases hw : q.arWait with
    | true => cases i.mstArReady <;> simp [h.read.wait hw, Option.isSome_iff_ne_none.mp (hsome hw)]
    | false => cases hv : q.arPushValid c i <;> cases i.mstArReady <;> simp [hready, hv]

theorem art_step (hc : c.WholeLines) (h : LrscInv c q g) (he : LrscEnv (q, g) i) (k : BitVec u) : (q.step c i).art k =
    match (g.reserves c q i).filter fun r => resId r.user == k with
    | some r => r.line
    | none => if (passes c q i).any fun a => a.line == q.art k then 0 else q.art k :=
  Lrsc.art_step hc h.base h.read h.stage he h.inside k

/-- What is in the table was there and is not written now, or is reserved now. -/
theorem art_cases (hc : c.WholeLines) (h : LrscInv c q g) (he : LrscEnv (q, g) i) {k : BitVec u}
    (h0 : (q.step c i).art k ≠ 0) :
    (∃ r, Reserving c q g i r ∧ resId r.user = k ∧ (q.step c i).art k = r.line) ∨
      (q.step c i).art k = q.art k ∧ (passes c q i).any (fun a => a.line == q.art k) = false := by
  have hk := art_step hc h he k
  cases hf : (g.reserves c q i).filter fun r => resId r.user == k with
  | some r =>
    obtain ⟨hr, hid⟩ := Option.filter_eq_some_iff.mp hf
    rw [hf] at hk
    exact .inl ⟨r, h.reserving hr, by simpa using hid, hk⟩
  | none =>
    rw [hf] at hk
    simp only at hk
    split_ifs at hk with hp
    · exact absurd hk h0
    · exact .inr ⟨hk, by simpa using hp⟩

theorem read_upper (he : LrscEnv (q, g) i) (har : i.ar = some r) : r.line ≠ 0 ∧ r.line.extractLsb' 52 8 = 0 :=
  AxReq.upper_of_mapped (by simpa [har] using he.read)

theorem write_upper (he : LrscEnv (q, g) i) (ha : i.aw = some a) : a.line ≠ 0 ∧ a.line.extractLsb' 52 8 = 0 :=
  AxReq.upper_of_mapped (AxReq.mapped_of_inLine (by simpa [ha] using he.write))

theorem upper_step (hc : c.WholeLines) (h : LrscInv c q g) (he : LrscEnv (q, g) i) (k : BitVec u) :
    ((q.step c i).art k).extractLsb' 52 8 = 0 := by
  by_cases h0 : (q.step c i).art k = 0
  · rw [h0]
    rfl
  · obtain ⟨r, hr, -, hk⟩ | ⟨hk, -⟩ := art_cases hc h he h0
    · rw [hk]
      exact (read_upper he hr.ar).2
    · rw [hk]
      exact h.upper k

theorem inside_step (hc : c.WholeLines) (h : LrscInv c q g) (he : LrscEnv (q, g) i) (k : BitVec u)
    (h0 : (q.step c i).art k ≠ 0) : c.insideLine ((q.step c i).art k) = true := by
  obtain ⟨r, hr, -, hk⟩ | ⟨hk, -⟩ := art_cases hc h he h0
  · have hex := hr.excl
    simp only [arPushExcl, Bool.and_eq_true] at hex
    rw [hk, ← inside_eq hc]
    exact hex.1.1
  · rw [hk]
    exact h.inside k (hk ▸ h0)

theorem resTable_clear (h : LrscInv c q g) {x : BitVec 60} (hx : x.extractLsb' 52 8 = 0) (h0 : x ≠ 0) :
    q.art.resTable.clear (cacheLineOf x) = ResTbl.resTable fun k => if q.art k = x then 0 else q.art k := by
  funext n
  by_cases hn : n < 2 ^ u
  · have hk := resTable_eq_some (k := BitVec.ofNat u n) h.upper hx h0
    rw [BitVec.toNat_ofNat, Nat.mod_eq_of_lt hn] at hk
    rw [ResTable.clear, resTable_ofNat (t := fun k => if q.art k = x then 0 else q.art k) hn]
    by_cases hm : q.art (BitVec.ofNat u n) = x
    · rw [if_pos (hk.mpr hm), if_pos hm, if_pos rfl]
    · rw [if_neg fun hs => hm (hk.mp hs), if_neg hm]
      exact resTable_ofNat hn
  · simp [ResTable.clear, ResTbl.resTable, hn]

theorem resTable_set (t : ResTbl u) (k : BitVec u) {x : BitVec 60} (h0 : x ≠ 0) :
    t.resTable.set k.toNat (cacheLineOf x) = ResTbl.resTable fun j => if k = j then x else t j := by
  funext n
  by_cases hn : n < 2 ^ u
  · rw [resTable_ofNat (t := fun j => if k = j then x else t j) hn, ResTable.set, Function.update_apply,
      resTable_ofNat hn]
    by_cases hk : n = k.toNat
    · subst hk
      simpa using h0
    · have hne : k ≠ BitVec.ofNat u n := by
        rintro rfl
        simp [Nat.mod_eq_of_lt hn] at hk
      simp [hk, hne]
  · have hk : n ≠ k.toNat := fun hk => hn (hk ▸ k.isLt)
    simp [ResTable.set, ResTbl.resTable, hn, hk]

theorem table_step (hc : c.WholeLines) (h : LrscInv c q g) (he : LrscEnv (q, g) i) :
    (g.watch c q i).table = (q.step c i).art.resTable := by
  have hcleared : g.cleared c q i =
      ResTbl.resTable fun k => if (passes c q i).any fun a => a.line == q.art k then 0 else q.art k := by
    rw [cleared, h.table]
    cases hp : passes c q i with
    | none => rfl
    | some a =>
      obtain ⟨ha0, hau⟩ := write_upper he (passed_looked h.base he hp).1
      simp only [Option.any_some, beq_iff_eq, cacheLine_eq]
      rw [resTable_clear h hau ha0]
      congr 1
      funext k
      by_cases hk : q.art k = a.line
      · simp [hk]
      · simp [hk, Ne.symm hk]
  change g.tableD c q i = _
  rw [tableD, hcleared]
  have hk := funext (art_step hc h he)
  rw [hk]
  cases hr : g.reserves c q i with
  | none => rfl
  | some r =>
    obtain ⟨hr0, -⟩ := read_upper he (h.reserving hr).ar
    simp only [cacheLine_eq]
    rw [resTable_set _ _ hr0]
    congr 1
    funext k
    by_cases hid : resId r.user = k <;> simp [Option.filter, hid]

theorem mem_inFlight_watch (ha : a ∈ (g.watch c q i).inFlight) : a ∈ g.inFlight ∨ passes c q i = some a := by
  have harr : (g.watch c q i).arrived = g.arrived + (i.mstB.isSome && g.bHeld.isNone).toNat := rfl
  rw [inFlight, passed_watch, harr, ← List.drop_drop] at ha
  have hm := List.mem_of_mem_drop ha
  rw [List.drop_append, List.mem_append] at hm
  rcases hm with hm | hm
  · exact .inl hm
  · exact .inr (by simpa using List.mem_of_mem_drop hm)

/-- A read that finds its line without a write in flight keeps it fresh until it is accepted. -/
theorem fresh_of_read {k : BitVec u} {x : BitVec 60} (har : i.ar = some r) (hex : arPushExcl c r = true)
    (hid : resId r.user = k) (hl : r.line = x) (hq : ∀ a ∈ g.inFlight, a.line ≠ x)
    (ht : (g.taken || q.arPushValid c i) = true) (hp : (passes c q i).any (fun a => a.line == x) = false) :
    Fresh c (g.watch c q i) k x := by
  cases hr : q.slvArReady c i with
  | true =>
    left
    change g.cleanD c q i k x = true
    have hall : (g.inFlight.all fun a => !(a.line == x)) = true := by simpa using hq
    simp [cleanD, acceptsAr, hr, har, hex, hid, hl, hall, hp]
  | false =>
    right
    refine ⟨?_, ⟨r, ?_, hex, hid, hl⟩, ?_⟩
    · change (!q.slvArReady c i && (g.taken || q.arPushValid c i)) = true
      rw [hr, ht]
      rfl
    · change (if q.slvArReady c i then none else i.ar) = some r
      rw [hr]
      exact har
    · intro a ha hline
      rcases mem_inFlight_watch ha with ha | ha
      · exact hq a ha hline
      · simp [ha, hline] at hp

theorem fresh_step (hc : c.WholeLines) (h : LrscInv c q g) (he : LrscEnv (q, g) i) (k : BitVec u)
    (h0 : (q.step c i).art k ≠ 0) : Fresh c (g.watch c q i) k ((q.step c i).art k) := by
  obtain ⟨r, hr, hid, hk⟩ | ⟨hk, hp⟩ := art_cases hc h he h0
  · rw [hk]
    apply fresh_of_read hr.ar hr.excl hid rfl hr.quiet (by simp [hr.valid])
    cases hp : passes c q i with
    | none => rfl
    | some a =>
      -- the read has the port, so the write can only be outside the window
      have hl := (passed_looked h.base he hp).2.1
      cases hin : c.inside a.addr with
      | true => exact absurd (hl hin).1.gnt (by simp [hr.gnt])
      | false =>
        have hex := hr.excl
        simp only [arPushExcl, Bool.and_eq_true] at hex
        simp only [Option.any_some, beq_eq_false_iff_ne]
        intro hline
        rw [inside_eq hc, hline, ← inside_eq hc, hex.1.1] at hin
        cases hin
  · rw [hk] at h0 ⊢
    rcases h.fresh k h0 with hcl | ⟨ht, ⟨r, hheld, hex, hid, hline⟩, hq⟩
    · left
      change g.cleanD c q i k (q.art k) = true
      simp [cleanD, hcl, hp]
    · have har : i.ar = some r := by
        rcases he.ar with ha | ha
        · simp [hheld] at ha
        · exact ha.trans hheld
      exact fresh_of_read har hex hid hline hq (by simp [ht]) hp

theorem step (hc : c.WholeLines) (h : LrscInv c q g) (he : LrscEnv (q, g) i) : LrscInv c (q.step c i)
    (g.watch c q i) where
  base := h.stage.base_step h.base he
  stage := h.stage.step h.base he
  read := h.read_step he
  upper := upper_step hc h he
  inside := inside_step hc h he
  table := table_step hc h he
  fresh := fresh_step hc h he

theorem reset (c : LrscCfg) : LrscInv c (.reset : Lrsc w v u) .empty where
  base := ⟨rfl, rfl, rfl⟩
  stage := .free rfl rfl rfl rfl rfl rfl .nil rfl ⟨rfl, rfl, rfl⟩
  read := ⟨rfl, fun _ => ⟨rfl, rfl⟩, fun h => by cases h⟩
  upper _ := by simp [Lrsc.reset]
  inside _ h := absurd rfl h
  table := by
    funext n
    simp [empty, ResTbl.resTable, Lrsc.reset]
  fresh _ h := absurd rfl h

end LrscInv

/-- The adapter from its reset on, with what passes through it. -/
def lrsc (c : LrscCfg) (w v u : ℕ) : Machine (Lrsc w v u × LrscLog w v u) (LrscIn w v) where
  init x := x = (.reset, .empty)
  next x i := (x.1.step c i, x.2.watch c x.1 i)

theorem inv_of_reachable {c : LrscCfg} {w v u : ℕ} (hc : c.WholeLines) {x : Lrsc w v u × LrscLog w v u}
    (hr : (lrsc c w v u).Reachable LrscEnv x) : LrscInv c x.1 x.2 := by
  apply hr.invariant
  · rintro _ rfl
    exact .reset c
  · intro x i h he
    exact h.step hc he

/-- What the cores and memory see of exclusive accesses. -/
structure ExclusiveAccess {w v u : ℕ} (c : LrscCfg) (q : Lrsc w v u) (g : LrscLog w v u) (i : LrscIn w v) : Prop where
  /-- a store-conditional is passed on to memory if its user holds the reservation, and dropped otherwise -/
  decided : ∀ a fwd, q.accepts c i = some (a, fwd) → a.exclusive c = true →
    (fwd = true ↔ g.table (Lrsc.resId (u := u) a.user).toNat = some a.cacheLine)
  /-- then no write of its line has gone to memory since the user read it exclusively -/
  atomic : ∀ a, q.accepts c i = some (a, true) → a.exclusive c = true → g.clean (Lrsc.resId a.user) a.line = true
  /-- and none goes there before memory has answered it -/
  alone : ∀ a, q.accepts c i = some (a, true) → ∀ b ∈ g.inFlight, b.exclusive c = true → b.line ≠ a.line
  /-- the responses tell which exclusive writes were passed on -/
  replies : List.Forall₂ (LrscLog.Answers c) (g.accepted.take g.replies.length) g.replies
  /-- the write data goes where its write went -/
  bursts : g.bursts <+: g.accepted.map (·.2)

open Lrsc in
theorem exclusive_access {c : LrscCfg} {w v u : ℕ} (hc : c.WholeLines) {x : Lrsc w v u × LrscLog w v u}
    (hr : (lrsc c w v u).Reachable LrscEnv x) {i : LrscIn w v} (hi : LrscEnv x i) : ExclusiveAccess c x.1 x.2 i := by
  have h := inv_of_reachable hc hr
  refine ⟨?_, ?_, ?_, h.stage.replies_eq, h.stage.bursts_prefix⟩
  · intro a fwd hacc hex
    have hd := does (c := c) h.base.aw hi.write
    have hiw : i.aw = some a := by
      rw [accepts] at hacc
      split_ifs at hacc
      cases ha : i.aw <;> simp_all
    obtain ⟨h0, hu⟩ := LrscInv.write_upper hi hiw
    rw [h.table, cacheLine_eq, resTable_eq_some h.upper hu h0]
    rw [accepts] at hacc
    generalize x.1.awOut c i = o at hd hacc
    cases hd with
    | keep => simp [awKeep] at hacc
    | drop b ha hs hl he hne =>
      obtain rfl : b = a := Option.some.inj (ha.symm.trans hiw)
      obtain rfl : false = fwd := by simpa [ha, awKeep] using hacc
      simpa using hne
    | pass b y chk ha hs ht hx hl ho he =>
      obtain rfl : b = a := Option.some.inj (ha.symm.trans hiw)
      obtain rfl : true = fwd := by simpa [ha] using hacc
      simpa using he hex
  · intro a hacc hex
    obtain ⟨hiw, hl, -, hres⟩ := passed_looked h.base hi (passes_eq_some.mpr hacc)
    have hk := hres hex
    rcases h.fresh (resId a.user) (hk ▸ (LrscInv.write_upper hi hiw).1) with hcl | ⟨-, ⟨r, hheld, hpush, -, hline⟩, -⟩
    · rwa [hk] at hcl
    · have har : i.ar = some r := by
        rcases hi.ar with ha | ha
        · simp [hheld] at ha
        · exact ha.trans hheld
      simp only [AxReq.exclusive, Bool.and_eq_true] at hex
      have hb := (hl hex.1.1).1.read
      simp only [arPushExcl, Bool.and_eq_true] at hpush
      simp [arBlocks, har, hpush.1.2, hline, hk] at hb
  · intro a hacc b hb hex hline
    obtain ⟨-, hl, -, -⟩ := passed_looked h.base hi (passes_eq_some.mpr hacc)
    simp only [AxReq.exclusive, Bool.and_eq_true] at hex
    have hin : c.inside a.addr = true := by rw [inside_eq hc, ← hline, ← inside_eq hc, hex.1.1]
    obtain ⟨-, hf⟩ | ⟨b', hq, hf⟩ := h.stage.flight_eq
    · simp [hf] at hb
    · obtain rfl : b = b' := by simpa [hf] using hb
      have hw := (hl hin).1.write
      simp [awWifqExists, hq, hex.1.2, hline] at hw

/-! ### A load-reserved and its store-conditional -/

/-- The window of the instance. -/
def wholeWindow : LrscCfg := ⟨0, BitVec.allOnes 64⟩

/-- A double word in memory. -/
def exclusiveReq (user : BitVec 1) : AxReq 1 1 := ⟨0x80000008, 0, 3, true, 0, user⟩

/-- Everything is ready, and nothing is asked for. -/
def lrscIdle : LrscIn 1 1 := ⟨none, none, none, true, true, true, none, none, true, true⟩

def loadReserved : List (LrscIn 1 1) :=
  [{ lrscIdle with ar := some (exclusiveReq 0) }, { lrscIdle with mstR := some ⟨0, 0, true⟩ }]

/-- The store-conditional of the user is passed on; that of another user would be dropped. -/
theorem exclusive_access_run :
    let x := (lrsc wholeWindow 1 1 1).run (.reset, .empty) loadReserved
    let i : LrscIn 1 1 := { lrscIdle with aw := some (exclusiveReq 0) }
    ExclusiveAccess wholeWindow x.1 x.2 i ∧ x.1.accepts wholeWindow i = some (exclusiveReq 0, true) ∧
      x.1.accepts wholeWindow { lrscIdle with aw := some (exclusiveReq 1) } = some (exclusiveReq 1, false) :=
  ⟨exclusive_access ⟨by decide, by decide⟩ (Machine.Reachable.run (.init rfl) (by decide)) (by decide),
    by decide, by decide⟩

end Culsans.Coherence
