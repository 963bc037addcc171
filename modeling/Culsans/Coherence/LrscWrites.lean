import Culsans.Coherence.Lrsc

/-! # Writes through the LR/SC adapter

A write is passed on to memory or dropped, with all its beats, and answered accordingly. As there is
room for one write, it goes through the stages below one at a time.
-/

namespace Culsans.Coherence

/-! ### The observer -/

namespace AxReq
variable {w v : ℕ} (c : LrscCfg) (a : AxReq w v)

/-- A write of which the reservation is checked. -/
def exclusive : Bool := c.inside a.addr && a.lock && a.len == 0

/-- The command for its response when the write is passed on. -/
def cmd : BCmd := if a.exclusive c then .exclusive else .regular

/-- The line in the terms of the caches, which use 56 bits of an address. -/
def cacheLine : Line := (a.addr.extractLsb' 12 44, a.addr.extractLsb' 4 8)

/-- The address is one of memory, which has neither the first line nor more than 56 bits. -/
def mapped : Bool := decide (a.line ≠ 0) && a.addr.extractLsb' 56 8 == 0

/-- A write of the caches stays in its line, and is a single beat if it is exclusive. -/
def inLine : Bool :=
  a.mapped && decide (a.addr.toNat % 16 + (a.len.toNat + 1) * 2 ^ a.size.toNat ≤ 16) && (!a.lock || a.len == 0)

end AxReq

/-- What passes through the adapter. -/
structure LrscLog (w v u : ℕ) where
  /-- the read that is offered and not accepted yet -/
  arHeld : Option (AxReq w v)
  /-- this read has been looked up -/
  taken : Bool
  bHeld : Option (BChan w v)
  /-- the accepted writes, each with whether it was passed on -/
  accepted : List (AxReq w v × Bool)
  /-- the complete bursts of write data, each with whether it was passed on -/
  bursts : List Bool
  replies : List (BChan w v)
  /-- how many writes memory has taken the address and the data of -/
  memAw : ℕ
  memW : ℕ
  /-- how many it has answered -/
  arrived : ℕ
  /-- the reservations as the cores see them -/
  table : ResTable
  /-- the lines that a user has read exclusively when no write of them was in flight, and of which
  no write has been passed on since -/
  clean : BitVec u → BitVec 60 → Bool

namespace Lrsc
variable {w v u : ℕ} (c : LrscCfg) (q : Lrsc w v u) (i : LrscIn w v)

/-- The write accepted from the cores. -/
def accepts : Option (AxReq w v × Bool) :=
  if (q.awOut c i).slvAwReady then i.aw.map fun a => (a, (q.awOut c i).mstAwValid) else none

/-- The read accepted from the cores, which is the one memory takes. -/
def acceptsAr : Option (AxReq w v) := if q.slvArReady c i then i.ar else none

def reply : Option (BChan w v) := if i.slvBReady then (q.bOut i).slvB else none

/-- `mst_b_ready_o` -/
def mstBReadyO : Bool := q.mstBFork.readyO i.mstB.isSome (q.mstBReadies i)

end Lrsc

namespace LrscLog
variable {w v u : ℕ} (c : LrscCfg) (g : LrscLog w v u) (q : Lrsc w v u) (i : LrscIn w v)

def empty : LrscLog w v u := ⟨none, false, none, [], [], [], 0, 0, 0, fun _ => none, fun _ _ => false⟩

/-- The writes passed on to memory. -/
def passed : List (AxReq w v) := (g.accepted.filter (·.2)).map (·.1)

/-- The writes passed on that memory has not answered yet. -/
def inFlight : List (AxReq w v) := g.passed.drop g.arrived

/-- The write passed on now. -/
def passes : Option (AxReq w v) := (q.accepts c i).bind fun e => if e.2 then some e.1 else none

/-- The exclusive read that makes a reservation now: it is looked up for the first time, and no write
of its page is in flight. -/
def reserves : Option (AxReq w v) :=
  if q.arPushValid c i && !g.taken then
    i.ar.filter fun r => Lrsc.arPushExcl c r && g.inFlight.all fun a => !(pageOf a.line == pageOf r.line)
  else none

/-- A write that is passed on clears the reservations of its line. -/
def cleared : ResTable :=
  match passes c q i with
  | some a => g.table.clear a.cacheLine
  | none => g.table

def tableD : ResTable :=
  match g.reserves c q i with
  | some r => (g.cleared c q i).set (Lrsc.resId (u := u) r.user).toNat r.cacheLine
  | none => g.cleared c q i

def cleanD (k : BitVec u) (x : BitVec 60) : Bool :=
  (g.clean k x || (q.acceptsAr c i).any fun r =>
    Lrsc.arPushExcl c r && Lrsc.resId r.user == k && r.line == x && g.inFlight.all fun a => !(a.line == x)) &&
  !(passes c q i).any fun a => a.line == x

def watch : LrscLog w v u where
  arHeld := if q.slvArReady c i then none else i.ar
  taken := !q.slvArReady c i && (g.taken || q.arPushValid c i)
  bHeld := if q.mstBReadyO i then none else i.mstB
  accepted := g.accepted ++ (q.accepts c i).toList
  bursts := if q.wCmdPop i then g.bursts ++ [q.mstWValid i] else g.bursts
  replies := g.replies ++ (q.reply i).toList
  memAw := g.memAw + ((q.mstAw c i).isSome && i.mstAwReady).toNat
  memW := g.memW + (q.mstWValid i && i.mstWReady && i.wBeat == some true).toNat
  arrived := g.arrived + (i.mstB.isSome && g.bHeld.isNone).toNat
  table := g.tableD c q i
  clean := g.cleanD c q i

/-- The response to a write: EXOKAY if it was exclusive and passed on, unless memory had an error. -/
def Answers (e : AxReq w v × Bool) (b : BChan w v) : Prop :=
  b.id = e.1.id ∧
    if e.2 then b.resp.getLsbD 1 = true ∨ b.resp = if e.1.exclusive c then 1 else 0
    else b.resp = 0 ∧ b.user = e.1.user

end LrscLog

/-- What the adapter is connected to: requests and responses are held until they are accepted, a write
stays in its line, and memory answers a write, by its id, after it has taken its address and data. -/
structure LrscEnv {w v u : ℕ} (x : Lrsc w v u × LrscLog w v u) (i : LrscIn w v) : Prop where
  ar : x.2.arHeld = none ∨ i.ar = x.2.arHeld
  b : x.2.bHeld = none ∨ i.mstB = x.2.bHeld
  read : i.ar.all AxReq.mapped = true
  write : i.aw.all AxReq.inLine = true
  answer : i.mstB = none ∨ x.2.bHeld ≠ none ∨ x.2.arrived < x.2.memAw ∧ x.2.arrived < x.2.memW ∧
    i.mstB.map (·.id) = (x.2.passed[x.2.arrived]?).map (·.id)

instance {w v u : ℕ} {x : Lrsc w v u × LrscLog w v u} {i : LrscIn w v} : Decidable (LrscEnv x i) :=
  decidable_of_iff ((x.2.arHeld = none ∨ i.ar = x.2.arHeld) ∧ (x.2.bHeld = none ∨ i.mstB = x.2.bHeld) ∧
      i.ar.all AxReq.mapped = true ∧ i.aw.all AxReq.inLine = true ∧
      (i.mstB = none ∨ x.2.bHeld ≠ none ∨ x.2.arrived < x.2.memAw ∧ x.2.arrived < x.2.memW ∧
        i.mstB.map (·.id) = (x.2.passed[x.2.arrived]?).map (·.id)))
    ⟨fun ⟨h1, h2, h3, h4, h5⟩ => ⟨h1, h2, h3, h4, h5⟩, fun ⟨h1, h2, h3, h4, h5⟩ => ⟨h1, h2, h3, h4, h5⟩⟩

/-! ### Forks -/

namespace StreamFork
variable {b valid : Bool} {ready : Fin 2 → Bool}

/-- The output `k` is served first; the fork waits for the other one if `b` is set. -/
def waiting (b : Bool) (k : Fin 2) : StreamFork := ⟨b, fun j => b && j == k⟩

theorem validO_waiting (k : Fin 2) : (waiting b k).validO valid k = (!b && valid) := by
  simp [validO, waiting]

theorem validO_waiting_other {j k : Fin 2} (h : j ≠ k) : (waiting b k).validO valid j = valid := by
  simp [validO, waiting, h]

theorem readyO_waiting (k : Fin 2) (h : b = false → valid = true → ready k = true) :
    (waiting b k).readyO valid ready = (valid && ready (1 - k)) := by
  cases b <;> cases valid <;> simp_all [readyO, waiting, validO, oupReady] <;> fin_cases k <;> simp_all

@[simp] theorem waiting_inpWait (k : Fin 2) : (waiting b k).inpWait = b := rfl

@[simp] theorem waiting_oupWait (j k : Fin 2) : (waiting b k).oupWait j = (b && j == k) := rfl

theorem step_waiting (k : Fin 2) (h : b = false → valid = true → ready k = true) :
    (waiting b k).step valid ready = waiting (if valid then !ready (1 - k) else b) k := by
  have hr := readyO_waiting k h
  ext j
  · simp only [step, hr, waiting_inpWait]
    cases b <;> cases valid <;> simp
  · simp only [step, hr, waiting_oupWait]
    by_cases hj : j = k
    · subst hj
      cases b <;> cases valid <;> simp_all
    · obtain rfl : j = 1 - k := by omega
      cases b <;> cases valid <;> simp_all

end StreamFork

namespace IdQueue
variable {w : ℕ} {α : Type*} {q : IdQueue w α} {pop : Option (BitVec w)}

theorem step_none (h : q.inpGnt pop = true) : q.step none pop = none := by
  cases q with
  | none => simp [step]
  | some e => simpa [step, inpGnt] using h

theorem step_some (h : q.inpGnt pop = true) (p : BitVec w × α) : q.step (some p) pop = some p := by
  simp [step, h]

theorem pop_of_inpGnt {e : BitVec w × α} (hq : q = some e) (h : q.inpGnt pop = true) : pop = some e.1 := by
  subst hq
  cases pop with
  | none => simp [inpGnt, popped] at h
  | some id =>
    simp only [inpGnt, popped, output, Option.isNone_some, Bool.false_or, Option.any_some] at h
    split_ifs at h with hid
    · rw [hid]
    · cases h

end IdQueue

/-! ### What happens on AW -/

/-- The window consists of whole lines. -/
structure LrscCfg.WholeLines (c : LrscCfg) : Prop where
  first : c.addrBegin.extractLsb' 0 4 = 0
  last : c.addrEnd.extractLsb' 0 4 = 15

/-- Whether a line is in the window. -/
def LrscCfg.insideLine (c : LrscCfg) (x : BitVec 60) : Bool := c.inside (x ++ 0#4)

theorem inside_eq {c : LrscCfg} (hc : c.WholeLines) {w v : ℕ} (a : AxReq w v) :
    c.inside a.addr = c.insideLine a.line := by
  have h1 := congrArg BitVec.toNat hc.first
  have h2 := congrArg BitVec.toNat hc.last
  have hl : (a.line ++ 0#4).toNat = a.addr.toNat / 16 * 16 := by
    simp only [AxReq.line, BitVec.toNat_append, BitVec.extractLsb'_toNat, Nat.shiftLeft_eq, Nat.shiftRight_eq_div_pow]
    have ha := a.addr.isLt
    simp
    omega
  simp only [BitVec.extractLsb'_toNat] at h1 h2
  simp only [LrscCfg.inside, LrscCfg.insideLine, BitVec.le_def]
  rw [hl]
  simp at h1 h2
  congr 1 <;> apply decide_eq_decide.mpr <;> omega

namespace Lrsc
variable {w v u : ℕ} {c : LrscCfg} {q : Lrsc w v u} {i : LrscIn w v} {a : AxReq w v}

/-- The shift counts at most one line, since the burst does not leave it. -/
theorem awResLen_le (h : a.inLine = true) : (awResLen a).toNat ≤ 1 := by
  simp only [AxReq.inLine, Bool.and_eq_true, decide_eq_true_eq] at h
  obtain ⟨⟨-, h⟩, -⟩ := h
  simp only [awResLen]
  have hs : ¬ 4 < a.size.toNat := by
    intro hs
    have hp : 2 ^ 5 ≤ 2 ^ a.size.toNat := Nat.pow_le_pow_right (by decide) hs
    have hm : 2 ^ a.size.toNat ≤ (a.len.toNat + 1) * 2 ^ a.size.toNat := Nat.le_mul_of_pos_left _ (by omega)
    omega
  rw [if_neg hs, BitVec.toNat_ofNat, Nat.shiftRight_eq_div_pow]
  refine le_trans (Nat.mod_le _ _) ?_
  have hm : (a.len.toNat + 1) * 2 ^ a.size.toNat ≤ 2 ^ (4 - a.size.toNat) * 2 ^ a.size.toNat := by
    rw [← Nat.pow_add, Nat.sub_add_cancel (by omega)]
    omega
  have hle := Nat.le_of_mul_le_mul_right hm (by positivity)
  calc (a.len.toNat + 1) / 2 ^ (4 - a.size.toNat) ≤ 2 ^ (4 - a.size.toNat) / 2 ^ (4 - a.size.toNat) :=
        Nat.div_le_div_right hle
    _ = 1 := Nat.div_self (by positivity)

/-- There is room for one more write. -/
structure Starts (q : Lrsc w v u) (i : LrscIn w v) : Prop where
  cmd : q.wCmd = none
  status : q.bStatusInpGnt i = true
  flight : q.wifqInpGnt i = true

/-- A write inside the window has been compared with the reads that wait and the writes in flight. -/
structure Looked (c : LrscCfg) (q : Lrsc w v u) (i : LrscIn w v) (a : AxReq w v) : Prop where
  inside : c.inside a.addr = true
  read : arBlocks i a.line = false
  write : q.awWifqExists a = false
  gnt : q.arExistsGnt c i = false

/-- What AW does for writes that stay in their lines. -/
inductive Does (c : LrscCfg) (q : Lrsc w v u) (i : LrscIn w v) : AwOut w v u → Prop
  | keep (valid : Bool) (hv : valid = true → q.awTrans.isSome = true) :
    Does c q i { q.awKeep with mstAwValid := valid }
  | drop (a : AxReq w v) (ha : i.aw = some a) (hs : q.Starts i) (hl : q.Looked c i a)
    (he : a.exclusive c = true) (hr : q.art (resId a.user) ≠ a.line) :
    Does c q i { q.awKeep with
      slvAwReady := true
      check := some (a.line, true)
      wCmdInp := some ⟨false, a.id, a.user⟩
      bStatusInp := some (a.id, .inject) }
  | pass (a : AxReq w v) (x : WCmd w v) (chk : Option (BitVec 60 × Bool)) (ha : i.aw = some a) (hs : q.Starts i)
    (ht : q.awTrans = none) (hx : x.forward = true)
    (hl : c.inside a.addr = true → q.Looked c i a ∧ chk = some (a.line, a.lock))
    (ho : c.inside a.addr = false → chk = none)
    (he : a.exclusive c = true → q.art (resId a.user) = a.line) :
    Does c q i { q.awKeep with
      mstAwValid := true
      slvAwReady := true
      check := chk
      wCmdInp := some x
      bStatusInp := some (a.id, a.cmd c) }

theorem starts_iff (h : q.awState = .idle) : q.awStarts i = true ↔ q.Starts i := by
  simp only [awStarts, h, beq_self_eq_true, Bool.true_and, Bool.and_eq_true, Option.isNone_iff_eq_none]
  exact ⟨fun ⟨⟨h1, h2⟩, h3⟩ => ⟨h1, h2, h3⟩, fun ⟨h1, h2, h3⟩ => ⟨⟨h1, h2⟩, h3⟩⟩

theorem looked (ha : i.aw = some a) (hin : c.inside a.addr = true)
    (hg : q.awExistsGnt c i = true) (hw : q.awWifqExists a = false) : q.Looked c i a := by
  simp only [awExistsGnt, existsSel, Bool.and_eq_true, Bool.not_eq_true', Bool.or_eq_false_iff] at hg
  have hreq : q.awExistsReq c i = true := by simpa using hg.2.1
  refine ⟨hin, ?_, hw, ?_⟩
  · simp only [awExistsReq, ha, Option.any_some, hin, Bool.true_and, Bool.and_eq_true, Bool.not_eq_true'] at hreq
    exact hreq.2
  · simp [arExistsGnt, existsSel, hreq, hg.2.2]

theorem does_outside (ha : i.aw = some a) (hs : q.Starts i) (ho : c.inside a.addr = false) :
    q.Does c i (q.awOutside a) := by
  have he : a.exclusive c = false := by simp [AxReq.exclusive, ho]
  cases ht : q.awTrans with
  | none =>
    have hp := Does.pass (c := c) a ⟨true, 0, 0⟩ none ha hs ht rfl (by simp [ho]) (fun _ => rfl) (by simp [he])
    simpa [awOutside, mstAwReady, ht, AxReq.cmd, he, awKeep] using hp
  | some b =>
    have hk := Does.keep (c := c) (q := q) (i := i) true (by simp [ht])
    simpa [awOutside, mstAwReady, ht] using hk

theorem does_exclusive (ha : i.aw = some a) (hs : q.Starts i) (hl : q.Looked c i a) (ht : q.awTrans = none)
    (hk : a.lock = true) (hn : a.len = 0) (hst : q.awState = .idle) : q.Does c i (q.awExclusive a) := by
  have he : a.exclusive c = true := by simp [AxReq.exclusive, hl.inside, hk, hn]
  by_cases hr : q.art (resId a.user) = a.line
  · have hp := Does.pass a ⟨true, a.id, a.user⟩ (some (a.line, a.lock)) ha hs ht rfl (fun _ => ⟨hl, rfl⟩)
      (by simp [hl.inside]) (fun _ => hr)
    simpa [awExclusive, hr, mstAwReady, ht, AxReq.cmd, he, hk, awKeep, hst] using hp
  · simpa [awExclusive, hr] using Does.drop a ha hs hl he hr

theorem does_regular (ha : i.aw = some a) (hs : q.Starts i) (hl : q.Looked c i a) (ht : q.awTrans = none)
    (hn : a.lock = true → a.len = 0) (hk : (a.lock && a.len == 0) = false) (hi : a.inLine = true) :
    q.Does c i (q.awRegular a) := by
  have hlock : a.lock = false := by
    by_contra h
    simp_all
  have he : a.exclusive c = false := by simp [AxReq.exclusive, hlock]
  have hp := Does.pass (c := c) a ⟨true, 0, 0⟩ (some (a.line, a.lock)) ha hs ht rfl (fun _ => ⟨hl, rfl⟩)
    (by simp [hl.inside]) (by simp [he])
  simpa [awRegular, Nat.not_lt.mpr (awResLen_le hi), mstAwReady, ht, AxReq.cmd, he] using hp

theorem does (h : q.awState = .idle) (hi : i.aw.all AxReq.inLine = true) : q.Does c i (q.awOut c i) := by
  have hkeep : q.Does c i q.awKeep := .keep false (by simp)
  simp only [awOut, h]
  cases ha : i.aw with
  | none => exact hkeep
  | some a =>
    rw [ha, Option.all_some] at hi
    have hlock : a.lock = true → a.len = 0 := by
      simp only [AxReq.inLine, Bool.and_eq_true, Bool.or_eq_true, Bool.not_eq_true', beq_iff_eq] at hi
      intro hl
      simpa [hl] using hi.2
    simp only
    split_ifs with h1 h2 h3 h4
    · exact hkeep
    · exact does_outside ha ((starts_iff h).mp (by simpa using h1)) (by simpa using h2)
    · exact hkeep
    all_goals
      have hs := (starts_iff h).mp (by simpa using h1)
      obtain ⟨⟨hg, hw⟩, ht⟩ : (q.awExistsGnt c i = true ∧ q.awWifqExists a = false) ∧ q.awTrans = none := by
        simpa [mstAwReady] using h3
      have hl := looked ha (by simpa using h2) hg hw
    · obtain ⟨hk, hn⟩ : a.lock = true ∧ a.len = 0 := by simpa using h4
      exact does_exclusive ha hs hl ht hk hn h
    · exact does_regular ha hs hl ht hlock (by simpa using h4) hi

/-! ### What happens on B -/

section Responses
variable {x : BInj w v} {b : BChan w v} {held : Bool} {cmd : BCmd}

theorem bOut_quiet (hf : q.bForward = false) (hi : q.bInj = none) (hB : i.mstB = none) :
    q.bOut i = ⟨none, none, false, false, false⟩ := by
  simp [bOut, hf, hi, hB]

theorem bOut_inject (hf : q.bForward = false) (hi : q.bInj = some x) (hs : q.bStatus = some (x.id, .inject)) :
    q.bOut i = ⟨some x.id, some ⟨x.id, x.user, 0⟩, false, i.slvBReady, false⟩ := by
  simp [bOut, hf, hi, hs, IdQueue.output]

theorem bOut_forward (hf : q.bForward = false) (hi : q.bInj = none) (hB : i.mstB = some b)
    (hk : q.mstBFork = .waiting held 0) (hs : q.bStatus = some (b.id, cmd)) :
    q.bOut i = ⟨some b.id, some { b with
      resp := if b.resp.getLsbD 1 then b.resp else if cmd = .exclusive then 1 else 0 }, i.slvBReady, false, false⟩ := by
  have hv : q.mstBValid i = true := by
    rw [mstBValid, hk, StreamFork.validO_waiting_other (by decide), hB]
    rfl
  simp [bOut, hf, hi, hB, hv, forwardB, hs, IdQueue.output]

theorem wifqOupReq_eq (hk : q.mstBFork = .waiting held 0) : q.wifqOupReq i = (!held && i.mstB.isSome) := by
  rw [wifqOupReq, hk, StreamFork.validO_waiting]

theorem mstBReadies_zero (hk : q.mstBFork = .waiting held 0) (h : held = false) (hv : i.mstB.isSome = true) :
    q.mstBReadies i 0 = true := by
  rw [mstBReadies, if_pos rfl, wifqOupReq_eq hk, h, hv]
  rfl

theorem mstBReadyO_eq (hk : q.mstBFork = .waiting held 0) :
    q.mstBReadyO i = (i.mstB.isSome && (q.bOut i).mstBReady) := by
  rw [mstBReadyO, hk, StreamFork.readyO_waiting 0 (mstBReadies_zero hk)]
  rfl

theorem mstBFork_step (hk : q.mstBFork = .waiting held 0) :
    (q.step c i).mstBFork = .waiting (if i.mstB.isSome then !(q.bOut i).mstBReady else held) 0 := by
  change q.mstBFork.step i.mstB.isSome (q.mstBReadies i) = _
  rw [hk, StreamFork.step_waiting 0 (mstBReadies_zero hk)]
  rfl

end Responses

/-! ### Stages of a write -/

end Lrsc

/-- The control registers that never change, and the fork of memory's responses. -/
structure LrscBase {w v u : ℕ} (q : Lrsc w v u) (g : LrscLog w v u) : Prop where
  aw : q.awState = .idle
  b : q.bForward = false
  fork : q.mstBFork = .waiting g.bHeld.isSome 0

/-- Memory has taken and answered everything that was passed on. -/
structure LrscLog.Quiet {w v u : ℕ} (g : LrscLog w v u) : Prop where
  aw : g.memAw = g.passed.length
  w : g.memW = g.passed.length
  b : g.arrived = g.passed.length

/-- The write data of these writes is complete. -/
def LrscLog.Sent {w v u : ℕ} (g : LrscLog w v u) (done : List (AxReq w v × Bool)) : Prop :=
  g.bursts = done.map (·.2)

/-- The last write that was accepted, and how far it is. -/
inductive Stage {w v u : ℕ} (c : LrscCfg) (q : Lrsc w v u) (g : LrscLog w v u) : Prop
  | free (status : q.bStatus = none) (flight : q.writeInFlight = none) (cmd : q.wCmd = none) (inj : q.bInj = none)
    (trans : q.awTrans = none) (held : g.bHeld = none) (answers : List.Forall₂ (LrscLog.Answers c) g.accepted g.replies)
    (sent : g.Sent g.accepted) (quiet : g.Quiet)
  | dropped (done : List (AxReq w v × Bool)) (a : AxReq w v) (acc : g.accepted = done ++ [(a, false)])
    (answers : List.Forall₂ (LrscLog.Answers c) done g.replies) (status : q.bStatus = some (a.id, .inject))
    (flight : q.writeInFlight = none) (trans : q.awTrans = none) (held : g.bHeld = none) (quiet : g.Quiet)
    (data : q.wCmd = some ⟨false, a.id, a.user⟩ ∧ q.bInj = none ∧ g.Sent done ∨
      q.wCmd = none ∧ q.bInj = some ⟨a.id, a.user⟩ ∧ g.Sent g.accepted)
  | passed (done : List (AxReq w v × Bool)) (a : AxReq w v) (acc : g.accepted = done ++ [(a, true)])
    (answers : List.Forall₂ (LrscLog.Answers c) done g.replies) (status : q.bStatus = some (a.id, a.cmd c))
    (flight : q.writeInFlight = some (a.id, a.line, a.lock)) (inj : q.bInj = none) (held : g.bHeld = none)
    (count : g.arrived + 1 = g.passed.length)
    (address : q.awTrans = some a ∧ g.memAw + 1 = g.passed.length ∨ q.awTrans = none ∧ g.memAw = g.passed.length)
    (data : (∃ x, q.wCmd = some x ∧ x.forward = true) ∧ g.Sent done ∧ g.memW + 1 = g.passed.length ∨
      q.wCmd = none ∧ g.Sent g.accepted ∧ g.memW = g.passed.length)
  | answered (done : List (AxReq w v × Bool)) (a : AxReq w v) (b : BChan w v) (acc : g.accepted = done ++ [(a, true)])
    (answers : List.Forall₂ (LrscLog.Answers c) done g.replies) (status : q.bStatus = some (a.id, a.cmd c))
    (flight : q.writeInFlight = none) (cmd : q.wCmd = none) (inj : q.bInj = none) (trans : q.awTrans = none)
    (held : g.bHeld = some b) (id : b.id = a.id) (sent : g.Sent g.accepted) (quiet : g.Quiet)

/-- The last write is finished in this cycle, so that another one can be accepted. -/
structure Done {w v u : ℕ} (c : LrscCfg) (q : Lrsc w v u) (g : LrscLog w v u) (i : LrscIn w v) : Prop where
  inj : q.bInj = none ∨ (q.bOut i).bInjPop = true
  b : (q.bOut i).bForward = false
  trans : q.awTrans = none
  held : (if q.mstBReadyO i then none else i.mstB) = none
  answers : List.Forall₂ (LrscLog.Answers c) g.accepted (g.replies ++ (q.reply i).toList)
  sent : g.Sent g.accepted
  memAw : g.memAw = g.passed.length
  memW : g.memW = g.passed.length
  arrived : g.arrived + (i.mstB.isSome && g.bHeld.isNone).toNat = g.passed.length

namespace LrscLog
variable {w v u : ℕ} {c : LrscCfg} {g : LrscLog w v u} {a : AxReq w v} {done : List (AxReq w v × Bool)} {b : BChan w v}

theorem passed_of_passed (h : g.accepted = done ++ [(a, true)]) (hn : g.arrived + 1 = g.passed.length) :
    g.passed[g.arrived]? = some a ∧ g.inFlight = [a] := by
  have hp : g.passed = (done.filter (·.2)).map (·.1) ++ [a] := by simp [passed, h]
  have hl : g.arrived = ((done.filter (·.2)).map (·.1)).length := by
    rw [hp] at hn
    simpa using hn
  rw [inFlight, hp, hl]
  simp

theorem answers_forward (h : b.id = a.id) : Answers c (a, true)
    { b with resp := if b.resp.getLsbD 1 then b.resp else if a.cmd c = .exclusive then 1 else 0 } := by
  refine ⟨h, ?_⟩
  cases hb : b.resp.getLsbD 1 <;> cases he : a.exclusive c <;> simp [hb, he, AxReq.cmd]

end LrscLog

namespace Stage
variable {w v u : ℕ} {c : LrscCfg} {q : Lrsc w v u} {g : LrscLog w v u} {i : LrscIn w v} {a : AxReq w v} {b : BChan w v}

/-- Memory does not answer what it has answered already. -/
theorem mstB_none (he : LrscEnv (q, g) i) (hh : g.bHeld = none) (hb : g.arrived = g.passed.length)
    (hw : g.memW = g.passed.length) :
    i.mstB = none := by
  rcases he.answer with h | h | ⟨-, h, -⟩
  · exact h
  · exact absurd hh h
  · simp only at h
    omega

/-- Memory answers the write in flight when it has all of it. -/
theorem mstB_some (he : LrscEnv (q, g) i) (hh : g.bHeld = none) {done : List (AxReq w v × Bool)}
    (acc : g.accepted = done ++ [(a, true)]) (count : g.arrived + 1 = g.passed.length) (hB : i.mstB = some b) :
    b.id = a.id ∧ g.arrived < g.memAw ∧ g.arrived < g.memW := by
  rcases he.answer with h | h | ⟨haw, hw, hid⟩
  · rw [h] at hB
    cases hB
  · exact absurd hh h
  · simp only [hB, (LrscLog.passed_of_passed acc count).1, Option.map_some, Option.some.injEq] at hid
    exact ⟨hid, haw, hw⟩

/-- Memory holds its response until it is taken. -/
theorem mstB_held (he : LrscEnv (q, g) i) (held : g.bHeld = some b) : i.mstB = some b := by
  rcases he.b with h | h
  · simp [held] at h
  · exact h.trans held

/-- A status entry is popped by the response that goes out. -/
theorem ready_of_gnt {e : BitVec w × BCmd} (hq : q.bStatus = some e) (h : q.bStatusInpGnt i = true) :
    i.slvBReady = true := by
  have hp := IdQueue.pop_of_inpGnt hq h
  rw [Lrsc.bStatusPop] at hp
  split_ifs at hp with hr
  exact (Bool.and_eq_true_iff.mp hr).2

theorem done (h : Stage c q g) (hb : LrscBase q g) (he : LrscEnv (q, g) i) (hs : q.Starts i) : Done c q g i := by
  cases h with
  | free status flight cmd inj trans held answers sent quiet =>
    have hB := mstB_none he held quiet.b quiet.w
    have ho := Lrsc.bOut_quiet hb.b inj hB
    exact ⟨.inl inj, by rw [ho], trans, by simp [hB], by simpa [Lrsc.reply, ho] using answers, sent, quiet.aw,
      quiet.w, by simp [hB, quiet.b]⟩
  | dropped done a acc answers status flight trans held quiet data =>
    obtain ⟨hw, -⟩ | ⟨-, hi, sent⟩ := data
    · rw [hs.cmd] at hw
      cases hw
    · have hB := mstB_none he held quiet.b quiet.w
      have ho := Lrsc.bOut_inject hb.b hi status (i := i)
      have hr := ready_of_gnt status hs.status
      refine ⟨.inr (by rw [ho]; exact hr),
        by rw [ho], trans, by simp [hB], ?_, sent, quiet.aw, quiet.w, by simp [hB, quiet.b]⟩
      rw [acc, Lrsc.reply, if_pos hr, ho]
      exact List.rel_append answers (.cons ⟨rfl, rfl, rfl⟩ .nil)
  | passed done a acc answers status flight inj held count address data =>
    have hp := IdQueue.pop_of_inpGnt flight hs.flight
    cases hB : i.mstB with
    | none => simp [Lrsc.wifqPop, hB] at hp
    | some b =>
      obtain ⟨hid, haw, hw⟩ := mstB_some he held acc count hB
      have hr := ready_of_gnt status hs.status
      have ho := Lrsc.bOut_forward hb.b inj hB hb.fork (by rw [hid]; exact status)
      have hready : q.mstBReadyO i = true := by
        rw [Lrsc.mstBReadyO_eq hb.fork, ho, hB]
        exact hr
      obtain ⟨-, h⟩ | ⟨trans, haw⟩ := address
      · omega
      obtain ⟨-, -, h⟩ | ⟨-, sent, hw⟩ := data
      · omega
      refine ⟨.inl inj, by rw [ho], trans, by simp [hready], ?_, sent, haw, hw, by simp [hB, held, count]⟩
      rw [acc, Lrsc.reply, if_pos hr, ho]
      exact List.rel_append answers (.cons (LrscLog.answers_forward hid) .nil)
  | answered done a b acc answers status flight cmd inj trans held id sent quiet =>
    have hB := mstB_held he held
    have hr := ready_of_gnt status hs.status
    have ho := Lrsc.bOut_forward hb.b inj hB hb.fork (by rw [id]; exact status)
    have hready : q.mstBReadyO i = true := by
      rw [Lrsc.mstBReadyO_eq hb.fork, ho, hB]
      exact hr
    refine ⟨.inl inj, by rw [ho], trans, by simp [hready], ?_, sent, quiet.aw, quiet.w, by simp [held, quiet.b]⟩
    rw [acc, Lrsc.reply, if_pos hr, ho]
    exact List.rel_append answers (.cons (LrscLog.answers_forward id) .nil)

end Stage

/-! ### One cycle -/

namespace LrscLog
variable {w v u : ℕ} {c : LrscCfg} {q : Lrsc w v u} {g : LrscLog w v u} {i : LrscIn w v}

theorem accepted_watch : (g.watch c q i).accepted = g.accepted ++ (q.accepts c i).toList := rfl

theorem bHeld_watch : (g.watch c q i).bHeld = if q.mstBReadyO i then none else i.mstB := rfl

theorem bursts_watch :
    (g.watch c q i).bursts = if q.wCmdPop i then g.bursts ++ [q.mstWValid i] else g.bursts := rfl

theorem replies_watch : (g.watch c q i).replies = g.replies ++ (q.reply i).toList := rfl

theorem memAw_watch :
    (g.watch c q i).memAw = g.memAw + ((q.mstAw c i).isSome && i.mstAwReady).toNat := rfl

theorem memW_watch :
    (g.watch c q i).memW = g.memW + (q.mstWValid i && i.mstWReady && i.wBeat == some true).toNat := rfl

theorem arrived_watch :
    (g.watch c q i).arrived = g.arrived + (i.mstB.isSome && g.bHeld.isNone).toNat := rfl

theorem passed_watch : (g.watch c q i).passed = g.passed ++ (passes c q i).toList := by
  simp only [passed, watch, passes]
  cases q.accepts c i with
  | none => simp
  | some e => cases he : e.2 <;> simp [he]

theorem accepted_of_none (h : q.accepts c i = none) : (g.watch c q i).accepted = g.accepted := by
  rw [accepted_watch, h, Option.toList_none, List.append_nil]

theorem passed_of_none (h : q.accepts c i = none) : (g.watch c q i).passed = g.passed := by
  rw [passed_watch, passes, h, Option.bind_none, Option.toList_none, List.append_nil]

end LrscLog

namespace Lrsc
variable {w v u : ℕ} {c : LrscCfg} {q : Lrsc w v u} {g : LrscLog w v u} {i : LrscIn w v}

theorem wNow_none (h : q.wCmd = none) : q.wNow i = none := by
  simp [wNow, h]

theorem slvWReady_none (h : q.wCmd = none) : q.wCmdPop i = false := by
  simp [wCmdPop, slvWReady, wNow_none h]

theorem bStatus_step :
    (q.step c i).bStatus = q.bStatus.step (q.awOut c i).bStatusInp (q.bStatusPop i) := rfl

theorem flight_step : (q.step c i).writeInFlight =
    q.writeInFlight.step ((q.awPass c i).map fun a => (a.id, a.line, a.lock)) (q.wifqPop i) := rfl

theorem awTrans_step : (q.step c i).awTrans = if i.mstAwReady then none else q.mstAw c i := rfl

theorem wCmd_eq : (q.step c i).wCmd =
    if q.wCmdPop i then none else if q.wCmd.isNone then (q.awOut c i).wCmdInp else q.wCmd := rfl

theorem bInj_eq : (q.step c i).bInj =
    if (q.bOut i).bInjPop then none else if q.bInj.isNone then q.bInjPush i else q.bInj := rfl

theorem bInj_step (hi : q.bInj = none ∨ (q.bOut i).bInjPop = true) (h : q.wCmd = none) : (q.step c i).bInj = none := by
  rw [bInj_eq]
  split_ifs with hp hn
  · rfl
  · simp [bInjPush, slvWReady_none h]
  · rcases hi with hi | hi
    · exact hi
    · exact absurd hi hp

theorem wCmd_step (h : q.wCmd = none) : (q.step c i).wCmd = (q.awOut c i).wCmdInp := by
  simp [wCmd_eq, slvWReady_none h, h]

theorem bursts_of_none (h : q.wCmd = none) : (g.watch c q i).bursts = g.bursts := by
  simp [LrscLog.bursts_watch, slvWReady_none h]

theorem memW_of_none (h : q.wCmd = none) : (g.watch c q i).memW = g.memW := by
  simp [LrscLog.memW_watch, mstWValid, wNow_none h]

end Lrsc

namespace Done
variable {w v u : ℕ} {c : LrscCfg} {q : Lrsc w v u} {g : LrscLog w v u} {i : LrscIn w v}

theorem step_keep (d : Done c q g i) (hs : q.Starts i)
    (ho : q.awOut c i = { q.awKeep with mstAwValid := false }) : Stage c (q.step c i) (g.watch c q i) := by
  have ha : q.accepts c i = none := by simp [Lrsc.accepts, ho, Lrsc.awKeep]
  have hm : q.mstAw c i = none := by simp [Lrsc.mstAw, d.trans, ho]
  have hpass : q.awPass c i = none := by simp [Lrsc.awPass, ho]
  have hacc := LrscLog.accepted_of_none (g := g) ha
  have hp := LrscLog.passed_of_none (g := g) ha
  refine .free ?_ ?_ ?_ (Lrsc.bInj_step d.inj hs.cmd) ?_ d.held ?_ ?_ ⟨?_, ?_, ?_⟩
  · rw [Lrsc.bStatus_step, ho]
    exact IdQueue.step_none hs.status
  · rw [Lrsc.flight_step, hpass]
    exact IdQueue.step_none hs.flight
  · rw [Lrsc.wCmd_step hs.cmd, ho]
    rfl
  · rw [Lrsc.awTrans_step, hm, ite_self]
  · rw [hacc]
    exact d.answers
  · rw [LrscLog.Sent, Lrsc.bursts_of_none hs.cmd, hacc]
    exact d.sent
  · rw [LrscLog.memAw_watch, hm, hp]
    exact d.memAw
  · rw [Lrsc.memW_of_none hs.cmd, hp]
    exact d.memW
  · rw [LrscLog.arrived_watch, hp]
    exact d.arrived

/-- A write that is dropped waits for its data. -/
theorem step_drop (d : Done c q g i) (hs : q.Starts i) {a : AxReq w v} (ha : i.aw = some a)
    (ho : q.awOut c i = { q.awKeep with
      slvAwReady := true
      check := some (a.line, true)
      wCmdInp := some ⟨false, a.id, a.user⟩
      bStatusInp := some (a.id, .inject) }) : Stage c (q.step c i) (g.watch c q i) := by
  have hb : q.accepts c i = some (a, false) := by simp [Lrsc.accepts, ho, ha, Lrsc.awKeep]
  have hm : q.mstAw c i = none := by simp [Lrsc.mstAw, d.trans, ho, Lrsc.awKeep]
  have hpass : q.awPass c i = none := by simp [Lrsc.awPass, ho, Lrsc.awKeep]
  have hacc : (g.watch c q i).accepted = g.accepted ++ [(a, false)] := by
    rw [LrscLog.accepted_watch, hb, Option.toList_some]
  have hp : (g.watch c q i).passed = g.passed := by simp [LrscLog.passed_watch, LrscLog.passes, hb]
  refine .dropped g.accepted a hacc d.answers ?_ ?_ ?_ d.held ⟨?_, ?_, ?_⟩
    (.inl ⟨?_, Lrsc.bInj_step d.inj hs.cmd, ?_⟩)
  · rw [Lrsc.bStatus_step, ho]
    exact IdQueue.step_some hs.status _
  · rw [Lrsc.flight_step, hpass]
    exact IdQueue.step_none hs.flight
  · rw [Lrsc.awTrans_step, hm, ite_self]
  · rw [LrscLog.memAw_watch, hm, hp]
    exact d.memAw
  · rw [Lrsc.memW_of_none hs.cmd, hp]
    exact d.memW
  · rw [LrscLog.arrived_watch, hp]
    exact d.arrived
  · rw [Lrsc.wCmd_step hs.cmd, ho]
  · rw [LrscLog.Sent, Lrsc.bursts_of_none hs.cmd]
    exact d.sent

/-- A write that is passed on is in flight. -/
theorem step_pass (d : Done c q g i) (hs : q.Starts i) {a : AxReq w v} {x : WCmd w v}
    {chk : Option (BitVec 60 × Bool)} (ha : i.aw = some a) (hx : x.forward = true)
    (ho : q.awOut c i = { q.awKeep with
      mstAwValid := true
      slvAwReady := true
      check := chk
      wCmdInp := some x
      bStatusInp := some (a.id, a.cmd c) }) : Stage c (q.step c i) (g.watch c q i) := by
  have hready : q.mstAwReady = true := by simp [Lrsc.mstAwReady, d.trans]
  have hb : q.accepts c i = some (a, true) := by simp [Lrsc.accepts, ho, ha]
  have hm : q.mstAw c i = some a := by simp [Lrsc.mstAw, d.trans, ho, ha]
  have hpass : q.awPass c i = some a := by simp [Lrsc.awPass, ho, hready, ha]
  have hacc : (g.watch c q i).accepted = g.accepted ++ [(a, true)] := by
    rw [LrscLog.accepted_watch, hb, Option.toList_some]
  have hn : (g.watch c q i).passed.length = g.passed.length + 1 := by
    simp [LrscLog.passed_watch, LrscLog.passes, hb]
  refine .passed g.accepted a hacc d.answers ?_ ?_ (Lrsc.bInj_step d.inj hs.cmd) d.held ?_ ?_
    (.inl ⟨⟨x, ?_, hx⟩, ?_, ?_⟩)
  · rw [Lrsc.bStatus_step, ho]
    exact IdQueue.step_some hs.status _
  · rw [Lrsc.flight_step, hpass]
    exact IdQueue.step_some hs.flight _
  · rw [LrscLog.arrived_watch, d.arrived, hn]
  · rw [Lrsc.awTrans_step, LrscLog.memAw_watch, hm, hn, d.memAw]
    cases i.mstAwReady <;> simp
  · rw [Lrsc.wCmd_step hs.cmd, ho]
  · rw [LrscLog.Sent, Lrsc.bursts_of_none hs.cmd]
    exact d.sent
  · rw [Lrsc.memW_of_none hs.cmd, d.memW, hn]

theorem step (d : Done c q g i) (hs : q.Starts i) (hd : q.Does c i (q.awOut c i)) :
    Stage c (q.step c i) (g.watch c q i) := by
  generalize ho : q.awOut c i = o at hd
  cases hd with
  | keep valid hv =>
    obtain rfl : valid = false := by simpa [d.trans] using hv
    exact d.step_keep hs ho
  | drop a ha => exact d.step_drop hs ha ho
  | pass a x chk ha _ _ hx => exact d.step_pass hs ha hx ho

end Done

/-- No write is accepted in this cycle. -/
structure Kept {w v u : ℕ} (c : LrscCfg) (q : Lrsc w v u) (g : LrscLog w v u) (i : LrscIn w v) : Prop where
  accepted : (g.watch c q i).accepted = g.accepted
  passed : (g.watch c q i).passed = g.passed
  status : (q.step c i).bStatus = q.bStatus.step none (q.bStatusPop i)
  flight : (q.step c i).writeInFlight = q.writeInFlight.step none (q.wifqPop i)
  cmd : (q.step c i).wCmd = if q.wCmdPop i then none else q.wCmd
  trans : (q.step c i).awTrans = if i.mstAwReady then none else q.awTrans
  memAw : (g.watch c q i).memAw = g.memAw + (q.awTrans.isSome && i.mstAwReady).toNat

namespace Stage
variable {w v u : ℕ} {c : LrscCfg} {q : Lrsc w v u} {g : LrscLog w v u} {i : LrscIn w v} {a : AxReq w v}
  {b : BChan w v} {done : List (AxReq w v × Bool)}

theorem kept (hs : ¬ q.Starts i) (hd : q.Does c i (q.awOut c i)) : Kept c q g i := by
  generalize ho : q.awOut c i = o at hd
  cases hd with
  | keep valid hv =>
    have ha : q.accepts c i = none := by simp [Lrsc.accepts, ho, Lrsc.awKeep]
    have hpass : q.awPass c i = none := by
      cases valid with
      | false => simp [Lrsc.awPass, ho]
      | true =>
        obtain ⟨a, ha⟩ := Option.isSome_iff_exists.mp (hv rfl)
        simp [Lrsc.awPass, Lrsc.mstAwReady, ha]
    have hm : q.mstAw c i = q.awTrans := by
      cases ht : q.awTrans with
      | none =>
        obtain rfl : valid = false := by simpa [ht] using hv
        simp [Lrsc.mstAw, ht, ho]
      | some a => simp [Lrsc.mstAw, ht]
    refine ⟨LrscLog.accepted_of_none ha, LrscLog.passed_of_none ha, ?_, ?_, ?_, ?_, ?_⟩
    · rw [Lrsc.bStatus_step, ho]
      rfl
    · rw [Lrsc.flight_step, hpass]
      rfl
    · rw [Lrsc.wCmd_eq, ho]
      cases q.wCmd <;> rfl
    · rw [Lrsc.awTrans_step, hm]
    · rw [LrscLog.memAw_watch, hm]
  | drop a ha hs' => exact absurd hs' hs
  | pass a x chk ha hs' => exact absurd hs' hs

/-- A response that does not go out keeps the status entry. -/
theorem not_ready (hr : i.slvBReady = false) : q.bStatusPop i = none ∧ q.reply i = none := by
  simp [Lrsc.bStatusPop, Lrsc.reply, hr]

theorem gnt_of_ready {e : BitVec w × BCmd} (hq : q.bStatus = some e) (hr : i.slvBReady = true)
    (hb : (q.bOut i).slvB.isSome = true) (hreq : (q.bOut i).statusOupReq = some e.1) : q.bStatusInpGnt i = true := by
  simp [Lrsc.bStatusInpGnt, Lrsc.bStatusPop, hb, hr, hreq, IdQueue.inpGnt, IdQueue.popped, IdQueue.output, hq]

theorem keep_none {α : Type*} {s : IdQueue w α} : s.step none none = s := by
  simp [IdQueue.step, IdQueue.popped]

/-- The beats of a write that is passed on go to memory, and its last one ends the burst there. -/
theorem w_forward {x : WCmd w v} (hw : q.wCmd = some x) (hx : x.forward = true) (hi : q.bInj = none) :
    (q.mstWValid i && i.mstWReady && i.wBeat == some true) = q.wCmdPop i ∧ q.bInjPush i = none ∧
      (q.wCmdPop i = true → q.mstWValid i = true) := by
  cases hb : i.wBeat <;>
    simp [Lrsc.mstWValid, Lrsc.wCmdPop, Lrsc.slvWReady, Lrsc.bInjPush, Lrsc.wNow, hw, hx, hi, hb]

/-- The beats of a write that is dropped are taken at once. -/
theorem w_drop {x : WCmd w v} (hw : q.wCmd = some x) (hx : x.forward = false) (hi : q.bInj = none) :
    q.mstWValid i = false ∧ q.wCmdPop i = (i.wBeat == some true) ∧
      q.bInjPush i = if i.wBeat = some true then some ⟨x.id, x.user⟩ else none := by
  cases hb : i.wBeat with
  | none => simp [Lrsc.mstWValid, Lrsc.wCmdPop, Lrsc.slvWReady, Lrsc.bInjPush, Lrsc.wNow, hb]
  | some l => cases l <;> simp [Lrsc.mstWValid, Lrsc.wCmdPop, Lrsc.slvWReady, Lrsc.bInjPush, Lrsc.wNow, hw, hx, hi, hb]

/-- Without a write in flight, nothing goes to memory. -/
theorem stay_quiet (he : LrscEnv (q, g) i) (k : Kept c q g i) (hq : g.Quiet) (hh : g.bHeld = none)
    (ht : q.awTrans = none) (hv : q.mstWValid i = false) : (g.watch c q i).Quiet := by
  have hB := mstB_none he hh hq.b hq.w
  refine ⟨?_, ?_, ?_⟩
  · rw [k.memAw, k.passed, ht]
    exact hq.aw
  · rw [LrscLog.memW_watch, hv, k.passed]
    exact hq.w
  · rw [LrscLog.arrived_watch, hB, k.passed]
    exact hq.b

theorem stay_no_flight (k : Kept c q g i) (hB : i.mstB = none) (hf : q.writeInFlight = none) :
    (q.step c i).writeInFlight = none := by
  have hwp : q.wifqPop i = none := by simp [Lrsc.wifqPop, hB]
  rw [k.flight, hwp, hf]
  rfl

theorem stay_no_trans (k : Kept c q g i) (ht : q.awTrans = none) : (q.step c i).awTrans = none := by
  rw [k.trans, ht, ite_self]

/-- As long as no response can go out, neither the responses nor the status entries change. -/
theorem stay_silent (k : Kept c q g i) (ho : q.bOut i = ⟨none, none, false, false, false⟩)
    (answers : List.Forall₂ (LrscLog.Answers c) done g.replies) :
    List.Forall₂ (LrscLog.Answers c) done (g.watch c q i).replies ∧ (q.step c i).bStatus = q.bStatus := by
  constructor
  · rw [LrscLog.replies_watch, Lrsc.reply, ho, ite_self]
    simpa using answers
  · rw [k.status, Lrsc.bStatusPop, ho, if_neg (by simp), keep_none]

/-- The same holds if the core does not take the response. -/
theorem stay_refused (k : Kept c q g i) (hr : i.slvBReady = false)
    (answers : List.Forall₂ (LrscLog.Answers c) done g.replies) :
    List.Forall₂ (LrscLog.Answers c) done (g.watch c q i).replies ∧ (q.step c i).bStatus = q.bStatus := by
  constructor
  · rw [LrscLog.replies_watch, (not_ready hr).2]
    simpa using answers
  · rw [k.status, (not_ready hr).1, keep_none]

theorem stay_no_cmd (k : Kept c q g i) (cmd : q.wCmd = none) : (q.step c i).wCmd = none := by
  rw [k.cmd, cmd, ite_self]

theorem stay_sent (k : Kept c q g i) (cmd : q.wCmd = none) (sent : g.Sent g.accepted) :
    (g.watch c q i).Sent (g.watch c q i).accepted := by
  rw [LrscLog.Sent, Lrsc.bursts_of_none cmd, k.accepted]
  exact sent

/-- The core does not take the response to the last write, for then another write could be accepted. -/
theorem slvBReady_false {e : BitVec w × BCmd} (hs : ¬ q.Starts i) (cmd : q.wCmd = none)
    (status : q.bStatus = some e) (hb : (q.bOut i).slvB.isSome = true)
    (hreq : (q.bOut i).statusOupReq = some e.1) (flight : q.wifqInpGnt i = true) : i.slvBReady = false := by
  by_contra hr
  exact hs ⟨cmd, gnt_of_ready status (by simpa using hr) hb hreq, flight⟩

/-- The data of a write that is dropped is taken, and then its response is due. -/
theorem stay_drop_data (hb : LrscBase q g) (he : LrscEnv (q, g) i) (k : Kept c q g i)
    (acc : g.accepted = done ++ [(a, false)]) (answers : List.Forall₂ (LrscLog.Answers c) done g.replies)
    (status : q.bStatus = some (a.id, .inject)) (flight : q.writeInFlight = none) (trans : q.awTrans = none)
    (held : g.bHeld = none) (quiet : g.Quiet) (cmd : q.wCmd = some ⟨false, a.id, a.user⟩)
    (inj : q.bInj = none) (sent : g.Sent done) : Stage c (q.step c i) (g.watch c q i) := by
  have hB := mstB_none he held quiet.b quiet.w
  have ho := Lrsc.bOut_quiet hb.b inj hB
  obtain ⟨hv, hp, hpush⟩ := w_drop (i := i) cmd rfl inj
  obtain ⟨hans, hst⟩ := stay_silent k ho answers
  have hh : (g.watch c q i).bHeld = none := by rw [LrscLog.bHeld_watch, hB, ite_self]
  refine .dropped done a (k.accepted.trans acc) hans (hst.trans status) (stay_no_flight k hB flight)
    (stay_no_trans k trans) hh (stay_quiet he k quiet held trans hv) ?_
  rw [k.cmd, Lrsc.bInj_eq, ho, LrscLog.Sent, LrscLog.Sent, LrscLog.bursts_watch, hp, hpush, hv, k.accepted, acc,
    cmd, inj]
  have hdone : g.bursts = done.map (·.2) := sent
  by_cases hl : i.wBeat = some true <;> simp [hl, hdone]

/-- The response of the adapter waits for the core. -/
theorem stay_drop_response (hb : LrscBase q g) (he : LrscEnv (q, g) i) (hs : ¬ q.Starts i) (k : Kept c q g i)
    (acc : g.accepted = done ++ [(a, false)]) (answers : List.Forall₂ (LrscLog.Answers c) done g.replies)
    (status : q.bStatus = some (a.id, .inject)) (flight : q.writeInFlight = none) (trans : q.awTrans = none)
    (held : g.bHeld = none) (quiet : g.Quiet) (cmd : q.wCmd = none) (inj : q.bInj = some ⟨a.id, a.user⟩)
    (sent : g.Sent g.accepted) : Stage c (q.step c i) (g.watch c q i) := by
  have hB := mstB_none he held quiet.b quiet.w
  have ho := Lrsc.bOut_inject hb.b inj status (i := i)
  have hr := slvBReady_false hs cmd status (by rw [ho]; rfl) (by rw [ho])
    (by simp [Lrsc.wifqInpGnt, IdQueue.inpGnt, flight])
  have hv : q.mstWValid i = false := by simp [Lrsc.mstWValid, Lrsc.wNow_none cmd]
  obtain ⟨hans, hst⟩ := stay_refused k hr answers
  have hh : (g.watch c q i).bHeld = none := by rw [LrscLog.bHeld_watch, hB, ite_self]
  refine .dropped done a (k.accepted.trans acc) hans (hst.trans status) (stay_no_flight k hB flight)
    (stay_no_trans k trans) hh (stay_quiet he k quiet held trans hv)
    (.inr ⟨stay_no_cmd k cmd, ?_, stay_sent k cmd sent⟩)
  rw [Lrsc.bInj_eq, ho, hr, inj]
  rfl

/-- Memory has not answered: the address and the data of the write in flight are on their way. -/
theorem stay_pass (hb : LrscBase q g) (k : Kept c q g i) (acc : g.accepted = done ++ [(a, true)])
    (answers : List.Forall₂ (LrscLog.Answers c) done g.replies) (status : q.bStatus = some (a.id, a.cmd c))
    (flight : q.writeInFlight = some (a.id, a.line, a.lock)) (inj : q.bInj = none)
    (count : g.arrived + 1 = g.passed.length)
    (address : q.awTrans = some a ∧ g.memAw + 1 = g.passed.length ∨ q.awTrans = none ∧ g.memAw = g.passed.length)
    (data : (∃ x, q.wCmd = some x ∧ x.forward = true) ∧ g.Sent done ∧ g.memW + 1 = g.passed.length ∨
      q.wCmd = none ∧ g.Sent g.accepted ∧ g.memW = g.passed.length) (hB : i.mstB = none) :
    Stage c (q.step c i) (g.watch c q i) := by
  have ho := Lrsc.bOut_quiet hb.b inj hB
  have hwp : q.wifqPop i = none := by simp [Lrsc.wifqPop, hB]
  obtain ⟨hans, hst⟩ := stay_silent k ho answers
  refine .passed done a (k.accepted.trans acc) hans (hst.trans status) ?_ ?_ ?_ ?_ ?_ ?_
  · rw [k.flight, hwp, keep_none, flight]
  · rw [Lrsc.bInj_eq, ho, inj]
    obtain ⟨⟨x, hx, hfw⟩, -⟩ | ⟨hx, -⟩ := data
    · exact (w_forward hx hfw inj).2.1
    · simp [Lrsc.bInjPush, Lrsc.slvWReady_none hx]
  · rw [LrscLog.bHeld_watch, hB, ite_self]
  · rw [LrscLog.arrived_watch, hB, k.passed]
    exact count
  · rw [k.trans, k.memAw, k.passed]
    obtain ⟨ht, hn⟩ | ⟨ht, hn⟩ := address <;> rw [ht]
    · cases i.mstAwReady <;> simp [hn]
    · simp [hn]
  · obtain ⟨⟨x, hx, hfw⟩, sent, hn⟩ | ⟨hx, sent, hn⟩ := data
    · obtain ⟨hlast, -, hv⟩ := w_forward (i := i) hx hfw inj
      have hdone : g.bursts = done.map (·.2) := sent
      rw [k.cmd, LrscLog.Sent, LrscLog.Sent, LrscLog.bursts_watch, LrscLog.memW_watch, k.accepted, k.passed, hlast]
      cases hp : q.wCmdPop i with
      | false => exact .inl ⟨⟨x, hx, hfw⟩, by simpa using hdone, by simpa using hn⟩
      | true => exact .inr ⟨rfl, by simp [hv hp, hdone, acc], by simpa using hn⟩
    · exact .inr ⟨stay_no_cmd k hx, stay_sent k hx sent, by rw [Lrsc.memW_of_none hx, k.passed, hn]⟩

/-- The response of memory, which comes with its entry of the queue, waits for the core. -/
theorem stay_answer (hb : LrscBase q g) (hs : ¬ q.Starts i) (k : Kept c q g i)
    (acc : g.accepted = done ++ [(a, true)]) (answers : List.Forall₂ (LrscLog.Answers c) done g.replies)
    (status : q.bStatus = some (a.id, a.cmd c)) (flight : q.writeInFlight = some (a.id, a.line, a.lock))
    (inj : q.bInj = none) (held : g.bHeld = none) (count : g.arrived + 1 = g.passed.length)
    (trans : q.awTrans = none) (hma : g.memAw = g.passed.length) (cmd : q.wCmd = none)
    (sent : g.Sent g.accepted) (hmw : g.memW = g.passed.length) (hB : i.mstB = some b) (hid : b.id = a.id) :
    Stage c (q.step c i) (g.watch c q i) := by
  have ho := Lrsc.bOut_forward hb.b inj hB hb.fork (by rw [hid]; exact status)
  have hwp : q.wifqPop i = some b.id := by
    rw [Lrsc.wifqPop, Lrsc.wifqOupReq_eq hb.fork, held, hB]
    rfl
  have hgnt : q.wifqInpGnt i = true := by
    simp [Lrsc.wifqInpGnt, hwp, IdQueue.inpGnt, IdQueue.popped, IdQueue.output, flight, hid]
  have hr := slvBReady_false hs cmd status (by rw [ho]; rfl) (by rw [ho, hid]) hgnt
  obtain ⟨hans, hst⟩ := stay_refused k hr answers
  refine .answered done a b (k.accepted.trans acc) hans (hst.trans status) ?_ (stay_no_cmd k cmd) ?_
    (stay_no_trans k trans) ?_ hid (stay_sent k cmd sent) ⟨?_, ?_, ?_⟩
  · rw [k.flight]
    exact IdQueue.step_none hgnt
  · rw [Lrsc.bInj_eq, ho, inj]
    simp [Lrsc.bInjPush, Lrsc.slvWReady_none cmd]
  · rw [LrscLog.bHeld_watch, Lrsc.mstBReadyO_eq hb.fork, ho, hr, hB]
    rfl
  · rw [k.memAw, k.passed, trans]
    exact hma
  · rw [Lrsc.memW_of_none cmd, k.passed, hmw]
  · rw [LrscLog.arrived_watch, held, k.passed, hB]
    exact count

/-- It is held until the core takes it. -/
theorem stay_answered (hb : LrscBase q g) (he : LrscEnv (q, g) i) (hs : ¬ q.Starts i) (k : Kept c q g i)
    (acc : g.accepted = done ++ [(a, true)]) (answers : List.Forall₂ (LrscLog.Answers c) done g.replies)
    (status : q.bStatus = some (a.id, a.cmd c)) (flight : q.writeInFlight = none) (cmd : q.wCmd = none)
    (inj : q.bInj = none) (trans : q.awTrans = none) (held : g.bHeld = some b) (id : b.id = a.id)
    (sent : g.Sent g.accepted) (quiet : g.Quiet) : Stage c (q.step c i) (g.watch c q i) := by
  have hB := mstB_held he held
  have ho := Lrsc.bOut_forward hb.b inj hB hb.fork (by rw [id]; exact status)
  have hwp : q.wifqPop i = none := by
    rw [Lrsc.wifqPop, Lrsc.wifqOupReq_eq hb.fork, held]
    rfl
  have hr := slvBReady_false hs cmd status (by rw [ho]; rfl) (by rw [ho, id])
    (by simp [Lrsc.wifqInpGnt, IdQueue.inpGnt, flight])
  obtain ⟨hans, hst⟩ := stay_refused k hr answers
  refine .answered done a b (k.accepted.trans acc) hans (hst.trans status) ?_ (stay_no_cmd k cmd) ?_
    (stay_no_trans k trans) ?_ id (stay_sent k cmd sent) ⟨?_, ?_, ?_⟩
  · rw [k.flight, hwp, flight]
    rfl
  · rw [Lrsc.bInj_eq, ho, inj]
    simp [Lrsc.bInjPush, Lrsc.slvWReady_none cmd]
  · rw [LrscLog.bHeld_watch, Lrsc.mstBReadyO_eq hb.fork, ho, hr, hB]
    rfl
  · rw [k.memAw, k.passed, trans]
    exact quiet.aw
  · rw [Lrsc.memW_of_none cmd, k.passed]
    exact quiet.w
  · rw [LrscLog.arrived_watch, held, k.passed]
    simpa using quiet.b

theorem stay (h : Stage c q g) (hb : LrscBase q g) (he : LrscEnv (q, g) i) (hs : ¬ q.Starts i) (k : Kept c q g i) :
    Stage c (q.step c i) (g.watch c q i) := by
  cases h with
  | free status flight cmd =>
    exact absurd ⟨cmd, by simp [Lrsc.bStatusInpGnt, IdQueue.inpGnt, status],
      by simp [Lrsc.wifqInpGnt, IdQueue.inpGnt, flight]⟩ hs
  | dropped done a acc answers status flight trans held quiet data =>
    obtain ⟨cmd, inj, sent⟩ | ⟨cmd, inj, sent⟩ := data
    · exact stay_drop_data hb he k acc answers status flight trans held quiet cmd inj sent
    · exact stay_drop_response hb he hs k acc answers status flight trans held quiet cmd inj sent
  | passed done a acc answers status flight inj held count address data =>
    cases hB : i.mstB with
    | none => exact stay_pass hb k acc answers status flight inj count address data hB
    | some b =>
      obtain ⟨hid, haw, hw⟩ := mstB_some he held acc count hB
      obtain ⟨-, h⟩ | ⟨trans, hma⟩ := address
      · omega
      obtain ⟨-, -, h⟩ | ⟨cmd, sent, hmw⟩ := data
      · omega
      exact stay_answer hb hs k acc answers status flight inj held count trans hma cmd sent hmw hB hid
  | answered done a b acc answers status flight cmd inj trans held id sent quiet =>
    exact stay_answered hb he hs k acc answers status flight cmd inj trans held id sent quiet

/-- No response of memory is taken for a write that is not in flight. -/
theorem bForward_step (h : Stage c q g) (hb : LrscBase q g) (he : LrscEnv (q, g) i) : (q.bOut i).bForward = false := by
  cases h with
  | free status flight cmd inj trans held answers sent quiet =>
    rw [Lrsc.bOut_quiet hb.b inj (mstB_none he held quiet.b quiet.w)]
  | dropped done a acc answers status flight trans held quiet data =>
    obtain ⟨-, inj, -⟩ | ⟨-, inj, -⟩ := data
    · rw [Lrsc.bOut_quiet hb.b inj (mstB_none he held quiet.b quiet.w)]
    · rw [Lrsc.bOut_inject hb.b inj status]
  | passed done a acc answers status flight inj held count address data =>
    cases hB : i.mstB with
    | none => rw [Lrsc.bOut_quiet hb.b inj hB]
    | some b =>
      obtain ⟨hid, -⟩ := mstB_some he held acc count hB
      rw [Lrsc.bOut_forward hb.b inj hB hb.fork (by rw [hid]; exact status)]
  | answered done a b acc answers status flight cmd inj trans held id sent quiet =>
    have hB := mstB_held he held
    rw [Lrsc.bOut_forward hb.b inj hB hb.fork (by rw [id]; exact status)]

theorem step (h : Stage c q g) (hb : LrscBase q g) (he : LrscEnv (q, g) i) : Stage c (q.step c i) (g.watch c q i) := by
  have hd := Lrsc.does (c := c) hb.aw he.write
  by_cases hs : q.Starts i
  · exact (h.done hb he hs).step hs hd
  · exact h.stay hb he hs (kept hs hd)

theorem base_step (h : Stage c q g) (hb : LrscBase q g) (he : LrscEnv (q, g) i) : LrscBase (q.step c i)
    (g.watch c q i) := by
  refine ⟨?_, h.bForward_step hb he, ?_⟩
  · change (q.awOut c i).awState = .idle
    have hd := Lrsc.does (c := c) hb.aw he.write
    generalize q.awOut c i = o at hd
    cases hd <;> exact hb.aw
  · rw [Lrsc.mstBFork_step hb.fork]
    change StreamFork.waiting _ 0 = .waiting (if q.mstBReadyO i then none else i.mstB).isSome 0
    rw [Lrsc.mstBReadyO_eq hb.fork]
    cases hB : i.mstB with
    | none =>
      have hh : g.bHeld = none := by
        rcases he.b with h | h
        · exact h
        · exact h.symm.trans hB
      simp [hh]
    | some b => cases (q.bOut i).mstBReady <;> simp

/-- What is in the queue is what memory has not answered. -/
theorem flight_eq (h : Stage c q g) :
    q.writeInFlight = none ∧ g.inFlight = [] ∨ ∃ a, q.writeInFlight = some (a.id, a.line, a.lock) ∧
      g.inFlight = [a] := by
  cases h with
  | free status flight cmd inj trans held answers sent quiet =>
    exact .inl ⟨flight, List.drop_eq_nil_of_le quiet.b.ge⟩
  | dropped done a acc answers status flight trans held quiet data =>
    exact .inl ⟨flight, List.drop_eq_nil_of_le quiet.b.ge⟩
  | passed done a acc answers status flight inj held count address data =>
    exact .inr ⟨a, flight, (LrscLog.passed_of_passed acc count).2⟩
  | answered done a b acc answers status flight cmd inj trans held id sent quiet =>
    exact .inl ⟨flight, List.drop_eq_nil_of_le quiet.b.ge⟩

/-- The responses are those of the first writes, in order. -/
theorem replies_eq (h : Stage c q g) :
    List.Forall₂ (LrscLog.Answers c) (g.accepted.take g.replies.length) g.replies := by
  cases h with
  | free status flight cmd inj trans held answers sent quiet =>
    rw [← answers.length_eq, List.take_length]
    exact answers
  | dropped done a acc answers status flight trans held quiet data =>
    rw [acc, ← answers.length_eq, List.take_left]
    exact answers
  | passed done a acc answers status flight inj held count address data =>
    rw [acc, ← answers.length_eq, List.take_left]
    exact answers
  | answered done a b acc answers status flight cmd inj trans held id sent quiet =>
    rw [acc, ← answers.length_eq, List.take_left]
    exact answers

/-- The bursts of write data go where the writes went. -/
theorem bursts_prefix (h : Stage c q g) : g.bursts <+: g.accepted.map (·.2) := by
  have hall : g.Sent g.accepted → g.bursts <+: g.accepted.map (·.2) := fun h => by rw [h]
  have hbut (done : List (AxReq w v × Bool)) (e : AxReq w v × Bool) (acc : g.accepted = done ++ [e]) (h : g.Sent done) :
      g.bursts <+: g.accepted.map (·.2) := by
    rw [h, acc, List.map_append]
    exact List.prefix_append _ _
  cases h with
  | free status flight cmd inj trans held answers sent quiet => exact hall sent
  | dropped done a acc answers status flight trans held quiet data =>
    obtain ⟨-, -, sent⟩ | ⟨-, -, sent⟩ := data
    · exact hbut _ _ acc sent
    · exact hall sent
  | passed done a acc answers status flight inj held count address data =>
    obtain ⟨-, sent, -⟩ | ⟨-, sent, -⟩ := data
    · exact hbut _ _ acc sent
    · exact hall sent
  | answered done a b acc answers status flight cmd inj trans held id sent quiet => exact hall sent

end Stage

end Culsans.Coherence
