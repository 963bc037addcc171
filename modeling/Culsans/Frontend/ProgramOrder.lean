import Culsans.Frontend.DeliveredPath

/-! # The program is executed in order

The back end takes the entries of the queue one after the other, and no instruction goes on before the branch
unit has decided the one before it. Whatever has been predicted, the instructions it executes are those of the
program: each stands where the one before it goes.
-/

namespace Culsans.Frontend
open Library Culsans.Core

variable {depth n : ℕ}

/-- An instruction that has been executed, and the operands it had. -/
structure Executed where
  entry : FetchEntry
  operandA : BitVec 64
  operandB : BitVec 64

namespace Executed
variable (e : Executed)

/-- The operation of a control flow instruction. -/
def fuData (op : BranchOp) (imm : BitVec 64) : FuData := ⟨op, e.operandA, e.operandB, imm⟩

/-- What the branch unit makes of an instruction; one with an exception never gets there. -/
def resolve : BpResolve :=
  let idle : BpResolve := ⟨false, 0, 0, false, false, .noCF⟩
  if e.entry.ex.valid then idle
  else
    match flow e.entry.instruction with
    | .ctrl op imm =>
      BranchUnit.resolvedBranch (e.fuData op imm) e.entry.address
        (compressedDecoder e.entry.instruction).isCompressed true
        (Alu.aluBranchRes (e.fuData op imm)) ⟨e.entry.cf, e.entry.predictAddress⟩
    | .plain | .trap => idle

variable (mem : BitVec 64 → BitVec 16)

/-- An instruction after which the commit stage sends the front end elsewhere. -/
def traps : Prop := e.entry.ex.valid = true ∨ flow (instrAt mem e.entry.address) = .trap

/-- The address after an instruction. -/
def next : BitVec 64 :=
  successor (flow (instrAt mem e.entry.address)) e.entry.address (instrLen (instrAt mem e.entry.address)) e.operandA
    e.operandB

end Executed

/-- The program: what is executed is what memory holds where the instruction before goes. -/
def program (mem : BitVec 64 → BitVec 16) : Walk (BitVec 64) Executed where
  ok v e := e.entry.address = v ∧ (e.entry.ex.valid = false → InMemory mem v e.entry.instruction)
  next e := e.next mem
  stray e := e.traps mem

/-! ### The branch unit -/

theorem isCompressed_check (w : BitVec 32) (b : Bool) (v : BitVec 32) :
    (CompressedDecoder.check w b v).isCompressed = true := by
  cases b <;> rfl

theorem isCompressed_compressedDecoder (w : BitVec 32) :
    (compressedDecoder w).isCompressed = (w.extractLsb' 0 2 != 0b11) := by
  have h0 : (CompressedDecoder.c0 w).isCompressed = true := by
    unfold CompressedDecoder.c0
    split <;> first | exact isCompressed_check _ _ _ | rfl
  have hm : (CompressedDecoder.miscAlu w).isCompressed = true := by
    unfold CompressedDecoder.miscAlu
    split
    · rfl
    · split <;> rfl
    · rfl
  have h1 : (CompressedDecoder.c1 w).isCompressed = true := by
    unfold CompressedDecoder.c1
    split <;> first | exact isCompressed_check _ _ _ | exact hm | rfl
  have hj : (CompressedDecoder.jalrMvAdd w).isCompressed = true := by
    unfold CompressedDecoder.jalrMvAdd
    split_ifs <;> first | exact isCompressed_check _ _ _ | rfl
  have h2 : (CompressedDecoder.c2 w).isCompressed = true := by
    unfold CompressedDecoder.c2
    split <;> first | exact isCompressed_check _ _ _ | exact hj | rfl
  have hq : ∀ v : BitVec 2, v = 0#2 ∨ v = 1#2 ∨ v = 2#2 ∨ v = 3#2 := by decide
  rw [compressedDecoder]
  rcases hq (w.extractLsb' 0 2) with hv | hv | hv | hv <;> rw [hv]
  · exact h0
  · exact h1
  · exact h2
  · rfl

theorem nextPc_eq (v : BitVec 64) (w : BitVec 32) : BranchUnit.nextPc v (compressedDecoder w).isCompressed = v +
    instrLen w := by
  rw [BranchUnit.nextPc, isCompressed_compressedDecoder, instrLen]

theorem targetAddress_eq (e : Executed) (op : BranchOp) (imm : BitVec 64) :
    BranchUnit.targetAddress (e.fuData op imm) e.entry.address = target op e.entry.address e.operandA imm := by
  rw [BranchUnit.targetAddress, target]
  by_cases h : op = .jalr <;> simp [Executed.fuData, h]

/-- The branch unit goes on where the instruction goes. -/
theorem resolvedBranch_successor (e : Executed) {op : BranchOp} {imm : BitVec 64} {w : BitVec 32} {bp : BranchPredict} :
    (BranchUnit.resolvedBranch (e.fuData op imm) e.entry.address (compressedDecoder w).isCompressed true
      (Alu.aluBranchRes (e.fuData op imm)) bp).targetAddress =
      successor (.ctrl op imm) e.entry.address (instrLen w) e.operandA e.operandB := by
  simp only [BranchUnit.resolvedBranch, if_true, aluBranchRes_eq, targetAddress_eq, nextPc_eq, successor]
  rfl

theorem even_successor {w : BitVec 32} {op : BranchOp} {imm v a b : BitVec 64} (hf : flow w = .ctrl op imm)
    (hv : v.getLsbD 0 = false) :
    (successor (.ctrl op imm) v (instrLen w) a b).getLsbD 0 = false := by
  rw [successor, target]
  split_ifs with ht hj
  · simp
  · exact even_add hv (even_flow hf hj)
  · apply even_add hv
    rw [instrLen]
    split_ifs <;> rfl

namespace Executed
variable {e : Executed} {mem : BitVec 64 → BitVec 16} {v : BitVec 64}

theorem resolve_ctrl {op : BranchOp} {imm : BitVec 64} (hx : e.entry.ex.valid = false)
    (hf : flow e.entry.instruction = .ctrl op imm) :
    e.resolve = BranchUnit.resolvedBranch (e.fuData op imm) e.entry.address
      (compressedDecoder e.entry.instruction).isCompressed true
      (Alu.aluBranchRes (e.fuData op imm)) ⟨e.entry.cf, e.entry.predictAddress⟩ := by
  rw [resolve, hx, hf]
  rfl

/-- Only a control flow instruction is mispredicted. -/
theorem exists_ctrl (hm : e.resolve.isMispredict = true) :
    e.entry.ex.valid = false ∧ ∃ op imm, flow e.entry.instruction = .ctrl op imm := by
  rw [resolve] at hm
  split_ifs at hm with hx
  refine ⟨Bool.eq_false_iff.mpr hx, ?_⟩
  cases hf : flow e.entry.instruction with
  | plain =>
    rw [hf] at hm
    exact absurd hm Bool.false_ne_true
  | trap =>
    rw [hf] at hm
    exact absurd hm Bool.false_ne_true
  | ctrl op imm => exact ⟨op, imm, rfl⟩

theorem resolve_valid (hm : e.resolve.isMispredict = true) : e.resolve.valid = true := by
  obtain ⟨hx, op, imm, hf⟩ := exists_ctrl hm
  rw [resolve_ctrl hx hf]
  rfl

theorem resolve_even (hv : e.entry.address.getLsbD 0 = false) (hm : e.resolve.isMispredict = true) :
    e.resolve.targetAddress.getLsbD 0 = false := by
  obtain ⟨hx, op, imm, hf⟩ := exists_ctrl hm
  rw [resolve_ctrl hx hf, resolvedBranch_successor]
  exact even_successor hf hv

theorem resolve_mispredict {op : BranchOp} {imm : BitVec 64} (hx : e.entry.ex.valid = false)
    (hf : flow e.entry.instruction = .ctrl op imm) : e.resolve.isMispredict =
      (opIsBranch op && takes op e.operandA e.operandB != (e.entry.cf == .branch) ||
        op == .jalr && (e.entry.cf == .noCF || target op e.entry.address e.operandA imm != e.entry.predictAddress))
          := by
  rw [resolve_ctrl hx hf]
  change (true && BranchUnit.mispredict _ _ _ _) = _
  rw [Bool.true_and, BranchUnit.mispredict, aluBranchRes_eq, targetAddress_eq]
  rfl

/-- A misprediction is corrected. -/
theorem resolve_target (hw : InMemory mem e.entry.address e.entry.instruction) (hm : e.resolve.isMispredict = true) :
    e.resolve.targetAddress = e.next mem := by
  obtain ⟨hx, op, imm, hf⟩ := exists_ctrl hm
  rw [resolve_ctrl hx hf, resolvedBranch_successor, next, ← hw.flow.1, ← hw.flow.2, hf]

/-- Without a misprediction the front end has gone where the instruction goes. -/
theorem resolve_right (hx : e.entry.ex.valid = false) (hw : InMemory mem e.entry.address e.entry.instruction)
    (hfit : Fits e.entry.cf e.entry.address e.entry.predictAddress (flow e.entry.instruction))
    (ht : flow e.entry.instruction ≠ .trap) (hm : e.resolve.isMispredict = false) : e.entry.next = e.next mem := by
  rw [next, ← hw.flow.1, ← hw.flow.2, FetchEntry.next]
  cases hf : flow e.entry.instruction with
  | trap => exact absurd hf ht
  | plain =>
    rw [hf] at hfit
    exact if_pos hfit
  | ctrl op imm =>
    rw [resolve_mispredict hx hf, Bool.or_eq_false_iff] at hm
    rw [hf, Fits] at hfit
    rw [successor]
    split_ifs at hfit with hop hadd
    · -- the direction of a branch is the predicted one
      rw [hop, Bool.true_and, bne_eq_false_iff_eq] at hm
      have hj : op ≠ .jalr := by
        rintro rfl
        exact Bool.false_ne_true hop
      rcases hfit with hc | ⟨hc, hp⟩
      · rw [hm.1, hc]
        rfl
      · rw [hm.1, hc, if_neg (by decide), if_pos (beq_self_eq_true _), hp, target, if_neg hj]
    · subst hadd
      rw [hfit.1, if_neg (by decide), hfit.2]
      rfl
    · -- the target of a JALR is the predicted one
      have hj : op = .jalr := by cases op <;> simp_all [opIsBranch]
      subst hj
      have hm := hm.2
      rw [beq_self_eq_true, Bool.true_and, Bool.or_eq_false_iff, beq_eq_false_iff_ne, bne_eq_false_iff_eq] at hm
      rw [if_neg hm.1, ← hm.2]
      rfl

/-- A return that is predicted without an address is a misprediction if it does not go to zero. -/
theorem resolve_stray (hx : e.entry.ex.valid = false) (hw : InMemory mem e.entry.address e.entry.instruction)
    (hfit : Fits e.entry.cf e.entry.address e.entry.predictAddress (flow e.entry.instruction))
    (ht : flow e.entry.instruction ≠ .trap) (hm : e.resolve.isMispredict = false)
    (hz : e.entry.cf = .ret → e.entry.predictAddress = 0 → e.next mem ≠ 0) : ¬ e.entry.stray := by
  rintro (hv | ⟨hc, hp⟩)
  · exact Bool.false_ne_true (hx.symm.trans hv)
  · have hn := resolve_right hx hw hfit ht hm
    rw [FetchEntry.next, hc, if_neg (by decide), hp] at hn
    exact hz hc hp hn.symm

end Executed

/-! ### The front end with the back end -/

/-- The inputs of a cycle, and the operands of an instruction that is executed in it. -/
structure CoreIn where
  front : FrontendIn
  operands : Option (BitVec 64 × BitVec 64)

/-- How many entries have been executed since the last flush, and the program since the commit stage has last
sent the front end somewhere. -/
structure ProgramLog where
  executed : ℕ
  origin : BitVec 64
  path : List Executed

namespace ProgramLog
variable (l : ProgramLog) (x : FrontEnd depth n × FrontLog) (j : CoreIn)

/-- The next entry that the queue has put out is executed. -/
def executes : Option Executed := do
  let (a, b) ← j.operands
  let e ← x.2.queue.issued[l.executed]?
  return ⟨e, a, b⟩

def watch (c : FrontendCfg) : ProgramLog :=
  let path := l.path ++ (l.executes x j).toList
  if (FrontEnd.restart c j.front).isSome then ⟨0, x.1.npcD j.front c, []⟩
  else if j.front.flush then ⟨0, l.origin, path⟩
  else ⟨l.executed + (l.executes x j).toList.length, l.origin, path⟩

end ProgramLog

/-- The front end, and the back end that executes what comes out of it. -/
def frontBack (depth n : ℕ) (c : FrontendCfg) : Machine ((FrontEnd depth n × FrontLog) × ProgramLog) CoreIn :=
  Machine.observe ⟨(frontEnd depth n c).init, fun x j => (frontEnd depth n c).next x j.front⟩ ⟨0, c.bootAddr, []⟩
    fun l x j => l.watch x j c

/-- The branch unit decides what is executed and nothing else. A return that has been predicted without an
address does not go to zero. -/
structure Resolves (c : FrontendCfg) (mem : BitVec 64 → BitVec 16) (y : (FrontEnd depth n × FrontLog) × ProgramLog)
    (j : CoreIn) :
    Prop where
  surroundings : Surroundings c mem y.1 j.front
  resolved : ∀ e ∈ y.2.executes y.1 j, j.front.resolvedBranch = e.resolve
  idle : y.2.executes y.1 j = none → j.front.resolvedBranch.valid = false
  returns : ∀ e ∈ y.2.executes y.1 j, e.entry.cf = .ret → e.entry.predictAddress = 0 → e.next mem ≠ 0

/-- What has been executed is the program, and the entries that have not been executed go on with it. -/
structure InProgram (c : FrontendCfg) (mem : BitVec 64 → BitVec 16)
    (y : (FrontEnd depth n × FrontLog) × ProgramLog) : Prop where
  delivers : Delivers c mem y.1
  executed : y.2.executed ≤ y.1.2.queue.issued.length
  follows : (program mem).Follows y.2.origin y.2.path
  ahead : (program mem).Straight y.2.path → (entryWalk mem).Straight (y.1.2.queue.issued.take y.2.executed) ∧
    (entryWalk mem).arrive y.1.2.start (y.1.2.queue.issued.take y.2.executed) = (program mem).arrive y.2.origin y.2.path

variable {c : FrontendCfg} {mem : BitVec 64 → BitVec 16} {y : (FrontEnd depth n × FrontLog) × ProgramLog} {j : CoreIn}

theorem executes_some {e : Executed} (he : e ∈ y.2.executes y.1 j) :
    y.1.2.queue.issued[y.2.executed]? = some e.entry := by
  rw [ProgramLog.executes] at he
  simp only [Option.bind_eq_bind, Option.mem_def, Option.bind_eq_some_iff, Option.pure_def, Option.some.injEq] at he
  obtain ⟨⟨a, b⟩, -, f, hf, rfl⟩ := he
  exact hf

/-- The entries of the way before the one that is executed, and this one. -/
theorem InProgram.entry {e : Executed} (h : InProgram c mem y) (he : e ∈ y.2.executes y.1 j) :
    y.1.2.queue.issued.take (y.2.executed + 1) = y.1.2.queue.issued.take y.2.executed ++ [e.entry] ∧
      y.2.executed < y.1.2.queue.issued.length ∧
      ((program mem).Straight y.2.path → (entryWalk mem).ok ((program mem).arrive y.2.origin y.2.path) e.entry) := by
  have hget := executes_some he
  obtain ⟨hlt, hget'⟩ := List.getElem?_eq_some_iff.mp hget
  have htake : y.1.2.queue.issued.take (y.2.executed + 1) = y.1.2.queue.issued.take y.2.executed ++ [e.entry] := by
    rw [List.take_add_one, hget]
    rfl
  refine ⟨htake, hlt, fun hs => ?_⟩
  obtain ⟨hstraight, harrive⟩ := h.ahead hs
  have hall := h.delivers.entries
  rw [← List.take_append_drop y.2.executed y.1.2.queue.issued, List.drop_eq_getElem_cons hlt, hget'] at hall
  rw [← harrive]
  exact hall.ok_concat hstraight

/-- One more instruction of the program. -/
theorem InProgram.follows_concat {e : Executed} (h : InProgram c mem y) (he : e ∈ y.2.executes y.1 j) :
    (program mem).Follows y.2.origin (y.2.path ++ [e]) := by
  apply Walk.follows_concat h.follows
  intro hs
  obtain ⟨ha, hm, -⟩ := (h.entry he).2.2 hs
  exact ⟨ha, hm⟩

/-- The instruction does not trap. -/
theorem not_traps {e : Executed} {v : BitVec 64} (ht : ¬ e.traps mem) (hok : (entryWalk mem).ok v e.entry) :
    e.entry.ex.valid = false ∧ InMemory mem e.entry.address e.entry.instruction ∧
      Fits e.entry.cf e.entry.address e.entry.predictAddress (flow e.entry.instruction) ∧
        flow e.entry.instruction ≠ .trap := by
  obtain ⟨ha, hm, hf⟩ := hok
  rw [Executed.traps, not_or] at ht
  have hx : e.entry.ex.valid = false := Bool.eq_false_iff.mpr ht.1
  rw [← ha] at hm hf
  refine ⟨hx, hm hx, hf, ?_⟩
  rw [(hm hx).flow.1]
  exact ht.2

/-- Only what is executed can be mispredicted. -/
theorem Resolves.mispredicted (hi : Resolves c mem y j) (hm : FrontEnd.isMispredict j.front = true) :
    ∃ e ∈ y.2.executes y.1 j, j.front.resolvedBranch = e.resolve ∧ e.resolve.isMispredict = true := by
  rw [FrontEnd.isMispredict, Bool.and_eq_true] at hm
  cases he : y.2.executes y.1 j with
  | none => exact absurd ((hi.idle he).symm.trans hm.1) Bool.false_ne_true
  | some e =>
    have hr := hi.resolved e he
    exact ⟨e, rfl, hr, by rw [← hr]; exact hm.2⟩

theorem frontBack_next : (frontBack depth n c).next y j = ((frontEnd depth n c).next y.1 j.front,
    y.2.watch y.1 j c) := rfl

namespace InProgram

theorem delivers_next (h : InProgram c mem y) (hi : Resolves c mem y j) :
    Delivers c mem ((frontEnd depth n c).next y.1 j.front) := by
  apply h.delivers.step hi.surroundings
  intro hm
  obtain ⟨e, he, hr, hme⟩ := hi.mispredicted hm
  rw [hr]
  exact Executed.resolve_even (h.delivers.even_entries _ (List.mem_of_getElem? (executes_some he))) hme

/-- The commit stage begins anew. -/
theorem step_restart (h : InProgram c mem y) (hi : Resolves c mem y j)
    (hr : (FrontEnd.restart c j.front).isSome = true) :
    InProgram c mem ((frontBack depth n c).next y j) := by
  have hf : j.front.flush = true := by
    rw [hi.surroundings.flush, FrontEnd.redirect, Option.isSome_or, hr, Bool.true_or]
  have hlog : y.2.watch y.1 j c = ⟨0, y.1.1.npcD j.front c, []⟩ := if_pos hr
  have hstart : ((frontEnd depth n c).next y.1 j.front).2.start = y.1.1.npcD j.front c := if_pos hf
  rw [frontBack_next, hlog]
  exact ⟨h.delivers_next hi, Nat.zero_le _, trivial, fun _ => ⟨Walk.straight_nil, hstart⟩⟩

/-- The branch unit sends the front end to the next instruction. -/
theorem step_mispredict (h : InProgram c mem y) (hi : Resolves c mem y j) (hf : j.front.flush = true)
    (hr : FrontEnd.restart c j.front = none) : InProgram c mem ((frontBack depth n c).next y j) := by
  have hm := hi.surroundings.flushed hf hr
  obtain ⟨e, he, hres, hme⟩ := hi.mispredicted hm
  have hlog : y.2.watch y.1 j c = ⟨0, y.2.origin, y.2.path ++ [e]⟩ := by
    rw [ProgramLog.watch, hr, hf, Option.mem_def.mp he]
    rfl
  have hstart : ((frontEnd depth n c).next y.1 j.front).2.start = e.resolve.targetAddress := by
    rw [← hres, ← npcD_mispredict (x := y.1) hr hm]
    exact if_pos hf
  rw [frontBack_next, hlog]
  refine ⟨h.delivers_next hi, Nat.zero_le _, h.follows_concat he, fun hs => ⟨Walk.straight_nil, ?_⟩⟩
  obtain ⟨hs, ht⟩ := Walk.straight_append.mp hs
  obtain ⟨-, hw, -, -⟩ := not_traps (ht e (List.mem_singleton_self e)) ((h.entry he).2.2 hs)
  rw [Walk.arrive_append]
  exact hstart.trans (Executed.resolve_target hw hme)

/-- The next instruction is the one that has been predicted. -/
theorem step_run (h : InProgram c mem y) (hi : Resolves c mem y j) (hf : j.front.flush = false) :
    InProgram c mem ((frontBack depth n c).next y j) := by
  obtain ⟨hm, hr⟩ := hi.surroundings.quiet hf
  have hlog : y.2.watch y.1 j c = ⟨y.2.executed + (y.2.executes y.1 j).toList.length, y.2.origin,
      y.2.path ++ (y.2.executes y.1 j).toList⟩ := by
    rw [ProgramLog.watch, hr, hf]
    rfl
  have hstart : ((frontEnd depth n c).next y.1 j.front).2.start = y.1.2.start := if_neg (Bool.eq_false_iff.mp hf)
  obtain ⟨new, hissued⟩ : ∃ new, ((frontEnd depth n c).next y.1 j.front).2.queue.issued = y.1.2.queue.issued ++
    new := by
    rw [frontEnd_next, FrontLog.watch, QueueLog.watch]
    exact ⟨_, congrArg QueueLog.issued (if_neg (Bool.eq_false_iff.mp hf))⟩
  have htake (k : ℕ) (hk : k ≤ y.1.2.queue.issued.length) :
      (y.1.2.queue.issued ++ new).take k = y.1.2.queue.issued.take k := List.take_append_of_le_length hk
  rw [frontBack_next, hlog]
  cases he : y.2.executes y.1 j with
  | none =>
    rw [Option.toList_none, List.length_nil, add_zero, List.append_nil]
    constructor
    case delivers => exact h.delivers_next hi
    case executed =>
      rw [hissued, List.length_append]
      exact h.executed.trans (Nat.le_add_right _ _)
    case follows => exact h.follows
    case ahead =>
      rw [hissued, hstart, htake _ h.executed]
      exact h.ahead
  | some e =>
    obtain ⟨hentry, hlt, hok⟩ := h.entry he
    rw [Option.toList_some, List.length_singleton]
    constructor
    case delivers => exact h.delivers_next hi
    case executed =>
      rw [hissued, List.length_append]
      exact hlt.trans_le (Nat.le_add_right _ _)
    case follows => exact h.follows_concat he
    case ahead =>
      intro hs
      obtain ⟨hs, ht⟩ := Walk.straight_append.mp hs
      obtain ⟨hx, hw, hfit, hnt⟩ := not_traps (ht e (List.mem_singleton_self e)) (hok hs)
      have hme : e.resolve.isMispredict = false := by
        have hres := hi.resolved e he
        by_contra hme
        have hvalid := Executed.resolve_valid (Bool.eq_true_of_not_eq_false hme)
        rw [FrontEnd.isMispredict, hres, hvalid] at hm
        exact hme hm
      obtain ⟨hstraight, harrive⟩ := h.ahead hs
      rw [hissued, hstart, htake _ hlt, hentry, Walk.straight_append, Walk.arrive_append, Walk.arrive_append, harrive]
      refine ⟨⟨hstraight, fun f hmem => ?_⟩, Executed.resolve_right hx hw hfit hnt hme⟩
      rw [List.mem_singleton.mp hmem]
      exact Executed.resolve_stray hx hw hfit hnt hme (hi.returns e he)

theorem step (h : InProgram c mem y) (hi : Resolves c mem y j) : InProgram c mem ((frontBack depth n c).next y j) := by
  cases hf : j.front.flush with
  | false => exact h.step_run hi hf
  | true =>
    cases hr : FrontEnd.restart c j.front with
    | some v => exact h.step_restart hi (by rw [hr]; rfl)
    | none => exact h.step_mispredict hi hf hr

theorem init (hd : 0 < depth) (hc : c.bootAddr.getLsbD 0 = false) (hy : (frontBack depth n c).init y) :
    InProgram c mem y := by
  obtain ⟨⟨q, l⟩, p⟩ := y
  obtain ⟨⟨hq, hl⟩, hp⟩ := hy
  obtain rfl : q = FrontEnd.reset := hq
  obtain rfl : l = ⟨none, c.bootAddr, .empty⟩ := hl
  obtain rfl : p = ⟨0, c.bootAddr, []⟩ := hp
  exact ⟨.init hd hc, Nat.zero_le _, trivial, fun _ => ⟨Walk.straight_nil, rfl⟩⟩

theorem of_reachable (hd : 0 < depth) (hc : c.bootAddr.getLsbD 0 = false)
    (hr : (frontBack depth n c).Reachable (Resolves c mem) y) : InProgram c mem y :=
  hr.invariant (fun _ hy => init hd hc hy) fun _ _ h hi => h.step hi

end InProgram

/-- Over every run, whatever the tables predict, the replays and the timing of the cache, the instructions that
the back end executes since the commit stage has last sent the front end somewhere are those of the program. -/
theorem program_order (hd : 0 < depth) (c : FrontendCfg) (hc : c.bootAddr.getLsbD 0 = false)
    (mem : BitVec 64 → BitVec 16) (y : (FrontEnd depth n × FrontLog) × ProgramLog)
    (hr : (frontBack depth n c).Reachable (Resolves c mem) y) :
    (program mem).Follows y.2.origin y.2.path :=
  (InProgram.of_reachable hd hc hr).follows

/-! ### A run with a misprediction -/

instance : Decidable (Resolves c mem y j) :=
  decidable_of_iff (Surroundings c mem y.1 j.front ∧ (∀ e ∈ y.2.executes y.1 j, j.front.resolvedBranch = e.resolve) ∧
      (y.2.executes y.1 j = none → j.front.resolvedBranch.valid = false) ∧
      ∀ e ∈ y.2.executes y.1 j, e.entry.cf = .ret → e.entry.predictAddress = 0 → e.next mem ≠ 0)
    ⟨fun ⟨a, b, d, e⟩ => ⟨a, b, d, e⟩, fun ⟨a, b, d, e⟩ => ⟨a, b, d, e⟩⟩

/-- A cycle, and the operands of the instruction that is executed in it. -/
def coreCycle (mem : BitVec 64 → BitVec 16) (answer : Option (BitVec 64)) (ready entry : Bool)
    (operands : Option (BitVec 64 × BitVec 64)) (resolved : BpResolve) : CoreIn :=
  ⟨fetchCycle mem answer ready entry resolved, operands⟩

/-- The branch is taken against its prediction, and the jump is executed after it. -/
def loopRun : List CoreIn :=
  let idle : BpResolve := ⟨false, 0, 0, false, false, .noCF⟩
  let cycle := coreCycle loopMemory
  [cycle none true false none idle, cycle (some 0x100) true false none idle, cycle none false false none idle,
    cycle none false true none idle, cycle none false false (some (7, 7)) ⟨true, 0x100, 0x108, true, true, .branch⟩,
    cycle none true false none idle, cycle (some 0x108) true false none idle, cycle none true false none idle,
    cycle none false true none idle, cycle none false false (some (0, 0)) ⟨true, 0x108, 0x100, false, true, .jump⟩]

def loopStart : (FrontEnd 4 1 × FrontLog) × ProgramLog := ((.reset, ⟨none, 0x100, .empty⟩), ⟨0, 0x100, []⟩)

theorem program_order_loop :
    ((frontBack 4 1 loopCfg).run loopStart loopRun).2.path.map (·.entry.address) = [0x100, 0x108] ∧
      (program loopMemory).Follows 0x100 ((frontBack 4 1 loopCfg).run loopStart loopRun).2.path := by
  have h0 : (frontBack 4 1 loopCfg).init loopStart := ⟨⟨rfl, rfl⟩, rfl⟩
  have hr : (frontBack 4 1 loopCfg).Reachable (Resolves loopCfg loopMemory)
    ((frontBack 4 1 loopCfg).run loopStart loopRun) :=
    .run (.init h0) (by decide +kernel)
  have hp := program_order (by decide) loopCfg (by decide) loopMemory _ hr
  have ho : ((frontBack 4 1 loopCfg).run loopStart loopRun).2.origin = 0x100 := by decide +kernel
  rw [ho] at hp
  exact ⟨by decide +kernel, hp⟩

/-! ### A return that is not followed -/

instance (v : BitVec 64) (e : Executed) : Decidable ((program mem).ok v e) :=
  inferInstanceAs (Decidable (e.entry.address = v ∧ (e.entry.ex.valid = false → _ = _)))

instance (e : Executed) : Decidable ((program mem).stray e) :=
  inferInstanceAs (Decidable (e.entry.ex.valid = true ∨ flow (instrAt mem e.entry.address) = .trap))

/-- A return to zero. -/
def returnMemory (v : BitVec 64) : BitVec 16 := if v = 0x100 then 0x8082 else if v = 0 then 0x0505 else 1

/-- The stack has no address for the return, and the front end goes on behind it. -/
def returnRun : List CoreIn :=
  let idle : BpResolve := ⟨false, 0, 0, false, false, .noCF⟩
  let cycle := coreCycle returnMemory
  [cycle none true false none idle, cycle (some 0x100) true false none idle, cycle (some 0x104) false false none idle,
    cycle none false true none idle, cycle none false true (some (0, 0)) ⟨true, 0x100, 0, false, true, .ret⟩,
    cycle none false false (some (0, 0)) idle]

/-- The condition on returns cannot be left out: predicted without an address, a return to zero passes for one that
has been predicted, and what is executed at zero is what stands behind the return. -/
theorem program_order_lost :
    (frontBack 4 1 loopCfg).Along (fun y j => Surroundings loopCfg returnMemory y.1 j.front ∧
        (∀ e ∈ y.2.executes y.1 j, j.front.resolvedBranch = e.resolve) ∧
        (y.2.executes y.1 j = none → j.front.resolvedBranch.valid = false)) loopStart returnRun ∧
      ¬ (program returnMemory).Follows 0x100 ((frontBack 4 1 loopCfg).run loopStart returnRun).2.path :=
  ⟨by decide +kernel, by decide +kernel⟩

end Culsans.Frontend
