import Culsans.Library.Progress
import Culsans.Mmu.Ptw

/-! # One walk of the page table walker

A walk begins with a miss and ends with one event: an entry for a buffer, a page
fault or an access exception. A flush ends it without one. Walks are numbered, so
that a response can be told to belong to the walk that asked for it.
-/

namespace Culsans.Mmu
open Library Tlb
variable {w : ℕ}

/-- The miss that a walk serves. -/
structure Walk (w : ℕ) where
  isInstr : Bool
  vaddr : BitVec 64
  asid : BitVec w
  root : BitVec 44
  isStore : Bool
  mxr : Bool
deriving DecidableEq

namespace Walk

/-- Whether the access may use a leaf: X for a fetch, R or X with MXR for data, W and D for a store. -/
def ok (k : Walk w) (p : Pte) : Bool :=
  if k.isInstr then p.x && p.a else p.a && (p.r || (p.x && k.mxr)) && (!k.isStore || (p.w && p.d))

def result (mem : BitVec 56 → Pte) (allow : BitVec 56 → Bool) (k : Walk w) : WalkResult :=
  checkedWalk mem allow k.ok k.vaddr 2 k.root false

end Walk

/-- What ends a walk. -/
inductive WalkEvent (w : ℕ)
  | update (isInstr : Bool) (u : TlbUpdate w)
  | pageFault (isInstr : Bool) (va : BitVec 64)
  | accessException (isInstr : Bool) (badPaddr : BitVec 56)

/-- The event that the algorithm asks for. -/
def Walk.event (mem : BitVec 56 → Pte) (allow : BitVec 56 → Bool) (k : Walk w) : WalkEvent w :=
  match k.result mem allow with
  | .accessException pa => .accessException k.isInstr pa
  | .pageFault => .pageFault k.isInstr k.vaddr
  | .leaf n p g => .update k.isInstr
      { valid := true
        is2M := n == 1
        is1G := n == 2
        vpn := k.vaddr.extractLsb' 12 27
        asid := k.asid
        content := { p with g := g } }

namespace Ptw

def badPaddr (q : Ptw w) : BitVec 56 := if q.ptwAccessException then q.pptr else 0

/-- The events that the outputs of a cycle tell. -/
def events (q : Ptw w) (i : PtwIn w) : List (WalkEvent w) :=
  (if (q.itlbUpdate i).valid then [.update true (q.itlbUpdate i)] else []) ++
  (if (q.dtlbUpdate i).valid then [.update false (q.dtlbUpdate i)] else []) ++
  (if q.ptwError then [.pageFault q.isInstrPtw q.vaddr] else []) ++
  if q.ptwAccessException then [.accessException q.isInstrPtw q.badPaddr] else []

def itlbMiss (i : PtwIn w) : Bool := i.enableTranslation && i.itlbAccess && !i.itlbHit && !i.dtlbAccess

def dtlbMiss (i : PtwIn w) : Bool := i.enLdStTranslation && i.dtlbAccess && !i.dtlbHit

/-- A walk begins with this cycle. -/
def begins (q : Ptw w) (i : PtwIn w) : Bool := q.state == .idle && !i.flush && (itlbMiss i || dtlbMiss i)

def begun (i : PtwIn w) : Walk w where
  isInstr := itlbMiss i
  vaddr := if itlbMiss i then i.itlbVaddr else i.dtlbVaddr
  asid := i.asid
  root := i.satpPpn
  isStore := i.lsuIsStore
  mxr := i.mxr

/-- The walk takes the entry that has arrived. -/
def takes (q : Ptw w) : Bool := q.state == .pteLookup && q.dataRvalid

/-- The number of walks begun, the walk under way with its reads so far, the outstanding read with
the number of its walk, and the number of the walk whose response is in the input register. -/
structure WalkLog (w : ℕ) where
  count : ℕ
  cur : Option (Walk w)
  reads : ℕ
  pend : Option (ℕ × BitVec 56)
  resp : Option ℕ
deriving DecidableEq

def watch (g : WalkLog w) (q : Ptw w) (i : PtwIn w) : WalkLog w where
  count := if q.begins i then g.count + 1 else g.count
  cur :=
    if i.flush then none
    else if q.begins i then some (begun i)
    else if (q.events i).isEmpty then g.cur
    else none
  reads := if q.begins i then 0 else if q.dataReq && i.dataGnt then g.reads + 1 else g.reads
  pend :=
    if q.dataReq && i.dataGnt then some (g.count, q.pptr)
    else if i.dataRvalid then none
    else g.pend
  resp := if i.dataRvalid then g.pend.map Prod.fst else none

def machine (w : ℕ) : Machine (Ptw w × WalkLog w) (PtwIn w) :=
  (⟨fun q => q = reset, step⟩ : Machine (Ptw w) (PtwIn w)).observe ⟨0, none, 0, none, none⟩ watch

/-- The memory answers reads, the PMP decides by the address, and the kind of a data access and MXR
stay as they were when the walk began. -/
structure Ok (mem : BitVec 56 → Pte) (allow : BitVec 56 → Bool) (x : Ptw w × WalkLog w) (i : PtwIn w) : Prop where
  answers : Answers mem (x.2.pend.map Prod.snd) i
  allow : i.allowAccess = allow x.1.pptr
  steady : ∀ k, x.2.cur = some k → k.isInstr = false → i.mxr = k.mxr ∧ i.lsuIsStore = k.isStore

/-! ### The walk under way -/

variable {mem : BitVec 56 → Pte} {allow : BitVec 56 → Bool} {q : Ptw w} {i : PtwIn w} {k : Walk w} {reads : ℕ}
variable {x : Ptw w × WalkLog w}

/-- The walker is where the algorithm is, with the reads that its level tells. -/
structure On (mem : BitVec 56 → Pte) (allow : BitVec 56 → Bool) (k : Walk w) (q : Ptw w) (reads : ℕ) : Prop where
  instr : q.isInstrPtw = k.isInstr
  vaddr : q.vaddr = k.vaddr
  asid : q.tlbUpdateAsid = k.asid
  busy : q.state ≠ .idle ∧ q.state ≠ .waitRvalid
  ptr : q.walking → ∃ b, q.pptr = pteAddr b (vpn k.vaddr (depth q.lvl)) ∧
    checkedWalk mem allow k.ok k.vaddr (depth q.lvl) b q.globalMapping = k.result mem allow
  grant : q.state = .waitGrant → reads + depth q.lvl = 2
  lookup : q.state = .pteLookup → reads + depth q.lvl = 3
  fault : q.state = .propagateError → k.result mem allow = .pageFault
  access : q.state = .propagateAccessError → k.result mem allow = .accessException q.pptr
  bound : reads ≤ 3

/-- What an entry decides, in the terms of the algorithm. -/
inductive Decided (mem : BitVec 56 → Pte) (allow : BitVec 56 → Bool) (k : Walk w) (q : Ptw w) (v : PteVerdict) : Prop
  | leaf (hs : v.state = .idle) (hi : v.itlbValid = k.isInstr) (hd : v.dtlbValid = !k.isInstr)
      (hr : k.result mem allow = .leaf (depth q.lvl) q.dataRdata (q.globalMapping || q.dataRdata.g))
  | fault (hs : v.state = .propagateError) (hi : v.itlbValid = false) (hd : v.dtlbValid = false)
      (hr : k.result mem allow = .pageFault)
  | access (hs : v.state = .propagateAccessError) (hi : v.itlbValid = false) (hd : v.dtlbValid = false)
      (hp : v.pptr = q.pptr) (hr : k.result mem allow = .accessException q.pptr)
  | table (hs : v.state = .waitGrant) (hi : v.itlbValid = false) (hd : v.dtlbValid = false)
      (hl : depth v.lvl + 1 = depth q.lvl) (b : BitVec 44) (hp : v.pptr = pteAddr b (vpn k.vaddr (depth v.lvl)))
      (hr : checkedWalk mem allow k.ok k.vaddr (depth v.lvl) b (q.globalMapping || q.dataRdata.g) = k.result mem allow)

/-- The walker accepts the leaves that the access may use. -/
theorem leafVerdict_eq (h : On mem allow k q reads)
    (hm : k.isInstr = false → i.mxr = k.mxr ∧ i.lsuIsStore = k.isStore) :
    q.leafVerdict i =
      if q.dataRdata.aligned (depth q.lvl) && k.ok q.dataRdata then ⟨.idle, q.lvl, q.pptr, k.isInstr, !k.isInstr⟩
      else ⟨.propagateError, q.lvl, q.pptr, false, false⟩ := by
  rw [leafVerdict, misaligned_iff, h.instr]
  cases hal : q.dataRdata.aligned (depth q.lvl) with
  | false => rfl
  | true =>
    cases hi : k.isInstr with
    | true =>
      cases hx : q.dataRdata.x <;> cases ha : q.dataRdata.a <;> simp [Walk.ok, hi, hx, ha]
    | false =>
      obtain ⟨hmxr, hst⟩ := hm hi
      rw [hmxr, hst]
      cases hread : q.dataRdata.a && (q.dataRdata.r || (q.dataRdata.x && k.mxr)) with
      | false => simp [Walk.ok, hi, hread]
      | true => cases hs : k.isStore <;> cases hw : q.dataRdata.w <;> cases hd : q.dataRdata.d <;>
          simp [Walk.ok, hi, hread, hs, hw, hd]

theorem pteVerdict_decided (h : On mem allow k q reads) (hs : q.state = .pteLookup)
    (hd : q.dataRdata = mem q.pptr) (ha : i.allowAccess = allow q.pptr)
    (hm : k.isInstr = false → i.mxr = k.mxr ∧ i.lsuIsStore = k.isStore) : Decided mem allow k q (q.pteVerdict i) := by
  obtain ⟨b, hp, hw⟩ := h.ptr (.inr hs)
  rw [hp] at hd ha
  rw [checkedWalk_eq] at hw
  cases hal : allow (pteAddr b (vpn k.vaddr (depth q.lvl))) with
  | false =>
    rw [visit_forbidden hal] at hw
    rw [hal] at ha
    refine .access ?_ ?_ ?_ ?_ (by rw [← hw, hp])
    all_goals simp [pteVerdict, ha]
  | true =>
    rw [hal] at ha
    cases hi : q.dataRdata.invalid with
    | true =>
      rw [visit_invalid hal (by rw [← hd, hi])] at hw
      have hv : q.pteVerdict i = ⟨.propagateError, q.lvl, q.pptr, false, false⟩ := by
        rw [Pte.invalid] at hi
        simp [pteVerdict, ha, hi]
      rw [hv]
      exact .fault rfl rfl rfl hw.symm
    | false =>
      cases hl : (q.dataRdata.r || q.dataRdata.x) with
      | true =>
        rw [visit_leaf hal hd.symm hi hl] at hw
        have hv : q.pteVerdict i = q.leafVerdict i := by
          rw [Pte.invalid] at hi
          simp [pteVerdict, ha, hi, hl]
        rw [hv, leafVerdict_eq h hm]
        split_ifs at hw ⊢
        · exact .leaf rfl rfl rfl hw.symm
        · exact .fault rfl rfl rfl hw.symm
      | false =>
        rw [visit_table hal hd.symm hi hl] at hw
        have hv : q.pteVerdict i = q.tableVerdict := by
          rw [Pte.invalid] at hi
          simp [pteVerdict, ha, hi, hl]
        rw [hv]
        cases hlvl : q.lvl with
        | lvl1 =>
          rw [hlvl] at hw
          refine .table ?_ ?_ ?_ ?_ q.dataRdata.ppn ?_ ?_
          all_goals simp only [tableVerdict, hlvl, h.vaddr]
          · rfl
          · rfl
          · exact hw
        | lvl2 =>
          rw [hlvl] at hw
          refine .table ?_ ?_ ?_ ?_ q.dataRdata.ppn ?_ ?_
          all_goals simp only [tableVerdict, hlvl, h.vaddr]
          · rfl
          · rfl
          · exact hw
        | lvl3 =>
          rw [hlvl] at hw
          refine .fault ?_ ?_ ?_ hw.symm
          all_goals simp [tableVerdict, hlvl]

/-! ### Events -/

/-- An entry for a buffer, in the terms of the algorithm. -/
theorem update_eq (h : On mem allow k q reads) :
    q.update true =
      { valid := true
        is2M := depth q.lvl == 1
        is1G := depth q.lvl == 2
        vpn := k.vaddr.extractLsb' 12 27
        asid := k.asid
        content := { q.dataRdata with g := q.globalMapping || q.dataRdata.g } } := by
  rw [update, h.vaddr, h.asid, Bool.or_comm]
  cases hl : q.lvl <;> rfl

theorem events_takes (ht : q.takes = true) :
    q.events i = (if (q.pteVerdict i).itlbValid then [.update true (q.update true)] else []) ++
      if (q.pteVerdict i).dtlbValid then [.update false (q.update true)] else [] := by
  have hs : q.state = .pteLookup := by simpa using (Bool.and_eq_true_iff.mp ht).1
  have hv : q.dataRvalid = true := (Bool.and_eq_true_iff.mp ht).2
  rw [events]
  cases hi : (q.pteVerdict i).itlbValid <;> cases hd : (q.pteVerdict i).dtlbValid <;>
    simp [itlbUpdate, dtlbUpdate, update, ptwError, ptwAccessException, hs, hv, hi, hd]

/-- No event comes from a state that waits. -/
theorem events_nil (h : q.takes = false) (he : q.state ≠ .propagateError) (ha : q.state ≠ .propagateAccessError) :
    q.events i = [] := by
  rw [takes] at h
  simp [events, itlbUpdate, dtlbUpdate, update, ptwError, ptwAccessException, h, he, ha]

/-- The event of an error state. -/
theorem events_error (h : On mem allow k q reads) (he : q.state = .propagateError ∨ q.state = .propagateAccessError) :
    q.events i = [k.event mem allow] := by
  rcases he with he | he
  · simp [events, itlbUpdate, dtlbUpdate, update, ptwError, ptwAccessException, he, Walk.event, h.fault he,
      h.instr, h.vaddr]
  · simp [events, itlbUpdate, dtlbUpdate, update, ptwError, ptwAccessException, he, Walk.event, h.access he,
      h.instr, badPaddr]

/-- The event of the lookup state is an entry for the buffer that missed. -/
theorem events_lookup (h : On mem allow k q reads) (ht : q.takes = true) (hd : Decided mem allow k q (q.pteVerdict i)) :
    ((q.pteVerdict i).state = .idle ∧ q.events i = [k.event mem allow]) ∨
      ((q.pteVerdict i).state ≠ .idle ∧ q.events i = []) := by
  rw [events_takes ht]
  cases hd with
  | leaf hst hi hdt hr =>
    refine .inl ⟨hst, ?_⟩
    rw [hi, hdt, update_eq h, Walk.event, hr]
    cases hk : k.isInstr <;> rfl
  | fault hst hi hdt hr =>
    rw [hi, hdt]
    exact .inr ⟨by simp [hst], rfl⟩
  | access hst hi hdt hp hr =>
    rw [hi, hdt]
    exact .inr ⟨by simp [hst], rfl⟩
  | table hst hi hdt hl b hp hr =>
    rw [hi, hdt]
    exact .inr ⟨by simp [hst], rfl⟩

/-! ### Invariant -/

structure WalkInv (mem : BitVec 56 → Pte) (allow : BitVec 56 → Bool) (x : Ptw w × WalkLog w) : Prop where
  reads : x.1.Reads mem (x.2.pend.map Prod.snd)
  on : ∀ k, x.2.cur = some k → On mem allow k x.1 x.2.reads
  off : x.2.cur = none → x.1.state = .idle ∨ x.1.state = .waitRvalid
  /-- the outstanding read and the response in the register are those of the walk under way -/
  own : ∀ n p, x.2.pend = some (n, p) → x.1.state = .pteLookup → n = x.2.count
  taken : x.1.takes = true → x.2.resp = some x.2.count
  waits : x.1.state = .pteLookup → x.1.dataRvalid = false → x.2.pend.isSome = true

theorem walkInv_reset : WalkInv mem allow ((reset : Ptw w), ⟨0, none, 0, none, none⟩) where
  reads := reads_reset
  on k h := by simp at h
  off _ := .inl rfl
  own n p h := by simp at h
  taken h := by simp [takes, reset] at h
  waits h := by simp [reset] at h

theorem on_begins (hb : q.begins i = true) : On mem allow (begun i) (q.step i) 0 := by
  simp only [begins, Bool.and_eq_true, beq_iff_eq, Bool.not_eq_true'] at hb
  obtain ⟨⟨hs, hf⟩, hm⟩ := hb
  have hcore : q.step i =
      { q with
        tagValid := false
        lvl := .lvl1
        globalMapping := false
        isInstrPtw := (begun i).isInstr
        pptr := pteAddr (begun i).root (vpn (begun i).vaddr 2)
        tlbUpdateAsid := (begun i).asid
        vaddr := (begun i).vaddr
        state := .waitGrant
        dataRvalid := i.dataRvalid
        dataRdata := i.dataRdata } := by
    cases hi : itlbMiss i with
    | true =>
      have hc := hi
      rw [itlbMiss] at hc
      simp [step, core, hs, hf, hc, begun, hi, vpn]
    | false =>
      rw [hi, Bool.false_or] at hm
      have hc := hi
      rw [itlbMiss] at hc
      rw [dtlbMiss] at hm
      simp [step, core, hs, hf, hc, hm, begun, hi, vpn]
  rw [hcore]
  exact ⟨rfl, rfl, rfl, by simp, fun _ => ⟨(begun i).root, rfl, rfl⟩, fun _ => rfl, by simp, by simp, by simp, by simp⟩

/-- A walk that no event ends goes on. -/
theorem on_step (h : On mem allow k q reads) (hr : q.takes = true → q.dataRdata = mem q.pptr)
    (ha : i.allowAccess = allow q.pptr) (hm : k.isInstr = false → i.mxr = k.mxr ∧ i.lsuIsStore = k.isStore)
    (hf : i.flush = false) (he : q.events i = []) :
    On mem allow k (q.step i) (if q.dataReq && i.dataGnt then reads + 1 else reads) := by
  cases hs : q.state with
  | idle => exact absurd hs h.busy.1
  | waitRvalid => exact absurd hs h.busy.2
  | propagateError => exact absurd ((events_error h (.inl hs)).symm.trans he) (by simp)
  | propagateAccessError => exact absurd ((events_error h (.inr hs)).symm.trans he) (by simp)
  | waitGrant =>
    have hlen := h.grant hs
    have hptr := h.ptr (.inl hs)
    cases hg : i.dataGnt with
    | true =>
      simp only [step, core, hs, hf, hg, dataReq, beq_self_eq_true, Bool.and_self, if_true, Bool.false_eq_true,
        if_false]
      exact ⟨h.instr, h.vaddr, h.asid,
        by simp, fun _ => hptr, by simp, fun _ => by dsimp only; omega, by simp, by simp, by omega⟩
    | false =>
      simp only [step, core, hs, hf, hg, Bool.and_false, Bool.false_eq_true, if_false]
      exact ⟨h.instr, h.vaddr, h.asid, by simp, fun _ => hptr, fun _ => hlen, by simp, by simp, by simp, h.bound⟩
  | pteLookup =>
    have hlen := h.lookup hs
    have hptr := h.ptr (.inr hs)
    have hreq : q.dataReq = false := by simp [dataReq, hs]
    rw [hreq, Bool.false_and, if_neg (by simp)]
    cases hv : q.dataRvalid with
    | false =>
      simp only [step, core, hs, hf, hv, Bool.false_eq_true, if_false]
      exact ⟨h.instr, h.vaddr, h.asid, by simp, fun _ => hptr, by simp, fun _ => hlen, by simp, by simp, h.bound⟩
    | true =>
      have ht : q.takes = true := by simp [takes, hs, hv]
      have hd := pteVerdict_decided h hs (hr ht) ha hm
      simp only [step, core, hs, hf, hv, Bool.false_eq_true, if_false, if_true]
      cases hd with
      | leaf hst hi hdt hres =>
        rcases events_lookup h ht (.leaf hst hi hdt hres) with ⟨-, hev⟩ | ⟨hne, -⟩
        · rw [hev] at he
          simp at he
        · exact absurd hst hne
      | fault hst hi hdt hres =>
        exact ⟨h.instr, h.vaddr, h.asid, by simp [hst], by simp [walking, hst], by simp [hst], by simp [hst],
          fun _ => hres, by simp [hst], h.bound⟩
      | access hst hi hdt hp hres =>
        exact ⟨h.instr, h.vaddr, h.asid, by simp [hst], by simp [walking, hst], by simp [hst], by simp [hst],
          by simp [hst], fun _ => hres.trans (by rw [hp]), h.bound⟩
      | table hst hi hdt hl b hp hres =>
        exact ⟨h.instr, h.vaddr, h.asid, by simp [hst], fun _ => ⟨b, hp, hres⟩, fun _ => by dsimp only; omega,
          by simp [hst], by simp [hst], by simp [hst], h.bound⟩

theorem off_step (h : WalkInv mem allow x) (ho : Ok mem allow x i) (hc : (watch x.2 x.1 i).cur = none) :
    (x.1.step i).state = .idle ∨ (x.1.step i).state = .waitRvalid := by
  cases hf : i.flush with
  | true =>
    simp only [step, hf, if_true, flushState]
    split_ifs <;> simp
  | false =>
    simp only [watch, hf, Bool.false_eq_true, if_false] at hc
    split_ifs at hc with hb he
    · rcases h.off hc with hs | hs
      · rw [Bool.not_eq_true, begins, hs, hf] at hb
        simp only [beq_self_eq_true, Bool.not_false, Bool.true_and, Bool.or_eq_false_iff, itlbMiss, dtlbMiss] at hb
        simp [step, core, hs, hf, hb.1, hb.2]
      · cases hv : x.1.dataRvalid <;> simp [step, core, hs, hf, hv]
    · cases hcur : x.2.cur with
      | none =>
        rcases h.off hcur with hs | hs <;>
          exact absurd (by simp [events_nil, takes, hs]) he
      | some k =>
        have hon := h.on k hcur
        cases hs : x.1.state with
        | idle => exact absurd hs hon.busy.1
        | waitRvalid => exact absurd hs hon.busy.2
        | waitGrant => exact absurd (by simp [events_nil, takes, hs]) he
        | propagateError => simp [step, core, hs, hf]
        | propagateAccessError => simp [step, core, hs, hf]
        | pteLookup =>
          cases hv : x.1.dataRvalid with
          | false => exact absurd (by simp [events_nil, takes, hs, hv]) he
          | true =>
            have ht : x.1.takes = true := by simp [takes, hs, hv]
            have hd := pteVerdict_decided hon hs (h.reads.data hv hs) ho.allow (ho.steady k hcur)
            rcases events_lookup hon ht hd with ⟨hst, -⟩ | ⟨-, hev⟩
            · simp [step, core, hs, hf, hv, hst]
            · exact absurd (by simp [hev]) he

theorem pteVerdict_ne_lookup : (q.pteVerdict i).state ≠ .pteLookup := by
  obtain ⟨-, l, h⟩ | h | h | h := q.pteVerdict_cases (i := i) <;> rw [h]
  · nofun
  · nofun
  · rcases leafVerdict_state (q := q) (i := i) with h | h <;> rw [h] <;> nofun
  · rcases (tableVerdict_state (q := q)).1 with h | h <;> rw [h] <;> nofun

/-- The lookup state is entered with a grant and held until the entry is there. -/
theorem step_lookup (h : (q.step i).state = .pteLookup) :
    (q.state = .waitGrant ∧ i.dataGnt = true) ∨ (q.state = .pteLookup ∧ q.dataRvalid = false) := by
  cases hf : i.flush with
  | true =>
    simp only [step, hf, if_true, flushState] at h
    split_ifs at h
  | false =>
    cases hs : q.state with
    | idle =>
      simp only [step, core, hs, hf, Bool.false_eq_true, if_false] at h
      split_ifs at h
    | waitGrant =>
      cases hg : i.dataGnt with
      | true => exact .inl ⟨rfl, rfl⟩
      | false => simp [step, core, hs, hf, hg] at h
    | pteLookup =>
      cases hv : q.dataRvalid with
      | true => exact absurd (by simpa [step, core, hs, hf, hv] using h) pteVerdict_ne_lookup
      | false => exact .inr ⟨rfl, rfl⟩
    | waitRvalid =>
      simp only [step, core, hs, hf, Bool.false_eq_true, if_false] at h
      split_ifs at h
    | propagateError => simp [step, core, hs, hf] at h
    | propagateAccessError => simp [step, core, hs, hf] at h

theorem pend_watch : (watch x.2 x.1 i).pend.map Prod.snd = x.1.outstanding i (x.2.pend.map Prod.snd) := by
  simp only [watch, outstanding]
  split_ifs <;> rfl

/-- No walk begins while one is at an entry. -/
theorem count_watch (h : x.1.walking) : (watch x.2 x.1 i).count = x.2.count := by
  have hb : x.1.begins i = false := by
    rcases h with hs | hs <;> simp [begins, hs]
  simp [watch, hb]

theorem own_step (h : WalkInv mem allow x) {n : ℕ} {p : BitVec 56} (hp : (watch x.2 x.1 i).pend = some (n, p))
    (hs : (x.1.step i).state = .pteLookup) : n = (watch x.2 x.1 i).count := by
  rcases step_lookup hs with ⟨hg, hgnt⟩ | ⟨hl, -⟩
  · rw [count_watch (.inl hg)]
    simp only [watch, dataReq, hg, hgnt, beq_self_eq_true, Bool.and_self, if_true, Option.some.injEq, Prod.mk.injEq]
      at hp
    exact hp.1.symm
  · rw [count_watch (.inr hl)]
    have hreq : x.1.dataReq = false := by simp [dataReq, hl]
    simp only [watch, hreq, Bool.false_and, Bool.false_eq_true, if_false] at hp
    split_ifs at hp
    exact h.own n p hp hl

theorem taken_step (h : WalkInv mem allow x) (ho : Ok mem allow x i) (ht : (x.1.step i).takes = true) :
    (watch x.2 x.1 i).resp = some (watch x.2 x.1 i).count := by
  simp only [takes, Bool.and_eq_true, beq_iff_eq] at ht
  obtain ⟨hs, hv⟩ := ht
  have hrv : i.dataRvalid = true := hv
  obtain ⟨p, hp, -⟩ := ho.answers hrv
  rw [Option.map_eq_some_iff] at hp
  obtain ⟨⟨n, p'⟩, hpend, rfl⟩ := hp
  rcases step_lookup hs with ⟨hg, -⟩ | ⟨hl, -⟩
  · have hst := (h.reads.pend p' (by simp [hpend])).1
    simp [hg] at hst
  · rw [count_watch (.inr hl)]
    simp [watch, hrv, hpend, h.own n p' hpend hl]

theorem waits_step (h : WalkInv mem allow x) (hs : (x.1.step i).state = .pteLookup)
    (hv : (x.1.step i).dataRvalid = false) : (watch x.2 x.1 i).pend.isSome = true := by
  have hrv : i.dataRvalid = false := hv
  rcases step_lookup hs with ⟨hg, hgnt⟩ | ⟨hl, hd⟩
  · simp [watch, dataReq, hg, hgnt]
  · simp [watch, dataReq, hl, hrv, h.waits hl hd]

theorem walkInv_step (h : WalkInv mem allow x) (ho : Ok mem allow x i) :
    WalkInv mem allow (x.1.step i, watch x.2 x.1 i) where
  reads := by
    rw [pend_watch]
    exact reads_step h.reads ho.answers
  on k hk := by
    simp only [watch] at hk ⊢
    split_ifs at hk with hf hb he
    · rw [Option.some.injEq] at hk
      rw [if_pos hb, ← hk]
      exact on_begins hb
    · rw [if_neg hb]
      have hr : x.1.takes = true → x.1.dataRdata = mem x.1.pptr := fun ht => by
        simp only [takes, Bool.and_eq_true, beq_iff_eq] at ht
        exact h.reads.data ht.2 ht.1
      exact on_step (h.on k hk) hr ho.allow (ho.steady k hk) (Bool.eq_false_of_not_eq_true hf) (List.isEmpty_iff.mp he)
  off := off_step h ho
  own _ _ := own_step h
  taken := taken_step h ho
  waits := waits_step h

theorem walkInv_of_reachable (hr : (machine w).Reachable (Ok mem allow) x) : WalkInv mem allow x := by
  refine hr.invariant (fun s h0 => ?_) fun s i hi ho => walkInv_step hi ho
  obtain ⟨q, g⟩ := s
  obtain ⟨rfl, rfl⟩ := h0
  exact walkInv_reset

/-- The events of a cycle are none, or the one that ends the walk under way. -/
theorem events_cases (h : WalkInv mem allow x) (ho : Ok mem allow x i) :
    x.1.events i = [] ∨ ∃ k, x.2.cur = some k ∧ x.1.events i = [k.event mem allow] := by
  cases hcur : x.2.cur with
  | none =>
    rcases h.off hcur with hs | hs <;> exact .inl (by simp [events_nil, takes, hs])
  | some k =>
    have hon := h.on k hcur
    by_cases ht : x.1.takes = true
    · have hst : x.1.state = .pteLookup ∧ x.1.dataRvalid = true := by simpa [takes] using ht
      have hd := pteVerdict_decided hon hst.1 (h.reads.data hst.2 hst.1) ho.allow (ho.steady k hcur)
      rcases events_lookup hon ht hd with ⟨-, hev⟩ | ⟨-, hev⟩
      · exact .inr ⟨k, rfl, hev⟩
      · exact .inl hev
    · by_cases he : x.1.state = .propagateError ∨ x.1.state = .propagateAccessError
      · exact .inr ⟨k, rfl, events_error hon he⟩
      · rw [not_or] at he
        exact .inl (events_nil (Bool.eq_false_of_not_eq_true ht) he.1 he.2)

/-! ### The end of a walk -/

/-- The cycles in which a walk moves, counted from its end. -/
def rank (q : Ptw w) : ℕ :=
  match q.state with
  | .waitGrant => 3 * depth q.lvl + 4
  | .pteLookup => if q.dataRvalid then 3 * depth q.lvl + 2 else 3 * depth q.lvl + 3
  | .propagateError | .propagateAccessError => 1
  | .idle | .waitRvalid => 0

/-- A walk moves, or waits for the memory. -/
theorem rank_step (h : On mem allow k q reads) (hr : q.takes = true → q.dataRdata = mem q.pptr)
    (ha : i.allowAccess = allow q.pptr) (hm : k.isInstr = false → i.mxr = k.mxr ∧ i.lsuIsStore = k.isStore)
    (hf : i.flush = false) (he : q.events i = []) :
    (q.step i).rank < q.rank ∨
      ((q.step i).rank = q.rank ∧ (q.step i).state = q.state ∧ (q.state = .waitGrant → i.dataGnt = false) ∧
        (q.state = .pteLookup → q.dataRvalid = false ∧ i.dataRvalid = false) ∧ q.walking) := by
  cases hs : q.state with
  | idle => exact absurd hs h.busy.1
  | waitRvalid => exact absurd hs h.busy.2
  | propagateError => exact absurd ((events_error h (.inl hs)).symm.trans he) (by simp)
  | propagateAccessError => exact absurd ((events_error h (.inr hs)).symm.trans he) (by simp)
  | waitGrant =>
    cases hg : i.dataGnt with
    | true =>
      refine .inl ?_
      cases hrv : i.dataRvalid <;> simp [rank, step, core, hs, hf, hg, hrv]
    | false =>
      refine .inr ⟨?_, ?_, by simp, by simp, .inl hs⟩
      · simp [rank, step, core, hs, hf, hg]
      · simp [step, core, hs, hf, hg]
  | pteLookup =>
    cases hv : q.dataRvalid with
    | false =>
      cases hrv : i.dataRvalid with
      | true => exact .inl (by simp [rank, step, core, hs, hf, hv, hrv])
      | false =>
        refine .inr ⟨?_, ?_, by simp, by simp, .inr hs⟩
        · simp [rank, step, core, hs, hf, hv, hrv]
        · simp [step, core, hs, hf, hv]
    | true =>
      refine .inl ?_
      have ht : q.takes = true := by simp [takes, hs, hv]
      have hrank : (q.step i).rank = { q with state := (q.pteVerdict i).state, lvl := (q.pteVerdict i).lvl }.rank := by
        have hne : (q.pteVerdict i).state ≠ .pteLookup := pteVerdict_ne_lookup
        cases hst : (q.pteVerdict i).state <;> simp_all [rank, step, core]
      rw [hrank]
      cases pteVerdict_decided h hs (hr ht) ha hm with
      | leaf hst => simp [rank, hs, hv, hst]
      | fault hst => simp [rank, hs, hv, hst]
      | access hst => simp [rank, hs, hv, hst]
      | table hst _ _ hl b hp hres =>
        simp only [rank, hs, hv, hst, if_true]
        omega

/-- The cache grants and answers in the end, and nothing flushes. -/
structure Prompt (mem : BitVec 56 → Pte) (allow : BitVec 56 → Bool) (x : Ptw w × WalkLog w) (u : ℕ → PtwIn w) :
    Prop where
  ok : ∀ n, Ok mem allow ((machine w).states x u n) (u n)
  noFlush : ∀ n, (u n).flush = false
  grants : ∀ n, ((machine w).states x u n).1.dataReq = true → ∃ m, n ≤ m ∧ (u m).dataGnt = true
  answers : ∀ n, ((machine w).states x u n).2.pend.isSome = true → ∃ m, n ≤ m ∧ (u m).dataRvalid = true

section Prompt
variable {u : ℕ → PtwIn w} {n : ℕ}

theorem walkInv_states (h : WalkInv mem allow x) (hu : Prompt mem allow x u) (n : ℕ) :
    WalkInv mem allow ((machine w).states x u n) := by
  induction n with
  | zero => exact h
  | succ n ih => exact walkInv_step ih (hu.ok n)

/-- Until its event the walk stays the same. -/
theorem cur_states (h : WalkInv mem allow x) (hc : x.2.cur = some k) (hu : Prompt mem allow x u)
    (he : ∀ m < n, ((machine w).states x u m).1.events (u m) = []) : ((machine w).states x u n).2.cur = some k := by
  induction n with
  | zero => exact hc
  | succ n ih =>
    have hn := ih fun m hm => he m (by omega)
    have hon := (walkInv_states h hu n).on k hn
    have hb : ((machine w).states x u n).1.begins (u n) = false := by
      simp [begins, hon.busy.1]
    change (watch _ _ (u n)).cur = some k
    simp [watch, hu.noFlush n, hb, he n (by omega), hn]

theorem rank_states (h : WalkInv mem allow x) (hc : x.2.cur = some k) (hu : Prompt mem allow x u)
    (he : ∀ m, ((machine w).states x u m).1.events (u m) = []) (n : ℕ) :
    ((machine w).states x u (n + 1)).1.rank < ((machine w).states x u n).1.rank ∨
      (((machine w).states x u (n + 1)).1.rank = ((machine w).states x u n).1.rank ∧
        ((machine w).states x u (n + 1)).1.state = ((machine w).states x u n).1.state ∧
        (((machine w).states x u n).1.state = .waitGrant → (u n).dataGnt = false) ∧
        (((machine w).states x u n).1.state = .pteLookup →
          ((machine w).states x u n).1.dataRvalid = false ∧ (u n).dataRvalid = false) ∧
        ((machine w).states x u n).1.walking) := by
  have hinv := walkInv_states h hu n
  have hcur := cur_states (n := n) h hc hu fun m _ => he m
  refine rank_step (hinv.on k hcur) (fun ht => ?_) (hu.ok n).allow ((hu.ok n).steady k hcur) (hu.noFlush n) (he n)
  simp only [takes, Bool.and_eq_true, beq_iff_eq] at ht
  exact hinv.reads.data ht.2 ht.1

/-- A walk does not wait forever. -/
theorem rank_drops (h : WalkInv mem allow x) (hc : x.2.cur = some k) (hu : Prompt mem allow x u)
    (he : ∀ m, ((machine w).states x u m).1.events (u m) = []) (n : ℕ) :
    ∃ m, n ≤ m ∧ ((machine w).states x u (m + 1)).1.rank < ((machine w).states x u m).1.rank := by
  by_contra hno
  have hstay : ∀ m, n ≤ m → _ := fun m hm => (rank_states h hc hu he m).resolve_left fun hlt => hno ⟨m, hm, hlt⟩
  have hstate : ∀ j, ((machine w).states x u (n + j)).1.state = ((machine w).states x u n).1.state := by
    intro j
    induction j with
    | zero => rfl
    | succ j ih => exact (hstay (n + j) (by omega)).2.1.trans ih
  have hkeep : ∀ m, n ≤ m → ((machine w).states x u m).1.state = ((machine w).states x u n).1.state := by
    intro m hm
    obtain ⟨j, rfl⟩ := Nat.exists_eq_add_of_le hm
    exact hstate j
  rcases (hstay n le_rfl).2.2.2.2 with hs | hs
  · obtain ⟨m, hm, hg⟩ := hu.grants n (by simp [dataReq, hs])
    have hno := (hstay m hm).2.2.1 ((hkeep m hm).trans hs)
    rw [hg] at hno
    cases hno
  · have hv := ((hstay n le_rfl).2.2.2.1 hs).1
    obtain ⟨m, hm, hg⟩ := hu.answers n ((walkInv_states h hu n).waits hs hv)
    have hno := ((hstay m hm).2.2.2.1 ((hkeep m hm).trans hs)).2
    rw [hg] at hno
    cases hno

theorem walk_ends (h : WalkInv mem allow x) (hc : x.2.cur = some k) (hu : Prompt mem allow x u) :
    ∃ n, ((machine w).states x u n).1.events (u n) = [k.event mem allow] ∧
      ∀ m < n, ((machine w).states x u m).1.events (u m) = [] := by
  have hfirst : ∃ n, ((machine w).states x u n).1.events (u n) ≠ [] ∧
      ∀ m < n, ¬ ((machine w).states x u m).1.events (u m) ≠ [] := by
    refine exists_first_of_measure (μ := fun n => ((machine w).states x u n).1.rank) (fun hno n => ?_) fun hno => ?_
    · have hev : ∀ m, ((machine w).states x u m).1.events (u m) = [] := fun m => not_not.mp (hno m)
      rcases rank_states h hc hu hev n with hlt | heq
      · exact hlt.le
      · exact heq.1.le
    · exact rank_drops h hc hu fun m => not_not.mp (hno m)
  obtain ⟨n, hne, hbefore⟩ := hfirst
  have hev : ∀ m < n, ((machine w).states x u m).1.events (u m) = [] := fun m hm => not_not.mp (hbefore m hm)
  refine ⟨n, ?_, hev⟩
  rcases events_cases (walkInv_states h hu n) (hu.ok n) with hnil | ⟨k', hk', hevent⟩
  · exact absurd hnil hne
  · rw [cur_states h hc hu hev, Option.some.injEq] at hk'
    rw [hk']
    exact hevent

end Prompt

/-- In every run, flushes included: a cycle tells at most one event, that of the algorithm for the
walk under way, after at most three reads; an entry is taken for the walk that asked for it; and
without a flush every walk ends. -/
theorem ptw_walk (hr : (machine w).Reachable (Ok mem allow) x) :
    (∀ i, Ok mem allow x i → x.1.events i = [] ∨
      ∃ k, x.2.cur = some k ∧ x.2.reads ≤ 3 ∧ x.1.events i = [k.event mem allow]) ∧
    (x.1.takes = true → x.2.cur.isSome = true ∧ x.2.resp = some x.2.count) ∧
    ∀ k u, x.2.cur = some k → Prompt mem allow x u →
      ∃ n, ((machine w).states x u n).1.events (u n) = [k.event mem allow] ∧
        ∀ m < n, ((machine w).states x u m).1.events (u m) = [] := by
  have h := walkInv_of_reachable hr
  refine ⟨fun i ho => ?_, fun ht => ⟨?_, h.taken ht⟩, fun k u hc hu => walk_ends h hc hu⟩
  · rcases events_cases h ho with hnil | ⟨k, hk, hev⟩
    · exact .inl hnil
    · exact .inr ⟨k, hk, (h.on k hk).bound, hev⟩
  · by_contra hnone
    rw [Bool.not_eq_true, Option.isSome_eq_false_iff, Option.isNone_iff_eq_none] at hnone
    simp only [takes, Bool.and_eq_true, beq_iff_eq] at ht
    rcases h.off hnone with hs | hs <;> simp [ht.1] at hs

/-! ### A fetch from a giga page -/

deriving instance DecidableEq for Ptw

instance (mem : BitVec 56 → Pte) (allow : BitVec 56 → Bool) (x : Ptw w × WalkLog w) (i : PtwIn w) :
    Decidable (Ok mem allow x i) :=
  decidable_of_iff (Answers mem (x.2.pend.map Prod.snd) i ∧ i.allowAccess = allow x.1.pptr ∧
      ∀ k ∈ x.2.cur, k.isInstr = false → i.mxr = k.mxr ∧ i.lsuIsStore = k.isStore)
    ⟨fun ⟨a, b, c⟩ => ⟨a, b, c⟩, fun ⟨a, b, c⟩ => ⟨a, b, c⟩⟩

/-- The root table maps the first gigabyte to a page that may be executed. -/
def gigaTable (p : BitVec 56) : Pte :=
  if p = 0 then { zeroPte with ppn := 0x40000, v := true, x := true, a := true } else zeroPte

def quietIn : PtwIn 1 where
  flush := false
  enableTranslation := true
  enLdStTranslation := false
  lsuIsStore := false
  asid := 0
  satpPpn := 0
  mxr := false
  itlbAccess := false
  itlbHit := false
  itlbVaddr := 0x1234
  dtlbAccess := false
  dtlbHit := false
  dtlbVaddr := 0
  dataGnt := false
  dataRvalid := false
  dataRdata := zeroPte
  allowAccess := true

/-- The walk of a fetch miss has begun. -/
def fetchMissed : Ptw 1 × WalkLog 1 :=
  (machine 1).next (reset, ⟨0, none, 0, none, none⟩) { quietIn with itlbAccess := true }

/-- The memory grants the read and answers it. -/
def served : ℕ → PtwIn 1
  | 0 => { quietIn with dataGnt := true }
  | 1 => { quietIn with dataRvalid := true, dataRdata := gigaTable 0 }
  | _ => quietIn

theorem served_rest (n : ℕ) :
    (machine 1).states fetchMissed served (n + 4) = (machine 1).states fetchMissed served 4 := by
  induction n with
  | zero => rfl
  | succ n ih =>
    change (machine 1).next ((machine 1).states fetchMissed served (n + 4)) quietIn = _
    rw [ih]
    decide +kernel

theorem served_prompt : Prompt gigaTable (fun _ => true) fetchMissed served where
  ok n := by
    match n with
    | 0 => decide +kernel
    | 1 => decide +kernel
    | 2 => decide +kernel
    | 3 => decide +kernel
    | n + 4 =>
      rw [served_rest]
      change Ok gigaTable (fun _ => true) _ quietIn
      decide +kernel
  noFlush n := by
    match n with
    | 0 | 1 | n + 2 => rfl
  grants n h := by
    match n with
    | 0 => exact ⟨0, le_rfl, rfl⟩
    | 1 => exact absurd h (by decide +kernel)
    | 2 => exact absurd h (by decide +kernel)
    | 3 => exact absurd h (by decide +kernel)
    | n + 4 =>
      rw [served_rest] at h
      exact absurd h (by decide +kernel)
  answers n h := by
    match n with
    | 0 => exact absurd h (by decide +kernel)
    | 1 => exact ⟨1, le_rfl, rfl⟩
    | 2 => exact absurd h (by decide +kernel)
    | 3 => exact absurd h (by decide +kernel)
    | n + 4 =>
      rw [served_rest] at h
      exact absurd h (by decide +kernel)

theorem fetchMissed_reachable : (machine 1).Reachable (Ok gigaTable fun _ => true) fetchMissed := by
  have h0 : (machine 1).init (reset, ⟨0, none, 0, none, none⟩) := ⟨rfl, rfl⟩
  exact .step _ (.init h0) (by decide +kernel)

/-- The walk of the fetch ends with an entry for the ITLB. -/
theorem ptw_walk_fetch : ∃ n, ((machine 1).states fetchMissed served n).1.events (served n) =
    [.update true ⟨true, false, true, 1, 0, gigaTable 0⟩] := by
  have hc : fetchMissed.2.cur = some (begun { quietIn with itlbAccess := true }) := by decide +kernel
  obtain ⟨n, hn, -⟩ := (ptw_walk fetchMissed_reachable).2.2 _ served hc served_prompt
  exact ⟨n, hn⟩

end Ptw
end Culsans.Mmu
