import Culsans.Dcache.Package

/-! # The AXI adapter (`axi_adapter`)

One adapter serves one request at a time. The parameter `burst` is `BURST_SIZE`,
so that a request carries `burst + 1` words; reads start at the line base
(`CRITICAL_WORD_FIRST = 0`) and the response flags of ACE are evaluated.
-/

namespace Culsans.Dcache

/-- `ad_req_t` -/
inductive AdReq
  | singleReq | cacheLineReq
deriving DecidableEq

/-- `atop_t` values produced by `atop_from_amo`; all but `swap` are atomic loads. -/
inductive Atop
  | none | swap | add | clr | set | eor | smax | umax | smin | umin
deriving DecidableEq

def atopFromAmo : Amo → Atop
  | .swap => .swap
  | .add => .add
  | .and => .clr
  | .or => .set
  | .xor => .eor
  | .max => .smax
  | .maxu => .umax
  | .min => .smin
  | .minu => .umin
  | _ => .none

def amoReturnsData (a : Amo) : Bool := !(atopFromAmo a == .none)

/-- `axi_adapter` states -/
inductive AdapterState
  | idle | waitBValid | waitAwReady | waitLastWReady | waitLastWReadyAwReady | waitAwReadyBurst
  | waitRValid | waitRValidMultiple | completeRead | waitAmoRValid
deriving DecidableEq

/-- The request interface of the adapter. -/
structure AdapterReq (burst : ℕ) where
  req : Bool
  type : AdReq
  transType : AceTrs
  amo : Amo
  id : BitVec 4
  addr : PAddr
  wdata : Fin (burst + 1) → Word
  we : Bool
  be : Fin (burst + 1) → WordBe
  size : BitVec 2

/-- AXI responses; `rDirty` and `rShared` are `r.resp[2]` and `r.resp[3]`. -/
structure AxiResp where
  awReady : Bool
  wReady : Bool
  arReady : Bool
  bValid : Bool
  bExokay : Bool
  rValid : Bool
  rData : Word
  rLast : Bool
  rDirty : Bool
  rShared : Bool

def AxiResp.none : AxiResp :=
  ⟨false, false, false, false, false, false, fun _ => 0, false, false, false⟩

structure AwChan where
  addr : PAddr
  len : ℕ
  size : BitVec 2
  lock : Bool
  id : BitVec 4
  atop : Atop
  snoop : BitVec 3
  domain : BitVec 2

structure ArChan where
  addr : PAddr
  len : ℕ
  size : BitVec 2
  lock : Bool
  id : BitVec 4
  snoop : BitVec 4
  domain : BitVec 2

structure WChan where
  data : Word
  strb : WordBe
  last : Bool

/-- AXI requests (`axi_req_o`). -/
structure AxiReq where
  awValid : Bool
  aw : AwChan
  wValid : Bool
  w : WChan
  bReady : Bool
  arValid : Bool
  ar : ArChan
  rReady : Bool
  rack : Bool
  wack : Bool

structure AxiAdapter (burst : ℕ) where
  state : AdapterState
  cnt : ℕ
  cacheLine : Fin (burst + 1) → Word
  addrOffset : ℕ
  amo : Amo
  size : BitVec 2
  dirty : Bool
  shared : Bool
  rack : Bool
  wack : Bool

namespace AxiAdapter
variable {burst : ℕ}

def reset : AxiAdapter burst :=
  ⟨.idle, 0, fun _ _ => 0, 0, .none, 0, false, false, false, false⟩

def busy (q : AxiAdapter burst) : Bool := !(q.state == .idle)

/-- Values of the beat counter, whose width is `ADDR_INDEX`. -/
def cntMod (burst : ℕ) : ℕ := if burst = 0 then 2 else 2 ^ (Nat.log2 burst + 1)

/-- `index`: the word the current beat belongs to. -/
def index (q : AxiAdapter burst) : ℕ := (burst + cntMod burst - q.cnt) % cntMod burst

theorem lt_cntMod (burst : ℕ) : burst < cntMod burst := by
  unfold cntMod
  split_ifs with h
  · omega
  · exact Nat.lt_log2_self

/-- The counter after the first of several words. -/
theorem cnt_pred (h : 0 < burst) : (burst + cntMod burst - 1) % cntMod burst = burst - 1 := by
  have hlt := lt_cntMod burst
  have he : burst + cntMod burst - 1 = cntMod burst + (burst - 1) := by omega
  rw [he, Nat.add_mod_left]
  exact Nat.mod_eq_of_lt (by omega)

def pick {α : Type*} (f : Fin (burst + 1) → α) (k : ℕ) : α := f (Fin.ofNat (burst + 1) k)

/-- `axi_req_o.aw.snoop` and `aw.domain` by transaction type. -/
def awSnoop : AceTrs → BitVec 3 × BitVec 2
  | .writeUnique => (0b000#3, 0b01#2)
  | .writeBack => (0b011#3, 0b00#2)
  | _ => (0b000#3, 0b00#2)

/-- `axi_req_o.ar.snoop` and `ar.domain` by transaction type. -/
def arSnoop : AceTrs → BitVec 4 × BitVec 2
  | .readShared => (0b0001#4, 0b01#2)
  | .readOnce => (0b0000#4, 0b01#2)
  | .readUnique => (0b0111#4, 0b01#2)
  | .cleanUnique => (0b1011#4, 0b01#2)
  | _ => (0b0000#4, 0b00#2)

/-- The AXI side of the adapter in one cycle. -/
def axiReq (q : AxiAdapter burst) (r : AdapterReq burst) (a : AxiResp) : AxiReq :=
  let single := r.type == .singleReq
  let aw : AwChan := ⟨r.addr, 0, r.size, false, r.id, atopFromAmo r.amo,
    (awSnoop r.transType).1, (awSnoop r.transType).2⟩
  let ar : ArChan := ⟨if single then r.addr else r.addr.align, 0, r.size, false, r.id,
    (arSnoop r.transType).1, (arSnoop r.transType).2⟩
  let w : WChan := ⟨pick r.wdata 0, pick r.be 0, false⟩
  let o : AxiReq := ⟨false, aw, false, w, false, false, ar, false, q.rack, q.wack⟩
  let beat : WChan := { w with data := pick r.wdata (burst - q.cnt), strb := pick r.be (burst - q.cnt) }
  match q.state with
  | .idle =>
    if r.req then
      if r.we then
        { o with awValid := true, wValid := true
                 aw := { aw with lock := r.amo == .sc, len := if single then 0 else burst }
                 w := { w with last := single } }
      else { o with arValid := true, ar := { ar with lock := r.amo == .lr, len := if single then 0 else burst } }
    else o
  | .waitAwReady => { o with awValid := true }
  | .waitLastWReadyAwReady =>
    { o with wValid := true, awValid := true, aw := { aw with len := burst }
             w := { (if single then w else beat) with last := q.cnt == 0 } }
  | .waitAwReadyBurst => { o with awValid := true, aw := { aw with len := burst } }
  | .waitLastWReady =>
    { o with wValid := true, w := { (if single then w else beat) with last := q.cnt == 0 } }
  | .waitBValid =>
    { o with bReady := a.bValid, rReady := a.bValid && amoReturnsData q.amo && a.rValid }
  | .waitAmoRValid => { o with rReady := a.rValid }
  | .waitRValidMultiple | .waitRValid => { o with rReady := true }
  | .completeRead => o

/-- `gnt_o` -/
def gnt (q : AxiAdapter burst) (r : AdapterReq burst) (a : AxiResp) : Bool :=
  match q.state with
  | .idle => r.req && (if r.we then r.type == .singleReq && a.awReady && a.wReady else a.arReady)
  | .waitAwReady | .waitAwReadyBurst => a.awReady
  | .waitLastWReadyAwReady => a.awReady && a.wReady && q.cnt == 0
  | .waitLastWReady => a.wReady && q.cnt == 0
  | _ => false

/-- `valid_o` -/
def valid (q : AxiAdapter burst) (a : AxiResp) : Bool :=
  match q.state with
  | .waitBValid => a.bValid && (!amoReturnsData q.amo || a.rValid)
  | .waitAmoRValid => a.rValid
  | .completeRead => true
  | _ => false

/-- A store-conditional failure puts a 1 in both half words of a 32-bit request. -/
def scFailure (size : BitVec 2) : Word :=
  fun k => if k = 0 ∨ (size = 2 ∧ k = 4) then 1 else 0

/-- `rdata_o` -/
def rdata (q : AxiAdapter burst) (a : AxiResp) : Fin (burst + 1) → Word :=
  match q.state with
  | .waitBValid =>
    if a.bValid && amoReturnsData q.amo && a.rValid then
      fun k => if k = 0 then a.rData else fun _ => 0
    else if a.bValid && q.amo == .sc then
      fun k => if k = 0 ∧ a.bExokay = false then scFailure q.size else fun _ => 0
    else q.cacheLine
  | .waitAmoRValid => if a.rValid then fun k => if k = 0 then a.rData else fun _ => 0 else q.cacheLine
  | _ => q.cacheLine

/-- `critical_word_valid_o`; the word itself is always `r.data`. -/
def criticalWordValid (q : AxiAdapter burst) (a : AxiResp) : Bool :=
  (q.state == .waitRValidMultiple || q.state == .waitRValid) && a.rValid && q.index == q.addrOffset

def stepIdle (q : AxiAdapter burst) (r : AdapterReq burst) (a : AxiResp) : AxiAdapter burst :=
  let d := { q with cnt := 0 }
  if r.req then
    if r.we then
      if r.type == .singleReq then
        { d with
          state := match a.awReady, a.wReady with
            | true, true => .waitBValid
            | false, true => .waitAwReady
            | true, false => .waitLastWReady
            | false, false => .idle
          amo := if a.awReady then r.amo else q.amo
          size := if a.awReady then r.size else q.size }
      else
        { d with
          -- `BURST_SIZE - 1` is taken in the width of the counter
          cnt := if a.wReady then (burst + cntMod burst - 1) % cntMod burst else burst
          state := match a.awReady, a.wReady with
            | true, _ => .waitLastWReady
            | false, true => .waitLastWReadyAwReady
            | false, false => .idle }
    else
      let d := { d with cnt := if r.type == .singleReq then 0 else burst }
      if a.arReady then
        { d with
          state := if r.type == .singleReq then .waitRValid else .waitRValidMultiple
          addrOffset := r.addr.dword % cntMod burst }
      else d
  else d

/-- A read beat: keep the word, count it, and complete on the last one. -/
def stepRead (q : AxiAdapter burst) (a : AxiResp) : AxiAdapter burst :=
  if a.rValid then
    { q with
      state := if a.rLast then .completeRead else q.state
      dirty := if a.rLast then a.rDirty else q.dirty
      shared := if a.rLast then a.rShared else q.shared
      cacheLine := fun k =>
        if k.val = (if q.state == .waitRValidMultiple then q.index else 0) then a.rData else q.cacheLine k
      cnt := (q.cnt + cntMod burst - 1) % cntMod burst }
  else q

def stepState (q : AxiAdapter burst) (r : AdapterReq burst) (a : AxiResp) : AxiAdapter burst :=
  match q.state with
  | .idle => q.stepIdle r a
  | .waitAwReady =>
    if a.awReady then { q with state := .waitBValid, amo := r.amo, size := r.size } else q
  | .waitLastWReadyAwReady =>
    match a.awReady, a.wReady with
    | false, true => if q.cnt = 0 then { q with state := .waitAwReadyBurst } else { q with cnt := q.cnt - 1 }
    | true, false => { q with state := .waitLastWReady }
    | true, true =>
      if q.cnt = 0 then { q with state := .waitBValid } else { q with state := .waitLastWReady, cnt := q.cnt - 1 }
    | false, false => q
  | .waitAwReadyBurst => if a.awReady then { q with state := .waitBValid } else q
  | .waitLastWReady =>
    if a.wReady then (if q.cnt = 0 then { q with state := .waitBValid } else { q with cnt := q.cnt - 1 }) else q
  | .waitBValid =>
    if a.bValid then
      { q with state := if amoReturnsData q.amo && !a.rValid then .waitAmoRValid else .idle } else q
  | .waitAmoRValid => if a.rValid then { q with state := .idle } else q
  | .waitRValidMultiple | .waitRValid => q.stepRead a
  | .completeRead => { q with state := .idle }

/-- Next registers, with RACK and WACK raised the cycle after the R and B handshakes. -/
def step (q : AxiAdapter burst) (r : AdapterReq burst) (a : AxiResp) : AxiAdapter burst :=
  let o := q.axiReq r a
  { q.stepState r a with rack := o.rReady && a.rValid, wack := o.bReady && a.bValid }

end AxiAdapter
end Culsans.Dcache
