import Culsans.Icache.Cva6Icache
import Culsans.Library.Machine

/-! # Requests, translations and returns of the instruction cache

What has been asked for and what memory has returned, as an observer at the ports sees it.
-/

namespace Culsans.Icache
open Library

/-- A return of memory, with the request that it answers. -/
structure Return where
  paddr : BitVec 56
  nc : Bool
  data : Line

/-- The address that is asked for to fetch from `p`. -/
def requestAddr (c : ArianeCfg) (nc : Bool) (p : BitVec 56) : BitVec 56 :=
  if nc then if c.axiCompliant then p.extractLsb' 3 53 ++ 0#3 else p.extractLsb' 2 54 ++ 0#2
  else p.extractLsb' 4 52 ++ 0#4

/-- Where the word of `p` lies in a return: an access of one word gives the two words around
it, or the word in each place. -/
def returnOffset (c : ArianeCfg) (nc : Bool) (p : BitVec 56) : BitVec 4 :=
  if nc && c.axiCompliant then 0#1 ++ p.extractLsb' 2 1 ++ 0#2 else p.extractLsb' 2 2 ++ 0#2

/-- The return holds the word of `p`. -/
def Return.Gives (c : ArianeCfg) (r : Return) (p : BitVec 56) (w : BitVec 32) : Prop :=
  r.paddr = requestAddr c r.nc p ∧ w = wordOf r.data (returnOffset c r.nc p)

/-- What the observer knows: whether a request waits for its answer and has not been killed, its
translation, the memory request that has not been answered, and what memory has returned since
the last completed flush. -/
structure Ledger where
  live : Bool
  paddr : Option (BitVec 56)
  outstanding : Option IcacheReq
  sent : ℕ
  consumed : ℕ
  returns : List Return
  cleared : Bool

namespace Ledger

def empty : Ledger := ⟨false, none, none, 0, 0, [], false⟩

variable (c : ArianeCfg) (l : Ledger) (q : Cva6Icache) (i : IcacheIn)

/-- A request is accepted. -/
def accepts : Bool := (q.fsm c i).ready && i.req

/-- A memory request is accepted. -/
def sends : Bool := (q.fsm c i).memDataReq && i.memDataAck

/-- A return is taken. -/
def consumes : Bool := i.ifillAck && (q.state == .miss || q.state == .killMiss)

/-- A flush is completed. -/
def clears : Bool := (q.fsm c i).flushEn && q.flushDone

/-- The translation of the request. -/
def translated : Option (BitVec 56) :=
  if q.state == .read && (i.fetchValid && !i.fetchException) then some i.fetchPaddr else l.paddr

/-- The return of this cycle. -/
def returnNow : List Return :=
  match l.outstanding with
  | some o => if i.ifillAck then [⟨o.paddr, o.nc, i.memRtrn.data⟩] else []
  | none => []

def watch : Ledger where
  live := if accepts c q i then !i.killS1 else l.live && !(i.killS2 || i.flush) && !(q.fsm c i).valid
  paddr := if accepts c q i then none else l.translated q i
  outstanding := if sends c q i then some (q.memData c i) else if i.ifillAck then none else l.outstanding
  sent := l.sent + (sends c q i).toNat
  consumed := l.consumed + (consumes q i).toNat
  returns := if clears c q i then [] else l.returns ++ l.returnNow i
  cleared := l.cleared || clears c q i

end Ledger

/-- The cache with its observer. -/
def icache (c : ArianeCfg) : Machine (Cva6Icache × Ledger) IcacheIn :=
  Machine.observe ⟨Cva6Icache.Init, Cva6Icache.step c⟩ .empty (Ledger.watch c)

/-- The surroundings of the cache: memory returns what has been asked for, once, and nothing else; a
translation comes when it is asked for, keeps the offset of the word in the page, and is the same as long as the
request lasts; and the cache is enabled without a flush only during one, as after a reset. -/
structure Env (c : ArianeCfg) (x : Cva6Icache × Ledger) (i : IcacheIn) : Prop where
  noInval : i.memRtrnVld = true → i.memRtrn.rtype = .icacheIfillAck
  answers : i.memRtrnVld = true → x.2.outstanding.isSome = true
  fetchReq : i.fetchValid = true → (x.1.fsm c i).fetchReq = true
  offset : x.1.state = .read → i.fetchValid = true → i.fetchException = false →
    i.fetchPaddr.extractLsb' 2 10 = x.1.fetchVaddr.extractLsb' 2 10
  same : x.1.state = .read → i.fetchValid = true → i.fetchException = false → ∀ p ∈ x.2.paddr, i.fetchPaddr = p
  enable : i.initN = true → i.en = true → x.1.cacheEn = true ∨ x.1.state = .flush

theorem all_eq {o : Option (BitVec 56)} {p : BitVec 56} : (o.all fun r => p == r) = true ↔ ∀ r ∈ o, p = r := by
  cases o <;> simp

instance {c : ArianeCfg} {x : Cva6Icache × Ledger} {i : IcacheIn} : Decidable (Env c x i) :=
  decidable_of_iff ((i.memRtrnVld = true → i.memRtrn.rtype = .icacheIfillAck) ∧
      (i.memRtrnVld = true → x.2.outstanding.isSome = true) ∧
      (i.fetchValid = true → (x.1.fsm c i).fetchReq = true) ∧
      (x.1.state = .read → i.fetchValid = true → i.fetchException = false →
        i.fetchPaddr.extractLsb' 2 10 = x.1.fetchVaddr.extractLsb' 2 10) ∧
      (x.1.state = .read → i.fetchValid = true → i.fetchException = false →
        (x.2.paddr.all fun p => i.fetchPaddr == p) = true) ∧
      (i.initN = true → i.en = true → x.1.cacheEn = true ∨ x.1.state = .flush))
    ⟨fun ⟨a, b, d, e, f, g⟩ => ⟨a, b, d, e, fun h1 h2 h3 => all_eq.mp (f h1 h2 h3), g⟩,
      fun ⟨a, b, d, e, f, g⟩ => ⟨a, b, d, e, fun h1 h2 h3 => all_eq.mpr (f h1 h2 h3), g⟩⟩

end Culsans.Icache
