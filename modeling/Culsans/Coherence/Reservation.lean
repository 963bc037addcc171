import Culsans.Coherence.Transactions

/-! # Load-reserved and store-conditional

The cores once more, now in steps of one transaction of the coherence unit, one
write-back or one hit each, in front of the memory-side wrapper that keeps one
reservation for every AXI user id. A transaction is shareable throughout, as the
coherence unit sees no other.
-/

namespace Culsans.Coherence
open Dcache Library

/-- A line of memory, by tag and index. -/
abbrev Line := Tag × Index

def lineOf (l : PAddr) : Line := (l.tag, l.index)

instance {l l' : PAddr} : Decidable (Same l l') := inferInstanceAs (Decidable (_ ∧ _))

theorem lineOf_eq {l l' : PAddr} : lineOf l' = lineOf l ↔ Same l l' := Prod.mk_inj

/-- The reservations of the atomics wrapper, by AXI user id. -/
abbrev ResTable := ℕ → Option Line

namespace ResTable

/-- An exclusive read. -/
def set (r : ResTable) (u : ℕ) (x : Line) : ResTable := Function.update r u (some x)

/-- An accepted write clears the reservations of its line, whoever holds them. -/
def clear (r : ResTable) (x : Line) : ResTable := fun u => if r u = some x then none else r u

def clearAll (r : ResTable) (xs : List Line) : ResTable := xs.foldl clear r

theorem clearAll_eq {r : ResTable} {xs : List Line} {u : ℕ} {x : Line} :
    r.clearAll xs u = some x ↔ r u = some x ∧ x ∉ xs := by
  induction xs generalizing r with
  | nil => simp [clearAll]
  | cons y ys ih =>
    rw [show r.clearAll (y :: ys) = (r.clear y).clearAll ys from rfl, ih, clear, List.mem_cons]
    split_ifs with hy
    · rw [hy]
      simp only [Option.some.injEq]
      tauto
    · constructor
      · rintro ⟨hx, hn⟩
        exact ⟨hx, by rintro (rfl | hm) <;> tauto⟩
      · tauto

end ResTable

/-- The id of a transaction behind a mux: the port above the `w` id bits of the master. -/
def muxId (w port id : ℕ) : ℕ := port * 2 ^ w + id

/-- The AXI user id that ace_ccu_top takes from the id of a transaction of the coherence unit. -/
def ccuUser (n w id : ℕ) : ℕ := id / 2 ^ w % 2 ^ Nat.clog 2 n

/-- The user id is the number of the core. -/
theorem ccuUser_muxId {n w port id : ℕ} (hp : port < n) (hi : id < 2 ^ w) :
    ccuUser n w (muxId w port id) = port := by
  have hport : (port * 2 ^ w + id) / 2 ^ w = port := by
    rw [mul_comm, Nat.mul_add_div (Nat.two_pow_pos w), Nat.div_eq_of_lt hi, Nat.add_zero]
  rw [ccuUser, muxId, hport]
  exact Nat.mod_eq_of_lt (hp.trans_le (Nat.le_pow_clog (by decide) n))

namespace System
variable {N : ℕ}

/-! ### The lines whose writes memory accepts -/

/-- WRITE_BACK_MEM_R/W of an invalidation. -/
def ccuBack (s : System N) (i : Fin N) (l : PAddr) : List Line :=
  if s.dataAvailable i .cleanInvalid l then [lineOf l] else []

def evictBack (s : System N) (i : Fin N) (idx : Index) (w : Way) : List Line :=
  if (s.cache i idx w).valid && anyByte (s.cache i idx w).dirty then [((s.cache i idx w).tag, idx)] else []

def flushBack (s : System N) (i : Fin N) (idx : Index) : List Line :=
  let d := MissHandler.step { MissHandler.reset with state := .flushing, cnt := idx }
    (missIn (s.cache i) idx ⟨0, 0, 0⟩)
  if d.state = .wbCachelineFlush then [(d.evictCl.tag, d.cnt)] else []

def dropBack (s : System N) (i : Fin N) (l : PAddr) : List Line :=
  let d := MissHandler.step { MissHandler.reset with state := .amoWb, serveAmo := true }
    (missIn (s.cache i) l.index l)
  if d.state = .wbCachelineAmo then [(d.evictCl.tag, d.cnt)] else []

/-- The transaction of a miss, from REQ_CACHELINE to SAVE_CACHELINE in way `w`. -/
def refillWay (c : Cfg) (s : System N) (i : Fin N) (m : Mshr) (w : Way) (first : Fin N) : System N :=
  let d := { MissHandler.reset with state := .reqCacheline, mshr := m, evictWay := oneHot w }
  let r := s.fetch c i d first
  r.1.setCache i ((r.1.cache i).write (d.saveWrite r.2))

end System

/-- The cores, their memory and the reservations. -/
structure Cores (N : ℕ) where
  sys : System N
  /-- AMO_WB has been passed for this address and the atomic is not answered yet -/
  serving : Fin N → Option PAddr
  /-- CLEAN_UNIQUE has been answered and the store of this address has not been written yet -/
  mayStore : Fin N → Option PAddr
  table : ResTable

/-- One transaction, write-back or hit. -/
inductive Act (N : ℕ)
  /-- a load hit, or a load that is not cached -/
  | load (i : Fin N) (l : PAddr)
  | store (i : Fin N) (l : PAddr) (be : WordBe) (wdata : Word)
  /-- CLEAN_UNIQUE -/
  | upgrade (i : Fin N) (l : PAddr) (first : Fin N)
  /-- READ_SHARED or READ_UNIQUE, with the fill -/
  | refill (i : Fin N) (m : Mshr) (w : Way) (first : Fin N)
  | evict (i : Fin N) (idx : Index) (w : Way)
  | flush (i : Fin N) (idx : Index)
  | amoWb (i : Fin N) (l : PAddr)
  | lr (i : Fin N) (id : ℕ) (first : Fin N)
  /-- a store-conditional that changes the line by `f` -/
  | sc (i : Fin N) (id : ℕ) (first : Fin N) (f : LineData → LineData)
  | amo (i : Fin N) (id : ℕ) (first : Fin N) (f : LineData → LineData)
  /-- WRITE_UNIQUE of a store that is not cached -/
  | writeUnique (i : Fin N) (l : PAddr) (first : Fin N) (f : LineData → LineData)

namespace Cores
variable {N : ℕ}

/-- The miss handler of a core does one thing at a time, fills a way that holds nothing to be
written back, and a store is written only to an unshared line or after CLEAN_UNIQUE. A store that is not
cached does not look at the array. -/
def may (c : Cfg) (w : ℕ) (s : Cores N) : Act N → Prop
  | .load _ _ | .writeUnique _ _ _ _ => True
  | .store i l _ _ => anyWay (s.sys.hitWay i l) = true ∧
      ((anyWay fun v => !(s.sys.cache i l.index v).shared && s.sys.hitWay i l v) = true ∨
        (s.mayStore i).map lineOf = some (lineOf l))
  | .upgrade i l _ => s.serving i = none ∧ anyWay (s.sys.hitWay i l) = true
  | .refill i m v _ => s.serving i = none ∧ anyWay (s.sys.hitWay i m.addr) = false ∧
      c.isInsideShareableRegions m.addr = true ∧
      ((s.sys.cache i m.addr.index v).valid && anyByte (s.sys.cache i m.addr.index v).dirty) = false
  | .evict i _ _ | .flush i _ | .amoWb i _ => s.serving i = none
  | .lr i id _ | .sc i id _ _ | .amo i id _ _ => (s.serving i).isSome = true ∧ id < 2 ^ w

/-- The wrapper's answer to a store-conditional: the CCU's write-back of the line comes first. -/
def exokay (w : ℕ) (s : Cores N) (i : Fin N) (id : ℕ) : Bool :=
  match s.serving i with
  | none => false
  | some l => s.table.clearAll (s.sys.ccuBack i l) (ccuUser N w (muxId w i id)) == some (lineOf l)

/-- What the store-conditional returns to the core. -/
def scResult (w : ℕ) (s : Cores N) (i : Fin N) (id : ℕ) (size : BitVec 2) : Word :=
  if s.exokay w i id then fun _ => 0 else AxiAdapter.scFailure size

/-- The invalidations before a write, and the write. -/
def writeThrough (s : System N) (i : Fin N) (l : PAddr) (first : Fin N) (f : LineData → LineData) : System N :=
  let t := s.invalidateOthers i l first
  t.writeMem l (fun _ => true) (f (t.mem l.tag l.index))

/-- The caches and memory after a step. -/
def sysAfter (c : Cfg) (w : ℕ) (s : Cores N) : Act N → System N
  | .load _ _ => s.sys
  | .store i l be wdata => s.sys.storeHit i l be wdata
  | .upgrade i l first => s.sys.invalidateOthers i l first
  | .refill i m v first => s.sys.refillWay c i m v first
  | .evict i idx v => s.sys.evict c i idx v
  | .flush i idx => s.sys.flushSet c i idx
  | .amoWb i l => s.sys.dropOwn c i l
  | .lr i _ first =>
    match s.serving i with
    | none => s.sys
    | some l => s.sys.invalidateOthers i l first
  | .sc i id first f =>
    match s.serving i with
    | none => s.sys
    | some l => if s.exokay w i id then writeThrough s.sys i l first f else s.sys.invalidateOthers i l first
  | .amo i _ first f =>
    match s.serving i with
    | none => s.sys
    | some l => writeThrough s.sys i l first f
  | .writeUnique i l first f => writeThrough s.sys i l first f

/-- The lines of the writes that memory accepts in a step. -/
def written (w : ℕ) (s : Cores N) : Act N → List Line
  | .load _ _ | .store _ _ _ _ | .refill _ _ _ _ => []
  | .upgrade i l _ => s.sys.ccuBack i l
  | .evict i idx v => s.sys.evictBack i idx v
  | .flush i idx => s.sys.flushBack i idx
  | .amoWb i l => s.sys.dropBack i l
  | .lr i _ _ =>
    match s.serving i with
    | none => []
    | some l => s.sys.ccuBack i l
  | .sc i id _ _ =>
    match s.serving i with
    | none => []
    | some l => s.sys.ccuBack i l ++ if s.exokay w i id then [lineOf l] else []
  | .amo i _ _ _ =>
    match s.serving i with
    | none => []
    | some l => s.sys.ccuBack i l ++ [lineOf l]
  | .writeUnique i l _ _ => s.sys.ccuBack i l ++ [lineOf l]

/-- The write-backs and writes clear, the exclusive read of an LR sets. -/
def tableAfter (w : ℕ) (s : Cores N) (a : Act N) : ResTable :=
  let r := s.table.clearAll (s.written w a)
  match a with
  | .lr i id _ =>
    match s.serving i with
    | none => r
    | some l => r.set (ccuUser N w (muxId w i id)) (lineOf l)
  | _ => r

def servingAfter (s : Cores N) : Act N → Fin N → Option PAddr
  | .amoWb i l => Function.update s.serving i (some l)
  | .lr i _ _ | .sc i _ _ _ | .amo i _ _ _ => Function.update s.serving i none
  | _ => s.serving

/-- The permission goes with the copy, with a ReadShared of the line, and with the store. -/
def mayStoreAfter (c : Cfg) (w : ℕ) (s : Cores N) (a : Act N) : Fin N → Option PAddr :=
  let p : Fin N → Option PAddr :=
    match a with
    | .store i _ _ _ => Function.update s.mayStore i none
    | .upgrade i l _ => Function.update s.mayStore i (some l)
    | .refill _ m _ _ => fun j => (s.mayStore j).filter fun l => !decide (lineOf l = lineOf m.addr)
    | _ => s.mayStore
  fun j => (p j).filter fun l => anyWay ((s.sysAfter c w a).hitWay j l)

def act (c : Cfg) (w : ℕ) (s : Cores N) (a : Act N) : Cores N where
  sys := s.sysAfter c w a
  serving := s.servingAfter a
  mayStore := s.mayStoreAfter c w a
  table := s.tableAfter w a

/-- A store, an AMO or a store-conditional of core `j` that writes bytes of the line. -/
def performs (w : ℕ) (s : Cores N) (x : Line) (j : Fin N) : Act N → Prop
  | .store i l be _ => i = j ∧ lineOf l = x ∧ ∃ k, be k = true
  | .refill i m _ _ => i = j ∧ lineOf m.addr = x ∧ m.we = true ∧ ∃ k, m.be k = true
  | .amo i _ _ _ => i = j ∧ (s.serving i).map lineOf = some x
  | .sc i id _ _ => i = j ∧ (s.serving i).map lineOf = some x ∧ s.exokay w i id = true
  | .writeUnique i l _ _ => i = j ∧ lineOf l = x
  | _ => False

/-- Nothing is cached, asked for or reserved after reset. -/
structure IsReset (s : Cores N) : Prop where
  cache : ∀ j idx v, (s.sys.cache j idx v).valid = false
  serving : ∀ j, s.serving j = none
  mayStore : ∀ j, s.mayStore j = none
  table : ∀ u, s.table u = none

def machine (c : Cfg) (w N : ℕ) : Machine (Cores N) (Act N) := ⟨IsReset, act c w⟩

end Cores
end Culsans.Coherence
