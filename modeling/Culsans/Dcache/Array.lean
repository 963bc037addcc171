import Culsans.Dcache.Package

/-! # Memory arrays and the array arbiter

The tag and data SRAMs of each way and the shared valid/dirty/shared SRAM are one
table of lines, written through the byte and bit enables of `cl_be_t`. Every read
port is registered, as in `tc_sram`: a write or an idle cycle re-reads the last
address. `tag_cmp` grants the array to the first requester in port order.
-/

namespace Culsans.Dcache

abbrev CacheArray := Index → Way → CacheLine

/-- What one requester drives towards the array. -/
structure ArrayPort where
  req : WaySet
  addr : Index
  we : Bool
  be : ClBe
  wdata : CacheLine

namespace ArrayPort

def idle : ArrayPort := ⟨noWay, 0, false, .none, .zero⟩

/-- A full-set lookup. -/
def lookup (addr : Index) : ArrayPort := { idle with req := allWays, addr := addr }

def active (p : ArrayPort) : Bool := anyWay p.req

@[simp] theorem active_idle : idle.active = false := by simp [active, idle]
@[simp] theorem active_lookup (a : Index) : (lookup a).active = true := by simp [active, lookup, idle]
@[simp] theorem lookup_addr (a : Index) : (lookup a).addr = a := rfl
@[simp] theorem lookup_we (a : Index) : (lookup a).we = false := rfl
@[simp] theorem lookup_req (a : Index) : (lookup a).req = allWays := rfl
@[simp] theorem idle_we : idle.we = false := rfl

end ArrayPort

/-- One way of the addressed set under the enables; the status bits have no way select. -/
def CacheLine.write (l : CacheLine) (p : ArrayPort) (w : Way) : CacheLine where
  tag := if p.req w && p.be.tag then p.wdata.tag else l.tag
  data := fun b => if p.req w && p.be.data b then p.wdata.data b else l.data b
  dirty := fun b => if (p.be.vldrty w).dirty b then p.wdata.dirty b else l.dirty b
  valid := if (p.be.vldrty w).valid then p.wdata.valid else l.valid
  shared := if (p.be.vldrty w).shared then p.wdata.shared else l.shared

def CacheArray.write (a : CacheArray) (p : ArrayPort) : CacheArray :=
  fun idx w => if p.active && p.we && idx == p.addr then (a idx w).write p w else a idx w

theorem CacheArray.write_of_not_we {a : CacheArray} {p : ArrayPort} (h : p.we = false) :
    a.write p = a := by
  funext idx w; simp [CacheArray.write, h]

theorem CacheArray.write_other {a : CacheArray} {p : ArrayPort} {idx : Index} (h : idx ≠ p.addr)
    (w : Way) : a.write p idx w = a idx w := by
  simp [CacheArray.write, h]

/-- The registered read side: latched data and the address each SRAM re-reads. -/
structure ReadRegs where
  rdata : Way → CacheLine
  raddr : Way → Index
  raddrStatus : Index

def ReadRegs.step (r : ReadRegs) (a : CacheArray) (p : ArrayPort) : ReadRegs where
  rdata w :=
    let mem := a (if p.req w && !p.we then p.addr else r.raddr w) w
    let st := a (if p.active && !p.we then p.addr else r.raddrStatus) w
    ⟨mem.tag, mem.data, st.dirty, st.valid, st.shared⟩
  raddr w := if p.req w && !p.we then p.addr else r.raddr w
  raddrStatus := if p.active && !p.we then p.addr else r.raddrStatus

/-- A full-set lookup is answered with the whole set as it was in the lookup cycle. -/
theorem ReadRegs.step_lookup (r : ReadRegs) (a : CacheArray) {p : ArrayPort} (hr : p.req = allWays)
    (hw : p.we = false) (w : Way) : (r.step a p).rdata w = a p.addr w := by
  simp [step, ArrayPort.active, hr, hw, allWays]

namespace TagCmp

/-- Array ports in priority order: miss handler, snoop controller, PTW, load, store. -/
abbrev Port := Fin 5

/-- `gnt_o`: no port before `k` requests. -/
def gnt (ports : Port → ArrayPort) (k : Port) : Bool :=
  decide (∀ j : Port, j < k → (ports j).active = false)

/-- The port the priority loop stops at; the last one when nobody requests. -/
def selected (ports : Port → ArrayPort) : Port :=
  if (ports 0).active then 0 else if (ports 1).active then 1 else
    if (ports 2).active then 2 else if (ports 3).active then 3 else 4

/-- `hit_way_o` for the tag presented by the port looked up in the previous cycle. -/
def hitWay (rdata : Way → CacheLine) (tag : Tag) : WaySet :=
  fun w => tag == (rdata w).tag && (rdata w).valid

theorem gnt_iff {ports : Port → ArrayPort} {k : Port} :
    gnt ports k = true ↔ ∀ j, j < k → (ports j).active = false := by
  simp only [gnt, decide_eq_true_eq]

theorem gnt_zero (ports : Port → ArrayPort) : gnt ports 0 = true :=
  gnt_iff.mpr fun j h => absurd h (Fin.not_lt_zero j)

theorem hitWay_iff {rdata : Way → CacheLine} {tag : Tag} {w : Way} :
    hitWay rdata tag w = true ↔ (rdata w).tag = tag ∧ (rdata w).valid = true := by
  rw [hitWay, Bool.and_eq_true, beq_iff_eq, eq_comm]

/-- A granted requester is the selected port. -/
theorem selected_of_gnt {ports : Port → ArrayPort} {k : Port} (hg : gnt ports k = true)
    (ha : (ports k).active = true) : selected ports = k := by
  have hlt := gnt_iff.mp hg
  have h0 := hlt 0
  have h1 := hlt 1
  have h2 := hlt 2
  have h3 := hlt 3
  fin_cases k <;> simp_all [selected]

/-- If the selected port requests, every port before it is idle. -/
theorem gnt_selected (ports : Port → ArrayPort) : gnt ports (selected ports) = true := by
  rw [gnt_iff]
  intro j
  unfold selected
  split_ifs <;> fin_cases j <;> simp_all

end TagCmp
end Culsans.Dcache
