import Mc68k.Proofs.Execution.Requests
import Mc68k.Proofs.Host.NewPtr

namespace Mc68k

namespace Machine

theorem Asks.heap {m m' : Machine} (request : Heap.Request)
    (h : ∀ map, m.memory = .mapped map →
      m'.memory = .mapped { map with heap := map.heap.serve request }) : Asks m m' :=
  single (.heap request) trivial h

/-- A machine after a host call: besides its memory, by requests, the call has set registers that
are a program's own. -/
structure Serves (m m' : Machine) : Prop where
  asks : Asks m m'
  model : m'.model = m.model
  regs : m.regs.SameSystem m'.regs

namespace Serves

theorem refl (m : Machine) : Serves m m := ⟨.refl m, rfl, .refl _⟩

theorem trans {m m' m'' : Machine} (h : Serves m m') (h' : Serves m' m'') : Serves m m'' :=
  ⟨h.asks.trans h'.asks, h'.model.trans h.model, h.regs.trans h'.regs⟩

instance : IsPreorder Machine Serves where
  refl := .refl
  trans _ _ _ := .trans

theorem memory {m : Machine} {memory : Memory} (h : Asks m { m with memory }) :
    Serves m { m with memory } :=
  ⟨h, rfl, .refl _⟩

theorem modifyRegs (m : Machine) {f : Registers → Registers}
    (h : ∀ r : Registers, r.SameSystem (f r)) : Serves m (Host.modifyRegs m f) :=
  ⟨.of_memory_eq rfl, rfl, h m.regs⟩

theorem request (m : Machine) (addr : Address) (n : Nat) (fc : FunctionCode) (access : Access) :
    Serves m (m.request addr n fc access).2 :=
  ⟨.request m addr n fc access, rfl, .refl _⟩

theorem store (m : Machine) (addr : Address) (bytes : List UInt8) (fc : FunctionCode) :
    Serves m (m.store addr bytes fc).2 := by
  have hasks := Asks.store m addr bytes fc
  cases h : m.memory.admits addr bytes.length fc .write with
  | false =>
    rw [store_of_not_admits m addr bytes fc h] at hasks ⊢
    exact ⟨hasks, rfl, .refl _⟩
  | true =>
    rw [store_of_admits m addr bytes fc h] at hasks ⊢
    exact ⟨hasks, rfl, .refl _⟩

end Serves

end Machine

/-- Calls that serve the machine and do nothing else to it. -/
def CallbackTable.Serves (table : CallbackTable) : Prop :=
  ∀ n m, Machine.Serves m (table.invoke n m).2

theorem CallbackTable.serves_empty : empty.Serves := fun _ m => .refl m

namespace Host

open Machine (Asks Serves)
open Registers (SameSystem)

theorem asks_allocate {m : Machine} {n : Nat} {addr : Address} {memory : Memory}
    (h : m.memory.allocate? n = some (addr, memory)) : Asks m { m with memory } := by
  refine .heap (.allocate (UInt32.ofNat n)) ?_
  intro map hmap
  rw [hmap, allocate?_mapped, Option.map_eq_some_iff] at h
  obtain ⟨⟨addr', heap⟩, halloc, hfound⟩ := h
  obtain ⟨rfl, rfl⟩ := Prod.mk.inj hfound
  have hfits : pageRound n ≤ map.heap.size.toNat := by
    rw [Heap.allocate?] at halloc
    split at halloc
    · assumption
    · cases halloc
  have hn : (UInt32.ofNat n).toNat = n := by
    have hround := (pagesFor_pageRound n).le
    have hsize := map.heap.size.toNat_lt
    rw [UInt32.toNat_ofNat', Nat.mod_eq_of_lt (by omega)]
  rw [Heap.serve, hn, halloc]
  rfl

theorem asks_deallocate {m : Machine} {addr : Address} {memory : Memory}
    (h : m.memory.deallocate? addr = some memory) : Asks m { m with memory } := by
  refine .heap (.deallocate addr) ?_
  intro map hmap
  rw [hmap, Memory.deallocate?, Option.map_eq_some_iff] at h
  obtain ⟨heap, hfree, rfl⟩ := h
  have hfree' : map.heap.deallocate? addr = some heap := hfree
  rw [Heap.serve, hfree']
  rfl

theorem serves_allocate {m : Machine} {n : Nat} {addr : Address} {memory : Memory}
    (h : m.memory.allocate? n = some (addr, memory)) : Serves m { m with memory } :=
  .memory (asks_allocate h)

theorem serves_deallocate {m : Machine} {addr : Address} {memory : Memory}
    (h : m.memory.deallocate? addr = some memory) : Serves m { m with memory } :=
  .memory (asks_deallocate h)

theorem serves_newPtr (m : Machine) : Serves m (newPtr m).2 := by
  have hreport (m' : Machine) (addr : Address) (h : Serves m m') :
      Serves m (if addr = 0 then
        ((modifyRegs m' (·.setA .zero addr)).store memErr (toBigEndian memFullErr.toUInt32 .word)
          .supervisorData).2 else modifyRegs m' (·.setA .zero addr)) := by
    have hregs := h.trans (.modifyRegs m' fun r => .setA r .zero addr)
    split
    · exact hregs.trans (.store _ _ _ _)
    · exact hregs
  simp only [newPtr, resume]
  cases hr : m.memory.allocate? (m.regs.d .zero).toNat with
  | none => exact hreport m 0 (.refl m)
  | some found => exact hreport { m with memory := found.2 } found.1 (serves_allocate hr)

theorem serves_disposePtr (m : Machine) : Serves m (disposePtr m).2 := by
  simp only [disposePtr, resume]
  cases hr : m.memory.deallocate? (m.regs.a .zero) with
  | none => exact .refl m
  | some memory => exact serves_deallocate hr

theorem serves_copy (m : Machine) (source target : Address) (n : Nat) :
    Serves m (copy m source target n).2 := by
  have hread := Serves.request m source n .userData .read
  rw [copy]
  split
  next hr =>
    rw [hr] at hread
    exact hread
  next bytes m₁ hr =>
    rw [hr] at hread
    have hwrite := Serves.store m₁ target bytes .userData
    split
    next hw =>
      rw [hw] at hwrite
      exact hread.trans hwrite
    next m₂ hw =>
      rw [hw] at hwrite
      exact (hread.trans hwrite).trans (.request m₂ target n .userData .update)

theorem serves_blockMove (m : Machine) : Serves m (blockMove m).2 :=
  (serves_copy m _ _ _).trans (.modifyRegs _ fun r => .setD r _ _)

theorem serves_gestalt (m : Machine) : Serves m (gestalt m).2 :=
  .modifyRegs m fun r => (SameSystem.setD r _ _).trans (.setA _ _ _)

open Exec (Leads)

variable {m : Machine}

theorem serves_readPath (addr : Address) (n : Nat) : Leads Serves (readPath addr n) m := by
  refine .bind (.request m addr n .userData .read) fun found _ _ => ?_
  cases found with
  | none => exact .throw _
  | some bytes =>
    simp only
    cases pathOf? bytes with
    | none => exact .throw _
    | some path => exact .pure path

theorem serves_readFile (host : Host) (path : List UInt8) :
    Leads Serves (readFile host path) m := by
  rw [readFile]
  cases host.openFile path with
  | error e => exact .throw e
  | ok contents => exact .ite (fun _ => .throw _) fun _ => .pure contents

theorem serves_allocatePages (n : Nat) : Leads Serves (allocate n) m := by
  rw [Leads, allocate]
  cases hr : m.memory.allocate? n with
  | none => exact .refl m
  | some found => exact serves_allocate hr

theorem serves_fill (addr : Address) (contents : List UInt8) :
    Leads Serves (fill addr contents) m := by
  have hstore := Serves.store m addr contents .supervisorData
  rw [Leads, fill]
  split
  next hw =>
    rw [hw] at hstore
    exact hstore
  next m' hw =>
    rw [hw] at hstore
    cases hr : m'.memory.deallocate? addr with
    | none => exact hstore
    | some memory => exact hstore.trans (serves_deallocate hr)

theorem serves_loadFile (host : Host) (addr : Address) (n : Nat) :
    Leads Serves (loadFile host addr n) m := by
  have hload (m : Machine) : Leads Serves (do
      let path ← readPath addr n
      let contents ← readFile host path
      let target ← allocate contents.length
      fill target contents
      pure (target, contents.length) : Service (Address × Nat)) m :=
    .bind (serves_readPath addr n) fun path _ _ =>
      .bind (serves_readFile host path) fun contents _ _ =>
        .bind (serves_allocatePages _) fun target _ _ =>
          .bind (serves_fill target contents) fun _ _ _ => .pure _
  rw [loadFile]
  exact .ite (fun _ => .bind (.throw _) fun _ m' _ => hload m') fun _ => hload m

theorem serves_load (host : Host) (m : Machine) : Serves m (load host m).2 := by
  have hstart := Serves.modifyRegs m fun r => .setA r .zero 0
  have hfile : Serves m _ := hstart.trans (serves_loadFile host (m.regs.a .zero)
    (m.regs.d .zero).toNat)
  rw [load]
  split
  next hr =>
    rw [hr] at hfile
    exact hfile.trans (.modifyRegs _ fun r => (SameSystem.setA r _ _).trans (.setD _ _ _))
  next hr =>
    rw [hr] at hfile
    exact hfile.trans (.modifyRegs _ fun r => .setD r _ _)

theorem serves_handler (host : Host) (call : HostCall) (m : Machine) :
    Serves m (host.handler call m).2 := by
  cases call with
  | load => exact serves_load host m
  | newPtr => exact serves_newPtr m
  | disposePtr => exact serves_disposePtr m
  | blockMove => exact serves_blockMove m
  | gestalt => exact serves_gestalt m
  | _ => exact .refl m

theorem serves_table (host : Host) : (table host).Serves := by
  intro n m
  rw [CallbackTable.invoke]
  cases hfound : (table host).handler? n with
  | none => exact .refl m
  | some handler =>
    rw [CallbackTable.handler?, handlers_table, Option.map_eq_some_iff] at hfound
    obtain ⟨entry, hentry, rfl⟩ := hfound
    obtain ⟨call, -, rfl⟩ := List.mem_map.mp (List.mem_of_find?_eq_some hentry)
    exact serves_handler host call m

end Host

theorem CallbackTable.serves {table : CallbackTable}
    (h : table = empty ∨ ∃ host, table = Host.table host) : table.Serves := by
  obtain rfl | ⟨host, rfl⟩ := h
  · exact serves_empty
  · exact Host.serves_table host

end Mc68k
