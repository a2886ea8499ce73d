import Mc68k.Proofs.Execution.Act
import Mc68k.Proofs.Memory.ReadOnly

namespace Mc68k

namespace Machine

/-- The memory of a machine, if it is mapped, after requests of the kind that a running machine
has. -/
def Asks (m m' : Machine) : Prop :=
  ∀ map, m.memory = .mapped map →
    ∃ requests, (∀ r ∈ requests, r.IsGuest) ∧ m'.memory = .mapped (map.run requests)

namespace Asks

theorem of_memory_eq {m m' : Machine} (h : m'.memory = m.memory) : Asks m m' := by
  intro map hmap
  exact ⟨[], by simp, h.trans hmap⟩

theorem refl (m : Machine) : Asks m m := of_memory_eq rfl

theorem trans {m m' m'' : Machine} (h : Asks m m') (h' : Asks m' m'') : Asks m m'' := by
  intro map hmap
  obtain ⟨first, hfirst, hmap'⟩ := h map hmap
  obtain ⟨second, hsecond, hmap''⟩ := h' _ hmap'
  refine ⟨first ++ second, ?_, ?_⟩
  · simpa only [List.forall_mem_append] using ⟨hfirst, hsecond⟩
  · rw [hmap'', MemoryMap.run, MemoryMap.run, MemoryMap.run, List.foldl_append]

theorem congr {m m' m'' : Machine} (h : Asks m m') (heq : m''.memory = m'.memory) : Asks m m'' :=
  h.trans (of_memory_eq heq)

theorem single {m m' : Machine} (r : MemoryMap.Request) (hguest : r.IsGuest)
    (h : ∀ map, m.memory = .mapped map → m'.memory = .mapped (map.serve r)) : Asks m m' := by
  intro map hmap
  exact ⟨[r], by simpa using hguest, h map hmap⟩

theorem request (m : Machine) (addr : Address) (n : Nat) (fc : FunctionCode) (access : Access) :
    Asks m (m.request addr n fc access).2 := by
  refine single (.translate addr n fc access) trivial ?_
  intro map hmap
  rw [Machine.request, hmap, MemoryMap.request_mapped]
  rfl

theorem store (m : Machine) (addr : Address) (bytes : List UInt8) (fc : FunctionCode) :
    Asks m (m.store addr bytes fc).2 := by
  refine single (.write addr bytes fc .write) rfl ?_
  intro map hmap
  simp only [Machine.store, Machine.request, hmap, MemoryMap.request_mapped, MemoryMap.serve]
  cases (map.request addr bytes.length fc .write).1 <;> rfl

theorem load (m : Machine) (addr : Address) (size : Size) (fc : FunctionCode) :
    Asks m (m.load addr size fc).2 :=
  request m addr size.bytes fc .read

end Asks

theorem Act.asks {waits : Prop} {m m' : Machine} (h : Act waits m m') : Asks m m' := by
  cases h with
  | write addr size value fc ha h =>
    have hstore := Asks.store m addr (toBigEndian value size) fc
    have hn := length_toBigEndian value size
    rw [store_of_admits m addr _ _ (by rw [hn]; exact h)] at hstore
    exact hstore
  | _ => exact .of_memory_eq rfl

instance : IsPreorder Machine Asks where
  refl := .refl
  trans _ _ _ := .trans

theorem Acts.asks {waits : Prop} {m m' : Machine} (h : Acts waits m m') : Asks m m' :=
  h.keeps fun _ _ => Act.asks

theorem asks_enterHandler (m : Machine) (e : Exception) : Asks m (m.enterHandler e) := by
  have hload := Asks.load m (m.vectorAddress e) .long .supervisorData
  rw [enterHandler]
  split
  next hr =>
    rw [hr] at hload
    split
    · exact hload.congr rfl
    · exact hload.congr rfl
  next hr =>
    rw [hr] at hload
    exact hload.congr rfl

theorem asks_reset (m : Machine) : Asks m m.reset := by
  have hfirst (m : Machine) := Asks.load m 0 .long .supervisorProgram
  have hsecond (m : Machine) := Asks.load m 4 .long .supervisorProgram
  rw [reset]
  simp only
  split
  · exact ((Asks.of_memory_eq rfl).trans ((hfirst _).trans (hsecond _))).congr rfl
  · exact ((Asks.of_memory_eq rfl).trans ((hfirst _).trans (hsecond _))).congr rfl

end Machine

end Mc68k
