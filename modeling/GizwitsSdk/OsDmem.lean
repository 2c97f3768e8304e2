import GizwitsSdk.Lib.Memory
import GizwitsSdk.Lib.Ring

/-!
# The dynamic memory pools of `os_dmem.c`

A pool is an area of memory cut into blocks. Each block starts with a header
that links it, both ways, into one circular list in address order; a small
trailer header that is never free ends the area. `osGetMem` takes the first
sufficient free block from a roving search pointer, `osFreeMem` gives a block
back and merges it with free neighbours.

Headers live in byte memory, control blocks outside the area. Pointers and
sizes are naturals below 2^32; `u32` and `sub32` mark where the code's own
arithmetic may wrap. Argument checks are compiled out (`OS_ARG_CHK_EN` is 0).
-/

namespace GizwitsSdk

open Lib

/-! ## Headers and control blocks -/

/-- `DM_HEADER`: next and previous at 0 and 4, the free byte at 8, the pool
pointer at 12. -/
structure DmHeader where
  dmNextMemory : Nat
  dmPreviousMemory : Nat
  dmMemoryFree : UInt8
  dmMemoryPool : Nat
  deriving DecidableEq, Repr

abbrev dmOverhead : Nat := 16

abbrev cTrue : UInt8 := 1
abbrev cFalse : UInt8 := 0

def hdr (m : Mem) (a : Nat) : DmHeader :=
  ⟨load32 m a, load32 m (a + 4), m (a + 8), load32 m (a + 12)⟩

def setNext (m : Mem) (a v : Nat) : Mem := store32 m a v
def setPrev (m : Mem) (a v : Nat) : Mem := store32 m (a + 4) v
def setFree (m : Mem) (a : Nat) (v : UInt8) : Mem := store8 m (a + 8) v
def setPool (m : Mem) (a v : Nat) : Mem := store32 m (a + 12) v

/-- `DM_PCB`, less the `dm_created` node, which nothing reads. -/
structure DmPcb where
  dmId : Nat
  dmName : List UInt8
  dmStartAddress : Nat
  dmPoolSize : Nat
  dmMinAllocation : Nat
  dmAvailable : Nat
  dmMemoryList : Nat
  dmSearchPtr : Nat

/-- Byte memory, the control blocks by their address, and `DMD_Total_Pools`. -/
structure Heap where
  mem : Mem
  pcb : Nat → DmPcb
  dmdTotalPools : Nat

def Heap.setPcb (s : Heap) (a : Nat) (p : DmPcb) : Heap :=
  { s with pcb := fun x => if x = a then p else s.pcb x }

def dmDynamicId : Nat := 0x44594e41

inductive OsErr
  | osErrNone
  | osErrMemFull
  deriving DecidableEq, Repr

def osCreateMemoryPool (s : Heap) (poolPtr : Nat) (name : List UInt8)
    (startAddress poolSize minAllocation : Nat) : Heap :=
  let poolSize := poolSize / 4 * 4
  let dmMinAllocation := u32 (minAllocation + 4 - 1) / 4 * 4
  let dmAvailable := sub32 poolSize (2 * dmOverhead)
  let headerPtr := startAddress
  let trailer := u32 (headerPtr + dmAvailable + dmOverhead)
  let m := setPool s.mem headerPtr poolPtr
  let m := setFree m headerPtr cTrue
  let m := setNext m headerPtr trailer
  let m := setPrev m headerPtr trailer
  let m := setNext m trailer startAddress
  let m := setPrev m trailer startAddress
  let m := setPool m trailer poolPtr
  let m := setFree m trailer cFalse
  { s with mem := m, dmdTotalPools := u32 (s.dmdTotalPools + 1) }.setPcb poolPtr
    { dmId := dmDynamicId, dmName := name.take 4, dmStartAddress := startAddress,
      dmPoolSize := poolSize, dmMinAllocation, dmAvailable, dmMemoryList := startAddress,
      dmSearchPtr := startAddress }

/-! ## Allocation -/

/-- The size searched for: at least the minimum, else rounded up to a word. -/
def requestSize (dmMinAllocation size : Nat) : Nat :=
  if size < dmMinAllocation then dmMinAllocation else u32 (size + 4 - 1) / 4 * 4

/-- The free bytes of a block; a block in use counts as 0. -/
def freeSize (m : Mem) (memoryPtr : Nat) : Nat :=
  let h := hdr m memoryPtr
  if h.dmMemoryFree ≠ 0 then sub32 (sub32 h.dmNextMemory memoryPtr) dmOverhead else 0

/-- A new free header at `newPtr` between `memoryPtr` and its next. -/
def splitBlock (m : Mem) (poolPtr memoryPtr newPtr : Nat) : Mem :=
  let m := setFree m newPtr cTrue
  let m := setPool m newPtr poolPtr
  let m := setPrev m newPtr memoryPtr
  let m := setNext m newPtr (hdr m memoryPtr).dmNextMemory
  let m := setPrev m (hdr m newPtr).dmNextMemory newPtr
  setNext m memoryPtr newPtr

def takeBlock (s : Heap) (poolPtr size memoryPtr freeSize : Nat) : Heap :=
  let pool := s.pcb poolPtr
  let split := u32 (size + dmOverhead + pool.dmMinAllocation) ≤ freeSize
  let m := if split then splitBlock s.mem poolPtr memoryPtr (u32 (memoryPtr + size + dmOverhead))
    else s.mem
  let dmAvailable := if split then sub32 (sub32 pool.dmAvailable size) dmOverhead
    else sub32 pool.dmAvailable freeSize
  let m := setFree m memoryPtr cFalse
  let dmSearchPtr := if pool.dmSearchPtr = memoryPtr then (hdr m memoryPtr).dmNextMemory
    else pool.dmSearchPtr
  { s with mem := m }.setPcb poolPtr { pool with dmAvailable, dmSearchPtr }

/-- `OS_GetMem`: the state, the status and `*return_pointer`. `none` when the
search has not ended within `fuel` headers. -/
def osGetMem (fuel : Nat) (s : Heap) (poolPtr size : Nat) : Option (Heap × OsErr × Nat) :=
  let pool := s.pcb poolPtr
  let size := requestSize pool.dmMinAllocation size
  match scan (fun p => (hdr s.mem p).dmNextMemory) (freeSize s.mem) size pool.dmSearchPtr fuel
      pool.dmSearchPtr with
  | none => none
  | some (memoryPtr, freeSize) =>
    if size ≤ freeSize then
      some (takeBlock s poolPtr size memoryPtr freeSize, .osErrNone, u32 (memoryPtr + dmOverhead))
    else some (s, .osErrMemFull, 0)

/-! ## Release -/

structure FreeSt where
  mem : Mem
  dmAvailable : Nat
  headerPtr : Nat
  dmSearchPtr : Nat

def markFree (m : Mem) (pool : DmPcb) (headerPtr : Nat) : FreeSt :=
  let m := setFree m headerPtr cTrue
  { mem := m
    dmAvailable :=
      sub32 (u32 (pool.dmAvailable + sub32 (hdr m headerPtr).dmNextMemory headerPtr)) dmOverhead
    headerPtr
    dmSearchPtr := pool.dmSearchPtr }

def mergePrev (f : FreeSt) : FreeSt :=
  let prev := (hdr f.mem f.headerPtr).dmPreviousMemory
  if (hdr f.mem prev).dmMemoryFree ≠ 0 then
    let m := setNext f.mem prev (hdr f.mem f.headerPtr).dmNextMemory
    let m := setPrev m (hdr m f.headerPtr).dmNextMemory (hdr m f.headerPtr).dmPreviousMemory
    let headerPtr := (hdr m f.headerPtr).dmPreviousMemory
    { mem := m, dmAvailable := u32 (f.dmAvailable + dmOverhead), headerPtr, dmSearchPtr := headerPtr }
  else f

def mergeNext (f : FreeSt) : FreeSt :=
  let newPtr := (hdr f.mem f.headerPtr).dmNextMemory
  if (hdr f.mem newPtr).dmMemoryFree ≠ 0 then
    let m := setPrev f.mem (hdr f.mem newPtr).dmNextMemory f.headerPtr
    let m := setNext m f.headerPtr (hdr m newPtr).dmNextMemory
    { f with mem := m, dmAvailable := u32 (f.dmAvailable + dmOverhead), dmSearchPtr := f.headerPtr }
  else f

/-- Give the block at `headerPtr` back to the pool its header names. -/
def freeBlock (s : Heap) (headerPtr : Nat) : Heap :=
  let poolPtr := (hdr s.mem headerPtr).dmMemoryPool
  let pool := s.pcb poolPtr
  let f := mergeNext (mergePrev (markFree s.mem pool headerPtr))
  { s with mem := f.mem }.setPcb poolPtr
    { pool with dmAvailable := f.dmAvailable, dmSearchPtr := f.dmSearchPtr }

def osFreeMem (s : Heap) (memory : Nat) : Heap := freeBlock s (sub32 memory dmOverhead)

/-! ## The system pool -/

def memset (m : Mem) (a : Nat) (v : UInt8) (n : Nat) : Mem := fun x =>
  if a ≤ x ∧ x < a + n then v else m x

def osDmemPoolSize : Nat := 1024 * 20

section
-- the addresses of `sysemPool` and `OS_system_mempool`, which the linker chooses
variable (sysemPool osSystemMempool : Nat)

/-- `OS_DMemInit`; the pool is named "Sys". -/
def osDMemInit (s : Heap) : Heap :=
  osCreateMemoryPool { s with dmdTotalPools := 0 } osSystemMempool [0x53, 0x79, 0x73, 0x00] sysemPool
    osDmemPoolSize 16

def osmMalloc (fuel : Nat) (s : Heap) (size : Nat) : Option (Heap × Nat) :=
  (osGetMem fuel s osSystemMempool size).map fun (s', err, pointer) =>
    (s', if err = .osErrNone then pointer else 0)

/-- `OSMCalloc`: the product is taken in 32 bits. -/
def osmCalloc (fuel : Nat) (s : Heap) (count size : Nat) : Option (Heap × Nat) :=
  (osmMalloc osSystemMempool fuel s (u32 (count * size))).map fun (s', p) =>
    (if p ≠ 0 then { s' with mem := memset s'.mem p 0 (u32 (count * size)) } else s', p)

end

def osmFree (s : Heap) (ptr : Nat) : Heap := osFreeMem s ptr

end GizwitsSdk
