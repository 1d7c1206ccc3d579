import JMEngine.Memory.ThreadCache
import Mathlib.Order.Lattice

/-!
# The memory pool of all threads (source/memory/nedmalloc.cpp)

Any number of threads take blocks from one pool and free them, each through its own cache. A block may
be freed by another thread than the one that took it.

* `nedpmalloc`, `nedpcalloc`, `nedprealloc`, `nedpfree`, `nedtrimthreadcache`
* `nedblkmstate`, `nedblksize` whether a block is one of the mspaces, by its address and size;
* `Answers`                    what the mspaces below answer: blocks that are not in use, and large enough;
* `Pool.step`                  a request of a thread.

An operation of a thread is one step: it touches the cache of its own thread, blocks that the thread holds,
and the mspaces, which are locked. The asserts are those of a build without `NDEBUG`.
-/

set_option linter.unusedSectionVars false

namespace JMEngine.Memory
open DoublyLinked

def THREADCACHEMAXCACHES : Nat := 256

/-- `sizeof(threadcache)` -/
def sizeofThreadcache : Nat := 200

def page_size : Nat := 4096

/-- how much smaller a block may get without a move; `DEBUG` is defined, as 0 -/
def reallocSlack : Nat := 32

structure Chunk (A : Type) where
  mem : A
  /-- `chunksize` without the overhead -/
  size : Nat
  mstate : A
  /-- the least address that the mspace has had from the system -/
  least_addr : A

def Chunk.chunksize {A : Type} (p : Chunk A) : Nat := p.size + CHUNK_OVERHEAD

/-- what the mspaces answer to the calls of one operation -/
structure Answers (A : Type) where
  /-- `CallMalloc`, `CallCalloc` or `CallRealloc` -/
  block : Option (Chunk A)
  /-- `CallCalloc` in `AllocCache` -/
  cache : Option (Chunk A)
  /-- the mspace of a new cache, `abs(tc->threadid) % end` -/
  home : Nat
  /-- the mspace that `FindMSpace` found, if the own one was locked -/
  found : Option Nat

structure Pool (ι A : Type) where
  headers : Headers A
  /-- the blocks that the mspaces have given out, with their sizes -/
  mspaces : A → Option Nat
  /-- `get_mstate_for` -/
  footers : A → A
  leastusedaddress : Option A
  largestusedblock : Nat
  /-- `caches`, and where they lie -/
  caches : Nat → Option (A × ThreadCache A)
  mycache : ι → Int
  /-- the blocks that the program holds, with the sizes that it asked for -/
  live : List (A × Nat)
  /-- an assert has failed, or a block was used that is not in use -/
  fault : Bool

section
variable {ι A : Type} [DecidableEq ι] [LinearOrder A]

namespace Pool

def new (headers : Headers A) : Pool ι A :=
  ⟨headers, fun _ => none, id, none, 0, fun _ => none, fun _ => 0, [], false⟩

/-- `nedmalloc` returns the block -/
def give (s : Pool ι A) (a : A) (size : Nat) : Pool ι A := { s with live := (a, size) :: s.live }

def drop (s : Pool ι A) (a : A) : Pool ι A := { s with live := s.live.filter fun p => p.1 ≠ a }

def enter (s : Pool ι A) (p : Chunk A) : Pool ι A :=
  { s with
    mspaces := Function.update s.mspaces p.mem (some p.size)
    footers := Function.update s.footers p.mem p.mstate
    largestusedblock :=
      if s.largestusedblock = 0 ∨ s.largestusedblock < p.chunksize then
        (p.chunksize + page_size) / page_size * page_size
      else s.largestusedblock }

def lower (s : Pool ι A) (least_addr : A) : Pool ι A :=
  { s with
    leastusedaddress :=
      match s.leastusedaddress with
      | none => some least_addr
      | some l => some (if least_addr < l then least_addr else l) }

/-- `CallMalloc` and `CallCalloc`; `none`: the mspace does not answer so -/
def CallMalloc (s : Pool ι A) (size : Nat) (answer : Option (Chunk A)) : Option (Pool ι A × Option A) :=
  match answer with
  | none => some (s, none)
  | some p =>
    if s.mspaces p.mem = none ∧ size ≤ p.size ∧ p.least_addr ≤ p.mem ∧ p.least_addr ≤ p.mstate then
      some ((s.enter p).lower p.least_addr, some p.mem)
    else none

def CallFree (s : Pool ι A) (a : A) : Pool ι A :=
  if (s.mspaces a).isSome then { s with mspaces := Function.update s.mspaces a none }
  else { s with fault := true }

def below (s : Pool ι A) (a : A) : Bool :=
  match s.leastusedaddress with
  | none => false
  | some l => a < l

/-- the tests that tell a block from one of another allocator -/
def nedblkmstate (s : Pool ι A) (a : A) : Option A :=
  match s.mspaces a with
  | none => none
  | some m =>
    if s.below a ∨ s.largestusedblock < m + CHUNK_OVERHEAD ∨ s.below (s.footers a) then none
    else some (s.footers a)

def nedblksize (s : Pool ι A) (a : A) : Nat :=
  match s.nedblkmstate a with
  | none => 0
  | some _ => (s.mspaces a).getD 0

/-- a block that was kept goes back, after the asserts of `RemoveCacheEntries` -/
def giveBack (s : Pool ι A) (f : A) : Pool ι A :=
  if s.headers.size f ≠ 0 ∧ s.headers.size f ≤ s.nedblksize f then s.CallFree f else { s with fault := true }

def callFrees (s : Pool ι A) (gone : List A) : Pool ι A := gone.foldl giveBack s

def AllocCache (s : Pool ι A) (t : ι) (ans : Answers A) : Option (Pool ι A × Option Nat) :=
  match (List.range THREADCACHEMAXCACHES).find? fun n => (s.caches n).isNone with
  | none => some (s, none)
  | some n =>
    match s.CallMalloc sizeofThreadcache ans.cache with
    | none => none
    | some (s, none) => some (s, none)
    | some (s, some c) =>
      some ({ s with
        caches := Function.update s.caches n (some (c, .new ans.home))
        mycache := Function.update s.mycache t (n + 1) }, some n)

def GetThreadCache (s : Pool ι A) (t : ι) (ans : Answers A) : Option (Pool ι A × Option Nat) :=
  if 0 < s.mycache t then some (s, some (s.mycache t - 1).toNat)
  else if s.mycache t = 0 then
    match s.AllocCache t ans with
    | none => none
    | some (s, some n) => some (s, some n)
    | some (s, none) => some ({ s with mycache := Function.update s.mycache t (-1) }, none)
  else some (s, none)

/-- the effect of `FindMSpace` -/
def GetMSpace (s : Pool ι A) (t : ι) (slot found : Option Nat) : Pool ι A :=
  match found, slot with
  | none, _ => s
  | some m, some n =>
    match s.caches n with
    | some (c, tc) => { s with caches := Function.update s.caches n (some (c, { tc with mymspace := m })) }
    | none => { s with fault := true }
  | some m, none => { s with mycache := Function.update s.mycache t (-(m + 1)) }

/-- the asserts of `threadcache_malloc` on the block that it takes -/
def fits (s : Pool ι A) (blk : A) : Bool :=
  s.headers.size blk ≤ s.nedblksize blk ∧ sizeofBlk ≤ s.nedblksize blk ∧
    s.nedblksize blk ≤ THREADCACHEMAX + CHUNK_OVERHEAD

/-- `threadcache_malloc`, if the thread has a cache and the request is small -/
def fromCache (s : Pool ι A) (slot : Option Nat) (size : Nat) : Pool ι A × Option A × Nat :=
  match slot with
  | none => (s, none, size)
  | some n =>
    if size ≤ THREADCACHEMAX then
      match s.caches n with
      | none => ({ s with fault := true }, none, size)
      | some (c, tc) =>
        let (mem, tc, ret, size) := threadcache_malloc s.headers tc size
        ({ s with
          headers := mem
          caches := Function.update s.caches n (some (c, tc))
          fault := s.fault || !ret.all s.fits }, ret, size)
    else (s, none, size)

/-- `threadcache_free`, or `CallFree` for a block that no bin is for -/
def toCache (s : Pool ι A) (slot : Option Nat) (a : A) (memsize : Nat) : Pool ι A :=
  match slot with
  | none => s.CallFree a
  | some n =>
    if sizeofBlk ≤ memsize ∧ memsize ≤ THREADCACHEMAX + CHUNK_OVERHEAD then
      match s.caches n with
      | none => { s with fault := true }
      | some (c, tc) =>
        match threadcache_free s.headers tc a memsize with
        | none => { s with fault := true }
        | some (mem, tc, gone) =>
          { s with headers := mem, caches := Function.update s.caches n (some (c, tc)) }.callFrees gone
    else s.CallFree a

/-- a block of `size` bytes, for a program that asked for `asked` -/
def allocate (s : Pool ι A) (t : ι) (asked size : Nat) (ans : Answers A) : Option (Pool ι A × Option A) :=
  match s.GetThreadCache t ans with
  | none => none
  | some (s, slot) =>
    match s.fromCache slot (max size sizeofBlk) with
    | (s, some a, _) => some (s.give a asked, some a)
    | (s, none, need) =>
      match (s.GetMSpace t slot ans.found).CallMalloc need ans.block with
      | none => none
      | some (s, none) => some (s, none)
      | some (s, some a) => some (s.give a asked, some a)

def nedpmalloc (s : Pool ι A) (t : ι) (size : Nat) (ans : Answers A) : Option (Pool ι A × Option A) :=
  s.allocate t size size ans

/-- the product is a `size_t` -/
def nedpcalloc (s : Pool ι A) (t : ι) (no size : Nat) (ans : Answers A) :
    Option (Pool ι A × Option A) :=
  s.allocate t (no * size) (size * no % 18446744073709551616) ans

/-- the block moves, or stays where it is, in the mspace that it is of. `leastusedaddress` stays. -/
def CallRealloc (s : Pool ι A) (a : A) (size need : Nat) (answer : Option (Chunk A)) :
    Option (Pool ι A × Option A) :=
  match answer with
  | none => some (s, none)
  | some p =>
    let s' := (s.drop a).CallFree a
    if s'.mspaces p.mem = none ∧ need ≤ p.size then
      some ((s'.enter { p with mstate := s.footers a }).give p.mem size, some p.mem)
    else none

/-- the program gives a block that it holds; `none` is also `abort` -/
def nedprealloc (s : Pool ι A) (t : ι) (mem : Option A) (size : Nat) (ans : Answers A) :
    Option (Pool ι A × Option A) :=
  match mem with
  | none => s.nedpmalloc t size ans
  | some a =>
    let memsize := s.nedblksize a
    if memsize = 0 then none
    else if size ≤ memsize ∧ memsize - size < reallocSlack then some ((s.drop a).give a size, some a)
    else
      match s.GetThreadCache t ans with
      | none => none
      | some (s, slot) =>
        match s.fromCache slot (max size sizeofBlk) with
        | (s, some b, _) => some (((s.give b size).drop a).toCache slot a memsize, some b)
        | (s, none, need) => s.CallRealloc a size need ans.block

/-- `none` is also `abort` -/
def nedpfree (s : Pool ι A) (t : ι) (mem : Option A) (ans : Answers A) : Option (Pool ι A) :=
  match mem with
  | none => some s
  | some a =>
    let memsize := s.nedblksize a
    if memsize = 0 then none
    else
      match s.GetThreadCache t ans with
      | none => none
      | some (s, slot) => some ((s.drop a).toCache slot a memsize)

def nedtrimthreadcache (s : Pool ι A) (t : ι) (disable : Bool) : Pool ι A :=
  if s.mycache t = 0 then
    if disable then { s with mycache := Function.update s.mycache t (-1) } else s
  else if 0 < s.mycache t then
    let n := (s.mycache t - 1).toNat
    match s.caches n with
    | none => { s with fault := true }
    | some (c, tc) =>
      match RemoveCacheEntries s.headers { tc with frees := tc.frees + 1 } 0 with
      | none => { s with fault := true }
      | some (mem, tc, gone) =>
        let s := { s with headers := mem, caches := Function.update s.caches n (some (c, tc)) }.callFrees gone
        if disable then
          { s with
            mycache := Function.update s.mycache t (-(tc.mymspace : Int))
            caches := Function.update s.caches n none }.CallFree c
        else s
  else s

end Pool

/-- what a thread can do. `write` is the program's own use of a block: it overwrites what the cache had
written there. -/
inductive Request (A : Type) where
  | malloc (size : Nat)
  | calloc (no size : Nat)
  | realloc (mem : Option A) (size : Nat)
  | free (mem : Option A)
  | trim (disable : Bool)
  | write (a : A) (lastUsed : BitVec 32) (size : Nat) (next prev : Option A)

/-- blocks that the request needs to be the program's -/
def Request.uses : Request A → Option A
  | .realloc mem _ | .free mem => mem
  | .write a _ _ _ _ => some a
  | _ => none

namespace Pool

/-- the program uses its own blocks only -/
def step (s : Pool ι A) (e : ι × Request A × Answers A) : Option (Pool ι A) :=
  if e.2.1.uses.all fun a => a ∈ s.live.map Prod.fst then
    match e.2.1 with
    | .malloc size => (s.nedpmalloc e.1 size e.2.2).map Prod.fst
    | .calloc no size => (s.nedpcalloc e.1 no size e.2.2).map Prod.fst
    | .realloc mem size => (s.nedprealloc e.1 mem size e.2.2).map Prod.fst
    | .free mem => s.nedpfree e.1 mem e.2.2
    | .trim disable => some (s.nedtrimthreadcache e.1 disable)
    | .write a lastUsed size next prev =>
      some { s with headers :=
        ⟨Function.update s.headers.lastUsed a lastUsed, Function.update s.headers.size a size,
          (s.headers.links.setNext a next).setPrev a prev⟩ }
  else none

end Pool

end

end JMEngine.Memory
