import JMEngine.Lib.DoublyLinked

/-!
# The freed blocks that a thread keeps (source/memory/nedmalloc.cpp)

A thread keeps small blocks that it frees in ten bins, and takes its next blocks from there. A bin is a
list that is linked through the blocks themselves, the block freed last in front. When too much is kept,
the blocks that were not used for long are given back.

* `size2binidx`, `threadcache_malloc`, `threadcache_free`, `RemoveCacheEntries`, `ReleaseFreeInCache`;
* `Cached mem tc lists`        the bins hold the lists `lists`, with the size that is right for the bin,
                               and `freeInCache` counts them;
* `threadcache_malloc_spec`    a block that is taken is the first one of a bin, and large enough;
* `threadcache_malloc_front`   and if there is one in the right bin, it is taken from there;
* `Shrinks`                    what giving back does: every bin loses blocks at its old end;
* `threadcache_free_spec`      freeing a block that is not kept never aborts, and always comes to an end;
* `Freed.space`                and it leaves less than `THREADCACHEMAXFREESPACE` in the cache, as long as the
                               counter of frees has not started over.

The addresses are any type. A size is that of a platform with pointers of eight bytes.
-/

set_option linter.unusedSectionVars false

namespace JMEngine.Memory
open DoublyLinked

def THREADCACHEMAX : Nat := 8192

/-- the number of the last bin -/
def THREADCACHEMAXBINS : Nat := 9

def THREADCACHEMAXFREESPACE : Nat := 524288

/-- `sizeof(threadcacheblk)` -/
def sizeofBlk : Nat := 32

def CHUNK_OVERHEAD : Nat := 16

/-- what the cache writes into the blocks that it keeps: the fields of `threadcacheblk` -/
structure Headers (A : Type) where
  lastUsed : A → BitVec 32
  size : A → Nat
  links : Links A

structure ThreadCache (A : Type) where
  mymspace : Nat
  mallocs : BitVec 32
  frees : BitVec 32
  successes : BitVec 32
  freeInCache : Nat
  bins : Nat → Ends A

/-- a cache from `CallCalloc` -/
def ThreadCache.new {A : Type} (mymspace : Nat) : ThreadCache A :=
  ⟨mymspace, 0, 0, 0, 0, fun _ => ⟨none, none⟩⟩

/-- the top bit of `size >> 4`, an `unsigned int` -/
def size2binidx (size : Nat) : Nat := (size >>> 4 % 4294967296).log2

def binSize (idx : Nat) : Nat := 1 <<< (idx + 4)

/-- the bin for a request, and the size of its blocks -/
def bestFit (size : Nat) : Nat × Nat :=
  let idx := size2binidx size
  let bestsize := binSize idx
  if bestsize < size then (idx + 1, bestsize <<< 1) else (idx, bestsize)

section
variable {A : Type} [DecidableEq A]

def tooSmall (mem : Headers A) (tc : ThreadCache A) (idx size : Nat) : Bool :=
  match (tc.bins idx).head with
  | some blk => mem.size blk < size
  | none => true

/-- the bin itself, or the next one if it has nothing that is large enough -/
def bumpUp (mem : Headers A) (tc : ThreadCache A) (idx size : Nat) : Nat :=
  if tooSmall mem tc idx size = true ∧ idx < THREADCACHEMAXBINS then idx + 1 else idx

/-- the block, if there is one, and the size that was looked for -/
def threadcache_malloc (mem : Headers A) (tc : ThreadCache A) (size : Nat) :
    Headers A × ThreadCache A × Option A × Nat :=
  let fit := bestFit size
  let size := if size < fit.2 then fit.2 else size
  let idx := bumpUp mem tc fit.1 size
  match (tc.bins idx).head with
  | none => (mem, { tc with mallocs := tc.mallocs + 1 }, none, size)
  | some blk =>
    let popped := popFront mem.links (tc.bins idx) blk
    ({ mem with links := popped.1 },
      { tc with
        bins := Function.update tc.bins idx popped.2
        mallocs := tc.mallocs + 1
        successes := tc.successes + 1
        freeInCache := tc.freeInCache - mem.size blk }, some blk, size)

/-- `CallFree` on the blocks of one bin, from its old end, while they are `age` frees old; `freed` are the
blocks that were given back before -/
def removeOldest (age : BitVec 32) (idx : Nat) :
    Nat → Headers A → ThreadCache A → List A → Option (Headers A × ThreadCache A × List A)
  | 0, _, _, _ => none
  | n + 1, mem, tc, freed =>
    match (tc.bins idx).tail with
    | none => some (mem, tc, freed)
    | some f =>
      if age ≤ tc.frees - mem.lastUsed f then
        let popped := popBack mem.links (tc.bins idx) f
        removeOldest age idx n { mem with links := popped.1 }
          { tc with
            bins := Function.update tc.bins idx popped.2
            freeInCache := tc.freeInCache - mem.size f } (freed ++ [f])
      else some (mem, tc, freed)

/-- no bin has more than `freeInCache` blocks -/
def removeBins (age : BitVec 32) :
    List Nat → Headers A → ThreadCache A → List A → Option (Headers A × ThreadCache A × List A)
  | [], mem, tc, freed => some (mem, tc, freed)
  | idx :: bins, mem, tc, freed =>
    match removeOldest age idx (tc.freeInCache + 1) mem tc freed with
    | some (mem, tc, freed) => removeBins age bins mem tc freed
    | none => none

def RemoveCacheEntries (mem : Headers A) (tc : ThreadCache A) (age : BitVec 32) :
    Option (Headers A × ThreadCache A × List A) :=
  if tc.freeInCache = 0 then some (mem, tc, [])
  else removeBins age (List.range (THREADCACHEMAXBINS + 1)) mem tc []

def releaseLoop : Nat → Nat → Headers A → ThreadCache A → List A →
    Option (Headers A × ThreadCache A × List A)
  | 0, _, _, _, _ => none
  | n + 1, age, mem, tc, freed =>
    if age ≠ 0 ∧ THREADCACHEMAXFREESPACE ≤ tc.freeInCache then
      match RemoveCacheEntries mem tc (BitVec.ofNat 32 age) with
      | some (mem, tc, more) => releaseLoop n (age >>> 1) mem tc (freed ++ more)
      | none => none
    else some (mem, tc, freed)

def ReleaseFreeInCache (mem : Headers A) (tc : ThreadCache A) :
    Option (Headers A × ThreadCache A × List A) :=
  let age := THREADCACHEMAXFREESPACE / 8192
  releaseLoop (age + 1) age mem tc []

/-- the cache with the block in front of its bin -/
def cacheBlock (mem : Headers A) (tc : ThreadCache A) (tck : A) (idx size : Nat) :
    Headers A × ThreadCache A :=
  let pushed := pushFront mem.links (tc.bins idx) tck
  (⟨Function.update mem.lastUsed tck (tc.frees + 1), Function.update mem.size tck size, pushed.1⟩,
    { tc with
      frees := tc.frees + 1
      freeInCache := tc.freeInCache + size
      bins := Function.update tc.bins idx pushed.2 })

/-- the blocks that are given back instead; `none` is `abort` -/
def threadcache_free (mem : Headers A) (tc : ThreadCache A) (tck : A) (size : Nat) :
    Option (Headers A × ThreadCache A × List A) :=
  let idx := size2binidx size
  if (tc.bins idx).head = some tck then none
  else
    let kept := cacheBlock mem tc tck idx (binSize idx)
    if THREADCACHEMAXFREESPACE ≤ kept.2.freeInCache then ReleaseFreeInCache kept.1 kept.2
    else some (kept.1, kept.2, [])

end

/-! ## The sizes of the bins -/

theorem binSize_succ (idx : Nat) : binSize (idx + 1) = 2 * binSize idx := Nat.shiftLeft_succ 1 (idx + 4)

theorem binSize_pos (idx : Nat) : 0 < binSize idx := by
  induction idx with
  | zero => decide
  | succ idx ih =>
    rw [binSize_succ]
    omega

theorem binSize_le {i j : Nat} (h : i ≤ j) : binSize i ≤ binSize j := by
  induction h with
  | refl => exact Nat.le_refl _
  | step _ ih =>
    rw [Nat.succ_eq_add_one, binSize_succ]
    omega

theorem size2binidx_spec (size : Nat) (h : 16 ≤ size) (hm : size < 68719476736) :
    binSize (size2binidx size) ≤ size ∧ size < binSize (size2binidx size + 1) := by
  have hq : size >>> 4 = size / 16 := Nat.shiftRight_eq_div_pow size 4
  have hmod : size >>> 4 % 4294967296 = size / 16 := by
    rw [hq]
    exact Nat.mod_eq_of_lt (by omega)
  have hne : size / 16 ≠ 0 := by omega
  have hlow := Nat.log2_self_le hne
  have hhigh := Nat.lt_log2_self (n := size / 16)
  have hb : ∀ i, binSize i = 16 * 2 ^ i := by
    intro i
    unfold binSize
    rw [Nat.shiftLeft_eq, Nat.one_mul, Nat.pow_add, Nat.mul_comm]
  unfold size2binidx
  rw [hmod, hb, hb]
  omega

theorem size2binidx_le {size : Nat} (h : sizeofBlk ≤ size) (hm : size ≤ THREADCACHEMAX + CHUNK_OVERHEAD) :
    size2binidx size ≤ THREADCACHEMAXBINS := by
  have hs := (size2binidx_spec size (by unfold sizeofBlk at h; omega)
    (by unfold THREADCACHEMAX CHUNK_OVERHEAD at hm; omega)).1
  by_contra hc
  have hle : binSize 10 ≤ binSize (size2binidx size) :=
    binSize_le (by unfold THREADCACHEMAXBINS at hc; omega)
  have h10 : binSize 10 = 16384 := rfl
  unfold THREADCACHEMAX CHUNK_OVERHEAD at hm
  omega

/-- the asserted conditions of a request -/
theorem bestFit_spec {size : Nat} (h : sizeofBlk ≤ size) (hm : size ≤ THREADCACHEMAX) :
    (bestFit size).2 = binSize (bestFit size).1 ∧ size ≤ (bestFit size).2 ∧
      (bestFit size).1 ≤ THREADCACHEMAXBINS := by
  have hidx := size2binidx_le h (Nat.le_trans hm (Nat.le_add_right _ _))
  obtain ⟨hlow, hhigh⟩ := size2binidx_spec size (by unfold sizeofBlk at h; omega)
    (by unfold THREADCACHEMAX at hm; omega)
  unfold bestFit
  dsimp only
  split
  · next hlt =>
    have h9 : size2binidx size ≠ THREADCACHEMAXBINS := by
      intro e
      rw [e] at hlt
      exact absurd hm (Nat.not_le.mpr hlt)
    refine ⟨?_, ?_, by omega⟩
    · rw [binSize_succ, Nat.mul_comm]
      exact Nat.shiftLeft_eq _ 1
    · rw [binSize_succ] at hhigh
      rw [Nat.shiftLeft_eq]
      omega
  · next hle => exact ⟨rfl, Nat.not_lt.mp hle, hidx⟩

/-! ## What the bins hold -/

section
variable {A : Type} [DecidableEq A]

def space (lists : Nat → List A) : Nat → Nat
  | 0 => 0
  | n + 1 => space lists n + (lists n).length * binSize n

structure Cached (mem : Headers A) (tc : ThreadCache A) (lists : Nat → List A) : Prop where
  holds : ∀ i, Holds mem.links (tc.bins i) (lists i)
  size : ∀ i, ∀ a ∈ lists i, mem.size a = binSize i
  bins : ∀ i, THREADCACHEMAXBINS < i → lists i = []
  disjoint : ∀ i j a, a ∈ lists i → a ∈ lists j → i = j
  space : tc.freeInCache = space lists (THREADCACHEMAXBINS + 1)

/-- the headers differ in the blocks `S` only -/
structure HeadersApart (S : A → Prop) (mem mem' : Headers A) : Prop where
  links : Apart S mem.links mem'.links
  size : ∀ x, ¬ S x → mem'.size x = mem.size x
  lastUsed : ∀ x, ¬ S x → mem'.lastUsed x = mem.lastUsed x

variable {mem mem' mem'' : Headers A} {tc tc' tc'' : ThreadCache A} {lists lists' lists'' : Nat → List A}
  {S T : A → Prop} {i : Nat} {l : List A} {a : A}

theorem HeadersApart.trans (h : HeadersApart S mem mem') (h' : HeadersApart S mem' mem'') :
    HeadersApart S mem mem'' :=
  ⟨h.links.trans h'.links, fun x hx => (h'.size x hx).trans (h.size x hx),
    fun x hx => (h'.lastUsed x hx).trans (h.lastUsed x hx)⟩

theorem HeadersApart.mono (h : HeadersApart S mem mem') (hs : ∀ x, S x → T x) :
    HeadersApart T mem mem' :=
  ⟨h.links.mono hs, fun x hx => h.size x fun hS => hx (hs x hS),
    fun x hx => h.lastUsed x fun hS => hx (hs x hS)⟩

theorem Cached.apart (h : Cached mem tc lists) (hm : HeadersApart S mem mem')
    (hd : ∀ i, ∀ x ∈ lists i, ¬ S x) : Cached mem' tc lists :=
  ⟨fun i => (h.holds i).apart hm.links (hd i),
    fun i a ha => (hm.size a (hd i a ha)).trans (h.size i a ha), h.bins, h.disjoint, h.space⟩

theorem space_nil (n : Nat) : space (fun _ => ([] : List A)) n = 0 := by
  induction n with
  | zero => rfl
  | succ n ih => rw [space, ih, List.length_nil, Nat.zero_mul]

theorem cached_new (mem : Headers A) (mymspace : Nat) : Cached mem (.new mymspace) fun _ => [] :=
  ⟨fun _ => holds_nil _, nofun, fun _ _ => rfl, nofun, (space_nil _).symm⟩

theorem space_of_ne (l : List A) : ∀ n, (∀ j < n, j ≠ i) →
    space (Function.update lists i l) n = space lists n := by
  intro n h
  induction n with
  | zero => rfl
  | succ n ih =>
    rw [space, space, ih fun j hj => h j (Nat.lt_succ_of_lt hj),
      Function.update_of_ne (h n (Nat.lt_succ_self n))]

theorem space_update (lists : Nat → List A) (l : List A) {n : Nat} (hi : i < n) :
    space (Function.update lists i l) n + (lists i).length * binSize i =
      space lists n + l.length * binSize i := by
  induction n with
  | zero => cases hi
  | succ n ih =>
    rw [space, space]
    rcases Nat.lt_or_eq_of_le (Nat.le_of_lt_succ hi) with hlt | rfl
    · have := ih hlt
      rw [Function.update_of_ne (Nat.ne_of_gt hlt)]
      omega
    · rw [space_of_ne l i fun j hj => Nat.ne_of_lt hj, Function.update_self]
      omega

theorem length_le_space (lists : Nat → List A) (i : Nat) {n : Nat} (hi : i < n) : (lists i).length ≤ space lists n := by
  induction n with
  | zero => cases hi
  | succ n ih =>
    rw [space]
    rcases Nat.lt_or_eq_of_le (Nat.le_of_lt_succ hi) with hlt | rfl
    · exact Nat.le_trans (ih hlt) (Nat.le_add_right _ _)
    · exact Nat.le_trans (Nat.le_mul_of_pos_right _ (binSize_pos i)) (Nat.le_add_left _ _)

theorem Cached.setBin (h : Cached mem tc lists) (hi : i ≤ THREADCACHEMAXBINS) {k : Links A} {e : Ends A}
    (hk : Apart (fun x => x ∈ lists i ∨ ∀ j, x ∉ lists j) mem.links k) (hl : Holds k e l)
    (hsub : ∀ x ∈ l, x ∈ lists i ∨ ∀ j, x ∉ lists j) (hsize : ∀ x ∈ l, mem.size x = binSize i)
    {mallocs frees successes : BitVec 32} {freeInCache : Nat}
    (hf : freeInCache + (lists i).length * binSize i = tc.freeInCache + l.length * binSize i) :
    Cached { mem with links := k }
      ⟨tc.mymspace, mallocs, frees, successes, freeInCache, Function.update tc.bins i e⟩
      (Function.update lists i l) := by
  have hne : ∀ j, j ≠ i → ∀ x ∈ l, x ∉ lists j := by
    intro j hj x hx hxj
    rcases hsub x hx with hxi | hno
    · exact hj (h.disjoint j i x hxj hxi)
    · exact hno j hxj
  refine ⟨fun j => ?_, fun j a ha => ?_, fun j hj => ?_, fun j j' a ha ha' => ?_, ?_⟩
  · show Holds k (Function.update tc.bins i e j) _
    by_cases hj : j = i
    · subst hj
      rw [Function.update_self, Function.update_self]
      exact hl
    · rw [Function.update_of_ne hj, Function.update_of_ne hj]
      refine (h.holds j).apart hk fun x hx hS => ?_
      rcases hS with hxi | hno
      · exact hj (h.disjoint j i x hx hxi)
      · exact hno j hx
  · by_cases hj : j = i
    · subst hj
      rw [Function.update_self] at ha
      exact hsize a ha
    · rw [Function.update_of_ne hj] at ha
      exact h.size j a ha
  · rw [Function.update_of_ne (Nat.ne_of_gt (Nat.lt_of_le_of_lt hi hj)), h.bins j hj]
  · by_cases hj : j = i
    · by_cases hj' : j' = i
      · rw [hj, hj']
      · subst hj
        rw [Function.update_self] at ha
        rw [Function.update_of_ne hj'] at ha'
        exact absurd ha' (hne j' hj' a ha)
    · rw [Function.update_of_ne hj] at ha
      by_cases hj' : j' = i
      · subst hj'
        rw [Function.update_self] at ha'
        exact absurd ha (hne j hj a ha')
      · rw [Function.update_of_ne hj'] at ha'
        exact h.disjoint j j' a ha ha'
  · have hs := space_update lists l (show i < THREADCACHEMAXBINS + 1 from Nat.lt_succ_of_le hi)
    have := h.space
    show freeInCache = _
    omega

/-! ## Taking a block -/

theorem bumpUp_bounds (mem : Headers A) (tc : ThreadCache A) {idx : Nat} (size : Nat)
    (h : idx ≤ THREADCACHEMAXBINS) :
    idx ≤ bumpUp mem tc idx size ∧ bumpUp mem tc idx size ≤ THREADCACHEMAXBINS := by
  unfold bumpUp
  split
  · next hb => exact ⟨Nat.le_succ idx, hb.2⟩
  · exact ⟨Nat.le_refl idx, h⟩

/-- **A request is answered with the first block of a bin whose blocks are large enough, or not at all.** -/
theorem threadcache_malloc_spec (h : Cached mem tc lists) {size : Nat} (hs : sizeofBlk ≤ size)
    (hm : size ≤ THREADCACHEMAX) :
    ∃ mem' tc' ret need, threadcache_malloc mem tc size = (mem', tc', ret, need) ∧ size ≤ need ∧
      tc'.frees = tc.frees ∧ tc'.freeInCache ≤ tc.freeInCache ∧ mem'.lastUsed = mem.lastUsed ∧
      ((ret = none ∧ mem' = mem ∧ Cached mem tc' lists) ∨
        ∃ i b l, ret = some b ∧ lists i = b :: l ∧ size ≤ binSize i ∧
          Cached mem' tc' (Function.update lists i l) ∧ HeadersApart (· ∈ lists i) mem mem') := by
  obtain ⟨hfit, hle, hidx⟩ := bestFit_spec hs hm
  unfold threadcache_malloc
  dsimp only
  have hneed : size ≤ (if size < (bestFit size).2 then (bestFit size).2 else size) := by
    split
    · exact hle
    · exact Nat.le_refl size
  generalize (if size < (bestFit size).2 then (bestFit size).2 else size) = need at hneed ⊢
  obtain ⟨hup, hbound⟩ := bumpUp_bounds mem tc need hidx
  generalize bumpUp mem tc (bestFit size).1 need = idx at hup hbound ⊢
  have hh := h.holds idx
  cases hl : lists idx with
  | nil =>
    rw [hl] at hh
    rw [show (tc.bins idx).head = none from hh.head]
    exact ⟨_, _, _, _, rfl, hneed, rfl, Nat.le_refl _, rfl,
      .inl ⟨rfl, rfl, ⟨h.holds, h.size, h.bins, h.disjoint, h.space⟩⟩⟩
  | cons b l =>
    rw [hl] at hh
    rw [show (tc.bins idx).head = some b from hh.head]
    have hap : Apart (· ∈ lists idx) mem.links (popFront mem.links (tc.bins idx) b).1 := by
      rw [hl]
      exact apart_popFront hh
    have hsize : mem.size b = binSize idx := h.size idx b (by rw [hl]; exact List.mem_cons_self)
    have hlen : (lists idx).length = l.length + 1 := by rw [hl]; rfl
    have hspace : binSize idx ≤ tc.freeInCache := by
      have hu := space_update lists l (show idx < THREADCACHEMAXBINS + 1 from Nat.lt_succ_of_le hbound)
      have := h.space
      rw [hlen, Nat.succ_mul] at hu
      omega
    refine ⟨_, _, _, _, rfl, hneed, rfl, Nat.sub_le _ _, rfl, .inr ⟨idx, b, l, rfl, hl, ?_, ?_, hap, fun _ _ => rfl,
      fun _ _ => rfl⟩⟩
    · exact Nat.le_trans (hfit ▸ hle) (binSize_le hup)
    · have hsub : ∀ x ∈ l, x ∈ lists idx := fun x hx => by rw [hl]; exact List.mem_cons_of_mem b hx
      refine h.setBin hbound (hap.mono fun x => .inl) hh.front (fun x hx => .inl (hsub x hx))
        (fun x hx => h.size idx x (hsub x hx)) ?_
      rw [hsize, hlen, Nat.succ_mul]
      omega

/-- every bin has lost the blocks `gone` at its old end, which were at least `least` frees old -/
structure Shrinks (least : BitVec 32) (mem : Headers A) (tc : ThreadCache A) (lists : Nat → List A) (mem' : Headers A)
    (tc' : ThreadCache A) (lists' : Nat → List A) (gone : List A) : Prop where
  cached : Cached mem' tc' lists'
  frees : tc'.frees = tc.frees
  mymspace : tc'.mymspace = tc.mymspace
  lastUsed : mem'.lastUsed = mem.lastUsed
  size : mem'.size = mem.size
  apart : HeadersApart (fun x => ∃ i, x ∈ lists i) mem mem'
  kept : ∀ i, ∃ old, lists i = lists' i ++ old ∧ ∀ x ∈ old, x ∈ gone
  lost : ∀ x ∈ gone, (∃ i, x ∈ lists i) ∧ ∀ i, x ∉ lists' i
  nodup : gone.Nodup
  aged : ∀ x ∈ gone, least ≤ tc.frees - mem.lastUsed x

theorem Shrinks.refl (least : BitVec 32) (h : Cached mem tc lists) :
    Shrinks least mem tc lists mem tc lists [] :=
  ⟨h, rfl, rfl, rfl, rfl, ⟨Apart.refl _ _, fun _ _ => rfl, fun _ _ => rfl⟩,
    fun _ => ⟨[], (List.append_nil _).symm, nofun⟩, nofun, List.nodup_nil, nofun⟩

section
variable {gone gone' : List A} {least age : BitVec 32}

theorem Shrinks.mem_of_mem (h : Shrinks least mem tc lists mem' tc' lists' gone)
    (ha : a ∈ lists' i) : a ∈ lists i := by
  obtain ⟨old, he, _⟩ := h.kept i
  rw [he]
  exact List.mem_append_left old ha

theorem Shrinks.mono (h : Shrinks age mem tc lists mem' tc' lists' gone) (hle : least ≤ age) :
    Shrinks least mem tc lists mem' tc' lists' gone :=
  { h with aged := fun x hx => BitVec.le_trans hle (h.aged x hx) }

theorem Shrinks.trans (h : Shrinks least mem tc lists mem' tc' lists' gone)
    (h' : Shrinks least mem' tc' lists' mem'' tc'' lists'' gone') :
    Shrinks least mem tc lists mem'' tc'' lists'' (gone ++ gone') where
  cached := h'.cached
  frees := h'.frees.trans h.frees
  mymspace := h'.mymspace.trans h.mymspace
  lastUsed := h'.lastUsed.trans h.lastUsed
  size := h'.size.trans h.size
  apart := h.apart.trans (h'.apart.mono fun _ ⟨i, hi⟩ => ⟨i, h.mem_of_mem hi⟩)
  kept := by
    intro i
    obtain ⟨old, he, ho⟩ := h.kept i
    obtain ⟨old', he', ho'⟩ := h'.kept i
    refine ⟨old' ++ old, by rw [he, he', List.append_assoc], fun x hx => ?_⟩
    rcases List.mem_append.mp hx with hx | hx
    · exact List.mem_append_right gone (ho' x hx)
    · exact List.mem_append_left gone' (ho x hx)
  lost := by
    intro x hx
    rcases List.mem_append.mp hx with hx | hx
    · obtain ⟨hi, hn⟩ := h.lost x hx
      exact ⟨hi, fun i hl => hn i (h'.mem_of_mem hl)⟩
    · obtain ⟨⟨i, hi⟩, hn⟩ := h'.lost x hx
      exact ⟨⟨i, h.mem_of_mem hi⟩, hn⟩
  nodup := by
    refine List.nodup_append.mpr ⟨h.nodup, h'.nodup, fun x hx y hy e => ?_⟩
    obtain ⟨⟨i, hi⟩, _⟩ := h'.lost y hy
    exact (h.lost x hx).2 i (e ▸ hi)
  aged := by
    intro x hx
    rcases List.mem_append.mp hx with hx | hx
    · exact h.aged x hx
    · rw [← h.frees, ← h.lastUsed]
      exact h'.aged x hx

theorem Shrinks.mem_iff (h : Shrinks least mem tc lists mem' tc' lists' gone) :
    a ∈ lists' i ↔ a ∉ gone ∧ a ∈ lists i := by
  constructor
  · exact fun ha => ⟨fun hg => (h.lost a hg).2 i ha, h.mem_of_mem ha⟩
  · rintro ⟨hg, ha⟩
    obtain ⟨old, he, ho⟩ := h.kept i
    rw [he] at ha
    rcases List.mem_append.mp ha with ha | ha
    · exact ha
    · exact absurd (ho a ha) hg

/-- the oldest block of every bin among `bins` was used less than `age` frees ago -/
def Young (age : BitVec 32) (mem : Headers A) (tc : ThreadCache A) (lists : Nat → List A)
    (bins : Nat → Prop) : Prop :=
  ∀ i, bins i → ∀ x, (lists i).getLast? = some x → ¬ age ≤ tc.frees - mem.lastUsed x

theorem Shrinks.oldest (h : Cached mem tc lists) (hi : i ≤ THREADCACHEMAXBINS) {f : A}
    (hl : lists i = l ++ [f]) (hage : age ≤ tc.frees - mem.lastUsed f) :
    Shrinks age mem tc lists { mem with links := (popBack mem.links (tc.bins i) f).1 }
      { tc with
        bins := Function.update tc.bins i (popBack mem.links (tc.bins i) f).2
        freeInCache := tc.freeInCache - mem.size f } (Function.update lists i l) [f] := by
  have hh := h.holds i
  rw [hl] at hh
  have hap : Apart (· ∈ lists i) mem.links (popBack mem.links (tc.bins i) f).1 := by
    rw [hl]
    exact apart_popBack hh
  have hsub : ∀ x ∈ l, x ∈ lists i := fun x hx => by rw [hl]; exact List.mem_append_left _ hx
  have hf : f ∈ lists i := by rw [hl]; exact List.mem_append_right _ List.mem_cons_self
  have hlen : (lists i).length = l.length + 1 := by rw [hl]; exact List.length_append
  have hspace : binSize i ≤ tc.freeInCache := by
    have hu := space_update lists l (show i < THREADCACHEMAXBINS + 1 from Nat.lt_succ_of_le hi)
    have := h.space
    rw [hlen, Nat.succ_mul] at hu
    omega
  refine ⟨?_, rfl, rfl, rfl, rfl, ⟨hap.mono fun x hx => ⟨i, hx⟩, fun _ _ => rfl, fun _ _ => rfl⟩, fun j => ?_,
    fun x hx => ?_, List.pairwise_singleton _ f, fun x hx => by rw [List.mem_singleton.mp hx]; exact hage⟩
  · refine h.setBin hi (hap.mono fun x => .inl) hh.back (fun x hx => .inl (hsub x hx))
      (fun x hx => h.size i x (hsub x hx)) ?_
    rw [h.size i f hf, hlen, Nat.succ_mul]
    omega
  · by_cases hj : j = i
    · subst hj
      exact ⟨[f], by rw [Function.update_self, hl], fun x hx => hx⟩
    · exact ⟨[], by rw [Function.update_of_ne hj, List.append_nil], nofun⟩
  · rw [List.mem_singleton] at hx
    subst hx
    refine ⟨⟨i, hf⟩, fun j hj => ?_⟩
    by_cases hji : j = i
    · subst hji
      rw [Function.update_self] at hj
      exact (List.nodup_append.mp hh.nodup).2.2 x hj x List.mem_cons_self rfl
    · rw [Function.update_of_ne hji] at hj
      exact hji (h.disjoint j i x hj hf)

theorem removeOldest_spec (age : BitVec 32) (hi : i ≤ THREADCACHEMAXBINS) (n : Nat) (freed : List A)
    (h : Cached mem tc lists) (hn : (lists i).length < n) :
    ∃ mem' tc' lists' gone, removeOldest age i n mem tc freed = some (mem', tc', freed ++ gone) ∧
      Shrinks age mem tc lists mem' tc' lists' gone ∧ (∀ j, j ≠ i → lists' j = lists j) ∧
      Young age mem' tc' lists' (· = i) := by
  induction n generalizing mem tc lists freed with
  | zero => cases hn
  | succ n ih =>
    have ht := (h.holds i).tail
    rw [removeOldest]
    obtain hl | ⟨l, f, hl⟩ := List.eq_nil_or_concat' (lists i)
    · rw [hl] at ht
      rw [show (tc.bins i).tail = none from ht]
      refine ⟨mem, tc, lists, [], by rw [List.append_nil], .refl _ h, fun _ _ => rfl, fun j hj x hx => ?_⟩
      subst hj
      rw [hl] at hx
      cases hx
    · have htail : (tc.bins i).tail = some f := by rw [ht, hl, List.getLast?_concat]
      rw [htail]
      dsimp only
      split
      · next hage =>
        have h1 := Shrinks.oldest h hi hl hage
        have hlen : (Function.update lists i l i).length < n := by
          rw [Function.update_self]
          rw [hl, List.length_append, List.length_singleton] at hn
          omega
        obtain ⟨mem', tc', lists', gone, he, h2, hother, hyoung⟩ := ih (freed ++ [f]) h1.cached hlen
        refine ⟨mem', tc', lists', [f] ++ gone, ?_, h1.trans h2, fun j hj => ?_, hyoung⟩
        · rw [he, List.append_assoc]
        · rw [hother j hj, Function.update_of_ne hj]
      · next hage =>
        refine ⟨mem, tc, lists, [], by rw [List.append_nil], .refl _ h, fun _ _ => rfl,
          fun j hj x hx => ?_⟩
        subst hj
        rw [hl, List.getLast?_concat] at hx
        cases hx
        exact hage

theorem removeBins_spec (age : BitVec 32) (bins : List Nat) (freed : List A) (h : Cached mem tc lists)
    (hb : ∀ j ∈ bins, j ≤ THREADCACHEMAXBINS) (hd : bins.Nodup) :
    ∃ mem' tc' lists' gone, removeBins age bins mem tc freed = some (mem', tc', freed ++ gone) ∧
      Shrinks age mem tc lists mem' tc' lists' gone ∧ (∀ j, j ∉ bins → lists' j = lists j) ∧
      Young age mem' tc' lists' (· ∈ bins) := by
  induction bins generalizing mem tc lists freed with
  | nil => exact ⟨mem, tc, lists, [], by rw [removeBins, List.append_nil], .refl _ h, fun _ _ => rfl, nofun⟩
  | cons i bins ih =>
    have hi := hb i List.mem_cons_self
    obtain ⟨hin, hd⟩ := List.nodup_cons.mp hd
    have hlen : (lists i).length < tc.freeInCache + 1 := by
      rw [h.space]
      exact Nat.lt_succ_of_le (length_le_space lists i (Nat.lt_succ_of_le hi))
    obtain ⟨mem1, tc1, lists1, gone1, he1, h1, ho1, hy1⟩ := removeOldest_spec age hi _ freed h hlen
    obtain ⟨mem2, tc2, lists2, gone2, he2, h2, ho2, hy2⟩ := ih (freed ++ gone1) h1.cached
      (fun j hj => hb j (List.mem_cons_of_mem i hj)) hd
    refine ⟨mem2, tc2, lists2, gone1 ++ gone2, ?_, h1.trans h2, fun j hj => ?_, fun j hj x hx => ?_⟩
    · rw [removeBins, he1]
      dsimp only
      rw [he2, List.append_assoc]
    · rw [ho2 j fun hm => hj (List.mem_cons_of_mem i hm), ho1 j fun e => hj (e ▸ List.mem_cons_self)]
    · rcases List.mem_cons.mp hj with rfl | hj
      · rw [ho2 j hin] at hx
        rw [h2.frees, h2.lastUsed]
        exact hy1 j rfl x hx
      · exact hy2 j hj x hx

theorem Cached.eq_nil_of_space (h : Cached mem tc lists) (h0 : tc.freeInCache = 0) (i : Nat) :
    lists i = [] := by
  rcases Nat.lt_or_ge THREADCACHEMAXBINS i with hi | hi
  · exact h.bins i hi
  · have := length_le_space lists i (Nat.lt_succ_of_le hi)
    rw [← h.space, h0] at this
    exact List.length_eq_zero_iff.mp (Nat.le_zero.mp this)

theorem RemoveCacheEntries_spec (age : BitVec 32) (h : Cached mem tc lists) :
    ∃ mem' tc' lists' gone, RemoveCacheEntries mem tc age = some (mem', tc', gone) ∧
      Shrinks age mem tc lists mem' tc' lists' gone ∧ Young age mem' tc' lists' fun _ => True := by
  unfold RemoveCacheEntries
  split
  · next h0 =>
    refine ⟨mem, tc, lists, [], rfl, .refl _ h, fun i _ x hx => ?_⟩
    rw [h.eq_nil_of_space h0 i] at hx
    cases hx
  · obtain ⟨mem', tc', lists', gone, he, hs, _, hy⟩ := removeBins_spec age
      (List.range (THREADCACHEMAXBINS + 1)) [] h (fun j hj => Nat.le_of_lt_succ (List.mem_range.mp hj))
      List.nodup_range
    refine ⟨mem', tc', lists', gone, he, hs, fun i _ x hx => ?_⟩
    rcases Nat.lt_or_ge THREADCACHEMAXBINS i with hi | hi
    · rw [hs.cached.bins i hi] at hx
      cases hx
    · exact hy i (List.mem_range.mpr (Nat.lt_succ_of_le hi)) x hx

theorem RemoveCacheEntries_all (h : Cached mem tc lists) :
    ∃ mem' tc' gone, RemoveCacheEntries mem tc 0 = some (mem', tc', gone) ∧
      Shrinks 0 mem tc lists mem' tc' (fun _ => []) gone := by
  obtain ⟨mem', tc', lists', gone, he, hs, hy⟩ := RemoveCacheEntries_spec 0 h
  have hnil : lists' = fun _ => [] := by
    funext i
    obtain hl | ⟨l, f, hl⟩ := List.eq_nil_or_concat' (lists' i)
    · exact hl
    · exact absurd (BitVec.le_def.mpr (Nat.zero_le _)) (hy i trivial f (by rw [hl, List.getLast?_concat]))
  rw [hnil] at hs
  exact ⟨mem', tc', gone, he, hs⟩

/-! ## Freeing a block -/

theorem releaseLoop_spec (n age : Nat) (freed : List A) (h : Cached mem tc lists) (hn : age < n)
    (hb : age < 4294967296)
    (hy : age = 0 → Young 1 mem tc lists fun _ => True) :
    ∃ mem' tc' lists' gone, releaseLoop n age mem tc freed = some (mem', tc', freed ++ gone) ∧
      Shrinks 1 mem tc lists mem' tc' lists' gone ∧
      (tc'.freeInCache < THREADCACHEMAXFREESPACE ∨ Young 1 mem' tc' lists' fun _ => True) := by
  induction n generalizing age mem tc lists freed with
  | zero => cases hn
  | succ n ih =>
    rw [releaseLoop]
    split
    · next hc =>
      obtain ⟨mem1, tc1, lists1, gone1, he1, h1, hy1⟩ := RemoveCacheEntries_spec (BitVec.ofNat 32 age) h
      have hhalf : age >>> 1 = age / 2 := rfl
      obtain ⟨mem2, tc2, lists2, gone2, he2, h2, hy2⟩ := ih (age >>> 1) (freed ++ gone1) h1.cached
        (by omega) (by omega) fun h0 => by
          rw [show age = 1 by omega] at hy1
          exact hy1
      have hone : (1 : BitVec 32) ≤ BitVec.ofNat 32 age := by
        rw [BitVec.le_def, BitVec.toNat_ofNat, Nat.mod_eq_of_lt hb]
        show 1 ≤ age
        omega
      refine ⟨mem2, tc2, lists2, gone1 ++ gone2, ?_, (h1.mono hone).trans h2, hy2⟩
      rw [he1]
      dsimp only
      rw [he2, List.append_assoc]
    · next hc =>
      refine ⟨mem, tc, lists, [], by rw [List.append_nil], .refl _ h, ?_⟩
      by_cases h0 : age = 0
      · exact .inr (hy h0)
      · exact .inl (Nat.not_le.mp fun hle => hc ⟨h0, hle⟩)

theorem Cached.push (h : Cached mem tc lists) (ha : ∀ j, a ∉ lists j) (hi : i ≤ THREADCACHEMAXBINS) :
    Cached (cacheBlock mem tc a i (binSize i)).1 (cacheBlock mem tc a i (binSize i)).2
        (Function.update lists i (a :: lists i)) ∧
      HeadersApart (fun x => x = a ∨ x ∈ lists i) mem (cacheBlock mem tc a i (binSize i)).1 := by
  have hne : ∀ j, ∀ x ∈ lists j, x ≠ a := fun j x hx e => ha j (e ▸ hx)
  have h0 : HeadersApart (· = a) mem
      ⟨Function.update mem.lastUsed a (tc.frees + 1), Function.update mem.size a (binSize i), mem.links⟩ :=
    ⟨.refl _ _, fun x hx => Function.update_of_ne hx .., fun x hx => Function.update_of_ne hx ..⟩
  have hap := apart_pushFront (h.holds i) a
  refine ⟨?_, hap.mono ?_, fun x hx => h0.size x fun e => hx (.inl e),
    fun x hx => h0.lastUsed x fun e => hx (.inl e)⟩
  · refine (h.apart h0 hne).setBin hi (hap.mono fun x hx => ?_) ((h.holds i).push (ha i)) (fun x hx => ?_)
      (fun x hx => ?_) ?_
    · rcases List.mem_cons.mp hx with rfl | hx
      · exact .inr ha
      · exact .inl hx
    · rcases List.mem_cons.mp hx with rfl | hx
      · exact .inr ha
      · exact .inl hx
    · show Function.update mem.size a (binSize i) x = binSize i
      rcases List.mem_cons.mp hx with rfl | hx
      · exact Function.update_self ..
      · rw [Function.update_of_ne (hne i x hx)]
        exact h.size i x hx
    · rw [List.length_cons, Nat.succ_mul]
      omega
  · intro x hx
    rcases List.mem_cons.mp hx with rfl | hx
    · exact .inl rfl
    · exact .inr hx

/-- no block that is kept was freed after the last free -/
def Stamped (mem : Headers A) (tc : ThreadCache A) (lists : Nat → List A) : Prop :=
  ∀ i, ∀ x ∈ lists i, (mem.lastUsed x).toNat ≤ tc.frees.toNat

/-- the cache after `threadcache_free` -/
structure Freed (mem : Headers A) (tc : ThreadCache A) (lists : Nat → List A) (a : A) (idx : Nat)
    (mem' : Headers A) (tc' : ThreadCache A) (lists' : Nat → List A) (gone : List A) : Prop where
  cached : Cached mem' tc' lists'
  frees : tc'.frees = tc.frees + 1
  mymspace : tc'.mymspace = tc.mymspace
  lastUsed : mem'.lastUsed = Function.update mem.lastUsed a (tc.frees + 1)
  size : mem'.size = Function.update mem.size a (binSize idx)
  apart : HeadersApart (fun x => x = a ∨ ∃ i, x ∈ lists i) mem mem'
  mem_iff : ∀ x i, x ∈ lists' i ↔ x ∉ gone ∧ (x ∈ lists i ∨ x = a ∧ i = idx)
  kept : ∃ old, a :: lists idx = lists' idx ++ old
  lost : ∀ x ∈ gone, x = a ∨ ∃ i, x ∈ lists i
  nodup : gone.Nodup
  front : a ∉ gone

theorem mem_update_cons (x : A) (j : Nat) :
    x ∈ Function.update lists i (a :: lists i) j ↔ x ∈ lists j ∨ x = a ∧ j = i := by
  by_cases hj : j = i
  · subst hj
    rw [Function.update_self, List.mem_cons]
    exact ⟨fun h => h.elim (fun e => .inr ⟨e, rfl⟩) .inl, fun h => h.elim .inr fun e => .inl e.1⟩
  · rw [Function.update_of_ne hj]
    exact ⟨.inl, fun h => h.elim id fun e => absurd e.2 hj⟩

theorem Shrinks.freed {lists' : Nat → List A} (h : Cached mem tc lists) (ha : ∀ j, a ∉ lists j)
    (hi : i ≤ THREADCACHEMAXBINS) {gone : List A}
    (hs : Shrinks 1 (cacheBlock mem tc a i (binSize i)).1 (cacheBlock mem tc a i (binSize i)).2
      (Function.update lists i (a :: lists i)) mem' tc' lists' gone) :
    Freed mem tc lists a i mem' tc' lists' gone := by
  have hap := (h.push ha hi).2
  refine ⟨hs.cached, hs.frees, hs.mymspace, hs.lastUsed, hs.size,
    (hap.mono fun x hx => hx.imp id fun hx => ⟨i, hx⟩).trans (hs.apart.mono fun x ⟨j, hx⟩ => ?_),
    fun x j => ?_, ?_, fun x hx => ?_, hs.nodup, fun hg => ?_⟩
  · rcases (mem_update_cons x j).mp hx with hx | ⟨rfl, _⟩
    · exact .inr ⟨j, hx⟩
    · exact .inl rfl
  · rw [hs.mem_iff, mem_update_cons]
  · obtain ⟨old, he, _⟩ := hs.kept i
    rw [Function.update_self] at he
    exact ⟨old, he⟩
  · obtain ⟨⟨j, hx⟩, _⟩ := hs.lost x hx
    rcases (mem_update_cons x j).mp hx with hx | ⟨rfl, _⟩
    · exact .inr ⟨j, hx⟩
    · exact .inl rfl
  · have hone := hs.aged a hg
    have h0 : (cacheBlock mem tc a i (binSize i)).2.frees -
        (cacheBlock mem tc a i (binSize i)).1.lastUsed a = 0 := by
      show tc.frees + 1 - Function.update mem.lastUsed a (tc.frees + 1) a = 0
      rw [Function.update_self, BitVec.sub_self]
      rfl
    rw [h0] at hone
    exact absurd hone (by decide)

/-- **A block that is not in the cache is freed without an abort.** -/
theorem threadcache_free_spec (h : Cached mem tc lists) (ha : ∀ j, a ∉ lists j) {size : Nat}
    (hs : sizeofBlk ≤ size) (hm : size ≤ THREADCACHEMAX + CHUNK_OVERHEAD) :
    ∃ mem' tc' lists' gone, threadcache_free mem tc a size = some (mem', tc', gone) ∧
      Freed mem tc lists a (size2binidx size) mem' tc' lists' gone ∧
      (tc'.freeInCache < THREADCACHEMAXFREESPACE ∨ Young 1 mem' tc' lists' fun _ => True) := by
  have hi := size2binidx_le hs hm
  have hhead : (tc.bins (size2binidx size)).head ≠ some a :=
    fun e => ha _ (head_mem (h.holds _) e)
  unfold threadcache_free
  dsimp only
  rw [if_neg hhead]
  have hpush := (h.push ha hi).1
  split
  · obtain ⟨mem', tc', lists', gone, he, hsh, hy⟩ := releaseLoop_spec (THREADCACHEMAXFREESPACE / 8192 + 1)
      (THREADCACHEMAXFREESPACE / 8192) [] hpush (Nat.lt_succ_self _) (by decide) nofun
    exact ⟨mem', tc', lists', gone, he, hsh.freed h ha hi, hy⟩
  · next hlt => exact ⟨_, _, _, [], rfl, (Shrinks.refl 1 hpush).freed h ha hi, .inl (Nat.not_le.mp hlt)⟩

theorem space_single (hi : i ≤ THREADCACHEMAXBINS) (hl : (lists i).length ≤ 1)
    (hn : ∀ j, j ≠ i → lists j = []) : space lists (THREADCACHEMAXBINS + 1) ≤ binSize i := by
  have he : lists = Function.update (fun _ => []) i (lists i) := by
    funext j
    by_cases hj : j = i
    · rw [hj, Function.update_self]
    · rw [Function.update_of_ne hj, hn j hj]
  have hu := space_update (fun _ => []) (lists i)
    (show i < THREADCACHEMAXBINS + 1 from Nat.lt_succ_of_le hi)
  have hb := Nat.mul_le_mul_right (binSize i) hl
  rw [← he, space_nil, List.length_nil] at hu
  omega

section
variable {idx : Nat} {gone : List A} (hf : Freed mem tc lists a idx mem' tc' lists' gone)
  (hw : tc.frees.toNat + 1 < 4294967296)
include hf hw

theorem Freed.toNat_frees : tc'.frees.toNat = tc.frees.toNat + 1 := by
  rw [hf.frees, BitVec.toNat_add]
  exact Nat.mod_eq_of_lt hw

theorem Freed.stamped (hs : Stamped mem tc lists) : Stamped mem' tc' lists' := by
  intro i x hx
  rw [hf.toNat_frees hw, hf.lastUsed]
  by_cases hxa : x = a
  · refine Nat.le_of_eq ?_
    rw [hxa, Function.update_self, ← hf.frees, hf.toNat_frees hw]
  · rw [Function.update_of_ne hxa]
    rcases ((hf.mem_iff x i).mp hx).2 with hx | ⟨e, _⟩
    · exact Nat.le_succ_of_le (hs i x hx)
    · exact absurd e hxa

/-- **Before the counter of frees starts over, a cache never keeps `THREADCACHEMAXFREESPACE` bytes**: the
last pass leaves the block that was just freed, and nothing else. -/
theorem Freed.space (hs : Stamped mem tc lists) (ha : ∀ j, a ∉ lists j) (hi : idx ≤ THREADCACHEMAXBINS)
    (hy : tc'.freeInCache < THREADCACHEMAXFREESPACE ∨ Young 1 mem' tc' lists' fun _ => True) :
    tc'.freeInCache < THREADCACHEMAXFREESPACE := by
  rcases hy with hlt | hy
  · exact hlt
  -- the oldest block of a bin is the block that was freed
  have hlast : ∀ i x, (lists' i).getLast? = some x → x = a ∧ i = idx := by
    intro i x hx
    rcases ((hf.mem_iff x i).mp (List.mem_of_mem_getLast? hx)).2 with hm | ⟨e, ei⟩
    · exfalso
      apply hy i trivial x hx
      have hxa : x ≠ a := fun e => ha i (e ▸ hm)
      have hle := hs i x hm
      rw [hf.lastUsed, Function.update_of_ne hxa, BitVec.le_def, BitVec.toNat_sub, hf.toNat_frees hw]
      show 1 ≤ _
      omega
    · exact ⟨e, ei⟩
  have hother : ∀ j, j ≠ idx → lists' j = [] := by
    intro j hj
    obtain hl | ⟨l, x, hl⟩ := List.eq_nil_or_concat' (lists' j)
    · exact hl
    · exact absurd (hlast j x (by rw [hl, List.getLast?_concat])).2 hj
  have hlen : (lists' idx).length ≤ 1 := by
    obtain hl | ⟨l, x, hl⟩ := List.eq_nil_or_concat' (lists' idx)
    · rw [hl]
      exact Nat.zero_le 1
    · obtain ⟨old, he⟩ := hf.kept
      rw [hl, (hlast idx x (by rw [hl, List.getLast?_concat])).1, List.append_assoc] at he
      cases l with
      | nil =>
        rw [hl]
        exact Nat.le_refl 1
      | cons b l =>
        rw [List.cons_append, List.cons.injEq] at he
        exact absurd (he.2 ▸ List.mem_append_right l List.mem_cons_self) (ha idx)
  rw [hf.cached.space]
  exact Nat.lt_of_le_of_lt (Nat.le_trans (space_single hi hlen hother) (binSize_le hi)) (by decide)

end

end

end

end JMEngine.Memory
