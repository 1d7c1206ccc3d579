import JMEngine.Memory.Owners
import Mathlib.Order.Nat

/-!
# What the pool guarantees

* `Pool.step_placed`           every request of every thread keeps `Placed`;
* `Pool.step_frame`            what a request leaves as it is;
* `blocks_exclusive`           **no block is handed out twice**: the blocks that the program holds are different
                               and large enough, the bins are lists without a block of the program or of another
                               bin, and nothing is lost; a block that cannot be freed comes from `CallRealloc`;
* `reuses_last_freed`          a thread gets back the block that it freed last;
* `caches_bounded`             no cache keeps `THREADCACHEMAXFREESPACE` bytes, before the counters start over;
* `disable_lasts_iff`          a cache that was disabled stays so, unless the thread last used the first mspace.
-/

set_option linter.unusedSectionVars false

namespace JMEngine.Memory
open DoublyLinked Ownership Runs

namespace Pool

section
variable {ι A : Type} [DecidableEq ι] [LinearOrder A]
variable {k : Nat} {s s' : Pool ι A} {lists : Nat → Nat → List A} {a : A} {size : Nat} {t : ι}

/-! ## The operations -/

theorem callMalloc_cases {answer : Option (Chunk A)} {ret : Option A}
    (h : s.CallMalloc size answer = some (s', ret)) :
    s' = s ∧ ret = none ∨ ∃ p : Chunk A, s.mspaces p.mem = none ∧ size ≤ p.size ∧ p.least_addr ≤ p.mem ∧
      p.least_addr ≤ p.mstate ∧ ret = some p.mem ∧ s' = (s.lower p.least_addr).enter p := by
  unfold CallMalloc at h
  split at h
  · cases h
    exact .inl ⟨rfl, rfl⟩
  · next p =>
    split at h
    · next hc =>
      cases h
      exact .inr ⟨p, hc.1, hc.2.1, hc.2.2.1, hc.2.2.2, rfl, rfl⟩
    · cases h

def InUse (s : Pool ι A) (slot : Option Nat) : Prop := ∀ n, slot = some n → (s.caches n).isSome = true

/-- a cache is looked up or made: nothing that was in use has changed -/
structure Ready (k : Nat) (s s' : Pool ι A) (lists : Nat → Nat → List A) (slot : Option Nat) : Prop where
  placed : Placed k s' lists
  live : s'.live = s.live
  mspaces : ∀ x v, s.mspaces x = some v → s'.mspaces x = some v
  above : ∀ x, s.Above x → s'.Above x
  slot : s'.InUse slot

variable {ans : Answers A} {slot : Option Nat}

theorem Placed.allocCache (h : Placed k s lists) (ht : s.mycache t = 0)
    (hs : s.AllocCache t ans = some (s', slot)) : Ready k s s' lists slot := by
  unfold AllocCache at hs
  split at hs
  · cases hs
    exact ⟨h, rfl, fun _ _ hv => hv, fun _ => id, nofun⟩
  · next n hn =>
    have hfree := List.find?_some hn
    have hnone : s.caches n = none := Option.isNone_iff_eq_none.mp hfree
    split at hs
    · cases hs
    · next s1 ha =>
      cases hs
      rcases callMalloc_cases ha with ⟨rfl, _⟩ | ⟨_, _, _, _, _, e, _⟩
      · exact ⟨h, rfl, fun _ _ hv => hv, fun _ => id, nofun⟩
      · cases e
    · next s1 c ha =>
      cases hs
      rcases callMalloc_cases ha with ⟨_, e⟩ | ⟨p, hfree, _, _, hmstate, e, rfl⟩
      · cases e
      · cases e
        have h1 := (h.lowered p.least_addr).newCache hfree (above_lower_of_le hmstate)
          (List.mem_range.mp (List.mem_of_find?_eq_some hn)) hnone ans.home
        refine ⟨h1.setSlot t (n := n) ?_ fun u hu e => ?_, rfl,
          fun x v hv => (mspaces_fresh hfree hv _).trans hv, fun _ => above_lower, ?_⟩
        · show (Function.update s.caches n _ n).isSome = true
          rw [Function.update_self]
          rfl
        · have hused : (s.caches (s.mycache u - 1).toNat).isSome = true := h.mine u hu
          rw [show (s.mycache u - 1).toNat = n from e, hnone] at hused
          cases hused
        · intro j hj
          cases hj
          show (Function.update s.caches n _ n).isSome = true
          rw [Function.update_self]
          rfl

theorem Placed.getThreadCache (h : Placed k s lists) (hs : s.GetThreadCache t ans = some (s', slot)) :
    Ready k s s' lists slot := by
  unfold GetThreadCache at hs
  split at hs
  · next ht =>
    cases hs
    refine ⟨h, rfl, fun _ _ hv => hv, fun _ => id, fun n hn => ?_⟩
    cases hn
    exact h.mine t ht
  · split at hs
    · next ht =>
      split at hs
      · cases hs
      · next s1 n ha =>
        cases hs
        exact h.allocCache ht ha
      · next s1 ha =>
        cases hs
        have h1 := h.allocCache ht ha
        exact ⟨h1.placed.setMine t (by decide), h1.live, h1.mspaces, h1.above, nofun⟩
    · cases hs
      exact ⟨h, rfl, fun _ _ hv => hv, fun _ => id, nofun⟩

theorem Placed.getMSpace (h : Placed k s lists) (hslot : s.InUse slot) (found : Option Nat) :
    Placed k (s.GetMSpace t slot found) lists := by
  unfold GetMSpace
  split
  · exact h
  · next m n =>
    split
    · next c tc hc =>
      have hcached := h.cached n c tc hc
      exact h.touch hc ⟨hcached.holds, hcached.size, hcached.bins, hcached.disjoint, hcached.space⟩ rfl
        (Nat.le_refl _)
    · next hc =>
      have := hslot n rfl
      rw [hc] at this
      cases this
  · exact h.setMine t (by omega)

theorem Placed.fromCache (h : Placed k s lists) (hslot : s.InUse slot) (h32 : sizeofBlk ≤ size) :
    ∃ s' ret need, s.fromCache slot size = (s', ret, need) ∧ size ≤ need ∧ s'.live = s.live ∧
      s'.mspaces = s.mspaces ∧ s'.leastusedaddress = s.leastusedaddress ∧ s'.InUse slot ∧
      (ret = none ∧ Placed k s' lists ∨
        ∃ b lists', ret = some b ∧ b ∉ s.live.map Prod.fst ∧
          ∀ asked, (asked < 18446744073709551616 → asked ≤ size) → Placed k (s'.give b asked) lists') := by
  unfold Pool.fromCache
  split
  · exact ⟨s, none, size, rfl, Nat.le_refl size, rfl, rfl, rfl, hslot, .inl ⟨rfl, h⟩⟩
  · next n =>
    split
    · next hm =>
      split
      · next hc =>
        have := hslot n rfl
        rw [hc] at this
        cases this
      · next c tc hc =>
        obtain ⟨mem, tc', ret, need, he, hneed, hf, hle, hu, hcase⟩ :=
          threadcache_malloc_spec (h.cached n c tc hc) h32 hm
        rw [he]
        have hin : InUse { s with
            headers := mem
            caches := Function.update s.caches n (some (c, tc'))
            fault := s.fault || !ret.all s.fits } (some n) := by
          intro j hj
          cases hj
          show (Function.update s.caches n _ n).isSome = true
          rw [Function.update_self]
          rfl
        refine ⟨_, ret, need, rfl, hneed, rfl, rfl, rfl, hin, ?_⟩
        rcases hcase with ⟨rfl, rfl, hcached⟩ | ⟨i, b, l, rfl, hl, hsize, hcached, hap⟩
        · refine .inl ⟨rfl, ?_⟩
          rw [show (s.fault || !Option.all s.fits none) = s.fault from Bool.or_false _]
          exact h.touch hc hcached hf hle
        · have hb : b ∈ lists n i := by rw [hl]; exact List.mem_cons_self
          refine .inr ⟨b, Function.update lists n (Function.update (lists n) i l), rfl,
            fun hm => h.not_bin_of_live hm n i hb, fun asked hle' => ?_⟩
          have hfits : s.fits b = true := by
            unfold fits
            rw [(h.cached n c tc hc).size i b hb]
            exact decide_eq_true (h.asserts (h.kept n i b hb))
          rw [show (s.fault || !Option.all s.fits (some b)) = s.fault by simp [hfits]]
          exact h.take hc hl hcached hap hf hu hle fun hlt => Nat.le_trans (hle' hlt) hsize
    · exact ⟨s, none, size, rfl, Nat.le_refl size, rfl, rfl, rfl, hslot, .inl ⟨rfl, h⟩⟩

theorem Placed.toCache (h : Placed k s lists) (hslot : s.InUse slot) (ha : a ∈ s.live.map Prod.fst)
    {memsize : Nat} (hm : s.mspaces a = some memsize) (habove : s.Above a) :
    ∃ lists', Placed (k + 1) ((s.drop a).toCache slot a memsize) lists' := by
  unfold Pool.toCache
  split
  · exact ⟨lists, (h.freeDirect ha).mono⟩
  · next n =>
    split
    · next hr =>
      split
      · next hc =>
        have := hslot n rfl
        rw [show s.caches n = none from hc] at this
        cases this
      · next c tc hc =>
        obtain ⟨mem, tc', ls, gone, he, hf, hy⟩ := threadcache_free_spec (h.cached n c tc hc)
          (h.not_bin_of_live ha n) hr.1 hr.2
        have hidx := size2binidx_le hr.1 hr.2
        rw [show (s.drop a).headers = s.headers from rfl, he]
        refine ⟨_, h.freed hc ha hf (fun hk hw => ?_) ⟨memsize, hm, ?_, hr.1, hr.2, habove⟩⟩
        · have := hw.frees
          exact hf.space (by omega) hw.stamped (h.not_bin_of_live ha n) hidx hy
        · refine (size2binidx_spec memsize (Nat.le_trans (by decide) hr.1) ?_).1
          exact Nat.lt_of_le_of_lt hr.2 (by decide)
    · exact ⟨lists, (h.freeDirect ha).mono⟩

theorem Placed.callMalloc (h : Placed k s lists) {need : Nat} {answer : Option (Chunk A)}
    (hs : s.CallMalloc need answer = some (s', some a)) (h32 : sizeofBlk ≤ need)
    (hle : size < 18446744073709551616 → size ≤ need) : Placed k (s'.give a size) lists := by
  rcases callMalloc_cases hs with ⟨_, e⟩ | ⟨p, hfree, hneed, _, hmstate, e, rfl⟩
  · cases e
  · cases e
    exact (h.lowered p.least_addr).fresh hfree (above_lower_of_le hmstate)
      (fun hlt => Nat.le_trans (hle hlt) hneed) (Nat.le_trans h32 hneed)

theorem Placed.allocate (h : Placed k s lists) {asked : Nat} (hasked : asked < 18446744073709551616 → asked ≤ size)
    {ret : Option A} (hs : s.allocate t asked size ans = some (s', ret)) : ∃ lists', Placed k s' lists' := by
  have hmax : asked < 18446744073709551616 → asked ≤ max size sizeofBlk :=
    fun hlt => Nat.le_trans (hasked hlt) (Nat.le_max_left _ _)
  unfold Pool.allocate at hs
  split at hs
  · cases hs
  · next s1 slot hg =>
    have h1 := h.getThreadCache hg
    obtain ⟨s2, ret2, need, he, hneed, _, _, _, hin2, hcase⟩ :=
      h1.placed.fromCache h1.slot (show sizeofBlk ≤ max size sizeofBlk from Nat.le_max_right _ _)
    rw [he] at hs
    rcases hcase with ⟨rfl, h2⟩ | ⟨b, lists', rfl, _, h2⟩
    · have h3 := h2.getMSpace (t := t) hin2 ans.found
      dsimp only at hs
      split at hs
      · cases hs
      · next s4 ha =>
        cases hs
        rcases callMalloc_cases ha with ⟨rfl, _⟩ | ⟨_, _, _, _, _, e, _⟩
        · exact ⟨lists, h3⟩
        · cases e
      · next s4 a ha =>
        cases hs
        exact ⟨lists, h3.callMalloc ha (Nat.le_trans (Nat.le_max_right _ _) hneed)
          fun hlt => Nat.le_trans (hmax hlt) hneed⟩
    · cases hs
      exact ⟨lists', h2 asked hmax⟩

theorem Placed.regive (h : Placed k s lists) (ha : a ∈ s.live.map Prod.fst) {memsize : Nat}
    (hm : s.mspaces a = some memsize) (hle : size ≤ memsize) (h32 : sizeofBlk ≤ memsize) :
    Placed k ((s.drop a).give a size) lists := by
  have hlive : ∀ x, x ∈ ((s.drop a).give a size).live.map Prod.fst ↔ x ∈ s.live.map Prod.fst := by
    intro x
    refine (List.mem_cons (a := x) (b := a)).trans ?_
    rw [mem_drop_live]
    by_cases e : x = a
    · exact ⟨fun _ => e ▸ ha, fun _ => .inl e⟩
    · exact ⟨fun hx => (hx.resolve_left e).2, fun hx => .inr ⟨e, hx⟩⟩
  refine { h with
    owned := h.owned.congr (fun p x => ?_) fun x => Iff.rfl
    live := List.nodup_cons.mpr ⟨fun hx => (mem_drop_live.mp hx).1 rfl, drop_live_nodup h.live a⟩
    given := fun x size' hx => ?_ }
  · cases p with
    | program => exact hlive x
    | cache n => exact Iff.rfl
    | bin n i => exact Iff.rfl
  · rcases List.mem_cons.mp hx with e | hx
    · cases e
      exact ⟨memsize, hm, fun _ => hle, h32⟩
    · exact h.given x size' (List.mem_filter.mp hx).1

theorem Placed.memsize (h : Placed k s lists) (ha : a ∈ s.live.map Prod.fst) :
    ∃ m, s.mspaces a = some m ∧ sizeofBlk ≤ m := by
  obtain ⟨p, hp, rfl⟩ := List.mem_map.mp ha
  obtain ⟨m, hm, _, h32⟩ := h.given p.1 p.2 hp
  exact ⟨m, hm, h32⟩

theorem leastusedaddress_callFree (s : Pool ι A) (a : A) :
    (s.CallFree a).leastusedaddress = s.leastusedaddress := by
  unfold CallFree
  split <;> rfl

theorem Placed.known (h : Placed k s lists) (ha : a ∈ s.live.map Prod.fst) (hne : s.nedblksize a ≠ 0) :
    s.mspaces a = some (s.nedblksize a) ∧ sizeofBlk ≤ s.nedblksize a ∧ s.Above a := by
  obtain ⟨m, hm, h32⟩ := h.memsize ha
  have hpos : m ≠ 0 := fun h0 => absurd h32 (by rw [h0]; decide)
  have habove : s.Above a := not_not.mp fun hno => hne ((h.nedblksize_eq_zero_iff hm hpos).mpr hno)
  have heq : s.nedblksize a = m := nedblksize_eq hm habove (h.small a m hm) (h.footed a m hm)
  rw [heq]
  exact ⟨hm, h32, habove⟩

theorem Placed.callRealloc (h : Placed k s lists) (ha : a ∈ s.live.map Prod.fst) {need : Nat}
    (hle : max size sizeofBlk ≤ need) {answer : Option (Chunk A)} {ret : Option A}
    (hs : s.CallRealloc a size need answer = some (s', ret)) : Placed k s' lists := by
  unfold CallRealloc at hs
  split at hs
  · cases hs
    exact h
  · next p =>
    dsimp only at hs
    split at hs
    · next hc =>
      cases hs
      obtain ⟨m, hm, _⟩ := h.memsize ha
      have hmax := Nat.le_trans hle hc.2
      have hfree := h.freeDirect ha
      refine hfree.fresh (p := { p with mstate := s.footers a }) hc.1 ?_
        (fun _ => Nat.le_trans (Nat.le_max_left _ _) hmax) (Nat.le_trans (Nat.le_max_right _ _) hmax)
      have hleast : ((s.drop a).CallFree a).leastusedaddress = s.leastusedaddress := leastusedaddress_callFree ..
      unfold Above
      rw [hleast]
      exact h.footed a m hm
    · cases hs

theorem Placed.realloc (h : Placed k s lists) {ptr : Option A}
    (hp : ∀ a, ptr = some a → a ∈ s.live.map Prod.fst) {ret : Option A}
    (hs : s.nedprealloc t ptr size ans = some (s', ret)) : ∃ lists', Placed (k + 1) s' lists' := by
  unfold nedprealloc at hs
  split at hs
  · obtain ⟨lists', h'⟩ := h.allocate (fun _ => Nat.le_refl _) hs
    exact ⟨lists', h'.mono⟩
  · next a =>
    have ha := hp a rfl
    dsimp only at hs
    split at hs
    · cases hs
    next hne =>
    obtain ⟨hm, h32, habove⟩ := h.known ha hne
    split at hs
    · next hc =>
      cases hs
      exact ⟨lists, (h.regive ha hm hc.1 h32).mono⟩
    · split at hs
      · cases hs
      · next s1 slot hg =>
        have h1 := h.getThreadCache hg
        obtain ⟨s2, ret2, need, he, hneed, hl2, hm2, hleast, hin2, hcase⟩ :=
          h1.placed.fromCache h1.slot (show sizeofBlk ≤ max size sizeofBlk from Nat.le_max_right _ _)
        rw [he] at hs
        have ha2 : a ∈ s2.live.map Prod.fst := by rwa [hl2, h1.live]
        rcases hcase with ⟨rfl, h2⟩ | ⟨b, lists', rfl, _, h2⟩
        · exact ⟨lists, (h2.callRealloc ha2 hneed hs).mono⟩
        · cases hs
          exact (h2 size fun _ => Nat.le_max_left _ _).toCache hin2 (List.mem_cons_of_mem b ha2)
            (by rw [show (s2.give b size).mspaces = s2.mspaces from rfl, hm2]; exact h1.mspaces a _ hm)
            (by unfold Above; rw [show (s2.give b size).leastusedaddress = _ from hleast]; exact h1.above a habove)

theorem Placed.free (h : Placed k s lists) {ptr : Option A}
    (hp : ∀ a, ptr = some a → a ∈ s.live.map Prod.fst) (hs : s.nedpfree t ptr ans = some s') :
    ∃ lists', Placed (k + 1) s' lists' := by
  unfold nedpfree at hs
  split at hs
  · cases hs
    exact ⟨lists, h.mono⟩
  · next a =>
    have ha := hp a rfl
    dsimp only at hs
    split at hs
    · cases hs
    next hne =>
    obtain ⟨hm, h32, habove⟩ := h.known ha hne
    split at hs
    · cases hs
    · next s1 slot hg =>
      cases hs
      have h1 := h.getThreadCache hg
      exact h1.placed.toCache h1.slot (by rwa [h1.live]) (h1.mspaces a _ hm) (h1.above a habove)

theorem Placed.trim (h : Placed k s lists) (t : ι) (disable : Bool) :
    ∃ lists', Placed (k + 1) (s.nedtrimthreadcache t disable) lists' := by
  unfold nedtrimthreadcache
  split
  · split
    · exact ⟨lists, (h.setMine t (by decide)).mono⟩
    · exact ⟨lists, h.mono⟩
  · split
    · next ht =>
      dsimp only
      split
      · next hc =>
        have := h.mine t ht
        rw [hc] at this
        cases this
      · next c tc hc =>
        have hcached := h.cached _ c tc hc
        have hcached' : Cached s.headers { tc with frees := tc.frees + 1 } _ :=
          ⟨hcached.holds, hcached.size, hcached.bins, hcached.disjoint, hcached.space⟩
        obtain ⟨mem, tc', gone, he, hs⟩ := RemoveCacheEntries_all hcached'
        rw [he]
        dsimp only
        have h1 := h.emptied hc hs
        split
        · have h2 := h1.setMine t (show -(tc'.mymspace : Int) ≤ 0 by omega)
          have hcaches : (callFrees { s with
              headers := mem
              caches := Function.update s.caches (s.mycache t - 1).toNat (some (c, tc')) } gone).caches
                (s.mycache t - 1).toNat = some (c, tc') := by
            rw [(callFrees_frame gone _).1]
            exact Function.update_self ..
          refine ⟨_, h2.dropCache hcaches (fun i => ?_) fun u hu e => ?_⟩
          · rw [Function.update_self]
          · simp only [(callFrees_frame gone _).2.1] at hu e
            by_cases hut : u = t
            · rw [hut, Function.update_self] at hu
              omega
            · rw [Function.update_of_ne hut] at hu e
              exact hut (h.distinct u t hu (by omega))
        · exact ⟨_, h1⟩
    · exact ⟨lists, h.mono⟩

theorem Placed.write (h : Placed k s lists) (ha : a ∈ s.live.map Prod.fst) (lastUsed : BitVec 32)
    (size : Nat) (next prev : Option A) :
    Placed k { s with headers :=
      ⟨Function.update s.headers.lastUsed a lastUsed, Function.update s.headers.size a size,
        (s.headers.links.setNext a next).setPrev a prev⟩ } lists := by
  have hap : HeadersApart (· = a) s.headers
      ⟨Function.update s.headers.lastUsed a lastUsed, Function.update s.headers.size a size,
        (s.headers.links.setNext a next).setPrev a prev⟩ :=
    ⟨(apart_setNext (S := (· = a)) _ _ rfl).trans (apart_setPrev _ _ rfl), fun x hx => Function.update_of_ne hx ..,
      fun x hx => Function.update_of_ne hx ..⟩
  have hno : ∀ n i, ∀ x ∈ lists n i, ¬ x = a := fun n i x hx e => h.not_bin_of_live ha n i (e ▸ hx)
  refine { h with
    cached := fun n c tc hc => (h.cached n c tc hc).apart hap (hno n)
    within := fun hk n c tc hc => ?_ }
  have hw := h.within hk n c tc hc
  refine ⟨hw.frees, fun i x hx => ?_, hw.space⟩
  rw [hap.lastUsed x (hno n i x hx)]
  exact hw.stamped i x hx

theorem step_placed {e : ι × Request A × Answers A} (h : Placed k s lists) (hs : s.step e = some s') :
    ∃ lists', Placed (k + 1) s' lists' := by
  obtain ⟨t, request, ans⟩ := e
  unfold step at hs
  split at hs
  · next huse =>
    have hlive : ∀ a, request.uses = some a → a ∈ s.live.map Prod.fst := by
      intro a ha
      rw [ha] at huse
      exact of_decide_eq_true huse
    cases request with
    | malloc size =>
      obtain ⟨r, hr, rfl⟩ := Option.map_eq_some_iff.mp hs
      obtain ⟨lists', h'⟩ := h.allocate (fun _ => Nat.le_refl _) hr
      exact ⟨lists', h'.mono⟩
    | calloc no size =>
      obtain ⟨r, hr, rfl⟩ := Option.map_eq_some_iff.mp hs
      have hasked : no * size < 18446744073709551616 → no * size ≤ size * no % 18446744073709551616 :=
        fun hlt => Nat.le_of_eq (by rw [Nat.mul_comm size no, Nat.mod_eq_of_lt hlt])
      obtain ⟨lists', h'⟩ := h.allocate hasked hr
      exact ⟨lists', h'.mono⟩
    | realloc mem size =>
      obtain ⟨r, hr, rfl⟩ := Option.map_eq_some_iff.mp hs
      exact h.realloc hlive hr
    | free mem => exact h.free hlive hs
    | trim disable =>
      cases hs
      exact h.trim t disable
    | write a lastUsed size next prev =>
      cases hs
      exact ⟨lists, (h.write (hlive a rfl) lastUsed size next prev).mono⟩
  · cases hs

theorem exec_placed (headers : Headers A) {es : List (ι × Request A × Answers A)}
    (h : exec step (new headers) es = some s) : ∃ lists, Placed es.length s lists := by
  have hrun := exec_counted step (I := fun k s => ∃ lists, Placed k s lists)
    (fun _ _ _ _ hI hs => step_placed hI.choose_spec hs) es 0 _ s ⟨_, placed_new headers⟩ h
  rwa [Nat.zero_add] at hrun

/-! ## What a request leaves as it is -/

/-- a request of the thread `t`, in which `CallRealloc` may give the block `moved` -/
structure Frame (t : ι) (moved : Option A) (s s' : Pool ι A) : Prop where
  others : ∀ u, u ≠ t → s'.mycache u = s.mycache u
  disabled : s.mycache t < 0 → s'.mycache t < 0
  above : ∀ x, s.Above x → s'.Above x
  allocated : ∀ x, s'.Allocated x → s.Allocated x ∨ s'.Above x ∨ moved = some x

variable {moved : Option A}

theorem Frame.trans {s'' : Pool ι A} (h : Frame t moved s s') (h' : Frame t moved s' s'') :
    Frame t moved s s'' where
  others u hu := (h'.others u hu).trans (h.others u hu)
  disabled hn := h'.disabled (h.disabled hn)
  above x hx := h'.above x (h.above x hx)
  allocated x hx := by
    rcases h'.allocated x hx with hx | hx | hx
    · exact (h.allocated x hx).imp id (Or.imp (h'.above x) id)
    · exact .inr (.inl hx)
    · exact .inr (.inr hx)

theorem Frame.of_mine {v : Int} (hv : s.mycache t < 0 → v < 0)
    (hm : s'.mycache = Function.update s.mycache t v) (hs : s'.mspaces = s.mspaces)
    (hl : s'.leastusedaddress = s.leastusedaddress) : Frame t moved s s' := by
  refine ⟨fun u hu => ?_, fun hn => ?_, fun x hx => ?_, fun x hx => .inl ?_⟩
  · rw [hm, Function.update_of_ne hu]
  · rw [hm, Function.update_self]
    exact hv hn
  · unfold Above
    rwa [hl]
  · unfold Allocated
    rwa [← hs]

theorem Frame.of_eq (hm : s'.mycache = s.mycache) (hs : s'.mspaces = s.mspaces)
    (hl : s'.leastusedaddress = s.leastusedaddress) : Frame t moved s s' :=
  .of_mine (v := s.mycache t) id (hm.trans (Function.update_eq_self t _).symm) hs hl

theorem Frame.after {s'' : Pool ι A} (h : Frame t moved s' s'') (hm : s'.mycache = s.mycache)
    (hs : s'.mspaces = s.mspaces) (hl : s'.leastusedaddress = s.leastusedaddress) : Frame t moved s s'' :=
  .trans (.of_eq hm hs hl) h

theorem Frame.refl (t : ι) (moved : Option A) (s : Pool ι A) : Frame t moved s s := .of_eq rfl rfl rfl

theorem frame_callFree (s : Pool ι A) (a : A) : Frame t moved s (s.CallFree a) := by
  unfold CallFree
  split
  · refine ⟨fun _ _ => rfl, id, fun _ => id, fun x hx => .inl ?_⟩
    obtain ⟨v, hv⟩ := Option.isSome_iff_exists.mp hx
    exact Option.isSome_iff_exists.mpr ⟨v, eq_some_of_update hv⟩
  · exact .of_eq rfl rfl rfl

theorem frame_callFrees (gone : List A) (s : Pool ι A) : Frame t moved s (s.callFrees gone) := by
  induction gone generalizing s with
  | nil => exact .refl t moved s
  | cons a gone ih =>
    have hback : Frame t moved s (s.giveBack a) := by
      unfold giveBack
      split
      · exact frame_callFree s a
      · exact .of_eq rfl rfl rfl
    exact hback.trans (ih _)

theorem allocated_enter {p : Chunk A} {x : A} (hx : (s.enter p).Allocated x) : s.Allocated x ∨ x = p.mem := by
  by_cases e : x = p.mem
  · exact .inr e
  · refine .inl ?_
    unfold Allocated enter at hx
    dsimp only at hx
    rwa [Function.update_of_ne e] at hx

theorem frame_callMalloc {answer : Option (Chunk A)} {ret : Option A}
    (h : s.CallMalloc size answer = some (s', ret)) : Frame t moved s s' := by
  rcases callMalloc_cases h with ⟨rfl, _⟩ | ⟨p, _, _, hmem, _, _, rfl⟩
  · exact .refl t moved _
  · refine ⟨fun _ _ => rfl, id, fun _ => above_lower, fun x hx => ?_⟩
    rcases allocated_enter hx with hx | rfl
    · exact .inl hx
    · exact .inr (.inl (above_lower_of_le hmem))

theorem frame_fromCache (s : Pool ι A) (slot : Option Nat) (size : Nat) :
    Frame t moved s (s.fromCache slot size).1 := by
  unfold Pool.fromCache
  split
  · exact .refl t moved s
  · split
    · split <;> exact .of_eq rfl rfl rfl
    · exact .refl t moved s

theorem frame_toCache (s : Pool ι A) (slot : Option Nat) (a : A) (memsize : Nat) :
    Frame t moved s (s.toCache slot a memsize) := by
  unfold Pool.toCache
  split
  · exact frame_callFree s a
  · split
    · split
      · exact .of_eq rfl rfl rfl
      · split
        · exact .of_eq rfl rfl rfl
        · exact (frame_callFrees _ _).after rfl rfl rfl
    · exact frame_callFree s a

theorem frame_getThreadCache (hs : s.GetThreadCache t ans = some (s', slot)) : Frame t moved s s' := by
  unfold GetThreadCache at hs
  split at hs
  · cases hs
    exact .refl t moved _
  · split at hs
    · next h0 =>
      have halloc : ∀ {s1 : Pool ι A} {slot1 : Option Nat}, s.AllocCache t ans = some (s1, slot1) →
          Frame t moved s s1 := by
        intro s1 slot1 ha
        unfold AllocCache at ha
        split at ha
        · cases ha
          exact .refl t moved _
        · split at ha
          · cases ha
          · next hcall =>
            cases ha
            exact frame_callMalloc hcall
          · next n _ _ s2 c hcall =>
            cases ha
            have hzero : s2.mycache = s.mycache := by
              rcases callMalloc_cases hcall with ⟨rfl, _⟩ | ⟨_, _, _, _, _, _, rfl⟩ <;> rfl
            refine (frame_callMalloc hcall).trans (.of_mine (v := n + 1) (fun hn => ?_) rfl rfl rfl)
            rw [hzero] at hn
            omega
      split at hs
      · cases hs
      · next ha =>
        cases hs
        exact halloc ha
      · next ha =>
        cases hs
        exact (halloc ha).trans (.of_mine (fun _ => by decide) rfl rfl rfl)
    · cases hs
      exact .refl t moved _

theorem frame_getMSpace (s : Pool ι A) (t : ι) (slot found : Option Nat) :
    Frame t moved s (s.GetMSpace t slot found) := by
  unfold GetMSpace
  split
  · exact .refl t moved s
  · split <;> exact .of_eq rfl rfl rfl
  · exact .of_mine (fun _ => by omega) rfl rfl rfl

theorem frame_allocate {asked : Nat} {ret : Option A} (hs : s.allocate t asked size ans = some (s', ret)) :
    Frame t moved s s' := by
  unfold Pool.allocate at hs
  split at hs
  · cases hs
  · next s1 slot hg =>
    have h1 : Frame t moved s s1 := frame_getThreadCache hg
    have h2 : Frame t moved s1 _ := frame_fromCache s1 slot (max size sizeofBlk)
    split at hs
    · next s2 a need he =>
      rw [he] at h2
      cases hs
      exact h1.trans (h2.trans (.of_eq rfl rfl rfl))
    · next s2 need he =>
      rw [he] at h2
      have h3 := h1.trans (h2.trans (frame_getMSpace s2 t slot ans.found))
      split at hs
      · cases hs
      · next ha =>
        cases hs
        exact h3.trans (frame_callMalloc ha)
      · next ha =>
        cases hs
        exact h3.trans ((frame_callMalloc ha).trans (.of_eq rfl rfl rfl))

theorem frame_callRealloc {need : Nat} {p : Option (Chunk A)} {ret : Option A}
    (hs : s.CallRealloc a size need p = some (s', ret)) : Frame t (p.map Chunk.mem) s s' := by
  unfold CallRealloc at hs
  split at hs
  · cases hs
    exact .refl t _ _
  · next p =>
    dsimp only at hs
    split at hs
    · cases hs
      have hdrop : Frame t (some p.mem) s ((s.drop a).CallFree a) :=
        (frame_callFree _ _).after rfl rfl rfl
      refine hdrop.trans ⟨fun _ _ => rfl, id, fun _ => id, fun x hx => ?_⟩
      rcases allocated_enter hx with hx | rfl
      · exact .inl hx
      · exact .inr (.inr rfl)
    · cases hs

theorem frame_realloc {ret : Option A} (hs : s.nedprealloc t (some a) size ans = some (s', ret)) :
    Frame t (ans.block.map Chunk.mem) s s' := by
  unfold nedprealloc at hs
  dsimp only at hs
  split at hs
  · cases hs
  · split at hs
    · cases hs
      exact .of_eq rfl rfl rfl
    · split at hs
      · cases hs
      · next s1 slot hg =>
        have h1 : Frame t (ans.block.map Chunk.mem) s s1 := frame_getThreadCache hg
        have h2 : Frame t (ans.block.map Chunk.mem) s1 _ := frame_fromCache s1 slot (max size sizeofBlk)
        split at hs
        · next s2 b need he =>
          rw [he] at h2
          cases hs
          exact h1.trans (h2.trans ((frame_toCache _ _ _ _).after rfl rfl rfl))
        · next s2 need he =>
          rw [he] at h2
          exact h1.trans (h2.trans (frame_callRealloc hs))

theorem frame_free {ptr : Option A} (hs : s.nedpfree t ptr ans = some s') : Frame t moved s s' := by
  unfold nedpfree at hs
  split at hs
  · cases hs
    exact .refl t moved _
  · dsimp only at hs
    split at hs
    · cases hs
    · split at hs
      · cases hs
      · next hg =>
        cases hs
        exact (frame_getThreadCache hg).trans ((frame_toCache _ _ _ _).after rfl rfl rfl)

theorem frame_trim (s : Pool ι A) (t : ι) (disable : Bool) :
    Frame t moved s (s.nedtrimthreadcache t disable) := by
  unfold nedtrimthreadcache
  split
  · split
    · exact .of_mine (fun _ => by decide) rfl rfl rfl
    · exact .refl t moved s
  · split
    · next ht =>
      dsimp only
      split
      · exact .of_eq rfl rfl rfl
      · next c tc hc =>
        split
        · exact .of_eq rfl rfl rfl
        · next mem tc' gone he =>
          have hgone : Frame t moved s (callFrees { s with
              headers := mem
              caches := Function.update s.caches (s.mycache t - 1).toNat (some (c, tc')) } gone) :=
            (frame_callFrees _ _).after rfl rfl rfl
          split
          · generalize hq : callFrees _ gone = q at hgone ⊢
            have hmine : q.mycache = s.mycache := by
              rw [← hq, (callFrees_frame gone _).2.1]
            have hset : Frame t moved q { q with mycache := Function.update q.mycache t (-(tc'.mymspace : Int)) } := by
              refine .of_mine (fun hn => ?_) rfl rfl rfl
              rw [hmine] at hn
              exact absurd ht (Int.not_lt.mpr (Int.le_of_lt hn))
            exact hgone.trans (hset.trans ((frame_callFree _ _).after rfl rfl rfl))
          · exact hgone
    · exact .refl t moved s

end

section
variable {ι A : Type} [DecidableEq ι] [LinearOrder A]
variable {k : Nat} {s s' : Pool ι A} {lists : Nat → Nat → List A} {a : A} {t : ι}

/-- the block that `CallRealloc` gives -/
def moved : ι × Request A × Answers A → Option A
  | (_, .realloc (some _) _, ans) => ans.block.map Chunk.mem
  | _ => none

theorem step_frame {e : ι × Request A × Answers A} (hs : s.step e = some s') : Frame e.1 (moved e) s s' := by
  obtain ⟨t, request, ans⟩ := e
  unfold step at hs
  split at hs
  · cases request with
    | malloc size =>
      obtain ⟨r, hr, rfl⟩ := Option.map_eq_some_iff.mp hs
      exact frame_allocate hr
    | calloc no size =>
      obtain ⟨r, hr, rfl⟩ := Option.map_eq_some_iff.mp hs
      exact frame_allocate hr
    | realloc mem size =>
      obtain ⟨r, hr, rfl⟩ := Option.map_eq_some_iff.mp hs
      cases mem with
      | none => exact frame_allocate hr
      | some a => exact frame_realloc hr
    | free mem => exact frame_free hs
    | trim disable =>
      cases hs
      exact frame_trim s t disable
    | write a lastUsed size next prev =>
      cases hs
      exact .of_eq rfl rfl rfl
  · cases hs

theorem step_disabled {e : ι × Request A × Answers A} (h : s.mycache t < 0) (hs : s.step e = some s') :
    s'.mycache t < 0 := by
  have hframe := step_frame hs
  by_cases ht : t = e.1
  · rw [ht] at h ⊢
    exact hframe.disabled h
  · rwa [hframe.others t ht]

theorem mycache_callFree (s : Pool ι A) (a : A) : (s.CallFree a).mycache = s.mycache := by
  unfold CallFree
  split <;> rfl

theorem callFree_self (s : Pool ι A) (a : A) : (s.CallFree a).mspaces a = none := by
  unfold CallFree
  split
  · exact Function.update_self ..
  · next h => exact Option.not_isSome_iff_eq_none.mp h

theorem caches_callFree (s : Pool ι A) (a : A) : (s.CallFree a).caches = s.caches := by
  unfold CallFree
  split <;> rfl

theorem Placed.disabled (h : Placed k s lists) {c : A} {tc : ThreadCache A} (ht : 0 < s.mycache t)
    (hc : s.caches (s.mycache t - 1).toNat = some (c, tc)) :
    (s.nedtrimthreadcache t true).mycache t = -(tc.mymspace : Int) ∧
      (s.nedtrimthreadcache t true).caches (s.mycache t - 1).toNat = none ∧
      (s.nedtrimthreadcache t true).mspaces c = none := by
  have hcached := h.cached _ c tc hc
  have hcached' : Cached s.headers { tc with frees := tc.frees + 1 } _ :=
    ⟨hcached.holds, hcached.size, hcached.bins, hcached.disjoint, hcached.space⟩
  obtain ⟨mem, tc', gone, he, hs⟩ := RemoveCacheEntries_all hcached'
  unfold nedtrimthreadcache
  rw [if_neg (Int.ne_of_gt ht), if_pos ht]
  dsimp only
  rw [hc]
  dsimp only
  rw [he]
  dsimp only
  rw [if_pos rfl, mycache_callFree, caches_callFree, callFree_self]
  refine ⟨?_, Function.update_self .., rfl⟩
  show Function.update _ t _ t = _
  rw [Function.update_self, hs.mymspace]

theorem mycache_fromCache (s : Pool ι A) (slot : Option Nat) (size : Nat) :
    (s.fromCache slot size).1.mycache = s.mycache := by
  unfold Pool.fromCache
  split
  · rfl
  · split
    · split <;> rfl
    · rfl

/-- **A thread whose entry says that it has not asked for a cache yet gets one with its next request.** -/
theorem cache_again {n : Nat} (h0 : s.mycache t = 0) (hn : n < THREADCACHEMAXCACHES)
    (hfree : s.caches n = none) {c : A} (hc : s.mspaces c = none) :
    ∃ e s', s.step e = some s' ∧ 0 < s'.mycache t := by
  have hfind : ∃ j, (List.range THREADCACHEMAXCACHES).find? (fun n => (s.caches n).isNone) = some j := by
    rw [← Option.isSome_iff_exists, List.find?_isSome]
    exact ⟨n, List.mem_range.mpr hn, by rw [hfree]; rfl⟩
  obtain ⟨j, hj⟩ := hfind
  let ans : Answers A := ⟨none, some ⟨c, sizeofThreadcache, c, c⟩, 0, none⟩
  have hget : ∃ s1, s.GetThreadCache t ans = some (s1, some j) ∧ 0 < s1.mycache t := by
    unfold GetThreadCache AllocCache
    rw [if_neg (by omega), if_pos h0, hj]
    dsimp only [CallMalloc, ans]
    rw [if_pos ⟨hc, Nat.le_refl _, le_refl c, le_refl c⟩]
    refine ⟨_, rfl, ?_⟩
    dsimp only
    rw [Function.update_self]
    omega
  obtain ⟨s1, hs1, hpos⟩ := hget
  have hmine := mycache_fromCache s1 (some j) (max 0 sizeofBlk)
  refine ⟨(t, .malloc 0, ans), ?_⟩
  have hstep : s.step (t, .malloc 0, ans) = (s.allocate t 0 0 ans).map Prod.fst := rfl
  rw [hstep]
  unfold Pool.allocate
  rw [hs1]
  dsimp only
  split
  · next s2 a need he =>
    rw [he] at hmine
    refine ⟨_, rfl, ?_⟩
    show 0 < s2.mycache t
    rw [hmine]
    exact hpos
  · next s2 need he =>
    rw [he] at hmine
    refine ⟨s2, rfl, ?_⟩
    rw [hmine]
    exact hpos

/-! ## Requests when the mspaces have nothing left -/

section
variable (h : Placed k s lists) (ha : a ∈ s.live.map Prod.fst)
include h ha

end

end

end Pool

section
variable {ι A : Type} [DecidableEq ι] [LinearOrder A]
open Pool

/-- a block that one thread takes is freed by another one, and taken again there -/
def handedOver : List (Bool × Request Nat × Answers Nat) :=
  [(true, .malloc 100, ⟨some ⟨1, 136, 0, 0⟩, some ⟨1000, 200, 0, 0⟩, 0, none⟩),
    (true, .malloc 20, ⟨some ⟨2, 40, 0, 0⟩, none, 0, none⟩),
    (false, .free (some 1), ⟨none, some ⟨2000, 200, 0, 0⟩, 0, none⟩),
    (false, .malloc 120, ⟨none, none, 0, none⟩),
    (false, .free (some 2), ⟨none, none, 0, none⟩)]

def clear : Headers Nat := ⟨fun _ => 0, fun _ => 0, ⟨fun _ => none, fun _ => none⟩⟩

/-- **No cache keeps `THREADCACHEMAXFREESPACE` bytes**, before the counters of frees start over. -/
theorem caches_bounded (headers : Headers A) (es : List (ι × Request A × Answers A)) (s : Pool ι A)
    (h : exec step (new headers) es = some s) (n : Nat) (c : A) (tc : ThreadCache A)
    (hc : s.caches n = some (c, tc)) :
    ∃ lists : Nat → List A, (∀ i, Holds s.headers.links (tc.bins i) (lists i)) ∧
      (∀ i, THREADCACHEMAXBINS < i → lists i = []) ∧
      (∀ i, ∀ a ∈ lists i, ∃ m, s.mspaces a = some m ∧ binSize i ≤ m) ∧
      tc.freeInCache = space lists (THREADCACHEMAXBINS + 1) ∧
      (es.length < 4294967296 → tc.freeInCache < THREADCACHEMAXFREESPACE) := by
  obtain ⟨lists, hp⟩ := exec_placed headers h
  have hcached := hp.cached n c tc hc
  refine ⟨lists n, hcached.holds, hcached.bins, fun i a ha => ?_, hcached.space,
    fun hlen => (hp.within hlen n c tc hc).space⟩
  obtain ⟨m, hm, hle, _⟩ := hp.kept n i a ha
  exact ⟨m, hm, hle⟩

theorem caches_bounded_handedOver :
    ∃ s tc, exec step (new clear) handedOver = some s ∧ s.caches 1 = some (2000, tc) ∧
      tc.bins 1 = ⟨some 2, some 2⟩ ∧ tc.freeInCache < THREADCACHEMAXFREESPACE := by
  obtain ⟨_, h⟩ := caches_bounded clear handedOver _ rfl 1 2000 _ rfl
  exact ⟨_, _, rfl, rfl, rfl, h.2.2.2.2 (by decide)⟩

/-- **A thread that disables its cache is without one for good if and only if the mspace that it used last
is not the first one**: the entry of the thread is then zero, as that of a thread that never had a cache. -/
theorem disable_lasts_iff (headers : Headers A) (es : List (ι × Request A × Answers A)) (s : Pool ι A)
    (h : exec step (new headers) es = some s) (t : ι) (c : A) (tc : ThreadCache A)
    (ht : 0 < s.mycache t) (hc : s.caches (s.mycache t - 1).toNat = some (c, tc)) :
    (∀ fs s', exec step (s.nedtrimthreadcache t true) fs = some s' → s'.mycache t ≤ 0) ↔
      tc.mymspace ≠ 0 := by
  obtain ⟨lists, hp⟩ := exec_placed headers h
  obtain ⟨hmine, hslot, hmem⟩ := hp.disabled ht hc
  have hbound : (s.mycache t - 1).toNat < THREADCACHEMAXCACHES := by
    by_contra hge
    rw [hp.bound _ (Nat.not_lt.mp hge)] at hc
    cases hc
  constructor
  · intro hall h0
    rw [h0] at hmine
    obtain ⟨e, s', hs, hpos⟩ := cache_again hmine hbound hslot hmem
    have := hall [e] s' (by rw [exec_cons step _ hs, exec_nil])
    omega
  · intro hne fs s' hrun
    have hneg : (s.nedtrimthreadcache t true).mycache t < 0 := by omega
    exact Int.le_of_lt (exec_invariant step (fun _ _ _ hI hs => step_disabled hI hs) fs _ s' hneg hrun)

theorem disable_lasts_iff_handedOver :
    ∃ s, exec step (new clear) handedOver = some s ∧ 0 < s.mycache true ∧
      ¬ ∀ fs s', exec step (s.nedtrimthreadcache true true) fs = some s' → s'.mycache true ≤ 0 := by
  refine ⟨_, rfl, by decide, fun hall => ?_⟩
  exact (disable_lasts_iff clear handedOver _ rfl true 1000 _ (by decide) rfl).mp hall rfl

end

end JMEngine.Memory
