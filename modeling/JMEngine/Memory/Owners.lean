import JMEngine.Lib.Ownership
import JMEngine.Lib.Runs
import JMEngine.Memory.Pool

/-!
# Where the blocks of the pool are

* `Pool.Placed`                every block of the mspaces is in one place: with the program, in one bin of one
                               cache, or it is the memory of a cache.
-/

set_option linter.unusedSectionVars false

namespace JMEngine.Memory
open DoublyLinked Ownership Runs

inductive Owner where
  | program
  | cache (slot : Nat)
  | bin (slot idx : Nat)

namespace Pool

section
variable {ι A : Type} [DecidableEq ι] [LinearOrder A]

def Owns (s : Pool ι A) (lists : Nat → Nat → List A) : Owner → A → Prop
  | .program, a => a ∈ s.live.map Prod.fst
  | .cache n, a => ∃ tc, s.caches n = some (a, tc)
  | .bin n i, a => a ∈ lists n i

def Allocated (s : Pool ι A) (a : A) : Prop := (s.mspaces a).isSome = true

/-- the address passes the test of `nedblkmstate` -/
def Above (s : Pool ι A) (a : A) : Prop := ∃ l, s.leastusedaddress = some l ∧ l ≤ a

/-- a block that can be in the bin `i` -/
def Kept (s : Pool ι A) (i : Nat) (a : A) : Prop :=
  ∃ m, s.mspaces a = some m ∧ binSize i ≤ m ∧ sizeofBlk ≤ m ∧ m ≤ THREADCACHEMAX + CHUNK_OVERHEAD ∧ s.Above a

/-- a block for a program that asked for `size` bytes, a `size_t` -/
def Given (s : Pool ι A) (a : A) (size : Nat) : Prop :=
  ∃ m, s.mspaces a = some m ∧ (size < 18446744073709551616 → size ≤ m) ∧ sizeofBlk ≤ m

/-- a cache after at most `k` frees -/
structure Within (k : Nat) (headers : Headers A) (tc : ThreadCache A) (lists : Nat → List A) : Prop where
  frees : tc.frees.toNat ≤ k
  stamped : Stamped headers tc lists
  space : tc.freeInCache < THREADCACHEMAXFREESPACE

/-- after `k` requests; the bins hold `lists` -/
structure Placed (k : Nat) (s : Pool ι A) (lists : Nat → Nat → List A) : Prop where
  cached : ∀ n c tc, s.caches n = some (c, tc) → Cached s.headers tc (lists n)
  empty : ∀ n, s.caches n = none → ∀ i, lists n i = []
  bound : ∀ n, THREADCACHEMAXCACHES ≤ n → s.caches n = none
  owned : Owned (s.Owns lists) s.Allocated
  live : (s.live.map Prod.fst).Nodup
  given : ∀ a size, (a, size) ∈ s.live → s.Given a size
  kept : ∀ n i, ∀ a ∈ lists n i, s.Kept i a
  small : ∀ a m, s.mspaces a = some m → m + CHUNK_OVERHEAD ≤ s.largestusedblock
  footed : ∀ a m, s.mspaces a = some m → s.Above (s.footers a)
  mine : ∀ t, 0 < s.mycache t → (s.caches (s.mycache t - 1).toNat).isSome = true
  distinct : ∀ t u, 0 < s.mycache t → s.mycache t = s.mycache u → t = u
  within : k < 4294967296 → ∀ n c tc, s.caches n = some (c, tc) → Within k s.headers tc (lists n)
  fault : s.fault = false

variable {k : Nat} {s s' : Pool ι A} {lists lists' : Nat → Nat → List A} {a b c : A} {n m size : Nat}
  {t : ι} {tc tc' : ThreadCache A} {mem : Headers A} {ls : Nat → List A}

theorem Within.mono {ls : Nat → List A} (h : Within k mem tc ls) : Within (k + 1) mem tc ls :=
  ⟨Nat.le_succ_of_le h.frees, h.stamped, h.space⟩

theorem Placed.mono (h : Placed k s lists) : Placed (k + 1) s lists :=
  { h with within := fun hk n c tc hc => (h.within (Nat.lt_of_succ_lt hk) n c tc hc).mono }

theorem placed_new (headers : Headers A) : Placed 0 (new headers : Pool ι A) fun _ _ => [] := by
  have hno : ∀ p a, ¬ (new headers : Pool ι A).Owns (fun _ _ => []) p a := by
    intro p a hp
    cases p with
    | program => cases hp
    | cache n => obtain ⟨_, h⟩ := hp; cases h
    | bin n i => cases hp
  exact ⟨nofun, fun _ _ _ => rfl, fun _ _ => rfl, ⟨fun p _ a hp => absurd hp (hno p a),
    fun a => ⟨nofun, fun ⟨p, hp⟩ => absurd hp (hno p a)⟩⟩, List.nodup_nil, nofun, nofun, nofun, nofun,
    nofun, nofun, fun _ => nofun, rfl⟩

theorem Given.frame (h : s.Given a size) (hm : s'.mspaces a = s.mspaces a) : s'.Given a size := by
  obtain ⟨v, hv, hr⟩ := h
  exact ⟨v, hm.trans hv, hr⟩

theorem Kept.frame {i : Nat} (h : s.Kept i a) (hm : s'.mspaces a = s.mspaces a)
    (ha : ∀ x, s.Above x → s'.Above x) : s'.Kept i a := by
  obtain ⟨v, hv, h1, h2, h3, h4⟩ := h
  exact ⟨v, hm.trans hv, h1, h2, h3, ha a h4⟩

/-! ## The blocks that the tests know -/

theorem below_eq_false (h : s.Above a) : s.below a = false := by
  obtain ⟨l, hl, hle⟩ := h
  unfold below
  rw [hl]
  exact decide_eq_false (not_lt.mpr hle)

theorem nedblksize_eq (hm : s.mspaces a = some m) (ha : s.Above a)
    (hs : m + CHUNK_OVERHEAD ≤ s.largestusedblock) (hf : s.Above (s.footers a)) : s.nedblksize a = m := by
  have hstate : s.nedblkmstate a = some (s.footers a) := by
    unfold nedblkmstate
    rw [hm, below_eq_false ha, below_eq_false hf]
    refine if_neg fun hc => ?_
    rcases hc with h | h | h
    · cases h
    · omega
    · cases h
  unfold nedblksize
  rw [hstate, hm]
  rfl

theorem mspaces_of_nedblksize (h : s.nedblksize a ≠ 0) : s.mspaces a = some (s.nedblksize a) := by
  unfold nedblksize at h ⊢
  cases hm : s.mspaces a with
  | none =>
    unfold nedblkmstate at h
    rw [hm] at h
    exact absurd rfl h
  | some m =>
    rw [hm] at h
    cases hs : s.nedblkmstate a with
    | none =>
      rw [hs] at h
      exact absurd rfl h
    | some fm => rfl

theorem Placed.asserts (h : Placed k s lists) {i : Nat} (ha : s.Kept i a) :
    binSize i ≤ s.nedblksize a ∧ sizeofBlk ≤ s.nedblksize a ∧
      s.nedblksize a ≤ THREADCACHEMAX + CHUNK_OVERHEAD := by
  obtain ⟨v, hv, h1, h2, h3, h4⟩ := ha
  rw [nedblksize_eq hv h4 (h.small a v hv) (h.footed a v hv)]
  exact ⟨h1, h2, h3⟩

theorem Placed.asserts_bin (h : Placed k s lists) {i : Nat} (ha : a ∈ lists n i) :
    binSize i ≠ 0 ∧ binSize i ≤ s.nedblksize a :=
  ⟨Nat.ne_of_gt (binSize_pos i), (h.asserts (h.kept n i a ha)).1⟩

/-- **A block of the program is taken for one of another allocator only if it lies below all addresses that
the mspaces had when they were last asked for a new block.** -/
theorem Placed.nedblksize_eq_zero_iff (h : Placed k s lists) (hm : s.mspaces a = some m) (hpos : m ≠ 0) :
    s.nedblksize a = 0 ↔ ¬ s.Above a := by
  constructor
  · intro h0 ha
    exact hpos ((nedblksize_eq hm ha (h.small a m hm) (h.footed a m hm)).symm.trans h0)
  · intro ha
    obtain ⟨l, hl, _⟩ := h.footed a m hm
    have hlt : a < l := not_le.mp fun hle => ha ⟨l, hl, hle⟩
    have hbelow : s.below a = true := by
      unfold below
      rw [hl]
      exact decide_eq_true hlt
    unfold nedblksize nedblkmstate
    rw [hm, hbelow]
    rfl

theorem nedblksize_callFree {x : A} (hx : x ≠ a) :
    nedblksize { s with mspaces := Function.update s.mspaces a none } x = s.nedblksize x := by
  unfold nedblksize nedblkmstate
  dsimp only
  rw [Function.update_of_ne hx]
  rfl

/-! ## What the blocks of one owner are not -/

section
variable (h : Placed k s lists)
include h

theorem Placed.allocated_of_live (ha : a ∈ s.live.map Prod.fst) : s.Allocated a :=
  (h.owned.all a).mpr ⟨.program, ha⟩

theorem Placed.not_bin_of_live (ha : a ∈ s.live.map Prod.fst) (n i : Nat) : a ∉ lists n i :=
  fun hb => by cases h.owned.one .program (.bin n i) a ha hb

theorem Placed.eq_of_bins {i j : Nat} (hn : a ∈ lists n i) (hm : a ∈ lists m j) : n = m ∧ i = j := by
  cases h.owned.one (.bin n i) (.bin m j) a hn hm
  exact ⟨rfl, rfl⟩

theorem Placed.not_allocated (ha : s.mspaces a = none) (p : Owner) : ¬ s.Owns lists p a := by
  intro hp
  have : s.Allocated a := (h.owned.all a).mpr ⟨p, hp⟩
  unfold Allocated at this
  rw [ha] at this
  cases this

end

/-! ## One cache changes -/

theorem owns_cache_update (hc : s.caches n = some (c, tc)) (tc' : ThreadCache A) :
    (∃ x, Function.update s.caches n (some (c, tc')) m = some (a, x)) ↔ ∃ x, s.caches m = some (a, x) := by
  by_cases hm : m = n
  · subst hm
    rw [Function.update_self, hc]
    constructor
    · rintro ⟨x, e⟩
      cases e
      exact ⟨tc, rfl⟩
    · rintro ⟨x, e⟩
      cases e
      exact ⟨tc', rfl⟩
  · rw [Function.update_of_ne hm]

/-- the cache `n` has got other lists, and nothing has happened to the headers of the blocks in other caches -/
theorem Placed.setCache (h : Placed k s lists) {k' : Nat} (hk : k ≤ k')
    (hc : s.caches n = some (c, tc)) {S : A → Prop} (hap : HeadersApart S s.headers mem)
    (hS : ∀ m, m ≠ n → ∀ i, ∀ x ∈ lists m i, ¬ S x) (hcached : Cached mem tc' ls)
    (hwithin : k' < 4294967296 → Within k' mem tc' ls) {mspaces : A → Option Nat} {live : List (A × Nat)}
    (hs' : s' = { s with
      headers := mem, caches := Function.update s.caches n (some (c, tc')), mspaces := mspaces, live := live })
    (hsub : ∀ x v, mspaces x = some v → s.mspaces x = some v)
    (howned : Owned (s'.Owns (Function.update lists n ls)) s'.Allocated)
    (hlive : (live.map Prod.fst).Nodup)
    (hgiven : ∀ a size, (a, size) ∈ live → s'.Given a size)
    (hkept : ∀ m i, ∀ a ∈ Function.update lists n ls m i, s'.Kept i a) :
    Placed k' s' (Function.update lists n ls) := by
  subst hs'
  refine ⟨fun m c' tc'' hm => ?_, fun m hm i => ?_, fun m hm => ?_, howned, hlive, hgiven, hkept,
    fun x v hv => h.small x v (hsub x v hv), fun x v hv => h.footed x v (hsub x v hv), fun t ht => ?_,
    h.distinct, fun hk' m c' tc'' hm => ?_, h.fault⟩
  · by_cases hmn : m = n
    · subst hmn
      simp only [Function.update_self, Option.some.injEq, Prod.mk.injEq] at hm ⊢
      rw [← hm.2]
      exact hcached
    · simp only [Function.update_of_ne hmn] at hm ⊢
      exact (h.cached m c' tc'' hm).apart hap (hS m hmn)
  · by_cases hmn : m = n
    · subst hmn
      simp only [Function.update_self, reduceCtorEq] at hm
    · simp only [Function.update_of_ne hmn] at hm ⊢
      exact h.empty m hm i
  · have hmn : m ≠ n := by
      rintro rfl
      rw [h.bound m hm] at hc
      cases hc
    exact (Function.update_of_ne hmn ..).trans (h.bound m hm)
  · have := h.mine t ht
    show (Function.update s.caches n (some (c, tc')) _).isSome = true
    by_cases hmn : (s.mycache t - 1).toNat = n
    · rw [hmn, Function.update_self]
      rfl
    · rwa [Function.update_of_ne hmn]
  · by_cases hmn : m = n
    · subst hmn
      simp only [Function.update_self, Option.some.injEq, Prod.mk.injEq] at hm ⊢
      rw [← hm.2]
      exact hwithin hk'
    · simp only [Function.update_of_ne hmn] at hm ⊢
      have hw := h.within (Nat.lt_of_le_of_lt hk hk') m c' tc'' hm
      refine ⟨Nat.le_trans hw.frees hk, fun i x hx => ?_, hw.space⟩
      rw [hap.lastUsed x (hS m hmn i x hx)]
      exact hw.stamped i x hx

theorem Placed.touch (h : Placed k s lists) (hc : s.caches n = some (c, tc))
    (hcached : Cached s.headers tc' (lists n)) (hf : tc'.frees = tc.frees)
    (hle : tc'.freeInCache ≤ tc.freeInCache) :
    Placed k { s with caches := Function.update s.caches n (some (c, tc')) } lists := by
  have hself : Function.update lists n (lists n) = lists := Function.update_eq_self n lists
  have h1 := h.setCache (Nat.le_refl k) hc (S := fun _ => False)
    ⟨.refl _ _, fun _ _ => rfl, fun _ _ => rfl⟩ (fun _ _ _ _ _ => id) hcached (fun hk => ?_) rfl
    (fun _ _ => id) ?_ h.live h.given (by rw [hself]; exact h.kept)
  · rwa [hself] at h1
  · have hw := h.within hk n c tc hc
    refine ⟨by rw [hf]; exact hw.frees, fun i x hx => ?_, Nat.lt_of_le_of_lt hle hw.space⟩
    rw [hf]
    exact hw.stamped i x hx
  · rw [hself]
    refine h.owned.congr (fun p x => ?_) fun x => Iff.rfl
    cases p with
    | program => exact Iff.rfl
    | cache j => exact owns_cache_update hc _
    | bin j i => exact Iff.rfl

theorem Placed.mem_take (h : Placed k s lists) (hc : s.caches n = some (c, tc)) {i : Nat} {l : List A}
    (hl : lists n i = b :: l) (m j : Nat) (a : A) :
    a ∈ Function.update lists n (Function.update (lists n) i l) m j ↔ a ≠ b ∧ a ∈ lists m j := by
  have hb : b ∈ lists n i := by rw [hl]; exact List.mem_cons_self
  have hbl : b ∉ l := by
    have hd := ((h.cached n c tc hc).holds i).nodup
    rw [hl] at hd
    exact (List.nodup_cons.mp hd).1
  constructor
  · intro ha
    by_cases hm : m = n
    · subst hm
      rw [Function.update_self] at ha
      by_cases hj : j = i
      · subst hj
        rw [Function.update_self] at ha
        exact ⟨fun e => hbl (e ▸ ha), by rw [hl]; exact List.mem_cons_of_mem b ha⟩
      · rw [Function.update_of_ne hj] at ha
        exact ⟨fun e => hj (h.eq_of_bins (e ▸ ha) hb).2, ha⟩
    · rw [Function.update_of_ne hm] at ha
      exact ⟨fun e => hm (h.eq_of_bins (e ▸ ha) hb).1, ha⟩
  · rintro ⟨hne, ha⟩
    by_cases hm : m = n
    · subst hm
      rw [Function.update_self]
      by_cases hj : j = i
      · subst hj
        rw [Function.update_self]
        rw [hl] at ha
        exact (List.mem_cons.mp ha).resolve_left hne
      · rwa [Function.update_of_ne hj]
    · rwa [Function.update_of_ne hm]

theorem Placed.take (h : Placed k s lists) (hc : s.caches n = some (c, tc)) {i : Nat} {l : List A}
    (hl : lists n i = b :: l) (hcached : Cached mem tc' (Function.update (lists n) i l))
    (hap : HeadersApart (· ∈ lists n i) s.headers mem) (hf : tc'.frees = tc.frees)
    (hu : mem.lastUsed = s.headers.lastUsed) (hspace : tc'.freeInCache ≤ tc.freeInCache)
    (hsize : size < 18446744073709551616 → size ≤ binSize i) :
    Placed k (give { s with headers := mem, caches := Function.update s.caches n (some (c, tc')) } b size)
      (Function.update lists n (Function.update (lists n) i l)) := by
  have hb : b ∈ lists n i := by rw [hl]; exact List.mem_cons_self
  have hlive : b ∉ s.live.map Prod.fst := fun hm => h.not_bin_of_live hm n i hb
  have hbins := h.mem_take hc hl
  refine h.setCache (Nat.le_refl k) hc hap
    (fun m hm j x hx hi => hm (h.eq_of_bins hx hi).1) hcached (fun hk => ?_) rfl (fun _ _ => id) ?_ ?_ ?_ ?_
  · have hw := h.within hk n c tc hc
    refine ⟨by rw [hf]; exact hw.frees, fun j x hx => ?_, Nat.lt_of_le_of_lt hspace hw.space⟩
    rw [hu, hf]
    refine hw.stamped j x ((hbins n j x).mp ?_).2
    rw [Function.update_self]
    exact hx
  · refine h.owned.give (q := .program) (b := b) (fun p a => ?_) fun a => ?_
    · cases p with
      | program =>
        show a ∈ b :: s.live.map Prod.fst ↔ _
        rw [List.mem_cons]
        by_cases e : a = b
        · exact ⟨fun _ => .inl ⟨e, rfl⟩, fun _ => .inl e⟩
        · exact ⟨fun ha => .inr ⟨e, ha.resolve_left e⟩,
            fun ha => ha.elim (fun ha => absurd ha.1 e) fun ha => .inr ha.2⟩
      | cache m =>
        refine (owns_cache_update hc tc').trans ⟨fun ha => .inr ⟨fun e => ?_, ha⟩, fun ha => ?_⟩
        · cases h.owned.one (.cache m) (.bin n i) a ha (e ▸ hb)
        · exact ha.elim (fun e => by cases e.2) fun ha => ha.2
      | bin m j =>
        refine (hbins m j a).trans ⟨.inr, fun ha => ha.elim (fun e => by cases e.2) id⟩
    · exact ⟨.inr, fun ha => ha.elim (fun e => (h.owned.all a).mpr ⟨.bin n i, e ▸ hb⟩) id⟩
  · exact List.nodup_cons.mpr ⟨hlive, h.live⟩
  · intro a size' hm
    rcases List.mem_cons.mp hm with e | hm
    · cases e
      obtain ⟨m, hm, hle, h32, _⟩ := h.kept n i b hb
      exact ⟨m, hm, fun hlt => Nat.le_trans (hsize hlt) hle, h32⟩
    · exact h.given a size' hm
  · exact fun m j a ha => h.kept m j a ((hbins m j a).mp ha).2

/-! ## Blocks go back to the mspaces -/

theorem callFrees_eq (gone : List A) (s : Pool ι A) (hd : gone.Nodup)
    (hg : ∀ x ∈ gone, s.headers.size x ≠ 0 ∧ s.headers.size x ≤ s.nedblksize x) :
    s.callFrees gone = { s with mspaces := fun x => if x ∈ gone then none else s.mspaces x } := by
  induction gone generalizing s with
  | nil => simp [callFrees]
  | cons a gone ih =>
    obtain ⟨ha, hd⟩ := List.nodup_cons.mp hd
    have hsize := hg a List.mem_cons_self
    have halloc : (s.mspaces a).isSome = true := by
      rw [mspaces_of_nedblksize (fun h0 => hsize.1 (Nat.le_zero.mp (h0 ▸ hsize.2)))]
      rfl
    have hfree : s.giveBack a = { s with mspaces := Function.update s.mspaces a none } :=
      (if_pos hsize).trans (if_pos halloc)
    show (s.giveBack a).callFrees gone = _
    rw [hfree, ih _ hd fun x hx => ?_]
    · congr 1
      funext x
      by_cases hx : x = a
      · simp [hx]
      · simp [hx]
    · have hne : x ≠ a := fun e => ha (e ▸ hx)
      rw [nedblksize_callFree hne]
      exact hg x (List.mem_cons_of_mem a hx)

theorem callFrees_frame (gone : List A) (s : Pool ι A) :
    (s.callFrees gone).caches = s.caches ∧ (s.callFrees gone).mycache = s.mycache ∧
      (s.callFrees gone).headers = s.headers := by
  induction gone generalizing s with
  | nil => exact ⟨rfl, rfl, rfl⟩
  | cons a gone ih =>
    obtain ⟨h1, h2, h3⟩ := ih (s.giveBack a)
    have hfree : (s.giveBack a).caches = s.caches ∧ (s.giveBack a).mycache = s.mycache ∧
        (s.giveBack a).headers = s.headers := by
      unfold giveBack CallFree
      split
      · split <;> exact ⟨rfl, rfl, rfl⟩
      · exact ⟨rfl, rfl, rfl⟩
    exact ⟨h1.trans hfree.1, h2.trans hfree.2.1, h3.trans hfree.2.2⟩

theorem allocated_remove {mspaces : A → Option Nat} (gone : List A) (a : A) :
    (if a ∈ gone then none else mspaces a).isSome = true ↔ a ∉ gone ∧ (mspaces a).isSome = true := by
  by_cases ha : a ∈ gone
  · simp [ha]
  · simp [ha]

theorem mspaces_remove {mspaces : A → Option Nat} (gone : List A) (x : A) (v : Nat)
    (h : (if x ∈ gone then none else mspaces x) = some v) : mspaces x = some v := by
  split at h
  · cases h
  · exact h

theorem eq_some_of_update {α β : Type} [DecidableEq α] {f : α → Option β} {x y : α} {v : β}
    (h : Function.update f x none y = some v) : f y = some v := by
  by_cases hy : y = x
  · rw [hy, Function.update_self] at h
    cases h
  · rwa [Function.update_of_ne hy] at h

theorem allocated_free {mspaces : A → Option Nat} (a x : A) :
    (Function.update mspaces a none x).isSome = true ↔ x ≠ a ∧ (mspaces x).isSome = true := by
  by_cases hx : x = a
  · simp [hx]
  · simp [hx]

theorem mem_drop_live : b ∈ (s.drop a).live.map Prod.fst ↔ b ≠ a ∧ b ∈ s.live.map Prod.fst := by
  simp only [drop, List.mem_map, List.mem_filter, decide_eq_true_eq]
  constructor
  · rintro ⟨p, ⟨hp, hne⟩, rfl⟩
    exact ⟨hne, p, hp, rfl⟩
  · rintro ⟨hne, p, hp, rfl⟩
    exact ⟨p, ⟨hp, hne⟩, rfl⟩

theorem drop_live_nodup (h : (s.live.map Prod.fst).Nodup) (a : A) :
    ((s.drop a).live.map Prod.fst).Nodup :=
  h.sublist (List.filter_sublist.map _)

section
variable {idx : Nat} {gone : List A}

theorem Placed.asserts_freed (h : Placed k s lists) (hc : s.caches n = some (c, tc))
    (ha : a ∈ s.live.map Prod.fst) (hf : Freed s.headers tc (lists n) a idx mem tc' ls gone)
    (hroom : s.Kept idx a) : ∀ x ∈ gone, mem.size x ≠ 0 ∧ mem.size x ≤ s.nedblksize x := by
  intro x hx
  rw [hf.size]
  rcases hf.lost x hx with rfl | ⟨i, hi⟩
  · rw [Function.update_self]
    exact ⟨Nat.ne_of_gt (binSize_pos idx), (h.asserts hroom).1⟩
  · have hne : x ≠ a := fun e => h.not_bin_of_live ha n i (e ▸ hi)
    rw [Function.update_of_ne hne, (h.cached n c tc hc).size i x hi]
    exact h.asserts_bin hi

theorem Placed.stay_freed (h : Placed k s lists) (hf : Freed s.headers tc (lists n) a idx mem tc' ls gone)
    {p : Owner} {x : A} (hp : s.Owns lists p x) (hne : x ≠ a) (hpn : ∀ i, p ≠ .bin n i) : x ∉ gone := by
  intro hg
  rcases hf.lost x hg with e | ⟨i, hi⟩
  · exact hne e
  · exact hpn i (h.owned.one p (.bin n i) x hp hi)

theorem Placed.mem_freed (h : Placed k s lists) (ha : a ∈ s.live.map Prod.fst)
    (hf : Freed s.headers tc (lists n) a idx mem tc' ls gone) (m j : Nat) (x : A) :
    x ∈ Function.update lists n ls m j ↔
      x ∉ gone ∧ (x = a ∧ Owner.bin m j = .bin n idx ∨ x ≠ a ∧ x ∈ lists m j) := by
  have hno := h.not_bin_of_live ha
  by_cases hm : m = n
  · subst hm
    rw [Function.update_self, hf.mem_iff]
    refine and_congr_right fun _ => ⟨fun hx => ?_, fun hx => ?_⟩
    · rcases hx with hx | ⟨e, ej⟩
      · exact .inr ⟨fun e => hno m j (e ▸ hx), hx⟩
      · exact .inl ⟨e, by rw [ej]⟩
    · rcases hx with ⟨e, ej⟩ | ⟨_, hx⟩
      · cases ej
        exact .inr ⟨e, rfl⟩
      · exact .inl hx
  · rw [Function.update_of_ne hm]
    constructor
    · intro hx
      have hne : x ≠ a := fun e => hno m j (e ▸ hx)
      exact ⟨h.stay_freed hf (p := .bin m j) hx hne fun i e => hm (by cases e; rfl), .inr ⟨hne, hx⟩⟩
    · rintro ⟨_, ⟨_, e⟩ | ⟨_, hx⟩⟩
      · cases e
        exact absurd rfl hm
      · exact hx

theorem Placed.kept_freed (h : Placed k s lists) (ha : a ∈ s.live.map Prod.fst)
    (hf : Freed s.headers tc (lists n) a idx mem tc' ls gone) (hroom : s.Kept idx a) {m j : Nat} {x : A}
    (hx : x ∈ Function.update lists n ls m j) : s.Kept j x := by
  rcases ((h.mem_freed ha hf m j x).mp hx).2 with ⟨rfl, e⟩ | ⟨_, hx⟩
  · cases e
    exact hroom
  · exact h.kept m j x hx

theorem Placed.freed (h : Placed k s lists) (hc : s.caches n = some (c, tc))
    (ha : a ∈ s.live.map Prod.fst) (hf : Freed s.headers tc (lists n) a idx mem tc' ls gone)
    (hw : k < 4294967295 → Within k s.headers tc (lists n) → tc'.freeInCache < THREADCACHEMAXFREESPACE)
    (hroom : s.Kept idx a) :
    Placed (k + 1) (callFrees { s.drop a with
      headers := mem, caches := Function.update s.caches n (some (c, tc')) } gone)
      (Function.update lists n ls) := by
  rw [callFrees_eq gone { s.drop a with
    headers := mem, caches := Function.update s.caches n (some (c, tc')) } hf.nodup
    (h.asserts_freed hc ha hf hroom)]
  refine h.setCache (Nat.le_succ k) hc hf.apart (fun m hm j x hx hS => ?_) hf.cached (fun hk => ?_) rfl
    (mspaces_remove gone) ?_ (drop_live_nodup h.live a) ?_ ?_
  · rcases hS with rfl | ⟨i, hi⟩
    · exact h.not_bin_of_live ha m j hx
    · exact hm (h.eq_of_bins hx hi).1
  · have hk' : k < 4294967295 := Nat.lt_of_succ_lt_succ hk
    have hwn := h.within (Nat.lt_of_succ_lt hk) n c tc hc
    have hlt : tc.frees.toNat + 1 < 4294967296 := by
      have := hwn.frees
      omega
    refine ⟨?_, hf.stamped hlt hwn.stamped, hw hk' hwn⟩
    rw [hf.toNat_frees hlt]
    exact Nat.succ_le_succ hwn.frees
  · refine Owned.remove (T := (· ∈ gone)) (h.owned.give (q := .bin n idx) (b := a)
      (fun p x => Iff.rfl) fun x => Iff.rfl) (fun p x => ?_) fun x => ?_
    · cases p with
      | program =>
        refine mem_drop_live.trans ⟨fun hx => ?_, fun hx => ?_⟩
        · exact ⟨h.stay_freed hf (p := .program) hx.2 hx.1 nofun, .inr hx⟩
        · exact hx.2.elim (fun e => by cases e.2) id
      | cache m =>
        refine (owns_cache_update hc tc').trans ⟨fun hx => ?_, fun hx => ?_⟩
        · have hne : x ≠ a := by
            rintro rfl
            cases h.owned.one (.cache m) .program x hx ha
          exact ⟨h.stay_freed hf (p := .cache m) hx hne nofun, .inr ⟨hne, hx⟩⟩
        · exact hx.2.elim (fun e => by cases e.2) And.right
      | bin m j => exact h.mem_freed ha hf m j x
    · refine (allocated_remove gone x).trans (and_congr_right fun _ => ?_)
      exact ⟨.inr, fun hx => hx.elim (fun e => by rw [e]; exact h.allocated_of_live ha) id⟩
  · intro x size hx
    obtain ⟨hx, hne⟩ := List.mem_filter.mp hx
    have hxl : x ∈ s.live.map Prod.fst := List.mem_map_of_mem hx
    exact (h.given x size hx).frame
      (if_neg (h.stay_freed hf (p := .program) hxl (of_decide_eq_true hne) nofun))
  · intro m j x hx
    exact (h.kept_freed ha hf hroom hx).frame (if_neg ((h.mem_freed ha hf m j x).mp hx).1) fun _ => id

end

theorem Placed.emptied (h : Placed k s lists) (hc : s.caches n = some (c, tc)) {gone : List A}
    (hs : Shrinks 0 s.headers { tc with frees := tc.frees + 1 } (lists n) mem tc' (fun _ => []) gone) :
    Placed (k + 1)
      (callFrees { s with headers := mem, caches := Function.update s.caches n (some (c, tc')) } gone)
      (Function.update lists n fun _ => []) := by
  have hasserts : ∀ x ∈ gone, mem.size x ≠ 0 ∧ mem.size x ≤ s.nedblksize x := by
    intro x hx
    obtain ⟨⟨i, hi⟩, _⟩ := hs.lost x hx
    rw [hs.size, (h.cached n c tc hc).size i x hi]
    exact h.asserts_bin hi
  have hstay : ∀ p x, s.Owns lists p x → (∀ i, p ≠ .bin n i) → x ∉ gone := by
    intro p x hp hpn hg
    obtain ⟨⟨i, hi⟩, _⟩ := hs.lost x hg
    exact hpn i (h.owned.one p (.bin n i) x hp hi)
  have hbins : ∀ m j x, x ∈ Function.update lists n (fun _ => []) m j ↔ x ∉ gone ∧ x ∈ lists m j := by
    intro m j x
    by_cases hm : m = n
    · subst hm
      rw [Function.update_self]
      exact hs.mem_iff
    · rw [Function.update_of_ne hm]
      exact ⟨fun hx => ⟨hstay (.bin m j) x hx fun i e => hm (by cases e; rfl), hx⟩, And.right⟩
  rw [callFrees_eq gone { s with headers := mem, caches := Function.update s.caches n (some (c, tc')) }
    hs.nodup hasserts]
  refine h.setCache (Nat.le_succ k) hc hs.apart (fun m hm j x hx hS => ?_) hs.cached (fun hk => ?_) rfl
    (mspaces_remove gone) ?_ h.live (fun x size hx => ?_) fun m j x hx => ?_
  · obtain ⟨i, hi⟩ := hS
    exact hm (h.eq_of_bins hx hi).1
  · refine ⟨?_, nofun, ?_⟩
    · have := (h.within (Nat.lt_of_succ_lt hk) n c tc hc).frees
      rw [hs.frees, BitVec.toNat_add]
      exact Nat.le_trans (Nat.mod_le _ _) (Nat.succ_le_succ this)
    · rw [hs.cached.space, space_nil]
      decide
  · refine h.owned.remove (T := (· ∈ gone)) (fun p x => ?_) fun x => allocated_remove gone x
    cases p with
    | program => exact ⟨fun hx => ⟨hstay .program x hx nofun, hx⟩, And.right⟩
    | cache m =>
      exact (owns_cache_update hc tc').trans ⟨fun hx => ⟨hstay (.cache m) x hx nofun, hx⟩, And.right⟩
    | bin m j => exact hbins m j x
  · exact (h.given x size hx).frame (if_neg (hstay .program x (List.mem_map_of_mem hx) nofun))
  · obtain ⟨hg, hx⟩ := (hbins m j x).mp hx
    exact (h.kept m j x hx).frame (if_neg hg) fun _ => id

theorem Placed.freeDirect (h : Placed k s lists) (ha : a ∈ s.live.map Prod.fst) :
    Placed k ((s.drop a).CallFree a) lists := by
  have hfree : (s.drop a).CallFree a = { s.drop a with mspaces := Function.update s.mspaces a none } :=
    if_pos (h.allocated_of_live ha)
  have hne : ∀ p x, s.Owns lists p x → p ≠ .program → x ≠ a := by
    intro p x hp hpn e
    exact hpn (h.owned.one p .program x hp (e ▸ ha))
  rw [hfree]
  refine ⟨h.cached, h.empty, h.bound, ?_, drop_live_nodup h.live a, fun x size hx => ?_, fun n i x hx => ?_,
    fun x v hv => h.small x v (eq_some_of_update hv), fun x v hv => h.footed x v (eq_some_of_update hv), h.mine,
    h.distinct, h.within, h.fault⟩
  · refine h.owned.remove (T := (· = a)) (fun p x => ?_) fun x => ?_
    · cases p with
      | program => exact mem_drop_live
      | cache n => exact ⟨fun hx => ⟨hne (.cache n) x hx nofun, hx⟩, And.right⟩
      | bin n i => exact ⟨fun hx => ⟨hne (.bin n i) x hx nofun, hx⟩, And.right⟩
    · exact allocated_free a x
  · obtain ⟨hx, hxa⟩ := List.mem_filter.mp hx
    exact (h.given x size hx).frame (Function.update_of_ne (of_decide_eq_true hxa) ..)
  · exact (h.kept n i x hx).frame (Function.update_of_ne (hne (.bin n i) x hx nofun) ..) fun _ => id

/-! ## Blocks come from the mspaces -/

theorem owned_fresh (h : Placed k s lists) (ha : s.mspaces a = none) {q : Owner}
    {s' : Pool ι A} (hm : s'.mspaces = Function.update s.mspaces a (some m))
    (hR : ∀ p x, s'.Owns lists p x ↔ x = a ∧ p = q ∨ s.Owns lists p x) :
    Owned (s'.Owns lists) s'.Allocated := by
  refine h.owned.give (q := q) (b := a) (fun p x => (hR p x).trans ?_) fun x => ?_
  · refine or_congr_right ⟨fun hp => ⟨fun e => h.not_allocated ha p (e ▸ hp), hp⟩, And.right⟩
  · unfold Allocated
    rw [hm]
    by_cases hx : x = a
    · simp [hx]
    · simp [hx]

theorem mspaces_fresh (ha : s.mspaces a = none) {x : A} {v : Nat} (hx : s.mspaces x = some v) (m : Option Nat) :
    Function.update s.mspaces a m x = s.mspaces x := by
  refine Function.update_of_ne ?_ ..
  rintro rfl
  rw [ha] at hx
  cases hx

theorem above_lower {x l : A} (h : s.Above x) : (s.lower l).Above x := by
  obtain ⟨l', hl, hle⟩ := h
  refine ⟨if l < l' then l else l', by unfold lower; rw [hl], ?_⟩
  split
  · next hlt => exact le_trans (le_of_lt hlt) hle
  · exact hle

theorem above_lower_of_le {x l : A} (h : l ≤ x) : (s.lower l).Above x := by
  unfold Above lower
  cases s.leastusedaddress with
  | none => exact ⟨l, rfl, h⟩
  | some l' =>
    refine ⟨if l < l' then l else l', rfl, ?_⟩
    split
    · exact h
    · next hlt => exact le_trans (not_lt.mp hlt) h

theorem Placed.lowered (h : Placed k s lists) (l : A) : Placed k (s.lower l) lists :=
  { h with
    kept := fun n i x hx => (h.kept n i x hx).frame rfl fun _ => above_lower
    footed := fun x v hv => above_lower (h.footed x v hv) }

theorem le_enter (s : Pool ι A) (p : Chunk A) :
    s.largestusedblock ≤ (s.enter p).largestusedblock ∧ p.chunksize ≤ (s.enter p).largestusedblock := by
  have hround : p.chunksize ≤ (p.chunksize + page_size) / page_size * page_size := by
    unfold page_size
    omega
  unfold enter
  dsimp only
  split
  · next hc =>
    refine ⟨?_, hround⟩
    rcases hc with h0 | hlt
    · rw [h0]
      exact Nat.zero_le _
    · exact Nat.le_trans (Nat.le_of_lt hlt) hround
  · next hc => exact ⟨Nat.le_refl _, by omega⟩

section
variable {p : Chunk A} (h : Placed k s lists) (ha : s.mspaces p.mem = none)
include h ha

theorem Placed.given_enter {x : A} (hx : (x, size) ∈ s.live) : (s.enter p).Given x size := by
  obtain ⟨v, hv, hr⟩ := h.given x size hx
  exact ⟨v, (mspaces_fresh ha hv _).trans hv, hr⟩

theorem Placed.kept_enter {i : Nat} {x : A} (hx : x ∈ lists n i) : (s.enter p).Kept i x := by
  obtain ⟨v, hv, hr⟩ := h.kept n i x hx
  exact ⟨v, (mspaces_fresh ha hv _).trans hv, hr⟩

theorem Placed.small_enter (x : A) (v : Nat) (hv : (s.enter p).mspaces x = some v) :
    v + CHUNK_OVERHEAD ≤ (s.enter p).largestusedblock := by
  by_cases hx : x = p.mem
  · have hself : (s.enter p).mspaces p.mem = some p.size := Function.update_self ..
    rw [hx, hself] at hv
    cases hv
    exact (le_enter s p).2
  · have hother : (s.enter p).mspaces x = s.mspaces x := Function.update_of_ne hx ..
    rw [hother] at hv
    exact Nat.le_trans (h.small x v hv) (le_enter s p).1

theorem Placed.footed_enter (hf : s.Above p.mstate) (x : A) (v : Nat)
    (hv : (s.enter p).mspaces x = some v) : (s.enter p).Above ((s.enter p).footers x) := by
  show s.Above (Function.update s.footers p.mem p.mstate x)
  by_cases hx : x = p.mem
  · rw [hx, Function.update_self]
    exact hf
  · have hother : (s.enter p).mspaces x = s.mspaces x := Function.update_of_ne hx ..
    rw [hother] at hv
    rw [Function.update_of_ne hx]
    exact h.footed x v hv

theorem Placed.fresh (hf : s.Above p.mstate) (hm : size < 18446744073709551616 → size ≤ p.size)
    (h32 : sizeofBlk ≤ p.size) : Placed k ((s.enter p).give p.mem size) lists := by
  refine ⟨h.cached, h.empty, h.bound, owned_fresh h ha (q := .program) (m := p.size) rfl fun o x => ?_,
    List.nodup_cons.mpr ⟨h.not_allocated ha .program, h.live⟩, fun x size' hx => ?_,
    fun n i x hx => h.kept_enter ha hx, h.small_enter ha, h.footed_enter ha hf, h.mine, h.distinct, h.within,
    h.fault⟩
  · cases o with
    | program =>
      refine (List.mem_cons (a := x) (b := p.mem)).trans (or_congr_left ?_)
      exact ⟨fun e => ⟨e, rfl⟩, And.left⟩
    | cache n => exact ⟨.inr, fun hx => hx.elim (fun e => by cases e.2) id⟩
    | bin n i => exact ⟨.inr, fun hx => hx.elim (fun e => by cases e.2) id⟩
  · rcases List.mem_cons.mp hx with e | hx
    · cases e
      exact ⟨p.size, Function.update_self .., hm, h32⟩
    · exact h.given_enter ha hx

theorem Placed.newCache (hf : s.Above p.mstate) (hb : n < THREADCACHEMAXCACHES) (hn : s.caches n = none)
    (home : Nat) :
    Placed k { s.enter p with caches := Function.update s.caches n (some (p.mem, .new home)) } lists := by
  have hnil : lists n = fun _ => [] := funext (h.empty n hn)
  refine ⟨fun j c' tc hj => ?_, fun j hj => ?_,
    fun j hj => (Function.update_of_ne (Nat.ne_of_gt (Nat.lt_of_lt_of_le hb hj)) ..).trans (h.bound j hj),
    owned_fresh h ha (q := .cache n) (m := p.size) rfl fun o x => ?_, h.live,
    fun x size hx => h.given_enter ha hx, fun j i x hx => h.kept_enter ha hx, h.small_enter ha,
    h.footed_enter ha hf, fun t ht => ?_, h.distinct, fun hk j c' tc hj => ?_, h.fault⟩
  · by_cases e : j = n
    · subst e
      simp only [Function.update_self, Option.some.injEq, Prod.mk.injEq] at hj
      rw [← hj.2, hnil]
      exact cached_new _ _
    · simp only [Function.update_of_ne e] at hj
      exact h.cached j c' tc hj
  · by_cases e : j = n
    · subst e
      simp only [Function.update_self, reduceCtorEq] at hj
    · simp only [Function.update_of_ne e] at hj
      exact h.empty j hj
  · cases o with
    | program => exact ⟨.inr, fun hx => hx.elim (fun e => by cases e.2) id⟩
    | cache j =>
      show (∃ tc, Function.update s.caches n _ j = some (x, tc)) ↔ _ ∨ ∃ tc, s.caches j = some (x, tc)
      by_cases e : j = n
      · subst e
        rw [Function.update_self, hn]
        constructor
        · rintro ⟨tc, e⟩
          cases e
          exact .inl ⟨rfl, rfl⟩
        · rintro (⟨rfl, _⟩ | ⟨_, e⟩)
          · exact ⟨_, rfl⟩
          · cases e
      · rw [Function.update_of_ne e]
        exact ⟨.inr, fun hx => hx.elim (fun he => absurd (Owner.cache.inj he.2) e) id⟩
    | bin j i => exact ⟨.inr, fun hx => hx.elim (fun e => by cases e.2) id⟩
  · show (Function.update s.caches n _ (s.mycache t - 1).toNat).isSome = true
    by_cases e : (s.mycache t - 1).toNat = n
    · rw [e, Function.update_self]
      rfl
    · rw [Function.update_of_ne e]
      exact h.mine t ht
  · by_cases e : j = n
    · subst e
      simp only [Function.update_self, Option.some.injEq, Prod.mk.injEq] at hj
      rw [← hj.2, hnil]
      exact ⟨Nat.zero_le k, nofun, show 0 < THREADCACHEMAXFREESPACE by decide⟩
    · simp only [Function.update_of_ne e] at hj
      exact h.within hk j c' tc hj

end

theorem Placed.dropCache (h : Placed k s lists) (hc : s.caches n = some (c, tc))
    (hnil : ∀ i, lists n i = []) (hno : ∀ t, 0 < s.mycache t → (s.mycache t - 1).toNat ≠ n) :
    Placed k (CallFree { s with caches := Function.update s.caches n none } c) lists := by
  have hown : s.Owns lists (.cache n) c := ⟨tc, hc⟩
  have hfree : CallFree { s with caches := Function.update s.caches n none } c =
      { s with caches := Function.update s.caches n none, mspaces := Function.update s.mspaces c none } :=
    if_pos ((h.owned.all c).mpr ⟨_, hown⟩)
  have hne : ∀ p x, s.Owns lists p x → p ≠ .cache n → x ≠ c :=
    fun p x hp hpn e => hpn (h.owned.one p _ x hp (e ▸ hown))
  rw [hfree]
  refine ⟨fun j c' tc hj => h.cached j c' tc (eq_some_of_update hj), fun j hj => ?_, fun j hj => ?_, ?_,
    h.live, fun x size hx => ?_, fun j i x hx => ?_, fun x v hv => h.small x v (eq_some_of_update hv),
    fun x v hv => h.footed x v (eq_some_of_update hv), fun t ht => ?_, h.distinct,
    fun hk j c' tc hj => h.within hk j c' tc (eq_some_of_update hj), h.fault⟩
  · by_cases e : j = n
    · rw [e]
      exact hnil
    · simp only [Function.update_of_ne e] at hj
      exact h.empty j hj
  · by_cases e : j = n
    · rw [e]
      exact Function.update_self ..
    · exact (Function.update_of_ne e ..).trans (h.bound j hj)
  · refine h.owned.remove (T := (· = c)) (fun p x => ?_) fun x => ?_
    · cases p with
      | program => exact ⟨fun hx => ⟨hne .program x hx nofun, hx⟩, And.right⟩
      | cache j =>
        show (∃ tc, Function.update s.caches n none j = some (x, tc)) ↔ _ ∧ ∃ tc, s.caches j = some (x, tc)
        by_cases e : j = n
        · subst e
          rw [Function.update_self, hc]
          constructor
          · rintro ⟨_, e⟩
            cases e
          · rintro ⟨hx, _, e⟩
            cases e
            exact absurd rfl hx
        · rw [Function.update_of_ne e]
          exact ⟨fun hx => ⟨hne (.cache j) x hx fun he => e (Owner.cache.inj he), hx⟩, And.right⟩
      | bin j i => exact ⟨fun hx => ⟨hne (.bin j i) x hx nofun, hx⟩, And.right⟩
    · exact allocated_free c x
  · exact (h.given x size hx).frame
      (Function.update_of_ne (hne .program x (List.mem_map_of_mem hx) nofun) ..)
  · exact (h.kept j i x hx).frame (Function.update_of_ne (hne (.bin j i) x hx nofun) ..) fun _ => id
  · show (Function.update s.caches n none _).isSome = true
    rw [Function.update_of_ne (hno t ht)]
    exact h.mine t ht

/-! ## The caches of the threads -/

theorem Placed.setMine (h : Placed k s lists) (t : ι) {v : Int} (hv : v ≤ 0) :
    Placed k { s with mycache := Function.update s.mycache t v } lists := by
  have hpos : ∀ u, 0 < Function.update s.mycache t v u → u ≠ t ∧ 0 < s.mycache u := by
    intro u hu
    by_cases e : u = t
    · rw [e, Function.update_self] at hu
      omega
    · rw [Function.update_of_ne e] at hu
      exact ⟨e, hu⟩
  refine { h with mine := fun u hu => ?_, distinct := fun u w hu he => ?_ }
  · obtain ⟨e, hu⟩ := hpos u hu
    show (s.caches (Function.update s.mycache t v u - 1).toNat).isSome = true
    rw [Function.update_of_ne e]
    exact h.mine u hu
  · have hw := hpos w (Eq.mp (congrArg (0 < ·) he) hu)
    have hu := hpos u hu
    simp only [Function.update_of_ne hu.1, Function.update_of_ne hw.1] at he
    exact h.distinct u w hu.2 he

theorem Placed.setSlot (h : Placed k s lists) (t : ι) (hn : (s.caches n).isSome = true)
    (hno : ∀ u, 0 < s.mycache u → (s.mycache u - 1).toNat ≠ n) :
    Placed k { s with mycache := Function.update s.mycache t (n + 1) } lists := by
  have hslot : ∀ u, u ≠ t → 0 < s.mycache u → s.mycache u ≠ (n : Int) + 1 := by
    intro u _ hu e
    exact hno u hu (by omega)
  refine { h with mine := fun u hu => ?_, distinct := fun u w hu he => ?_ }
  · show (s.caches (Function.update s.mycache t _ u - 1).toNat).isSome = true
    by_cases e : u = t
    · rw [e, Function.update_self, show ((n : Int) + 1 - 1).toNat = n by omega]
      exact hn
    · simp only [Function.update_of_ne e] at hu ⊢
      exact h.mine u hu
  · by_cases eu : u = t
    · by_cases ew : w = t
      · rw [eu, ew]
      · subst eu
        simp only [Function.update_self, Function.update_of_ne ew] at he
        exact absurd he.symm (hslot w ew (by omega))
    · simp only [Function.update_of_ne eu] at hu he
      by_cases ew : w = t
      · subst ew
        simp only [Function.update_self] at he
        exact absurd he (hslot u eu hu)
      · simp only [Function.update_of_ne ew] at he
        exact h.distinct u w hu he

end

end Pool

end JMEngine.Memory
