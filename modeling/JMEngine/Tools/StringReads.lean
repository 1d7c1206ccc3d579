import JMEngine.Tools.StringLength

/-!
# What `stringLength` reads

The loop reads the byte under `pChar` before it tests the bound, and the byte behind it when the first
could begin a GB2312 pair.  The string is followed in memory by its NUL and by bytes of which nothing is
known.

* `stringReads`              the indices that a call reads, in order;
* `stringReads_isSome`       they stay inside the string exactly when `stringLength` is defined;
* `Pieces`                   a string that is cut by `advance` into whole pieces;
* `stringReads_iff`          **the reads stay inside exactly for such strings** (and for those whose length
                             is no `int`).
-/

set_option linter.unusedSectionVars false

namespace JMEngine.Tools
open Bytes

/-- the byte with index `i` from `c_str()` on -/
def memory (inStr beyond : List UInt8) (i : Nat) : UInt8 := ((inStr ++ 0 :: beyond)[i]?).getD 0

def looksAhead (value : Nat) : Bool :=
  !decide (value ≤ 0xfd ∧ value ≥ 0xc0) &&
    (decide (value ≥ 0xa1 ∧ value ≤ 0xa9) || decide (value ≥ 0xb0 ∧ value ≤ 0xf7))

/-- the loop of `stringLength_n`, as the list of the indices that it reads -/
def readsLoop (mem : Nat → UInt8) : Nat → Nat → Int → List Nat
  | 0, _, _ => []
  | fuel + 1, pChar, left =>
    pChar ::
      if 0 < left then
        (if looksAhead (mem pChar).toNat then [pChar + 1] else []) ++
          match advance (mem pChar).toNat (some (mem (pChar + 1)).toNat) with
          | some k => readsLoop mem fuel (pChar + k) (left - k)
          | none => []
      else []

/-- the reads of `stringLength(const string& inStr)` -/
def stringReads (inStr beyond : List UInt8) : List Nat :=
  readsLoop (memory inStr beyond) ((int32 inStr.length).toNat + 1) 0 (int32 inStr.length)

/-! ## one pass -/

theorem memory_drop {inStr : List UInt8} (beyond : List UInt8) {i : Nat} {v : UInt8} {rest : List UInt8}
    (h : (inStr ++ [0]).drop i = v :: rest) : memory inStr beyond i = v := by
  have hi : i < (inStr ++ [0]).length := by
    by_contra hge
    rw [List.drop_of_length_le (by omega)] at h
    cases h
  have hv : (inStr ++ [0])[i]? = some v := by
    rw [← List.head?_drop, h]
    rfl
  unfold memory
  rw [show inStr ++ 0 :: beyond = (inStr ++ [0]) ++ beyond from (List.append_cons inStr 0 beyond),
    List.getElem?_append_left hi, hv]
  rfl

theorem eq_zero_of_drop {inStr : List UInt8} {pChar : Nat} {v : UInt8}
    (h : (inStr ++ [0]).drop pChar = [v]) : v = 0 := by
  have hlen := congrArg List.length h
  rw [List.length_drop, List.length_append, List.length_singleton, List.length_singleton] at hlen
  obtain rfl : pChar = inStr.length := by omega
  rw [List.drop_left] at h
  exact (List.cons.inj h).1.symm

theorem memory_next {inStr : List UInt8} (beyond : List UInt8) {i : Nat} {v w : UInt8}
    {rest : List UInt8} (h : (inStr ++ [0]).drop i = v :: w :: rest) :
    memory inStr beyond (i + 1) = w := by
  have hrest : (inStr ++ [0]).drop (i + 1) = w :: rest := by
    rw [← List.drop_drop, h]
    rfl
  exact memory_drop beyond hrest

theorem advance_some (v : UInt8) (w : Nat) :
    ∃ k, advance v.toNat (some w) = some k ∧ 1 ≤ k ∧ k ≤ 3 := by
  have hbits : ∀ n < 256, 192 ≤ n → n &&& 0xc0 = 0xc0 := by decide +kernel
  unfold advance
  split
  · rename_i hv
    split
    · exact ⟨3, rfl, by omega, by omega⟩
    · rw [if_pos (hbits _ v.toNat_lt hv.2)]
      exact ⟨2, rfl, by omega, by omega⟩
  · split
    · rw [Option.map_some]
      split
      · exact ⟨2, rfl, by omega, by omega⟩
      · exact ⟨1, rfl, by omega, by omega⟩
    · split
      · rw [Option.map_some]
        split
        · exact ⟨2, rfl, by omega, by omega⟩
        · exact ⟨1, rfl, by omega, by omega⟩
      · exact ⟨1, rfl, by omega, by omega⟩

theorem readsLoop_pass (mem : Nat → UInt8) (fuel pChar : Nat) {left : Int} (hl : 0 < left) {k : Nat}
    (hk : advance (mem pChar).toNat (some (mem (pChar + 1)).toNat) = some k) :
    readsLoop mem (fuel + 1) pChar left =
      pChar :: ((if looksAhead (mem pChar).toNat then [pChar + 1] else []) ++
        readsLoop mem fuel (pChar + k) (left - k)) := by
  rw [readsLoop, if_pos hl, hk]

theorem readsLoop_stop (mem : Nat → UInt8) (fuel pChar : Nat) {left : Int} (hl : left ≤ 0) :
    readsLoop mem (fuel + 1) pChar left = [pChar] := by
  rw [readsLoop, if_neg (by omega)]

theorem mem_ahead {b : Bool} {i p : Nat} (h : i ∈ (if b then [p + 1] else [])) : i = p + 1 := by
  split at h
  · exact List.mem_singleton.mp h
  · cases h

/-! ## the reads and the result -/

theorem stringLengthLoop_isSome (inStr beyond : List UInt8) (fuel : Nat) :
    ∀ (pChar : Nat) (left : Int) (nlen : Nat), left.toNat < fuel →
      ((stringLengthLoop fuel ((inStr ++ [0]).drop pChar) left nlen).isSome = true ↔
        ∀ i ∈ readsLoop (memory inStr beyond) fuel pChar left, i ≤ inStr.length) := by
  induction fuel with
  | zero => exact fun _ _ _ h => absurd h (Nat.not_lt_zero _)
  | succ fuel ih =>
    intro pChar left nlen hfuel
    cases hd : (inStr ++ [0]).drop pChar with
    | nil =>
      have hge := List.drop_eq_nil_iff.mp hd
      rw [List.length_append, List.length_singleton] at hge
      refine ⟨(fun h => by cases h), fun h => ?_⟩
      have := h pChar (by rw [readsLoop]; exact List.mem_cons_self)
      omega
    | cons v rest =>
      have hlen := congrArg List.length hd
      rw [List.length_drop, List.length_append, List.length_singleton, List.length_cons] at hlen
      have hv := memory_drop beyond hd
      by_cases hl : 0 < left
      swap
      · rw [readsLoop_stop _ _ _ (by omega), stringLengthLoop, if_neg hl]
        refine ⟨fun _ i hi => ?_, fun _ => rfl⟩
        rw [List.mem_singleton.mp hi]
        omega
      obtain ⟨k, hk, hk', hahead⟩ : ∃ k, advance v.toNat (rest.head?.map UInt8.toNat) = some k ∧
          advance (memory inStr beyond pChar).toNat (some (memory inStr beyond (pChar + 1)).toNat) = some k ∧
          ∀ i ∈ (if looksAhead (memory inStr beyond pChar).toNat then [pChar + 1] else []),
            i ≤ inStr.length := by
        cases rest with
        | nil =>
          obtain rfl : v = 0 := eq_zero_of_drop hd
          rw [hv]
          refine ⟨1, rfl, advance_ascii 0 (by omega) _, fun i hi => ?_⟩
          cases hi
        | cons w rest =>
          obtain ⟨k, hk, _, _⟩ := advance_some v w.toNat
          rw [hv, memory_next beyond hd]
          refine ⟨k, hk, hk, fun i hi => ?_⟩
          rw [mem_ahead hi]
          rw [List.length_cons] at hlen
          omega
      obtain ⟨_, hk1, k1, _⟩ := advance_some (memory inStr beyond pChar) (memory inStr beyond (pChar + 1)).toNat
      have hkpos : 1 ≤ k := by
        rw [hk'] at hk1
        rw [Option.some.inj hk1]
        exact k1
      rw [readsLoop_pass _ fuel pChar hl hk', loop_pass fuel v rest left nlen k hl hk, ← hd, List.drop_drop,
        ih (pChar + k) (left - k) (nlen + 1) (by omega)]
      refine ⟨fun h i hi => ?_, fun h i hi => h i ?_⟩
      · rcases List.mem_cons.mp hi with hi | hi
        · omega
        · rcases List.mem_append.mp hi with hi | hi
          · exact hahead i hi
          · exact h i hi
      · exact List.mem_cons_of_mem _ (List.mem_append_right _ hi)

/-- **A call is defined exactly when its reads stay inside**, whatever the memory holds behind the NUL. -/
theorem stringReads_isSome (inStr beyond : List UInt8) :
    (stringLength inStr).isSome = true ↔ ∀ i ∈ stringReads inStr beyond, i ≤ inStr.length :=
  stringLengthLoop_isSome inStr beyond _ 0 _ 0 (Nat.lt_succ_self _)

/-! ## strings of whole pieces -/

/-- cut from its start as a pass of the loop cuts it (one byte, two for a lead byte up to `DF` or for a
GB2312 pair, three for a lead byte from `E0` on), no piece lacks a byte -/
inductive Pieces : List UInt8 → Prop
  | nil : Pieces []
  | cons {v : UInt8} {rest : List UInt8} {k : Nat}
      (h : advance v.toNat (some ((rest ++ [0]).headD 0).toNat) = some k) (hk : k ≤ (v :: rest).length)
      (ht : Pieces ((v :: rest).drop k)) : Pieces (v :: rest)

theorem pieces_cons_iff {v : UInt8} {rest : List UInt8} {k : Nat}
    (h : advance v.toNat (some ((rest ++ [0]).headD 0).toNat) = some k) :
    Pieces (v :: rest) ↔ k ≤ (v :: rest).length ∧ Pieces ((v :: rest).drop k) := by
  constructor
  · intro hp
    cases hp with
    | @cons _ _ k' h' hk' ht' =>
      have e : k' = k := Option.some.inj (h'.symm.trans h)
      subst e
      exact ⟨hk', ht'⟩
  · exact fun hp => Pieces.cons h hp.1 hp.2

/-- **The reads from a position on**, with the rest of the string as the bytes that are left: they stay
inside exactly when the rest is of whole pieces. -/
theorem readsLoop_inside (inStr beyond : List UInt8) (fuel : Nat) : ∀ pChar, pChar ≤ inStr.length →
    inStr.length - pChar < fuel →
    ((∀ i ∈ readsLoop (memory inStr beyond) fuel pChar ((inStr.length : Int) - pChar), i ≤ inStr.length) ↔
      Pieces (inStr.drop pChar)) := by
  induction fuel with
  | zero => exact fun _ _ h => absurd h (Nat.not_lt_zero _)
  | succ fuel ih =>
    intro pChar hle hfuel
    cases hd : inStr.drop pChar with
    | nil =>
      have hge : inStr.length ≤ pChar := List.drop_eq_nil_iff.mp hd
      rw [readsLoop_stop _ _ _ (by omega)]
      refine ⟨fun _ => .nil, fun _ i hi => ?_⟩
      rw [List.mem_singleton.mp hi]
      exact hle
    | cons v rest =>
      have hlen := congrArg List.length hd
      rw [List.length_drop] at hlen
      have hpos : 0 < inStr.length - pChar := by rw [hlen]; exact Nat.succ_pos _
      obtain ⟨k, hk, k1, _⟩ := advance_some v ((rest ++ [0]).headD 0).toNat
      have hk' : advance (memory inStr beyond pChar).toNat
          (some (memory inStr beyond (pChar + 1)).toNat) = some k := by
        have hd0 : (inStr ++ [0]).drop pChar = v :: (rest ++ [0]) := by
          rw [List.drop_append_of_le_length hle, hd]
          rfl
        obtain ⟨w, rest', hw⟩ := List.exists_cons_of_ne_nil (show rest ++ [0] ≠ [] by simp)
        rw [hw] at hd0 hk
        rw [memory_drop beyond hd0, memory_next beyond hd0]
        exact hk
      rw [readsLoop_pass _ fuel pChar (by omega) hk', pieces_cons_iff hk, ← hlen, ← hd, List.drop_drop]
      by_cases hfit : k ≤ inStr.length - pChar
      · have hnext := ih (pChar + k) (by omega) (by omega)
        rw [show ((inStr.length : Int) - pChar - k) = (inStr.length : Int) - (pChar + k : Nat) by omega]
        refine ⟨fun h => ⟨hfit, hnext.mp fun i hi => h i ?_⟩, fun h i hi => ?_⟩
        · exact List.mem_cons_of_mem _ (List.mem_append_right _ hi)
        · rcases List.mem_cons.mp hi with hi | hi
          · omega
          · rcases List.mem_append.mp hi with hi | hi
            · have := mem_ahead hi
              omega
            · exact hnext.mpr h.2 i hi
      · refine ⟨fun h => ?_, fun h => absurd h.1 hfit⟩
        have hread : pChar + k ∈ readsLoop (memory inStr beyond) fuel (pChar + k)
            ((inStr.length : Int) - pChar - k) := by
          obtain ⟨fuel', rfl⟩ : ∃ f, fuel = f + 1 := ⟨fuel - 1, by omega⟩
          rw [readsLoop]
          exact List.mem_cons_self
        have := h _ (List.mem_cons_of_mem _ (List.mem_append_right _ hread))
        omega

theorem readsLoop_le (mem : Nat → UInt8) (fuel : Nat) : ∀ (pChar : Nat) (left : Int),
    ∀ i ∈ readsLoop mem fuel pChar left, (i : Int) ≤ pChar ∨ (i : Int) ≤ pChar + left + 2 := by
  induction fuel with
  | zero => exact fun _ _ _ hi => by cases hi
  | succ fuel ih =>
    intro pChar left i hi
    by_cases hl : 0 < left
    · obtain ⟨k, hk, k1, k3⟩ := advance_some (mem pChar) (mem (pChar + 1)).toNat
      rw [readsLoop_pass mem fuel pChar hl hk] at hi
      rcases List.mem_cons.mp hi with hi | hi
      · omega
      · rcases List.mem_append.mp hi with hi | hi
        · have := mem_ahead hi
          omega
        · have := ih (pChar + k) (left - k) i hi
          omega
    · rw [readsLoop_stop mem fuel pChar (by omega)] at hi
      have := List.mem_singleton.mp hi
      omega

/-- **`stringLength` stays inside the string exactly when the string is of whole pieces**, or so long
that its length is no `int`. -/
theorem stringReads_iff (inStr beyond : List UInt8) :
    (∀ i ∈ stringReads inStr beyond, i ≤ inStr.length) ↔
      (2147483648 ≤ inStr.length ∨ Pieces inStr) := by
  unfold stringReads
  by_cases hn : inStr.length < 2147483648
  · have hint : int32 inStr.length = inStr.length := int32_of_range _ (by omega) (by omega)
    rw [hint]
    have h := readsLoop_inside inStr beyond (inStr.length + 1) 0 (Nat.zero_le _) (by omega)
    rw [List.drop_zero] at h
    simp only [Int.natCast_zero, Int.sub_zero] at h
    rw [Int.toNat_natCast, h]
    exact ⟨Or.inr, fun h => h.resolve_left (by omega)⟩
  · refine ⟨fun _ => Or.inl (by omega), fun _ i hi => ?_⟩
    have hi' := readsLoop_le _ _ 0 _ i hi
    have hr := int32_range inStr.length
    by_cases hn' : inStr.length < 4294967296
    · rw [int32_upper _ (by omega) (by omega)] at hi'
      omega
    · omega

/-- a string that ends within a character: the byte behind the NUL, and one more, are not its own -/
theorem stringReads_truncated : ¬ ∀ i ∈ stringReads [0xe4] [0xb8, 0xad], i ≤ [(0xe4 : UInt8)].length := by
  decide +kernel

end JMEngine.Tools
