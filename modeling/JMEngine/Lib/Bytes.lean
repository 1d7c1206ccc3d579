import Mathlib.Data.List.Basic
import Mathlib.Tactic.Ring

/-!
# Flat memory as a list: slices, patches, little-endian words, C integer conversions

* `slice xs i k`    the `k` cells of `xs` from `i` on;
* `patch xs i ys`   `xs` with the cells from `i` on overwritten by `ys` (`memcpy`, `memset`);
* `leBytes w x`     the `w` low bytes of `x`, least significant first, and `leNat`, its inverse;
* `memcpy`, `memmove`, `memset`   inside one block of memory; `none` is undefined behaviour: an
                    access outside the block, or a `memcpy` whose two ranges overlap;
* `int32 x`         conversion to a 32-bit `int`;
* `sizeT x`         conversion to a 64-bit `size_t`.
-/

set_option linter.unusedSectionVars false

namespace Bytes

section
variable {α : Type}

/-- `k` cells from `i` on -/
def slice (xs : List α) (i k : Nat) : List α := (xs.drop i).take k

/-- overwrite the cells from `i` on -/
def patch (xs : List α) (i : Nat) (ys : List α) : List α :=
  xs.take i ++ ys ++ xs.drop (i + ys.length)

theorem length_slice (xs : List α) (i k : Nat) (h : i + k ≤ xs.length) :
    (slice xs i k).length = k := by
  unfold slice
  rw [List.length_take, List.length_drop]
  omega

theorem slice_zero (xs : List α) (i : Nat) : slice xs i 0 = [] := by
  unfold slice
  rw [List.take_zero]

theorem slice_add (xs : List α) (i j k : Nat) :
    slice xs i (j + k) = slice xs i j ++ slice xs (i + j) k := by
  unfold slice
  rw [List.take_add, List.drop_drop]

theorem take_slice (xs : List α) (i j k : Nat) (h : j ≤ k) :
    (slice xs i k).take j = slice xs i j := by
  unfold slice
  rw [List.take_take, Nat.min_eq_left h]

theorem drop_slice (xs : List α) (i j k : Nat) :
    (slice xs i k).drop j = slice xs (i + j) (k - j) := by
  unfold slice
  rw [List.drop_take, List.drop_drop]

theorem length_patch (xs ys : List α) (i : Nat) (h : i + ys.length ≤ xs.length) :
    (patch xs i ys).length = xs.length := by
  unfold patch
  rw [List.length_append, List.length_append, List.length_take, List.length_drop]
  omega

theorem slice_patch_self (xs ys : List α) (i : Nat) (h : i ≤ xs.length) :
    slice (patch xs i ys) i ys.length = ys := by
  unfold slice patch
  have e : (xs.take i).length = i := by rw [List.length_take]; omega
  rw [List.append_assoc, List.drop_append_of_le_length (by omega), List.drop_of_length_le (by omega),
    List.nil_append, List.take_left]

theorem slice_patch_before (xs ys : List α) (i j k : Nat) (hi : i ≤ xs.length) (h : j + k ≤ i) :
    slice (patch xs i ys) j k = slice xs j k := by
  unfold slice patch
  have e : (xs.take i).length = i := by rw [List.length_take]; omega
  rw [List.append_assoc, List.drop_append_of_le_length (by omega),
    List.take_append_of_le_length (by rw [List.length_drop]; omega), List.drop_take, List.take_take,
    Nat.min_eq_left (by omega)]

theorem slice_patch_end (xs ys : List α) (i j : Nat) (hi : i ≤ xs.length) (hj : j ≤ i) :
    slice (patch xs i ys) j (i + ys.length - j) = slice xs j (i - j) ++ ys := by
  have e : i + ys.length - j = (i - j) + ys.length := by omega
  have e' : j + (i - j) = i := by omega
  rw [e, slice_add, slice_patch_before xs ys i j (i - j) hi (by omega), e', slice_patch_self xs ys i hi]

/-! ## the C library's block operations -/

def memcpy (mem : List α) (dst src len : Nat) : Option (List α) :=
  if src + len ≤ mem.length ∧ dst + len ≤ mem.length ∧ (dst + len ≤ src ∨ src + len ≤ dst) then
    some (patch mem dst (slice mem src len))
  else none

def memmove (mem : List α) (dst src len : Nat) : Option (List α) :=
  if src + len ≤ mem.length ∧ dst + len ≤ mem.length then some (patch mem dst (slice mem src len))
  else none

def memset (mem : List α) (dst : Nat) (x : α) (len : Nat) : Option (List α) :=
  if dst + len ≤ mem.length then some (patch mem dst (List.replicate len x)) else none

end

/-! ## little-endian words -/

def leBytes : Nat → Nat → List UInt8
  | 0, _ => []
  | w+1, x => UInt8.ofNat x :: leBytes w (x / 256)

def leNat : List UInt8 → Nat
  | [] => 0
  | b :: bs => b.toNat + 256 * leNat bs

@[simp] theorem length_leBytes (w x : Nat) : (leBytes w x).length = w := by
  induction w generalizing x with
  | zero => rfl
  | succ w ih => rw [leBytes, List.length_cons, ih]

theorem leNat_leBytes (w x : Nat) (h : x < 256^w) : leNat (leBytes w x) = x := by
  induction w generalizing x with
  | zero =>
    have : x = 0 := by simpa using h
    rw [this]; rfl
  | succ w ih =>
    have hd : x / 256 < 256^w := by
      rw [Nat.div_lt_iff_lt_mul (by norm_num), ← pow_succ]; exact h
    rw [leBytes, leNat, ih _ hd]
    have hb : (UInt8.ofNat x).toNat = x % 256 := by simp
    rw [hb]
    omega

/-! ## conversions between C integer types (LP64) -/

def int32 (x : Int) : Int :=
  if x % 4294967296 < 2147483648 then x % 4294967296 else x % 4294967296 - 4294967296

def sizeT (x : Int) : Nat := (x % 18446744073709551616).toNat

theorem int32_of_range (x : Int) (h1 : -2147483648 ≤ x) (h2 : x < 2147483648) : int32 x = x := by
  unfold int32
  split <;> omega

theorem int32_range (x : Int) : -2147483648 ≤ int32 x ∧ int32 x < 2147483648 := by
  unfold int32
  split <;> omega

theorem int32_upper (x : Int) (h1 : 2147483648 ≤ x) (h2 : x < 4294967296) :
    int32 x = x - 4294967296 := by
  unfold int32
  split <;> omega

theorem int32_le (x : Int) (h : 0 ≤ x) : int32 x ≤ x := by
  unfold int32
  split <;> omega

theorem sizeT_of_nonneg (x : Int) (h1 : 0 ≤ x) (h2 : x < 18446744073709551616) :
    sizeT x = x.toNat := by
  unfold sizeT
  omega

theorem sizeT_of_neg (x : Int) (h1 : -2147483648 ≤ x) (h2 : x < 0) :
    9223372036854775808 ≤ sizeT x := by
  unfold sizeT
  omega

end Bytes
