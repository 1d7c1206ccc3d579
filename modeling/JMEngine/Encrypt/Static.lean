import JMEngine.Encrypt.Modes
import JMEngine.Encrypt.Reference
import JMEngine.Lib.Bytes

/-!
# `CBlowFish::Encrypt` and `CBlowFish::Decrypt`, the public functions

* `CallMemory`            the memory that a call can read: its two arguments, the stack memory of
                          its object and the heap block of its result;
* `Encrypt`, `Decrypt`    the static functions, in `ECB` mode; `none` is no result: the new length
                          overflows, or is negative and cannot be allocated;
* `length_static`         a result always has whole blocks, fewer than `2 ^ 31` bytes;
* `readBytes_Encrypt_3_eq_iff`   two results are equal iff their blocks are encrypted to equal
                          blocks;
* `new_tables_congr`      the tables depend on the key bytes alone;
* `Encrypt_4_setP_ne`     another last subkey, another ciphertext.
-/

set_option linter.unusedSectionVars false
set_option linter.dupNamespace false

namespace JMEngine.Encrypt
open Bytes Reference

/-- the first `n` bytes behind a pointer -/
def readBytes (mem : Nat → UInt8) (n : Nat) : List UInt8 := (List.range n).map mem

structure CallMemory where
  strInput : Nat → UInt8
  strKey : Nat → UInt8
  raw : CBlowFish
  heap : Nat → UInt8

namespace CBlowFish

/-- `nNewLength`: the length rounded up to whole blocks -/
def newLength (nLength : Int) : Option Int :=
  let nDifference := nLength.tmod 8
  let nNewLength := nLength
  if nDifference ≠ 0 then
    let nNewLength := (nLength - nDifference) + 8
    -- an `int` that overflows is undefined
    if nNewLength < 2147483648 then some nNewLength else none
  else some nNewLength

/-- the body that the two static functions share, with the member that they call -/
def static (member : CBlowFish → (Nat → UInt8) → (Nat → UInt8) → Nat → Mode → Nat → UInt8)
    (m : CallMemory) (bitCount len : Int) : Option (List UInt8) :=
  let oBlowFish := new m.raw m.strKey (sizeT bitCount) ⟨0, 0⟩
  (newLength len).bind fun nNewLength =>
    -- `new char[]` with a negative size throws
    if nNewLength + 1 < 0 then none
    else
      let pszDataOut := member oBlowFish m.strInput m.heap (sizeT nNewLength) .ECB
      some (readBytes pszDataOut nNewLength.toNat)

def Encrypt : CallMemory → Int → Int → Option (List UInt8) := static Encrypt_3

def Decrypt : CallMemory → Int → Int → Option (List UInt8) := static Decrypt_3

theorem length_readBytes (mem : Nat → UInt8) (n : Nat) : (readBytes mem n).length = n := by
  unfold readBytes
  rw [List.length_map, List.length_range]

theorem readBytes_eq_iff (mem mem' : Nat → UInt8) (n : Nat) :
    readBytes mem n = readBytes mem' n ↔ ∀ i < n, mem i = mem' i := by
  unfold readBytes
  rw [List.map_inj_left]
  exact forall_congr' fun i => by rw [List.mem_range]

/-! ## Lengths -/

theorem newLength_of_blocks (len : Int) (h : len % 8 = 0) : newLength len = some len := by
  unfold newLength
  dsimp only
  rw [if_neg]
  intro hne
  exact hne (Int.tmod_eq_zero_of_dvd (Int.dvd_of_emod_eq_zero h))

theorem newLength_of_rest (len : Int) (h0 : 0 ≤ len) (h : len % 8 ≠ 0) :
    newLength len = if len - len % 8 + 8 < 2147483648 then some (len - len % 8 + 8) else none := by
  unfold newLength
  dsimp only
  rw [Int.tmod_eq_emod_of_nonneg h0, if_pos h]

theorem newLength_spec {len n : Int} (h : newLength len = some n) (hlen : len < 2147483648) :
    n % 8 = 0 ∧ n < 2147483648 := by
  unfold newLength at h
  dsimp only at h
  by_cases hd : len.tmod 8 ≠ 0
  · rw [if_pos hd] at h
    by_cases hn : len - len.tmod 8 + 8 < 2147483648
    · rw [if_pos hn] at h
      have hn' := Option.some.inj h
      have hdiv := Int.mul_tdiv_add_tmod len 8
      constructor <;> omega
    · rw [if_neg hn] at h
      exact nomatch h
  · rw [if_neg hd] at h
    have hn' := Option.some.inj h
    have hdvd := Int.emod_eq_zero_of_dvd (Int.dvd_of_tmod_eq_zero (not_not.mp hd))
    constructor <;> omega

section
variable (member : CBlowFish → (Nat → UInt8) → (Nat → UInt8) → Nat → Mode → Nat → UInt8)
  (m : CallMemory) {bitCount len : Int}

def object (m : CallMemory) (bitCount : Int) : CBlowFish :=
  new m.raw m.strKey (sizeT bitCount) ⟨0, 0⟩

theorem static_of_newLength {n : Nat} (h : newLength len = some (n : Int)) (hn : n < 2147483648) :
    static member m bitCount len =
      some (readBytes (member (object m bitCount) m.strInput m.heap n .ECB) n) := by
  have hsize : sizeT n = n := by
    rw [sizeT_of_nonneg n (by omega) (by omega)]
    exact Int.toNat_natCast n
  rw [static, h, Option.bind_some, if_neg (by omega)]
  dsimp only
  rw [hsize, Int.toNat_natCast]
  rfl

theorem length_static {out : List UInt8} (h : static member m bitCount len = some out)
    (hlen : len < 2147483648) : out.length % 8 = 0 ∧ out.length < 2147483648 := by
  obtain ⟨n, hn, hout⟩ := Option.bind_eq_some_iff.mp h
  obtain ⟨h8, hlt⟩ := newLength_spec hn hlen
  by_cases h0 : n + 1 < 0
  · rw [if_pos h0] at hout
    exact nomatch hout
  · rw [if_neg h0] at hout
    rw [← Option.some.inj hout, length_readBytes]
    omega

end

/-! ## The blocks of a result -/

theorem run_encryptBody_ECB (bf : CBlowFish) (chain : SBlock) (bs : List SBlock) :
    Transducer.run (bf.encryptBody .ECB) chain bs = bs.map bf.Encrypt_4 := by
  induction bs with
  | nil => rfl
  | cons b bs ih => exact congrArg _ ih

theorem run_decryptBody_ECB (bf : CBlowFish) (chain : SBlock) (bs : List SBlock) :
    Transducer.run (bf.decryptBody .ECB) chain bs = bs.map bf.Decrypt_4 := by
  induction bs with
  | nil => rfl
  | cons b bs ih => exact congrArg _ ih

theorem readBytes_eq_iff_readBlocks (mem mem' : Nat → UInt8) {n : Nat} (h8 : n % 8 = 0) :
    readBytes mem n = readBytes mem' n ↔ readBlocks mem 0 (n / 8) = readBlocks mem' 0 (n / 8) := by
  rw [readBytes_eq_iff]
  constructor
  · intro h
    exact readBlocks_congr fun j _ hj => h j (by omega)
  · intro h i hi
    exact readBlocks_inj h i (Nat.zero_le i) (by omega)

section
variable (bf bf' : CBlowFish) (inp inp' out out' : Nat → UInt8) {n : Nat} (h8 : n % 8 = 0)
include h8

theorem readBlocks_Encrypt_3_ECB : readBlocks (bf.Encrypt_3 inp out n .ECB) 0 (n / 8) =
    (readBlocks inp 0 (n / 8)).map bf.Encrypt_4 := by
  rw [readBlocks_Encrypt_3 bf inp out .ECB h8, outBlocks, run_encryptBody_ECB]

theorem readBytes_Encrypt_3_eq_iff :
    readBytes (bf.Encrypt_3 inp out n .ECB) n = readBytes (bf'.Encrypt_3 inp' out' n .ECB) n ↔
      (readBlocks inp 0 (n / 8)).map bf.Encrypt_4 = (readBlocks inp' 0 (n / 8)).map bf'.Encrypt_4 := by
  rw [readBytes_eq_iff_readBlocks _ _ h8, readBlocks_Encrypt_3_ECB bf inp out h8,
    readBlocks_Encrypt_3_ECB bf' inp' out' h8]

theorem readBytes_Decrypt_3_eq_iff {crypt : Nat → UInt8}
    (hc : readBytes crypt n = readBytes (bf.Encrypt_3 inp out n .ECB) n) :
    readBytes (bf'.Decrypt_3 crypt out' n .ECB) n = readBytes inp n ↔
      ∀ b ∈ readBlocks inp 0 (n / 8), bf'.Decrypt_4 (bf.Encrypt_4 b) = b := by
  rw [readBytes_eq_iff_readBlocks _ _ h8, readBlocks_Encrypt_3_ECB bf inp out h8] at hc
  rw [readBytes_eq_iff_readBlocks _ _ h8, readBlocks_Decrypt_3 bf' crypt out' .ECB h8, outBlocks,
    run_decryptBody_ECB, hc, List.map_map]
  conv_lhs => rhs; rw [← List.map_id (readBlocks inp 0 (n / 8))]
  exact List.map_inj_left

end

/-! ## The tables of a call -/

theorem keyWord_congr {key key' : Nat → UInt8} {m : Nat} (hm : 1 ≤ m)
    (h : ∀ i < m, key i = key' i) (i : Nat) : keyWord key m i = keyWord key' m i := by
  unfold keyWord
  rw [h _ (Nat.mod_lt _ hm), h _ (Nat.mod_lt _ hm), h _ (Nat.mod_lt _ hm), h _ (Nat.mod_lt _ hm)]

theorem new_tables_congr (raw raw' : CBlowFish) {key key' : Nat → UInt8} {k : Nat} (hk : 1 ≤ k)
    (h : ∀ i < min k 56, key i = key' i) (c c' : SBlock) :
    (new raw key k c).tables = (new raw' key' k c').tables := by
  have hkeyed : keyed key (min k 56) = keyed key' (min k 56) :=
    congrArg (fun P => Tables.mk P scm_auiInitS)
      (funext fun i => by rw [keyWord_congr (le_min hk (by decide)) h])
  rw [tables_new raw key k c hk, tables_new raw' key' k c' hk, schedule, schedule, hkeyed]

theorem Encrypt_4_congr {bf bf' : CBlowFish} (h : bf.tables = bf'.tables) :
    bf.Encrypt_4 = bf'.Encrypt_4 := by
  funext b
  rw [Encrypt_4_eq_encrypt, Encrypt_4_eq_encrypt, h]

theorem Encrypt_4_setP_ne (bf : CBlowFish) (ui : Word) (h : ui ≠ bf.m_auiP 17) (b : SBlock) :
    (bf.setP 17 ui).Encrypt_4 b ≠ bf.Encrypt_4 b := by
  obtain ⟨x, hx⟩ : ∃ x, Feistel.halves bf.F bf.roundKeys (b.m_uil ^^^ bf.m_auiP 0, b.m_uir) = x :=
    ⟨_, rfl⟩
  rw [Encrypt_4_eq bf b x hx, Encrypt_4_eq (bf.setP 17 ui) b x hx]
  intro he
  exact h ((BitVec.xor_right_inj x.2).mp (congrArg SBlock.m_uil he))

def blank : CBlowFish := ⟨⟨0, 0⟩, ⟨0, 0⟩, fun _ => 0, fun _ _ => 0⟩

def smudged : CBlowFish := blank.setP (Fin.last 17) 1

theorem Encrypt_4_smudged_ne (b : SBlock) : smudged.Encrypt_4 b ≠ blank.Encrypt_4 b :=
  Encrypt_4_setP_ne blank 1 (by decide) b

/-! ## The text comes back -/

/-- `Decrypt`, on a memory that holds the result of `Encrypt` and with the same key and length,
gives the text -/
def GivesBack (s key : List UInt8) : Prop :=
  ∀ m m' : CallMemory,
    readBytes m.strInput s.length = s → readBytes m.strKey key.length = key →
    readBytes m'.strKey key.length = key →
    (∀ c, Encrypt m (int32 key.length) (int32 s.length) = some c →
      readBytes m'.strInput c.length = c) →
    (Encrypt m (int32 key.length) (int32 s.length)).isSome ∧
      Decrypt m' (int32 key.length) (int32 s.length) = some s

theorem min_keysize_le (n : Nat) (h : int32 n ≠ 0) :
    1 ≤ sizeT (int32 n) ∧ min (sizeT (int32 n)) 56 ≤ n := by
  have hr := int32_range n
  rcases lt_or_gt_of_ne h with hneg | hpos
  · have hbig := sizeT_of_neg (int32 n) hr.1 hneg
    have hn : ¬ n < 2147483648 := fun hlt => by
      rw [int32_of_range n (by omega) (by omega)] at hneg
      omega
    omega
  · have hle := int32_le n (by omega)
    rw [sizeT_of_nonneg (int32 n) (by omega) (by omega)]
    omega

theorem newLength_length (s : List UInt8) (h8 : s.length % 8 = 0) (h31 : s.length < 2147483648) :
    newLength (int32 s.length) = some (s.length : Int) := by
  rw [int32_of_range s.length (by omega) (by omega)]
  exact newLength_of_blocks s.length (by omega)

theorem givesBack_of_blocks (s key : List UInt8) (h8 : s.length % 8 = 0)
    (h31 : s.length < 2147483648) (hkey : s = [] ∨ int32 key.length ≠ 0) : GivesBack s key := by
  intro m m' hs hk hk' hc
  have hlen := newLength_length s h8 h31
  have henc : static Encrypt_3 m (int32 key.length) (int32 s.length) = _ :=
    static_of_newLength Encrypt_3 m hlen h31
  refine ⟨by rw [Encrypt, henc]; rfl, ?_⟩
  rw [Decrypt, static_of_newLength Decrypt_3 m' hlen h31]
  have hcrypt := hc _ henc
  rw [length_readBytes] at hcrypt
  refine congrArg some (Eq.trans ?_ hs)
  refine (readBytes_Decrypt_3_eq_iff _ _ _ _ _ h8 hcrypt).mpr fun b hb => ?_
  rcases hkey with rfl | hne
  · exact nomatch hb
  · obtain ⟨h1, hmin⟩ := min_keysize_le key.length hne
    have hbytes := (readBytes_eq_iff ..).mp (hk.trans hk'.symm)
    have htables : (object m (int32 key.length)).tables = (object m' (int32 key.length)).tables :=
      new_tables_congr _ _ h1 (fun i hi => hbytes i (by omega)) _ _
    rw [Encrypt_4_congr htables]
    exact Decrypt_4_Encrypt_4 _ b

theorem readBytes_getD (xs : List UInt8) : readBytes (fun i => xs.getD i 0) xs.length = xs := by
  unfold readBytes
  refine List.ext_getElem (by rw [List.length_map, List.length_range]) fun i h1 h2 => ?_
  rw [List.getElem_map, List.getElem_range, List.getD_eq_getElem?_getD, List.getElem?_eq_getElem h2,
    Option.getD_some]

/-- a memory that holds a text and a key, and zeros behind them -/
def holding (s key : List UInt8) (raw : CBlowFish) : CallMemory :=
  ⟨fun i => s.getD i 0, fun i => key.getD i 0, raw, fun _ => 0⟩

theorem object_blank (s key : List UInt8) : object (holding s key blank) 0 = blank := rfl

theorem object_smudged (s key : List UInt8) : object (holding s key smudged) 0 = smudged := rfl

/-- what the first of the two calls leaves, when its object lies in memory full of zeros -/
def firstResult (s key : List UInt8) : List UInt8 :=
  (Encrypt (holding s key blank) (int32 key.length) (int32 s.length)).getD []

/-- the law for the calls whose objects lie in a blank and in a smudged piece of memory -/
theorem GivesBack.holding {s key : List UInt8} (h : GivesBack s key) :
    Decrypt (holding (firstResult s key) key smudged) (int32 key.length) (int32 s.length) =
      some s := by
  refine (h (CBlowFish.holding s key blank) _ (readBytes_getD s) (readBytes_getD key)
    (readBytes_getD key) fun c hc => ?_).2
  have hfirst : firstResult s key = c := by
    rw [firstResult, hc, Option.getD_some]
  rw [hfirst]
  exact readBytes_getD c

theorem GivesBack.blocks {s key : List UInt8} (h : GivesBack s key) :
    s.length % 8 = 0 ∧ s.length < 2147483648 :=
  length_static Decrypt_3 _ h.holding (int32_range _).2

theorem firstResult_of_no_key {s key : List UInt8} (hk : int32 key.length = 0)
    (h8 : s.length % 8 = 0) (h31 : s.length < 2147483648) : firstResult s key =
      readBytes (blank.Encrypt_3 (fun i => s.getD i 0) (fun _ => 0) s.length .ECB) s.length := by
  rw [firstResult, hk, Encrypt, static_of_newLength Encrypt_3 _ (newLength_length s h8 h31) h31,
    object_blank, Option.getD_some]
  rfl

theorem GivesBack.key {s key : List UInt8} (h : GivesBack s key) :
    s = [] ∨ int32 key.length ≠ 0 := by
  by_contra hn
  obtain ⟨hs, hk⟩ := not_or.mp hn
  have hk0 : int32 key.length = 0 := not_not.mp hk
  obtain ⟨h8, h31⟩ := h.blocks
  have hback := h.holding
  rw [hk0, Decrypt, static_of_newLength Decrypt_3 _ (newLength_length s h8 h31) h31,
    object_smudged] at hback
  have hfirst := firstResult_of_no_key hk0 h8 h31
  have hcrypt : readBytes (fun i => (firstResult s key).getD i 0) s.length =
      readBytes (blank.Encrypt_3 (fun i => s.getD i 0) (fun _ => 0) s.length .ECB) s.length := by
    have hg := readBytes_getD (firstResult s key)
    rw [show (firstResult s key).length = s.length by rw [hfirst, length_readBytes]] at hg
    exact hg.trans hfirst
  have htext : readBytes (smudged.Decrypt_3 (fun i => (firstResult s key).getD i 0) (fun _ => 0)
      s.length .ECB) s.length = readBytes (fun i => s.getD i 0) s.length := by
    rw [readBytes_getD s]
    dsimp only [CBlowFish.holding] at hback
    exact Option.some.inj hback
  have hblocks := (readBytes_Decrypt_3_eq_iff blank smudged (fun i => s.getD i 0) (fun _ => 0)
    (fun _ => 0) h8 hcrypt).mp htext
  have hpos : 0 < s.length := List.length_pos_iff.mpr hs
  obtain ⟨b, hb⟩ : ∃ b, b ∈ readBlocks (fun i => s.getD i 0) 0 (s.length / 8) :=
    List.exists_mem_of_length_pos (by rw [length_readBlocks]; omega)
  apply Encrypt_4_smudged_ne b
  rw [← Encrypt_4_Decrypt_4 smudged (blank.Encrypt_4 b), hblocks b hb]

/-- **The text comes back iff** it has whole blocks, its length fits an `int` and, unless it is
empty, the length of the key is not zero as an `int`. -/
theorem givesBack_iff (s key : List UInt8) :
    GivesBack s key ↔
      s.length % 8 = 0 ∧ s.length < 2147483648 ∧ (s = [] ∨ int32 key.length ≠ 0) := by
  constructor
  · intro h
    exact ⟨h.blocks.1, h.blocks.2, h.key⟩
  · rintro ⟨h8, h31, hkey⟩
    exact givesBack_of_blocks s key h8 h31 hkey

/-- one byte comes back as eight -/
theorem one_byte_not_given_back :
    ¬ ∀ s key : List UInt8, 1 ≤ key.length → GivesBack s key := by
  intro hall
  have h := (hall [65] [1] (by decide)).blocks.1
  revert h
  decide

/-! ## The result depends on the text and the key -/

/-- two memories with the same `len` bytes of text and the same `bitCount` bytes of key -/
structure SameText (m m' : CallMemory) (bitCount len : Int) : Prop where
  input : ∀ i : Nat, (i : Int) < len → m.strInput i = m'.strInput i
  key : ∀ i : Nat, (i : Int) < bitCount → m.strKey i = m'.strKey i

/-- all calls with this text and this key have one result -/
def Determined (bitCount len : Int) : Prop :=
  ∀ m m' : CallMemory, SameText m m' bitCount len →
    ∃ c, Encrypt m bitCount len = some c ∧ Encrypt m' bitCount len = some c

section
variable {bitCount len : Int}

theorem determined_zero : Determined bitCount 0 := by
  intro m m' _
  have h0 : newLength 0 = some ((0 : Nat) : Int) := rfl
  exact ⟨[], static_of_newLength Encrypt_3 m h0 (by decide),
    static_of_newLength Encrypt_3 m' h0 (by decide)⟩

theorem determined_of_blocks (hl : 0 ≤ len) (hl' : len < 2147483648) (h8 : len % 8 = 0)
    (hb : 1 ≤ bitCount) (hb' : bitCount < 2147483648) : Determined bitCount len := by
  intro m m' h
  obtain ⟨n, rfl⟩ := Int.eq_ofNat_of_zero_le hl
  have hlen : newLength (n : Int) = some (n : Int) := newLength_of_blocks n h8
  refine ⟨_, static_of_newLength Encrypt_3 m hlen (by omega), ?_⟩
  rw [Encrypt, static_of_newLength Encrypt_3 m' hlen (by omega)]
  have hsize : sizeT bitCount = bitCount.toNat := sizeT_of_nonneg bitCount (by omega) (by omega)
  have htables : (object m' bitCount).tables = (object m bitCount).tables :=
    new_tables_congr _ _ (by omega) (fun i hi => (h.key i (by omega)).symm) _ _
  have hblocks : readBlocks m'.strInput 0 (n / 8) = readBlocks m.strInput 0 (n / 8) :=
    readBlocks_congr fun j _ hj => (h.input j (by omega)).symm
  refine congrArg some ((readBytes_Encrypt_3_eq_iff _ _ _ _ _ _ (by omega)).mpr ?_)
  rw [Encrypt_4_congr htables, hblocks]

/-- the last block reads beyond the text when the text ends inside it -/
theorem not_determined_of_rest (hl : 0 ≤ len) (h8 : len % 8 ≠ 0) : ¬ Determined bitCount len := by
  intro hdet
  obtain ⟨n, rfl⟩ := Int.eq_ofNat_of_zero_le hl
  obtain ⟨c, hc, hc'⟩ := hdet ⟨fun _ => 0, fun _ => 0, blank, fun _ => 0⟩
    ⟨Function.update (fun _ => 0) n 1, fun _ => 0, blank, fun _ => 0⟩
    ⟨fun i hi => (Function.update_of_ne (by omega) 1 _).symm, fun _ _ => rfl⟩
  have hlen := newLength_of_rest n hl h8
  by_cases hlt : (n : Int) - n % 8 + 8 < 2147483648
  · rw [if_pos hlt, show ((n : Int) - n % 8 + 8) = ((n - n % 8 + 8 : Nat) : Int) by omega] at hlen
    rw [Encrypt, static_of_newLength Encrypt_3 _ hlen (by omega)] at hc hc'
    have heq := Option.some.inj (hc.trans hc'.symm)
    rw [readBytes_Encrypt_3_eq_iff _ _ _ _ _ _ (by omega)] at heq
    have hblocks := List.map_injective_iff.mpr (Encrypt_4_injective _) heq
    have hbyte := readBlocks_inj hblocks n (Nat.zero_le n) (by omega)
    dsimp only at hbyte
    rw [Function.update_self] at hbyte
    exact absurd hbyte (by decide)
  · rw [if_neg hlt] at hlen
    rw [Encrypt, static, hlen] at hc
    exact nomatch hc

/-- with no byte of key the object keeps the tables that its memory held -/
theorem not_determined_of_no_key (hl : 8 ≤ len) (hl' : len < 2147483648) (h8 : len % 8 = 0) :
    ¬ Determined 0 len := by
  intro hdet
  obtain ⟨n, rfl⟩ := Int.eq_ofNat_of_zero_le (show 0 ≤ len by omega)
  have hlen : newLength (n : Int) = some (n : Int) := newLength_of_blocks n h8
  obtain ⟨c, hc, hc'⟩ := hdet (holding [] [] blank) (holding [] [] smudged)
    ⟨fun _ _ => rfl, fun _ _ => rfl⟩
  rw [Encrypt, static_of_newLength Encrypt_3 _ hlen (by omega)] at hc hc'
  have heq := Option.some.inj (hc.trans hc'.symm)
  rw [readBytes_Encrypt_3_eq_iff _ _ _ _ _ _ (by omega), object_blank, object_smudged] at heq
  obtain ⟨k, hk⟩ : ∃ k, n / 8 = k + 1 := ⟨n / 8 - 1, by omega⟩
  rw [hk] at heq
  exact Encrypt_4_smudged_ne _ (List.cons.inj heq).1.symm

end

/-- **The result depends on nothing but the text and the key iff** the text is empty, or it has
whole blocks and the key has a byte. -/
theorem determined_iff (bitCount len : Int) (hb : 0 ≤ bitCount) (hb' : bitCount < 2147483648)
    (hl : 0 ≤ len) (hl' : len < 2147483648) :
    Determined bitCount len ↔ len = 0 ∨ (len % 8 = 0 ∧ 1 ≤ bitCount) := by
  constructor
  · intro hdet
    by_cases h8 : len % 8 = 0
    · by_cases hk : bitCount = 0
      · subst hk
        refine Or.inl (by_contra fun h0 => ?_)
        exact not_determined_of_no_key (by omega) hl' h8 hdet
      · exact Or.inr ⟨h8, by omega⟩
    · exact absurd hdet (not_determined_of_rest hl h8)
  · rintro (rfl | ⟨h8, hk⟩)
    · exact determined_zero
    · exact determined_of_blocks hl hl' h8 hk hb'

/-- eight bytes of text and one byte of key -/
theorem determined_iff_eight : Determined 1 8 :=
  (determined_iff 1 8 (by decide) (by decide) (by decide) (by decide)).mpr (by decide)

/-- the byte behind a text of one byte shows in the result -/
theorem byte_behind_shows : ¬ ∀ bitCount len : Int, 0 ≤ bitCount → bitCount < 2147483648 →
    0 ≤ len → len < 2147483648 → Determined bitCount len := fun hall =>
  not_determined_of_rest (by decide) (by decide)
    (hall 1 1 (by decide) (by decide) (by decide) (by decide))

end CBlowFish

end JMEngine.Encrypt
