import JMEngine.Encrypt.Tables
import JMEngine.Lib.BigEndian
import JMEngine.Lib.Feistel
import Mathlib.Logic.Function.Iterate

/-!
# `CBlowFish`: the tables and the block cipher

* `SBlock`, `CBlowFish`     the block of two words and the object, with its two tables;
* `F`, `Encrypt_4`, `Decrypt_4`   the sixteen unrolled rounds, as the source writes them;
* `new`                     the constructor: the key goes into `m_auiP`, then both tables are
                            replaced by what the cipher makes of the zero block;
* `Decrypt_4_Encrypt_4`, `Encrypt_4_Decrypt_4`   each undoes the other, whatever the tables.

`Reference` is the cipher as it is published, over the initial tables of the source, to compare with.

* `Reference.Tables.f`, `encrypt`   sixteen equal rounds over the tables;
* `Reference.keyed`         the key bytes, over and over, into the subkeys;
* `Reference.evolve`        the zero block encrypted again and again, its values replacing the tables
                            two words at a time.
-/

set_option linter.unusedSectionVars false

namespace JMEngine.Encrypt

@[ext] structure SBlock where
  m_uil : Word
  m_uir : Word
deriving DecidableEq, Repr

/-- `SBlock::operator^=` -/
instance : XorOp SBlock := ⟨fun a b => ⟨a.m_uil ^^^ b.m_uil, a.m_uir ^^^ b.m_uir⟩⟩

structure CBlowFish where
  m_oChain0 : SBlock
  m_oChain : SBlock
  m_auiP : Fin 18 → Word
  m_auiS : Fin 4 → Fin 256 → Word

def Byte (ui : Word) : UInt8 := UInt8.ofBitVec ((ui &&& 0xff#32).setWidth 8)

namespace CBlowFish

def F (bf : CBlowFish) (ui : Word) : Word :=
  ((bf.m_auiS 0 (Byte (ui >>> 24)).toFin + bf.m_auiS 1 (Byte (ui >>> 16)).toFin) ^^^
    bf.m_auiS 2 (Byte (ui >>> 8)).toFin) + bf.m_auiS 3 (Byte ui).toFin

def Encrypt_4 (bf : CBlowFish) (block : SBlock) : SBlock :=
  let uiLeft := block.m_uil
  let uiRight := block.m_uir
  let uiLeft := uiLeft ^^^ bf.m_auiP 0
  let uiRight := uiRight ^^^ (bf.F uiLeft ^^^ bf.m_auiP 1)
  let uiLeft := uiLeft ^^^ (bf.F uiRight ^^^ bf.m_auiP 2)
  let uiRight := uiRight ^^^ (bf.F uiLeft ^^^ bf.m_auiP 3)
  let uiLeft := uiLeft ^^^ (bf.F uiRight ^^^ bf.m_auiP 4)
  let uiRight := uiRight ^^^ (bf.F uiLeft ^^^ bf.m_auiP 5)
  let uiLeft := uiLeft ^^^ (bf.F uiRight ^^^ bf.m_auiP 6)
  let uiRight := uiRight ^^^ (bf.F uiLeft ^^^ bf.m_auiP 7)
  let uiLeft := uiLeft ^^^ (bf.F uiRight ^^^ bf.m_auiP 8)
  let uiRight := uiRight ^^^ (bf.F uiLeft ^^^ bf.m_auiP 9)
  let uiLeft := uiLeft ^^^ (bf.F uiRight ^^^ bf.m_auiP 10)
  let uiRight := uiRight ^^^ (bf.F uiLeft ^^^ bf.m_auiP 11)
  let uiLeft := uiLeft ^^^ (bf.F uiRight ^^^ bf.m_auiP 12)
  let uiRight := uiRight ^^^ (bf.F uiLeft ^^^ bf.m_auiP 13)
  let uiLeft := uiLeft ^^^ (bf.F uiRight ^^^ bf.m_auiP 14)
  let uiRight := uiRight ^^^ (bf.F uiLeft ^^^ bf.m_auiP 15)
  let uiLeft := uiLeft ^^^ (bf.F uiRight ^^^ bf.m_auiP 16)
  let uiRight := uiRight ^^^ bf.m_auiP 17
  { m_uil := uiRight, m_uir := uiLeft }

def Decrypt_4 (bf : CBlowFish) (block : SBlock) : SBlock :=
  let uiLeft := block.m_uil
  let uiRight := block.m_uir
  let uiLeft := uiLeft ^^^ bf.m_auiP 17
  let uiRight := uiRight ^^^ (bf.F uiLeft ^^^ bf.m_auiP 16)
  let uiLeft := uiLeft ^^^ (bf.F uiRight ^^^ bf.m_auiP 15)
  let uiRight := uiRight ^^^ (bf.F uiLeft ^^^ bf.m_auiP 14)
  let uiLeft := uiLeft ^^^ (bf.F uiRight ^^^ bf.m_auiP 13)
  let uiRight := uiRight ^^^ (bf.F uiLeft ^^^ bf.m_auiP 12)
  let uiLeft := uiLeft ^^^ (bf.F uiRight ^^^ bf.m_auiP 11)
  let uiRight := uiRight ^^^ (bf.F uiLeft ^^^ bf.m_auiP 10)
  let uiLeft := uiLeft ^^^ (bf.F uiRight ^^^ bf.m_auiP 9)
  let uiRight := uiRight ^^^ (bf.F uiLeft ^^^ bf.m_auiP 8)
  let uiLeft := uiLeft ^^^ (bf.F uiRight ^^^ bf.m_auiP 7)
  let uiRight := uiRight ^^^ (bf.F uiLeft ^^^ bf.m_auiP 6)
  let uiLeft := uiLeft ^^^ (bf.F uiRight ^^^ bf.m_auiP 5)
  let uiRight := uiRight ^^^ (bf.F uiLeft ^^^ bf.m_auiP 4)
  let uiLeft := uiLeft ^^^ (bf.F uiRight ^^^ bf.m_auiP 3)
  let uiRight := uiRight ^^^ (bf.F uiLeft ^^^ bf.m_auiP 2)
  let uiLeft := uiLeft ^^^ (bf.F uiRight ^^^ bf.m_auiP 1)
  let uiRight := uiRight ^^^ bf.m_auiP 0
  { m_uil := uiRight, m_uir := uiLeft }

/-! ## The constructor -/

/-- one pass of the loop over the bytes of a word: where `p` points, `iCount` and `x`;
`ucKey` stands for its copy `aucLocalKey`, of which only `keysize` bytes are read -/
def loadByte (ucKey : Nat → UInt8) (keysize : Nat) (st : Nat × Nat × Word) : Nat × Nat × Word :=
  let x := st.2.2 <<< 8
  let x := x ||| (ucKey st.1).toBitVec.setWidth 32
  let p := st.1 + 1
  let iCount := st.2.1 + 1
  -- all bytes used, so recycle bytes
  if iCount = keysize then (0, 0, x) else (p, iCount, x)

/-- `m_auiP[i] ^= x` with the next four bytes of the key -/
def loadWord (ucKey : Nat → UInt8) (keysize : Nat) (st : (Fin 18 → Word) × Nat × Nat)
    (i : Fin 18) : (Fin 18 → Word) × Nat × Nat :=
  let r := (loadByte ucKey keysize)^[4] (st.2.1, st.2.2, 0)
  (Function.update st.1 i (st.1 i ^^^ r.2.2), r.1, r.2.1)

def setP (bf : CBlowFish) (i : Fin 18) (ui : Word) : CBlowFish :=
  { bf with m_auiP := Function.update bf.m_auiP i ui }

def setS (bf : CBlowFish) (j : Fin 4) (k : Fin 256) (ui : Word) : CBlowFish :=
  { bf with m_auiS := Function.update bf.m_auiS j (Function.update (bf.m_auiS j) k ui) }

/-- `Encrypt_4(block), m_auiP[i++] = block.m_uil, m_auiP[i++] = block.m_uir` at `i = 2 * n` -/
def reflectP (st : CBlowFish × SBlock) (n : Fin 9) : CBlowFish × SBlock :=
  let block := st.1.Encrypt_4 st.2
  let bf := st.1.setP ⟨2 * n, by omega⟩ block.m_uil
  let bf := bf.setP ⟨2 * n + 1, by omega⟩ block.m_uir
  (bf, block)

/-- the same in `m_auiS[j]`, at `k = 2 * n` -/
def reflectS (j : Fin 4) (st : CBlowFish × SBlock) (n : Fin 128) : CBlowFish × SBlock :=
  let block := st.1.Encrypt_4 st.2
  let bf := st.1.setS j ⟨2 * n, by omega⟩ block.m_uil
  let bf := bf.setS j ⟨2 * n + 1, by omega⟩ block.m_uir
  (bf, block)

/-- the constructor; `raw` is what the memory of the object holds before -/
def new (raw : CBlowFish) (ucKey : Nat → UInt8) (keysize : Nat) (roChain : SBlock) : CBlowFish :=
  let bf := { raw with m_oChain0 := roChain, m_oChain := roChain }
  if keysize < 1 then bf
  else
    let keysize := if keysize > 56 then 56 else keysize
    let bf := { bf with m_auiP := scm_auiInitP, m_auiS := scm_auiInitS }
    let P := (Fin.foldl 18 (loadWord ucKey keysize) (bf.m_auiP, 0, 0)).1
    let st := Fin.foldl 9 reflectP ({ bf with m_auiP := P }, ⟨0, 0⟩)
    let st := Fin.foldl 4 (fun st j => Fin.foldl 128 (reflectS j) st) st
    st.1

/-! ## The rounds -/

section
variable (bf : CBlowFish)

/-- the sixteen keys that the unrolled rounds mix in -/
def roundKeys : List Word :=
  [bf.m_auiP 1, bf.m_auiP 2, bf.m_auiP 3, bf.m_auiP 4, bf.m_auiP 5, bf.m_auiP 6, bf.m_auiP 7,
    bf.m_auiP 8, bf.m_auiP 9, bf.m_auiP 10, bf.m_auiP 11, bf.m_auiP 12, bf.m_auiP 13,
    bf.m_auiP 14, bf.m_auiP 15, bf.m_auiP 16]

theorem Encrypt_4_eq (b : SBlock) (x : Word × Word)
    (h : Feistel.halves bf.F bf.roundKeys (b.m_uil ^^^ bf.m_auiP 0, b.m_uir) = x) :
    bf.Encrypt_4 b = ⟨x.2 ^^^ bf.m_auiP 17, x.1⟩ := by
  subst h
  rfl

theorem Decrypt_4_eq (b : SBlock) (x : Word × Word)
    (h : Feistel.halves bf.F bf.roundKeys.reverse (b.m_uil ^^^ bf.m_auiP 17, b.m_uir) = x) :
    bf.Decrypt_4 b = ⟨x.2 ^^^ bf.m_auiP 0, x.1⟩ := by
  subst h
  rfl

/-- **`Decrypt_4` undoes `Encrypt_4`**, for every object. -/
theorem Decrypt_4_Encrypt_4 (b : SBlock) : bf.Decrypt_4 (bf.Encrypt_4 b) = b := by
  obtain ⟨x, hx⟩ : ∃ x, Feistel.halves bf.F bf.roundKeys (b.m_uil ^^^ bf.m_auiP 0, b.m_uir) = x :=
    ⟨_, rfl⟩
  rw [Encrypt_4_eq bf b x hx]
  have hback : Feistel.halves bf.F bf.roundKeys.reverse
      ((x.2 ^^^ bf.m_auiP 17) ^^^ bf.m_auiP 17, x.1) = (b.m_uir, b.m_uil ^^^ bf.m_auiP 0) := by
    have h := Feistel.halves_reverse bf.F bf.roundKeys (b.m_uil ^^^ bf.m_auiP 0, b.m_uir)
    rw [hx] at h
    rw [Feistel.xor_xor_self]
    exact h
  rw [Decrypt_4_eq bf ⟨x.2 ^^^ bf.m_auiP 17, x.1⟩ _ hback, Feistel.xor_xor_self]

theorem Encrypt_4_Decrypt_4 (b : SBlock) : bf.Encrypt_4 (bf.Decrypt_4 b) = b := by
  obtain ⟨x, hx⟩ :
      ∃ x, Feistel.halves bf.F bf.roundKeys.reverse (b.m_uil ^^^ bf.m_auiP 17, b.m_uir) = x :=
    ⟨_, rfl⟩
  rw [Decrypt_4_eq bf b x hx]
  have hback : Feistel.halves bf.F bf.roundKeys
      ((x.2 ^^^ bf.m_auiP 0) ^^^ bf.m_auiP 0, x.1) = (b.m_uir, b.m_uil ^^^ bf.m_auiP 17) := by
    have h := Feistel.halves_reverse bf.F bf.roundKeys.reverse (b.m_uil ^^^ bf.m_auiP 17, b.m_uir)
    rw [List.reverse_reverse, hx] at h
    rw [Feistel.xor_xor_self]
    exact h
  rw [Encrypt_4_eq bf ⟨x.2 ^^^ bf.m_auiP 0, x.1⟩ _ hback, Feistel.xor_xor_self]

theorem Encrypt_4_injective : Function.Injective bf.Encrypt_4 :=
  Function.LeftInverse.injective bf.Decrypt_4_Encrypt_4

end

end CBlowFish

/-! ## The textbook -/

namespace Reference

structure Tables where
  P : Fin 18 → Word
  S : Fin 4 → Fin 256 → Word

namespace Tables

/-- the round function: one box for each byte of the word -/
def f (T : Tables) (x : Word) : Word :=
  ((T.S 0 (x.extractLsb' 24 8).toFin + T.S 1 (x.extractLsb' 16 8).toFin) ^^^
    T.S 2 (x.extractLsb' 8 8).toFin) + T.S 3 (x.extractLsb' 0 8).toFin

/-- sixteen rounds `L ^= P[i]; R ^= F(L); swap`, the last swap undone, then the last two keys -/
def encrypt (T : Tables) (b : SBlock) : SBlock :=
  let x := Feistel.rounds T.f ((List.finRange 16).map fun i => T.P (i.castLE (by decide)))
    (b.m_uil, b.m_uir)
  ⟨x.2 ^^^ T.P 17, x.1 ^^^ T.P 16⟩

/-- the tables in one row, the subkeys first; its word `n` becomes `ui` -/
def replace (T : Tables) (n : Nat) (ui : Word) : Tables where
  P i := if i.val = n then ui else T.P i
  S j k := if 18 + 256 * j.val + k.val = n then ui else T.S j k

end Tables

/-- the word of the key bytes `4i`, …, `4i + 3`, counted modulo `m` -/
def keyWord (key : Nat → UInt8) (m i : Nat) : Word :=
  BigEndian.word (key ((4 * i + 0) % m)).toBitVec (key ((4 * i + 1) % m)).toBitVec
    (key ((4 * i + 2) % m)).toBitVec (key ((4 * i + 3) % m)).toBitVec

/-- the initial tables with the key in the subkeys -/
def keyed (key : Nat → UInt8) (m : Nat) : Tables where
  P i := scm_auiInitP i ^^^ keyWord key m i
  S := scm_auiInitS

/-- the tables and the block after `n` encryptions of the zero block -/
def evolve (T : Tables) : Nat → Tables × SBlock
  | 0 => (T, ⟨0, 0⟩)
  | n + 1 =>
    let b := (evolve T n).1.encrypt (evolve T n).2
    (((evolve T n).1.replace (2 * n) b.m_uil).replace (2 * n + 1) b.m_uir, b)

/-- the tables of a key of `k` bytes: 18 + 1024 words, two for each encryption -/
def schedule (key : Nat → UInt8) (k : Nat) : Tables :=
  (evolve (keyed key (min k 56)) 521).1

end Reference

end JMEngine.Encrypt
