import JMEngine.Encrypt.Blocks
import JMEngine.Lib.Transducer

/-!
# The cipher on buffers: `Encrypt_2`, `Decrypt_2`, `Encrypt_3`, `Decrypt_3`

The twelve loops share their shape: read a block, pass it and the chain through the body of the
mode, write the result, advance.

* `encryptBody`, `decryptBody`      what the loop of a mode does to the chain and to a block;
* `bufferLoop`, `inPlaceLoop`       the loop from one buffer to another, and in one buffer;
* `idleLoop`                        the loop of `Decrypt_2` in CFB mode, which writes nothing and
                                    stays on its first block;
* `bufferLoop_eq`, `inPlaceLoop_eq`   both write the blocks that `Transducer.run` gives;
* `Decrypt_3_Encrypt_3`, `agrees_encrypt`, `agrees_decrypt`   what follows for the four functions.
-/

set_option linter.unusedSectionVars false

namespace JMEngine.Encrypt

/-- `ECB`, `CBC` and `CFB`; every other value of `iMode` is treated as `ECB` -/
inductive Mode where
  | ECB | CBC | CFB
deriving DecidableEq, Repr

namespace CBlowFish

/-- a pass of an encryption loop: from `chain` and `work` to the next `chain` and `work` -/
def encryptBody (bf : CBlowFish) : Mode → SBlock → SBlock → SBlock × SBlock
  | .CBC, chain, work =>
    let work := work ^^^ chain
    let work := bf.Encrypt_4 work
    let chain := work
    (chain, work)
  | .CFB, chain, work =>
    let chain := bf.Encrypt_4 chain
    let work := work ^^^ chain
    let chain := work
    (chain, work)
  | .ECB, chain, work => (chain, bf.Encrypt_4 work)

def decryptBody (bf : CBlowFish) : Mode → SBlock → SBlock → SBlock × SBlock
  | .CBC, chain, work =>
    let crypt := work
    let work := bf.Decrypt_4 work
    let work := work ^^^ chain
    let chain := crypt
    (chain, work)
  | .CFB, chain, work =>
    let chain := bf.Encrypt_4 chain
    let crypt := work
    let work := work ^^^ chain
    let chain := crypt
    (chain, work)
  | .ECB, chain, work => (chain, bf.Decrypt_4 work)

/-- `for(; n >= 8; n -= 8, in += 8)` with as many passes to go, both pointers `o` bytes on -/
def bufferLoop (body : SBlock → SBlock → SBlock × SBlock) (inp : Nat → UInt8) :
    Nat → Nat → SBlock → (Nat → UInt8) → Nat → UInt8
  | 0, _, _, out => out
  | k + 1, o, chain, out =>
    let r := body chain (BytesToBlock inp o)
    bufferLoop body inp k (o + 8) r.1 (BlockToBytes r.2 out (o + 8))

/-- `for(; n >= 8; n -= 8)` on one buffer -/
def inPlaceLoop (body : SBlock → SBlock → SBlock × SBlock) :
    Nat → Nat → SBlock → (Nat → UInt8) → Nat → UInt8
  | 0, _, _, buf => buf
  | k + 1, o, chain, buf =>
    let r := body chain (BytesToBlock buf o)
    inPlaceLoop body k (o + 8) r.1 (BlockToBytes r.2 buf (o + 8))

/-- the loop of `Decrypt_2` in CFB mode: no `BlockToBytes(work, buf+=8)`, so that `buf` neither
changes nor advances -/
def idleLoop (body : SBlock → SBlock → SBlock × SBlock) (buf : Nat → UInt8) :
    Nat → SBlock → Nat → UInt8
  | 0, _ => buf
  | k + 1, chain => idleLoop body buf k (body chain (BytesToBlock buf 0)).1

def Encrypt_2 (bf : CBlowFish) (buf : Nat → UInt8) (n : Nat) (iMode : Mode) : Nat → UInt8 :=
  if n = 0 ∨ n % 8 ≠ 0 then buf
  else inPlaceLoop (bf.encryptBody iMode) (n / 8) 0 bf.m_oChain buf

/-- `CBlowFish::Decrypt_2`; its parameter `x_char` is not read -/
def Decrypt_2 (bf : CBlowFish) (buf : Nat → UInt8) (n : Nat) (iMode : Mode) : Nat → UInt8 :=
  if n = 0 ∨ n % 8 ≠ 0 then buf
  else if iMode = .CFB then idleLoop (bf.decryptBody .CFB) buf (n / 8) bf.m_oChain
  else inPlaceLoop (bf.decryptBody iMode) (n / 8) 0 bf.m_oChain buf

/-- `CBlowFish::Encrypt_3`: what `out` holds afterwards -/
def Encrypt_3 (bf : CBlowFish) (inp out : Nat → UInt8) (n : Nat) (iMode : Mode) : Nat → UInt8 :=
  if n = 0 ∨ n % 8 ≠ 0 then out
  else bufferLoop (bf.encryptBody iMode) inp (n / 8) 0 bf.m_oChain out

def Decrypt_3 (bf : CBlowFish) (inp out : Nat → UInt8) (n : Nat) (iMode : Mode) : Nat → UInt8 :=
  if n = 0 ∨ n % 8 ≠ 0 then out
  else bufferLoop (bf.decryptBody iMode) inp (n / 8) 0 bf.m_oChain out

/-! ## The loops write what the machine of the mode gives -/

section
variable (body : SBlock → SBlock → SBlock × SBlock)

theorem bufferLoop_eq (inp : Nat → UInt8) (k o : Nat) (chain : SBlock) (out : Nat → UInt8) :
    bufferLoop body inp k o chain out =
      writeBlocks out o (Transducer.run body chain (readBlocks inp o k)) := by
  induction k generalizing o chain out with
  | zero => rfl
  | succ k ih => exact ih (o + 8) _ _

/-- in place too: a pass only writes the block it has read -/
theorem inPlaceLoop_eq (k o : Nat) (chain : SBlock) (buf : Nat → UInt8) :
    inPlaceLoop body k o chain buf =
      writeBlocks buf o (Transducer.run body chain (readBlocks buf o k)) := by
  induction k generalizing o chain buf with
  | zero => rfl
  | succ k ih =>
    have hread (b : SBlock) :
        readBlocks (BlockToBytes b buf (o + 8)) (o + 8) k = readBlocks buf (o + 8) k :=
      readBlocks_congr fun j h1 h2 => BlockToBytes_frame b buf o j (by omega)
    rw [inPlaceLoop, ih, hread]
    rfl

theorem idleLoop_eq (buf : Nat → UInt8) (k : Nat) (chain : SBlock) :
    idleLoop body buf k chain = buf := by
  induction k generalizing chain with
  | zero => rfl
  | succ k ih => exact ih _

end

/-- the blocks that a body makes of the buffer behind `inp` -/
def outBlocks (body : SBlock → SBlock → SBlock × SBlock) (chain : SBlock) (inp : Nat → UInt8)
    (n : Nat) : List SBlock :=
  Transducer.run body chain (readBlocks inp 0 (n / 8))

theorem length_outBlocks (body : SBlock → SBlock → SBlock × SBlock) (chain : SBlock)
    (inp : Nat → UInt8) (n : Nat) : (outBlocks body chain inp n).length = n / 8 := by
  unfold outBlocks
  rw [Transducer.length_run, length_readBlocks]

section
variable (bf : CBlowFish) (inp out : Nat → UInt8) {n : Nat} (iMode : Mode)

theorem refused (h : n % 8 ≠ 0) : bf.Encrypt_2 inp n iMode = inp ∧ bf.Decrypt_2 inp n iMode = inp ∧
    bf.Encrypt_3 inp out n iMode = out ∧ bf.Decrypt_3 inp out n iMode = out :=
  ⟨if_pos (Or.inr h), if_pos (Or.inr h), if_pos (Or.inr h), if_pos (Or.inr h)⟩

/-- the guard of the four functions only lets whole blocks through; no block is no pass -/
theorem ite_blocks {t u : Nat → UInt8} (h : n % 8 = 0) (h0 : n = 0 → u = t) :
    (if n = 0 ∨ n % 8 ≠ 0 then t else u) = u := by
  by_cases hn : n = 0
  · rw [if_pos (Or.inl hn), h0 hn]
  · rw [if_neg (by omega)]

theorem Encrypt_3_eq (h : n % 8 = 0) : bf.Encrypt_3 inp out n iMode =
    writeBlocks out 0 (outBlocks (bf.encryptBody iMode) bf.m_oChain inp n) := by
  rw [Encrypt_3, ite_blocks h (fun hn => by rw [hn]; rfl), bufferLoop_eq]
  rfl

theorem Decrypt_3_eq (h : n % 8 = 0) : bf.Decrypt_3 inp out n iMode =
    writeBlocks out 0 (outBlocks (bf.decryptBody iMode) bf.m_oChain inp n) := by
  rw [Decrypt_3, ite_blocks h (fun hn => by rw [hn]; rfl), bufferLoop_eq]
  rfl

theorem Encrypt_2_eq (h : n % 8 = 0) : bf.Encrypt_2 inp n iMode =
    writeBlocks inp 0 (outBlocks (bf.encryptBody iMode) bf.m_oChain inp n) := by
  rw [Encrypt_2, ite_blocks h (fun hn => by rw [hn]; rfl), inPlaceLoop_eq]
  rfl

theorem Decrypt_2_eq (h : n % 8 = 0) (hm : iMode ≠ .CFB) : bf.Decrypt_2 inp n iMode =
    writeBlocks inp 0 (outBlocks (bf.decryptBody iMode) bf.m_oChain inp n) := by
  rw [Decrypt_2, if_neg hm, ite_blocks h (fun hn => by rw [hn]; rfl), inPlaceLoop_eq]
  rfl

theorem Decrypt_2_CFB : bf.Decrypt_2 inp n .CFB = inp := by
  rw [Decrypt_2, if_pos rfl, idleLoop_eq, ite_self]

end

/-! ## Decryption undoes encryption -/

theorem xor_xor_self (a b : SBlock) : (a ^^^ b) ^^^ b = a :=
  SBlock.ext (Feistel.xor_xor_self ..) (Feistel.xor_xor_self ..)

/-- both bodies move the chain to the same block: the one that was encrypted -/
theorem decryptBody_encryptBody (bf : CBlowFish) (iMode : Mode) (chain work : SBlock) :
    bf.decryptBody iMode chain (bf.encryptBody iMode chain work).2 =
      ((bf.encryptBody iMode chain work).1, work) := by
  cases iMode with
  | ECB =>
    show (chain, bf.Decrypt_4 (bf.Encrypt_4 work)) = _
    rw [Decrypt_4_Encrypt_4]
    rfl
  | CBC =>
    show (_, bf.Decrypt_4 (bf.Encrypt_4 (work ^^^ chain)) ^^^ chain) = _
    rw [Decrypt_4_Encrypt_4, xor_xor_self]
    rfl
  | CFB =>
    show (_, (work ^^^ bf.Encrypt_4 chain) ^^^ bf.Encrypt_4 chain) = _
    rw [xor_xor_self]
    rfl

section
variable (bf : CBlowFish) (inp out : Nat → UInt8) {n : Nat} (iMode : Mode) (h8 : n % 8 = 0)

theorem outBlocks_decrypt {crypt : Nat → UInt8} (h : readBlocks crypt 0 (n / 8) =
      outBlocks (bf.encryptBody iMode) bf.m_oChain inp n) :
    outBlocks (bf.decryptBody iMode) bf.m_oChain crypt n = readBlocks inp 0 (n / 8) := by
  rw [outBlocks, h]
  exact Transducer.run_inverse _ _ (bf.decryptBody_encryptBody iMode) _ _

include h8

theorem readBlocks_Encrypt_3 : readBlocks (bf.Encrypt_3 inp out n iMode) 0 (n / 8) =
    outBlocks (bf.encryptBody iMode) bf.m_oChain inp n := by
  rw [Encrypt_3_eq bf inp out iMode h8]
  exact readBlocks_writeBlocks _ out 0 _ (length_outBlocks ..)

theorem readBlocks_Decrypt_3 : readBlocks (bf.Decrypt_3 inp out n iMode) 0 (n / 8) =
    outBlocks (bf.decryptBody iMode) bf.m_oChain inp n := by
  rw [Decrypt_3_eq bf inp out iMode h8]
  exact readBlocks_writeBlocks _ out 0 _ (length_outBlocks ..)

end

/-- **Decryption undoes encryption in every mode**, for every object and every buffer of whole
blocks. -/
theorem Decrypt_3_Encrypt_3 (bf : CBlowFish) (iMode : Mode) (inp out out' : Nat → UInt8) (n : Nat)
    (h8 : n % 8 = 0) :
    ∀ i < n, bf.Decrypt_3 (bf.Encrypt_3 inp out n iMode) out' n iMode i = inp i := by
  have hblocks : readBlocks (bf.Decrypt_3 (bf.Encrypt_3 inp out n iMode) out' n iMode) 0 (n / 8) =
      readBlocks inp 0 (n / 8) := by
    rw [readBlocks_Decrypt_3 bf _ out' iMode h8]
    exact outBlocks_decrypt bf inp iMode (readBlocks_Encrypt_3 bf inp out iMode h8)
  intro i hi
  exact readBlocks_inj hblocks i (Nat.zero_le i) (by omega)

/-- the tenth of sixteen bytes, under plain tables and a chain -/
theorem Decrypt_3_Encrypt_3_sixteen :
    Decrypt_3 ⟨⟨0, 1⟩, ⟨0, 1⟩, fun _ => 7, fun _ _ => 9⟩
      (Encrypt_3 ⟨⟨0, 1⟩, ⟨0, 1⟩, fun _ => 7, fun _ _ => 9⟩ UInt8.ofNat (fun _ => 1) 16 .CFB)
      (fun _ => 2) 16 .CFB 9 = 9 :=
  Decrypt_3_Encrypt_3 ⟨⟨0, 1⟩, ⟨0, 1⟩, fun _ => 7, fun _ _ => 9⟩ .CFB UInt8.ofNat (fun _ => 1)
    (fun _ => 2) 16 (by decide) 9 (by decide)

/-! ## In place and from buffer to buffer -/

/-- what an in-place call makes of `buf` and what a call from `buf` makes of `out`, `n` bytes long,
are the same: the `n` bytes when they are whole blocks, nothing otherwise and nothing around -/
structure Agrees (n : Nat) (buf buf' out out' : Nat → UInt8) : Prop where
  same : n % 8 = 0 → ∀ i < n, buf' i = out' i
  unchanged : n = 0 ∨ n % 8 ≠ 0 → buf' = buf ∧ out' = out
  around : ∀ i, n ≤ i → buf' i = buf i ∧ out' i = out i

theorem Agrees.refused {n : Nat} (h : n % 8 ≠ 0) (buf out : Nat → UInt8) : Agrees n buf buf out out :=
  ⟨fun h0 => absurd h0 h, fun _ => ⟨rfl, rfl⟩, fun _ _ => ⟨rfl, rfl⟩⟩

theorem Agrees.writeBlocks {n : Nat} (h : n % 8 = 0) (buf out : Nat → UInt8) (bs : List SBlock)
    (hbs : bs.length = n / 8) : Agrees n buf (writeBlocks buf 0 bs) out (writeBlocks out 0 bs) := by
  refine ⟨fun _ i hi => ?_, fun h0 => ?_, fun i hi => ?_⟩
  · have hread : readBlocks (Encrypt.writeBlocks buf 0 bs) 0 (n / 8) =
        readBlocks (Encrypt.writeBlocks out 0 bs) 0 (n / 8) := by
      rw [readBlocks_writeBlocks bs buf 0 _ hbs, readBlocks_writeBlocks bs out 0 _ hbs]
    exact readBlocks_inj hread i (Nat.zero_le i) (by omega)
  · have hnil : bs = [] := List.length_eq_zero_iff.mp (by omega)
    rw [hnil]
    exact ⟨rfl, rfl⟩
  · exact ⟨writeBlocks_frame bs buf 0 i (by omega), writeBlocks_frame bs out 0 i (by omega)⟩

section
variable (bf : CBlowFish) (iMode : Mode) (buf out : Nat → UInt8) (n : Nat)

theorem agrees_encrypt :
    Agrees n buf (bf.Encrypt_2 buf n iMode) out (bf.Encrypt_3 buf out n iMode) := by
  by_cases h : n % 8 = 0
  · rw [Encrypt_2_eq bf buf iMode h, Encrypt_3_eq bf buf out iMode h]
    exact Agrees.writeBlocks h buf out _ (length_outBlocks ..)
  · rw [(refused bf buf out iMode h).1, (refused bf buf out iMode h).2.2.1]
    exact Agrees.refused h buf out

theorem agrees_decrypt (hm : iMode ≠ .CFB) :
    Agrees n buf (bf.Decrypt_2 buf n iMode) out (bf.Decrypt_3 buf out n iMode) := by
  by_cases h : n % 8 = 0
  · rw [Decrypt_2_eq bf buf iMode h hm, Decrypt_3_eq bf buf out iMode h]
    exact Agrees.writeBlocks h buf out _ (length_outBlocks ..)
  · rw [(refused bf buf out iMode h).2.1, (refused bf buf out iMode h).2.2.2]
    exact Agrees.refused h buf out

end

theorem word_xor_eq_left_iff (a b : Word) : a ^^^ b = a ↔ b = 0 := by
  have h := BitVec.xor_right_inj (x := b) (y := 0#32) a
  rwa [BitVec.xor_zero] at h

theorem xor_eq_left_iff (a b : SBlock) : a ^^^ b = a ↔ b = ⟨0, 0⟩ := by
  rw [SBlock.ext_iff, SBlock.ext_iff]
  exact and_congr (word_xor_eq_left_iff ..) (word_xor_eq_left_iff ..)

/-- CFB decryption gives a row of blocks back iff it adds zero to each of them: the chain before a
block is the block in front of it -/
theorem run_decryptBody_CFB_eq_self (bf : CBlowFish) (chain : SBlock) (bs : List SBlock) :
    Transducer.run (bf.decryptBody .CFB) chain bs = bs ↔
      ∀ c ∈ (chain :: bs).dropLast, bf.Encrypt_4 c = ⟨0, 0⟩ := by
  induction bs generalizing chain with
  | nil => exact iff_of_true rfl fun c hc => nomatch hc
  | cons b bs ih =>
    show (b ^^^ bf.Encrypt_4 chain) :: Transducer.run (bf.decryptBody .CFB) b bs = b :: bs ↔
      ∀ c ∈ chain :: (b :: bs).dropLast, bf.Encrypt_4 c = ⟨0, 0⟩
    rw [List.cons.injEq, ih, xor_eq_left_iff, List.forall_mem_cons]

section
variable (bf : CBlowFish) (buf out : Nat → UInt8) (n : Nat)

/-- the chain before each block of a CFB decryption is encrypted to zero -/
def KeystreamZero : Prop :=
  ∀ c ∈ (bf.m_oChain :: readBlocks buf 0 (n / 8)).dropLast, bf.Encrypt_4 c = ⟨0, 0⟩

theorem agrees_decrypt_CFB (h : n % 8 = 0) :
    Agrees n buf (bf.Decrypt_2 buf n .CFB) out (bf.Decrypt_3 buf out n .CFB) ↔
      bf.KeystreamZero buf n := by
  have hread := readBlocks_Decrypt_3 bf buf out .CFB h
  rw [Decrypt_2_CFB, KeystreamZero, ← run_decryptBody_CFB_eq_self]
  constructor
  · intro hagree
    refine Eq.trans hread.symm (readBlocks_congr fun j _ hj => ?_)
    exact (hagree.same h j (by omega)).symm
  · intro hrun
    rw [Decrypt_3_eq bf buf out .CFB h, outBlocks, hrun]
    refine ⟨fun _ i hi => ?_, fun h0 => ⟨rfl, ?_⟩, fun i hi => ⟨rfl, ?_⟩⟩
    · refine readBlocks_inj (n := n / 8) (Eq.symm ?_) i (Nat.zero_le i) (by omega)
      exact readBlocks_writeBlocks _ out 0 (n / 8) (length_readBlocks ..)
    · have hz : n / 8 = 0 := by omega
      rw [hz]
      rfl
    · exact writeBlocks_frame _ out 0 i (by rw [length_readBlocks]; omega)

end

/-- **The two paths agree for encryption, and for decryption exactly when** the mode is not CFB,
there are no whole blocks, or every block of the keystream is zero. -/
theorem inPlace_agrees_iff (bf : CBlowFish) (iMode : Mode) (buf out : Nat → UInt8) (n : Nat) :
    Agrees n buf (bf.Encrypt_2 buf n iMode) out (bf.Encrypt_3 buf out n iMode) ∧
    (Agrees n buf (bf.Decrypt_2 buf n iMode) out (bf.Decrypt_3 buf out n iMode) ↔
      iMode ≠ .CFB ∨ n % 8 ≠ 0 ∨ bf.KeystreamZero buf n) := by
  refine ⟨agrees_encrypt bf iMode buf out n, ?_⟩
  by_cases hm : iMode = .CFB
  · subst hm
    by_cases h : n % 8 = 0
    · rw [agrees_decrypt_CFB bf buf out n h]
      exact ⟨fun hz => Or.inr (Or.inr hz), fun hz => (hz.resolve_left (· rfl)).resolve_left (· h)⟩
    · rw [(refused bf buf out .CFB h).2.1, (refused bf buf out .CFB h).2.2.2]
      exact iff_of_true (Agrees.refused h buf out) (Or.inr (Or.inl h))
  · exact iff_of_true (agrees_decrypt bf iMode buf out n hm) (Or.inl hm)

/-- one block of zeros in CFB mode, under tables of zeros and the chain `0, 1`: `Decrypt_3` writes
a one into the fourth byte, `Decrypt_2` does not -/
theorem Decrypt_2_writes_nothing :
    ¬ ∀ (bf : CBlowFish) (iMode : Mode) (buf out : Nat → UInt8) (n : Nat),
      Agrees n buf (bf.Encrypt_2 buf n iMode) out (bf.Encrypt_3 buf out n iMode) ∧
      Agrees n buf (bf.Decrypt_2 buf n iMode) out (bf.Decrypt_3 buf out n iMode) := by
  intro hall
  have h := (hall ⟨⟨0, 1⟩, ⟨0, 1⟩, fun _ => 0, fun _ _ => 0⟩ .CFB (fun _ => 0) (fun _ => 0) 8).2.same
    (by decide) 3 (by decide)
  revert h
  decide

end CBlowFish

end JMEngine.Encrypt
