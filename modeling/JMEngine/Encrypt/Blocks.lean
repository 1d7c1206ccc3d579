import JMEngine.Encrypt.BlowFish
import JMEngine.Lib.BigEndian

/-!
# Blocks in memory

The memory behind a pointer is a function from offsets to bytes.

* `BytesToBlock mem p`       the block in the eight bytes from `p` on;
* `BlockToBytes b mem p`     `b` in the eight bytes before `p`, written from the last to the first;
* `readBlocks`, `writeBlocks`   a row of blocks, with the lemmas for reading back and for the
                             bytes around;
* `readBlocks_inj`           a row of blocks determines its bytes.
-/

set_option linter.unusedSectionVars false

namespace JMEngine.Encrypt

/-- the four bytes from `p` on, as `BytesToBlock` packs them into a word that was cleared -/
def bytesToWord (mem : Nat → UInt8) (p : Nat) : Word :=
  let ui : Word := 0#32
  let y := (mem p).toBitVec.setWidth 32
  let ui := ui ||| y <<< 24
  let y := (mem (p + 1)).toBitVec.setWidth 32
  let ui := ui ||| y <<< 16
  let y := (mem (p + 2)).toBitVec.setWidth 32
  let ui := ui ||| y <<< 8
  let y := (mem (p + 3)).toBitVec.setWidth 32
  ui ||| y

def BytesToBlock (mem : Nat → UInt8) (p : Nat) : SBlock :=
  ⟨bytesToWord mem p, bytesToWord mem (p + 4)⟩

/-- `BlockToBytes`: eight times `*--p = Byte(y)` -/
def BlockToBytes (b : SBlock) (mem : Nat → UInt8) (p : Nat) : Nat → UInt8 :=
  let mem := Function.update mem (p - 1) (Byte b.m_uir)
  let mem := Function.update mem (p - 2) (Byte (b.m_uir >>> 8))
  let mem := Function.update mem (p - 3) (Byte (b.m_uir >>> 16))
  let mem := Function.update mem (p - 4) (Byte (b.m_uir >>> 24))
  let mem := Function.update mem (p - 5) (Byte b.m_uil)
  let mem := Function.update mem (p - 6) (Byte (b.m_uil >>> 8))
  let mem := Function.update mem (p - 7) (Byte (b.m_uil >>> 16))
  Function.update mem (p - 8) (Byte (b.m_uil >>> 24))

theorem bytesToWord_eq (mem : Nat → UInt8) (p : Nat) :
    bytesToWord mem p = BigEndian.word (mem p).toBitVec (mem (p + 1)).toBitVec
      (mem (p + 2)).toBitVec (mem (p + 3)).toBitVec := by
  rw [← BigEndian.or_shifts]
  unfold bytesToWord
  dsimp only
  rw [BitVec.zero_or]

theorem bytesToWord_of_bytes (mem : Nat → UInt8) (p : Nat) (ui : Word)
    (h0 : mem p = Byte (ui >>> 24)) (h1 : mem (p + 1) = Byte (ui >>> 16))
    (h2 : mem (p + 2) = Byte (ui >>> 8)) (h3 : mem (p + 3) = Byte ui) : bytesToWord mem p = ui := by
  rw [bytesToWord_eq, h0, h1, h2, h3]
  exact BigEndian.word_low ui

theorem bytesToWord_inj {mem mem' : Nat → UInt8} {p q : Nat}
    (h : bytesToWord mem p = bytesToWord mem' q) : ∀ j < 4, mem (p + j) = mem' (q + j) := by
  rw [bytesToWord_eq, bytesToWord_eq] at h
  have h0 := congrArg (fun ui : Word => BigEndian.low (ui >>> 24)) h
  have h1 := congrArg (fun ui : Word => BigEndian.low (ui >>> 16)) h
  have h2 := congrArg (fun ui : Word => BigEndian.low (ui >>> 8)) h
  have h3 := congrArg BigEndian.low h
  simp only [BigEndian.low_word_24] at h0
  simp only [BigEndian.low_word_16] at h1
  simp only [BigEndian.low_word_8] at h2
  simp only [BigEndian.low_word_0] at h3
  intro j hj
  match j, hj with
  | 0, _ => exact UInt8.toBitVec_inj.mp h0
  | 1, _ => exact UInt8.toBitVec_inj.mp h1
  | 2, _ => exact UInt8.toBitVec_inj.mp h2
  | 3, _ => exact UInt8.toBitVec_inj.mp h3

theorem BytesToBlock_inj {mem mem' : Nat → UInt8} {p q : Nat}
    (h : BytesToBlock mem p = BytesToBlock mem' q) : ∀ j < 8, mem (p + j) = mem' (q + j) := by
  intro j hj
  by_cases hlt : j < 4
  · exact bytesToWord_inj (congrArg SBlock.m_uil h) j hlt
  · have hr := bytesToWord_inj (congrArg SBlock.m_uir h) (j - 4) (by omega)
    rw [show p + 4 + (j - 4) = p + j by omega, show q + 4 + (j - 4) = q + j by omega] at hr
    exact hr

theorem bytesToWord_congr {mem mem' : Nat → UInt8} {p q : Nat}
    (h : ∀ j < 4, mem (p + j) = mem' (q + j)) : bytesToWord mem p = bytesToWord mem' q := by
  rw [bytesToWord_eq, bytesToWord_eq, show mem p = mem' q from h 0 (by omega), h 1 (by omega),
    h 2 (by omega), h 3 (by omega)]

theorem BytesToBlock_congr {mem mem' : Nat → UInt8} {p q : Nat}
    (h : ∀ j < 8, mem (p + j) = mem' (q + j)) : BytesToBlock mem p = BytesToBlock mem' q := by
  unfold BytesToBlock
  rw [bytesToWord_congr fun j hj => h j (by omega), bytesToWord_congr (p := p + 4) (q := q + 4)]
  intro j hj
  rw [Nat.add_assoc, Nat.add_assoc]
  exact h (4 + j) (by omega)

theorem BlockToBytes_frame (b : SBlock) (mem : Nat → UInt8) (o j : Nat) (h : j < o ∨ o + 8 ≤ j) :
    BlockToBytes b mem (o + 8) j = mem j := by
  unfold BlockToBytes
  rw [Function.update_of_ne (by omega), Function.update_of_ne (by omega),
    Function.update_of_ne (by omega), Function.update_of_ne (by omega),
    Function.update_of_ne (by omega), Function.update_of_ne (by omega),
    Function.update_of_ne (by omega), Function.update_of_ne (by omega)]

theorem BytesToBlock_BlockToBytes (b : SBlock) (mem : Nat → UInt8) (o : Nat) :
    BytesToBlock (BlockToBytes b mem (o + 8)) o = b := by
  refine SBlock.ext (bytesToWord_of_bytes _ _ _ ?_ ?_ ?_ ?_) (bytesToWord_of_bytes _ _ _ ?_ ?_ ?_ ?_)
    <;> simp [BlockToBytes, Nat.add_assoc]

/-! ## Rows of blocks -/

def readBlocks (mem : Nat → UInt8) : Nat → Nat → List SBlock
  | _, 0 => []
  | o, n + 1 => BytesToBlock mem o :: readBlocks mem (o + 8) n

def writeBlocks (mem : Nat → UInt8) : Nat → List SBlock → Nat → UInt8
  | _, [] => mem
  | o, b :: bs => writeBlocks (BlockToBytes b mem (o + 8)) (o + 8) bs

theorem length_readBlocks (mem : Nat → UInt8) (o n : Nat) : (readBlocks mem o n).length = n := by
  induction n generalizing o with
  | zero => rfl
  | succ n ih => exact congrArg (· + 1) (ih (o + 8))

theorem readBlocks_congr {mem mem' : Nat → UInt8} {o n : Nat}
    (h : ∀ j, o ≤ j → j < o + 8 * n → mem j = mem' j) : readBlocks mem o n = readBlocks mem' o n := by
  induction n generalizing o with
  | zero => rfl
  | succ n ih =>
    refine congrArg₂ List.cons (BytesToBlock_congr fun j hj => ?_) (ih fun j h1 h2 => ?_)
    · exact h (o + j) (by omega) (by omega)
    · exact h j (by omega) (by omega)

theorem readBlocks_inj {mem mem' : Nat → UInt8} {o n : Nat}
    (h : readBlocks mem o n = readBlocks mem' o n) : ∀ j, o ≤ j → j < o + 8 * n → mem j = mem' j := by
  induction n generalizing o with
  | zero => exact fun j h1 h2 => by omega
  | succ n ih =>
    intro j h1 h2
    obtain ⟨hb, hbs⟩ := List.cons.inj h
    by_cases hj : j < o + 8
    · have := BytesToBlock_inj hb (j - o) (by omega)
      rwa [show o + (j - o) = j by omega] at this
    · exact ih hbs j (by omega) (by omega)

theorem writeBlocks_frame (bs : List SBlock) (mem : Nat → UInt8) (o j : Nat)
    (h : j < o ∨ o + 8 * bs.length ≤ j) : writeBlocks mem o bs j = mem j := by
  induction bs generalizing mem o with
  | nil => rfl
  | cons b bs ih =>
    rw [List.length_cons] at h
    show writeBlocks (BlockToBytes b mem (o + 8)) (o + 8) bs j = mem j
    rw [ih _ (o + 8) (by omega), BlockToBytes_frame b mem o j (by omega)]

theorem readBlocks_writeBlocks (bs : List SBlock) (mem : Nat → UInt8) (o n : Nat)
    (h : bs.length = n) : readBlocks (writeBlocks mem o bs) o n = bs := by
  subst h
  induction bs generalizing mem o with
  | nil => rfl
  | cons b bs ih =>
    have hfst : BytesToBlock (writeBlocks (BlockToBytes b mem (o + 8)) (o + 8) bs) o =
        BytesToBlock (BlockToBytes b mem (o + 8)) o :=
      BytesToBlock_congr fun j hj => writeBlocks_frame bs _ (o + 8) (o + j) (by omega)
    exact congrArg₂ List.cons (hfst.trans (BytesToBlock_BlockToBytes b mem o)) (ih _ (o + 8))

end JMEngine.Encrypt
