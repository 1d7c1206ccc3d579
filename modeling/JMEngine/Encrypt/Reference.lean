import JMEngine.Encrypt.BlowFish
import JMEngine.Lib.BigEndian
import JMEngine.Lib.Loops

/-!
# The cipher is the Blowfish of the textbook

The constructor and `Encrypt_4` against `Reference`.

* `Encrypt_4_eq_encrypt`       the unrolled rounds are the equal rounds;
* `foldl_loadWord`             the recycled pointer reads the key modulo its length;
* `tables_new`                 the constructor leaves the reference's tables.
-/

set_option linter.unusedSectionVars false

namespace JMEngine.Encrypt

open Reference

namespace CBlowFish

def tables (bf : CBlowFish) : Tables := ⟨bf.m_auiP, bf.m_auiS⟩

/-! ## The rounds -/

theorem low_shift (x : Word) (s : Nat) : BigEndian.low (x >>> s) = x.extractLsb' s 8 := by
  apply BitVec.eq_of_getLsbD_eq
  intro i hi
  rw [BigEndian.getLsbD_low_shift x s i hi, BitVec.getLsbD_extractLsb', decide_eq_true hi,
    Bool.true_and]

theorem F_eq (bf : CBlowFish) : bf.F = bf.tables.f := by
  funext x
  have h0 : BigEndian.low x = x.extractLsb' 0 8 := low_shift x 0
  show ((bf.m_auiS 0 (BigEndian.low (x >>> 24)).toFin + bf.m_auiS 1 (BigEndian.low (x >>> 16)).toFin)
    ^^^ bf.m_auiS 2 (BigEndian.low (x >>> 8)).toFin) + bf.m_auiS 3 (BigEndian.low x).toFin = _
  rw [low_shift, low_shift, low_shift, h0]
  rfl

/-- **The unrolled rounds are the sixteen equal rounds of the textbook.** -/
theorem Encrypt_4_eq_encrypt (bf : CBlowFish) (b : SBlock) :
    bf.Encrypt_4 b = bf.tables.encrypt b := by
  have h := Feistel.halves_whiten bf.F (bf.m_auiP 0) bf.roundKeys (b.m_uil, b.m_uir)
  rw [Encrypt_4_eq bf b _ h, F_eq]
  rfl

/-! ## The key -/

section
variable (ucKey : Nat → UInt8) {m : Nat} (hm : 1 ≤ m)
include hm

/-- after `q` bytes both the pointer and the counter are at `q % m` -/
theorem loadByte_eq (q : Nat) (x : Word) :
    loadByte ucKey m (q % m, q % m, x) =
      ((q + 1) % m, (q + 1) % m, x <<< 8 ||| (ucKey (q % m)).toBitVec.setWidth 32) := by
  have hlt : q % m < m := Nat.mod_lt q hm
  have hmod : (q + 1) % m = (q % m + 1) % m := (Nat.mod_add_mod q m 1).symm
  unfold loadByte
  dsimp only
  by_cases h : q % m + 1 = m
  · rw [if_pos h, hmod, h, Nat.mod_self]
  · rw [if_neg h, hmod, Nat.mod_eq_of_lt (show q % m + 1 < m by omega)]

theorem iterate_loadByte (q : Nat) :
    (loadByte ucKey m)^[4] ((4 * q) % m, (4 * q) % m, 0) =
      ((4 * (q + 1)) % m, (4 * (q + 1)) % m, keyWord ucKey m q) := by
  show loadByte ucKey m (loadByte ucKey m (loadByte ucKey m (loadByte ucKey m _))) = _
  rw [loadByte_eq ucKey hm, loadByte_eq ucKey hm, loadByte_eq ucKey hm, loadByte_eq ucKey hm]
  exact congrArg (fun x => ((4 * (q + 1)) % m, (4 * (q + 1)) % m, x)) (BigEndian.shift_or ..)

/-- the subkeys when the first `n` of them have had their key bytes -/
def loaded (ucKey : Nat → UInt8) (m n : Nat) (i : Fin 18) : Word :=
  if i.val < n then scm_auiInitP i ^^^ keyWord ucKey m i else scm_auiInitP i

theorem loadWord_loaded (i : Fin 18) :
    loadWord ucKey m (loaded ucKey m i, (4 * i.val) % m, (4 * i.val) % m) i =
      (loaded ucKey m (i.val + 1), (4 * (i.val + 1)) % m, (4 * (i.val + 1)) % m) := by
  unfold loadWord
  dsimp only
  rw [iterate_loadByte ucKey hm]
  refine congrArg (fun P => (P, (4 * (i.val + 1)) % m, (4 * (i.val + 1)) % m)) ?_
  funext j
  unfold loaded
  by_cases h : j = i
  · subst h
    rw [Function.update_self, if_neg (lt_irrefl _), if_pos (Nat.lt_succ_self _)]
  · have hne : j.val ≠ i.val := fun e => h (Fin.ext e)
    rw [Function.update_of_ne h]
    by_cases hlt : j.val < i.val
    · rw [if_pos hlt, if_pos (by omega)]
    · rw [if_neg hlt, if_neg (by omega)]

/-- **The recycled key bytes are the key modulo its length.** -/
theorem foldl_loadWord :
    (Fin.foldl 18 (loadWord ucKey m) (scm_auiInitP, 0, 0)).1 = (keyed ucKey m).P := by
  have h : Fin.foldl 18 (loadWord ucKey m) (scm_auiInitP, 0, 0) =
      (loaded ucKey m 18, (4 * 18) % m, (4 * 18) % m) := by
    refine Loops.loop_invariant (loadWord ucKey m)
      (fun n st => st = (loaded ucKey m n, (4 * n) % m, (4 * n) % m)) _ ?_ ?_
    · rw [Nat.mul_zero, Nat.zero_mod]
      rfl
    · rintro i _ rfl
      exact loadWord_loaded ucKey hm i
  rw [h]
  funext i
  exact if_pos i.isLt

end

/-! ## The evolving tables -/

theorem tables_setP (bf : CBlowFish) (i : Fin 18) (ui : Word) :
    (bf.setP i ui).tables = bf.tables.replace i ui := by
  refine congrArg₂ Tables.mk ?_ ?_
  · funext j
    by_cases h : j = i
    · subst h
      rw [if_pos rfl]
      exact Function.update_self ..
    · rw [if_neg fun e => h (Fin.ext e)]
      exact Function.update_of_ne h ..
  · funext j k
    rw [if_neg (by omega)]
    rfl

theorem tables_setS (bf : CBlowFish) (j : Fin 4) (k : Fin 256) (ui : Word) :
    (bf.setS j k ui).tables = bf.tables.replace (18 + 256 * j.val + k.val) ui := by
  refine congrArg₂ Tables.mk ?_ ?_
  · funext i
    rw [if_neg (by omega)]
    rfl
  · funext j' k'
    show Function.update bf.m_auiS j (Function.update (bf.m_auiS j) k ui) j' k' = _
    by_cases h : j' = j
    · subst h
      rw [Function.update_self]
      by_cases hk : k' = k
      · subst hk
        rw [Function.update_self, if_pos rfl]
      · have hne : k'.val ≠ k.val := fun e => hk (Fin.ext e)
        rw [Function.update_of_ne hk, if_neg (by omega)]
        rfl
    · have hne : j'.val ≠ j.val := fun e => h (Fin.ext e)
      rw [Function.update_of_ne h, if_neg (by omega)]
      rfl

/-- the object and its block are where the reference is after `n` encryptions -/
def Follows (T : Tables) (n : Nat) (st : CBlowFish × SBlock) : Prop :=
  (st.1.tables, st.2) = evolve T n

section
variable {T : Tables} {n : Nat} {st : CBlowFish × SBlock} (h : Follows T n st)
include h

theorem Follows.tables : st.1.tables = (evolve T n).1 := congrArg Prod.fst h

theorem Follows.next (bf : CBlowFish) (hbf : bf.tables =
      (st.1.tables.replace (2 * n) (st.1.Encrypt_4 st.2).m_uil).replace (2 * n + 1)
        (st.1.Encrypt_4 st.2).m_uir) :
    Follows T (n + 1) (bf, st.1.Encrypt_4 st.2) := by
  have hb : st.2 = (evolve T n).2 := congrArg Prod.snd h
  unfold Follows
  rw [hbf, Encrypt_4_eq_encrypt, h.tables, hb]
  rfl

theorem Follows.reflectP (i : Fin 9) (hn : n = i.val) : Follows T (n + 1) (reflectP st i) := by
  refine h.next _ ?_
  rw [tables_setP, tables_setP, hn]

theorem Follows.reflectS (j : Fin 4) (k : Fin 128) (hn : n = 9 + 128 * j.val + k.val) :
    Follows T (n + 1) (reflectS j st k) := by
  refine h.next _ ?_
  rw [tables_setS, tables_setS, hn]
  have h0 : 18 + 256 * j.val + 2 * k.val = 2 * (9 + 128 * j.val + k.val) := by omega
  have h1 : 18 + 256 * j.val + (2 * k.val + 1) = 2 * (9 + 128 * j.val + k.val) + 1 := by omega
  show (st.1.tables.replace (18 + 256 * j.val + 2 * k.val) _).replace
    (18 + 256 * j.val + (2 * k.val + 1)) _ = _
  rw [h0, h1]

end

theorem foldl_reflectP (bf : CBlowFish) : Follows bf.tables 9 (Fin.foldl 9 reflectP (bf, ⟨0, 0⟩)) :=
  Loops.loop_invariant reflectP (Follows bf.tables) _ rfl fun i _ h => h.reflectP i rfl

theorem foldl_reflectS {T : Tables} {st : CBlowFish × SBlock} (j : Fin 4)
    (h : Follows T (9 + 128 * j.val) st) :
    Follows T (9 + 128 * (j.val + 1)) (Fin.foldl 128 (reflectS j) st) :=
  Loops.loop_invariant (reflectS j) (fun n => Follows T (9 + 128 * j.val + n)) st h
    fun k _ h => h.reflectS j k rfl

theorem min_keysize (keysize : Nat) : (if keysize > 56 then 56 else keysize) = min keysize 56 := by
  split <;> omega

/-- **The constructor leaves the tables of the reference**, whatever the memory held before. -/
theorem tables_new (raw : CBlowFish) (ucKey : Nat → UInt8) (keysize : Nat) (roChain : SBlock)
    (hk : 1 ≤ keysize) : (new raw ucKey keysize roChain).tables = schedule ucKey keysize := by
  have hm : 1 ≤ min keysize 56 := le_min hk (by decide)
  unfold new
  dsimp only
  rw [if_neg (by omega), min_keysize, foldl_loadWord ucKey hm]
  set bf : CBlowFish := ⟨roChain, roChain, (keyed ucKey (min keysize 56)).P, scm_auiInitS⟩
  have hS : Follows bf.tables (9 + 128 * 4) _ :=
    Loops.loop_invariant (fun st j => Fin.foldl 128 (reflectS j) st)
      (fun j => Follows bf.tables (9 + 128 * j)) (Fin.foldl 9 reflectP (bf, ⟨0, 0⟩))
      (foldl_reflectP bf) fun j _ h => foldl_reflectS j h
  have hT : bf.tables = keyed ucKey (min keysize 56) := rfl
  rw [hT] at hS
  rw [schedule, hS.tables]

/-- **The cipher is the textbook's**: for every key of at least one byte and every block, the
tables of the constructor followed by `Encrypt_4` give what the reference gives. -/
theorem Encrypt_4_new_eq_reference (raw : CBlowFish) (ucKey : Nat → UInt8) (keysize : Nat)
    (roChain block : SBlock) (hk : 1 ≤ keysize) :
    (new raw ucKey keysize roChain).Encrypt_4 block = (schedule ucKey keysize).encrypt block := by
  rw [Encrypt_4_eq_encrypt, tables_new raw ucKey keysize roChain hk]

/-- a key of sixty bytes, of which the first 56 count -/
theorem Encrypt_4_new_eq_reference_sixty :
    (new ⟨⟨0, 0⟩, ⟨0, 0⟩, fun _ => 0, fun _ _ => 0⟩ UInt8.ofNat 60 ⟨0, 0⟩).Encrypt_4 ⟨1, 2⟩ =
      (schedule UInt8.ofNat 60).encrypt ⟨1, 2⟩ :=
  Encrypt_4_new_eq_reference _ UInt8.ofNat 60 ⟨0, 0⟩ ⟨1, 2⟩ (by decide)

end CBlowFish

end JMEngine.Encrypt
