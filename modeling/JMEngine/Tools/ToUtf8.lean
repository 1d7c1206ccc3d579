import JMEngine.Tools.Convert

/-!
# What `GB2312ToUTF_8` produces

* `spelled c`                  the bytes written for a character: one for ASCII, three for any other;
* `gbLoop_spec`                the loop over a text of the character set;
* `GB2312ToUTF_8_blank`        the result: these bytes, and a blank where the NUL was meant to be;
* `GB2312ToUTF_8_iff`          **it is the UTF-8 encoding only for the empty text** (and an empty `pOut`);
* `GB2312ToUTF_8_blank_iff`    but for the blank it is, exactly when no character takes two bytes.
-/

set_option linter.unusedSectionVars false

namespace JMEngine.Tools
open DoubleByte Utf8

/-- the bytes that the loop writes for a character -/
def spelled (c : Char) : List UInt8 :=
  if c.toNat < 128 then [UInt8.ofNat c.toNat] else UnicodeToUTF_8 (UInt16.ofNat c.toNat)

theorem spelled_ascii {c : Char} (h : c.toNat < 128) : spelled c = [UInt8.ofNat c.toNat] := if_pos h

theorem spelled_other {c : Char} (h : 128 ≤ c.toNat) :
    spelled c = UnicodeToUTF_8 (UInt16.ofNat c.toNat) :=
  if_neg (Nat.not_lt.mpr h)

theorem length_spelled (c : Char) : (spelled c).length = taken c := by
  unfold spelled taken
  split <;> rfl

section
variable {S : Charset}

theorem spelled_ne_zero {c : Char} (h : S.Has c) : ∀ b ∈ spelled c, b ≠ 0 := by
  cases h.written with
  | ascii h0 hlt =>
    rw [spelled_ascii hlt, ← Charset.bytes_ascii (S := S) hlt]
    exact h.bytes_ne_zero
  | double x y hc =>
    rw [spelled_other (S.wide c _ hc).1]
    exact UnicodeToUTF_8_ne_zero _

theorem spelled_eq {c : Char} (h : S.Has c) (h2 : c.utf8Size ≠ 2) :
    spelled c = String.utf8EncodeChar c := by
  cases h.written with
  | ascii h0 hlt => rw [spelled_ascii hlt, encode_one hlt]
  | double x y hc =>
    have hw := S.wide c _ hc
    rw [spelled_other hw.1, UnicodeToUTF_8_three (size_three_of_code hc h2)]
    rw [UInt16.toNat_ofNat']
    omega

end

/-! ## the loop -/

section
variable {S : Charset} {api : WinApi} (hapi : api.Widens S)
include hapi

theorem gbLoop_spec (cs : List Char) : (∀ c ∈ cs, S.Has c) → ∀ (beyond : List UInt8) (fuel : Nat),
    (S.encode cs).length < fuel →
    gbLoop api fuel (S.encode cs ++ beyond) (S.encode cs).length = some (cs.flatMap spelled) := by
  induction cs with
  | nil =>
    intro _ beyond fuel hfuel
    obtain ⟨fuel, rfl⟩ : ∃ f, fuel = f + 1 := ⟨fuel - 1, by omega⟩
    exact gbLoop_stop api fuel _ (Int.le_refl 0)
  | cons c cs ih =>
    intro hcs beyond fuel hfuel
    obtain ⟨fuel, rfl⟩ : ∃ f, fuel = f + 1 := ⟨fuel - 1, by omega⟩
    have htail := fun d hd => hcs d (List.mem_cons_of_mem c hd)
    rw [Charset.encode_cons] at hfuel ⊢
    rw [List.flatMap_cons]
    cases (hcs c List.mem_cons_self).written with
    | ascii h0 hlt =>
      rw [Charset.bytes_ascii hlt, List.singleton_append, List.length_cons] at hfuel ⊢
      have hb : (UInt8.ofNat c.toNat).toNat < 128 := by rw [Charset.toNat_ascii hlt]; exact hlt
      rw [List.cons_append, gbLoop_ascii api fuel _ (by omega) hb,
        show (((S.encode cs).length + 1 : Nat) : Int) - 1 = (S.encode cs).length by omega,
        ih htail beyond fuel (by omega), spelled_ascii hlt]
      rfl
    | double x y hc =>
      have hhigh := S.high c x y hc
      have hwide := S.wide c _ hc
      have hw : api.MultiByteToWideChar x y = UInt16.ofNat c.toNat := by
        refine UInt16.toNat_inj.mp ?_
        rw [hapi c x y hc, UInt16.toNat_ofNat']
        omega
      rw [Charset.bytes_some hc, List.cons_append, List.singleton_append, List.length_cons,
        List.length_cons] at hfuel ⊢
      rw [List.cons_append, List.cons_append, gbLoop_double api fuel _ _ (by omega) (by omega),
        show (((S.encode cs).length + 1 + 1 : Nat) : Int) - 2 = (S.encode cs).length by omega,
        ih htail beyond fuel (by omega), hw, ← spelled_other hwide.1]
      rfl

end

/-! ## the result -/

section
variable {S : Charset} {cs : List Char} (hcs : ∀ c ∈ cs, S.Has c)
include hcs

theorem length_flatMap_spelled : 2 * (cs.flatMap spelled).length ≤ 3 * (S.encode cs).length := by
  induction cs with
  | nil => exact Nat.le_refl 0
  | cons c cs ih =>
    have htail := ih fun d hd => hcs d (List.mem_cons_of_mem c hd)
    rw [List.flatMap_cons, Charset.encode_cons, List.length_append, List.length_append]
    cases (hcs c List.mem_cons_self).written with
    | ascii h0 hlt =>
      rw [spelled_ascii hlt, Charset.bytes_ascii hlt, List.length_singleton]
      omega
    | double x y hc =>
      rw [length_spelled, taken, if_neg (Nat.not_lt.mpr (S.wide c _ hc).1), Charset.bytes_some hc,
        List.length_cons, List.length_singleton]
      omega

theorem length_spelled_encode : (cs.flatMap spelled).length
    = (encode cs).length + cs.countP (fun c => c.utf8Size = 2) := by
  rw [← sum_taken hcs, List.length_flatMap, List.map_congr_left fun c _ => length_spelled c]

omit hcs in
theorem encode_pos (hne : cs ≠ []) : 0 < (S.encode cs).length :=
  List.length_pos_iff.mpr fun h => hne (S.encode_eq_nil h)

variable {api : WinApi} (hapi : api.Widens S)
include hapi

theorem GB2312ToUTF_8_blank (hne : cs ≠ []) (hint : 3 * (S.encode cs).length < 2147483648)
    (pOut beyond : List UInt8) :
    GB2312ToUTF_8 api pOut (S.encode cs ++ beyond) (S.encode cs).length
      = some (cs.flatMap spelled ++ [0x20]) := by
  have hpos := encode_pos (S := S) hne
  have hlen := length_flatMap_spelled hcs
  unfold GB2312ToUTF_8
  rw [if_neg (by omega), if_pos (by omega), Int.toNat_natCast,
    gbLoop_spec hapi cs hcs beyond _ (Nat.lt_succ_self _)]
  dsimp only
  rw [if_pos (by omega)]
  obtain ⟨k, hk⟩ : ∃ k, (((S.encode cs).length : Int) * 3).toNat - (cs.flatMap spelled).length - 1 = k + 1 :=
    ⟨_, (Nat.succ_pred_eq_of_pos (by omega)).symm⟩
  have hnz : ∀ b ∈ cs.flatMap spelled ++ [0x20], b ≠ 0 := by
    intro b hb
    rcases List.mem_append.mp hb with hb | hb
    · obtain ⟨c, hc, hb⟩ := List.mem_flatMap.mp hb
      exact spelled_ne_zero (hcs c hc) b hb
    · rw [List.mem_singleton.mp hb]
      decide
  rw [hk, List.replicate_succ, cstr_append_zero hnz, if_pos (by simp)]

/-- **But for the blank it is the UTF-8 encoding exactly when no character takes two bytes.** -/
theorem GB2312ToUTF_8_blank_iff (hne : cs ≠ []) (hint : 3 * (S.encode cs).length < 2147483648)
    (pOut beyond : List UInt8) :
    GB2312ToUTF_8 api pOut (S.encode cs ++ beyond) (S.encode cs).length = some (encode cs ++ [0x20]) ↔
      ∀ c ∈ cs, c.utf8Size ≠ 2 := by
  rw [GB2312ToUTF_8_blank hcs hapi hne hint]
  constructor
  · intro h c hc h2
    have hlen := congrArg List.length (Option.some.inj h)
    rw [List.length_append, List.length_append, length_spelled_encode hcs] at hlen
    have hzero : cs.countP (fun c => c.utf8Size = 2) = 0 := by omega
    exact List.countP_eq_zero.mp hzero c hc (decide_eq_true h2)
  · intro h
    have e : cs.flatMap spelled = encode cs :=
      List.flatMap_congr fun c hc => spelled_eq (hcs c hc) (h c hc)
    rw [e]

end

/-- **`GB2312ToUTF_8` gives the UTF-8 encoding only for the empty text**, for which it leaves `pOut` as it
was. -/
theorem GB2312ToUTF_8_iff (S : Charset) (api : WinApi) (hapi : api.Widens S) (cs : List Char)
    (hcs : ∀ c ∈ cs, S.Has c) (pOut beyond : List UInt8) :
    GB2312ToUTF_8 api pOut (S.encode cs ++ beyond) (S.encode cs).length = some (encode cs) ↔
      cs = [] ∧ pOut = [] := by
  by_cases hne : cs = []
  · subst hne
    exact ⟨fun h => ⟨rfl, Option.some.inj h⟩, fun h => congrArg some h.2⟩
  refine ⟨fun h => ?_, fun h => absurd h.1 hne⟩
  exfalso
  by_cases hint : 3 * (S.encode cs).length < 2147483648
  · rw [GB2312ToUTF_8_blank hcs hapi hne hint] at h
    have hlen := congrArg List.length (Option.some.inj h)
    rw [List.length_append, List.length_singleton, length_spelled_encode hcs] at hlen
    omega
  · have hpos := encode_pos (S := S) hne
    unfold GB2312ToUTF_8 at h
    rw [if_neg (by omega), if_neg (by omega)] at h
    cases h

theorem GB2312ToUTF_8_iff_sample :
    (∀ c ∈ ['\u00a7', 'a', '\u4e00'], sampleCharset.Has c) ∧
      ¬ GB2312ToUTF_8 sampleApi [] (sampleCharset.encode ['\u00a7', 'a', '\u4e00'] ++ [0])
        (sampleCharset.encode ['\u00a7', 'a', '\u4e00']).length
          = some (encode ['\u00a7', 'a', '\u4e00']) :=
  have has := sampleCharset_has ['\u00a7', 'a', '\u4e00'] (by decide +kernel)
  ⟨has, fun h => by
    have := ((GB2312ToUTF_8_iff sampleCharset sampleApi sampleApi_widens _ has [] [0]).mp h).1
    cases this⟩

/-- one letter: a blank is added -/
theorem GB2312ToUTF_8_letter : ¬ ∀ (S : Charset) (api : WinApi) (cs : List Char) (pOut beyond : List UInt8),
    api.Widens S → (∀ c ∈ cs, S.Has c) → 3 * (S.encode cs).length < 2147483648 →
    GB2312ToUTF_8 api pOut (S.encode cs ++ beyond) (S.encode cs).length = some (encode cs) := by
  intro h
  have hA := h sampleCharset sampleApi ['A'] [] [] sampleApi_widens
    (sampleCharset_has _ (by decide +kernel)) (by decide)
  revert hA
  decide +kernel

end JMEngine.Tools
