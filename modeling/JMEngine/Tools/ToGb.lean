import JMEngine.Tools.Convert

/-!
# What `UTF_8ToGB2312` produces

The loop takes one byte for ASCII and three bytes for anything else.

* `utf8Loop_spec`          the loop over characters of one and three bytes;
* `strictApi`              a code page that knows nothing outside the character set;
* `Consumed bs cs`         the loop cut `bs` into pieces that gave the characters `cs`, the last one perhaps
                           with bytes behind the end of the text;
* `consumed_of_loop`       on `strictApi` this is what a right result means;
* `UTF_8ToGB2312_iff`      **the result is right on every code page exactly when no character takes two
                           bytes**.
-/

set_option linter.unusedSectionVars false

namespace JMEngine.Tools
open DoubleByte Utf8

/-! ## characters of one and three bytes -/

section
variable {S : Charset} {api : WinApi}

theorem UnicodeToGB2312_of (hapi : api.Narrows S) {c : Char} {x y : UInt8} (hc : S.code c = some (x, y))
    {w : UInt16} (hw : w.toNat = c.toNat) (ctemp : UInt8 × UInt8) :
    UnicodeToGB2312 api ctemp w = (x, y) := by
  unfold UnicodeToGB2312
  rw [hapi c x y w hc hw]

theorem utf8Loop_spec (hapi : api.Narrows S) (cs : List Char) : (∀ c ∈ cs, S.Has c) →
    (∀ c ∈ cs, c.utf8Size ≠ 2) → ∀ (beyond : List UInt8) (fuel : Nat) (ctemp : UInt8 × UInt8),
    (encode cs).length < fuel →
    utf8Loop api fuel (encode cs ++ beyond) (encode cs).length ctemp = some (S.encode cs) := by
  induction cs with
  | nil =>
    intro _ _ beyond fuel ctemp hfuel
    obtain ⟨fuel, rfl⟩ : ∃ f, fuel = f + 1 := ⟨fuel - 1, by omega⟩
    exact utf8Loop_stop api fuel ctemp _ (Int.le_refl 0)
  | cons c cs ih =>
    intro hcs h2 beyond fuel ctemp hfuel
    obtain ⟨fuel, rfl⟩ : ∃ f, fuel = f + 1 := ⟨fuel - 1, by omega⟩
    have htail := fun d hd => hcs d (List.mem_cons_of_mem c hd)
    have htail2 := fun d hd => h2 d (List.mem_cons_of_mem c hd)
    rw [encode_cons] at hfuel ⊢
    rw [Charset.encode_cons]
    cases (hcs c List.mem_cons_self).written with
    | ascii h0 hlt =>
      rw [encode_one hlt, List.singleton_append, List.length_cons] at hfuel ⊢
      have hb : (UInt8.ofNat c.toNat).toNat < 128 := by rw [Charset.toNat_ascii hlt]; exact hlt
      rw [List.cons_append, utf8Loop_ascii api fuel ctemp _ (by omega) hb,
        show (((encode cs).length + 1 : Nat) : Int) - 1 = (encode cs).length by omega,
        ih htail htail2 beyond fuel ctemp (by omega), Charset.bytes_ascii hlt]
      rfl
    | double x y hc =>
      have h3 := size_three_of_code hc (h2 c List.mem_cons_self)
      have hr := size_three_iff.mp h3
      obtain ⟨b0, b1, b2, he, e0, e1, e2⟩ := encode_three h3
      have hw : (UTF_8ToUnicode b0 b1 b2).toNat = c.toNat := by
        rw [toNat_UTF_8ToUnicode]
        omega
      rw [he] at hfuel ⊢
      simp only [List.cons_append, List.nil_append, List.length_cons] at hfuel ⊢
      rw [utf8Loop_three api fuel ctemp b1 b2 _ (by omega) (by omega) (UnicodeToGB2312_of hapi hc hw ctemp),
        show (((encode cs).length + 1 + 1 + 1 : Nat) : Int) - 3 = (encode cs).length by omega,
        ih htail htail2 beyond fuel (x, y) (by omega), Charset.bytes_some hc]
      rfl

theorem length_codes_le (cs : List Char) (hcs : ∀ c ∈ cs, S.Has c) :
    (S.encode cs).length ≤ (encode cs).length := by
  induction cs with
  | nil => exact Nat.le_refl 0
  | cons c cs ih =>
    have htail := ih fun d hd => hcs d (List.mem_cons_of_mem c hd)
    rw [Charset.encode_cons, List.length_append, length_encode_cons]
    cases (hcs c List.mem_cons_self).written with
    | ascii h0 hlt =>
      rw [Charset.bytes_ascii hlt, List.length_singleton, size_one_iff.mpr hlt]
      omega
    | double x y hc =>
      have hw := (S.wide c _ hc).1
      have hsize : 2 ≤ c.utf8Size := by
        have h1 : c.utf8Size ≠ 1 := fun h => by
          have := size_one_iff.mp h
          omega
        have := c.utf8Size_pos
        omega
      rw [Charset.bytes_some hc, List.length_cons, List.length_singleton]
      omega

end

/-! ## how a text is cut -/

/-- a code page that knows nothing outside the character set, where it gives two bytes `80` -/
def strictApi (S : Charset) : WinApi where
  MultiByteToWideChar _ _ := 0
  WideCharToMultiByte w :=
    match S.code (Char.ofNat w.toNat) with
    | some (x, y) => [x, y]
    | none => [0x80, 0x80]

theorem strictApi_narrows (S : Charset) : (strictApi S).Narrows S := by
  intro c x y w hc hw
  unfold strictApi
  dsimp only
  rw [hw, Char.ofNat_toNat, hc]

/-- the loop cuts the bytes into pieces, one for each character; the last piece may lack one or two bytes,
in whose place NULs are read -/
inductive Consumed : List UInt8 → List Char → Prop
  | nil : Consumed [] []
  | ascii {a : UInt8} {c : Char} {bs : List UInt8} {cs : List Char} (hc : c.toNat < 128) :
      Consumed bs cs → Consumed (a :: bs) (c :: cs)
  | three {b0 b1 b2 : UInt8} {c : Char} {bs : List UInt8} {cs : List Char} (hc : 128 ≤ c.toNat) :
      Consumed bs cs → Consumed (b0 :: b1 :: b2 :: bs) (c :: cs)
  | lacksOne {b0 b1 : UInt8} {c : Char} (hc : 128 ≤ c.toNat)
      (hw : (UTF_8ToUnicode b0 b1 0).toNat = c.toNat) : Consumed [b0, b1] [c]
  | lacksTwo {b0 : UInt8} {c : Char} (hc : 128 ≤ c.toNat)
      (hw : (UTF_8ToUnicode b0 0 0).toNat = c.toNat) : Consumed [b0] [c]

section
variable {S : Charset}

/-- what `strictApi` gives is not below `80`; where it begins a text of the character set, it is the code of
the character that was asked for -/
theorem strict_code {w : UInt16} {ctemp : UInt8 × UInt8} {x y : UInt8}
    (h : UnicodeToGB2312 (strictApi S) ctemp w = (x, y)) :
    128 ≤ x.toNat ∧ 128 ≤ y.toNat ∧ ∀ c, S.code c = some (x, y) → w.toNat = c.toNat := by
  unfold UnicodeToGB2312 strictApi at h
  dsimp only at h
  cases hc : S.code (Char.ofNat w.toNat) with
  | none =>
    rw [hc] at h
    obtain ⟨rfl, rfl⟩ := Prod.mk.inj h
    refine ⟨by decide, by decide, fun c hcode => ?_⟩
    have := (S.high c _ _ hcode).1
    exact absurd this (by decide)
  | some p =>
    obtain ⟨x', y'⟩ := p
    rw [hc] at h
    obtain ⟨rfl, rfl⟩ := Prod.mk.inj h
    have hhigh := S.high _ _ _ hc
    refine ⟨by omega, by omega, fun c hcode => ?_⟩
    rw [S.injective c _ _ hcode hc]
    -- a surrogate is no character, and `Char.ofNat` gives NUL for it
    have hwide := (S.wide _ _ hc).1
    by_cases hv : w.toNat.isValidChar
    · rw [Char.ofNat, dif_pos hv]
      rfl
    · rw [Char.ofNat, dif_neg hv] at hwide
      exact absurd hwide (by decide)

theorem ne_zero_of_high {b : UInt8} (h : 128 ≤ b.toNat) : b ≠ 0 := by
  rintro rfl
  exact absurd h (by decide)

theorem strict_piece {w : UInt16} {ctemp : UInt8 × UInt8} {x y : UInt8}
    (h : UnicodeToGB2312 (strictApi S) ctemp w = (x, y)) {out : List UInt8} {cs : List Char}
    (hcs : ∀ c ∈ cs, S.Has c) (he : cstr (x :: y :: out) = S.encode cs) :
    ∃ c cs', cs = c :: cs' ∧ 128 ≤ c.toNat ∧ w.toNat = c.toNat ∧ cstr out = S.encode cs' := by
  obtain ⟨hx, hy, hcode⟩ := strict_code h
  rw [cstr_cons (ne_zero_of_high hx), cstr_cons (ne_zero_of_high hy)] at he
  obtain ⟨c, cs', y', rfl, hc, htail⟩ := Charset.encode_double hcs hx he.symm
  obtain ⟨e1, e2⟩ := List.cons.inj htail
  subst e1
  exact ⟨c, cs', rfl, (S.wide c _ hc).1, hcode c hc, e2⟩

/-- **A right result on `strictApi`**: the loop has cut the bytes into as many pieces as there are
characters. -/
theorem consumed_of_loop (fuel : Nat) : ∀ (bs : List UInt8) (ctemp : UInt8 × UInt8) (out : List UInt8)
    (cs : List Char), (∀ b ∈ bs, b ≠ 0) → (∀ c ∈ cs, S.Has c) →
    utf8Loop (strictApi S) fuel (bs ++ [0, 0]) bs.length ctemp = some out → cstr out = S.encode cs →
    Consumed bs cs := by
  induction fuel with
  | zero => exact fun _ _ _ _ _ _ h _ => by cases h
  | succ fuel ih =>
    intro bs ctemp out cs hbs hcs h he
    cases bs with
    | nil =>
      rw [utf8Loop_end _ ctemp (Int.le_refl 0) h] at he
      rw [S.encode_eq_nil he.symm]
      exact .nil
    | cons a bs =>
      have hpos : (0 : Int) < ((a :: bs).length : Nat) := by
        rw [List.length_cons]
        omega
      rw [List.cons_append] at h
      by_cases ha : a.toNat < 128
      · rw [utf8Loop_ascii _ fuel ctemp _ hpos ha] at h
        obtain ⟨out', h', rfl⟩ := Option.map_eq_some_iff.mp h
        rw [cstr_cons (hbs a List.mem_cons_self)] at he
        obtain ⟨c, cs', rfl, hc, htail⟩ := Charset.encode_ascii hcs ha he.symm
        rw [List.length_cons, show ((bs.length + 1 : Nat) : Int) - 1 = bs.length by omega] at h'
        exact .ascii (by omega) (ih bs ctemp out' cs' (fun b hb => hbs b (List.mem_cons_of_mem a hb))
          (fun d hd => hcs d (List.mem_cons_of_mem c hd)) h' htail.symm)
      · obtain ⟨⟨x, y⟩, hxy⟩ : ∃ p, UnicodeToGB2312 (strictApi S) ctemp
            (UTF_8ToUnicode a ((bs ++ [0, 0]).getD 0 0) ((bs ++ [0, 0]).getD 1 0)) = p := ⟨_, rfl⟩
        rcases bs with _ | ⟨b, _ | ⟨c, bs⟩⟩
        · rw [List.nil_append, utf8Loop_three _ fuel ctemp 0 0 [] hpos (by omega) hxy] at h
          obtain ⟨out', h', rfl⟩ := Option.map_eq_some_iff.mp h
          obtain ⟨c, cs', rfl, hc, hw, htail⟩ := strict_piece hxy hcs he
          rw [utf8Loop_end _ _ (by simp only [List.length_singleton]; omega) h'] at htail
          rw [S.encode_eq_nil htail.symm]
          exact .lacksTwo hc hw
        · rw [List.singleton_append, utf8Loop_three _ fuel ctemp b 0 [0] hpos (by omega) hxy] at h
          obtain ⟨out', h', rfl⟩ := Option.map_eq_some_iff.mp h
          obtain ⟨c, cs', rfl, hc, hw, htail⟩ := strict_piece hxy hcs he
          rw [utf8Loop_end _ _ (by simp only [List.length_cons, List.length_nil]; omega) h'] at htail
          rw [S.encode_eq_nil htail.symm]
          exact .lacksOne hc hw
        · rw [List.cons_append, List.cons_append,
            utf8Loop_three _ fuel ctemp b c (bs ++ [0, 0]) hpos (by omega) hxy] at h
          obtain ⟨out', h', rfl⟩ := Option.map_eq_some_iff.mp h
          obtain ⟨d, cs', rfl, hd, _, htail⟩ := strict_piece hxy hcs he
          rw [List.length_cons, List.length_cons, List.length_cons,
            show ((bs.length + 1 + 1 + 1 : Nat) : Int) - 3 = bs.length by omega] at h'
          have hbs' : ∀ e ∈ bs, e ≠ 0 := fun e hm =>
            hbs e (List.mem_cons_of_mem a (List.mem_cons_of_mem b (List.mem_cons_of_mem c hm)))
          have hcs' : ∀ e ∈ cs', S.Has e := fun e hm => hcs e (List.mem_cons_of_mem d hm)
          exact .three hd (ih bs (x, y) out' cs' hbs' hcs' h' htail)

end

/-! ## no byte is left over -/

/-- the last piece lacks bytes: what it gave is the last character -/
inductive Lacks (c : Char) : List UInt8 → Prop
  | one {b0 b1 : UInt8} (hw : (UTF_8ToUnicode b0 b1 0).toNat = c.toNat) : Lacks c [b0, b1]
  | two {b0 : UInt8} (hw : (UTF_8ToUnicode b0 0 0).toNat = c.toNat) : Lacks c [b0]

theorem Consumed.length {bs : List UInt8} {cs : List Char} (h : Consumed bs cs) :
    bs.length = (cs.map taken).sum ∨
      ∃ bs' last cs' c, bs = bs' ++ last ∧ cs = cs' ++ [c] ∧ 128 ≤ c.toNat ∧ Lacks c last := by
  induction h with
  | nil => exact Or.inl rfl
  | @ascii a c bs cs hc _ ih =>
    rcases ih with ih | ⟨bs', last, cs', d, rfl, rfl, hd, hl⟩
    · refine Or.inl ?_
      rw [List.map_cons, List.sum_cons, List.length_cons, ih, taken, if_pos hc]
      omega
    · exact Or.inr ⟨a :: bs', last, c :: cs', d, rfl, rfl, hd, hl⟩
  | @three b0 b1 b2 c bs cs hc _ ih =>
    rcases ih with ih | ⟨bs', last, cs', d, rfl, rfl, hd, hl⟩
    · refine Or.inl ?_
      rw [List.map_cons, List.sum_cons, List.length_cons, List.length_cons, List.length_cons, ih, taken,
        if_neg (by omega)]
      omega
    · exact Or.inr ⟨b0 :: b1 :: b2 :: bs', last, c :: cs', d, rfl, rfl, hd, hl⟩
  | @lacksOne b0 b1 c hc hw => exact Or.inr ⟨[], [b0, b1], [], c, rfl, rfl, hc, .one hw⟩
  | @lacksTwo b0 c hc hw => exact Or.inr ⟨[], [b0], [], c, rfl, rfl, hc, .two hw⟩

theorem encode_append (cs ds : List Char) : encode (cs ++ ds) = encode cs ++ encode ds :=
  List.flatMap_append

theorem not_lacks {c : Char} (h0 : 128 ≤ c.toNat) (hlt : c.toNat < 65536) {cs : List Char}
    {bs last : List UInt8} (h : encode (cs ++ [c]) = bs ++ last) : ¬ Lacks c last := by
  have hone : encode [c] = String.utf8EncodeChar c := by
    rw [encode_cons]
    exact List.append_nil _
  rw [encode_append, hone] at h
  intro hl
  by_cases h2 : c.utf8Size = 2
  · have hr := size_two_iff.mp h2
    obtain ⟨l, x, he, e0, e1⟩ := encode_two h2
    rw [he] at h
    cases hl with
    | @one b0 b1 hw =>
      obtain ⟨_, hb⟩ := List.append_inj' h rfl
      simp only [List.cons.injEq, and_true] at hb
      rw [toNat_UTF_8ToUnicode, UInt8.toNat_zero, ← hb.1, ← hb.2] at hw
      omega
    | @two b0 hw =>
      rw [show [l, x] = [l] ++ [x] from rfl, ← List.append_assoc] at h
      obtain ⟨_, hb⟩ := List.append_inj' h rfl
      simp only [List.cons.injEq, and_true] at hb
      rw [toNat_UTF_8ToUnicode, UInt8.toNat_zero, ← hb] at hw
      omega
  · have h2' := size_two_iff.not.mp h2
    obtain ⟨l, x, y, he, e0, e1, e2⟩ := encode_three (size_three_iff.mpr ⟨by omega, hlt⟩)
    rw [he] at h
    cases hl with
    | @one b0 b1 hw =>
      rw [show [l, x, y] = [l] ++ [x, y] from rfl, ← List.append_assoc] at h
      obtain ⟨_, hb⟩ := List.append_inj' h rfl
      simp only [List.cons.injEq, and_true] at hb
      rw [toNat_UTF_8ToUnicode, UInt8.toNat_zero, ← hb.1, ← hb.2] at hw
      omega
    | @two b0 hw =>
      rw [show [l, x, y] = [l, x] ++ [y] from rfl, ← List.append_assoc] at h
      obtain ⟨_, hb⟩ := List.append_inj' h rfl
      simp only [List.cons.injEq, and_true] at hb
      rw [toNat_UTF_8ToUnicode, UInt8.toNat_zero, ← hb] at hw
      omega

theorem no_two_of_consumed {S : Charset} {cs : List Char} (hcs : ∀ c ∈ cs, S.Has c)
    (h : Consumed (encode cs) cs) : ∀ c ∈ cs, c.utf8Size ≠ 2 := by
  rcases h.length with hlen | ⟨bs, last, cs', c, hbs, hc, h128, hl⟩
  · rw [sum_taken hcs] at hlen
    have hzero : cs.countP (fun c => c.utf8Size = 2) = 0 := by omega
    exact fun c hc h2 => List.countP_eq_zero.mp hzero c hc (decide_eq_true h2)
  · have hmem : c ∈ cs := hc ▸ List.mem_append_right _ List.mem_cons_self
    have hlt : c.toNat < 65536 := by
      cases (hcs c hmem).written with
      | ascii _ hlt => omega
      | double x y hcode => exact (S.wide c _ hcode).2
    rw [hc] at hbs
    exact absurd hl (not_lacks h128 hlt hbs)

/-! ## the result -/

theorem encode_ne_zero {S : Charset} {cs : List Char} (hcs : ∀ c ∈ cs, S.Has c) :
    ∀ b ∈ encode cs, b ≠ 0 := by
  intro b hb hz
  have hzero : b.toNat = 0 := by rw [hz]; rfl
  obtain ⟨c, hc, hb⟩ := List.mem_flatMap.mp hb
  cases (hcs c hc).written with
  | ascii h0 hlt =>
    rw [encode_one hlt] at hb
    rw [List.mem_singleton.mp hb, Charset.toNat_ascii hlt] at hzero
    omega
  | double x y hcode =>
    by_cases h2 : c.utf8Size = 2
    · obtain ⟨l, x, he, e0, e1⟩ := encode_two h2
      rw [he] at hb
      simp only [List.mem_cons, List.not_mem_nil, or_false] at hb
      rcases hb with rfl | rfl <;> omega
    · obtain ⟨l, x, y, he, e0, e1, e2⟩ := encode_three (size_three_of_code hcode h2)
      rw [he] at hb
      simp only [List.mem_cons, List.not_mem_nil, or_false] at hb
      rcases hb with rfl | rfl | rfl <;> omega

/-- **`UTF_8ToGB2312` is right, whatever the code page does outside the character set and whatever stands
behind the text, exactly when no character takes two bytes** (and `pLen + 1` is an `int`). -/
theorem UTF_8ToGB2312_iff (S : Charset) (cs : List Char) (hcs : ∀ c ∈ cs, S.Has c) :
    (∀ (api : WinApi) (beyond : List UInt8), api.Narrows S →
      UTF_8ToGB2312 api (encode cs ++ beyond) (encode cs).length = some (S.encode cs)) ↔
      (encode cs).length < 2147483647 ∧ ∀ c ∈ cs, c.utf8Size ≠ 2 := by
  constructor
  · intro h
    have hs := h (strictApi S) [0, 0] (strictApi_narrows S)
    unfold UTF_8ToGB2312 at hs
    split at hs
    · rename_i hint
      refine ⟨by omega, no_two_of_consumed hcs ?_⟩
      split at hs
      · cases hs
      · rename_i out hloop
        split at hs
        · exact consumed_of_loop _ (encode cs) (0, 0) out cs (encode_ne_zero hcs) hcs hloop
            (Option.some.inj hs)
        · cases hs
    · cases hs
  · rintro ⟨hint, h2⟩ api beyond hapi
    have hlen := length_codes_le cs hcs
    unfold UTF_8ToGB2312
    rw [if_pos (by omega), Int.toNat_natCast,
      utf8Loop_spec hapi cs hcs h2 beyond _ (0, 0) (Nat.lt_succ_self _)]
    dsimp only
    rw [if_pos (by omega), cstr_eq_self (Charset.encode_ne_zero hcs)]

theorem UTF_8ToGB2312_iff_sample :
    (∀ c ∈ ['\u4e00', 'a'], sampleCharset.Has c) ∧
      UTF_8ToGB2312 sampleApi (encode ['\u4e00', 'a'] ++ [0]) (encode ['\u4e00', 'a']).length
        = some (sampleCharset.encode ['\u4e00', 'a']) :=
  have has := sampleCharset_has ['\u4e00', 'a'] (by decide +kernel)
  ⟨has, (UTF_8ToGB2312_iff sampleCharset ['\u4e00', 'a'] has).mpr
    ⟨by decide +kernel, List.forall_mem_cons.mpr ⟨by decide, List.forall_mem_singleton.mpr (by decide)⟩⟩
    sampleApi [0] sampleApi_narrows⟩

/-- a section sign and a letter: the letter goes into the first piece -/
theorem UTF_8ToGB2312_section : ¬ ∀ (S : Charset) (api : WinApi) (cs : List Char) (beyond : List UInt8),
    api.Narrows S → (∀ c ∈ cs, S.Has c) → (encode cs).length < 2147483647 →
    UTF_8ToGB2312 api (encode cs ++ beyond) (encode cs).length = some (S.encode cs) := by
  intro h
  have hs := h sampleCharset sampleApi ['\u00a7', 'a'] [0] sampleApi_narrows
    (sampleCharset_has _ (by decide +kernel)) (by decide +kernel)
  revert hs
  decide +kernel

end JMEngine.Tools
