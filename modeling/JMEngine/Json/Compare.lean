import JMEngine.Json.Reader

/-!
# The order of the names of an object

`strcmp` orders C strings, and the map of an object keeps its members in that order.

* `strcmp_eq_iff`, `strcmp_swap`, `strcmp_trans`   `strcmp` is a linear order;
* `Sorted`                                         the members of a map;
* `setMember_concat`                               a greatest name comes last.
-/

namespace JMEngine.Json

theorem strcmp_self (a : List UInt8) : strcmp a a = .eq := by
  induction a with
  | nil => rfl
  | cons c a ih => rw [strcmp, if_pos rfl, ih]

theorem strcmp_eq_iff (a b : List UInt8) : strcmp a b = .eq ↔ a = b := by
  refine ⟨fun h => ?_, fun h => h ▸ strcmp_self a⟩
  fun_induction strcmp a b with
  | case1 => rfl
  | case2 => cases h
  | case3 => cases h
  | case4 c l m ih => rw [ih h]
  | case5 => cases h
  | case6 => cases h

theorem strcmp_swap (a b : List UInt8) : (strcmp a b).swap = strcmp b a := by
  fun_induction strcmp a b with
  | case1 => rfl
  | case2 => rfl
  | case3 => rfl
  | case4 c l m ih => rw [strcmp, if_pos rfl, ih]
  | case5 c l d m hne hlt =>
    rw [strcmp, if_neg (Ne.symm hne), if_neg (by omega)]
    rfl
  | case6 c l d m hne hlt =>
    have hd : c.toNat ≠ d.toNat := fun h => hne (UInt8.toNat_inj.mp h)
    rw [strcmp, if_neg (Ne.symm hne), if_pos (by omega)]
    rfl

theorem strcmp_trans {a b c : List UInt8} (h1 : strcmp a b = .lt) (h2 : strcmp b c = .lt) :
    strcmp a c = .lt := by
  induction a generalizing b c with
  | nil =>
    cases c with
    | nil =>
      cases b with
      | nil => cases h1
      | cons y b => cases h2
    | cons z c => rfl
  | cons x a ih =>
    cases b with
    | nil => cases h1
    | cons y b =>
      cases c with
      | nil => cases h2
      | cons z c =>
        unfold strcmp at h1 h2 ⊢
        by_cases hxy : x = y
        · rw [if_pos hxy] at h1
          by_cases hyz : y = z
          · rw [if_pos hyz] at h2
            rw [if_pos (hxy.trans hyz)]
            exact ih h1 h2
          · rw [hxy, if_neg hyz] at *
            exact h2
        · rw [if_neg hxy] at h1
          have hxy' : x.toNat < y.toNat := by
            by_contra hn
            rw [if_neg hn] at h1
            cases h1
          have hyz' : y.toNat ≤ z.toNat := by
            by_cases hyz : y = z
            · rw [hyz]
            · rw [if_neg hyz] at h2
              by_contra hn
              rw [if_neg (by omega)] at h2
              cases h2
          have hxz : x ≠ z := by
            rintro rfl
            omega
          rw [if_neg hxz, if_pos (by omega)]

variable {Double : Type}

/-- the members of a map: every name once, in the order of `strcmp` -/
def Sorted (members : List (List UInt8 × Value Double)) : Prop :=
  members.Pairwise fun a b => strcmp a.1 b.1 = .lt

theorem setMember_concat {key : List UInt8} {value : Value Double}
    {members : List (List UInt8 × Value Double)} (h : ∀ m ∈ members, strcmp m.1 key = .lt) :
    setMember key value members = members ++ [(key, value)] := by
  induction members with
  | nil => rfl
  | cons m members ih =>
    have hm : strcmp key m.1 = .gt := by
      rw [← strcmp_swap, h m List.mem_cons_self]
      rfl
    rw [setMember, hm]
    exact congrArg (m :: ·) (ih fun n hn => h n (List.mem_cons_of_mem m hn))

end JMEngine.Json
