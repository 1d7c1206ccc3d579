import JMEngine.Json.Node
import JMEngine.Lib.ThreeWay

/-!
# The order of values

* `order`                            one three-way comparison that says what the operators are for;
* `less_reads`, `equal_iff`          the operators read `order`, away from NaN;
* `order_swap`, `order_composes`     `order` is a linear order of the values up to `==`;
* `compare_values`                   so is `operator <`;
* `lessOrEqual_iff`                  `operator <=` goes the wrong way.

That `<` of two maps reads `order` is proved together with `<` of the same maps the other way round:
at each entry the comparison asks for both.
-/

namespace JMEngine.Json
open ThreeWay

/-! ## what they are for -/

section
variable {Double : Type} (rank : Double → Option Int)

def stringOrder : Option (List UInt8) → Option (List UInt8) → Ordering
  | none, none => .eq
  | none, some _ => .lt
  | some _, none => .gt
  | some a, some b => strcmp a b

mutual

/-- **The order of values.**  By type; numbers, strings and booleans by their value; arrays and objects
by the number of their entries, and then entry by entry. -/
def order (a b : Node Double) : Ordering :=
  (compare a.type b.type).then
    (match a, b with
    | .intValue x, .intValue y => compare x y
    | .uintValue x, .uintValue y => compare x y
    | .realValue x, .realValue y => compare ((rank x).getD 0) ((rank y).getD 0)
    | .booleanValue x, .booleanValue y => compare x y
    | .stringValue x, .stringValue y => stringOrder x y
    | .arrayValue l, .arrayValue m => (compare l.length m.length).then (orderMap l m)
    | .objectValue l, .objectValue m => (compare l.length m.length).then (orderMap l m)
    | _, _ => .eq)

def orderMap : List (CZString × Node Double) → List (CZString × Node Double) → Ordering
  | [], [] => .eq
  | [], _ :: _ => .lt
  | _ :: _, [] => .gt
  | (j, x) :: l, (k, y) :: m => (CZString.cmp j k).then ((order x y).then (orderMap l m))

end

mutual

/-- no NaN anywhere, and no map with `2^31` entries or more -/
def Comparable : Node Double → Prop
  | .realValue x => (rank x).isSome = true
  | .arrayValue l => l.length < 2147483648 ∧ ComparableMap l
  | .objectValue l => l.length < 2147483648 ∧ ComparableMap l
  | _ => True

def ComparableMap : List (CZString × Node Double) → Prop
  | [] => True
  | (_, x) :: l => Comparable x ∧ ComparableMap l

end

end

/-! ## the operators read the order -/

/-- one comparison each way round, and the three-way one they come from -/
structure Reads (lt gt : Bool) (o : Ordering) : Prop where
  lt_iff : lt = true ↔ o = .lt
  gt_iff : gt = true ↔ o = .gt

theorem reads_eq : Reads false false .eq := ⟨by decide, by decide⟩
theorem reads_lt : Reads true false .lt := ⟨by decide, by decide⟩
theorem reads_gt : Reads false true .gt := ⟨by decide, by decide⟩

section
variable {Double : Type} {rank : Double → Option Int}

theorem reads_int (x y : Int) : Reads (x < y) (y < x) (compare x y) :=
  ⟨decide_eq_true_iff.trans Int.compare_eq_lt.symm, decide_eq_true_iff.trans Int.compare_eq_gt.symm⟩

theorem reads_nat (x y : Nat) : Reads (x < y) (y < x) (compare x y) :=
  ⟨decide_eq_true_iff.trans Nat.compare_eq_lt.symm, decide_eq_true_iff.trans Nat.compare_eq_gt.symm⟩

theorem reads_bool (x y : Bool) : Reads (!x && y) (!y && x) (compare x y) := by
  cases x <;> cases y <;> exact ⟨by decide, by decide⟩

theorem reads_real {x y : Double} (hx : (rank x).isSome = true) (hy : (rank y).isSome = true) :
    Reads (realLess rank x y) (realLess rank y x) (compare ((rank x).getD 0) ((rank y).getD 0)) := by
  obtain ⟨i, hi⟩ := Option.isSome_iff_exists.mp hx
  obtain ⟨j, hj⟩ := Option.isSome_iff_exists.mp hy
  rw [realLess, realLess, hi, hj]
  exact reads_int i j

theorem reads_string (x y : Option (List UInt8)) :
    Reads (stringLess x y) (stringLess y x) (stringOrder x y) := by
  cases x with
  | none =>
    cases y with
    | none => exact reads_eq
    | some b => exact reads_lt
  | some a =>
    cases y with
    | none => exact reads_gt
    | some b =>
      refine ⟨decide_eq_true_iff, decide_eq_true_iff.trans ?_⟩
      show strcmp b a = .lt ↔ strcmp a b = .gt
      rw [← strcmp_swap a b]
      exact Ordering.swap_eq_lt

theorem less_of_type_ne {a b : Node Double} (h : a.type ≠ b.type) :
    less rank a b = decide (a.type < b.type) := by
  rw [less.eq_def, if_pos h]

theorem order_of_type_ne {a b : Node Double} (h : a.type ≠ b.type) :
    order rank a b = compare a.type b.type := by
  rw [order.eq_def]
  cases hc : compare a.type b.type with
  | eq => exact absurd (Nat.compare_eq_eq.mp hc) h
  | lt => rfl
  | gt => rfl

theorem reads_sizes {l m : List (CZString × Node Double)} (hl : l.length < 2147483648)
    (hm : m.length < 2147483648) {lt gt : Bool} {o : Ordering} (h : l.length = m.length → Reads lt gt o) :
    Reads (if sizeDelta l m ≠ 0 then sizeDelta l m < 0 else lt)
      (if sizeDelta m l ≠ 0 then sizeDelta m l < 0 else gt) ((compare l.length m.length).then o) := by
  have h1 : sizeDelta l m = (l.length : Int) - m.length := Bytes.int32_of_range _ (by omega) (by omega)
  have h2 : sizeDelta m l = (m.length : Int) - l.length := Bytes.int32_of_range _ (by omega) (by omega)
  rw [h1, h2]
  rcases Nat.lt_trichotomy l.length m.length with hlt | heq | hgt
  · rw [if_pos (by omega), if_pos (by omega), Nat.compare_eq_lt.mpr hlt]
    exact ⟨⟨fun _ => rfl, fun _ => decide_eq_true (by omega)⟩,
      fun hg => absurd (of_decide_eq_true hg) (by omega), nofun⟩
  · rw [if_neg (by omega), if_neg (by omega), Nat.compare_eq_eq.mpr heq]
    exact h heq
  · rw [if_pos (by omega), if_pos (by omega), Nat.compare_eq_gt.mpr hgt]
    exact ⟨⟨fun hg => absurd (of_decide_eq_true hg) (by omega), nofun⟩,
      fun _ => rfl, fun _ => decide_eq_true (by omega)⟩

theorem reads_entry {lx gx ll gl : Bool} {ox ol : Ordering} (j k : CZString) (hx : Reads lx gx ox)
    (hl : Reads ll gl ol) :
    Reads
      (if CZString.cmp j k = .lt ∨ (¬ CZString.cmp k j = .lt ∧ lx = true) then true
        else if CZString.cmp k j = .lt ∨ (¬ CZString.cmp j k = .lt ∧ gx = true) then false else ll)
      (if CZString.cmp k j = .lt ∨ (¬ CZString.cmp j k = .lt ∧ gx = true) then true
        else if CZString.cmp j k = .lt ∨ (¬ CZString.cmp k j = .lt ∧ lx = true) then false else gl)
      ((CZString.cmp j k).then (ox.then ol)) := by
  obtain ⟨hx1, hx2⟩ := hx
  obtain ⟨hl1, hl2⟩ := hl
  simp only [hx1, hx2, CZString.cmp_swap k j]
  cases CZString.cmp j k with
  | lt => exact ⟨by simp, by simp⟩
  | gt => exact ⟨by simp, by simp⟩
  | eq =>
    cases ox with
    | lt => exact ⟨by simp, by simp⟩
    | gt => exact ⟨by simp, by simp⟩
    | eq => exact ⟨by simpa using hl1, by simpa using hl2⟩

theorem reads_map {l m : List (CZString × Node Double)}
    (ih : ∀ p ∈ l, ∀ b, Comparable rank p.2 → Comparable rank b →
      Reads (less rank p.2 b) (less rank b p.2) (order rank p.2 b))
    (hl : ComparableMap rank l) (hm : ComparableMap rank m) :
    Reads (lessMap rank l m) (lessMap rank m l) (orderMap rank l m) := by
  induction l generalizing m with
  | nil =>
    cases m with
    | nil =>
      rw [lessMap]
      exact reads_eq
    | cons q m =>
      rw [lessMap, lessMap]
      exact reads_lt
  | cons p l ihl =>
    cases m with
    | nil =>
      rw [lessMap, lessMap]
      exact reads_gt
    | cons q m =>
      rw [lessMap, lessMap]
      exact reads_entry p.1 q.1 (ih p List.mem_cons_self q.2 hl.1 hm.1)
        (ihl (fun r hr => ih r (List.mem_cons_of_mem p hr)) hl.2 hm.2)

theorem less_reads (a b : Node Double) (ha : Comparable rank a) (hb : Comparable rank b) :
    Reads (less rank a b) (less rank b a) (order rank a b) := by
  induction a using Node.induct generalizing b with
  | step a ih =>
    by_cases ht : a.type = b.type
    · rw [less.eq_def rank a b, less.eq_def rank b a, order.eq_def]
      cases alike_of_type ht with
      | null => exact reads_eq
      | int x y => exact reads_int x y
      | uint x y => exact reads_nat x y
      | real x y => exact reads_real ha hb
      | string x y => exact reads_string x y
      | boolean x y => exact reads_bool x y
      | array l m => exact reads_sizes ha.1 hb.1 fun _ => reads_map ih ha.2 hb.2
      | object l m => exact reads_sizes ha.1 hb.1 fun _ => reads_map ih ha.2 hb.2
    · rw [less_of_type_ne ht, less_of_type_ne (Ne.symm ht), order_of_type_ne ht]
      exact reads_nat _ _

theorem realEqual_iff {x y : Double} (hx : (rank x).isSome = true) (hy : (rank y).isSome = true) :
    realEqual rank x y = true ↔ compare ((rank x).getD 0) ((rank y).getD 0) = .eq := by
  obtain ⟨i, hi⟩ := Option.isSome_iff_exists.mp hx
  obtain ⟨j, hj⟩ := Option.isSome_iff_exists.mp hy
  rw [realEqual, hi, hj]
  exact decide_eq_true_iff.trans Int.compare_eq_eq.symm

theorem bool_eq_iff (x y : Bool) : decide (x = y) = true ↔ compare x y = .eq := by
  cases x <;> cases y <;> decide

theorem stringEqual_iff (x y : Option (List UInt8)) :
    stringEqual x y = true ↔ stringOrder x y = .eq := by
  cases x with
  | none =>
    cases y with
    | none => exact ⟨fun _ => rfl, fun _ => rfl⟩
    | some b => exact ⟨nofun, nofun⟩
  | some a =>
    cases y with
    | none => exact ⟨nofun, nofun⟩
    | some b => exact decide_eq_true_iff

theorem equalMap_iff {l m : List (CZString × Node Double)}
    (ih : ∀ p ∈ l, ∀ b, Comparable rank p.2 → Comparable rank b →
      (equal rank p.2 b = true ↔ order rank p.2 b = .eq))
    (hl : ComparableMap rank l) (hm : ComparableMap rank m) :
    equalMap rank l m = true ↔ orderMap rank l m = .eq := by
  induction l generalizing m with
  | nil =>
    cases m with
    | nil => exact ⟨fun _ => rfl, fun _ => rfl⟩
    | cons q m => exact ⟨nofun, nofun⟩
  | cons p l ihl =>
    cases m with
    | nil => exact ⟨nofun, nofun⟩
    | cons q m =>
      rw [equalMap, orderMap, Ordering.then_eq_eq, Ordering.then_eq_eq, Bool.and_eq_true,
        Bool.and_eq_true, decide_eq_true_iff, ih p List.mem_cons_self q.2 hl.1 hm.1,
        ihl (fun r hr => ih r (List.mem_cons_of_mem p hr)) hl.2 hm.2, and_assoc]

theorem equal_sizes_iff {l m : List (CZString × Node Double)} {e : Bool} {o : Ordering}
    (h : e = true ↔ o = .eq) :
    (decide (l.length = m.length) && e) = true ↔ (compare l.length m.length).then o = .eq := by
  rw [Bool.and_eq_true, decide_eq_true_iff, Ordering.then_eq_eq, Nat.compare_eq_eq, h]

theorem equal_iff (a b : Node Double) (ha : Comparable rank a) (hb : Comparable rank b) :
    equal rank a b = true ↔ order rank a b = .eq := by
  induction a using Node.induct generalizing b with
  | step a ih =>
    by_cases ht : a.type = b.type
    · rw [order.eq_def]
      cases alike_of_type ht with
      | null => exact ⟨fun _ => rfl, fun _ => rfl⟩
      | int x y => exact decide_eq_true_iff.trans Int.compare_eq_eq.symm
      | uint x y => exact decide_eq_true_iff.trans Nat.compare_eq_eq.symm
      | real x y => exact realEqual_iff ha hb
      | string x y => exact stringEqual_iff x y
      | boolean x y => exact bool_eq_iff x y
      | array l m => exact equal_sizes_iff (equalMap_iff ih ha.2 hb.2)
      | object l m => exact equal_sizes_iff (equalMap_iff ih ha.2 hb.2)
    · rw [order_of_type_ne ht, Nat.compare_eq_eq]
      refine ⟨fun h => ?_, fun h => absurd h ht⟩
      cases a <;> cases b <;> first | exact absurd rfl ht | cases h

/-! ## the order is linear -/

theorem stringOrder_swap (x y : Option (List UInt8)) : stringOrder x y = (stringOrder y x).swap := by
  cases x <;> cases y <;> first | rfl | exact (strcmp_swap _ _).symm

theorem orderMap_swap {l m : List (CZString × Node Double)}
    (ih : ∀ p ∈ l, ∀ b, order rank p.2 b = (order rank b p.2).swap) :
    orderMap rank l m = (orderMap rank m l).swap := by
  induction l generalizing m with
  | nil => cases m <;> rfl
  | cons p l ihl =>
    cases m with
    | nil => rfl
    | cons q m =>
      rw [orderMap, orderMap, Ordering.swap_then, Ordering.swap_then, ← CZString.cmp_swap,
        ← ih p List.mem_cons_self, ← ihl fun r hr => ih r (List.mem_cons_of_mem p hr)]

theorem sizes_swap {l m : List (CZString × Node Double)}
    (h : orderMap rank l m = (orderMap rank m l).swap) :
    (compare l.length m.length).then (orderMap rank l m) =
      ((compare m.length l.length).then (orderMap rank m l)).swap := by
  rw [Ordering.swap_then, ← compare_swap, ← h]

theorem order_swap (a b : Node Double) : order rank a b = (order rank b a).swap := by
  induction a using Node.induct generalizing b with
  | step a ih =>
    by_cases ht : a.type = b.type
    · rw [order.eq_def, order.eq_def rank b a]
      cases alike_of_type ht with
      | null => rfl
      | int x y => exact compare_swap x y
      | uint x y => exact compare_swap x y
      | real x y => exact compare_swap _ _
      | string x y => exact stringOrder_swap x y
      | boolean x y => exact compare_swap x y
      | array l m => exact sizes_swap (orderMap_swap ih)
      | object l m => exact sizes_swap (orderMap_swap ih)
    · rw [order_of_type_ne ht, order_of_type_ne (Ne.symm ht)]
      exact compare_swap _ _

theorem stringOrder_composes : ∀ x y z : Option (List UInt8),
    Composes (stringOrder x y) (stringOrder y z) (stringOrder x z)
  | none, none, none => fun _ _ => rfl
  | none, none, some _ => fun _ _ => rfl
  | none, some _, none => fun _ h => absurd rfl h
  | none, some _, some _ => fun _ _ => rfl
  | some _, none, _ => fun h => absurd rfl h
  | some _, some _, none => fun _ h => absurd rfl h
  | some a, some b, some c => composes_cmp CZString.cmp (.name a) (.name b) (.name c)

theorem orderMap_composes {l m n : List (CZString × Node Double)}
    (ih : ∀ p ∈ l, ∀ b c, Composes (order rank p.2 b) (order rank b c) (order rank p.2 c)) :
    Composes (orderMap rank l m) (orderMap rank m n) (orderMap rank l n) := by
  induction l generalizing m n with
  | nil =>
    cases m with
    | nil =>
      intro _ _
      rfl
    | cons q m =>
      cases n with
      | nil => exact fun _ h => absurd rfl h
      | cons r n => exact fun _ _ => rfl
  | cons p l ihl =>
    cases m with
    | nil => exact fun h => absurd rfl h
    | cons q m =>
      cases n with
      | nil => exact fun _ h => absurd rfl h
      | cons r n =>
        rw [orderMap, orderMap, orderMap]
        refine (composes_cmp CZString.cmp p.1 q.1 r.1).then fun _ _ => ?_
        refine (ih p List.mem_cons_self q.2 r.2).then fun _ _ => ?_
        exact ihl fun s hs => ih s (List.mem_cons_of_mem p hs)

theorem order_composes (a b c : Node Double) :
    Composes (order rank a b) (order rank b c) (order rank a c) := by
  induction a using Node.induct generalizing b c with
  | step a ih =>
    rw [order.eq_def rank a b, order.eq_def rank b c, order.eq_def rank a c]
    refine (composes_compare a.type b.type c.type).then fun h1 h2 => ?_
    cases alike_of_type (Nat.compare_eq_eq.mp h1) with
    | null => cases alike_of_type (Nat.compare_eq_eq.mp h2); exact fun _ _ => rfl
    | int x y => cases alike_of_type (Nat.compare_eq_eq.mp h2); exact composes_compare _ _ _
    | uint x y => cases alike_of_type (Nat.compare_eq_eq.mp h2); exact composes_compare _ _ _
    | real x y => cases alike_of_type (Nat.compare_eq_eq.mp h2); exact composes_compare _ _ _
    | string x y => cases alike_of_type (Nat.compare_eq_eq.mp h2); exact stringOrder_composes _ _ _
    | boolean x y => cases alike_of_type (Nat.compare_eq_eq.mp h2); exact composes_compare _ _ _
    | array l m =>
      cases alike_of_type (Nat.compare_eq_eq.mp h2)
      exact (composes_compare _ _ _).then fun _ _ => orderMap_composes ih
    | object l m =>
      cases alike_of_type (Nat.compare_eq_eq.mp h2)
      exact (composes_compare _ _ _).then fun _ _ => orderMap_composes ih

theorem order_lt_trans {a b c : Node Double} (h1 : order rank a b = .lt) (h2 : order rank b c = .lt) :
    order rank a c = .lt := by
  rw [order_composes a b c (by rw [h1]; nofun) (by rw [h2]; nofun), h1]
  rfl

theorem order_congr {a b : Node Double} (h : order rank a b = .eq) (c : Node Double) :
    order rank a c = order rank b c := by
  by_cases hg : order rank b c = .gt
  · have hc : order rank c b = .lt := by
      rw [order_swap, hg]
      rfl
    have hb : order rank b a = .eq := by
      rw [order_swap, h]
      rfl
    have hca : order rank c a = .lt := by
      rw [order_composes c b a (by rw [hc]; nofun) (by rw [hb]; nofun), hc]
      rfl
    rw [hg, order_swap, hca]
    rfl
  · rw [order_composes a b c (by rw [h]; nofun) hg, h]
    rfl

/-! ## what the operators promise -/

/-- **`<` and `==` are a linear order.**  Away from NaN exactly one of `a < b`, `a == b`, `b < a` holds,
`<` is transitive, and values that are `==` compare alike with every value. -/
theorem compare_values (a b c : Node Double) (ha : Comparable rank a) (hb : Comparable rank b)
    (hc : Comparable rank c) :
    ((less rank a b = true ∧ equal rank a b = false ∧ less rank b a = false) ∨
      (less rank a b = false ∧ equal rank a b = true ∧ less rank b a = false) ∨
      (less rank a b = false ∧ equal rank a b = false ∧ less rank b a = true)) ∧
    (less rank a b = true → less rank b c = true → less rank a c = true) ∧
    (equal rank a b = true →
      less rank a c = less rank b c ∧ less rank c a = less rank c b ∧
        equal rank a c = equal rank b c) := by
  have hab := less_reads a b ha hb
  have hac := less_reads a c ha hc
  have hbc := less_reads b c hb hc
  refine ⟨?_, fun h1 h2 => ?_, fun h => ?_⟩
  · rw [← Bool.not_eq_true, ← Bool.not_eq_true, ← Bool.not_eq_true, hab.lt_iff, hab.gt_iff,
      equal_iff a b ha hb]
    cases order rank a b <;> simp
  · exact hac.lt_iff.mpr (order_lt_trans (hab.lt_iff.mp h1) (hbc.lt_iff.mp h2))
  · have hcongr := order_congr ((equal_iff a b ha hb).mp h) c
    refine ⟨Bool.eq_iff_iff.mpr ?_, Bool.eq_iff_iff.mpr ?_, Bool.eq_iff_iff.mpr ?_⟩
    · rw [hac.lt_iff, hbc.lt_iff, hcongr]
    · rw [hac.gt_iff, hbc.gt_iff, hcongr]
    · rw [equal_iff a c ha hc, equal_iff b c hb hc, hcongr]

/-- `[1, 2.5]`, `{"a": null}` and `{"b": null}` -/
theorem compare_values_nested :
    less ieeeRank
      (.arrayValue [(.index 0, .intValue 1), (.index 1, .realValue 0x4004000000000000)])
      (.objectValue [(.name [0x62], .nullValue)]) = true :=
  have harray : Comparable ieeeRank
      (.arrayValue [(.index 0, .intValue 1), (.index 1, .realValue 0x4004000000000000)]) :=
    ⟨(by decide : 2 < 2147483648), trivial, rfl, trivial⟩
  have hobject : ∀ c, Comparable ieeeRank (.objectValue [(.name [c], .nullValue)]) := fun _ =>
    ⟨(by decide : 1 < 2147483648), trivial, trivial⟩
  (compare_values _ (.objectValue [(.name [0x61], .nullValue)]) _ harray (hobject 0x61)
    (hobject 0x62)).2.1
    ((less_reads _ _ harray (hobject 0x61)).lt_iff.mpr rfl)
    ((less_reads _ _ (hobject 0x61) (hobject 0x62)).lt_iff.mpr rfl)

/-- **`<=` goes the wrong way.**  `a <= b` holds when `a == b` or `b < a`, and never when `a < b`. -/
theorem lessOrEqual_iff (a b : Node Double) (ha : Comparable rank a) (hb : Comparable rank b) :
    (lessOrEqual rank a b = true ↔ equal rank a b = true ∨ less rank b a = true) ∧
      (less rank a b = true → lessOrEqual rank a b = false) := by
  have hab := less_reads a b ha hb
  have hle : lessOrEqual rank a b = !less rank a b := rfl
  refine ⟨?_, fun h => by rw [hle, h]; rfl⟩
  rw [hle, Bool.not_eq_true', ← Bool.not_eq_true, hab.lt_iff, hab.gt_iff, equal_iff a b ha hb]
  cases order rank a b <;> simp

/-- `1 <= 2` -/
theorem lessOrEqual_iff_ints :
    lessOrEqual ieeeRank (.intValue 1) (.intValue 2) = false :=
  (lessOrEqual_iff (.intValue 1) (.intValue 2) trivial trivial).2
    ((less_reads (.intValue 1) (.intValue 2) trivial trivial).lt_iff.mpr rfl)

end

end JMEngine.Json
