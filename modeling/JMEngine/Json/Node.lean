import JMEngine.Json.Compare
import JMEngine.Lib.Bytes
import JMEngine.Lib.SortedMap

/-!
# Values as they are kept, and their order

`Value` is what a document says.  A `Json::Value` keeps an array and an object in the same way: as a
`std::map` from `CZString`s, which are indices in the one case and names in the other.

* `CZString.cmp`                   the order of the keys;
* `Node`                           `Json::Value` with its map, the comments left out;
* `less`, `equal`, `lessOrEqual`   `operator <`, `operator ==` and `operator <=`.
-/

namespace JMEngine.Json

/-! ## keys -/

inductive CZString where
  | index (i : Int)
  | name (cstr : List UInt8)
  deriving DecidableEq

/-- The order of `CZString::operator <`.  The keys of one map are of one kind, so the last two cases
do not arise there. -/
def CZString.cmp : CZString → CZString → Ordering
  | .index i, .index j => compare i j
  | .name a, .name b => strcmp a b
  | .index _, .name _ => .lt
  | .name _, .index _ => .gt

theorem CZString.cmp_swap : ∀ j k : CZString, cmp j k = (cmp k j).swap
  | .index i, .index j => (Std.OrientedCmp.eq_swap : compare i j = (compare j i).swap)
  | .name a, .name b => (strcmp_swap b a).symm
  | .index _, .name _ => rfl
  | .name _, .index _ => rfl

theorem CZString.cmp_trans : ∀ {j k l : CZString}, cmp j k = .lt → cmp k l = .lt → cmp j l = .lt
  | .index i, .index j, .index k => fun h1 h2 =>
    (Std.TransCmp.lt_trans (show compare i j = .lt from h1) h2 : compare i k = .lt)
  | .name _, .name _, .name _ => fun h1 h2 => strcmp_trans h1 h2
  | .index _, _, .name _ => fun _ _ => rfl
  | .index _, .name _, .index _ => nofun
  | .name _, .index _, _ => nofun
  | .name _, .name _, .index _ => nofun

theorem CZString.eq_of_cmp : ∀ {j k : CZString}, cmp j k = .eq → j = k
  | .index i, .index j => fun h =>
    congrArg index (Std.LawfulEqCmp.eq_of_compare (show compare i j = .eq from h))
  | .name a, .name b => fun h => congrArg name ((strcmp_eq_iff a b).mp h)
  | .index _, .name _ => nofun
  | .name _, .index _ => nofun

instance : Std.OrientedCmp CZString.cmp := ⟨CZString.cmp_swap _ _⟩

instance : Std.LawfulEqCmp CZString.cmp where
  compare_self {k} :=
    match k with
    | .index i => (Std.ReflCmp.compare_self : compare i i = .eq)
    | .name a => strcmp_self a
  eq_of_compare := CZString.eq_of_cmp

instance : Std.TransCmp CZString.cmp where
  isLE_trans {j k l} h1 h2 := by
    cases e1 : CZString.cmp j k with
    | gt =>
      rw [e1] at h1
      cases h1
    | eq => rwa [CZString.eq_of_cmp e1]
    | lt =>
      cases e2 : CZString.cmp k l with
      | gt =>
        rw [e2] at h2
        cases h2
      | eq =>
        rw [← CZString.eq_of_cmp e2, e1]
        rfl
      | lt =>
        rw [CZString.cmp_trans e1 e2]
        rfl

/-! ## values -/

/-- `Json::Value`; a string may be a null pointer, as after `Value( stringValue )` -/
inductive Node (Double : Type) where
  | nullValue
  | intValue (value : Int)
  | uintValue (value : Nat)
  | realValue (value : Double)
  | stringValue (value : Option (List UInt8))
  | booleanValue (value : Bool)
  | arrayValue (map : List (CZString × Node Double))
  | objectValue (map : List (CZString × Node Double))

section
variable {Double : Type}

/-- `type_`, in the order of `ValueType` -/
def Node.type : Node Double → Nat
  | .nullValue => 0
  | .intValue _ => 1
  | .uintValue _ => 2
  | .realValue _ => 3
  | .stringValue _ => 4
  | .booleanValue _ => 5
  | .arrayValue _ => 6
  | .objectValue _ => 7

end

def Node.entries {Double : Type} : Node Double → List (CZString × Node Double)
  | .arrayValue map => map
  | .objectValue map => map
  | _ => []

theorem Node.induct {Double : Type} {P : Node Double → Prop}
    (step : ∀ a, (∀ p ∈ a.entries, P p.2) → P a) (a : Node Double) : P a :=
  @Node.rec Double P (fun l => ∀ p ∈ l, P p.2) (fun p => P p.2) (step _ nofun)
    (fun _ => step _ nofun) (fun _ => step _ nofun) (fun _ => step _ nofun) (fun _ => step _ nofun)
    (fun _ => step _ nofun) (fun l => step (.arrayValue l)) (fun l => step (.objectValue l)) nofun
    (fun _ _ hp hl => List.forall_mem_cons.mpr ⟨hp, hl⟩) (fun _ _ hx => hx) a

inductive Alike {Double : Type} : Node Double → Node Double → Prop
  | null : Alike .nullValue .nullValue
  | int (x y : Int) : Alike (.intValue x) (.intValue y)
  | uint (x y : Nat) : Alike (.uintValue x) (.uintValue y)
  | real (x y : Double) : Alike (.realValue x) (.realValue y)
  | string (x y : Option (List UInt8)) : Alike (.stringValue x) (.stringValue y)
  | boolean (x y : Bool) : Alike (.booleanValue x) (.booleanValue y)
  | array (l m : List (CZString × Node Double)) : Alike (.arrayValue l) (.arrayValue m)
  | object (l m : List (CZString × Node Double)) : Alike (.objectValue l) (.objectValue m)

theorem alike_of_type {Double : Type} {a b : Node Double} (h : a.type = b.type) : Alike a b := by
  cases a <;> cases b <;> first | constructor | cases h

/-! ## the operators -/

section
variable {Double : Type} (rank : Double → Option Int)

/-- the place on the line of a double with these bits; the two zeros share one -/
def ieeeRank (bits : UInt64) : Option Int :=
  if bits.toNat % 9223372036854775808 > 9218868437227405312 then none
  else if bits.toNat < 9223372036854775808 then some bits.toNat
  else some (9223372036854775808 - bits.toNat)

/-- doubles are compared by their place on the line, which NaN does not have -/
def realLess (x y : Double) : Bool :=
  match rank x, rank y with
  | some i, some j => i < j
  | _, _ => false

def realEqual (x y : Double) : Bool :=
  match rank x, rank y with
  | some i, some j => i = j
  | _, _ => false

def stringLess : Option (List UInt8) → Option (List UInt8) → Bool
  | none, some _ => true
  | some a, some b => strcmp a b = .lt
  | _, none => false

def stringEqual : Option (List UInt8) → Option (List UInt8) → Bool
  | none, none => true
  | some a, some b => strcmp a b = .eq
  | _, _ => false

/-- `int( value_.map_->size() - other.value_.map_->size() )` -/
def sizeDelta (l m : List (CZString × Node Double)) : Int :=
  Bytes.int32 ((l.length : Int) - m.length)

mutual

/-- `operator <` -/
def less (a b : Node Double) : Bool :=
  if a.type ≠ b.type then a.type < b.type
  else
    match a, b with
    | .intValue x, .intValue y => x < y
    | .uintValue x, .uintValue y => x < y
    | .realValue x, .realValue y => realLess rank x y
    | .booleanValue x, .booleanValue y => !x && y
    | .stringValue x, .stringValue y => stringLess x y
    | .arrayValue l, .arrayValue m => if sizeDelta l m ≠ 0 then sizeDelta l m < 0 else lessMap l m
    | .objectValue l, .objectValue m => if sizeDelta l m ≠ 0 then sizeDelta l m < 0 else lessMap l m
    | _, _ => false
termination_by sizeOf a + sizeOf b

/-- `std::map`'s `<` goes through the entries of both and asks for `<` of the pairs both ways round:
the keys first, the values when neither key is less -/
def lessMap (l m : List (CZString × Node Double)) : Bool :=
  match l, m with
  | _, [] => false
  | [], _ :: _ => true
  | (j, x) :: l, (k, y) :: m =>
    if CZString.cmp j k = .lt ∨ (¬ CZString.cmp k j = .lt ∧ less x y = true) then true
    else if CZString.cmp k j = .lt ∨ (¬ CZString.cmp j k = .lt ∧ less y x = true) then false
    else lessMap l m
termination_by sizeOf l + sizeOf m

end

mutual

/-- `operator ==` -/
def equal : Node Double → Node Double → Bool
  | .nullValue, .nullValue => true
  | .intValue x, .intValue y => x = y
  | .uintValue x, .uintValue y => x = y
  | .realValue x, .realValue y => realEqual rank x y
  | .booleanValue x, .booleanValue y => x = y
  | .stringValue x, .stringValue y => stringEqual x y
  | .arrayValue l, .arrayValue m => l.length = m.length && equalMap l m
  | .objectValue l, .objectValue m => l.length = m.length && equalMap l m
  | _, _ => false

def equalMap : List (CZString × Node Double) → List (CZString × Node Double) → Bool
  | [], [] => true
  | (j, x) :: l, (k, y) :: m => CZString.cmp j k = .eq && equal x y && equalMap l m
  | _, _ => false

end

/-- `operator >` -/
def greater (a b : Node Double) : Bool := less rank b a

/-- `operator >=` -/
def greaterOrEqual (a b : Node Double) : Bool := !less rank a b

/-- `operator <=` -/
def lessOrEqual (a b : Node Double) : Bool := !greater rank b a

end

end JMEngine.Json
