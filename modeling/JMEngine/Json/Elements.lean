import JMEngine.Json.Node
import JMEngine.Lib.Simulation
import JMEngine.Lib.Slots

/-!
# Arrays

An array is a map from the indices that were asked for, so it may have gaps: `size()` is the last index
plus one, and an element that is not in the map reads as null.

* `Node.size`, `Node.atIndex`, `Node.constIndex`, `Node.append`, `Node.resize`, `Node.clear`
* `slots`             an array as the row of its elements, with the gaps;
* `array_runs`        every run of the operations is the run of their row versions;
* `resize_size_iff`   when an array can have the size it is given.

A row `Ends` in an element, and that is why `resize` can miss its size and fail its assertion: what is left
of an array that is cut at a gap ends before the gap.
-/

namespace JMEngine.Json
open SortedMap Slots

/-! ## the operations -/

/-- `index()`; a name has its `DuplicationPolicy` there -/
def CZString.index_ : CZString → Int
  | .index i => i
  | .name _ => 1

section
variable {Double : Type}

/-- `size()` -/
def Node.size : Node Double → Nat
  | .arrayValue map =>
    match map.getLast? with
    | some entry => ((entry.1.index_ + 1) % 4294967296).toNat
    | none => 0
  | .objectValue map => map.length % 4294967296
  | _ => 0

/-- `CZString key( index )`, where `index` is unsigned -/
def elementKey (index : Nat) : CZString := .index (Bytes.int32 index)

/-- `(*this)[index]`: what the reference stands for changes by `f`.  An element that is not there is
put in as null first; no reference comes from a value of another type. -/
def Node.atIndex (index : Nat) (f : Node Double → Node Double) : Node Double → Option (Node Double)
  | .nullValue =>
    some (.arrayValue (alter CZString.cmp (elementKey index) (fun e => f (e.getD .nullValue)) []))
  | .arrayValue map =>
    some (.arrayValue (alter CZString.cmp (elementKey index) (fun e => f (e.getD .nullValue)) map))
  | _ => none

/-- `(*this)[index]` of a constant value; the inner `none` is the static `null` -/
def Node.constIndex (index : Nat) : Node Double → Option (Option (Node Double))
  | .nullValue => some none
  | .arrayValue map => some (find CZString.cmp (elementKey index) map)
  | _ => none

def Node.isValidIndex (index : Nat) (a : Node Double) : Bool := index < a.size

def Node.append (a value : Node Double) : Option (Node Double) :=
  a.atIndex a.size fun _ => value

def Node.clear : Node Double → Option (Node Double)
  | .nullValue => some .nullValue
  | .arrayValue _ => some (.arrayValue [])
  | .objectValue _ => some (.objectValue [])
  | _ => none

/-- `for ( UInt index = newSize; index < oldSize; ++index ) value_.map_->erase( index )` -/
def eraseFrom (newSize oldSize : Nat) (map : List (CZString × Node Double)) :
    List (CZString × Node Double) :=
  (List.range' newSize (oldSize - newSize)).foldl
    (fun map index => erase CZString.cmp (elementKey index) map) map

/-- `resize( newSize )` of an array with this map -/
def resizeMap (newSize : Nat) (map : List (CZString × Node Double)) : Option (Node Double) :=
  let oldSize := Node.size (.arrayValue map)
  if newSize = 0 then Node.clear (.arrayValue map)
  else if newSize > oldSize then Node.atIndex (newSize - 1) (fun e => e) (.arrayValue map)
  else
    let a := .arrayValue (eraseFrom newSize oldSize map)
    -- `assert( size() == newSize )`
    if Node.size a = newSize then some a else none

def Node.resize (newSize : Nat) : Node Double → Option (Node Double)
  | .nullValue => resizeMap newSize []
  | .arrayValue map => resizeMap newSize map
  | _ => none

end

/-! ## runs -/

inductive ArrayOp (Double : Type) where
  | atIndex (index : Nat) (f : Node Double → Node Double)
  | append (value : Node Double)
  | resize (newSize : Nat)
  | clear

section
variable {Double : Type}

def arrayStep (a : Node Double) : ArrayOp Double → Option (Node Double)
  | .atIndex index f => a.atIndex index f
  | .append value => a.append value
  | .resize newSize => a.resize newSize
  | .clear => a.clear

def slots (a : Node Double) : List (Option (Node Double)) :=
  (List.range a.size).map fun index => (a.constIndex index).join

/-- the operations on rows; a row is not cut behind an empty place -/
def slotStep (l : List (Option (Node Double))) : ArrayOp Double → Option (List (Option (Node Double)))
  | .atIndex index f => some (put index (f ((slot l index).getD .nullValue)) l)
  | .append value => some (put l.length value l)
  | .resize newSize =>
    if newSize = 0 then some []
    else if newSize > l.length then some (put (newSize - 1) .nullValue l)
    else if (slot l (newSize - 1)).isSome then some (l.take newSize)
    else none
  | .clear => some []

/-- the last index plus one is an `int` -/
def Fits (l : List (Option (Node Double))) : ArrayOp Double → Prop
  | .atIndex index _ => index < 2147483647
  | .append _ => l.length < 2147483647
  | .resize newSize => newSize ≤ 2147483647
  | .clear => True

/-- the map of an array whose indices are all below `INT_MAX` -/
structure Indexed (map : List (CZString × Node Double)) : Prop where
  sorted : SortedMap.Sorted CZString.cmp map
  keys : ∀ p ∈ map, ∃ i : Nat, i < 2147483647 ∧ p.1 = .index i

/-- an array, or null, which becomes one when it is used as one -/
inductive IsArray : Node Double → Prop
  | null : IsArray .nullValue
  | array {map : List (CZString × Node Double)} (h : Indexed map) : IsArray (.arrayValue map)

end

/-! ## the map and the row -/

section
variable {Double : Type} {map : List (CZString × Node Double)} {l : List (Option (Node Double))} {n : Nat}

theorem elementKey_of_lt {i : Nat} (h : i < 2147483648) : elementKey i = .index i := by
  rw [elementKey, Bytes.int32_of_range _ (by omega) (by omega)]

theorem index_ne {i j : Nat} (h : i ≠ j) : (CZString.index i) ≠ .index j := by
  intro e
  injection e with e
  exact h (Int.ofNat_inj.mp e)

structure Shows (map : List (CZString × Node Double)) (l : List (Option (Node Double))) : Prop where
  ends : Ends l
  length_le : l.length ≤ 2147483647
  find : ∀ i : Nat, i < 2147483647 → find CZString.cmp (.index i) map = slot l i

theorem indexed_nil : Indexed ([] : List (CZString × Node Double)) := ⟨List.Pairwise.nil, nofun⟩

theorem shows_nil : Shows ([] : List (CZString × Node Double)) [] :=
  ⟨.inl rfl, Nat.zero_le _, fun _ _ => rfl⟩

theorem Indexed.cases (hm : Indexed map) : map = [] ∨ ∃ k : Nat, k < 2147483647 ∧
    Node.size (.arrayValue map) = k + 1 ∧ (find CZString.cmp (.index k) map).isSome = true ∧
    ∀ p ∈ map, ∃ i : Nat, i ≤ k ∧ p.1 = .index i := by
  cases hlast : map.getLast? with
  | none => exact .inl (List.getLast?_eq_none_iff.mp hlast)
  | some q =>
    have hq : q ∈ map := List.mem_of_getLast? hlast
    obtain ⟨k, hk, hkey⟩ := hm.keys q hq
    refine .inr ⟨k, hk, ?_, find_isSome_iff.mpr ⟨q, hq, hkey⟩, fun p hp => ?_⟩
    · have hsize : Node.size (.arrayValue map) = ((q.1.index_ + 1) % 4294967296).toNat := by
        rw [Node.size, hlast]
      rw [hsize, hkey]
      show (((k : Int) + 1) % 4294967296).toNat = k + 1
      omega
    · obtain ⟨i, -, hi⟩ := hm.keys p hp
      rcases le_last hm.sorted hlast hp with rfl | hlt
      · exact ⟨k, Nat.le_refl k, hkey⟩
      · rw [hi, hkey] at hlt
        have := Int.compare_eq_lt.mp (show compare (i : Int) k = .lt from hlt)
        exact ⟨i, by omega, hi⟩

theorem shows_slots (hm : Indexed map) : Shows map (slots (.arrayValue map)) := by
  have hlen : (slots (.arrayValue map)).length = Node.size (.arrayValue map) := by
    rw [slots, List.length_map, List.length_range]
  have hslot : ∀ i : Nat, i < Node.size (.arrayValue map) → i < 2147483647 →
      slot (slots (.arrayValue map)) i = find CZString.cmp (.index i) map := by
    intro i hi hb
    rw [slot, slots, List.getElem?_map, List.getElem?_range hi]
    show find CZString.cmp (elementKey i) map = find CZString.cmp (.index i) map
    rw [elementKey_of_lt (by omega)]
  rcases hm.cases with rfl | ⟨k, hk, hsize, hsome, hle⟩
  · exact shows_nil
  · refine ⟨.inr ?_, by omega, fun i hi => ?_⟩
    · rw [hlen, hsize, Nat.add_sub_cancel, hslot k (by omega) hk]
      exact hsome
    · by_cases hik : i < k + 1
      · exact (hslot i (by omega) hi).symm
      · rw [slot_of_le (by omega)]
        refine find_eq_none fun p hp e => ?_
        obtain ⟨j, hj, hkey⟩ := hle p hp
        exact index_ne (by omega) (hkey.symm.trans e)

theorem Shows.slots (h : Shows map l) (hm : Indexed map) : slots (.arrayValue map) = l := by
  have hs := shows_slots hm
  refine ext hs.ends h.ends fun i => ?_
  by_cases hi : i < 2147483647
  · rw [← hs.find i hi, h.find i hi]
  · rw [slot_of_le (Nat.le_trans hs.length_le (by omega)),
      slot_of_le (Nat.le_trans h.length_le (by omega))]

theorem Shows.size (h : Shows map l) (hm : Indexed map) : Node.size (.arrayValue map) = l.length := by
  rw [← h.slots hm, Json.slots, List.length_map, List.length_range]

/-! ## one operation -/

theorem Indexed.alter (hm : Indexed map) (hn : n < 2147483647)
    (f : Option (Node Double) → Node Double) : Indexed (alter CZString.cmp (.index n) f map) := by
  refine ⟨sorted_alter hm.sorted, fun p hp => ?_⟩
  rcases mem_alter hp with e | ⟨q, hq, e⟩
  · exact ⟨n, hn, e⟩
  · obtain ⟨i, hi, hkey⟩ := hm.keys q hq
    exact ⟨i, hi, e ▸ hkey⟩

theorem Shows.alter (h : Shows map l) (hm : Indexed map) (hn : n < 2147483647)
    (f : Option (Node Double) → Node Double) :
    Shows (alter CZString.cmp (.index n) f map) (put n (f (slot l n)) l) := by
  have hlen := h.length_le
  refine ⟨ends_put h.ends, by rw [length_put]; omega, fun i hi => ?_⟩
  rw [slot_put]
  by_cases he : i = n
  · rw [if_pos he, he, find_alter_self hm.sorted, h.find n hn]
  · rw [if_neg he, find_alter_of_ne (index_ne he), h.find i hi]

theorem eraseFrom_succ (newSize count : Nat) (map : List (CZString × Node Double)) :
    eraseFrom newSize (newSize + (count + 1)) map =
      eraseFrom (newSize + 1) (newSize + 1 + count) (erase CZString.cmp (elementKey newSize) map) := by
  rw [eraseFrom, eraseFrom, Nat.add_sub_cancel_left, Nat.add_sub_cancel_left, List.range'_succ]
  rfl

theorem Indexed.eraseFrom (hm : Indexed map) (newSize count : Nat) :
    Indexed (eraseFrom newSize (newSize + count) map) := by
  induction count generalizing newSize map with
  | zero =>
    rw [Json.eraseFrom, Nat.add_sub_cancel_left]
    exact hm
  | succ count ih =>
    rw [eraseFrom_succ]
    exact ih ⟨sorted_erase hm.sorted, fun p hp => hm.keys p ((erase_sublist _ map).subset hp)⟩ _

theorem find_eraseFrom (hm : Indexed map) (newSize count i : Nat) (hn : newSize + count ≤ 2147483647) :
    find CZString.cmp (.index i) (eraseFrom newSize (newSize + count) map) =
      if newSize ≤ i ∧ i < newSize + count then none else find CZString.cmp (.index i) map := by
  induction count generalizing newSize map with
  | zero =>
    rw [Json.eraseFrom, Nat.add_sub_cancel_left, if_neg (by omega)]
    rfl
  | succ count ih =>
    have hm' : Indexed (erase CZString.cmp (elementKey newSize) map) :=
      ⟨sorted_erase hm.sorted, fun p hp => hm.keys p ((erase_sublist _ map).subset hp)⟩
    rw [eraseFrom_succ, ih hm' _ (by omega), elementKey_of_lt (by omega)]
    by_cases he : i = newSize
    · rw [he, find_erase_self hm.sorted, ite_self, if_pos (by omega)]
    · rw [find_erase_of_ne (index_ne he)]
      by_cases hi : newSize + 1 ≤ i ∧ i < newSize + 1 + count
      · rw [if_pos hi, if_pos (by omega)]
      · rw [if_neg hi, if_neg (by omega)]

theorem Shows.eraseFrom (h : Shows map l) (hm : Indexed map) (hn : n ≤ l.length) :
    Shows (eraseFrom n l.length map) (trim (l.take n)) := by
  have hlen := h.length_le
  refine ⟨ends_trim, ?_, fun i hi => ?_⟩
  · refine Nat.le_trans length_trim_le ?_
    rw [List.length_take]
    omega
  · have hfind := find_eraseFrom hm n (l.length - n) i (by omega)
    rw [Nat.add_sub_cancel' hn] at hfind
    rw [hfind, slot_trim, slot_take, h.find i hi]
    by_cases hin : i < n
    · rw [if_pos hin, if_neg (by omega)]
    · rw [if_neg hin]
      by_cases hil : i < l.length
      · rw [if_pos (by omega)]
      · rw [if_neg (by omega), slot_of_le (by omega)]

def arrayMap : Node Double → List (CZString × Node Double)
  | .arrayValue map => map
  | _ => []

theorem IsArray.shows {a : Node Double} (h : IsArray a) :
    Indexed (arrayMap a) ∧ Shows (arrayMap a) (slots a) ∧ a.size = (slots a).length := by
  cases h with
  | null => exact ⟨indexed_nil, shows_nil, rfl⟩
  | array h => exact ⟨h, shows_slots h, (shows_slots h).size h⟩

theorem IsArray.atIndex_eq {a : Node Double} (h : IsArray a) (f : Node Double → Node Double)
    (hn : n < 2147483647) : a.atIndex n f =
      some (.arrayValue (alter CZString.cmp (.index n) (fun e => f (e.getD .nullValue)) (arrayMap a))) := by
  rw [← elementKey_of_lt (by omega)]
  cases h with
  | null => rfl
  | array h => rfl

def Rows (a : Node Double) (l : List (Option (Node Double))) : Prop := IsArray a ∧ slots a = l

theorem rows_of_shows (hm : Indexed map) (h : Shows map l) : Rows (.arrayValue map) l :=
  ⟨.array hm, h.slots hm⟩

theorem rows_nil : Rows (.arrayValue ([] : List (CZString × Node Double))) [] :=
  rows_of_shows indexed_nil shows_nil

theorem atIndex_rows {a : Node Double} (h : IsArray a) (f : Node Double → Node Double)
    (hn : n < 2147483647) : ∃ b, a.atIndex n f = some b ∧
      Rows b (put n (f ((slot (slots a) n).getD .nullValue)) (slots a)) := by
  obtain ⟨hm, hs, -⟩ := h.shows
  exact ⟨_, h.atIndex_eq f hn, rows_of_shows (hm.alter hn _) (hs.alter hm hn _)⟩

theorem length_trim_take (hn : n ≤ l.length) (h0 : n ≠ 0) :
    (trim (l.take n)).length = n ↔ (slot l (n - 1)).isSome = true := by
  have hslot : slot (trim (l.take n)) (n - 1) = slot l (n - 1) := by
    rw [slot_trim, slot_take, if_pos (by omega)]
  constructor
  · intro hlen
    rcases ends_trim (l := l.take n) with he | he
    · rw [he] at hlen
      exact absurd hlen.symm h0
    · rwa [hlen, hslot] at he
  · intro hs
    rw [← hslot] at hs
    have hlt := lt_of_slot hs
    have hle : (trim (l.take n)).length ≤ (l.take n).length := length_trim_le
    rw [List.length_take] at hle
    omega

theorem trim_take (hn : n ≤ l.length) (h0 : n ≠ 0) (hs : (slot l (n - 1)).isSome = true) :
    trim (l.take n) = l.take n := by
  refine ext ends_trim (.inr ?_) fun i => slot_trim
  rw [List.length_take_of_le hn, slot_take, if_pos (by omega)]
  exact hs

theorem resizeMap_rows (hm : Indexed map) (hs : Shows map l) (hn : n ≤ 2147483647) :
    Option.Rel Rows (resizeMap n map) (slotStep l (.resize n)) := by
  rw [resizeMap, slotStep, hs.size hm]
  by_cases h0 : n = 0
  · rw [if_pos h0, if_pos h0]
    exact .some rows_nil
  rw [if_neg h0, if_neg h0]
  by_cases hgt : n > l.length
  · rw [if_pos hgt, if_pos hgt]
    obtain ⟨b, hb, hr⟩ := atIndex_rows (.array hm) (fun e => e) (show n - 1 < 2147483647 by omega)
    rw [hs.slots hm, slot_of_le (by omega)] at hr
    rw [hb]
    exact .some hr
  rw [if_neg hgt, if_neg hgt]
  have hle : n ≤ l.length := Nat.le_of_not_lt hgt
  have hsome := hs.eraseFrom hm hle
  have hix := hm.eraseFrom n (l.length - n)
  rw [Nat.add_sub_cancel' hle] at hix
  dsimp only
  rw [hsome.size hix]
  by_cases hlast : (slot l (n - 1)).isSome = true
  · rw [if_pos hlast, if_pos ((length_trim_take hle h0).mpr hlast)]
    rw [trim_take hle h0 hlast] at hsome
    exact .some (rows_of_shows hix hsome)
  · rw [if_neg hlast, if_neg (fun h => hlast ((length_trim_take hle h0).mp h))]
    exact .none

theorem resize_rows {a : Node Double} (h : IsArray a) (hn : n ≤ 2147483647) :
    Option.Rel Rows (a.resize n) (slotStep (slots a) (.resize n)) := by
  obtain ⟨hm, hs, -⟩ := h.shows
  cases h with
  | null => exact resizeMap_rows hm hs hn
  | array h => exact resizeMap_rows hm hs hn

theorem arrayStep_rows (a : Node Double) (op : ArrayOp Double) (l : List (Option (Node Double)))
    (h : Rows a l) (hop : Fits l op) : Option.Rel Rows (arrayStep a op) (slotStep l op) := by
  obtain ⟨ha, rfl⟩ := h
  cases op with
  | atIndex index f =>
    obtain ⟨b, hb, hr⟩ := atIndex_rows ha f hop
    rw [arrayStep, hb]
    exact .some hr
  | append value =>
    obtain ⟨-, -, hsize⟩ := ha.shows
    obtain ⟨b, hb, hr⟩ := atIndex_rows ha (fun _ => value) hop
    rw [arrayStep, Node.append, hsize, hb]
    exact .some hr
  | resize newSize => exact resize_rows ha hop
  | clear =>
    cases ha with
    | null => exact .some ⟨.null, rfl⟩
    | array h => exact .some rows_nil

/-! ## every run -/

/-- **Arrays.**  A run of `operator[]`, `append`, `resize` and `clear` goes on as long as the same run on
rows does, which stops only where a row is cut behind an empty place, and the row is what the array then
holds: an element is what was last put at its index, and `size()` is the length of a row that ends in its
last element. -/
theorem array_runs (ops : List (ArrayOp Double)) (a : Node Double) (ha : IsArray a)
    (hops : Runs.Guarded slotStep Fits (slots a) ops) :
    (Runs.exec arrayStep a ops).map slots = Runs.exec slotStep (slots a) ops ∧
    ∀ b, Runs.exec arrayStep a ops = some b → IsArray b ∧ b.size = (slots b).length := by
  have h := Runs.exec_agrees arrayStep arrayStep_rows ops a (slots a) ⟨ha, rfl⟩ hops
  refine ⟨Runs.rel_map h fun _ _ hr => hr.2, fun b hb => ?_⟩
  obtain ⟨l, -, hr⟩ := Runs.rel_left h hb
  exact ⟨hr.1, hr.1.shows.2.2⟩

/-- an array with a gap, cut behind its element, and then in the gap -/
theorem array_runs_gap :
    (∃ b, Runs.exec arrayStep (.nullValue : Node UInt64)
      [.atIndex 2 (fun _ => .intValue 7), .append (.booleanValue true), .resize 3] = some b ∧
      slots b = [none, none, some (.intValue 7)] ∧ b.size = 3) ∧
    Runs.exec arrayStep (.nullValue : Node UInt64)
      [.atIndex 2 (fun _ => .intValue 7), .append (.booleanValue true), .resize 3, .resize 2] = none := by
  have hg : Runs.Guarded slotStep Fits (slots (.nullValue : Node UInt64))
      [.atIndex 2 (fun _ => .intValue 7), .append (.booleanValue true), .resize 3, .resize 2] :=
    ⟨(by decide : 2 < 2147483647), fun _ h => Option.some.inj h ▸
      ⟨(by decide : 3 < 2147483647), fun _ h => Option.some.inj h ▸
        ⟨(by decide : 3 ≤ 2147483647), fun _ h => Option.some.inj h ▸
          ⟨(by decide : 2 ≤ 2147483647), fun _ _ => trivial⟩⟩⟩⟩
  refine ⟨?_, Option.map_eq_none_iff.mp (array_runs _ _ .null hg).1⟩
  obtain ⟨h1, h2⟩ := array_runs
    [.atIndex 2 (fun _ => .intValue 7), .append (.booleanValue true), .resize 3]
    (.nullValue : Node UInt64) .null
    ⟨(by decide : 2 < 2147483647), fun _ h => Option.some.inj h ▸
      ⟨(by decide : 3 < 2147483647), fun _ h => Option.some.inj h ▸
        ⟨(by decide : 3 ≤ 2147483647), fun _ _ => trivial⟩⟩⟩
  obtain ⟨b, hb, hs⟩ := Option.map_eq_some_iff.mp h1
  exact ⟨b, hb, hs, by rw [(h2 b hb).2, hs]; rfl⟩

/-- **`resize` keeps its promise** exactly when it empties the array, makes it longer or cuts it right
after an element that is there; in every other case its `assert( size() == newSize )` fails. -/
theorem resize_size_iff (a : Node Double) (ha : IsArray a) (n : Nat) (hn : n ≤ 2147483647) :
    ((a.resize n).isSome = true ↔ n = 0 ∨ a.size < n ∨ (slot (slots a) (n - 1)).isSome = true) ∧
    ∀ b, a.resize n = some b → b.size = n := by
  obtain ⟨-, -, hsize⟩ := ha.shows
  have h := resize_rows ha hn
  rw [slotStep] at h
  rw [hsize]
  by_cases h0 : n = 0
  · rw [if_pos h0] at h
    obtain ⟨b, hb, hr⟩ := Runs.rel_right h rfl
    rw [hb]
    refine ⟨⟨fun _ => .inl h0, fun _ => rfl⟩, fun b' e => ?_⟩
    rw [← Option.some.inj e, hr.1.shows.2.2, hr.2, h0]
    rfl
  rw [if_neg h0] at h
  by_cases hgt : n > (slots a).length
  · rw [if_pos hgt] at h
    obtain ⟨b, hb, hr⟩ := Runs.rel_right h rfl
    rw [hb]
    refine ⟨⟨fun _ => .inr (.inl hgt), fun _ => rfl⟩, fun b' e => ?_⟩
    rw [← Option.some.inj e, hr.1.shows.2.2, hr.2, length_put]
    omega
  rw [if_neg hgt] at h
  by_cases hlast : (slot (slots a) (n - 1)).isSome = true
  · rw [if_pos hlast] at h
    obtain ⟨b, hb, hr⟩ := Runs.rel_right h rfl
    rw [hb]
    refine ⟨⟨fun _ => .inr (.inr hlast), fun _ => rfl⟩, fun b' e => ?_⟩
    rw [← Option.some.inj e, hr.1.shows.2.2, hr.2, List.length_take]
    omega
  · rw [if_neg hlast] at h
    rw [Runs.rel_none_right h rfl]
    exact ⟨⟨fun e => (by cases e), fun e => absurd ((e.resolve_left h0).resolve_left hgt) hlast⟩,
      fun _ e => by cases e⟩

/-- cut right after its only element an array keeps it, and in front of it the assertion fails -/
theorem resize_size_iff_last :
    (∃ b, Node.resize 3 (.arrayValue [(.index 2, (.intValue 7 : Node UInt64))]) = some b ∧ b.size = 3) ∧
    Node.resize 2 (.arrayValue [(.index 2, (.intValue 7 : Node UInt64))]) = none := by
  have hm : Indexed [(CZString.index 2, (.intValue 7 : Node UInt64))] :=
    ⟨List.pairwise_singleton _ _, fun _ hp => ⟨2, by decide, by rw [List.mem_singleton.mp hp]; rfl⟩⟩
  obtain ⟨h1, h2⟩ := resize_size_iff _ (.array hm) 3 (by decide)
  obtain ⟨b, hb⟩ := Option.isSome_iff_exists.mp (h1.mpr (.inr (.inr rfl)))
  refine ⟨⟨b, hb, h2 b hb⟩, Option.not_isSome_iff_eq_none.mp fun h => ?_⟩
  rcases (resize_size_iff _ (.array hm) 2 (by decide)).1.mp h with h | h | h
  · exact absurd h (by decide)
  · exact absurd h (by decide)
  · cases h

end

end JMEngine.Json
