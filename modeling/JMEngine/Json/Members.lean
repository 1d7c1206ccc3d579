import JMEngine.Json.Elements
import Mathlib.Logic.Function.Basic

/-!
# Objects

* `Node.atKey`, `Node.constKey`, `Node.get`, `Node.isMember`, `Node.removeMember`,
  `Node.getMemberNames`
* `members`       an object as a function from names;
* `object_runs`   every run of the operations is the run on functions, and the names are listed once
                  each, in order.

`value[key]` of a value that may change puts a null member in when there is none, so a mere look adds a
name to the object; `constKey`, `get` and `isMember` do not.
-/

namespace JMEngine.Json
open SortedMap

/-! ## the operations -/

section
variable {Double : Type}

/-- `resolveReference( key, isStatic )`: what the reference stands for changes by `f` -/
def Node.atKey (key : List UInt8) (f : Node Double → Node Double) : Node Double → Option (Node Double)
  | .nullValue =>
    some (.objectValue (alter CZString.cmp (.name key) (fun e => f (e.getD .nullValue)) []))
  | .objectValue map =>
    some (.objectValue (alter CZString.cmp (.name key) (fun e => f (e.getD .nullValue)) map))
  | _ => none

/-- `(*this)[key]` of a constant value; the inner `none` is the static `null` -/
def Node.constKey (key : List UInt8) : Node Double → Option (Option (Node Double))
  | .nullValue => some none
  | .objectValue map => some (find CZString.cmp (.name key) map)
  | _ => none

def Node.get (key : List UInt8) (defaultValue a : Node Double) : Option (Node Double) :=
  (a.constKey key).map fun e => e.getD defaultValue

def Node.isMember (key : List UInt8) (a : Node Double) : Option Bool :=
  (a.constKey key).map fun e => e.isSome

/-- the member that was there, or null, and the object without it -/
def Node.removeMember (key : List UInt8) : Node Double → Option (Node Double × Node Double)
  | .nullValue => some (.nullValue, .nullValue)
  | .objectValue map =>
    match find CZString.cmp (.name key) map with
    | none => some (.nullValue, .objectValue map)
    | some old => some (old, .objectValue (erase CZString.cmp (.name key) map))
  | _ => none

/-- `c_str()`; an index has none -/
def CZString.cstr_ : CZString → List UInt8
  | .index _ => []
  | .name cstr => cstr

def Node.getMemberNames : Node Double → Option (List (List UInt8))
  | .nullValue => some []
  | .objectValue map => some (map.map fun entry => entry.1.cstr_)
  | _ => none

end

/-! ## runs -/

inductive ObjectOp (Double : Type) where
  | atKey (key : List UInt8) (f : Node Double → Node Double)
  | removeMember (key : List UInt8)
  | clear

section
variable {Double : Type}

def objectStep (a : Node Double) : ObjectOp Double → Option (Node Double)
  | .atKey key f => a.atKey key f
  | .removeMember key => (a.removeMember key).map Prod.snd
  | .clear => a.clear

def members (a : Node Double) (key : List UInt8) : Option (Node Double) := (a.constKey key).join

def memberStep (m : List UInt8 → Option (Node Double)) :
    ObjectOp Double → List UInt8 → Option (Node Double)
  | .atKey key f => Function.update m key (some (f ((m key).getD .nullValue)))
  | .removeMember key => Function.update m key none
  | .clear => fun _ => none

structure Named (map : List (CZString × Node Double)) : Prop where
  sorted : SortedMap.Sorted CZString.cmp map
  keys : ∀ p ∈ map, p.1 = .name p.1.cstr_

/-- an object, or null, which becomes one when it is used as one -/
inductive IsObject : Node Double → Prop
  | null : IsObject .nullValue
  | object {map : List (CZString × Node Double)} (h : Named map) : IsObject (.objectValue map)

def Holds (a : Node Double) (m : List UInt8 → Option (Node Double)) : Prop :=
  IsObject a ∧ members a = m

end

section
variable {Double : Type} {map : List (CZString × Node Double)} {a : Node Double} {key name : List UInt8}

theorem named_nil : Named ([] : List (CZString × Node Double)) := ⟨List.Pairwise.nil, nofun⟩

theorem Named.alter (h : Named map) (f : Option (Node Double) → Node Double) :
    Named (alter CZString.cmp (.name key) f map) := by
  refine ⟨sorted_alter h.sorted, fun p hp => ?_⟩
  rcases mem_alter hp with e | ⟨q, hq, e⟩
  · rw [e]
    rfl
  · rw [← e]
    exact h.keys q hq

theorem Named.erase (h : Named map) : Named (erase CZString.cmp (.name key) map) :=
  ⟨sorted_erase h.sorted, fun p hp => h.keys p ((erase_sublist _ map).subset hp)⟩

theorem name_ne (h : name ≠ key) : CZString.name name ≠ .name key := fun e => h (CZString.name.inj e)

theorem members_alter (h : Named map) (f : Option (Node Double) → Node Double) :
    members (.objectValue (alter CZString.cmp (.name key) f map)) =
      Function.update (members (.objectValue map)) key (some (f (members (.objectValue map) key))) := by
  funext name
  by_cases e : name = key
  · rw [e, Function.update_self]
    exact find_alter_self h.sorted
  · rw [Function.update_of_ne e]
    exact find_alter_of_ne (name_ne e)

theorem members_erase (h : Named map) :
    members (.objectValue (erase CZString.cmp (.name key) map)) =
      Function.update (members (.objectValue map)) key none := by
  funext name
  by_cases e : name = key
  · rw [e, Function.update_self]
    exact find_erase_self h.sorted
  · rw [Function.update_of_ne e]
    exact find_erase_of_ne (name_ne e)

/-! ## one operation -/

theorem atKey_holds (h : IsObject a) (f : Node Double → Node Double) :
    ∃ b, a.atKey key f = some b ∧ Holds b (memberStep (members a) (.atKey key f)) := by
  cases h with
  | null => exact ⟨_, rfl, .object (named_nil.alter _), members_alter named_nil _⟩
  | object h => exact ⟨_, rfl, .object (h.alter _), members_alter h _⟩

theorem removeMember_holds (key : List UInt8) (h : IsObject a) :
    ∃ b, a.removeMember key = some ((members a key).getD .nullValue, b) ∧
      Holds b (memberStep (members a) (.removeMember key)) := by
  cases h with
  | null =>
    refine ⟨.nullValue, rfl, .null, ?_⟩
    exact (Function.update_eq_self key (members (.nullValue : Node Double))).symm
  | @object map h =>
    cases hf : find CZString.cmp (.name key) map with
    | none =>
      have hnone : members (.objectValue map) key = none := hf
      refine ⟨.objectValue map, by rw [Node.removeMember, hf, hnone]; rfl, .object h, ?_⟩
      rw [memberStep, ← hnone, Function.update_eq_self]
    | some old =>
      have hsome : members (.objectValue map) key = some old := hf
      refine ⟨.objectValue (SortedMap.erase CZString.cmp (.name key) map), ?_, .object h.erase,
        members_erase h⟩
      rw [Node.removeMember, hf, hsome]
      rfl

theorem objectStep_holds (a : Node Double) (op : ObjectOp Double)
    (m : List UInt8 → Option (Node Double)) (h : Holds a m) (_ : True) :
    ∃ b, objectStep a op = some b ∧ Holds b (memberStep m op) := by
  obtain ⟨ha, rfl⟩ := h
  cases op with
  | atKey key f => exact atKey_holds ha f
  | removeMember key =>
    obtain ⟨b, hb, hh⟩ := removeMember_holds key ha
    exact ⟨b, by rw [objectStep, hb]; rfl, hh⟩
  | clear =>
    cases ha with
    | null => exact ⟨_, rfl, .null, rfl⟩
    | object h => exact ⟨_, rfl, .object named_nil, rfl⟩

/-! ## the names -/

theorem Named.names_sorted (h : Named map) :
    (map.map fun entry => entry.1.cstr_).Pairwise fun a b => strcmp a b = .lt := by
  refine List.pairwise_map.mpr (h.sorted.imp_of_mem fun {p q} hp hq hlt => ?_)
  rw [h.keys p hp, h.keys q hq] at hlt
  exact hlt

theorem Named.mem_names (h : Named map) :
    key ∈ (map.map fun entry => entry.1.cstr_) ↔ (find CZString.cmp (.name key) map).isSome = true := by
  rw [find_isSome_iff, List.mem_map]
  constructor
  · rintro ⟨p, hp, rfl⟩
    exact ⟨p, hp, h.keys p hp⟩
  · rintro ⟨p, hp, e⟩
    exact ⟨p, hp, by rw [e]; rfl⟩

theorem IsObject.names (h : IsObject a) : ∃ names, a.getMemberNames = some names ∧
    (names.Pairwise fun x y => strcmp x y = .lt) ∧
    (∀ key, key ∈ names ↔ (members a key).isSome = true) ∧
    a.size = names.length % 4294967296 := by
  cases h with
  | null => exact ⟨[], rfl, .nil, fun _ => ⟨nofun, nofun⟩, rfl⟩
  | object h =>
    refine ⟨_, rfl, h.names_sorted, fun key => h.mem_names, ?_⟩
    rw [List.length_map]
    rfl

theorem IsObject.constKey_eq (h : IsObject a) (key : List UInt8) :
    a.constKey key = some (members a key) := by
  cases h with
  | null => rfl
  | object h => rfl

/-! ## every run -/

/-- **Objects.**  A run of `operator[]`, `removeMember` and `clear` never fails, and afterwards every
name reads as the same run on functions says; `getMemberNames` lists the names of the members once each
in the order of `strcmp`, `size()` counts them, and `removeMember` gives back what was last put there. -/
theorem object_runs (ops : List (ObjectOp Double)) (a : Node Double) (ha : IsObject a) :
    ∃ b names, Runs.exec objectStep a ops = some b ∧
      (∀ key, b.constKey key = some (ops.foldl memberStep (members a) key)) ∧
      b.getMemberNames = some names ∧ (names.Pairwise fun x y => strcmp x y = .lt) ∧
      (∀ key, b.isMember key = some (decide (key ∈ names))) ∧
      b.size = names.length % 4294967296 ∧
      ∀ key, ∃ c, b.removeMember key =
        some ((ops.foldl memberStep (members a) key).getD .nullValue, c) := by
  obtain ⟨b, hb, hi, hm⟩ := Runs.exec_refines objectStep objectStep_holds ops a (members a) ⟨ha, rfl⟩
    (Runs.guarded_of_mem _ ops (fun _ _ _ => trivial) _)
  obtain ⟨names, hn, hs, hmem, hsize⟩ := hi.names
  have hread : ∀ key, b.constKey key = some (members b key) := hi.constKey_eq
  refine ⟨b, names, hb, fun key => by rw [hread, hm], hn, hs, fun key => ?_, hsize, fun key => ?_⟩
  · rw [Node.isMember, hread]
    show some (members b key).isSome = _
    by_cases hk : key ∈ names
    · rw [(hmem key).mp hk, decide_eq_true hk]
    · rw [decide_eq_false hk, Bool.eq_false_iff.mpr fun h => hk ((hmem key).mpr h)]
  · obtain ⟨c, hc, -⟩ := removeMember_holds key hi
    exact ⟨c, by rw [hc, hm]⟩

/-- two members and one taken out again -/
theorem object_runs_removed :
    ∃ b, Runs.exec objectStep (.nullValue : Node UInt64)
      [.atKey [0x62] (fun _ => .intValue 1), .atKey [0x61] (fun e => e), .removeMember [0x62]] = some b ∧
      b.isMember [0x61] = some true ∧ b.isMember [0x62] = some false :=
  have ⟨b, names, hb, hr, _, _, _, _, _⟩ := object_runs
    [.atKey [0x62] (fun _ => .intValue 1), .atKey [0x61] (fun e => e), .removeMember [0x62]]
    (.nullValue : Node UInt64) .null
  ⟨b, hb, by rw [Node.isMember, hr]; rfl, by rw [Node.isMember, hr]; rfl⟩

end

end JMEngine.Json
