import JMEngine.Json.Members
import JMEngine.Json.Spell

/-!
# Paths

A `Path` is read from a text such as `.servers[2].port` and leads from a value to one inside it.

* `makePath`                          the text is read; `%` stands for a parameter;
* `Path.resolve`, `Path.resolveOr`, `Path.make`
* `makePath_parts`                    what a text of names, indices and parameters is read as;
* `make_resolve`                      what `make` leads to is what `resolve` finds, and nothing else
                                      changes;
* `resolveOr_index`                   `resolve` with a default never gets past an index.
-/

namespace JMEngine.Json
open SortedMap

/-! ## reading a path -/

/-- `PathArgument`: a parameter that is not given is of `kindNone` -/
inductive PathArgument where
  | none
  | index (index_ : Nat)
  | key (key_ : List UInt8)
  deriving DecidableEq

def PathArgument.isIndex : PathArgument → Bool
  | .index _ => true
  | _ => false

def PathArgument.isKey : PathArgument → Bool
  | .key _ => true
  | _ => false

/-- `addPathInArg`: the parameter is taken if it is of the right kind.  `itInArg` stays where it is. -/
def addPathInArg (itInArg : List PathArgument) (ofKind : PathArgument → Bool) : List PathArgument :=
  match itInArg with
  | [] => []
  | a :: _ => if ofKind a = true then [a] else []

def readIndex (index : Nat) : List UInt8 → Nat × List UInt8
  | [] => (index, [])
  | c :: current =>
    if isDigit c = true then readIndex ((index * 10 + (c.toNat - 0x30)) % 4294967296) current
    else (index, c :: current)

/-- `!strchr( "[.", c )`, which finds the zero at the end of its text too -/
def isNameByte (c : UInt8) : Bool := c != 0x5b && c != 0x2e && c != 0

/-- One round of the loop for every unit of fuel; `none` says that it goes on after that.  A zero byte
in the path is a name without bytes for ever. -/
def makePathLoop (itInArg : List PathArgument) : Nat → List UInt8 → List PathArgument →
    Option (List PathArgument)
  | 0, _, _ => .none
  | _ + 1, [], args => some args
  | fuel + 1, c :: current, args =>
    if c = 0x5b then
      if current.head? = some 0x25 then
        -- `*current++ != ']'`: the percent sign is passed over, and `invalidPath` does nothing
        makePathLoop itInArg fuel current.tail (args ++ addPathInArg itInArg PathArgument.isIndex)
      else
        let (index, current) := readIndex 0 current
        makePathLoop itInArg fuel current.tail (args ++ [.index index])
    else if c = 0x25 then
      makePathLoop itInArg fuel current (args ++ addPathInArg itInArg PathArgument.isKey)
    else if c = 0x2e then makePathLoop itInArg fuel current args
    else
      makePathLoop itInArg fuel ((c :: current).dropWhile isNameByte)
        (args ++ [.key ((c :: current).takeWhile isNameByte)])

/-- every round takes a byte or more -/
def makePath (path : List UInt8) (itInArg : List PathArgument) : Option (List PathArgument) :=
  makePathLoop itInArg (path.length + 1) path []

/-! ## following a path -/

section
variable {Double : Type}

def Node.isArray : Node Double → Bool
  | .nullValue => true
  | .arrayValue _ => true
  | _ => false

def Node.isObject : Node Double → Bool
  | .nullValue => true
  | .objectValue _ => true
  | _ => false

/-- `*node`; `none` points to the static `null` -/
def deref (node : Option (Node Double)) : Node Double := node.getD .nullValue

/-- `resolve( root )` -/
def Path.resolve : List PathArgument → Option (Node Double) → Option (Option (Node Double))
  | [], node => some node
  | .none :: args, node => resolve args node
  | .index i :: args, node => ((deref node).constIndex i).bind (resolve args)
  | .key k :: args, node => ((deref node).constKey k).bind (resolve args)

/-- `resolve( root, defaultValue )` -/
def Path.resolveOr (defaultValue : Node Double) :
    List PathArgument → Option (Node Double) → Option (Node Double)
  | [], node => some (deref node)
  | .none :: args, node => resolveOr defaultValue args node
  | .index i :: args, node =>
    if ¬ (deref node).isArray = true ∨ (deref node).isValidIndex i = true then some defaultValue
    else ((deref node).constIndex i).bind (resolveOr defaultValue args)
  | .key k :: args, node =>
    if ¬ (deref node).isObject = true then some defaultValue
    else ((deref node).constKey k).bind fun
      | .none => some defaultValue
      | some node => resolveOr defaultValue args (some node)

/-- `make( root )`: what the reference stands for changes by `f` -/
def Path.make (f : Node Double → Node Double) : List PathArgument → Node Double → Option (Node Double)
  | [], root => some (f root)
  | .none :: args, root => make f args root
  | .index i :: args, root =>
    (make f args (deref (root.constIndex i).join)).bind fun child => root.atIndex i fun _ => child
  | .key k :: args, root =>
    (make f args (deref (root.constKey k).join)).bind fun child => root.atKey k fun _ => child

end

/-! ## what a text is read as -/

/-- the parts of a path: an index, a name, `.%` and `[%]` -/
inductive Part where
  | index (i : Nat)
  | name (k : List UInt8)
  | keyParameter
  | indexParameter

def Part.text : Part → List UInt8
  | .index i => 0x5b :: (uintToString i ++ [0x5d])
  | .name k => 0x2e :: k
  | .keyParameter => [0x2e, 0x25]
  | .indexParameter => [0x5b, 0x25, 0x5d]

/-- an index is 32 bits long; a name has a byte, none that ends it, and does not look like a parameter -/
def Part.Plain : Part → Prop
  | .index i => i < 4294967296
  | .name k => k ≠ [] ∧ (∀ c ∈ k, isNameByte c = true) ∧ k.head? ≠ some 0x25
  | _ => True

/-- the arguments that a part adds.  Every parameter is the first one, and the bracket behind an index
parameter is a name. -/
def Part.arguments (itInArg : List PathArgument) : Part → List PathArgument
  | .index i => [.index i]
  | .name k => [.key k]
  | .keyParameter => addPathInArg itInArg PathArgument.isKey
  | .indexParameter => addPathInArg itInArg PathArgument.isIndex ++ [.key [0x5d]]

def partsText (parts : List Part) : List UInt8 := parts.flatMap Part.text

def Stops (rest : List UInt8) : Prop := ∀ c ∈ rest.head?, isNameByte c = false

/-- the text is read, with fuel to spare for the rest, and adds these arguments -/
def Passes (itInArg : List PathArgument) (text : List UInt8) (added : List PathArgument) : Prop :=
  ∀ (rest : List UInt8) (args : List PathArgument) (fuel : Nat), Stops rest →
    (text ++ rest).length < fuel → ∃ fuel', rest.length < fuel' ∧
      makePathLoop itInArg fuel (text ++ rest) args = makePathLoop itInArg fuel' rest (args ++ added)

section
variable (itInArg : List PathArgument)

theorem readIndex_digits {v : Nat} {ds : List UInt8} (h : Digits v ds) (hv : v < 4294967296)
    (rest : List UInt8) : readIndex 0 (ds ++ rest) = readIndex v rest := by
  induction h generalizing rest with
  | @one v h =>
    obtain ⟨h1, h2, -⟩ := digit_facts v h
    rw [List.singleton_append, readIndex, if_pos h1, h2, Nat.zero_mul, Nat.zero_add,
      Nat.mod_eq_of_lt hv]
  | @more v ds _ _ ih =>
    obtain ⟨h1, h2, -⟩ := digit_facts (v % 10) (Nat.mod_lt v (by decide))
    rw [digit_mod] at h1 h2
    rw [List.append_assoc, ih (by omega), List.singleton_append, readIndex, if_pos h1, h2,
      Nat.div_add_mod' v 10, Nat.mod_eq_of_lt hv]

theorem takeWhile_name {k rest : List UInt8} (hk : ∀ c ∈ k, isNameByte c = true) (hr : Stops rest) :
    (k ++ rest).takeWhile isNameByte = k ∧ (k ++ rest).dropWhile isNameByte = rest := by
  induction k with
  | nil =>
    cases rest with
    | nil => exact ⟨rfl, rfl⟩
    | cons c l =>
      have hc := hr c rfl
      rw [List.nil_append, List.takeWhile_cons, List.dropWhile_cons, hc]
      exact ⟨rfl, rfl⟩
  | cons c k ih =>
    obtain ⟨h1, h2⟩ := ih fun d hd => hk d (List.mem_cons_of_mem c hd)
    have hc := hk c List.mem_cons_self
    rw [List.cons_append, List.takeWhile_cons, List.dropWhile_cons, hc, if_pos rfl, if_pos rfl, h1, h2]
    exact ⟨rfl, rfl⟩

theorem makePathLoop_name {k rest : List UInt8} (h0 : k ≠ []) (hk : ∀ c ∈ k, isNameByte c = true)
    (hp : k.head? ≠ some 0x25) (hr : Stops rest) (args : List PathArgument) (fuel : Nat) :
    makePathLoop itInArg (fuel + 1) (k ++ rest) args =
      makePathLoop itInArg fuel rest (args ++ [.key k]) := by
  obtain ⟨h1, h2⟩ := takeWhile_name hk hr
  cases k with
  | nil => exact absurd rfl h0
  | cons c k =>
    have hc := hk c List.mem_cons_self
    have hb : c ≠ 0x5b := by rintro rfl; cases hc
    have hd : c ≠ 0x2e := by rintro rfl; cases hc
    have hq : c ≠ 0x25 := by rintro rfl; exact hp rfl
    rw [List.cons_append] at h1 h2 ⊢
    rw [makePathLoop, if_neg hb, if_neg hq, if_neg hd, h1, h2]

theorem passes_index {i : Nat} (h : i < 4294967296) :
    Passes itInArg (Part.text (.index i)) [.index i] := by
  intro rest args fuel _ hf
  obtain ⟨hd, -⟩ := uintToString_digits h
  obtain ⟨fuel, rfl⟩ : ∃ n, fuel = n + 1 := ⟨fuel - 1, by omega⟩
  refine ⟨fuel, by simp [Part.text] at hf; omega, ?_⟩
  have htext : Part.text (.index i) ++ rest = 0x5b :: (uintToString i ++ 0x5d :: rest) := by
    simp [Part.text]
  have hhead : (uintToString i ++ 0x5d :: rest).head? ≠ some 0x25 := by
    cases he : uintToString i with
    | nil => exact absurd he hd.ne_nil
    | cons c l =>
      have hc := hd.isDigit c (by rw [he]; exact List.mem_cons_self)
      intro e
      rw [Option.some.inj e] at hc
      cases hc
  have hindex : readIndex 0 (uintToString i ++ 0x5d :: rest) = (i, 0x5d :: rest) := by
    rw [readIndex_digits hd h, readIndex, if_neg (by decide)]
  rw [htext, makePathLoop, if_pos rfl, if_neg hhead, hindex]
  rfl

theorem passes_name {k : List UInt8} (h0 : k ≠ []) (hk : ∀ c ∈ k, isNameByte c = true)
    (hp : k.head? ≠ some 0x25) : Passes itInArg (Part.text (.name k)) [.key k] := by
  intro rest args fuel hr hf
  have hlen : k.length ≠ 0 := fun e => h0 (List.length_eq_zero_iff.mp e)
  obtain ⟨fuel, rfl⟩ : ∃ n, fuel = n + 2 := ⟨fuel - 2, by simp [Part.text] at hf; omega⟩
  refine ⟨fuel, by simp [Part.text] at hf; omega, ?_⟩
  have hdot : makePathLoop itInArg (fuel + 2) (Part.text (.name k) ++ rest) args =
      makePathLoop itInArg (fuel + 1) (k ++ rest) args := rfl
  rw [hdot, makePathLoop_name itInArg h0 hk hp hr]

theorem passes_keyParameter :
    Passes itInArg (Part.text .keyParameter) (addPathInArg itInArg PathArgument.isKey) := by
  intro rest args fuel _ hf
  obtain ⟨fuel, rfl⟩ : ∃ n, fuel = n + 2 := ⟨fuel - 2, by simp [Part.text] at hf; omega⟩
  exact ⟨fuel, by simp [Part.text] at hf; omega, rfl⟩

theorem passes_indexParameter : Passes itInArg (Part.text .indexParameter)
    (addPathInArg itInArg PathArgument.isIndex ++ [.key [0x5d]]) := by
  intro rest args fuel hr hf
  obtain ⟨fuel, rfl⟩ : ∃ n, fuel = n + 2 := ⟨fuel - 2, by simp [Part.text] at hf; omega⟩
  refine ⟨fuel, by simp [Part.text] at hf; omega, ?_⟩
  have hopen : makePathLoop itInArg (fuel + 2) (Part.text .indexParameter ++ rest) args =
      makePathLoop itInArg (fuel + 1) ([0x5d] ++ rest)
        (args ++ addPathInArg itInArg PathArgument.isIndex) := rfl
  rw [hopen, makePathLoop_name itInArg (List.cons_ne_nil _ _)
    (fun c hc => by rw [List.mem_singleton.mp hc]; rfl) (by decide) hr, List.append_assoc]

theorem passes_part {part : Part} (h : part.Plain) :
    Passes itInArg part.text (part.arguments itInArg) := by
  cases part with
  | index i => exact passes_index itInArg h
  | name k => exact passes_name itInArg h.1 h.2.1 h.2.2
  | keyParameter => exact passes_keyParameter itInArg
  | indexParameter => exact passes_indexParameter itInArg

theorem stops_partsText (parts : List Part) : Stops (partsText parts) := by
  cases parts with
  | nil => exact nofun
  | cons part parts =>
    intro c hc
    cases part <;> (cases hc; rfl)

theorem passes_parts {parts : List Part} (h : ∀ part ∈ parts, part.Plain) (args : List PathArgument)
    (fuel : Nat) (hf : (partsText parts).length < fuel) :
    makePathLoop itInArg fuel (partsText parts) args =
      some (args ++ parts.flatMap (Part.arguments itInArg)) := by
  induction parts generalizing args fuel with
  | nil =>
    obtain ⟨fuel, rfl⟩ : ∃ n, fuel = n + 1 := ⟨fuel - 1, by omega⟩
    rw [List.flatMap_nil, List.append_nil]
    rfl
  | cons part parts ih =>
    obtain ⟨fuel', hf', e⟩ := passes_part itInArg (h part List.mem_cons_self) (partsText parts) args
      fuel (stops_partsText parts) hf
    have hcons : partsText (part :: parts) = part.text ++ partsText parts := List.flatMap_cons
    rw [hcons, e, ih (fun p hp => h p (List.mem_cons_of_mem part hp)) _ _ hf', List.flatMap_cons,
      List.append_assoc]

/-- **What a path says.**  Names and indices are read back as they were written.  Every parameter is the
first one, if it is of the kind that is asked for, and `[%]` asks for a member `]` as well. -/
theorem makePath_parts (parts : List Part) (h : ∀ part ∈ parts, part.Plain) :
    makePath (partsText parts) itInArg = some (parts.flatMap (Part.arguments itInArg)) := by
  rw [makePath, passes_parts itInArg h [] _ (Nat.lt_succ_self _), List.nil_append]

/-- `.a[2][%]` -/
theorem makePath_parts_parameter :
    makePath (partsText [.name [0x61], .index 2, .indexParameter]) [.index 5] =
      some [.key [0x61], .index 2, .index 5, .key [0x5d]] :=
  makePath_parts [.index 5] [.name [0x61], .index 2, .indexParameter]
    (List.forall_mem_cons.mpr
      ⟨⟨List.cons_ne_nil _ _, fun _ hc => by rw [List.mem_singleton.mp hc]; rfl, by decide⟩,
        List.forall_mem_cons.mpr
          ⟨(by decide : 2 < 4294967296), fun _ hp => by rw [List.mem_singleton.mp hp]; trivial⟩⟩)

end

/-! ## following it -/

/-- the maps are in order, as a `std::map` is -/
inductive Ordered {Double : Type} : Node Double → Prop
  | mk {a : Node Double} (sorted : SortedMap.Sorted CZString.cmp a.entries)
      (entries : ∀ p ∈ a.entries, Ordered p.2) : Ordered a

/-- a value that was put together by the operations, with indices below `INT_MAX` -/
inductive Tidy {Double : Type} : Node Double → Prop
  | mk {a : Node Double} (array : ∀ map, a = .arrayValue map → Indexed map)
      (object : ∀ map, a = .objectValue map → Named map) (entries : ∀ p ∈ a.entries, Tidy p.2) : Tidy a

inductive Apart : List PathArgument → List PathArgument → Prop
  | index {i j : Nat} {args args' : List PathArgument} (hi : i < 4294967296) (hj : j < 4294967296)
      (h : i ≠ j) : Apart (.index i :: args) (.index j :: args')
  | key {k k' : List UInt8} {args args' : List PathArgument} (h : k ≠ k') :
      Apart (.key k :: args) (.key k' :: args')
  | cons (a : PathArgument) {args args' : List PathArgument} (h : Apart args args') :
      Apart (a :: args) (a :: args')

section
variable {Double : Type} {f : Node Double → Node Double} {a b : Node Double}
  {args args' : List PathArgument}

theorem tidy_null : Tidy (.nullValue : Node Double) := .mk nofun nofun nofun

theorem ordered_null : Ordered (.nullValue : Node Double) := .mk .nil nofun

theorem Ordered.entry (h : Ordered a) {k : CZString} : Ordered (deref (find CZString.cmp k a.entries)) := by
  cases hf : find CZString.cmp k a.entries with
  | none => exact ordered_null
  | some v =>
    obtain ⟨p, hp, rfl⟩ := mem_of_find hf
    cases h with
    | mk _ entries => exact entries p hp

theorem Tidy.entry (h : Tidy a) {k : CZString} : Tidy (deref (find CZString.cmp k a.entries)) := by
  cases hf : find CZString.cmp k a.entries with
  | none => exact tidy_null
  | some v =>
    obtain ⟨p, hp, rfl⟩ := mem_of_find hf
    cases h with
    | mk _ _ entries => exact entries p hp

theorem atIndex_some {i : Nat} {c : Node Double} (ha : Ordered a) (h : a.atIndex i (fun _ => c) = some b) :
    a.constIndex i = some (find CZString.cmp (elementKey i) a.entries) ∧
      b.constIndex i = some (some c) ∧
      ∀ j, elementKey j ≠ elementKey i → b.constIndex j = a.constIndex j := by
  cases ha with
  | mk sorted _ =>
    cases a with
    | nullValue =>
      rw [← Option.some.inj h]
      exact ⟨rfl, congrArg some (find_alter_self List.Pairwise.nil),
        fun j hj => congrArg some (find_alter_of_ne hj)⟩
    | arrayValue map =>
      rw [← Option.some.inj h]
      exact ⟨rfl, congrArg some (find_alter_self sorted),
        fun j hj => congrArg some (find_alter_of_ne hj)⟩
    | _ => cases h

theorem atKey_some {k : List UInt8} {c : Node Double} (ha : Ordered a)
    (h : a.atKey k (fun _ => c) = some b) :
    a.constKey k = some (find CZString.cmp (.name k) a.entries) ∧
      b.constKey k = some (some c) ∧ ∀ j, j ≠ k → b.constKey j = a.constKey j := by
  cases ha with
  | mk sorted _ =>
    cases a with
    | nullValue =>
      rw [← Option.some.inj h]
      exact ⟨rfl, congrArg some (find_alter_self List.Pairwise.nil),
        fun j hj => congrArg some (find_alter_of_ne (name_ne hj))⟩
    | objectValue map =>
      rw [← Option.some.inj h]
      exact ⟨rfl, congrArg some (find_alter_self sorted),
        fun j hj => congrArg some (find_alter_of_ne (name_ne hj))⟩
    | _ => cases h

theorem resolve_deref (args : List PathArgument) (node : Option (Node Double)) :
    deref (Path.resolve args node).join = deref (Path.resolve args (some (deref node))).join := by
  induction args with
  | nil => cases node <;> rfl
  | cons x args ih =>
    cases x with
    | none => exact ih
    | index i => rfl
    | key k => rfl

theorem resolve_deref_apart (h : Apart args args') (node : Option (Node Double)) :
    Path.resolve args' node = Path.resolve args' (some (deref node)) := by
  induction h with
  | index _ _ _ => rfl
  | key _ => rfl
  | cons x _ ih =>
    cases x with
    | none => exact ih
    | index i => rfl
    | key k => rfl

theorem elementKey_inj {i j : Nat} (hi : i < 4294967296) (hj : j < 4294967296)
    (h : elementKey i = elementKey j) : i = j := by
  have e := CZString.index.inj h
  unfold Bytes.int32 at e
  split at e <;> split at e <;> omega

theorem make_index {i : Nat} (h : Path.make f (.index i :: args) a = some b) :
    ∃ c, Path.make f args (deref (a.constIndex i).join) = some c ∧ a.atIndex i (fun _ => c) = some b :=
  Option.bind_eq_some_iff.mp h

theorem make_key {k : List UInt8} (h : Path.make f (.key k :: args) a = some b) :
    ∃ c, Path.make f args (deref (a.constKey k).join) = some c ∧ a.atKey k (fun _ => c) = some b :=
  Option.bind_eq_some_iff.mp h

theorem resolve_make (ha : Ordered a) (h : Path.make f args a = some b) :
    Path.resolve args (some b) = some (some (f (deref (Path.resolve args (some a)).join))) := by
  induction args generalizing a b with
  | nil => exact congrArg some h.symm
  | cons x args ih =>
    cases x with
    | none => exact ih ha h
    | index i =>
      obtain ⟨c, hc, hb⟩ := make_index h
      obtain ⟨h1, h2, -⟩ := atIndex_some ha hb
      rw [h1] at hc
      have hstep := ih ha.entry hc
      rw [Path.resolve, Path.resolve]
      show (b.constIndex i).bind _ = some (some (f (deref ((a.constIndex i).bind _).join)))
      rw [h2, h1, Option.bind_some, Option.bind_some, hstep, resolve_deref args (find _ _ _)]
    | key k =>
      obtain ⟨c, hc, hb⟩ := make_key h
      obtain ⟨h1, h2, -⟩ := atKey_some ha hb
      rw [h1] at hc
      have hstep := ih ha.entry hc
      rw [Path.resolve, Path.resolve]
      show (b.constKey k).bind _ = some (some (f (deref ((a.constKey k).bind _).join)))
      rw [h2, h1, Option.bind_some, Option.bind_some, hstep, resolve_deref args (find _ _ _)]

theorem resolve_make_apart (hd : Apart args args') (ha : Ordered a) (h : Path.make f args a = some b) :
    Path.resolve args' (some b) = Path.resolve args' (some a) := by
  induction hd generalizing a b with
  | @index i j _ _ hi hj hne =>
    obtain ⟨c, -, hb⟩ := make_index h
    obtain ⟨-, -, h3⟩ := atIndex_some ha hb
    show (b.constIndex j).bind _ = (a.constIndex j).bind _
    rw [h3 j fun e => hne (elementKey_inj hi hj e.symm)]
  | @key k k' _ _ hne =>
    obtain ⟨c, -, hb⟩ := make_key h
    obtain ⟨-, -, h3⟩ := atKey_some ha hb
    show (b.constKey k').bind _ = (a.constKey k').bind _
    rw [h3 k' (Ne.symm hne)]
  | @cons x args args' hd ih =>
    cases x with
    | none => exact ih ha h
    | index i =>
      obtain ⟨c, hc, hb⟩ := make_index h
      obtain ⟨h1, h2, -⟩ := atIndex_some ha hb
      rw [h1] at hc
      show (b.constIndex i).bind _ = (a.constIndex i).bind _
      rw [h2, h1, Option.bind_some, Option.bind_some, ih ha.entry hc]
      exact (resolve_deref_apart hd _).symm
    | key k =>
      obtain ⟨c, hc, hb⟩ := make_key h
      obtain ⟨h1, h2, -⟩ := atKey_some ha hb
      rw [h1] at hc
      show (b.constKey k).bind _ = (a.constKey k).bind _
      rw [h2, h1, Option.bind_some, Option.bind_some, ih ha.entry hc]
      exact (resolve_deref_apart hd _).symm

/-- **`make` and `resolve`.**  After something was put where a path leads, the path leads to it, and
every path that parts from it leads where it led before. -/
theorem make_resolve (f : Node Double → Node Double) (args : List PathArgument) (a b : Node Double)
    (ha : Ordered a) (h : Path.make f args a = some b) :
    Path.resolve args (some b) = some (some (f (deref (Path.resolve args (some a)).join))) ∧
      ∀ args', Apart args args' → Path.resolve args' (some b) = Path.resolve args' (some a) :=
  ⟨resolve_make ha h, fun _ hd => resolve_make_apart hd ha h⟩

/-- an array in an object, both made on the way -/
theorem make_resolve_new :
    ∃ b, Path.make (fun _ => .intValue 7) [.key [0x61], .index 1] (.nullValue : Node UInt64) = some b ∧
      Path.resolve [.key [0x61], .index 1] (some b) = some (some (.intValue 7)) ∧
      Path.resolve [.key [0x61], .index 0] (some b) = some none :=
  have h := make_resolve (fun _ => .intValue 7) [.key [0x61], .index 1] (.nullValue : Node UInt64) _
    ordered_null rfl
  ⟨_, rfl, h.1, h.2 [.key [0x61], .index 0] (.cons _ (.index (by decide) (by decide) (by decide)))⟩

/-! ## with a default -/

theorem resolveOr_null (defaultValue : Node Double) (args : List PathArgument) :
    Path.resolveOr defaultValue args none = some defaultValue ∨
      Path.resolveOr defaultValue args none = some .nullValue := by
  induction args with
  | nil => exact .inr rfl
  | cons x args ih =>
    cases x with
    | none => exact ih
    | index i => exact ih
    | key k => exact .inl rfl

theorem constIndex_invalid {i : Nat} (hi : i < 4294967296) (ha : Tidy a) (h1 : a.isArray = true)
    (h2 : ¬ a.isValidIndex i = true) : a.constIndex i = some none := by
  cases ha with
  | mk array _ _ =>
    cases a with
    | nullValue => rfl
    | arrayValue map =>
      have hm := array map rfl
      have hge : ¬ i < Node.size (.arrayValue map) := fun hlt => h2 (decide_eq_true hlt)
      refine congrArg some (find_eq_none fun p hp e => ?_)
      rcases hm.cases with rfl | ⟨k, hk, hsize, -, hle⟩
      · cases hp
      · obtain ⟨j, hj, hkey⟩ := hle p hp
        have he := CZString.index.inj (e.symm.trans hkey)
        unfold Bytes.int32 at he
        split at he <;> omega
    | _ => cases h1

theorem constKey_some {k : List UInt8} (ha : Tidy a) (h : a.isObject = true) :
    ∃ r, a.constKey k = some r ∧ Tidy (deref r) := by
  cases a with
  | nullValue => exact ⟨none, rfl, tidy_null⟩
  | objectValue map => exact ⟨_, rfl, ha.entry⟩
  | _ => cases h

/-- **`resolve` with a default** never gets past an index: on a path with one it gives the default or
null, whatever is there. -/
theorem resolveOr_index (defaultValue a : Node Double) (args : List PathArgument) (ha : Tidy a)
    (hargs : ∀ i, PathArgument.index i ∈ args → i < 4294967296)
    (h : ∃ i, PathArgument.index i ∈ args) :
    Path.resolveOr defaultValue args (some a) = some defaultValue ∨
      Path.resolveOr defaultValue args (some a) = some .nullValue := by
  induction args generalizing a with
  | nil =>
    obtain ⟨i, hi⟩ := h
    cases hi
  | cons x args ih =>
    have hrest := fun i hi => hargs i (List.mem_cons_of_mem x hi)
    obtain ⟨i, hi⟩ := h
    cases x with
    | none => exact ih a ha hrest ⟨i, (List.mem_cons.mp hi).resolve_left nofun⟩
    | index j =>
      rw [Path.resolveOr]
      split
      · exact .inl rfl
      · next hv =>
        rw [not_or, not_not] at hv
        have hnone : (deref (some a)).constIndex j = some none :=
          constIndex_invalid (hargs j List.mem_cons_self) ha hv.1 hv.2
        rw [hnone]
        exact resolveOr_null defaultValue args
    | key k =>
      rw [Path.resolveOr]
      split
      · exact .inl rfl
      · next hv =>
        obtain ⟨r, hr, hc⟩ := constKey_some (k := k) ha (not_not.mp hv)
        have hr' : (deref (some a)).constKey k = some r := hr
        rw [hr']
        cases r with
        | none => exact .inl rfl
        | some c => exact ih c hc hrest ⟨i, (List.mem_cons.mp hi).resolve_left nofun⟩

/-- what is at the index is passed by, and past the end nothing is found -/
theorem resolveOr_index_found :
    Path.resolveOr (.booleanValue true) [.index 0]
        (some (.arrayValue [(.index 0, (.intValue 7 : Node UInt64))])) = some (.booleanValue true) ∧
      Path.resolveOr (.booleanValue true) [.index 1]
        (some (.arrayValue [(.index 0, (.intValue 7 : Node UInt64))])) = some .nullValue := by
  have hm : Indexed [(CZString.index 0, (.intValue 7 : Node UInt64))] :=
    ⟨List.pairwise_singleton _ _, fun _ hp => ⟨0, by decide, by rw [List.mem_singleton.mp hp]; rfl⟩⟩
  have htidy : Tidy (.arrayValue [(CZString.index 0, (.intValue 7 : Node UInt64))]) :=
    .mk (fun _ e => Node.arrayValue.inj e ▸ hm) (fun _ e => by cases e)
      (fun _ hp => by rw [List.mem_singleton.mp hp]; exact .mk nofun nofun nofun)
  have hpath : ∀ i, i < 4294967296 → ∀ j, PathArgument.index j ∈ [PathArgument.index i] → j < 4294967296 := by
    intro i hi j hj
    cases List.mem_singleton.mp hj
    exact hi
  constructor
  · refine (resolveOr_index (.booleanValue true) _ [.index 0] htidy (hpath 0 (by decide))
      ⟨0, List.mem_singleton.mpr rfl⟩).resolve_right fun e => ?_
    cases e
  · refine (resolveOr_index (.booleanValue true) _ [.index 1] htidy (hpath 1 (by decide))
      ⟨1, List.mem_singleton.mpr rfl⟩).resolve_left fun e => ?_
    cases e

end

end JMEngine.Json
