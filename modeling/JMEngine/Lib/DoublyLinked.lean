import Mathlib.Data.List.Basic
import Mathlib.Data.List.Induction
import Mathlib.Logic.Function.Basic

/-!
# Doubly linked lists in memory

The nodes are addresses. The two link fields of every node are in the memory (`Links`), the two ends
of a list are kept elsewhere (`Ends`), and several lists can lie in one memory.

* `Holds k e l`                   in the memory `k` the ends `e` hold the list `l`;
* `pushFront`, `popFront`, `popBack`
* `Holds.push`, `Holds.front`, `Holds.back`   what they do to the list of their own ends;
* `Apart`, `Holds.apart`          and that they leave every other list alone.
-/

set_option linter.unusedSectionVars false

namespace DoublyLinked

structure Links (A : Type) where
  next : A → Option A
  prev : A → Option A

structure Ends (A : Type) where
  head : Option A
  tail : Option A
deriving DecidableEq

section
variable {A : Type} [DecidableEq A]

def Links.setNext (k : Links A) (a : A) (v : Option A) : Links A :=
  { k with next := Function.update k.next a v }

def Links.setPrev (k : Links A) (a : A) (v : Option A) : Links A :=
  { k with prev := Function.update k.prev a v }

@[simp] theorem next_setNext_self (k : Links A) (a : A) (v : Option A) : (k.setNext a v).next a = v := by
  simp [Links.setNext]

@[simp] theorem prev_setPrev_self (k : Links A) (a : A) (v : Option A) : (k.setPrev a v).prev a = v := by
  simp [Links.setPrev]

theorem next_setNext_of_ne (k : Links A) {a x : A} (h : x ≠ a) (v : Option A) :
    (k.setNext a v).next x = k.next x := by
  simp [Links.setNext, h]

theorem prev_setPrev_of_ne (k : Links A) {a x : A} (h : x ≠ a) (v : Option A) :
    (k.setPrev a v).prev x = k.prev x := by
  simp [Links.setPrev, h]

@[simp] theorem prev_setNext (k : Links A) (a : A) (v : Option A) : (k.setNext a v).prev = k.prev := rfl

@[simp] theorem next_setPrev (k : Links A) (a : A) (v : Option A) : (k.setPrev a v).next = k.next := rfl

def pushFront (k : Links A) (e : Ends A) (a : A) : Links A × Ends A :=
  let k := (k.setNext a e.head).setPrev a none
  match e.head with
  | some b => (k.setPrev b (some a), ⟨some a, e.tail⟩)
  | none => (k, ⟨some a, some a⟩)

/-- without the first node `a` -/
def popFront (k : Links A) (e : Ends A) (a : A) : Links A × Ends A :=
  match k.next a with
  | some b => (k.setPrev b none, ⟨some b, e.tail⟩)
  | none => (k, ⟨none, none⟩)

/-- without the last node `f` -/
def popBack (k : Links A) (e : Ends A) (f : A) : Links A × Ends A :=
  match k.prev f with
  | some b => (k.setNext b none, ⟨e.head, some b⟩)
  | none => (k, ⟨none, none⟩)

/-- the links go along the list and back; before its first node comes `p` -/
def Chained (k : Links A) : Option A → List A → Prop
  | _, [] => True
  | p, a :: l => k.prev a = p ∧ k.next a = l.head? ∧ Chained k (some a) l

structure Holds (k : Links A) (e : Ends A) (l : List A) : Prop where
  head : e.head = l.head?
  tail : e.tail = l.getLast?
  chained : Chained k none l
  nodup : l.Nodup

/-- the memories differ in the nodes `S` only -/
def Apart (S : A → Prop) (k k' : Links A) : Prop :=
  ∀ x, ¬ S x → k'.next x = k.next x ∧ k'.prev x = k.prev x

variable {S T : A → Prop} {k k' k'' : Links A} {e : Ends A} {l m : List A} {p : Option A} {a b f : A}

theorem Apart.refl (S : A → Prop) (k : Links A) : Apart S k k := fun _ _ => ⟨rfl, rfl⟩

theorem Apart.trans (h : Apart S k k') (h' : Apart S k' k'') : Apart S k k'' :=
  fun x hx => ⟨(h' x hx).1.trans (h x hx).1, (h' x hx).2.trans (h x hx).2⟩

theorem Apart.mono (h : Apart S k k') (hs : ∀ x, S x → T x) : Apart T k k' :=
  fun x hx => h x fun hl => hx (hs x hl)

theorem apart_setNext (k : Links A) (v : Option A) (ha : S a) : Apart S k (k.setNext a v) :=
  fun x hx => ⟨next_setNext_of_ne k (show x ≠ a from fun e => hx (e ▸ ha)) v, rfl⟩

theorem apart_setPrev (k : Links A) (v : Option A) (ha : S a) : Apart S k (k.setPrev a v) :=
  fun x hx => ⟨rfl, prev_setPrev_of_ne k (show x ≠ a from fun e => hx (e ▸ ha)) v⟩

theorem Chained.congr (h : Chained k p l)
    (hk : ∀ x ∈ l, k'.next x = k.next x ∧ k'.prev x = k.prev x) : Chained k' p l := by
  induction l generalizing p with
  | nil => trivial
  | cons a l ih =>
    obtain ⟨hp, hn, hl⟩ := h
    obtain ⟨hn', hp'⟩ := hk a List.mem_cons_self
    exact ⟨hp'.trans hp, hn'.trans hn, ih hl fun x hx => hk x (List.mem_cons_of_mem a hx)⟩

theorem Holds.apart (h : Holds k e m) (hk : Apart S k k') (hd : ∀ x ∈ m, ¬ S x) : Holds k' e m :=
  ⟨h.head, h.tail, h.chained.congr fun x hx => hk x (hd x hx), h.nodup⟩

theorem holds_nil (k : Links A) : Holds k ⟨none, none⟩ [] := ⟨rfl, rfl, trivial, List.nodup_nil⟩

/-! ## At the front -/

theorem head_mem (h : Holds k e l) (hb : e.head = some b) : b ∈ l := by
  rw [h.head] at hb
  exact List.mem_of_mem_head? hb

theorem apart_pushFront (h : Holds k e l) (a : A) : Apart (· ∈ a :: l) k (pushFront k e a).1 := by
  have h0 : Apart (· ∈ a :: l) k ((k.setNext a e.head).setPrev a none) :=
    (apart_setNext k _ List.mem_cons_self).trans (apart_setPrev _ none List.mem_cons_self)
  unfold pushFront
  dsimp only
  split
  · next b hb => exact h0.trans (apart_setPrev _ _ (List.mem_cons_of_mem a (head_mem h hb)))
  · exact h0

theorem Holds.push (h : Holds k e l) (ha : a ∉ l) :
    Holds (pushFront k e a).1 (pushFront k e a).2 (a :: l) := by
  have hn : (a :: l).Nodup := List.nodup_cons.mpr ⟨ha, h.nodup⟩
  cases l with
  | nil =>
    have he : e.head = none := h.head
    unfold pushFront
    rw [he]
    exact ⟨rfl, rfl, ⟨prev_setPrev_self .., next_setNext_self .., trivial⟩, hn⟩
  | cons b l =>
    have he : e.head = some b := h.head
    obtain ⟨hp, hnext, hl⟩ := h.chained
    have hab : a ≠ b := fun e => ha (e ▸ List.mem_cons_self)
    unfold pushFront
    rw [he]
    refine ⟨rfl, ?_, ⟨?_, next_setNext_self .., prev_setPrev_self .., ?_, ?_⟩, hn⟩
    · show e.tail = _
      rw [h.tail, List.getLast?_cons_cons]
    · exact (prev_setPrev_of_ne _ hab _).trans (prev_setPrev_self ..)
    · exact (next_setNext_of_ne k hab.symm _).trans hnext
    · refine hl.congr fun x hx => ?_
      have hxa : x ≠ a := fun e => ha (e ▸ List.mem_cons_of_mem b hx)
      have hxb : x ≠ b := fun e => (List.nodup_cons.mp h.nodup).1 (e ▸ hx)
      exact ⟨next_setNext_of_ne k hxa _,
        (prev_setPrev_of_ne _ hxb _).trans (prev_setPrev_of_ne _ hxa _)⟩

theorem apart_popFront (h : Holds k e (a :: l)) : Apart (· ∈ a :: l) k (popFront k e a).1 := by
  have hn : k.next a = l.head? := h.chained.2.1
  unfold popFront
  split
  · next b hb =>
    rw [hn] at hb
    exact apart_setPrev k _ (List.mem_cons_of_mem a (List.mem_of_mem_head? hb))
  · exact Apart.refl _ k

theorem Holds.front (h : Holds k e (a :: l)) : Holds (popFront k e a).1 (popFront k e a).2 l := by
  obtain ⟨hp, hn, hl⟩ := h.chained
  have hd := (List.nodup_cons.mp h.nodup).2
  unfold popFront
  cases l with
  | nil =>
    rw [hn]
    exact holds_nil k
  | cons b l =>
    rw [hn]
    obtain ⟨_, hn', hl'⟩ := hl
    refine ⟨rfl, ?_, ⟨prev_setPrev_self .., hn', hl'.congr fun x hx => ⟨rfl, ?_⟩⟩, hd⟩
    · show e.tail = _
      rw [h.tail, List.getLast?_cons_cons]
    · have hxb : x ≠ b := fun e => (List.nodup_cons.mp hd).1 (e ▸ hx)
      exact prev_setPrev_of_ne k hxb _

/-! ## At the back -/

theorem Chained.prev_last (h : Chained k p (l ++ [f])) : k.prev f = l.getLast?.or p := by
  induction l generalizing p with
  | nil => exact h.1
  | cons a l ih =>
    rw [ih h.2.2]
    cases l with
    | nil => rfl
    | cons b l =>
      rw [List.getLast?_cons_cons, List.getLast?_eq_some_getLast (List.cons_ne_nil b l)]
      rfl

theorem Chained.cut (h : Chained k p (l ++ [b] ++ [f])) (hd : (l ++ [b]).Nodup) :
    Chained (k.setNext b none) p (l ++ [b]) := by
  induction l generalizing p with
  | nil => exact ⟨h.1, next_setNext_self .., trivial⟩
  | cons a l ih =>
    obtain ⟨hp, hn, hl⟩ := h
    have hab : a ≠ b := fun e => (List.nodup_cons.mp hd).1 (by rw [e]; simp)
    refine ⟨hp, ?_, ih hl (List.nodup_cons.mp hd).2⟩
    rw [next_setNext_of_ne k hab, hn]
    cases l <;> rfl

theorem Holds.prev_tail (h : Holds k e (l ++ [f])) : k.prev f = l.getLast? := by
  rw [h.chained.prev_last, Option.or_none]

theorem apart_popBack (h : Holds k e (l ++ [f])) : Apart (· ∈ l ++ [f]) k (popBack k e f).1 := by
  unfold popBack
  split
  · next b hb =>
    rw [h.prev_tail] at hb
    exact apart_setNext k _ (List.mem_append_left _ (List.mem_of_mem_getLast? hb))
  · exact Apart.refl _ k

theorem Holds.back (h : Holds k e (l ++ [f])) : Holds (popBack k e f).1 (popBack k e f).2 l := by
  have hd : l.Nodup := (List.nodup_append.mp h.nodup).1
  unfold popBack
  rw [h.prev_tail]
  obtain rfl | ⟨l, b, rfl⟩ := List.eq_nil_or_concat' l
  · exact holds_nil k
  · rw [List.getLast?_append_of_ne_nil _ (List.cons_ne_nil b []), List.getLast?_singleton]
    refine ⟨?_, ?_, h.chained.cut hd, hd⟩
    · rw [h.head, List.append_assoc]
      cases l <;> rfl
    · exact (List.getLast?_concat).symm

end

end DoublyLinked
