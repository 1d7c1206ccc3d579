import JMEngine.Lib.Runs
import Mathlib.Data.List.Nodup
import Mathlib.Data.List.Perm.Basic

/-!
# The pool of database connections (include/db/JME_DBPool.h)

A `DBHelper` takes a connection out of the pool when it is constructed and puts it back when it is
destroyed.  `getConn` decides under the lock whether there is a connection to take; one that has to be
opened is opened after the unlock, so that any number of constructors may be between the two.

* `DBPool.init`, `getConn`, `releaseConn`   the pool's own functions;
* `Users.step`              a pool and the helpers on it: one half of a construction, a copy or a
                            destruction, by whichever thread;
* `Users.Exclusive`         every connection has one user;
* `exclusive_iff_last`      it has, in all states of a run, exactly when no helper is destroyed
                            while a copy of it lives;
* `connections_le_peak`     without copies the pool grows to the peak demand and not beyond it.
-/

set_option linter.unusedSectionVars false

namespace JMEngine.Db
open Runs

inductive Connected where
  | yes
  | no
  | throws
  deriving DecidableEq, Repr

/-- the connections are numbered by the `new T` that made them; `allocated` counts those -/
structure DBPool where
  _connPool : List Nat
  allocated : Nat
  deriving DecidableEq, Repr

namespace DBPool

/-- the loop of `init`, with the answers of the handler -/
def initLoop (p : DBPool) : List Connected → Option DBPool
  | [] => some p
  | .yes :: rs => initLoop ⟨p._connPool ++ [p.allocated], p.allocated + 1⟩ rs
  | .no :: rs => initLoop { p with allocated := p.allocated + 1 } rs
  | .throws :: _ => none

/-- the constructor aborts for `n = 0` -/
def init (rs : List Connected) : Option DBPool :=
  if rs.length = 0 then none else initLoop ⟨[], 0⟩ rs

/-- the locked part of `getConn`: the connection, and whether it still has to be opened -/
def getConn (p : DBPool) : DBPool × Nat × Bool :=
  match p._connPool with
  | conn :: rest => ({ p with _connPool := rest }, conn, false)
  | [] => ({ p with allocated := p.allocated + 1 }, p.allocated, true)

def releaseConn (p : DBPool) (conn : Nat) : DBPool := { p with _connPool := p._connPool ++ [conn] }

theorem getConn_empty {p : DBPool} (h : p._connPool = []) :
    p.getConn = (⟨[], p.allocated + 1⟩, p.allocated, true) := by
  obtain ⟨conns, n⟩ := p
  cases h
  rfl

theorem getConn_take {p : DBPool} {conn : Nat} {rest : List Nat} (h : p._connPool = conn :: rest) :
    p.getConn = (⟨rest, p.allocated⟩, conn, false) := by
  obtain ⟨conns, n⟩ := p
  cases h
  rfl

end DBPool

/-- `origin` numbers the construction from the pool that the helper, or the one it is a copy of, comes
from -/
structure DBHelper where
  _conn : Nat
  origin : Nat
  deriving DecidableEq, Repr

/-- a constructor of `DBHelper` behind the locked part of `getConn` -/
structure Construction where
  conn : Nat
  opening : Bool
  origin : Nat
  deriving DecidableEq, Repr

/-- `peak` is the largest number of helpers alive or under construction so far -/
structure Users where
  pool : DBPool
  constructing : List Construction
  helpers : List DBHelper
  begun : Nat
  peak : Nat
  deriving DecidableEq, Repr

inductive PoolEvent where
  /-- a constructor begins; the pool that it is given may be null -/
  | construct (delegator : Bool)
  /-- the constructor goes on behind the unlock, to its end -/
  | constructed (i : Nat) (r : Connected)
  /-- the implicit copy constructor -/
  | copy (i : Nat)
  | destroy (i : Nat)
  deriving DecidableEq, Repr

def PoolEvent.isCopy : PoolEvent → Bool
  | .copy _ => true
  | _ => false

namespace Users

def new (p : DBPool) : Users := ⟨p, [], [], 0, 0⟩

def demand (w : Users) : Nat := w.helpers.length + w.constructing.length

def act (w : Users) : PoolEvent → Option Users
  | .construct false => some w
  | .construct true =>
    some { w with
      pool := w.pool.getConn.1
      constructing := w.constructing ++ [⟨w.pool.getConn.2.1, w.pool.getConn.2.2, w.begun⟩]
      begun := w.begun + 1 }
  | .constructed i r =>
    w.constructing[i]?.map fun k =>
      if k.opening = false ∨ r = .yes then
        { w with
          constructing := w.constructing.eraseIdx i
          helpers := w.helpers ++ [⟨k.conn, k.origin⟩] }
      -- the constructor throws, and the destructor of its helper does not run
      else { w with constructing := w.constructing.eraseIdx i }
  | .copy i => w.helpers[i]?.map fun h => { w with helpers := w.helpers ++ [h] }
  | .destroy i =>
    w.helpers[i]?.map fun h =>
      { w with pool := w.pool.releaseConn h._conn, helpers := w.helpers.eraseIdx i }

def step (w : Users) (e : PoolEvent) : Option Users :=
  (w.act e).map fun w => { w with peak := max w.peak w.demand }

structure Exclusive (w : Users) : Prop where
  independent : ∀ h ∈ w.helpers, ∀ h' ∈ w.helpers, h.origin ≠ h'.origin → h._conn ≠ h'._conn
  once : w.pool._connPool.Nodup
  free : ∀ h ∈ w.helpers, h._conn ∉ w.pool._connPool

/-- a helper that is destroyed is the last one that holds its connection -/
def LastHolder (w : Users) : PoolEvent → Prop
  | .destroy i => ∀ d ∈ w.helpers[i]?, ∀ d' ∈ w.helpers.eraseIdx i, d'._conn ≠ d._conn
  | _ => True

instance (w : Users) (e : PoolEvent) : Decidable (LastHolder w e) :=
  match e with
  | .destroy i =>
    inferInstanceAs (Decidable (∀ d ∈ w.helpers[i]?, ∀ d' ∈ w.helpers.eraseIdx i, d'._conn ≠ d._conn))
  | .construct _ => isTrue trivial
  | .constructed _ _ => isTrue trivial
  | .copy _ => isTrue trivial

/-! ## what an event can do -/

/-- the connections that no helper holds: those in the pool and those of running constructors -/
def unheld (w : Users) : List Nat := w.pool._connPool ++ w.constructing.map Construction.conn

inductive Turn (w : Users) (e : PoolEvent) (w' : Users) : Prop
  | stay (hu : w'.unheld.Perm w.unheld) (hh : w'.helpers = w.helpers)
      (ha : w'.pool.allocated = w.pool.allocated)
  | opens (hp : w'.pool._connPool = []) (hu : w'.unheld.Perm (w.pool.allocated :: w.unheld))
      (hh : w'.helpers = w.helpers) (ha : w'.pool.allocated = w.pool.allocated + 1)
  | hands (conn origin : Nat) (hu : w.unheld.Perm (conn :: w'.unheld))
      (hh : w'.helpers = w.helpers ++ [⟨conn, origin⟩]) (ha : w'.pool.allocated = w.pool.allocated)
  | drops (conn : Nat) (hu : w.unheld.Perm (conn :: w'.unheld)) (hh : w'.helpers = w.helpers)
      (ha : w'.pool.allocated = w.pool.allocated)
  | copies (i : Nat) (d : DBHelper) (he : e = .copy i) (hd : d ∈ w.helpers)
      (hu : w'.unheld = w.unheld) (hh : w'.helpers = w.helpers ++ [d])
      (ha : w'.pool.allocated = w.pool.allocated)
  | returns (i : Nat) (d : DBHelper) (he : e = .destroy i) (hd : w.helpers[i]? = some d)
      (hu : w'.unheld.Perm (d._conn :: w.unheld)) (hh : w'.helpers = w.helpers.eraseIdx i)
      (ha : w'.pool.allocated = w.pool.allocated)

theorem perm_eraseIdx {α : Type} {l : List α} {i : Nat} {a : α} (h : l[i]? = some a) :
    l.Perm (a :: l.eraseIdx i) := by
  obtain ⟨hi, rfl⟩ := List.getElem?_eq_some_iff.mp h
  exact (List.getElem_cons_eraseIdx_perm hi).symm

theorem unheld_eraseIdx (w : Users) {i : Nat} {k : Construction} (h : w.constructing[i]? = some k) :
    w.unheld.Perm (k.conn :: (w.pool._connPool
      ++ (w.constructing.eraseIdx i).map Construction.conn)) := by
  have hp := ((perm_eraseIdx h).map Construction.conn).append_left w.pool._connPool
  exact hp.trans List.perm_middle

theorem step_turn {w w' : Users} {e : PoolEvent} (h : w.step e = some w') : Turn w e w' := by
  obtain ⟨w1, h1, rfl⟩ := Option.map_eq_some_iff.mp h
  cases e with
  | construct delegator =>
    cases delegator with
    | false =>
      cases h1
      exact .stay (List.Perm.refl _) rfl rfl
    | true =>
      cases h1
      cases hp : w.pool._connPool with
      | nil =>
        have hg := DBPool.getConn_empty hp
        refine .opens ?_ ?_ rfl ?_
        · show w.pool.getConn.1._connPool = []
          rw [hg]
        · show (w.pool.getConn.1._connPool ++ (w.constructing ++ [_]).map Construction.conn).Perm _
          unfold unheld
          rw [hg, List.map_append, hp]
          exact List.perm_append_singleton _ _
        · show w.pool.getConn.1.allocated = _
          rw [hg]
      | cons conn rest =>
        have hg := DBPool.getConn_take hp
        refine .stay ?_ rfl ?_
        · show (w.pool.getConn.1._connPool ++ (w.constructing ++ [_]).map Construction.conn).Perm _
          unfold unheld
          rw [hg, List.map_append, hp, ← List.append_assoc]
          exact List.perm_append_singleton _ _
        · show w.pool.getConn.1.allocated = _
          rw [hg]
  | constructed i r =>
    obtain ⟨k, hk, rfl⟩ := Option.map_eq_some_iff.mp h1
    have hu := w.unheld_eraseIdx hk
    split
    · exact .hands k.conn k.origin hu rfl rfl
    · exact .drops k.conn hu rfl rfl
  | copy i =>
    obtain ⟨d, hd, rfl⟩ := Option.map_eq_some_iff.mp h1
    exact .copies i d rfl (List.mem_of_getElem? hd) rfl rfl rfl
  | destroy i =>
    obtain ⟨d, hd, rfl⟩ := Option.map_eq_some_iff.mp h1
    refine .returns i d rfl hd ?_ rfl rfl
    show (w.pool._connPool ++ [d._conn] ++ w.constructing.map Construction.conn).Perm _
    rw [List.append_assoc]
    exact List.perm_middle

/-! ## one user for every connection -/

/-- `Exclusive`, with the connections of running constructors -/
structure Inv (w : Users) : Prop where
  distinct : w.unheld.Nodup
  apart : ∀ h ∈ w.helpers, h._conn ∉ w.unheld
  same : ∀ h ∈ w.helpers, ∀ h' ∈ w.helpers, h._conn = h'._conn → h.origin = h'.origin
  made : ∀ c ∈ w.unheld, c < w.pool.allocated
  held : ∀ h ∈ w.helpers, h._conn < w.pool.allocated

theorem Inv.exclusive {w : Users} (h : Inv w) : Exclusive w where
  independent := fun a ha b hb hne he => hne (h.same a ha b hb he)
  once := (List.nodup_append.mp h.distinct).1
  free := fun a ha hm => h.apart a ha (List.mem_append_left _ hm)

theorem Inv.returns {w w' : Users} (h : Inv w) {d : DBHelper}
    (hl : ∀ d' ∈ w'.helpers, d'._conn ≠ d._conn) (hu : w'.unheld.Perm (d._conn :: w.unheld))
    (hh : w.helpers.Perm (d :: w'.helpers)) (ha : w'.pool.allocated = w.pool.allocated) : Inv w' := by
  have hd : d ∈ w.helpers := hh.mem_iff.mpr List.mem_cons_self
  have hin : ∀ a ∈ w'.helpers, a ∈ w.helpers := fun a h1 => hh.mem_iff.mpr (List.mem_cons_of_mem _ h1)
  refine ⟨hu.nodup_iff.mpr (List.nodup_cons.mpr ⟨h.apart d hd, h.distinct⟩), ?_, ?_, ?_, ?_⟩
  · intro a h1 hm
    rcases List.mem_cons.mp (hu.mem_iff.mp hm) with e | hm
    · exact hl a h1 e
    · exact h.apart a (hin a h1) hm
  · exact fun a h1 b h2 => h.same a (hin a h1) b (hin b h2)
  · intro c hc
    rw [ha]
    rcases List.mem_cons.mp (hu.mem_iff.mp hc) with e | hc
    · exact e ▸ h.held d hd
    · exact h.made c hc
  · intro a h1
    rw [ha]
    exact h.held a (hin a h1)

theorem Inv.hands {w w' : Users} (h : Inv w) {conn origin : Nat}
    (hu : w.unheld.Perm (conn :: w'.unheld)) (hh : w'.helpers = w.helpers ++ [⟨conn, origin⟩])
    (ha : w'.pool.allocated = w.pool.allocated) : Inv w' := by
  have hnd := List.nodup_cons.mp (hu.nodup_iff.mp h.distinct)
  have hc : conn ∈ w.unheld := hu.mem_iff.mpr List.mem_cons_self
  have hin : ∀ c ∈ w'.unheld, c ∈ w.unheld := fun c h1 => hu.mem_iff.mpr (List.mem_cons_of_mem _ h1)
  have new : ∀ a ∈ w.helpers, a._conn ≠ conn := fun a h1 e => h.apart a h1 (e ▸ hc)
  have old_or_new : ∀ a ∈ w'.helpers, a ∈ w.helpers ∨ a = ⟨conn, origin⟩ := fun a h1 => by
    rw [hh] at h1
    rcases List.mem_append.mp h1 with h1 | h1
    · exact Or.inl h1
    · exact Or.inr (List.mem_singleton.mp h1)
  refine ⟨hnd.2, ?_, ?_, fun c h1 => ha ▸ h.made c (hin c h1), ?_⟩
  · intro a h1 hm
    rcases old_or_new a h1 with h1 | rfl
    · exact h.apart a h1 (hin _ hm)
    · exact hnd.1 hm
  · intro a h1 b h2 e
    rcases old_or_new a h1 with h1 | rfl
    · rcases old_or_new b h2 with h2 | rfl
      · exact h.same a h1 b h2 e
      · exact absurd e (new a h1)
    · rcases old_or_new b h2 with h2 | rfl
      · exact absurd e.symm (new b h2)
      · rfl
  · intro a h1
    rw [ha]
    rcases old_or_new a h1 with h1 | rfl
    · exact h.held a h1
    · exact h.made conn hc

theorem Turn.inv {w w' : Users} {e : PoolEvent} (h : Inv w) (ht : Turn w e w')
    (hl : LastHolder w e) : Inv w' := by
  cases ht with
  | stay hu hh ha =>
    refine ⟨hu.nodup_iff.mpr h.distinct, ?_, hh ▸ h.same, ?_, ?_⟩
    · intro a h1 hm
      exact h.apart a (hh ▸ h1) (hu.mem_iff.mp hm)
    · exact fun c hc => ha ▸ h.made c (hu.mem_iff.mp hc)
    · exact fun a h1 => ha ▸ h.held a (hh ▸ h1)
  | opens hp hu hh ha =>
    have hn : w.pool.allocated ∉ w.unheld := fun hm => absurd (h.made _ hm) (Nat.lt_irrefl _)
    refine ⟨hu.nodup_iff.mpr (List.nodup_cons.mpr ⟨hn, h.distinct⟩), ?_, hh ▸ h.same, ?_, ?_⟩
    · intro a h1 hm
      rw [hh] at h1
      rcases List.mem_cons.mp (hu.mem_iff.mp hm) with e | hm
      · exact absurd (h.held a h1) (by omega)
      · exact h.apart a h1 hm
    · intro c hc
      rw [ha]
      rcases List.mem_cons.mp (hu.mem_iff.mp hc) with e | hc
      · omega
      · exact Nat.lt_succ_of_lt (h.made c hc)
    · intro a h1
      rw [ha]
      exact Nat.lt_succ_of_lt (h.held a (hh ▸ h1))
  | hands conn origin hu hh ha => exact h.hands hu hh ha
  | drops conn hu hh ha =>
    have hin : ∀ c ∈ w'.unheld, c ∈ w.unheld := fun c h1 =>
      hu.mem_iff.mpr (List.mem_cons_of_mem _ h1)
    refine ⟨(List.nodup_cons.mp (hu.nodup_iff.mp h.distinct)).2, ?_, hh ▸ h.same, ?_, ?_⟩
    · exact fun a h1 hm => h.apart a (hh ▸ h1) (hin _ hm)
    · exact fun c hc => ha ▸ h.made c (hin c hc)
    · exact fun a h1 => ha ▸ h.held a (hh ▸ h1)
  | copies i d he hd hu hh ha =>
    have hin : ∀ a ∈ w'.helpers, a ∈ w.helpers := fun a h1 => by
      rw [hh] at h1
      rcases List.mem_append.mp h1 with h1 | h1
      · exact h1
      · exact List.mem_singleton.mp h1 ▸ hd
    refine ⟨hu ▸ h.distinct, ?_, ?_, ?_, ?_⟩
    · exact fun a h1 => hu ▸ h.apart a (hin a h1)
    · exact fun a h1 b h2 => h.same a (hin a h1) b (hin b h2)
    · exact fun c hc => ha ▸ h.made c (hu ▸ hc)
    · exact fun a h1 => ha ▸ h.held a (hin a h1)
  | returns i d he hd hu hh ha =>
    rw [he] at hl
    exact h.returns (hh ▸ hl d hd) hu (hh ▸ perm_eraseIdx hd) ha

theorem destroy_not_exclusive {w w' : Users} {e : PoolEvent} (hl : ¬ LastHolder w e)
    (h : w.step e = some w') : ¬ Exclusive w' := by
  obtain ⟨w1, h1, rfl⟩ := Option.map_eq_some_iff.mp h
  cases e with
  | construct delegator => exact absurd trivial hl
  | constructed i r => exact absurd trivial hl
  | copy i => exact absurd trivial hl
  | destroy i =>
    obtain ⟨d, hd, rfl⟩ := Option.map_eq_some_iff.mp h1
    intro hx
    refine hl (fun a ha b hb he => ?_)
    rw [Option.some.inj (ha.symm.trans hd)] at he
    refine hx.free b hb ?_
    show b._conn ∈ w.pool._connPool ++ [d._conn]
    rw [he]
    exact List.mem_append_right _ (List.mem_singleton_self _)

theorem initLoop_spec (rs : List Connected) : ∀ p q : DBPool, p._connPool.Nodup →
    (∀ c ∈ p._connPool, c < p.allocated) → p.initLoop rs = some q →
    q._connPool.Nodup ∧ ∀ c ∈ q._connPool, c < q.allocated := by
  induction rs with
  | nil =>
    intro p q h1 h2 h
    exact Option.some.inj h ▸ ⟨h1, h2⟩
  | cons r rs ih =>
    intro p q h1 h2 h
    cases r with
    | yes =>
      refine ih _ q ?_ ?_ h
      · refine (List.perm_append_singleton _ _).nodup_iff.mpr (List.nodup_cons.mpr ⟨?_, h1⟩)
        exact fun hm => absurd (h2 _ hm) (Nat.lt_irrefl _)
      · intro c hc
        show c < p.allocated + 1
        rcases List.mem_append.mp hc with hc | hc
        · exact Nat.lt_succ_of_lt (h2 c hc)
        · rw [List.mem_singleton.mp hc]
          exact Nat.lt_succ_self _
    | no =>
      exact ih { p with allocated := p.allocated + 1 } q h1
        (fun c hc => Nat.lt_succ_of_lt (h2 c hc)) h
    | throws => cases h

theorem new_inv {rs : List Connected} {p : DBPool} (h : DBPool.init rs = some p) : Inv (new p) := by
  unfold DBPool.init at h
  split at h
  · cases h
  · obtain ⟨h1, h2⟩ := initLoop_spec rs ⟨[], 0⟩ p List.nodup_nil (fun _ hc => by cases hc) h
    have hu : (new p).unheld = p._connPool := List.append_nil _
    refine ⟨hu ▸ h1, fun a ha => ?_, fun a ha => ?_, hu ▸ h2, fun a ha => ?_⟩
    · cases ha
    · cases ha
    · cases ha

end Users

/-- **One user at a time.**  In a run on any pool, no two helpers that were constructed independently
ever hold one connection and no connection is in the pool twice or while a helper holds it, exactly
when each helper that is destroyed is the last one with its connection. -/
theorem exclusive_iff_last (rs : List Connected) (p : DBPool) (hp : DBPool.init rs = some p)
    (es : List PoolEvent) (w : Users) (h : exec Users.step (Users.new p) es = some w) :
    Along Users.step Users.Exclusive (Users.new p) es
      ↔ Guarded Users.step Users.LastHolder (Users.new p) es :=
  along_iff_guarded Users.step (fun _ => Users.Inv.exclusive)
    (fun _ _ _ hi hs hc => (Users.step_turn hs).inv hi hc)
    (fun _ _ _ _ hs hc => Users.destroy_not_exclusive hc hs) es _ w (Users.new_inv hp) h

/-- two helpers at work on a pool of one connection, the second with a copy that it outlives -/
theorem exclusive_iff_last_copied :
    ∃ w, exec Users.step (Users.new ⟨[0], 1⟩)
        [.construct true, .constructed 0 .no, .construct true, .constructed 0 .yes, .copy 1,
          .destroy 0] = some w ∧
      Along Users.step Users.Exclusive (Users.new ⟨[0], 1⟩)
        [.construct true, .constructed 0 .no, .construct true, .constructed 0 .yes, .copy 1,
          .destroy 0] := by
  refine ⟨_, rfl, (exclusive_iff_last [.yes] ⟨[0], 1⟩ rfl _ _ rfl).mpr ?_⟩
  exact guarded_of_guardedBy Users.step (B := fun w e => decide (Users.LastHolder w e))
    (fun _ _ h => of_decide_eq_true h) _ _ (by decide +kernel)

/-- a helper is copied, the two are destroyed, and the next two constructions get one connection -/
theorem copied_helper_shared :
    ¬ ∀ (rs : List Connected) (p : DBPool), DBPool.init rs = some p → ∀ (es : List PoolEvent)
      (w : Users), exec Users.step (Users.new p) es = some w → Users.Exclusive w := by
  intro h
  have hx := h [.yes] ⟨[0], 1⟩ rfl
    [.construct true, .constructed 0 .yes, .copy 0, .destroy 0, .destroy 0, .construct true,
      .constructed 0 .yes, .construct true, .constructed 0 .yes] _ rfl
  exact hx.independent ⟨0, 1⟩ (by decide) ⟨0, 2⟩ (by decide) (by decide) rfl

/-! ## the peak demand -/

namespace Users

/-- the constructor of a helper ends with an exception -/
def throws (w : Users) : PoolEvent → Bool
  | .construct delegator => !delegator
  | .constructed i r => w.constructing[i]?.any fun k => k.opening && r != .yes
  | _ => false

/-- the connections in the pool, held by helpers or being opened -/
def connections (w : Users) : Nat :=
  w.pool._connPool.length + w.helpers.length + w.constructing.length

theorem connections_eq (w : Users) : w.connections = w.unheld.length + w.helpers.length := by
  unfold connections unheld
  rw [List.length_append, List.length_map]
  omega

theorem Turn.connections_le {w w' : Users} {e : PoolEvent} (ht : Turn w e w')
    (hc : e.isCopy = false) : w'.connections ≤ w.connections ∨ w'.connections = w'.demand := by
  rw [w.connections_eq, w'.connections_eq]
  cases ht with
  | stay hu hh ha =>
    rw [hu.length_eq, hh]
    exact Or.inl (Nat.le_refl _)
  | opens hp hu hh ha =>
    right
    rw [← w'.connections_eq]
    unfold connections demand
    rw [hp]
    exact congrArg (· + _) (Nat.zero_add _)
  | hands conn origin hu hh ha =>
    have h1 := hu.length_eq
    rw [hh, List.length_append]
    rw [List.length_cons] at h1
    rw [List.length_singleton]
    omega
  | drops conn hu hh ha =>
    have h1 := hu.length_eq
    rw [List.length_cons] at h1
    rw [hh]
    omega
  | copies i d he hd hu hh ha =>
    rw [he] at hc
    cases hc
  | returns i d he hd hu hh ha =>
    have h1 := hu.length_eq
    have h2 := (perm_eraseIdx hd).length_eq
    rw [List.length_cons] at h1 h2
    rw [hh]
    omega

theorem initLoop_length (rs : List Connected) : ∀ p q : DBPool, p.initLoop rs = some q →
    q._connPool.length = p._connPool.length + rs.count .yes := by
  induction rs with
  | nil =>
    intro p q h
    rw [← Option.some.inj h]
    rfl
  | cons r rs ih =>
    intro p q h
    cases r with
    | yes =>
      rw [ih _ q h, List.length_append, List.length_singleton, List.count_cons_self]
      omega
    | no =>
      rw [ih _ q h, List.count_cons_of_ne (by decide)]
    | throws => cases h

theorem init_length {rs : List Connected} {p : DBPool} (h : DBPool.init rs = some p) :
    p._connPool.length = rs.count .yes := by
  unfold DBPool.init at h
  split at h
  · cases h
  · exact (initLoop_length rs ⟨[], 0⟩ p h).trans (Nat.zero_add _)

theorem step_peak {w w' : Users} {e : PoolEvent} (h : w.step e = some w') :
    w.peak ≤ w'.peak ∧ w'.demand ≤ w'.peak := by
  obtain ⟨w1, h1, rfl⟩ := Option.map_eq_some_iff.mp h
  have hp : w1.peak = w.peak := by
    cases e with
    | construct delegator => cases delegator <;> cases h1 <;> rfl
    | constructed i r =>
      obtain ⟨k, _, rfl⟩ := Option.map_eq_some_iff.mp h1
      split <;> rfl
    | copy i =>
      obtain ⟨d, _, rfl⟩ := Option.map_eq_some_iff.mp h1
      rfl
    | destroy i =>
      obtain ⟨d, _, rfl⟩ := Option.map_eq_some_iff.mp h1
      rfl
  exact ⟨hp ▸ Nat.le_max_left _ _, Nat.le_max_right _ _⟩

theorem construct_opening {w w' : Users} {k : Construction} (h : w.step (.construct true) = some w')
    (hk : w'.constructing.getLast? = some k) (ho : k.opening = true) :
    w'.pool._connPool = w.pool._connPool := by
  cases h
  rw [List.getLast?_concat] at hk
  show w.pool.getConn.1._connPool = _
  cases hp : w.pool._connPool with
  | nil => rw [DBPool.getConn_empty hp]
  | cons conn rest =>
    rw [← Option.some.inj hk, DBPool.getConn_take hp] at ho
    cases ho

theorem throws_pool {w w' : Users} {e : PoolEvent} (h : w.step e = some w')
    (ht : w.throws e = true) : w'.pool = w.pool ∧ w'.helpers = w.helpers := by
  obtain ⟨w1, h1, rfl⟩ := Option.map_eq_some_iff.mp h
  cases e with
  | construct delegator =>
    cases delegator with
    | false =>
      cases h1
      exact ⟨rfl, rfl⟩
    | true => cases ht
  | constructed i r =>
    obtain ⟨k, hk, rfl⟩ := Option.map_eq_some_iff.mp h1
    have ht' : (w.constructing[i]?.any fun k => k.opening && r != .yes) = true := ht
    rw [hk, Option.any_some, Bool.and_eq_true, bne_iff_ne] at ht'
    rw [if_neg]
    · exact ⟨rfl, rfl⟩
    · rintro (h2 | h2)
      · exact absurd (h2.symm.trans ht'.1) (by decide)
      · exact ht'.2 h2
  | copy i => cases ht
  | destroy i => cases ht

end Users

/-- **The pool grows to the peak demand.**  Whatever the connect handler answers, in every run without
copies the connections in the pool, held by helpers or being opened are no more than `init` opened or
helpers were ever alive or under construction at once; and both halves of a constructor that throws
leave the pool as it is. -/
theorem connections_le_peak (rs : List Connected) (p : DBPool) (hp : DBPool.init rs = some p)
    (es : List PoolEvent) (hc : ∀ e ∈ es, e.isCopy = false) (w : Users)
    (h : exec Users.step (Users.new p) es = some w) :
    w.connections ≤ max (rs.count .yes) w.peak ∧
      (∀ w' k, w.step (.construct true) = some w' → w'.constructing.getLast? = some k →
        k.opening = true → w'.pool._connPool = w.pool._connPool) ∧
      ∀ e w', w.step e = some w' → w.throws e = true →
        w'.pool = w.pool ∧ w'.helpers = w.helpers := by
  refine ⟨?_, fun _ _ => Users.construct_opening, fun _ _ => Users.throws_pool⟩
  refine exec_guarded Users.step (C := fun _ e => e.isCopy = false)
    (I := fun w => w.connections ≤ max (rs.count .yes) w.peak) ?_ es (Users.new p) w ?_
    (guarded_of_mem Users.step es (fun e he _ => hc e he) _) h
  · intro a e b ha hne hs
    obtain ⟨h1, h2⟩ := Users.step_peak hs
    rcases (Users.step_turn hs).connections_le hne with h3 | h3
    · omega
    · omega
  · show p._connPool.length ≤ _
    rw [Users.init_length hp]
    exact Nat.le_max_left _ _

/-- two constructors find the pool of one connection empty; the one that fails to open leaves the other
two connections -/
theorem connections_le_peak_three :
    ∃ w, exec Users.step (Users.new ⟨[0], 2⟩)
        [.construct true, .construct true, .construct true, .constructed 1 .no, .constructed 1 .yes,
          .constructed 0 .throws, .destroy 0] = some w ∧
      w.connections = 2 ∧ w.peak = 3 ∧ w.connections ≤ max 1 w.peak :=
  ⟨_, rfl, rfl, rfl, (connections_le_peak [.yes, .no] ⟨[0], 2⟩ rfl
    [.construct true, .construct true, .construct true, .constructed 1 .no, .constructed 1 .yes,
      .constructed 0 .throws, .destroy 0] (by decide) _ rfl).1⟩

end JMEngine.Db
