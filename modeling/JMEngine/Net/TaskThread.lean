import JMEngine.Lib.Runs
import Mathlib.Data.List.Nodup

/-!
# A thread that runs what is posted to it (include/net/JME_Core.h, source/net/JME_Core.cpp)

`JME_TaskThread::post` puts a function into the queue of the thread and waits until the thread has run
it. Any number of threads post at the same time; the functions that the thread runs may post too, to
the thread on which they run.

* `Body`                       what a posted function does;
* `TaskThread.advance`, `work` the next step of a thread inside `post`, and of the thread itself;
* `TaskThread.Change`          everything that a step can do;
* `TaskThread.Inv`             who holds the lock, what is in the queue, whose future is set, and who
                               will wake the thread;
* `TaskThread.exec_inv`        it holds in every run.
-/

set_option linter.unusedSectionVars false

namespace JMEngine.Net
open Runs

/-- a function given to `post`: it returns, or posts another one to the same thread and goes on with
what that post returns -/
inductive Body (R : Type) where
  | done (r : R)
  | post (f : Body R) (k : R → Body R)

namespace Body
variable {R : Type}

/-- the value of the function when every post in it returns the value of its own function -/
def value : Body R → R
  | done r => r
  | post f k => value (k (value f))

/-- it does not post to the thread on which it is run -/
def flat : Body R → Bool
  | done _ => true
  | post _ _ => false

end Body

/-- where a thread is in the code of `post` -/
inductive Place (R : Type) where
  | locking
  | locked
  | notifying
  | getting
  | returned (r : R)

def Place.posted {R : Type} : Place R → Bool
  | locking | locked => false
  | notifying | getting | returned _ => true

/-- a call of `post`, with the future of its `packaged_task` -/
structure PostCall (R : Type) where
  body : Body R
  place : Place R
  future : Option R

/-- where the thread itself is: at the head of its loop, before the lock, in `wait` with the lock,
asleep on the condition, woken but without the lock, in a task, or in a `post` of a task -/
inductive Worker (R : Type) where
  | top
  | locking
  | checking
  | waiting
  | woken
  | running (id : Nat) (b : Body R)
  | calling (id : Nat) (k : R → Body R) (inner : Nat)
  | ended

def Worker.task {R : Type} : Worker R → Option Nat
  | running id _ => some id
  | calling id _ _ => some id
  | _ => none

inductive Holder where
  | worker
  | call (id : Nat)
  deriving DecidableEq, Repr

/-- the posts are numbered as they begin; `pushed` and `begun` are the histories of the queue -/
structure TaskThread (R : Type) where
  _stop : Bool
  _tasks : List Nat
  _mutex : Option Holder
  worker : Worker R
  calls : List (PostCall R)
  pushed : List Nat
  begun : List Nat

inductive TaskEvent (R : Type) where
  /-- a thread outside calls `post` -/
  | call (f : Body R)
  /-- the next step of the thread in the post `id` -/
  | advance (id : Nat)
  /-- the next step of the thread itself -/
  | work
  /-- the thread wakes up without having been notified -/
  | spurious

namespace TaskThread

section
variable {R : Type}

def new : TaskThread R := ⟨false, [], none, .top, [], [], []⟩

def setCall (s : TaskThread R) (id : Nat) (c : PostCall R) : TaskThread R :=
  { s with calls := s.calls.set id c }

/-- `notify_one`: only the thread itself waits on the condition -/
def notified : Worker R → Worker R
  | .waiting => .woken
  | w => w

/-- the worker goes on when the post that it is in returns -/
def resumed (id : Nat) (r : R) : Worker R → Worker R
  | .calling t k inner => if inner = id then .running t (k r) else .calling t k inner
  | w => w

/-- the next step inside the post `id` -/
def advance (s : TaskThread R) (id : Nat) : Option (TaskThread R) :=
  match s.calls[id]? with
  | none => none
  | some c =>
    match c.place with
    | .locking =>
      if s._mutex = none then
        some { s.setCall id { c with place := .locked } with _mutex := some (.call id) }
      else none
    | .locked =>
      let s' := { s.setCall id { c with place := .notifying } with _mutex := none }
      if !s._stop then
        some { s' with _tasks := s._tasks ++ [id], pushed := s.pushed ++ [id] }
      else some s'
    | .notifying =>
      some { s.setCall id { c with place := .getting } with worker := notified s.worker }
    | .getting =>
      c.future.map fun r =>
        { s.setCall id { c with place := .returned r } with worker := resumed id r s.worker }
    | .returned _ => none

/-- the lock is taken, to see whether there is something to do -/
def acquire (s : TaskThread R) : Option (TaskThread R) :=
  if s._mutex = none then some { s with _mutex := some .worker, worker := .checking } else none

def work (s : TaskThread R) : Option (TaskThread R) :=
  match s.worker with
  | .top => some { s with worker := if s._stop then .ended else .locking }
  | .locking => s.acquire
  | .woken => s.acquire
  | .checking =>
    match s._tasks with
    | [] =>
      if s._stop then some { s with _mutex := none, worker := .ended }
      else some { s with _mutex := none, worker := .waiting }
    | id :: rest =>
      (s.calls[id]?).map fun c =>
        { s with
          _tasks := rest
          _mutex := none
          worker := .running id c.body
          begun := s.begun ++ [id] }
  | .running id (.done r) =>
    (s.calls[id]?).map fun c => { s.setCall id { c with future := some r } with worker := .top }
  | .running id (.post f k) =>
    some { s with
      calls := s.calls ++ [⟨f, .locking, none⟩]
      worker := .calling id k s.calls.length }
  | .waiting => none
  | .calling _ _ _ => none
  | .ended => none

def step (s : TaskThread R) : TaskEvent R → Option (TaskThread R)
  | .call f => some { s with calls := s.calls ++ [⟨f, .locking, none⟩] }
  | .advance id => s.advance id
  | .work => s.work
  | .spurious =>
    match s.worker with
    | .waiting => some { s with worker := .woken }
    | _ => none

/-! ## What a step does -/

/-- everything that a step can do while `_stop` is not set -/
inductive Change (s : TaskThread R) : TaskEvent R → TaskThread R → Prop
  | call (f : Body R) : Change s (.call f) { s with calls := s.calls ++ [⟨f, .locking, none⟩] }
  | spurious (hw : s.worker = .waiting) : Change s .spurious { s with worker := .woken }
  | lock {id : Nat} {c : PostCall R} (hc : s.calls[id]? = some c) (hp : c.place = .locking)
      (hm : s._mutex = none) :
      Change s (.advance id)
        { s.setCall id { c with place := .locked } with _mutex := some (.call id) }
  | push {id : Nat} {c : PostCall R} (hc : s.calls[id]? = some c) (hp : c.place = .locked) :
      Change s (.advance id)
        { s.setCall id { c with place := .notifying } with
          _mutex := none, _tasks := s._tasks ++ [id], pushed := s.pushed ++ [id] }
  | notify {id : Nat} {c : PostCall R} (hc : s.calls[id]? = some c) (hp : c.place = .notifying) :
      Change s (.advance id)
        { s.setCall id { c with place := .getting } with worker := notified s.worker }
  | get {id : Nat} {c : PostCall R} {r : R} (hc : s.calls[id]? = some c) (hp : c.place = .getting)
      (hf : c.future = some r) :
      Change s (.advance id)
        { s.setCall id { c with place := .returned r } with worker := resumed id r s.worker }
  | begin (hw : s.worker = .top) : Change s .work { s with worker := .locking }
  | acquire (hw : s.worker = .locking ∨ s.worker = .woken) (hm : s._mutex = none) :
      Change s .work { s with _mutex := some .worker, worker := .checking }
  | sleep (hw : s.worker = .checking) (ht : s._tasks = []) :
      Change s .work { s with _mutex := none, worker := .waiting }
  | take {id : Nat} {rest : List Nat} {c : PostCall R} (hw : s.worker = .checking)
      (ht : s._tasks = id :: rest) (hc : s.calls[id]? = some c) :
      Change s .work
        { s with
          _tasks := rest, _mutex := none, worker := .running id c.body, begun := s.begun ++ [id] }
  | finish {id : Nat} {r : R} {c : PostCall R} (hw : s.worker = .running id (.done r))
      (hc : s.calls[id]? = some c) :
      Change s .work { s.setCall id { c with future := some r } with worker := .top }
  | nest {id : Nat} {f : Body R} {k : R → Body R} (hw : s.worker = .running id (.post f k)) :
      Change s .work
        { s with
          calls := s.calls ++ [⟨f, .locking, none⟩], worker := .calling id k s.calls.length }

variable {s s' : TaskThread R} {e : TaskEvent R}

theorem advance_change {id : Nat} (hst : s._stop = false) (h : s.advance id = some s') :
    Change s (.advance id) s' := by
  unfold advance at h
  split at h
  · cases h
  · next c hc =>
    split at h
    · next hp =>
      split at h
      · next hm => exact Option.some.inj h ▸ .lock hc hp hm
      · cases h
    · next hp =>
      rw [hst] at h
      exact Option.some.inj h ▸ .push hc hp
    · next hp => exact Option.some.inj h ▸ .notify hc hp
    · next hp =>
      obtain ⟨r, hf, rfl⟩ := Option.map_eq_some_iff.mp h
      exact .get hc hp hf
    · cases h

theorem work_change (hst : s._stop = false) (h : s.work = some s') : Change s .work s' := by
  have hns : ¬s._stop = true := by rw [hst]; exact Bool.false_ne_true
  unfold work at h
  split at h
  · next hw =>
    rw [if_neg hns] at h
    exact Option.some.inj h ▸ .begin hw
  · next hw =>
    unfold acquire at h
    split at h
    · next hm => exact Option.some.inj h ▸ .acquire (.inl hw) hm
    · cases h
  · next hw =>
    unfold acquire at h
    split at h
    · next hm => exact Option.some.inj h ▸ .acquire (.inr hw) hm
    · cases h
  · next hw =>
    split at h
    · next ht =>
      rw [if_neg hns] at h
      exact Option.some.inj h ▸ .sleep hw ht
    · next id rest ht =>
      obtain ⟨c, hc, rfl⟩ := Option.map_eq_some_iff.mp h
      exact .take hw ht hc
  · next hw =>
    obtain ⟨c, hc, rfl⟩ := Option.map_eq_some_iff.mp h
    exact .finish hw hc
  · next hw => exact Option.some.inj h ▸ .nest hw
  · cases h
  · cases h
  · cases h

theorem step_change (hst : s._stop = false) (h : s.step e = some s') : Change s e s' := by
  cases e with
  | call f => exact Option.some.inj h ▸ .call f
  | advance id => exact advance_change hst h
  | work => exact work_change hst h
  | spurious =>
    unfold step at h
    dsimp only at h
    split at h
    · next hw => exact Option.some.inj h ▸ .spurious hw
    · cases h

/-! ## The invariant -/

/-- one post: it holds the lock while it is at `locked`, it is in the history of the queue from then
on, its future is set once its task was run, and it returns what the future has -/
structure Sound (s : TaskThread R) (id : Nat) (c : PostCall R) : Prop where
  holds : s._mutex = some (.call id) ↔ c.place = .locked
  pushed : id ∈ s.pushed ↔ c.place.posted = true
  future : c.future.isSome = true ↔ id ∈ s.begun ∧ s.worker.task ≠ some id
  value : ∀ r, c.future = some r → r = c.body.value
  returned : ∀ r, c.place = .returned r → c.future = some r

/-- what the thread is in is what is left of the task that it took last -/
def Current (s : TaskThread R) : Worker R → Prop
  | .running id b => id ∈ s.begun ∧ ∃ c, s.calls[id]? = some c ∧ b.value = c.body.value
  | .calling id k inner => id ∈ s.begun ∧ inner ∉ s.begun ∧ ∃ c ci, s.calls[id]? = some c ∧
      s.calls[inner]? = some ci ∧ (k ci.body.value).value = c.body.value
  | .ended => False
  | _ => True

structure Inv (s : TaskThread R) : Prop where
  stop : s._stop = false
  holds : s._mutex = some .worker ↔ s.worker = .checking
  holder : ∀ id, s._mutex = some (.call id) → id < s.calls.length
  order : s.pushed = s.begun ++ s._tasks
  nodup : s.pushed.Nodup
  bound : ∀ id ∈ s.pushed, id < s.calls.length
  sound : ∀ id c, s.calls[id]? = some c → Sound s id c
  current : Current s s.worker
  /-- no wakeup is lost: whoever put a task into the queue of a sleeping thread will notify it -/
  awake : s.worker = .waiting → s._tasks ≠ [] →
    ∃ (id : Nat) (c : PostCall R), s.calls[id]? = some c ∧ c.place = .notifying

theorem new_inv : Inv (new : TaskThread R) where
  stop := rfl
  holds := ⟨nofun, nofun⟩
  holder := nofun
  order := rfl
  nodup := List.nodup_nil
  bound := nofun
  sound := nofun
  current := trivial
  awake := nofun

section
variable {t : TaskThread R}

theorem sound_set {id : Nat} {c c' : PostCall R} (hc : s.calls[id]? = some c)
    (ht : t.calls = s.calls.set id c') (hnew : Sound t id c')
    (hold : ∀ j cj, j ≠ id → s.calls[j]? = some cj → Sound t j cj) :
    ∀ j cj, t.calls[j]? = some cj → Sound t j cj := by
  intro j cj hj
  rw [ht] at hj
  by_cases e : j = id
  · subst e
    rw [List.getElem?_set_self (List.getElem?_eq_some_iff.mp hc).1] at hj
    exact Option.some.inj hj ▸ hnew
  · rw [List.getElem?_set_ne (Ne.symm e)] at hj
    exact hold j cj e hj

theorem getElem?_concat_cases {α : Type} {l : List α} {a b : α} {j : Nat}
    (h : (l ++ [a])[j]? = some b) : l[j]? = some b ∨ j = l.length ∧ b = a := by
  by_cases e : j < l.length
  · rw [List.getElem?_append_left e] at h
    exact .inl h
  · have hl := (List.getElem?_eq_some_iff.mp h).1
    rw [List.length_append, List.length_singleton] at hl
    have ej : j = l.length := by omega
    subst ej
    rw [List.getElem?_concat_length] at h
    exact .inr ⟨rfl, (Option.some.inj h).symm⟩

theorem sound_append {c' : PostCall R} (ht : t.calls = s.calls ++ [c'])
    (hnew : Sound t s.calls.length c')
    (hold : ∀ j cj, s.calls[j]? = some cj → Sound t j cj) :
    ∀ j cj, t.calls[j]? = some cj → Sound t j cj := by
  intro j cj hj
  rw [ht] at hj
  rcases getElem?_concat_cases hj with hj | ⟨rfl, rfl⟩
  · exact hold j cj hj
  · exact hnew

theorem Current.mono {w : Worker R} (h : Current s w) (hb : t.begun = s.begun)
    (hc : ∀ (id : Nat) (c : PostCall R), s.calls[id]? = some c →
      ∃ c' : PostCall R, t.calls[id]? = some c' ∧ c'.body = c.body) :
    Current t w := by
  cases w with
  | running id b =>
    obtain ⟨h1, c, h2, h3⟩ := h
    obtain ⟨c', h4, h5⟩ := hc id c h2
    exact ⟨hb ▸ h1, c', h4, h5 ▸ h3⟩
  | calling id k inner =>
    obtain ⟨h1, h2, c, ci, h3, h4, h5⟩ := h
    obtain ⟨c', h6, h7⟩ := hc id c h3
    obtain ⟨ci', h8, h9⟩ := hc inner ci h4
    exact ⟨hb ▸ h1, hb ▸ h2, c', ci', h6, h8, by rw [h9, h7]; exact h5⟩
  | ended => exact h.elim
  | _ => exact trivial

theorem bodies_set {id : Nat} {c c' : PostCall R} (hc : s.calls[id]? = some c)
    (ht : t.calls = s.calls.set id c') (hb : c'.body = c.body) :
    ∀ (j : Nat) (cj : PostCall R), s.calls[j]? = some cj →
      ∃ cj' : PostCall R, t.calls[j]? = some cj' ∧ cj'.body = cj.body := by
  intro j cj hj
  rw [ht]
  by_cases e : j = id
  · subst e
    rw [hc] at hj
    cases hj
    exact ⟨c', List.getElem?_set_self (List.getElem?_eq_some_iff.mp hc).1, hb⟩
  · exact ⟨cj, by rw [List.getElem?_set_ne (Ne.symm e)]; exact hj, rfl⟩

theorem notifying_set {id : Nat} {c c' : PostCall R} (hc : s.calls[id]? = some c)
    (hp : c.place ≠ .notifying) (ht : t.calls = s.calls.set id c')
    (hn : ∃ (j : Nat) (cj : PostCall R), s.calls[j]? = some cj ∧ cj.place = .notifying) :
    ∃ (j : Nat) (cj : PostCall R), t.calls[j]? = some cj ∧ cj.place = .notifying := by
  obtain ⟨j, cj, hj, hn⟩ := hn
  have hne : j ≠ id := by
    rintro rfl
    rw [hc] at hj
    cases hj
    exact hp hn
  exact ⟨j, cj, by rw [ht, List.getElem?_set_ne (Ne.symm hne)]; exact hj, hn⟩

theorem bodies_append {c' : PostCall R} (ht : t.calls = s.calls ++ [c']) :
    ∀ (j : Nat) (cj : PostCall R), s.calls[j]? = some cj →
      ∃ cj' : PostCall R, t.calls[j]? = some cj' ∧ cj'.body = cj.body := by
  intro j cj hj
  rw [ht]
  exact ⟨cj, by rw [List.getElem?_append_left (List.getElem?_eq_some_iff.mp hj).1]; exact hj, rfl⟩

end

theorem task_notified (w : Worker R) : (notified w).task = w.task := by
  cases w <;> rfl

section
variable (h : Inv s)
include h

theorem Inv.call (f : Body R) : Inv { s with calls := s.calls ++ [⟨f, .locking, none⟩] } where
  stop := h.stop
  holds := h.holds
  holder id hm := by
    rw [List.length_append]
    exact Nat.lt_add_right _ (h.holder id hm)
  order := h.order
  nodup := h.nodup
  bound id hm := by
    rw [List.length_append]
    exact Nat.lt_add_right _ (h.bound id hm)
  sound := by
    refine sound_append (s := s) rfl ?_ fun j cj hj => ?_
    · have hn : s.calls.length ∉ s.pushed := fun hm => absurd (h.bound _ hm) (Nat.lt_irrefl _)
      refine ⟨⟨fun hm => absurd (h.holder _ hm) (Nat.lt_irrefl _), nofun⟩,
        ⟨fun hm => absurd hm hn, nofun⟩, ⟨nofun, fun hb => absurd ?_ hn⟩, nofun, nofun⟩
      rw [h.order]
      exact List.mem_append_left _ hb.1
    · obtain ⟨h1, h2, h3, h4, h5⟩ := h.sound j cj hj
      exact ⟨h1, h2, h3, h4, h5⟩
  current := h.current.mono rfl (bodies_append rfl)
  awake hw ht := by
    obtain ⟨id, c, hc, hp⟩ := h.awake hw ht
    exact ⟨id, c, by rw [List.getElem?_append_left (List.getElem?_eq_some_iff.mp hc).1]; exact hc, hp⟩

theorem Inv.setWorker {w : Worker R} (hch : w = .checking ↔ s.worker = .checking)
    (htask : w.task = s.worker.task) (hcur : Current s w) (hwait : w ≠ .waiting) :
    Inv { s with worker := w } where
  stop := h.stop
  holds := h.holds.trans hch.symm
  holder := h.holder
  order := h.order
  nodup := h.nodup
  bound := h.bound
  sound j cj hj := by
    obtain ⟨h1, h2, h3, h4, h5⟩ := h.sound j cj hj
    exact ⟨h1, h2, htask ▸ h3, h4, h5⟩
  current := hcur.mono rfl fun _ c hc => ⟨c, hc, rfl⟩
  awake hw := absurd hw hwait

theorem Inv.lock {id : Nat} {c : PostCall R} (hc : s.calls[id]? = some c) (hp : c.place = .locking)
    (hm : s._mutex = none) :
    Inv { s.setCall id { c with place := .locked } with _mutex := some (.call id) } where
  stop := h.stop
  holds := ⟨nofun, fun hw => by rw [h.holds.mpr hw] at hm; cases hm⟩
  holder j hj := by
    cases hj
    show id < (s.calls.set id _).length
    rw [List.length_set]
    exact (List.getElem?_eq_some_iff.mp hc).1
  order := h.order
  nodup := h.nodup
  bound j hj := by
    show j < (s.calls.set id _).length
    rw [List.length_set]
    exact h.bound j hj
  sound := by
    refine sound_set hc rfl ?_ fun j cj hne hj => ?_
    · obtain ⟨_, h2, h3, h4, h5⟩ := h.sound id c hc
      rw [hp] at h2
      exact ⟨⟨fun _ => rfl, fun _ => rfl⟩, h2, h3, h4, nofun⟩
    · obtain ⟨h1, h2, h3, h4, h5⟩ := h.sound j cj hj
      refine ⟨⟨fun e => ?_, fun e => ?_⟩, h2, h3, h4, h5⟩
      · cases e
        exact absurd rfl hne
      · rw [h1.mpr e] at hm
        cases hm
  current := h.current.mono rfl (bodies_set hc rfl rfl)
  awake hw ht := notifying_set hc (by rw [hp]; exact nofun) rfl (h.awake hw ht)

theorem Inv.push {id : Nat} {c : PostCall R} (hc : s.calls[id]? = some c) (hp : c.place = .locked) :
    Inv { s.setCall id { c with place := .notifying } with
      _mutex := none, _tasks := s._tasks ++ [id], pushed := s.pushed ++ [id] } := by
  have hs := h.sound id c hc
  have hm := hs.holds.mpr hp
  have hn : id ∉ s.pushed := fun hi => by
    have := hs.pushed.mp hi
    rw [hp] at this
    cases this
  have hlt := (List.getElem?_eq_some_iff.mp hc).1
  exact {
    stop := h.stop
    holds := ⟨nofun, fun hw => by rw [h.holds.mpr hw] at hm; cases hm⟩
    holder := nofun
    order := by
      show s.pushed ++ [id] = s.begun ++ (s._tasks ++ [id])
      rw [h.order, List.append_assoc]
    nodup := List.nodup_append.mpr ⟨h.nodup, List.nodup_singleton id, fun a ha b hb e => by
      rw [List.mem_singleton.mp hb] at e
      exact hn (e ▸ ha)⟩
    bound := fun j hj => by
      show j < (s.calls.set id _).length
      rw [List.length_set]
      rcases List.mem_append.mp hj with hj | hj
      · exact h.bound j hj
      · rw [List.mem_singleton.mp hj]
        exact hlt
    sound := by
      refine sound_set hc rfl ?_ fun j cj hne hj => ?_
      · exact ⟨⟨nofun, nofun⟩, ⟨fun _ => rfl, fun _ => List.mem_append_right _ List.mem_cons_self⟩,
          hs.future, hs.value, nofun⟩
      · obtain ⟨h1, h2, h3, h4, h5⟩ := h.sound j cj hj
        refine ⟨⟨nofun, fun e => ?_⟩, ?_, h3, h4, h5⟩
        · have := h1.mpr e
          rw [hm] at this
          cases this
          exact absurd rfl hne
        · rw [← h2]
          show j ∈ s.pushed ++ [id] ↔ j ∈ s.pushed
          rw [List.mem_append, List.mem_singleton]
          exact ⟨fun h => h.resolve_right hne, .inl⟩
    current := h.current.mono rfl (bodies_set hc rfl rfl)
    awake := fun _ _ => ⟨id, _, List.getElem?_set_self hlt, rfl⟩ }

theorem Inv.notify {id : Nat} {c : PostCall R} (hc : s.calls[id]? = some c)
    (hp : c.place = .notifying) :
    Inv { s.setCall id { c with place := .getting } with worker := notified s.worker } where
  stop := h.stop
  holds := by
    refine h.holds.trans ?_
    show s.worker = .checking ↔ notified s.worker = .checking
    cases s.worker <;> first | exact Iff.rfl | exact ⟨nofun, nofun⟩
  holder j hj := by
    show j < (s.calls.set id _).length
    rw [List.length_set]
    exact h.holder j hj
  order := h.order
  nodup := h.nodup
  bound j hj := by
    show j < (s.calls.set id _).length
    rw [List.length_set]
    exact h.bound j hj
  sound := by
    refine sound_set hc rfl ?_ fun j cj hne hj => ?_
    · obtain ⟨h1, h2, h3, h4, h5⟩ := h.sound id c hc
      rw [hp] at h1 h2
      exact ⟨⟨fun e => (nomatch h1.mp e), nofun⟩, h2, (task_notified s.worker).symm ▸ h3, h4, nofun⟩
    · obtain ⟨h1, h2, h3, h4, h5⟩ := h.sound j cj hj
      exact ⟨h1, h2, (task_notified s.worker).symm ▸ h3, h4, h5⟩
  current := by
    have hcur : Current s (notified s.worker) := by
      have := h.current
      cases hw : s.worker <;> rw [hw] at this <;> exact this
    exact hcur.mono rfl (bodies_set hc rfl rfl)
  awake hw := by
    have : ∀ w : Worker R, notified w ≠ .waiting := by
      intro w
      cases w <;> exact nofun
    exact absurd hw (this _)

/-- the future of a post from within a task is not set while the thread waits for it -/
theorem Inv.resumed_eq {id : Nat} {c : PostCall R} {r : R} (hc : s.calls[id]? = some c)
    (hf : c.future = some r) : resumed id r s.worker = s.worker := by
  have hb : id ∈ s.begun := ((h.sound id c hc).future.mp (by rw [hf]; rfl)).1
  have hcur := h.current
  cases hw : s.worker with
  | calling t k inner =>
    rw [hw] at hcur
    have hne : inner ≠ id := fun e => hcur.2.1 (e ▸ hb)
    exact if_neg hne
  | _ => rfl

theorem Inv.get {id : Nat} {c : PostCall R} {r : R} (hc : s.calls[id]? = some c)
    (hp : c.place = .getting) (hf : c.future = some r) :
    Inv { s.setCall id { c with place := .returned r } with worker := resumed id r s.worker } := by
  rw [h.resumed_eq hc hf]
  exact {
    stop := h.stop
    holds := h.holds
    holder := fun j hj => by
      show j < (s.calls.set id _).length
      rw [List.length_set]
      exact h.holder j hj
    order := h.order
    nodup := h.nodup
    bound := fun j hj => by
      show j < (s.calls.set id _).length
      rw [List.length_set]
      exact h.bound j hj
    sound := by
      refine sound_set hc rfl ?_ fun j cj hne hj => ?_
      · obtain ⟨h1, h2, h3, h4, h5⟩ := h.sound id c hc
        rw [hp] at h1 h2
        exact ⟨⟨fun e => (nomatch h1.mp e), nofun⟩, h2, h3, h4, fun r' e => by cases e; exact hf⟩
      · obtain ⟨h1, h2, h3, h4, h5⟩ := h.sound j cj hj
        exact ⟨h1, h2, h3, h4, h5⟩
    current := h.current.mono rfl (bodies_set hc rfl rfl)
    awake := fun hw ht => notifying_set hc (by rw [hp]; exact nofun) rfl (h.awake hw ht) }

theorem Inv.acquire (hw : s.worker = .locking ∨ s.worker = .woken) (hm : s._mutex = none) :
    Inv { s with _mutex := some .worker, worker := .checking } where
  stop := h.stop
  holds := ⟨fun _ => rfl, fun _ => rfl⟩
  holder := nofun
  order := h.order
  nodup := h.nodup
  bound := h.bound
  sound j cj hj := by
    obtain ⟨h1, h2, h3, h4, h5⟩ := h.sound j cj hj
    have ht : s.worker.task = none := by rcases hw with hw | hw <;> rw [hw] <;> rfl
    rw [ht] at h3
    exact ⟨⟨nofun, fun e => by rw [h1.mpr e] at hm; cases hm⟩, h2, h3, h4, h5⟩
  current := trivial
  awake := nofun

theorem Inv.sleep (hw : s.worker = .checking) (ht : s._tasks = []) :
    Inv { s with _mutex := none, worker := .waiting } where
  stop := h.stop
  holds := ⟨nofun, nofun⟩
  holder := nofun
  order := h.order
  nodup := h.nodup
  bound := h.bound
  sound j cj hj := by
    obtain ⟨h1, h2, h3, h4, h5⟩ := h.sound j cj hj
    rw [hw] at h3
    refine ⟨⟨nofun, fun e => ?_⟩, h2, h3, h4, h5⟩
    have := h1.mpr e
    rw [h.holds.mpr hw] at this
    cases this
  current := trivial
  awake _ hne := absurd ht hne

theorem Inv.take {id : Nat} {rest : List Nat} {c : PostCall R} (hw : s.worker = .checking)
    (ht : s._tasks = id :: rest) (hc : s.calls[id]? = some c) :
    Inv { s with
      _tasks := rest, _mutex := none, worker := .running id c.body, begun := s.begun ++ [id] } := by
  have hord := h.order
  rw [ht] at hord
  have hnb : id ∉ s.begun := by
    have hnd := h.nodup
    rw [hord] at hnd
    exact fun hm => (List.nodup_append.mp hnd).2.2 id hm id List.mem_cons_self rfl
  exact {
    stop := h.stop
    holds := ⟨nofun, nofun⟩
    holder := nofun
    order := by
      show s.pushed = s.begun ++ [id] ++ rest
      rw [hord, List.append_assoc]
      rfl
    nodup := h.nodup
    bound := h.bound
    sound := fun j cj hj => by
      obtain ⟨h1, h2, h3, h4, h5⟩ := h.sound j cj hj
      rw [hw] at h3
      refine ⟨⟨nofun, fun e => ?_⟩, h2, ?_, h4, h5⟩
      · have := h1.mpr e
        rw [h.holds.mpr hw] at this
        cases this
      · rw [h3]
        show j ∈ s.begun ∧ (none : Option Nat) ≠ some j ↔ j ∈ s.begun ++ [id] ∧ some id ≠ some j
        rw [List.mem_append, List.mem_singleton]
        constructor
        · rintro ⟨hm, _⟩
          exact ⟨.inl hm, fun e => hnb (Option.some.inj e ▸ hm)⟩
        · rintro ⟨hm, hne⟩
          exact ⟨hm.resolve_right fun e => hne (congrArg some e.symm), nofun⟩
    current := ⟨List.mem_append_right _ List.mem_cons_self, c, hc, rfl⟩
    awake := nofun }

theorem Inv.finish {id : Nat} {r : R} {c : PostCall R} (hw : s.worker = .running id (.done r))
    (hc : s.calls[id]? = some c) :
    Inv { s.setCall id { c with future := some r } with worker := .top } := by
  have hcur := h.current
  rw [hw] at hcur
  obtain ⟨hb, c', hc', hv⟩ := hcur
  rw [hc] at hc'
  cases hc'
  exact {
    stop := h.stop
    holds := ⟨fun e => absurd (hw.symm.trans (h.holds.mp e)) nofun, nofun⟩
    holder := fun j hj => by
      show j < (s.calls.set id _).length
      rw [List.length_set]
      exact h.holder j hj
    order := h.order
    nodup := h.nodup
    bound := fun j hj => by
      show j < (s.calls.set id _).length
      rw [List.length_set]
      exact h.bound j hj
    sound := by
      refine sound_set hc rfl ?_ fun j cj hne hj => ?_
      · obtain ⟨h1, h2, h3, h4, h5⟩ := h.sound id c hc
        refine ⟨h1, h2, ⟨fun _ => ⟨hb, nofun⟩, fun _ => rfl⟩, fun r' e => ?_, fun r' e => ?_⟩
        · cases e
          exact hv
        · have := h3.mp (by rw [h5 r' e]; rfl)
          rw [hw] at this
          exact absurd rfl this.2
      · obtain ⟨h1, h2, h3, h4, h5⟩ := h.sound j cj hj
        rw [hw] at h3
        exact ⟨h1, h2, ⟨fun e => ⟨(h3.mp e).1, nofun⟩,
          fun e => h3.mpr ⟨e.1, fun e' => hne (Option.some.inj e').symm⟩⟩, h4, h5⟩
    current := trivial
    awake := nofun }

theorem Inv.nest {id : Nat} {f : Body R} {k : R → Body R} (hw : s.worker = .running id (.post f k)) :
    Inv { s with
      calls := s.calls ++ [⟨f, .locking, none⟩], worker := .calling id k s.calls.length } := by
  have hcur := h.current
  rw [hw] at hcur
  obtain ⟨hb, c, hc, hv⟩ := hcur
  refine (h.call f).setWorker (w := .calling id k s.calls.length) ?_ ?_ ?_ nofun
  · show _ ↔ s.worker = .checking
    rw [hw]
    exact ⟨nofun, nofun⟩
  · show some id = s.worker.task
    rw [hw]
    rfl
  · refine ⟨hb, fun hm => ?_, c, ⟨f, .locking, none⟩, ?_, List.getElem?_concat_length, hv⟩
    · have : s.calls.length ∈ s.pushed := by
        rw [h.order]
        exact List.mem_append_left _ hm
      exact absurd (h.bound _ this) (Nat.lt_irrefl _)
    · show (s.calls ++ _)[id]? = _
      rw [List.getElem?_append_left (List.getElem?_eq_some_iff.mp hc).1]
      exact hc

theorem Inv.change (hs : Change s e s') : Inv s' := by
  cases hs with
  | call f => exact h.call f
  | spurious hw =>
    refine h.setWorker ?_ ?_ trivial nofun
    · rw [hw]
      exact ⟨nofun, nofun⟩
    · rw [hw]
      rfl
  | lock hc hp hm => exact h.lock hc hp hm
  | push hc hp => exact h.push hc hp
  | notify hc hp => exact h.notify hc hp
  | get hc hp hf => exact h.get hc hp hf
  | begin hw =>
    refine h.setWorker ?_ ?_ trivial nofun
    · rw [hw]
      exact ⟨nofun, nofun⟩
    · rw [hw]
      rfl
  | acquire hw hm => exact h.acquire hw hm
  | sleep hw ht => exact h.sleep hw ht
  | take hw ht hc => exact h.take hw ht hc
  | finish hw hc => exact h.finish hw hc
  | nest hw => exact h.nest hw

end

theorem exec_inv {es : List (TaskEvent R)} (h : exec step new es = some s) : Inv s :=
  exec_invariant step (fun _ _ _ hI hs => hI.change (step_change hI.stop hs)) es new s new_inv h

end

end TaskThread

end JMEngine.Net
