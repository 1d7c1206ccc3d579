import JMEngine.Net.TaskThread

/-!
# What posting to a task thread comes to

* `posts_in_order`             functions are run in the order of their posts, one at a time, and a post
                               returns the value of its own function;
* `TaskThread.potential`       the steps that are left, if nobody posts any more;
* `posts_return`               **all posts return, in every order of steps**;
* `nested_post_blocks`         but a function that posts to its own thread stops the thread for good.
-/

set_option linter.unusedSectionVars false

namespace JMEngine.Net
open Runs

namespace TaskThread

section
variable {R : Type}

/-! ## Steps that are left -/

/-- the steps of a post and those that it gives to the thread -/
def cost : Place R → Nat
  | .locking => 10
  | .locked => 9
  | .notifying => 4
  | .getting => 1
  | .returned _ => 0

def workerCost : Worker R → Nat
  | .running _ _ => 4
  | .top => 3
  | .locking => 2
  | .woken => 2
  | .checking => 1
  | .waiting => 0
  | .calling _ _ _ => 0
  | .ended => 0

def debt : List (PostCall R) → Nat
  | [] => 0
  | c :: calls => cost c.place + debt calls

def potential (s : TaskThread R) : Nat := debt s.calls + workerCost s.worker + 4 * s._tasks.length

theorem debt_append (calls : List (PostCall R)) (c : PostCall R) :
    debt (calls ++ [c]) = debt calls + cost c.place := by
  induction calls with
  | nil => exact Nat.add_comm _ _
  | cons d calls ih =>
    rw [List.cons_append, debt, debt, ih, Nat.add_assoc]

theorem debt_set {calls : List (PostCall R)} {id : Nat} {c : PostCall R} (hc : calls[id]? = some c)
    (c' : PostCall R) : debt (calls.set id c') + cost c.place = debt calls + cost c'.place := by
  induction calls generalizing id with
  | nil => cases hc
  | cons d calls ih =>
    cases id with
    | zero =>
      have e : d = c := Option.some.inj hc
      subst e
      rw [List.set_cons_zero, debt, debt]
      omega
    | succ id =>
      have := ih (show calls[id]? = some c from hc)
      rw [List.set_cons_succ, debt, debt]
      omega

theorem workerCost_notified (w : Worker R) : workerCost (notified w) ≤ workerCost w + 2 := by
  cases w with
  | waiting => exact Nat.le_refl 2
  | _ => exact Nat.le_add_right _ _

/-- no function posts to the thread on which it is run -/
structure Flat (s : TaskThread R) : Prop where
  calls : ∀ c ∈ s.calls, c.body.flat = true
  running : ∀ id b, s.worker = .running id b → b.flat = true
  calling : ∀ id k inner, s.worker ≠ .calling id k inner

end

end TaskThread

def TaskEvent.isStep {R : Type} : TaskEvent R → Bool
  | advance _ | work => true
  | call _ | spurious => false

def TaskEvent.isCall {R : Type} : TaskEvent R → Bool
  | call _ => true
  | _ => false

def TaskEvent.isSpurious {R : Type} : TaskEvent R → Bool
  | spurious => true
  | _ => false

namespace TaskThread

section
variable {R : Type} {s s' : TaskThread R} {e : TaskEvent R}

theorem mem_set_body {calls : List (PostCall R)} {id : Nat} {c c' : PostCall R}
    (hc : calls[id]? = some c) (hb : c'.body = c.body) (h : ∀ d ∈ calls, d.body.flat = true) :
    ∀ d ∈ calls.set id c', d.body.flat = true := by
  intro d hd
  rcases List.mem_or_eq_of_mem_set hd with hd | rfl
  · exact h d hd
  · rw [hb]
    exact h c (List.mem_of_getElem? hc)

theorem Flat.change (h : Inv s) (hf : Flat s) (hs : Change s e s')
    (he : ∀ f, e = .call f → f.flat = true) : Flat s' := by
  cases hs with
  | call f =>
    refine ⟨fun c hc => ?_, hf.running, hf.calling⟩
    rcases List.mem_append.mp hc with hc | hc
    · exact hf.calls c hc
    · rw [List.mem_singleton.mp hc]
      exact he f rfl
  | spurious hw => exact ⟨hf.calls, nofun, nofun⟩
  | lock hc hp hm => exact ⟨mem_set_body hc rfl hf.calls, hf.running, hf.calling⟩
  | push hc hp => exact ⟨mem_set_body hc rfl hf.calls, hf.running, hf.calling⟩
  | notify hc hp =>
    refine ⟨mem_set_body hc rfl hf.calls, fun id b hw => hf.running id b ?_,
      fun id k inner hw => hf.calling id k inner ?_⟩
    all_goals
      generalize s.worker = w at hw
      cases w <;> first | exact hw | cases hw
  | get hc hp hr =>
    rw [h.resumed_eq hc hr]
    exact ⟨mem_set_body hc rfl hf.calls, hf.running, hf.calling⟩
  | begin hw => exact ⟨hf.calls, nofun, nofun⟩
  | acquire hw hm => exact ⟨hf.calls, nofun, nofun⟩
  | sleep hw ht => exact ⟨hf.calls, nofun, nofun⟩
  | take hw ht hc =>
    refine ⟨hf.calls, fun id b e => ?_, nofun⟩
    cases e
    exact hf.calls _ (List.mem_of_getElem? hc)
  | finish hw hc => exact ⟨mem_set_body hc rfl hf.calls, nofun, nofun⟩
  | nest hw => exact absurd (hf.running _ _ hw) nofun

/-- **Every step of a thread is paid for**, by the call that it belongs to or by a spurious wakeup. -/
theorem potential_change (h : Inv s) (hf : Flat s) (hs : Change s e s') :
    potential s' + (if e.isStep then 1 else 0) ≤
      potential s + 10 * (if e.isCall then 1 else 0) + 2 * (if e.isSpurious then 1 else 0) := by
  cases hs with
  | call f =>
    have hd : debt (s.calls ++ [⟨f, .locking, none⟩]) = debt s.calls + 10 := debt_append s.calls _
    show debt (s.calls ++ _) + workerCost s.worker + 4 * s._tasks.length + 0 ≤
      debt s.calls + workerCost s.worker + 4 * s._tasks.length + 10 + 0
    rw [hd]
    omega
  | spurious hw =>
    show debt s.calls + 2 + 4 * s._tasks.length + 0 ≤ debt s.calls + workerCost s.worker + 4 * s._tasks.length + 0 + 2
    omega
  | @lock id c hc hp hm =>
    have hd : debt (s.calls.set id _) + _ = debt s.calls + 9 := debt_set hc { c with place := .locked }
    rw [hp, show cost (R := R) .locking = 10 from rfl] at hd
    show debt (s.calls.set id _) + workerCost s.worker + 4 * s._tasks.length + 1 ≤
      debt s.calls + workerCost s.worker + 4 * s._tasks.length + 0 + 0
    omega
  | @push id c hc hp =>
    have hd : debt (s.calls.set id _) + _ = debt s.calls + 4 := debt_set hc { c with place := .notifying }
    rw [hp, show cost (R := R) .locked = 9 from rfl] at hd
    show debt (s.calls.set id _) + workerCost s.worker + 4 * (s._tasks ++ [id]).length + 1 ≤
      debt s.calls + workerCost s.worker + 4 * s._tasks.length + 0 + 0
    rw [List.length_append, List.length_singleton]
    omega
  | @notify id c hc hp =>
    have hd : debt (s.calls.set id _) + _ = debt s.calls + 1 := debt_set hc { c with place := .getting }
    rw [hp, show cost (R := R) .notifying = 4 from rfl] at hd
    have hn := workerCost_notified s.worker
    show debt (s.calls.set id _) + workerCost (notified s.worker) + 4 * s._tasks.length + 1 ≤
      debt s.calls + workerCost s.worker + 4 * s._tasks.length + 0 + 0
    omega
  | @get id c r hc hp hr =>
    have hd : debt (s.calls.set id _) + _ = debt s.calls + 0 := debt_set hc { c with place := .returned r }
    rw [hp, show cost (R := R) .getting = 1 from rfl] at hd
    rw [h.resumed_eq hc hr]
    show debt (s.calls.set id _) + workerCost s.worker + 4 * s._tasks.length + 1 ≤
      debt s.calls + workerCost s.worker + 4 * s._tasks.length + 0 + 0
    omega
  | begin hw =>
    have hc : workerCost s.worker = 3 := by rw [hw]; rfl
    show debt s.calls + 2 + 4 * s._tasks.length + 1 ≤ debt s.calls + workerCost s.worker + 4 * s._tasks.length + 0 + 0
    omega
  | acquire hw hm =>
    have hc : workerCost s.worker = 2 := by rcases hw with hw | hw <;> rw [hw] <;> rfl
    show debt s.calls + 1 + 4 * s._tasks.length + 1 ≤ debt s.calls + workerCost s.worker + 4 * s._tasks.length + 0 + 0
    omega
  | sleep hw ht =>
    have hc : workerCost s.worker = 1 := by rw [hw]; rfl
    show debt s.calls + 0 + 4 * s._tasks.length + 1 ≤ debt s.calls + workerCost s.worker + 4 * s._tasks.length + 0 + 0
    omega
  | @take id rest c hw ht hc =>
    have hc : workerCost s.worker = 1 := by rw [hw]; rfl
    show debt s.calls + 4 + 4 * rest.length + 1 ≤
      debt s.calls + workerCost s.worker + 4 * s._tasks.length + 0 + 0
    rw [ht, List.length_cons]
    omega
  | @finish id r c hw hc =>
    have hd : debt (s.calls.set id _) + cost c.place = debt s.calls + cost c.place :=
      debt_set hc { c with future := some r }
    have hc : workerCost s.worker = 4 := by rw [hw]; rfl
    show debt (s.calls.set id _) + 3 + 4 * s._tasks.length + 1 ≤
      debt s.calls + workerCost s.worker + 4 * s._tasks.length + 0 + 0
    omega
  | nest hw => exact absurd (hf.running _ _ hw) nofun

theorem exec_potential (es : List (TaskEvent R)) : ∀ s t : TaskThread R, Inv s → Flat s →
    (∀ f, .call f ∈ es → f.flat = true) → exec step s es = some t → Flat t ∧
      potential t + es.countP TaskEvent.isStep ≤
        potential s + 10 * es.countP TaskEvent.isCall + 2 * es.countP TaskEvent.isSpurious := by
  induction es with
  | nil =>
    intro s t _ hf _ h
    have e : s = t := Option.some.inj h
    subst e
    exact ⟨hf, Nat.le_refl _⟩
  | cons e es ih =>
    intro s t hI hf he h
    obtain ⟨s1, h1, h2⟩ := exec_cons_some step h
    have hc := step_change hI.stop h1
    have hf1 := hf.change hI hc fun f hf' => he f (hf' ▸ List.mem_cons_self)
    obtain ⟨hft, hle⟩ := ih s1 t (hI.change hc) hf1 (fun f hm => he f (List.mem_cons_of_mem e hm)) h2
    have hp := potential_change hI hf hc
    refine ⟨hft, ?_⟩
    rw [List.countP_cons, List.countP_cons, List.countP_cons]
    omega

theorem advance_none {id : Nat} {c : PostCall R} (hc : s.calls[id]? = some c)
    (h : s.advance id = none) :
    c.place = .locking ∧ s._mutex ≠ none ∨ c.place = .getting ∧ c.future = none ∨
      ∃ r, c.place = .returned r := by
  unfold advance at h
  rw [hc] at h
  dsimp only at h
  split at h
  · next hp =>
    split at h
    · cases h
    · next hm => exact .inl ⟨hp, hm⟩
  · split at h <;> cases h
  · cases h
  · next hp => exact .inr (.inl ⟨hp, Option.map_eq_none_iff.mp h⟩)
  · next r hp => exact .inr (.inr ⟨r, hp⟩)

theorem Inv.work_none (hI : Inv s) (hf : Flat s) (h : s.work = none) :
    s._mutex ≠ none ∧ s.worker ≠ .checking ∧ s.worker.task = none ∨ s.worker = .waiting := by
  have hcur := hI.current
  unfold work at h
  split at h
  · cases h
  · next hw =>
    refine .inl ⟨fun hm => ?_, by rw [hw]; exact nofun, by rw [hw]; rfl⟩
    unfold TaskThread.acquire at h
    rw [if_pos hm] at h
    cases h
  · next hw =>
    refine .inl ⟨fun hm => ?_, by rw [hw]; exact nofun, by rw [hw]; rfl⟩
    unfold TaskThread.acquire at h
    rw [if_pos hm] at h
    cases h
  · split at h
    · split at h <;> cases h
    · next id rest ht =>
      have hb : id ∈ s.pushed := by
        rw [hI.order, ht]
        exact List.mem_append_right _ List.mem_cons_self
      have hn := List.getElem?_eq_none_iff.mp (Option.map_eq_none_iff.mp h)
      exact absurd (hI.bound id hb) (Nat.not_lt.mpr hn)
  · next id r hw =>
    rw [hw] at hcur
    obtain ⟨_, c, hc, _⟩ := hcur
    rw [hc] at h
    cases h
  · cases h
  · next hw => exact .inr hw
  · next hw => exact absurd hw (hf.calling _ _ _)
  · next hw =>
    rw [hw] at hcur
    exact hcur.elim

/-- **When no thread can go on, every post has returned.** -/
theorem Inv.all_returned (hI : Inv s) (hf : Flat s) (hw : s.work = none)
    (ha : ∀ id, s.advance id = none) : ∀ c ∈ s.calls, c.place = .returned c.body.value := by
  have hadv : ∀ (id : Nat) (c : PostCall R), s.calls[id]? = some c → _ :=
    fun id c hc => advance_none hc (ha id)
  have hm : s._mutex = none := by
    cases hm : s._mutex with
    | none => rfl
    | some x =>
      cases x with
      | worker =>
        have hch := hI.holds.mp hm
        rcases hI.work_none hf hw with h | h
        · exact absurd hch h.2.1
        · rw [hch] at h
          cases h
      | call id =>
        obtain ⟨c, hc⟩ : ∃ c, s.calls[id]? = some c :=
          ⟨_, List.getElem?_eq_getElem (hI.holder id hm)⟩
        have hl := (hI.sound id c hc).holds.mp hm
        rcases hadv id c hc with h | h | ⟨r, h⟩
        · rw [hl] at h
          cases h.1
        · rw [hl] at h
          cases h.1
        · rw [hl] at h
          cases h
  -- so the thread sleeps, and nobody is about to notify it
  have hwait : s.worker = .waiting := (hI.work_none hf hw).resolve_left fun h => h.1 hm
  have ht : s._tasks = [] := by
    by_contra hne
    obtain ⟨id, c, hc, hn⟩ := hI.awake hwait hne
    rcases hadv id c hc with h | h | ⟨r, h⟩
    · rw [hn] at h
      cases h.1
    · rw [hn] at h
      cases h.1
    · rw [hn] at h
      cases h
  intro c hc
  obtain ⟨id, hid⟩ := List.getElem?_of_mem hc
  have hs := hI.sound id c hid
  rcases hadv id c hid with h | h | ⟨r, h⟩
  · exact absurd hm h.2
  · have hp : id ∈ s.pushed := hs.pushed.mpr (by rw [h.1]; rfl)
    rw [hI.order, ht, List.append_nil] at hp
    have hfut := hs.future.mpr ⟨hp, by rw [hwait]; exact nofun⟩
    rw [h.2] at hfut
    cases hfut
  · rw [h, hs.value r (hs.returned r h)]

/-! ## A post from within a task -/

/-- the thread is at the post in its task or inside of it, and no future was set since `s₀` -/
structure Stuck (s₀ : TaskThread R) (t : Nat) (f : Body R) (k : R → Body R) (s : TaskThread R) :
    Prop where
  inv : Inv s
  worker : s.worker = .running t (.post f k) ∨ ∃ inner, s.worker = .calling t k inner
  futures : ∀ (id : Nat) (c : PostCall R) (r : R), s.calls[id]? = some c → c.future = some r →
    ∃ c₀ : PostCall R, s₀.calls[id]? = some c₀ ∧ c₀.future = some r

section
variable {s₀ : TaskThread R} {t : Nat} {f : Body R} {k : R → Body R} (h : Stuck s₀ t f k s)
include h

theorem Stuck.task : s.worker.task = some t := by
  rcases h.worker with hw | ⟨_, hw⟩ <;> rw [hw] <;> rfl

theorem Stuck.futures_set {id : Nat} {c c' : PostCall R} (hc : s.calls[id]? = some c)
    (hf : c'.future = c.future) (j : Nat) (cj : PostCall R) (r : R)
    (hj : (s.calls.set id c')[j]? = some cj) (hr : cj.future = some r) :
    ∃ c₀ : PostCall R, s₀.calls[j]? = some c₀ ∧ c₀.future = some r := by
  by_cases e : j = id
  · subst e
    rw [List.getElem?_set_self (List.getElem?_eq_some_iff.mp hc).1] at hj
    cases hj
    exact h.futures j c r hc (hf ▸ hr)
  · rw [List.getElem?_set_ne (Ne.symm e)] at hj
    exact h.futures j cj r hj hr

theorem Stuck.futures_append (g : Body R) (j : Nat) (cj : PostCall R) (r : R)
    (hj : (s.calls ++ [⟨g, .locking, none⟩])[j]? = some cj) (hr : cj.future = some r) :
    ∃ c₀ : PostCall R, s₀.calls[j]? = some c₀ ∧ c₀.future = some r := by
  rcases getElem?_concat_cases hj with hj | ⟨_, rfl⟩
  · exact h.futures j cj r hj hr
  · cases hr

theorem Stuck.change (hs : Change s e s') : Stuck s₀ t f k s' := by
  have hI := h.inv.change hs
  have htask := h.task
  cases hs with
  | call g => exact ⟨hI, h.worker, h.futures_append g⟩
  | lock hc hp hm => exact ⟨hI, h.worker, h.futures_set hc rfl⟩
  | push hc hp => exact ⟨hI, h.worker, h.futures_set hc rfl⟩
  | notify hc hp =>
    have hn : notified s.worker = s.worker := by
      rcases h.worker with hw | ⟨_, hw⟩ <;> rw [hw] <;> rfl
    rw [hn] at hI ⊢
    exact ⟨hI, h.worker, h.futures_set hc rfl⟩
  | get hc hp hf =>
    rw [h.inv.resumed_eq hc hf] at hI ⊢
    exact ⟨hI, h.worker, h.futures_set hc rfl⟩
  | nest hw =>
    rcases h.worker with hw' | ⟨_, hw'⟩
    · rw [hw] at hw'
      cases hw'
      exact ⟨hI, .inr ⟨_, rfl⟩, h.futures_append _⟩
    · rw [hw] at hw'
      cases hw'
  | spurious hw => rw [hw] at htask; cases htask
  | begin hw => rw [hw] at htask; cases htask
  | acquire hw _ => rcases hw with hw | hw <;> rw [hw] at htask <;> cases htask
  | sleep hw _ => rw [hw] at htask; cases htask
  | take hw _ _ => rw [hw] at htask; cases htask
  | finish hw _ =>
    rcases h.worker with hw' | ⟨_, hw'⟩ <;> rw [hw] at hw' <;> cases hw'

end

end

end TaskThread

section
variable {R : Type}
open TaskThread

/-- **First in, first out, one at a time, and every post has its own answer.** -/
theorem posts_in_order (es : List (TaskEvent R)) (s : TaskThread R) (h : exec step new es = some s) :
    s.pushed = s.begun ++ s._tasks ∧ s.pushed.Nodup ∧
    ∀ (id : Nat) (c : PostCall R), s.calls[id]? = some c →
      (c.future.isSome = true ↔ id ∈ s.begun ∧ s.worker.task ≠ some id) ∧
      ∀ r, c.place = .returned r → id ∈ s.begun ∧ r = c.body.value := by
  have hI := exec_inv h
  refine ⟨hI.order, hI.nodup, fun id c hc => ?_⟩
  have hs := hI.sound id c hc
  refine ⟨hs.future, fun r hr => ?_⟩
  have hf := hs.returned r hr
  exact ⟨(hs.future.mp (by rw [hf]; rfl)).1, hs.value r hf⟩

/-- **Every post returns.** Whatever the order of the steps: the threads take no more than ten steps for
a post and two for a spurious wakeup, and when none of them can take another one, every post has
returned the value of its function. -/
theorem posts_return (es : List (TaskEvent R)) (s : TaskThread R) (h : exec step new es = some s)
    (hf : ∀ f, .call f ∈ es → f.flat = true) :
    es.countP TaskEvent.isStep ≤
      3 + 10 * es.countP TaskEvent.isCall + 2 * es.countP TaskEvent.isSpurious ∧
    ((∀ e : TaskEvent R, e.isStep = true → s.step e = none) →
      ∀ c ∈ s.calls, c.place = .returned c.body.value) := by
  have hI := exec_inv h
  obtain ⟨hfl, hle⟩ := exec_potential es new s new_inv ⟨nofun, nofun, nofun⟩ hf h
  refine ⟨Nat.le_trans (Nat.le_add_left _ _) hle, fun hq => ?_⟩
  exact hI.all_returned hfl (hq .work rfl) fun id => hq (.advance id) rfl

/-- **A function that posts to its own thread stops it.** From then on no post returns but those whose
future had been set, whatever the threads do. -/
theorem nested_post_blocks (es fs : List (TaskEvent R)) (s s' : TaskThread R)
    (h : exec step new es = some s) (t : Nat) (f : Body R) (k : R → Body R)
    (hw : s.worker = .running t (.post f k)) (h' : exec step s fs = some s') :
    ∀ (id : Nat) (c : PostCall R) (r : R), s'.calls[id]? = some c → c.place = .returned r →
      ∃ c₀ : PostCall R, s.calls[id]? = some c₀ ∧ c₀.future = some r := by
  have hs : Stuck s t f k s := ⟨exec_inv h, .inl hw, fun id c r hc hf => ⟨c, hc, hf⟩⟩
  have hs' := exec_invariant step (fun _ _ _ hI hst => hI.change (step_change hI.inv.stop hst))
    fs s s' hs h'
  exact fun id c r hc hr => hs'.futures id c r hc ((hs'.inv.sound id c hc).returned r hr)

/-- the thread is asleep when the first of two posts comes; the second finds it at its task -/
def twoPosts : List (TaskEvent Nat) :=
  [.work, .work, .work, .call (.done 1), .advance 0, .advance 0, .call (.done 2), .advance 0, .work,
    .work, .advance 1, .advance 1, .work, .advance 1, .advance 0, .work, .work, .work, .work, .advance 1,
    .work, .work, .work]

theorem posts_in_order_two :
    ∃ s, exec step new twoPosts = some s ∧ s.pushed = s.begun ++ s._tasks ∧ s.begun = [0, 1] :=
  ⟨_, rfl, (posts_in_order twoPosts _ rfl).1, rfl⟩

theorem posts_return_two :
    ∃ s, exec step new twoPosts = some s ∧ twoPosts.countP TaskEvent.isStep ≤ 23 ∧
      ∀ c ∈ s.calls, c.place = .returned c.body.value := by
  have hf : ∀ f, .call f ∈ twoPosts → f.flat = true := by
    intro f hm
    simp only [twoPosts, List.mem_cons, List.not_mem_nil, reduceCtorEq, TaskEvent.call.injEq,
      false_or, or_false] at hm
    rcases hm with rfl | rfl <;> rfl
  have h := posts_return twoPosts _ rfl hf
  refine ⟨_, rfl, h.1, h.2 fun e he => ?_⟩
  cases e with
  | work => rfl
  | advance id =>
    match id with
    | 0 => rfl
    | 1 => rfl
    | id + 2 => rfl
  | _ => cases he

/-- the function of the only post posts another one -/
def ownPost : List (TaskEvent Nat) :=
  [.call (.post (.done 1) .done), .advance 0, .advance 0, .advance 0, .work, .work, .work]

theorem nested_post_blocks_own :
    ∃ s s', exec step new ownPost = some s ∧ s.worker = .running 0 (.post (.done 1) .done) ∧
      exec step s [.work, .advance 1, .advance 1, .advance 1] = some s' ∧
      ∀ (id : Nat) (c : PostCall Nat) (r : Nat), s'.calls[id]? = some c → c.place ≠ .returned r := by
  refine ⟨_, _, rfl, rfl, rfl, fun id c r hc hr => ?_⟩
  obtain ⟨c₀, h0, hf⟩ := nested_post_blocks ownPost [.work, .advance 1, .advance 1, .advance 1] _ _ rfl 0
    _ _ rfl rfl id c r hc hr
  match id with
  | 0 => cases h0; cases hf
  | id + 1 => cases h0

end

end JMEngine.Net
