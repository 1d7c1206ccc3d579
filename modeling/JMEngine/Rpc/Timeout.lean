import JMEngine.Net.WriteBuffer
import JMEngine.Rpc.Client

/-!
# How a call ends

A response takes its callback out of the table and cancels the timer; an expired timer takes the
callback out of the table and calls `dcb`, whether or not the callback was still there.

* `Ledger`              how table, timers and invocations belong together, in every run: a callback in
                        the table has not been called, and no `cb` is called twice;
* `overtakes`           a response is processed while the handler of its expired timer is queued;
* `ends_once`           without that, and only then, at most one of `cb` and `dcb` is called.
-/

set_option linter.unusedSectionVars false

namespace JMEngine.Rpc
open JMEngine.Net Runs

namespace RpcClient

/-- the handlers of the call `k` that may still call its `dcb` -/
def waits (c : RpcClient) (k : Nat) : Nat := c.timers.countP fun d => d.call = k

/-- how often `cb` or `dcb` of the call `k` was called -/
def ran (c : RpcClient) (k : Nat) : Nat := c.invoked.countP fun v => v.call = k

/-- how often `cb` of the call `k` was called -/
def answers (c : RpcClient) (k : Nat) : Nat :=
  c.invoked.countP fun v =>
    match v with
    | .cb j _ => j = k
    | .dcb _ => false

structure Ledger (c : RpcClient) : Prop where
  table : ∀ id cb, c.entry id = some cb → c.idOf cb.call = some id
  timed : ∀ d ∈ c.timers, c.idOf d.call = some d.methodId
  invoked : ∀ v ∈ c.invoked, c.idOf v.call ≠ none
  untimed : ∀ id cb, c.entry id = some cb → cb._checkDead = false → c.waits cb.call = 0
  held : ∀ id cb, c.entry id = some cb → c.ran cb.call = 0
  once : ∀ k, c.answers k ≤ 1

theorem ledger_new (s : TcpSession) : (new s).Ledger where
  table := fun _ _ h => by cases h
  timed := fun _ h => by cases h
  invoked := fun _ h => by cases h
  untimed := fun _ _ h => by cases h
  held := fun _ _ h => by cases h
  once := fun _ => Nat.zero_le _

section
variable {c c' : RpcClient}

theorem waits_le {l : List DeadCallback} (h : c'.timers.Subperm l) (k : Nat) :
    c'.waits k ≤ l.countP fun d => d.call = k := h.countP_le _

theorem waits_cons (d : DeadCallback) (l : List DeadCallback) (k : Nat) :
    (d :: l).countP (fun d => d.call = k)
      = l.countP (fun d => d.call = k) + if d.call = k then 1 else 0 := by
  rw [List.countP_cons]
  by_cases h : d.call = k <;> simp [h]

theorem ran_append {v : Invocation} (h : c'.invoked = c.invoked ++ [v]) (k : Nat) :
    c'.ran k = c.ran k + if v.call = k then 1 else 0 := by
  unfold ran
  rw [h, List.countP_append, List.countP_singleton]
  by_cases hk : v.call = k <;> simp [hk]

theorem answers_le_ran (c : RpcClient) (k : Nat) : c.answers k ≤ c.ran k := by
  apply List.countP_mono_left
  intro v _ hv
  cases v with
  | cb j r => exact hv
  | dcb j => cases hv

theorem Ledger.unnumbered (h : c.Ledger) {k : Nat} (hk : c.idOf k = none) :
    c.waits k = 0 ∧ c.ran k = 0 := by
  constructor
  · apply List.countP_eq_zero.mpr
    intro d hd e
    have := h.timed d hd
    rw [of_decide_eq_true e, hk] at this
    cases this
  · apply List.countP_eq_zero.mpr
    intro v hv e
    exact h.invoked v hv (by rw [of_decide_eq_true e, hk])

theorem Ledger.call_ne (h : c.Ledger) {id : BitVec 32} {k : Nat} (hk : c.idOf k = some id)
    {j : BitVec 32} {cb : RpcCallback} (hj : c.entry j = some cb) (hne : j ≠ id) : k ≠ cb.call := by
  intro e
  have := h.table j cb hj
  rw [← e, hk] at this
  exact hne (Option.some.inj this).symm

theorem entry_of_update_none {id j : BitVec 32} {cb : RpcCallback}
    (h : c'.entry = Function.update c.entry id none) (hj : c'.entry j = some cb) :
    j ≠ id ∧ c.entry j = some cb := by
  rw [h] at hj
  by_cases e : j = id
  · rw [e, Function.update_self] at hj
    cases hj
  · rw [Function.update_of_ne e] at hj
    exact ⟨e, hj⟩

theorem Ledger.less (h : c.Ledger) (hl : Later c c')
    (ht : ∀ id cb, c'.entry id = some cb → c.entry id = some cb) (hd : c'.timers.Subperm c.timers)
    (hi : c'.invoked = c.invoked) : c'.Ledger := by
  have hr : ∀ k, c'.ran k = c.ran k := fun k => by unfold ran; rw [hi]
  constructor
  · exact fun id cb hcb => hl.idOf (h.table id cb (ht id cb hcb))
  · exact fun d hm => hl.idOf (h.timed d (hd.subset hm))
  · exact fun v hv => hl.idOf_ne_none (h.invoked v (hi ▸ hv))
  · intro id cb hcb hf
    exact Nat.le_zero.mp ((waits_le hd _).trans_eq (h.untimed id cb (ht id cb hcb) hf))
  · intro id cb hcb
    rw [hr]
    exact h.held id cb (ht id cb hcb)
  · intro k
    unfold answers
    rw [hi]
    exact h.once k

theorem Ledger.registered (h : c.Ledger) {k : Nat} {id : BitVec 32} {timed : Bool} (hl : Later c c')
    (hk : c.idOf k = none) (hid : c'.idOf k = some id)
    (ht : c'.entry = Function.update c.entry id (some ⟨k, timed⟩))
    (hd : c'.timers.Subperm (if timed then ⟨k, id⟩ :: c.timers else c.timers))
    (hi : c'.invoked = c.invoked) : c'.Ledger := by
  have hr : ∀ j, c'.ran j = c.ran j := fun j => by unfold ran; rw [hi]
  have hn := h.unnumbered hk
  have hcase : ∀ j cb, c'.entry j = some cb → (j = id ∧ cb = ⟨k, timed⟩) ∨ c.entry j = some cb := by
    intro j cb hj
    rw [ht] at hj
    by_cases e : j = id
    · rw [e, Function.update_self] at hj
      exact Or.inl ⟨e, (Option.some.inj hj).symm⟩
    · rw [Function.update_of_ne e] at hj
      exact Or.inr hj
  have hold : ∀ j cb, c.entry j = some cb → k ≠ cb.call := by
    intro j cb hj e
    rw [e, h.table j cb hj] at hk
    cases hk
  have hw : ∀ j, k ≠ j → c'.waits j ≤ c.waits j := by
    intro j hj
    refine (waits_le hd j).trans ?_
    cases timed with
    | false => exact Nat.le_refl _
    | true =>
      rw [if_pos rfl, waits_cons, if_neg hj]
      exact Nat.le_refl _
  constructor
  · intro j cb hj
    rcases hcase j cb hj with ⟨rfl, rfl⟩ | hj
    · exact hid
    · exact hl.idOf (h.table j cb hj)
  · intro d hm
    have hm' := hd.subset hm
    cases timed with
    | false => exact hl.idOf (h.timed d hm')
    | true =>
      rcases List.mem_cons.mp hm' with rfl | hm'
      · exact hid
      · exact hl.idOf (h.timed d hm')
  · exact fun v hv => hl.idOf_ne_none (h.invoked v (hi ▸ hv))
  · intro j cb hj hf
    rcases hcase j cb hj with ⟨rfl, rfl⟩ | hj
    · have hf' : timed = false := hf
      rw [hf'] at hd
      exact Nat.le_zero.mp ((waits_le hd k).trans_eq hn.1)
    · exact Nat.le_zero.mp ((hw _ (hold j cb hj)).trans_eq (h.untimed j cb hj hf))
  · intro j cb hj
    rw [hr]
    rcases hcase j cb hj with ⟨rfl, rfl⟩ | hj
    · exact hn.2
    · exact h.held j cb hj
  · intro j
    unfold answers
    rw [hi]
    exact h.once j

theorem Ledger.taken (h : c.Ledger) {id : BitVec 32} (v : Invocation) (hc : c'.calls = c.calls)
    (hk : c.idOf v.call = some id) (ht : c'.entry = Function.update c.entry id none)
    (hd : c'.timers.Subperm c.timers) (hi : c'.invoked = c.invoked ++ [v])
    (ho : ∀ k, c'.answers k ≤ 1) : c'.Ledger := by
  have hids : ∀ k, c'.idOf k = c.idOf k := fun k => by unfold idOf; rw [hc]
  constructor
  · intro j cb hj
    rw [hids]
    exact h.table j cb (entry_of_update_none ht hj).2
  · intro d hm
    rw [hids]
    exact h.timed d (hd.subset hm)
  · intro u hu
    rw [hids]
    rw [hi] at hu
    rcases List.mem_append.mp hu with hu | hu
    · exact h.invoked u hu
    · rw [List.mem_singleton.mp hu, hk]
      exact Option.some_ne_none id
  · intro j cb hj hf
    exact Nat.le_zero.mp ((waits_le hd _).trans_eq
      (h.untimed j cb (entry_of_update_none ht hj).2 hf))
  · intro j cb hj
    obtain ⟨hne, hj⟩ := entry_of_update_none ht hj
    rw [ran_append hi, if_neg (h.call_ne hk hj hne)]
    exact h.held j cb hj
  · exact ho

theorem answers_append_cb {j : Nat} {r : List UInt8} (h : c'.invoked = c.invoked ++ [.cb j r])
    (k : Nat) : c'.answers k = c.answers k + if j = k then 1 else 0 := by
  unfold answers
  rw [h, List.countP_append, List.countP_singleton]
  by_cases hk : j = k <;> simp [hk]

theorem answers_append_dcb {j : Nat} (h : c'.invoked = c.invoked ++ [.dcb j]) (k : Nat) :
    c'.answers k = c.answers k := by
  unfold answers
  rw [h, List.countP_append, List.countP_singleton]
  rfl

theorem Change.ledger {codec : Codec} {e : RpcEvent} (hs : Change codec c e c') (h : c.Ledger) :
    c'.Ledger := by
  cases hs with
  | less hl ht hd hi => exact h.less hl ht hd hi
  | registered k call id timed hl hk hp hid ht hd hi =>
    exact h.registered hl (idOf_checked hk hp) hid ht hd hi
  | answered msg cb he hcb hc ht hd hf hi =>
    refine h.taken (.cb cb.call _) hc (h.table _ cb hcb) ht hd hi (fun k => ?_)
    rw [answers_append_cb hi]
    by_cases hk : cb.call = k
    · have h0 : c.answers k ≤ 0 := by
        rw [← hk, ← h.held _ cb hcb]
        exact answers_le_ran c _
      rw [if_pos hk]
      omega
    · rw [if_neg hk]
      exact h.once k
  | died d rest hc hr ht hd hi =>
    refine h.taken (.dcb d.call) hc (h.timed d (hr.mem_iff.mpr List.mem_cons_self)) ht ?_ hi
      (fun k => ?_)
    · exact (hd.trans List.Subperm.cons_self).trans hr.symm.subperm
    · rw [answers_append_dcb hi]
      exact h.once k

/-! ## the two ends of a call -/

/-- the response finds its callback in the table, with the handler of the expired timer on the queue -/
def overtakes (codec : Codec) (c : RpcClient) : RpcEvent → Bool
  | .receive msg =>
    match c.entry (codec.parseFromString msg.getMessageStr).rpc_id with
    | some cb => c.fired.any fun d => d.call = cb.call
    | none => false
  | _ => false

/-- at most one of a callback that was called and a handler that may call another -/
def AtMostOnce (c : RpcClient) : Prop := ∀ k, c.ran k + c.waits k ≤ 1

theorem Change.atMostOnce {codec : Codec} {e : RpcEvent} (hs : Change codec c e c') (h : c.Ledger)
    (ho : c.AtMostOnce) (hn : c.overtakes codec e = false) : c'.AtMostOnce := by
  intro k
  have hk := ho k
  cases hs with
  | less hl ht hd hi =>
    have hr : c'.ran k = c.ran k := by unfold ran; rw [hi]
    have hw : c'.waits k ≤ c.waits k := waits_le hd k
    omega
  | registered j call id timed hl hj hp hid ht hd hi =>
    have hr : c'.ran k = c.ran k := by unfold ran; rw [hi]
    have hw := waits_le hd k
    cases timed with
    | false =>
      have hw' : c'.waits k ≤ c.waits k := hw
      omega
    | true =>
      rw [if_pos rfl, waits_cons] at hw
      have hw' : c'.waits k ≤ c.waits k + if j = k then 1 else 0 := hw
      by_cases e : j = k
      · have h0 := h.unnumbered (idOf_checked hj hp)
        rw [e] at h0
        rw [if_pos e] at hw'
        omega
      · rw [if_neg e] at hw'
        omega
  | answered msg cb he hcb hc ht hd hf hi =>
    have hr : c'.ran k = c.ran k + if cb.call = k then 1 else 0 := ran_append hi k
    have hw : c'.waits k ≤ c.waits k := waits_le hd k
    by_cases e : cb.call = k
    · have h0 : c'.waits cb.call = 0 := by
        cases hdead : cb._checkDead with
        | false => exact Nat.le_zero.mp ((waits_le hd _).trans_eq (h.untimed _ cb hcb hdead))
        | true =>
          apply List.countP_eq_zero.mpr
          intro d hm hcall
          have hfired := hf hdead d hm (of_decide_eq_true hcall)
          rw [he, overtakes, hcb] at hn
          exact List.any_eq_false.mp hn d hfired hcall
      have h1 := h.held _ cb hcb
      rw [e] at h0 h1
      rw [if_pos e] at hr
      omega
    · rw [if_neg e] at hr
      omega
  | died d rest hc hrest ht hd hi =>
    have hr : c'.ran k = c.ran k + if d.call = k then 1 else 0 := ran_append hi k
    have hw : c'.waits k ≤ rest.countP fun d => d.call = k := waits_le hd k
    have hp : c.waits k = (d :: rest).countP (fun d => d.call = k) := hrest.countP_eq _
    rw [waits_cons] at hp
    omega

theorem exists_of_mem_fired {d : DeadCallback} (h : d ∈ c.fired) :
    ∃ i : Nat, c.queued[i]? = some ⟨false, d⟩ := by
  obtain ⟨w, hw, rfl⟩ := List.mem_map.mp h
  obtain ⟨hm, he⟩ := List.mem_filter.mp hw
  obtain ⟨i, hi⟩ := List.mem_iff_getElem?.mp hm
  refine ⟨i, ?_⟩
  rw [hi]
  cases w with
  | mk err handler =>
    have : err = false := by simpa using he
    rw [this]

theorem receive_eq {codec : Codec} {msg : Message} {cb : RpcCallback}
    (h : c.entry (codec.parseFromString msg.getMessageStr).rpc_id = some cb) :
    (c.sessionReceiveMessage codec msg).fired = c.fired
    ∧ (c.sessionReceiveMessage codec msg).invoked
        = c.invoked ++ [.cb cb.call (codec.parseFromString msg.getMessageStr).params] := by
  have hp : c._cbs (codec.parseFromString msg.getMessageStr).rpc_id = some (some cb) :=
    Option.join_eq_some_iff.mp h
  unfold sessionReceiveMessage
  dsimp only
  rw [hp]
  dsimp only
  cases cb._checkDead with
  | false => exact ⟨rfl, rfl⟩
  | true => exact ⟨fired_cancel _ _, rfl⟩

theorem receive_none {codec : Codec} {msg : Message}
    (h : c.entry (codec.parseFromString msg.getMessageStr).rpc_id = none) :
    (c.sessionReceiveMessage codec msg).invoked = c.invoked := by
  unfold entry at h
  unfold sessionReceiveMessage
  dsimp only
  split
  · rfl
  · rfl
  · rename_i cb hp
    rw [hp] at h
    cases h

/-- an expired handler calls `dcb`, whatever the table says -/
theorem dead_invoked (codec : Codec) {i : Nat} {d : DeadCallback}
    (h : c.queued[i]? = some ⟨false, d⟩) :
    ∃ c', c.step codec (.dead i) = some c' ∧ c'.invoked = c.invoked ++ [.dcb d.call] := by
  generalize hc1 : ({ c with queued := c.queued.eraseIdx i } : RpcClient) = c1
  obtain ⟨_, _, h3, _⟩ := c1.removeDeadRPC_spec d.methodId
  refine ⟨c1.rpcDeadCallback ⟨false, d⟩, ?_, ?_⟩
  · rw [step, h, ← hc1]
    rfl
  · show (c1.removeDeadRPC d.methodId).invoked ++ [.dcb d.call] = _
    rw [h3, ← hc1]

theorem both_of_overtakes {codec : Codec} {msg : Message}
    (h : c.overtakes codec (.receive msg) = true) :
    ∃ i k r c1 c2, c.step codec (.receive msg) = some c1 ∧ c1.step codec (.dead i) = some c2
      ∧ c2.invoked = c.invoked ++ [.cb k r, .dcb k] := by
  rw [overtakes] at h
  split at h
  · rename_i cb hcb
    obtain ⟨d, hd, hcall⟩ := List.any_eq_true.mp h
    obtain ⟨hf, hi⟩ := receive_eq hcb
    rw [← hf] at hd
    obtain ⟨i, hq⟩ := exists_of_mem_fired hd
    obtain ⟨c2, h2, hi2⟩ := dead_invoked codec hq
    refine ⟨i, cb.call, (codec.parseFromString msg.getMessageStr).params, _, c2, rfl, h2, ?_⟩
    rw [hi2, hi, of_decide_eq_true hcall, List.append_assoc]
    rfl
  · cases h

end

/-- **A call ends one way only, unless its response overtakes the queued `RpcDeadCallback`.**  In every
run without such a response at most one of `cb` and `dcb` is called, once; and wherever a response does
find the handler of its expired timer on the queue, running both calls both. -/
theorem ends_once (codec : Codec) (s : TcpSession) (es : List RpcEvent) (c : RpcClient)
    (hg : Guarded (step codec) (fun c e => c.overtakes codec e = false) (new s) es)
    (hrun : exec (step codec) (new s) es = some c) :
    (∀ k, c.ran k ≤ 1) ∧
    ∀ msg, c.overtakes codec (.receive msg) = true →
      ∃ i k r c1 c2, c.step codec (.receive msg) = some c1 ∧ c1.step codec (.dead i) = some c2
        ∧ c2.invoked = c.invoked ++ [.cb k r, .dcb k] := by
  have hstep : ∀ (c : RpcClient) e c', c.Ledger ∧ c.AtMostOnce → c.overtakes codec e = false →
      c.step codec e = some c' → c'.Ledger ∧ c'.AtMostOnce := by
    intro c e c' hI hC hs
    exact ⟨(step_change hs).ledger hI.1, (step_change hs).atMostOnce hI.1 hI.2 hC⟩
  have h := exec_guarded (step codec) hstep es (new s) c
    ⟨ledger_new s, fun k => Nat.zero_le _⟩ hg hrun
  exact ⟨fun k => (Nat.le_add_right _ _).trans (h.2 k), fun msg => both_of_overtakes⟩

/-- two timed calls: the first is answered twice, the second expires and is answered late -/
theorem ends_once_two_calls :
    ∃ c, exec (step pb) (new (.established (List.replicate 64 0)))
        [.enter .timed [97] [1], .register 0 .none, .finish 0 false,
          .receive (rpcMessage pb ⟨1, [97], [7]⟩), .receive (rpcMessage pb ⟨1, [97], [7]⟩), .dead 0,
          .enter .timed [97] [2], .register 1 .none, .finish 1 false, .expire 0, .dead 0,
          .receive (rpcMessage pb ⟨2, [97], [8]⟩)] = some c
      ∧ c.invoked = [.cb 0 [7], .dcb 1] ∧ ∀ k, c.ran k ≤ 1 := by
  have h : (exec (step pb) (new (.established (List.replicate 64 0)))
      [.enter .timed [97] [1], .register 0 .none, .finish 0 false,
        .receive (rpcMessage pb ⟨1, [97], [7]⟩), .receive (rpcMessage pb ⟨1, [97], [7]⟩), .dead 0,
        .enter .timed [97] [2], .register 1 .none, .finish 1 false, .expire 0, .dead 0,
        .receive (rpcMessage pb ⟨2, [97], [8]⟩)]).any
      (fun c => decide (c.invoked = [.cb 0 [7], .dcb 1])) = true := by
    decide +kernel
  obtain ⟨c, hc, hp⟩ := (Option.any_eq_true ..).mp h
  refine ⟨c, hc, of_decide_eq_true hp, (ends_once pb _ _ c ?_ hc).1⟩
  exact guarded_of_guardedBy (step pb) (B := fun c e => !c.overtakes pb e)
    (fun c e h => by simpa using h) _ _ (by decide +kernel)

/-- the timer expires, the response is processed, then the queued handler: both callbacks are called -/
theorem not_always_ends_once :
    ¬ ∀ (codec : Codec) (s : TcpSession) (es : List RpcEvent) (c : RpcClient),
      exec (step codec) (new s) es = some c → ∀ k, c.ran k ≤ 1 := by
  intro h
  have h1 : (exec (step pb) (new (.established (List.replicate 64 0)))
      [.enter .timed [97] [1], .register 0 .none, .finish 0 false, .expire 0,
        .receive (rpcMessage pb ⟨1, [97], [7]⟩), .dead 0]).any
      (fun c => decide (c.ran 0 = 2)) = true := by
    decide +kernel
  obtain ⟨c, hc, hp⟩ := (Option.any_eq_true ..).mp h1
  have h2 := h pb _ _ c hc 0
  rw [of_decide_eq_true hp] at h2
  omega

end RpcClient

end JMEngine.Rpc
