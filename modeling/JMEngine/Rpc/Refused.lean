import JMEngine.Rpc.Numbers
import JMEngine.Rpc.Timeout

/-!
# Calls that return `false`

`callRpcMethod` can fail before its locked block (the session is not `Connected`), inside it (an
exception), or behind it (an exception, or `writeMessage` refuses the frame).  Only the callback that the
locked block has stored is left behind: it stays in the table, its timer runs, and `dcb` is called for a
call that was reported as failed.

* `Gone`              a call that has returned and of which nothing is left; every event keeps that;
* `callRpcMethod_steps`   a call without interference is the run of its three events;
* `no_trace_iff`      a refused call leaves no trace exactly when it did not reach the table.
-/

set_option linter.unusedSectionVars false

namespace JMEngine.Rpc
open JMEngine.Net Runs

namespace RpcClient

/-- the call `k` has returned and nothing will call it back -/
structure Gone (c : RpcClient) (k : Nat) : Prop where
  returned : ∃ call id r, c.calls[k]? = some call ∧ call.phase = .returned id r
  entry : ∀ id cb, c.entry id = some cb → cb.call ≠ k
  waits : c.waits k = 0
  ran : c.ran k = 0

section
variable {codec : Codec} {c c' : RpcClient} {k : Nat}

theorem Gone.later (h : c.Gone k) (hl : Later c c') :
    ∃ call id r, c'.calls[k]? = some call ∧ call.phase = .returned id r := by
  obtain ⟨call, id, r, hk, hp⟩ := h.returned
  obtain ⟨call', hk', _, _, _, hr⟩ := hl k call hk
  exact ⟨call', id, r, hk', hr id r hp⟩

theorem Change.gone {e : RpcEvent} (hs : Change codec c e c') (h : c.Gone k) : c'.Gone k := by
  cases hs with
  | less hl ht hd hi =>
    refine ⟨h.later hl, fun id cb he => h.entry id cb (ht id cb he), ?_, ?_⟩
    · exact Nat.le_zero.mp ((waits_le hd k).trans_eq h.waits)
    · unfold RpcClient.ran
      rw [hi]
      exact h.ran
  | registered j call id timed hl hj hp hid ht hd hi =>
    have hne : j ≠ k := by
      intro e
      obtain ⟨call', id', r, hk, hr⟩ := h.returned
      rw [← e, hj] at hk
      rw [← Option.some.inj hk, hp] at hr
      cases hr
    refine ⟨h.later hl, ?_, ?_, ?_⟩
    · intro i cb he
      rw [ht] at he
      by_cases ei : i = id
      · rw [ei, Function.update_self] at he
        rw [← Option.some.inj he]
        exact hne
      · rw [Function.update_of_ne ei] at he
        exact h.entry i cb he
    · have hw := waits_le hd k
      cases timed with
      | false => exact Nat.le_zero.mp (hw.trans_eq h.waits)
      | true =>
        rw [if_pos rfl, waits_cons, if_neg hne] at hw
        exact Nat.le_zero.mp (hw.trans_eq h.waits)
    · unfold RpcClient.ran
      rw [hi]
      exact h.ran
  | answered msg cb he hcb hc ht hd hf hi =>
    refine ⟨h.later (Later.of_eq hc), ?_, ?_, ?_⟩
    · exact fun id cb he => h.entry id cb (entry_of_update_none ht he).2
    · exact Nat.le_zero.mp ((waits_le hd k).trans_eq h.waits)
    · rw [ran_append hi, h.ran, Nat.zero_add]
      exact if_neg (h.entry _ cb hcb)
  | died d rest hc hr ht hd hi =>
    have hp : c.waits k = (d :: rest).countP (fun d => d.call = k) := hr.countP_eq _
    have hne : d.call ≠ k := by
      intro e
      rw [waits_cons, if_pos e, h.waits] at hp
      omega
    refine ⟨h.later (Later.of_eq hc), ?_, ?_, ?_⟩
    · exact fun id cb he => h.entry id cb (entry_of_update_none ht he).2
    · rw [waits_cons, if_neg hne, h.waits] at hp
      exact Nat.le_zero.mp ((waits_le hd k).trans_eq hp.symm)
    · rw [ran_append hi, h.ran, Nat.zero_add]
      exact if_neg hne

theorem idOf_length (c : RpcClient) : c.idOf c.calls.length = none := by
  unfold idOf
  rw [List.getElem?_eq_none (Nat.le_refl _)]
  rfl

theorem Ledger.gone (h : c.Ledger) (ht : c'._cbs = c._cbs) (ha : c'.armed = c.armed)
    (hq : c'.queued = c.queued) (hi : c'.invoked = c.invoked)
    (hr : ∃ call id r, c'.calls[c.calls.length]? = some call ∧ call.phase = .returned id r) :
    c'.Gone c.calls.length := by
  obtain ⟨hw, hran⟩ := h.unnumbered c.idOf_length
  refine ⟨hr, ?_, ?_, ?_⟩
  · intro id cb he e
    unfold RpcClient.entry at he
    rw [ht] at he
    have hid := h.table id cb he
    rw [e, c.idOf_length] at hid
    cases hid
  · unfold RpcClient.waits timers fired
    rw [ha, hq]
    exact hw
  · unfold RpcClient.ran
    rw [hi]
    exact hran

/-! ## the call without interference -/

variable {o : Overload} {method params : List UInt8} {f : Fault} {throws r : Bool}

theorem enter_calls (c : RpcClient) (o : Overload) (method params : List UInt8) :
    (c.enter o method params).calls[c.calls.length]?
      = some ⟨o, method, params, if c._session.isOk then .checked else .returned none false⟩ := by
  show (c.calls ++ [_])[c.calls.length]? = _
  rw [List.getElem?_append_right (Nat.le_refl _), Nat.sub_self]
  rfl

theorem callRpcMethod_cases (h : c.callRpcMethod codec o method params f throws = some (r, c')) :
    (c._session.isOk = false ∧ r = false ∧ c' = c.enter o method params)
    ∨ (c._session.isOk = true ∧ r = false
      ∧ (c.enter o method params).register c.calls.length o f = some (c', none))
    ∨ (c._session.isOk = true ∧ ∃ c2 id,
      (c.enter o method params).register c.calls.length o f = some (c2, some id)
      ∧ c2.finish codec c.calls.length method params id throws = some (r, c')) := by
  unfold callRpcMethod at h
  dsimp only at h
  cases hok : c._session.isOk with
  | false =>
    rw [hok] at h
    cases h
    exact Or.inl ⟨rfl, rfl, rfl⟩
  | true =>
    rw [hok] at h
    rw [if_neg (by decide)] at h
    split at h
    · cases h
    · rename_i c2 hreg
      cases h
      exact Or.inr (Or.inl ⟨rfl, rfl, hreg⟩)
    · rename_i c2 id hreg
      exact Or.inr (Or.inr ⟨rfl, c2, id, hreg, h⟩)

theorem register_phase {call : Call} (hk : c.calls[k]? = some call) {i : Option (BitVec 32)}
    (h : c.register k o f = some (c', i)) :
    ∃ p, c'.calls[k]? = some { call with phase := p }
      ∧ (∀ id, i = some id → p = .registered id)
      ∧ (i = none → ∃ id, p = .returned id false) := by
  have key : ∀ (c1 : RpcClient) (p : Phase), c1.calls = c.calls →
      (c1.setPhase k p).calls[k]? = some { call with phase := p } := by
    intro c1 p h1
    rw [calls_setPhase, h1, hk, Option.map_some, if_pos rfl]
  cases register_cases h with
  | lock => exact ⟨_, key c _ rfl, fun _ e => (by cases e), fun _ => ⟨_, rfl⟩⟩
  | plain => exact ⟨_, key _ _ rfl, fun _ e => (by cases e; rfl), fun e => (by cases e)⟩
  | create inserted =>
    refine ⟨_, key _ _ ?_, fun _ e => (by cases e), fun _ => ⟨_, rfl⟩⟩
    cases inserted <;> rfl
  | stored =>
    refine ⟨_, key _ _ ?_, fun _ e => (by cases e; rfl), fun e => (by cases e)⟩
    exact (assign_spec { c with _methodId := c._methodId + 1 } _ _).2.2.2.1

/-- **A call without interference is the run of its events.** -/
theorem callRpcMethod_steps (h : c.callRpcMethod codec o method params f throws = some (r, c')) :
    ∃ es, exec (step codec) c es = some c' := by
  have h0 : step codec c (.enter o method params) = some (c.enter o method params) := rfl
  rcases callRpcMethod_cases h with ⟨_, _, rfl⟩ | ⟨hok, _, hreg⟩ | ⟨hok, c2, id, hreg, hfin⟩
  · exact ⟨[.enter o method params], rfl⟩
  · have hk := c.enter_calls o method params
    rw [hok, if_pos rfl] at hk
    refine ⟨[.enter o method params, .register c.calls.length f], ?_⟩
    rw [exec_cons (step codec) _ h0, exec, step, hk]
    dsimp only
    rw [hreg]
    rfl
  · have hk := c.enter_calls o method params
    rw [hok, if_pos rfl] at hk
    obtain ⟨p, hk2, hp, _⟩ := register_phase hk hreg
    rw [hp id rfl] at hk2
    refine ⟨[.enter o method params, .register c.calls.length f, .finish c.calls.length throws], ?_⟩
    have h1 : step codec (c.enter o method params) (.register c.calls.length f) = some c2 := by
      rw [step, hk]
      dsimp only
      rw [hreg]
      rfl
    rw [exec_cons (step codec) _ h0, exec_cons (step codec) _ h1,
      exec, step, hk2]
    dsimp only
    rw [hfin]
    rfl

/-! ## the trace of a refused call -/

/-- the call gets as far as `_cbs[_methodId]` -/
def reaches (c : RpcClient) (f : Fault) : Bool :=
  c._session.isOk && (f = .none || f = .create true)

/-- the table is as it was, and the callbacks of the new call are never called -/
def NoTrace (codec : Codec) (c c' : RpcClient) : Prop :=
  c'._cbs = c._cbs ∧ ∀ es c'', exec (step codec) c' es = some c'' → c''.ran c.calls.length = 0

theorem gone_of_not_reaches (ho : o ≠ .plain)
    (h : c.callRpcMethod codec o method params f throws = some (r, c')) (hf : c.reaches f = false)
    (hL : c.Ledger) : c'._cbs = c._cbs ∧ c'.Gone c.calls.length := by
  have hk := c.enter_calls o method params
  unfold reaches at hf
  rcases callRpcMethod_cases h with ⟨hok, _, rfl⟩ | ⟨hok, _, hreg⟩ | ⟨hok, c2, id, hreg, _⟩
  · refine ⟨rfl, hL.gone rfl rfl rfl rfl ⟨_, none, false, hk, ?_⟩⟩
    rw [hok]
    rfl
  · rw [hok, Bool.true_and] at hf
    obtain ⟨p, hk2, _, hp⟩ := register_phase hk hreg
    obtain ⟨id, hp⟩ := hp rfl
    cases register_cases hreg with
    | lock => exact ⟨rfl, hL.gone rfl rfl rfl rfl ⟨_, _, _, hk2, hp⟩⟩
    | create inserted =>
      cases inserted with
      | true => exact absurd hf (by decide)
      | false => exact ⟨rfl, hL.gone rfl rfl rfl rfl ⟨_, _, _, hk2, hp⟩⟩
  · rw [hok, Bool.true_and] at hf
    cases register_cases hreg with
    | plain _ hplain => exact absurd hplain ho
    | stored => exact absurd hf (by decide)

theorem entry_of_reaches (ho : o ≠ .plain)
    (h : c.callRpcMethod codec o method params f throws = some (r, c')) (hf : c.reaches f = true) :
    c._methodId ≠ 2147483647 ∧ c'._cbs (c._methodId + 1) ≠ none := by
  unfold reaches at hf
  rw [Bool.and_eq_true, Bool.or_eq_true, decide_eq_true_eq, decide_eq_true_eq] at hf
  obtain ⟨hok, hf⟩ := hf
  have some_of : ∀ (t : BitVec 32 → Option (Option RpcCallback)) (id : BitVec 32) (p),
      Function.update t id (some p) id ≠ none := by
    intro t id p
    rw [Function.update_self]
    exact Option.some_ne_none p
  have key : ∀ c2 i, (c.enter o method params).register c.calls.length o f = some (c2, i) →
      c._methodId ≠ 2147483647 ∧ c2._cbs (c._methodId + 1) ≠ none := by
    intro c2 i hreg
    cases register_cases hreg with
    | lock => rcases hf with hf | hf <;> cases hf
    | plain _ hplain => exact absurd hplain ho
    | create inserted _ hmax =>
      have hi : inserted = true := by
        rcases hf with hf | hf
        · cases hf
        · exact Fault.create.inj hf
      rw [hi]
      exact ⟨hmax, some_of _ _ _⟩
    | stored _ hmax => exact ⟨hmax, some_of _ _ _⟩
  rcases callRpcMethod_cases h with ⟨hno, _⟩ | ⟨_, _, hreg⟩ | ⟨_, c2, id, hreg, hfin⟩
  · rw [hok] at hno
    cases hno
  · exact key c' _ hreg
  · obtain ⟨s, rfl⟩ := finish_eq hfin
    exact key c2 _ hreg

end

/-- **A refused call leaves no trace exactly when it did not get as far as the table.** -/
theorem no_trace_iff (codec : Codec) (s : TcpSession) (es : List RpcEvent) (c : RpcClient)
    (hrun : exec (step codec) (new s) es = some c) (o : Overload) (ho : o ≠ .plain)
    (method params : List UInt8) (f : Fault) (throws : Bool) (c' : RpcClient)
    (h : c.callRpcMethod codec o method params f throws = some (false, c')) :
    NoTrace codec c c' ↔ c.reaches f = false := by
  have hL : c.Ledger := exec_invariant (step codec)
    (fun _ _ _ hI hs => (step_change hs).ledger hI) es (new s) c (ledger_new s) hrun
  have hN : c.Numbered := exec_invariant (step codec)
    (fun _ _ _ hI hs => (step_numbering hs).numbered hI) es (new s) c (numbered_new s) hrun
  constructor
  · intro ht
    by_contra hf
    obtain ⟨hmax, he⟩ := entry_of_reaches ho h (by simpa using hf)
    rw [ht.1] at he
    exact he (hN.keys _ (by rw [(hN.toNat_next hmax).1]; omega))
  · intro hf
    obtain ⟨ht, hg⟩ := gone_of_not_reaches ho h hf hL
    refine ⟨ht, fun es' c'' hrun' => ?_⟩
    exact (exec_invariant (step codec) (fun _ _ _ hI hs => (step_change hs).gone hI) es' c' c'' hg
      hrun').ran

/-- a session that is not connected, and an exception before the table -/
theorem no_trace_iff_refused :
    (∃ c', (new (.new none [] 64 0)).callRpcMethod pb .timed [97] [1] .none false = some (false, c')
      ∧ NoTrace pb (new (.new none [] 64 0)) c')
    ∧ ∃ c', (new (.established (List.replicate 64 0))).callRpcMethod pb .callback [97] [1]
        (.create false) false = some (false, c')
      ∧ NoTrace pb (new (.established (List.replicate 64 0))) c' := by
  refine ⟨⟨_, rfl, ?_⟩, ⟨_, rfl, ?_⟩⟩
  · exact (no_trace_iff pb _ [] _ rfl .timed (by decide) [97] [1] .none false _ rfl).mpr rfl
  · exact (no_trace_iff pb _ [] _ rfl .callback (by decide) [97] [1] (.create false) false _ rfl).mpr
      rfl

/-- a write buffer of ten bytes refuses the frame, and then the timer calls `dcb` -/
theorem not_always_no_trace :
    ¬ ∀ (codec : Codec) (s : TcpSession) (es : List RpcEvent) (c : RpcClient),
      exec (step codec) (new s) es = some c → ∀ o, o ≠ .plain → ∀ method params f throws c',
        c.callRpcMethod codec o method params f throws = some (false, c') → NoTrace codec c c' := by
  intro h
  have h1 : ((new (.established (List.replicate 10 0))).callRpcMethod pb .timed [97] [1] .none
      false).any (fun x => decide (x.1 = false)
        && (exec (step pb) x.2 [.expire 0, .dead 0]).any fun c => decide (c.ran 0 = 1)) = true := by
    decide +kernel
  obtain ⟨⟨r, c'⟩, hc, hp⟩ := (Option.any_eq_true ..).mp h1
  rw [Bool.and_eq_true, decide_eq_true_eq] at hp
  obtain ⟨c'', hrun, hran⟩ := (Option.any_eq_true ..).mp hp.2
  have hr : r = false := hp.1
  rw [hr] at hc
  have h2 := (h pb _ [] _ rfl .timed (by decide) [97] [1] .none false c' hc).2 _ c'' hrun
  have h3 : c''.ran 0 = 1 := of_decide_eq_true hran
  have h4 : c''.ran 0 = 0 := h2
  omega

end RpcClient

end JMEngine.Rpc
