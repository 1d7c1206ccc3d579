import JMEngine.Net.Lifecycle
import JMEngine.Lib.Runs

/-!
# A connection attempt that throws

`onConnect` writes `Connecting` before it resolves the name, parses the address or converts the port.

* `onConnect_throws`   the session after a call in which one of these throws;
* `connecting_stays`   while the session is not disconnected, `connect`, `reconnect` and the timer do
                       nothing, however often and with whatever address they come;
* `retry_iff`          the status is what it was iff nothing was called at all.
-/

set_option linter.unusedSectionVars false

namespace JMEngine.Net
open Runs

namespace TcpSession

theorem onConnect_throws (s : TcpSession) (x : ConnectCalls) (hx : x.throws = true) :
    (s.onConnect x).2 = [] ∧ (s.onConnect x).1._status =
      if s._status = .Disconnected then .Connecting else s._status := by
  unfold onConnect
  by_cases hd : s._status = .Disconnected
  · rw [if_neg (not_not.mpr hd), if_pos hd]
    dsimp only
    by_cases ha : s._asyncConnect = true
    · rw [if_pos ha, if_pos hx]
      exact ⟨rfl, rfl⟩
    · rw [if_neg ha, if_pos hx]
      exact ⟨rfl, rfl⟩
  · rw [if_pos hd, if_neg hd]
    exact ⟨rfl, rfl⟩

theorem onConnect_busy (s : TcpSession) (x : ConnectCalls) (h : s._status ≠ .Disconnected) :
    s.onConnect x = (s, []) :=
  if_pos h

end TcpSession

/-- the events that run `onConnect` -/
def LifeEvent.connects : LifeEvent → Bool
  | .connect _ => true
  | .reconnect _ => true
  | .timer _ => true
  | _ => false

namespace Lifecycle

theorem step_connects {o : Owner} {w w' : Lifecycle} {e : LifeEvent} (he : e.connects = true)
    (h : w.session._status ≠ .Disconnected) (hs : step o w e = some w') :
    w'.session = w.session ∧ w'.opened = w.opened := by
  cases e with
  | connect x =>
    have e1 : w.session.connect x = (w.session, []) := w.session.onConnect_busy x h
    rw [step, e1] at hs
    rw [← Option.some.inj hs]
    exact ⟨rfl, rfl⟩
  | reconnect x =>
    have e1 : w.session.reconnect x = (w.session, []) := w.session.onConnect_busy x h
    rw [step, e1] at hs
    rw [← Option.some.inj hs]
    exact ⟨rfl, rfl⟩
  | timer x =>
    have e1 : w.session.onReconnect x = (w.session, []) := w.session.onConnect_busy x h
    rw [step, e1] at hs
    by_cases ht : 0 < w.timers
    · rw [if_pos ht] at hs
      rw [← Option.some.inj hs]
      exact ⟨rfl, rfl⟩
    · rw [if_neg ht] at hs
      cases hs
  | _ => cases he

/-- **A session that is not disconnected stays as it is**, whatever calls and timers come. -/
theorem connecting_stays {o : Owner} {w w' : Lifecycle} (h : w.session._status ≠ .Disconnected)
    {es : List LifeEvent} (hes : ∀ e ∈ es, e.connects = true)
    (hrun : exec (step o) w es = some w') : w'.session = w.session ∧ w'.opened = w.opened := by
  refine exec_guarded (C := fun _ e => e.connects = true)
    (I := fun v => v.session = w.session ∧ v.opened = w.opened) (step o) ?_ es w w' ⟨rfl, rfl⟩
    (guarded_of_mem (step o) es (fun e he _ => hes e he) w) hrun
  intro v e v' hv he hs
  have hd : v.session._status ≠ .Disconnected := by
    rw [hv.1]
    exact h
  obtain ⟨h1, h2⟩ := step_connects he hd hs
  exact ⟨h1.trans hv.1, h2.trans hv.2⟩

end Lifecycle

/-- **A call that throws keeps the status iff the session was not disconnected**, and then it called
nothing. A disconnected session becomes one that no later call and no timer connects. -/
theorem retry_iff (s : TcpSession) (x : ConnectCalls) (hx : x.throws = true) :
    ((s.onConnect x).1._status = s._status ↔ s._status ≠ .Disconnected) ∧
    (s._status = .Disconnected → ∀ (o : Owner) (w w' : Lifecycle) (es : List LifeEvent),
      w.session = (s.onConnect x).1 → (∀ e ∈ es, e.connects = true) →
      exec (Lifecycle.step o) w es = some w' → w'.session = w.session ∧ w'.opened = w.opened) := by
  obtain ⟨-, hstatus⟩ := s.onConnect_throws x hx
  constructor
  · rw [hstatus]
    by_cases hd : s._status = .Disconnected
    · rw [if_pos hd, hd]
      decide
    · rw [if_neg hd]
      exact iff_of_true rfl hd
  · intro hd o w w' es hw hes hrun
    refine Lifecycle.connecting_stays ?_ hes hrun
    rw [hw, hstatus, if_pos hd]
    decide

def afterBadAddress : Lifecycle :=
  .new ((TcpSession.new none [] 16 5).onConnect ⟨true, .success⟩).1

/-- `connect` and `reconnect` with a good address do nothing to it -/
theorem retry_iff_new : ∃ w', exec (Lifecycle.step .RpcClient) afterBadAddress
      [.connect ⟨false, .success⟩, .reconnect ⟨false, .success⟩] = some w' ∧
    w'.session = afterBadAddress.session ∧ w'.opened = afterBadAddress.opened :=
  ⟨_, rfl, (retry_iff (TcpSession.new none [] 16 5) ⟨true, .success⟩ rfl).2 rfl .RpcClient
    afterBadAddress _ [.connect ⟨false, .success⟩, .reconnect ⟨false, .success⟩] rfl (by decide) rfl⟩

/-- a new session whose address does not resolve is left connecting -/
theorem status_not_restored : ¬ ∀ (s : TcpSession) (x : ConnectCalls), x.throws = true →
    (s.onConnect x).1._status = s._status := by
  intro h
  have h1 := h (TcpSession.new none [] 16 5) ⟨true, .success⟩ rfl
  revert h1
  decide

end JMEngine.Net
