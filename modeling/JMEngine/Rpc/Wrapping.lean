import JMEngine.Net.WriteBuffer
import JMEngine.Rpc.Numbers

/-!
# Numbers that wrap around

`++_methodId` beyond `INT_MAX` has no defined behaviour; what compilers make of it is the next number
modulo 2^32.  Here a client runs on with that: its numbers come back after 2^32 calls, while a call that
is never answered keeps its entry for good.

* `RpcClient.registerWrapping`   the locked block of `callRpcMethod` with a counter that wraps around;
  it is `register` wherever `register` is defined (`register_wrapping`);
* `Wrapping.step`       runs of such a client, with the count of the numbers given and, for each key,
                        the count at its last registration;
* `Wrapping.Counted`    key and count agree modulo 2^32; every event keeps this (`step_counted`);
* `fresh_iff_apart`     **a registration finds its key free exactly when no entry is left that was made
                        a multiple of 2^32 numbers before.**
-/

set_option linter.unusedSectionVars false

namespace JMEngine.Rpc
open JMEngine.Net Runs

/-- whether the block evaluates `_cbs[_methodId]` -/
def touches : Overload → Fault → Bool
  | .plain, _ => false
  | _, .lock => false
  | _, .create inserted => inserted
  | _, .none => true

theorem touches_of_ne {o : Overload} (ho : o ≠ .plain) (b : Bool) :
    touches o .none = true ∧ touches o (.create b) = b := by
  cases o with
  | plain => exact absurd rfl ho
  | callback => exact ⟨rfl, rfl⟩
  | timed => exact ⟨rfl, rfl⟩

theorem ne_lock_of_touches {o : Overload} {f : Fault} (h : touches o f = true) : f ≠ .lock := by
  intro hf
  rw [hf] at h
  cases o <;> cases h

namespace RpcClient

/-- the locked block, where `++_methodId` is the next number modulo 2^32 -/
def registerWrapping (c : RpcClient) (k : Nat) (o : Overload) (f : Fault) : RpcClient :=
  if f = .lock then c.setPhase k (.returned none false)
  else
    let id := c._methodId + 1
    let c1 := { c with _methodId := id }
    match o, f with
    | .plain, _ => c1.setPhase k (.registered id)
    | _, .create inserted =>
      (if inserted then c1.subscript id else c1).setPhase k (.returned (some id) false)
    | o, _ => (c1.assign id ⟨k, o = .timed⟩).setPhase k (.registered id)

theorem register_wrapping {c c' : RpcClient} {k : Nat} {o : Overload} {f : Fault}
    {i : Option (BitVec 32)} (h : c.register k o f = some (c', i)) :
    c' = c.registerWrapping k o f := by
  unfold register at h
  unfold registerWrapping
  split at h
  · rename_i hf
    rw [if_pos hf]
    exact (Prod.mk.inj (Option.some.inj h)).1.symm
  · rename_i hf
    rw [if_neg hf]
    split at h
    · cases h
    · dsimp only at h ⊢
      cases o <;> cases f
      all_goals first
        | exact absurd rfl hf
        | exact (Prod.mk.inj (Option.some.inj h)).1.symm

theorem registerWrapping_spec (c : RpcClient) (k : Nat) (o : Overload) (f : Fault) :
    (c.registerWrapping k o f)._methodId = (if f = .lock then c._methodId else c._methodId + 1)
    ∧ (touches o f = false → (c.registerWrapping k o f)._cbs = c._cbs)
    ∧ ∀ id, id ≠ c._methodId + 1 → (c.registerWrapping k o f)._cbs id = c._cbs id := by
  unfold registerWrapping
  by_cases hf : f = .lock
  · rw [if_pos hf, if_pos hf]
    exact ⟨rfl, fun _ => rfl, fun _ _ => rfl⟩
  rw [if_neg hf, if_neg hf]
  dsimp only
  split
  · exact ⟨rfl, fun _ => rfl, fun _ _ => rfl⟩
  · rename_i inserted ho
    cases inserted with
    | false => exact ⟨rfl, fun _ => rfl, fun _ _ => rfl⟩
    | true =>
      refine ⟨rfl, fun ht => ?_, fun id hid => Function.update_of_ne hid _ _⟩
      rw [(touches_of_ne ho true).2] at ht
      cases ht
  · rename_i ho hcreate
    obtain ⟨_, _, _, _, h5⟩ := assign_spec { c with _methodId := c._methodId + 1 }
      (c._methodId + 1) ⟨k, decide (o = .timed)⟩
    refine ⟨h5, fun ht => ?_, fun id hid => Function.update_of_ne hid _ _⟩
    cases f with
    | none =>
      rw [(touches_of_ne ho true).1] at ht
      cases ht
    | lock => exact absurd rfl hf
    | create inserted => exact absurd rfl (hcreate inserted)

theorem step_keeps {codec : Codec} {c c' : RpcClient} {e : RpcEvent}
    (he : ∀ k f, e ≠ .register k f) (h : c.step codec e = some c') :
    c'._methodId = c._methodId ∧ ∀ id, c._cbs id = none → c'._cbs id = none := by
  have hm : c'._methodId = c._methodId := by
    cases e with
    | session s => cases h; rfl
    | enter o method params => cases h; rfl
    | register k f => exact absurd rfl (he k f)
    | finish k throws =>
      obtain ⟨_, _, _, _, _, _, rfl⟩ := step_finish h
      rfl
    | receive msg =>
      cases h
      exact (receive_keeps c msg).2
    | expire i =>
      obtain ⟨_, _, rfl⟩ := Option.map_eq_some_iff.mp h
      rfl
    | dead i =>
      obtain ⟨w, _, rfl⟩ := Option.map_eq_some_iff.mp h
      unfold rpcDeadCallback
      split
      · rfl
      · exact (removeDeadRPC_spec _ _).2.2.2.2
  refine ⟨hm, ?_⟩
  cases step_numbering h with
  | keep _ _ ht => exact ht
  | next k _ hnext =>
    rw [hm] at hnext
    exact absurd hnext (by bv_omega)

end RpcClient

/-- a client whose numbers wrap around, how many numbers it has given, and for each key the number of
its last registration among them -/
structure Wrapping where
  client : RpcClient
  given : Nat
  since : BitVec 32 → Nat

namespace Wrapping

def new (s : TcpSession) : Wrapping := ⟨.new s, 0, fun _ => 0⟩

def register (w : Wrapping) (k : Nat) (o : Overload) (f : Fault) : Wrapping where
  client := w.client.registerWrapping k o f
  given := if f = .lock then w.given else w.given + 1
  since := if touches o f then Function.update w.since (w.client._methodId + 1) (w.given + 1)
    else w.since

def step (codec : Codec) (w : Wrapping) : RpcEvent → Option Wrapping
  | .register k f =>
    match w.client.calls[k]? with
    | some ⟨o, _, _, .checked⟩ => some (w.register k o f)
    | _ => none
  | e => (w.client.step codec e).map fun c => { w with client := c }

/-- the block is about to put a callback into the table -/
def registers (w : Wrapping) : RpcEvent → Bool
  | .register k f =>
    match w.client.calls[k]? with
    | some ⟨o, _, _, .checked⟩ => touches o f
    | _ => false
  | _ => false

/-- a registration finds no entry under its number, and the number is not that of an empty message -/
def Fresh (w : Wrapping) (e : RpcEvent) : Prop :=
  w.registers e = true → w.client._cbs (w.client._methodId + 1) = none ∧ w.client._methodId + 1 ≠ 0

/-- no registration is the 2^32-nd, and none happens while an entry is left that was made a multiple of
2^32 numbers before -/
def Apart (w : Wrapping) (e : RpcEvent) : Prop :=
  w.registers e = true → (w.given + 1) % 4294967296 ≠ 0 ∧
    ∀ id, w.client._cbs id ≠ none → (w.given + 1 - w.since id) % 4294967296 ≠ 0

section
variable {codec : Codec} {w w' : Wrapping}

theorem step_other {e : RpcEvent} (he : ∀ k f, e ≠ .register k f) :
    w.step codec e = (w.client.step codec e).map fun c => { w with client := c } := by
  cases e with
  | register k f => exact absurd rfl (he k f)
  | session s => rfl
  | enter o m p => rfl
  | finish k throws => rfl
  | receive msg => rfl
  | expire i => rfl
  | dead i => rfl

/-- where the C++ has defined behaviour, this is it -/
theorem step_refines {e : RpcEvent} {c' : RpcClient} (h : w.client.step codec e = some c') :
    ∃ w', w.step codec e = some w' ∧ w'.client = c' := by
  by_cases he : ∃ k f, e = .register k f
  · obtain ⟨k, f, rfl⟩ := he
    obtain ⟨⟨o, m, p, phase⟩, i, hk, hp, hr⟩ := RpcClient.step_register h
    have hp : phase = .checked := hp
    rw [hp] at hk
    refine ⟨w.register k o f, ?_, (RpcClient.register_wrapping hr).symm⟩
    rw [step, hk]
  · refine ⟨{ w with client := c' }, ?_, rfl⟩
    rw [step_other (fun k f h => he ⟨k, f, h⟩), h]
    rfl

theorem step_cases {e : RpcEvent} (h : w.step codec e = some w') :
    (∃ k f o, e = .register k f ∧ w' = w.register k o f ∧ w.registers e = touches o f)
    ∨ (w.registers e = false ∧ w'.given = w.given ∧ w'.since = w.since
      ∧ w'.client._methodId = w.client._methodId
      ∧ ∀ id, w.client._cbs id = none → w'.client._cbs id = none) := by
  by_cases he : ∃ k f, e = .register k f
  · obtain ⟨k, f, rfl⟩ := he
    rw [step] at h
    split at h
    · rename_i o m p hk
      refine Or.inl ⟨k, f, o, rfl, (Option.some.inj h).symm, ?_⟩
      rw [registers, hk]
    · cases h
  · have hne : ∀ k f, e ≠ .register k f := fun k f h => he ⟨k, f, h⟩
    rw [step_other hne] at h
    obtain ⟨c, hc, rfl⟩ := Option.map_eq_some_iff.mp h
    refine Or.inr ⟨?_, rfl, rfl, RpcClient.step_keeps hne hc⟩
    cases e <;> first | rfl | exact absurd rfl (hne _ _)

/-- `_methodId` is the count modulo 2^32, and so is every key at its registration -/
structure Counted (w : Wrapping) : Prop where
  methodId : w.client._methodId = BitVec.ofNat 32 w.given
  keys : ∀ id, w.client._cbs id ≠ none → BitVec.ofNat 32 (w.since id) = id ∧ w.since id ≤ w.given

theorem counted_new (s : TcpSession) : (new s).Counted :=
  ⟨rfl, fun _ h => absurd rfl h⟩

theorem Counted.next (h : w.Counted) : w.client._methodId + 1 = BitVec.ofNat 32 (w.given + 1) := by
  rw [h.methodId]
  exact (BitVec.ofNat_add w.given 1).symm

theorem Counted.register (h : w.Counted) (k : Nat) (o : Overload) (f : Fault) :
    (w.register k o f).Counted := by
  obtain ⟨h1, h2, h3⟩ := w.client.registerWrapping_spec k o f
  unfold Wrapping.register
  constructor
  · dsimp only
    rw [h1]
    by_cases hf : f = .lock
    · rw [if_pos hf, if_pos hf]
      exact h.methodId
    · rw [if_neg hf, if_neg hf]
      exact h.next
  · intro id hid
    dsimp only at hid ⊢
    have hle : w.given ≤ if f = .lock then w.given else w.given + 1 := by split <;> omega
    cases ht : touches o f with
    | false =>
      rw [h2 ht] at hid
      obtain ⟨e, hs⟩ := h.keys id hid
      exact ⟨e, hs.trans hle⟩
    | true =>
      rw [if_pos rfl]
      by_cases e : id = w.client._methodId + 1
      · have hf : f ≠ .lock := ne_lock_of_touches ht
        rw [e, Function.update_self, if_neg hf]
        exact ⟨h.next.symm, Nat.le_refl _⟩
      · rw [h3 id e] at hid
        rw [Function.update_of_ne e]
        obtain ⟨e', hs⟩ := h.keys id hid
        exact ⟨e', hs.trans hle⟩

theorem step_counted {e : RpcEvent} (h : w.Counted) (hs : w.step codec e = some w') : w'.Counted := by
  rcases step_cases hs with ⟨k, f, o, _, rfl, _⟩ | ⟨_, hg, hsince, hm, ht⟩
  · exact h.register k o f
  · refine ⟨by rw [hm, hg]; exact h.methodId, fun id hid => ?_⟩
    rw [hsince, hg]
    exact h.keys id (fun e => hid (ht id e))

/-- **A registration finds its key free exactly when the entries are apart.** -/
theorem Counted.fresh_iff (h : w.Counted) (e : RpcEvent) : w.Fresh e ↔ w.Apart e := by
  unfold Fresh Apart
  refine forall_congr' fun _ => ?_
  have hzero : w.client._methodId + 1 ≠ 0 ↔ (w.given + 1) % 4294967296 ≠ 0 := by
    rw [h.next, Ne, ← BitVec.toNat_inj, BitVec.toNat_ofNat]
    exact Iff.rfl
  -- two counts have the same key exactly when they differ by a multiple of 2^32
  have hkey : ∀ id, w.client._cbs id ≠ none →
      ((w.given + 1 - w.since id) % 4294967296 = 0 ↔ w.client._methodId + 1 = id) := by
    intro id hid
    obtain ⟨e, hle⟩ := h.keys id hid
    rw [h.next, ← BitVec.toNat_inj, ← congrArg BitVec.toNat e, BitVec.toNat_ofNat,
      BitVec.toNat_ofNat]
    show _ ↔ (w.given + 1) % 4294967296 = w.since id % 4294967296
    omega
  rw [and_comm]
  refine and_congr hzero ⟨fun hfree id hid hm => ?_, fun hall => ?_⟩
  · rw [(hkey id hid).mp hm] at hfree
    exact hid hfree
  · by_contra hid
    exact hall _ hid ((hkey _ hid).mpr rfl)

theorem given_le {e : RpcEvent} (h : w.step codec e = some w') : w.given ≤ w'.given := by
  rcases step_cases h with ⟨k, f, o, _, rfl, _⟩ | ⟨_, hg, _⟩
  · unfold register
    dsimp only
    split <;> omega
  · exact hg.ge

theorem given_registers {e : RpcEvent} (h : w.step codec e = some w') (hr : w.registers e = true) :
    w'.given = w.given + 1 := by
  rcases step_cases h with ⟨k, f, o, _, rfl, ht⟩ | ⟨hn, _⟩
  · have hf : f ≠ .lock := ne_lock_of_touches (ht.symm.trans hr)
    exact if_neg hf
  · rw [hn] at hr
    cases hr

end

/-- **No entry is overwritten, as long as none is older than 2^32 numbers.**  The registrations of a run
all find their key free and never use 0 exactly when none of them is a multiple of 2^32 numbers behind
an entry that is still there or behind the start; in particular when the run gives fewer than 2^32
numbers. -/
theorem fresh_iff_apart (codec : Codec) (s : TcpSession) (es : List RpcEvent) (w : Wrapping)
    (hrun : exec (step codec) (new s) es = some w) :
    (Guarded (step codec) Fresh (new s) es ↔ Guarded (step codec) Apart (new s) es)
    ∧ (w.given < 4294967296 → Guarded (step codec) Fresh (new s) es) := by
  have hstep : ∀ (w : Wrapping) e w', w.Counted → w.step codec e = some w' → w'.Counted :=
    fun _ _ _ h hs => step_counted h hs
  refine ⟨guarded_iff (step codec) hstep (fun w e h => h.fresh_iff e) es _ (counted_new s), ?_⟩
  intro hlt
  refine guarded_of_le (step codec) (n := 4294967295) hstep (fun _ _ _ hs => given_le hs)
    (fun v e v' hI hs hle => ?_) es _ w (counted_new s) hrun (by omega)
  refine (hI.fresh_iff e).mpr fun hr => ?_
  rw [given_registers hs hr] at hle
  refine ⟨by omega, fun id hid => ?_⟩
  have := (hI.keys id hid).2
  omega

/-- a call that is answered, one that is not, and one without callback -/
theorem fresh_iff_apart_three :
    ∃ w, exec (step pb) (new (.established (List.replicate 200 0)))
        [.enter .callback [97] [], .register 0 .none, .finish 0 false,
          .enter .timed [97] [], .register 1 .none, .finish 1 false,
          .receive (rpcMessage pb ⟨1, [97], [7]⟩),
          .enter .plain [97] [], .register 2 .none, .finish 2 false] = some w
      ∧ w.given = 3 ∧ Guarded (step pb) Fresh (new (.established (List.replicate 200 0)))
        [.enter .callback [97] [], .register 0 .none, .finish 0 false,
          .enter .timed [97] [], .register 1 .none, .finish 1 false,
          .receive (rpcMessage pb ⟨1, [97], [7]⟩),
          .enter .plain [97] [], .register 2 .none, .finish 2 false] := by
  have h : (exec (step pb) (new (.established (List.replicate 200 0)))
      [.enter .callback [97] [], .register 0 .none, .finish 0 false,
        .enter .timed [97] [], .register 1 .none, .finish 1 false,
        .receive (rpcMessage pb ⟨1, [97], [7]⟩),
        .enter .plain [97] [], .register 2 .none, .finish 2 false]).any
      (fun w => decide (w.given = 3)) = true := by
    decide +kernel
  obtain ⟨w, hw, hp⟩ := (Option.any_eq_true ..).mp h
  have hg : w.given = 3 := of_decide_eq_true hp
  exact ⟨w, hw, hg, (fresh_iff_apart pb _ _ w hw).2 (by omega)⟩

/-! ## a call that is never answered -/

/-- the session of a client whose frames have all been sent -/
def idle : TcpSession := .established (List.replicate 64 0)

theorem idle_writes (id : BitVec 32) :
    ∃ r t es, idle.writeMessage (rpcMessage pb ⟨id, [97], []⟩) = some (r, t, es) := by
  have hlen : (Pb.serializeAsString ⟨id, [97], []⟩).length ≤ 16 := by
    have := Pb.length_writeVarint 10 (id.signExtend 64).toNat
    unfold Pb.serializeAsString Pb.writeInt32 Pb.varint
    rw [List.length_append, List.length_append, List.length_cons]
    have e : (Pb.writeBytes 18 [97]).length + (Pb.writeBytes 26 []).length = 5 := by decide
    dsimp only
    omega
  obtain ⟨r, t, es, h, _⟩ := TcpSession.writeMessage_spec
    (TcpSession.established_writeOk (List.replicate 64 0) (by decide)) (fun _ => rfl)
    (Message.ofStr_sound RPCMessage (Pb.serializeAsString ⟨id, [97], []⟩) (by omega))
  exact ⟨r, t, es, h⟩

/-- a call without callback, and the time to send it -/
def plainCall (k : Nat) : List RpcEvent :=
  [.enter .plain [97] [], .register k .none, .finish k false, .session idle]

theorem finish_idle {w : Wrapping} {k : Nat} {id : BitVec 32} (hs : w.client._session = idle)
    (hk : w.client.calls[k]? = some ⟨.plain, [97], [], .registered id⟩) :
    ∃ w', w.step pb (.finish k false) = some w' ∧ w'.client._cbs = w.client._cbs
      ∧ w'.client._methodId = w.client._methodId := by
  obtain ⟨r, t, es, hwrite⟩ := idle_writes id
  refine ⟨{ w with client := { w.client with _session := t }.setPhase k (.returned (some id) r) },
    ?_, rfl, rfl⟩
  rw [step_other (fun _ _ h => by cases h), RpcClient.step, hk]
  dsimp only
  rw [RpcClient.finish, if_neg Bool.false_ne_true, hs, hwrite]
  rfl

theorem exec_plainCall {w : Wrapping} (hs : w.client._session = idle) :
    ∃ w', exec (step pb) w (plainCall w.client.calls.length) = some w'
      ∧ w'.client._session = idle ∧ w'.client._cbs = w.client._cbs
      ∧ w'.client._methodId = w.client._methodId + 1 := by
  generalize hk : w.client.calls.length = k
  generalize hw1 : ({ w with client := w.client.enter .plain [97] [] } : Wrapping) = w1
  have h1 : w1.client.calls[k]? = some ⟨.plain, [97], [], .checked⟩ := by
    rw [← hw1]
    unfold RpcClient.enter
    dsimp only
    rw [hs, ← hk]
    exact List.getElem?_concat_length
  have h2 : (w1.register k .plain .none).client.calls[k]?
      = some ⟨.plain, [97], [], .registered (w1.client._methodId + 1)⟩ := by
    have e := RpcClient.calls_setPhase { w1.client with _methodId := w1.client._methodId + 1 } k
      (.registered (w1.client._methodId + 1)) k
    rw [h1, Option.map_some, if_pos rfl] at e
    exact e
  have hs1 : (w1.register k .plain .none).client._session = idle := by
    rw [← hw1]
    exact hs
  have henter : w.step pb (.enter .plain [97] []) = some w1 := congrArg some hw1
  have hregister : w1.step pb (.register k .none) = some (w1.register k .plain .none) := by
    rw [step, h1]
  obtain ⟨w2, hfinish, ht, hm⟩ := finish_idle hs1 h2
  refine ⟨{ w2 with client := { w2.client with _session := idle } }, ?_, rfl, ?_, ?_⟩
  · unfold plainCall
    rw [exec_cons (step pb) _ henter, exec_cons (step pb) _ hregister,
      exec_cons (step pb) _ hfinish]
    rfl
  · refine ht.trans ?_
    rw [← hw1]
    rfl
  · refine hm.trans ?_
    rw [← hw1]
    rfl

theorem exec_plainCalls (n : Nat) {w : Wrapping} (hs : w.client._session = idle) :
    ∃ es w', exec (step pb) w es = some w' ∧ w'.client._session = idle
      ∧ w'.client._cbs = w.client._cbs ∧ w'.client._methodId = w.client._methodId + BitVec.ofNat 32 n := by
  induction n generalizing w with
  | zero => exact ⟨[], w, rfl, hs, rfl, (BitVec.add_zero _).symm⟩
  | succ n ih =>
    obtain ⟨w1, h1, hs1, ht1, hm1⟩ := exec_plainCall hs
    obtain ⟨es, w2, h2, hs2, ht2, hm2⟩ := ih hs1
    refine ⟨plainCall w.client.calls.length ++ es, w2, ?_, hs2, ht2.trans ht1, ?_⟩
    · rw [exec_append (step pb) es h1]
      exact h2
    · rw [hm2, hm1, BitVec.add_assoc, Nat.add_comm n 1]
      exact congrArg (w.client._methodId + ·) (BitVec.ofNat_add 1 n).symm

def firstCall : List RpcEvent :=
  [.enter .callback [97] [], .register 0 .none, .finish 0 false, .session idle]

theorem firstCall_run : ∃ w, exec (step pb) (new idle) firstCall = some w ∧
    w.client._session = idle ∧ (w.client._cbs 1).isSome = true ∧ w.client._methodId = 1 := by
  have h : (exec (step pb) (new idle) firstCall).any (fun w => decide (w.client._session = idle)
      && (w.client._cbs 1).isSome && decide (w.client._methodId = 1)) = true := by
    decide +kernel
  obtain ⟨w, hw, hp⟩ := (Option.any_eq_true ..).mp h
  rw [Bool.and_eq_true, Bool.and_eq_true, decide_eq_true_eq, decide_eq_true_eq] at hp
  exact ⟨w, hw, hp.1.1, hp.1.2, hp.2⟩

/-- a callback is registered under 1 and never called; 2^32 - 1 calls later the number is 1 again -/
theorem not_always_fresh :
    ¬ ∀ (codec : Codec) (s : TcpSession) (es : List RpcEvent) (w : Wrapping),
      exec (step codec) (new s) es = some w → Guarded (step codec) Fresh (new s) es := by
  intro h
  obtain ⟨w0, hw0, hs0, ht0, hm0⟩ := firstCall_run
  obtain ⟨es, w1, hw1, hs1, ht1, hm1⟩ := exec_plainCalls 4294967295 hs0
  generalize hw2 : ({ w1 with client := w1.client.enter .callback [97] [] } : Wrapping) = w2
  have hk : w2.client.calls[w1.client.calls.length]? = some ⟨.callback, [97], [], .checked⟩ := by
    rw [← hw2]
    unfold RpcClient.enter
    dsimp only
    rw [hs1]
    exact List.getElem?_concat_length
  have hrun2 : exec (step pb) (new idle) (firstCall ++ (es ++ [.enter .callback [97] []]))
      = some w2 := by
    rw [exec_append (step pb) _ hw0, exec_append (step pb) _ hw1]
    exact congrArg some hw2
  have hrun3 : exec (step pb) w2 [.register w1.client.calls.length .none]
      = some (w2.register w1.client.calls.length .callback .none) := by
    rw [exec, step, hk]
    rfl
  have hg := guarded_append_right (step pb)
    (h pb idle _ _ ((exec_append (step pb) _ hrun2).trans hrun3)) hrun2
  have hreg : w2.registers (.register w1.client.calls.length .none) = true := by
    rw [registers, hk]
    rfl
  have hfree := (hg.1 hreg).1
  have hm2 : w2.client._methodId + 1 = 1 := by
    rw [← hw2]
    show w1.client._methodId + 1 = 1
    rw [hm1, hm0]
    decide
  have ht2 : w2.client._cbs = w0.client._cbs := by
    rw [← hw2]
    exact ht1
  rw [hm2, ht2] at hfree
  rw [hfree] at ht0
  cases ht0

end Wrapping

end JMEngine.Rpc
