import JMEngine.Rpc.System

/-!
# Frames that are no complete RPC messages

Neither `sessionReceiveMessage` looks at the result of `ParseFromString`.  A body that does not parse
still leaves the fields it began with, or their defaults, and both sides go on with them: the client
answers the call whose number is left, the server runs the handler whose method is left.

* `RpcClient.Ignores`, `RpcSessionNetHandler.Ignores`   a frame without effect;
* `parse_rpc_id_only`, `parse_method_only`   incomplete bodies that leave any number, any method;
* `RpcClient.exists_malformed`, `RpcSessionNetHandler.exists_malformed`   wherever a call is pending or
  a method is registered there is an incomplete frame with an effect;
* `malformed_ignored_iff`   **which incomplete frames have none.**
-/

set_option linter.unusedSectionVars false

namespace JMEngine.Rpc
open JMEngine.Net Runs

/-! ## what an incomplete body leaves -/

theorem Pb.parse_rpc_id_only (v : BitVec 32) :
    Pb.parsed (Pb.writeInt32 v) = false ∧ Pb.parseFromString (Pb.writeInt32 v) = ⟨v, [], []⟩ := by
  have h : Pb.mergePartialFromCodedStream ((Pb.writeInt32 v).length + 1) ⟨none, none, none⟩
      (Pb.writeInt32 v) = (true, ⟨some v, none, none⟩) := by
    have e := Pb.merge_rpc_id (Pb.varint (v.signExtend 64).toNat).length.succ ⟨none, none, none⟩ [] v
    rw [List.append_nil] at e
    exact e
  unfold Pb.parsed Pb.parseFromString
  rw [h]
  exact ⟨rfl, rfl⟩

theorem Pb.parse_method_only (m : List UInt8) (hm : m.length < 2147483648) :
    Pb.parsed (Pb.writeBytes 18 m) = false ∧ Pb.parseFromString (Pb.writeBytes 18 m) = ⟨0, m, []⟩ := by
  have h : Pb.mergePartialFromCodedStream ((Pb.writeBytes 18 m).length + 1) ⟨none, none, none⟩
      (Pb.writeBytes 18 m) = (true, ⟨none, some m, none⟩) := by
    have e := Pb.merge_method (Pb.varint (m.length % 4294967296) ++ m).length.succ ⟨none, none, none⟩
      [] m hm
    rw [List.append_nil] at e
    exact e
  unfold Pb.parsed Pb.parseFromString
  rw [h]
  exact ⟨rfl, rfl⟩

theorem exists_frame {s : List UInt8} (h : s.length < 2147483634) (hbad : Pb.parsed s = false) :
    ∃ msg : Message, msg.Sound ∧ Pb.parsed msg.getMessageStr = false
      ∧ pb.parseFromString msg.getMessageStr = Pb.parseFromString s := by
  have hs := Message.ofStr_sound RPCMessage s h
  have e : (Message.ofStr RPCMessage s).getMessageStr = s := hs.getMessageStr
  exact ⟨_, hs, by rw [e]; exact hbad, by rw [e]; rfl⟩

/-! ## the client -/

namespace RpcClient

/-- the frame leaves table and timers as they are and calls no callback -/
structure Ignores (c : RpcClient) (msg : Message) : Prop where
  _cbs : (c.sessionReceiveMessage pb msg)._cbs = c._cbs
  invoked : (c.sessionReceiveMessage pb msg).invoked = c.invoked
  armed : (c.sessionReceiveMessage pb msg).armed = c.armed
  queued : (c.sessionReceiveMessage pb msg).queued = c.queued

theorem receive_cbs (codec : Codec) (c : RpcClient) (msg : Message) :
    (c.sessionReceiveMessage codec msg)._cbs
      (codec.parseFromString msg.getMessageStr).rpc_id = none := by
  unfold sessionReceiveMessage
  dsimp only
  split
  · assumption
  · exact Function.update_self ..
  · rename_i cb _
    cases cb._checkDead <;> exact Function.update_self ..

theorem ignores_iff (c : RpcClient) (msg : Message) :
    c.Ignores msg ↔ c._cbs (pb.parseFromString msg.getMessageStr).rpc_id = none := by
  constructor
  · intro h
    rw [← h._cbs]
    exact receive_cbs pb c msg
  · intro h
    have e : c.sessionReceiveMessage pb msg = c := by
      unfold sessionReceiveMessage
      dsimp only
      rw [h]
    exact ⟨by rw [e], by rw [e], by rw [e], by rw [e]⟩

theorem exists_malformed {c : RpcClient} {id : BitVec 32} (h : c._cbs id ≠ none) :
    ∃ msg : Message, msg.Sound ∧ Pb.parsed msg.getMessageStr = false ∧ ¬ c.Ignores msg := by
  obtain ⟨hbad, hid⟩ := Pb.parse_rpc_id_only id
  have hlen : (Pb.writeInt32 id).length ≤ 11 :=
    Nat.succ_le_succ (Pb.length_writeVarint 10 (id.signExtend 64).toNat)
  obtain ⟨msg, hs, hp, he⟩ := exists_frame (by omega) hbad
  refine ⟨msg, hs, hp, fun hi => h ?_⟩
  have hc := (c.ignores_iff msg).mp hi
  rw [he, hid] at hc
  exact hc

end RpcClient

/-! ## the server -/

namespace RpcSessionNetHandler

section
variable {σ : Type} (handlers : List UInt8 → Option (RpcHandler σ))

/-- the frame makes no handler run, leaves the state of the handlers as it is and is not answered -/
def Ignores (st : σ) (session : TcpSession) (msg : Message) : Prop :=
  sessionReceiveMessage handlers pb st session msg = some (st, [], [])

variable (st : σ) (session : TcpSession)

theorem ignores_iff (msg : Message) : Ignores handlers st session msg
    ↔ handlers (pb.parseFromString msg.getMessageStr).method = none := by
  unfold Ignores sessionReceiveMessage RpcHandlerInterface.execRpcHandler
  dsimp only
  generalize pb.parseFromString msg.getMessageStr = rpc
  constructor
  · intro h
    cases hm : handlers rpc.method with
    | none => rfl
    | some handler =>
      rw [hm] at h
      dsimp only at h
      generalize hr : handler st rpc.params = r at h
      obtain ⟨_ | result, st'⟩ := r
      · cases h
      · obtain ⟨out, _, he⟩ := Option.map_eq_some_iff.mp h
        cases he
  · intro h
    rw [h]

theorem exists_malformed {m : List UInt8} (hm : m.length < 2147483623) (h : handlers m ≠ none) :
    ∃ msg : Message, msg.Sound ∧ Pb.parsed msg.getMessageStr = false
      ∧ ¬ Ignores handlers st session msg := by
  obtain ⟨hbad, hmethod⟩ := Pb.parse_method_only m (by omega)
  have hlen : (Pb.writeBytes 18 m).length ≤ m.length + 11 := by
    have := Pb.length_writeVarint 10 (m.length % 4294967296)
    unfold Pb.writeBytes Pb.varint
    rw [List.length_cons, List.length_append]
    omega
  obtain ⟨msg, hs, hp, he⟩ := exists_frame (by omega) hbad
  refine ⟨msg, hs, hp, fun hi => h ?_⟩
  have hc := (ignores_iff handlers st session msg).mp hi
  rw [he, hmethod] at hc
  exact hc

end

end RpcSessionNetHandler

/-- **A frame has no effect exactly when the number it leaves is not pending and the method it leaves is
not registered**, in every state of the client and of the server's handlers and sessions, whether its body
parses or not. Every pending number and every registered method is left by a body that does not. -/
theorem malformed_ignored_iff {σ : Type} (handlers : List UInt8 → Option (RpcHandler σ))
    (c : RpcClient) (st : σ) (session : TcpSession) :
    (∀ msg : Message, (c.Ignores msg ↔ c._cbs (pb.parseFromString msg.getMessageStr).rpc_id = none)
      ∧ (RpcSessionNetHandler.Ignores handlers st session msg
        ↔ handlers (pb.parseFromString msg.getMessageStr).method = none))
    ∧ (∀ id, c._cbs id ≠ none → ∃ msg : Message, msg.Sound ∧ Pb.parsed msg.getMessageStr = false
      ∧ ¬ c.Ignores msg)
    ∧ ∀ m : List UInt8, m.length < 2147483623 → handlers m ≠ none →
      ∃ msg : Message, msg.Sound ∧ Pb.parsed msg.getMessageStr = false
        ∧ ¬ RpcSessionNetHandler.Ignores handlers st session msg :=
  ⟨fun msg => ⟨c.ignores_iff msg, RpcSessionNetHandler.ignores_iff handlers st session msg⟩,
    fun _ h => RpcClient.exists_malformed h,
    fun _ hm h => RpcSessionNetHandler.exists_malformed handlers st session hm h⟩

/-- the body ends inside the method; number 1 and method `a` are left, and neither is known -/
theorem malformed_ignored_iff_truncated :
    Pb.parsed (Message.ofStr RPCMessage [8, 1, 18, 2, 97]).getMessageStr = false
    ∧ (RpcClient.new (.established (List.replicate 64 0))).Ignores
        (Message.ofStr RPCMessage [8, 1, 18, 2, 97])
    ∧ RpcSessionNetHandler.Ignores
        (fun m => if m = [98] then some fun (st : Nat) p => (some p, st + 1) else none) 0
        (.established (List.replicate 64 0)) (Message.ofStr RPCMessage [8, 1, 18, 2, 97])
    ∧ ∃ msg : Message, msg.Sound ∧ Pb.parsed msg.getMessageStr = false
      ∧ ¬ RpcSessionNetHandler.Ignores
        (fun m => if m = [98] then some fun (st : Nat) p => (some p, st + 1) else none) 0
        (.established (List.replicate 64 0)) msg := by
  obtain ⟨h, _, h3⟩ := malformed_ignored_iff
    (fun m => if m = [98] then some fun (st : Nat) p => (some p, st + 1) else none)
    (RpcClient.new (.established (List.replicate 64 0))) 0 (.established (List.replicate 64 0))
  obtain ⟨h1, h2⟩ := h (Message.ofStr RPCMessage [8, 1, 18, 2, 97])
  have hm : (pb.parseFromString
      (Message.ofStr RPCMessage [8, 1, 18, 2, 97]).getMessageStr).method ≠ [98] := by
    decide +kernel
  refine ⟨by decide +kernel, h1.mpr rfl, h2.mpr (if_neg hm), h3 [98] (by decide) ?_⟩
  rw [if_pos rfl]
  exact Option.some_ne_none _

/-- a pending call is answered by a frame with nothing but its number, and a registered handler runs for
a frame with nothing but its method -/
theorem not_always_ignored :
    (¬ ∀ (s : TcpSession) (es : List RpcEvent) (c : RpcClient),
      exec (RpcClient.step pb) (.new s) es = some c →
        ∀ msg : Message, msg.Sound → Pb.parsed msg.getMessageStr = false → c.Ignores msg)
    ∧ ¬ ∀ (handlers : List UInt8 → Option (RpcHandler Nat)) (st : Nat) (session : TcpSession)
        (msg : Message), msg.Sound → Pb.parsed msg.getMessageStr = false →
          RpcSessionNetHandler.Ignores handlers st session msg := by
  constructor
  · intro h
    have h1 : (exec (RpcClient.step pb) (.new (.established (List.replicate 64 0)))
        [.enter .callback [97] [1], .register 0 .none, .finish 0 false]).any
        (fun c => (c._cbs 1).isSome) = true := by
      decide +kernel
    obtain ⟨c, hrun, hc⟩ := (Option.any_eq_true ..).mp h1
    obtain ⟨msg, hs, hbad, hi⟩ := RpcClient.exists_malformed (Option.isSome_iff_ne_none.mp hc)
    exact hi (h _ _ c hrun msg hs hbad)
  · intro h
    obtain ⟨msg, hs, hbad, hi⟩ := RpcSessionNetHandler.exists_malformed
      (fun _ => some fun (st : Nat) p => (some p, st + 1)) 0 (.established (List.replicate 64 0))
      (show [97].length < 2147483623 by decide) (Option.some_ne_none _)
    exact hi (h _ 0 _ msg hs hbad)

end JMEngine.Rpc
