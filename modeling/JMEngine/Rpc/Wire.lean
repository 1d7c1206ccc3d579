import JMEngine.Lib.Simulation
import JMEngine.Net.Duplex
import JMEngine.Rpc.Create
import JMEngine.Rpc.System

/-!
# Remote calls over byte streams

`System` has frames that arrive intact and in order. Here the frames are what the sessions make of
them: a client's session and the server's session of the same connection, with a byte stream each way.
The calls of `write_some` and `read_some` cut the streams anywhere, and messages wait for the logic
threads on either side.

* `Wire.step`                a step of a client, of a session, or of a logic thread;
* `Wire.Bounded`             no message and no read of `2^31` bytes;
* `Linked`                   a connection and the peer of `System` that it stands for;
* `wire_refines_system`      **every run over bytes is a run of `System`**, with the same clients, the
                             same state of the handlers, and the frames that are on their way.
-/

set_option linter.unusedSectionVars false

namespace JMEngine.Rpc
open JMEngine.Net Runs

section
variable {σ : Type} (handlers : List UInt8 → Option (RpcHandler σ))

/-- `sessionReceiveMessage` of the server, with what `writeMessage` makes of the session -/
def RpcSessionNetHandler.answer (codec : Codec) (st : σ) (session : TcpSession) (msg : Message) :
    Option (σ × TcpSession × List Message × List (HandlerRun σ)) :=
  let rpc := codec.parseFromString msg.getMessageStr
  match RpcHandlerInterface.execRpcHandler handlers st rpc.method rpc.params with
  | (none, st', runs) => some (st', session, [], runs)
  | (some result, st', runs) =>
    let out := rpcMessage codec ⟨rpc.rpc_id, rpc.method, result⟩
    (session.writeMessage out).map fun r => (st', r.2.1, if r.1 then [out] else [], runs)

end

/-- one connection: a client with its session, the session of the server, the two directions, and how
many of the messages posted on either side the logic thread has handled -/
structure Cable where
  client : RpcClient
  server : TcpSession
  up : Channel
  down : Channel
  served : Nat
  delivered : Nat

def Cable.duplex (c : Cable) : Duplex := ⟨c.client._session, c.server, c.up, c.down⟩

structure Wire (ι σ : Type) where
  cables : ι → Cable
  state : σ
  /-- the handlers that were run, each with the connection of the request -/
  executed : List (ι × HandlerRun σ)

inductive WireEvent (ι : Type) where
  /-- a part of `callRpcMethod`, a timer or a `RpcDeadCallback` -/
  | client (i : ι) (e : RpcEvent)
  /-- `handleWrite` or `handleRead` of a session -/
  | transport (i : ι) (e : Direction × LinkEvent)
  /-- the logic thread of the server takes the next message of the connection -/
  | serve (i : ι)
  /-- the logic thread of the client does -/
  | deliver (i : ι)

def RpcEvent.isSession : RpcEvent → Bool
  | .session _ => true
  | _ => false

end JMEngine.Rpc

namespace JMEngine.Net

def LinkEvent.isWrite : LinkEvent → Bool
  | .writeMessage _ => true
  | _ => false

end JMEngine.Net

namespace JMEngine.Rpc
open JMEngine.Net Runs

namespace Wire

section
variable {ι σ : Type} [DecidableEq ι]

def new (st : σ) (clients servers : ι → TcpSession) : Wire ι σ where
  cables := fun i => ⟨.new (clients i), servers i, .start, .start, 0, 0⟩
  state := st
  executed := []

def setCable (w : Wire ι σ) (i : ι) (c : Cable) : Wire ι σ :=
  { w with cables := Function.update w.cables i c }

/-- a part of a call; the session takes the message that it may write -/
def clientStep (codec : Codec) (c : Cable) (e : RpcEvent) : Option Cable :=
  if e.isReceive || e.isSession then none
  else (c.client.step codec e).map fun client =>
    { c with
      client := client
      up := { c.up with
        written := c.up.written ++ (Peer.accepted codec client e).map Frame.msg } }

def transportStep (c : Cable) (e : Direction × LinkEvent) : Option Cable :=
  if e.2.isWrite then none
  else (c.duplex.step e).map fun d =>
    { c with
      client := { c.client with _session := d.left }
      server := d.right
      up := d.up
      down := d.down }

def step (codec : Codec) (handlers : List UInt8 → Option (RpcHandler σ)) (w : Wire ι σ) :
    WireEvent ι → Option (Wire ι σ)
  | .client i e => (clientStep codec (w.cables i) e).map (w.setCable i)
  | .transport i e => (transportStep (w.cables i) e).map (w.setCable i)
  | .serve i =>
    let c := w.cables i
    match c.up.posted.drop c.served with
    | [] => none
    | msg :: _ =>
      (RpcSessionNetHandler.answer handlers codec w.state c.server msg).map fun r =>
        { w.setCable i { c with
            server := r.2.1
            down := { c.down with written := c.down.written ++ r.2.2.1 }
            served := c.served + 1 } with
          state := r.1
          executed := w.executed ++ r.2.2.2.map fun x => (i, x) }
  | .deliver i =>
    let c := w.cables i
    match c.down.posted.drop c.delivered with
    | [] => none
    | msg :: _ =>
      some (w.setCable i { c with
        client := c.client.sessionReceiveMessage codec msg
        delivered := c.delivered + 1 })

/-- the messages that are written give their length, and reads are bounded -/
def Bounded (codec : Codec) (handlers : List UInt8 → Option (RpcHandler σ)) (w : Wire ι σ) :
    WireEvent ι → Prop
  | .client i (.finish k _) => ∀ (call : Call) (id : BitVec 32),
      (w.cables i).client.calls[k]? = some call → call.phase = .registered id →
      (rpcMessage codec ⟨id, call.method, call.params⟩).Sound
  | .client _ _ => True
  | .transport i e => (w.cables i).duplex.Bounded e
  | .serve i => ∀ msg rest, (w.cables i).up.posted.drop (w.cables i).served = msg :: rest →
      ∀ result r, RpcHandlerInterface.execRpcHandler handlers w.state
          (codec.parseFromString msg.getMessageStr).method
          (codec.parseFromString msg.getMessageStr).params = (some result, r) →
        (rpcMessage codec ⟨(codec.parseFromString msg.getMessageStr).rpc_id,
          (codec.parseFromString msg.getMessageStr).method, result⟩).Sound
  | .deliver _ => True

end

end Wire

/-! ## What the parts do to a connection -/

section
variable {σ : Type} {handlers : List UInt8 → Option (RpcHandler σ)} {codec : Codec}

theorem RpcSessionNetHandler.answer_receive {st st' : σ} {session session' : TcpSession}
    {msg : Message} {out : List Message} {runs : List (HandlerRun σ)}
    (h : RpcSessionNetHandler.answer handlers codec st session msg = some (st', session', out, runs)) :
    RpcSessionNetHandler.sessionReceiveMessage handlers codec st session msg
      = some (st', out, runs) := by
  unfold RpcSessionNetHandler.answer at h
  unfold RpcSessionNetHandler.sessionReceiveMessage RpcServer.response
  dsimp only at h ⊢
  generalize RpcHandlerInterface.execRpcHandler handlers st _ _ = executed at h ⊢
  obtain ⟨_ | result, st1, runs1⟩ := executed
  · cases h
    rfl
  · obtain ⟨r, hr, he⟩ := Option.map_eq_some_iff.mp h
    cases he
    dsimp only
    rw [hr]
    rfl

theorem RpcSessionNetHandler.answer_cases {st st' : σ} {session session' : TcpSession}
    {msg : Message} {out : List Message} {runs : List (HandlerRun σ)}
    (h : RpcSessionNetHandler.answer handlers codec st session msg = some (st', session', out, runs)) :
    session' = session ∧ out = [] ∨ ∃ result rest r es m,
      RpcHandlerInterface.execRpcHandler handlers st (codec.parseFromString msg.getMessageStr).method
        (codec.parseFromString msg.getMessageStr).params = (some result, rest) ∧
      m = rpcMessage codec ⟨(codec.parseFromString msg.getMessageStr).rpc_id,
        (codec.parseFromString msg.getMessageStr).method, result⟩ ∧
      session.writeMessage m = some (r, session', es) ∧ out = if r then [m] else [] := by
  unfold RpcSessionNetHandler.answer at h
  dsimp only at h
  split at h
  · cases h
    exact .inl ⟨rfl, rfl⟩
  · next result st1 runs1 hex =>
    obtain ⟨⟨r, s, es⟩, hr, he⟩ := Option.map_eq_some_iff.mp h
    cases he
    exact .inr ⟨result, _, r, es, _, hex, rfl, hr, rfl⟩

theorem RpcClient.session_register {c c' : RpcClient} {k : Nat} {o : Overload} {f : Fault}
    {id : Option (BitVec 32)} (h : c.register k o f = some (c', id)) : c'._session = c._session := by
  unfold RpcClient.register at h
  split at h
  · cases h
    rfl
  · split at h
    · cases h
    · dsimp only at h
      split at h
      · cases h
        rfl
      · cases h
        split <;> rfl
      · cases h
        exact RpcClient.session_assign _ _ _

theorem RpcClient.step_session {c c' : RpcClient} {e : RpcEvent} (hr : e.isReceive = false)
    (hs : e.isSession = false) (h : c.step codec e = some c') :
    c'._session = c._session ∧ Peer.accepted codec c' e = [] ∨
    ∃ k call id r s es m, e = .finish k false ∧ c.calls[k]? = some call ∧
      call.phase = .registered id ∧ m = rpcMessage codec ⟨id, call.method, call.params⟩ ∧
      c._session.writeMessage m = some (r, s, es) ∧ c'._session = s ∧
      Peer.accepted codec c' e = if r then [⟨k, m⟩] else [] := by
  cases e with
  | session s => cases hs
  | receive msg => cases hr
  | enter o method params =>
    cases h
    exact .inl ⟨rfl, rfl⟩
  | register k f =>
    unfold RpcClient.step at h
    dsimp only at h
    split at h
    · obtain ⟨⟨c1, id⟩, h1, rfl⟩ := Option.map_eq_some_iff.mp h
      exact .inl ⟨session_register h1, rfl⟩
    · cases h
  | finish k throws =>
    unfold RpcClient.step at h
    dsimp only at h
    split at h
    · next o method params id hk =>
      obtain ⟨⟨r, c1⟩, h1, rfl⟩ := Option.map_eq_some_iff.mp h
      have hphase : ∀ (b : RpcClient) (p : Phase), b.calls = c.calls →
          (b.setPhase k p).calls[k]? = some ⟨o, method, params, p⟩ := by
        intro b p hb
        show (b.calls.modify k _)[k]? = _
        rw [hb, List.getElem?_modify_eq, hk]
        rfl
      unfold RpcClient.finish at h1
      split at h1
      · cases h1
        refine .inl ⟨rfl, ?_⟩
        unfold Peer.accepted
        dsimp only
        rw [hphase c _ rfl]
      · next ht =>
        have ht' : throws = false := Bool.eq_false_iff.mpr ht
        subst ht'
        split at h1
        · cases h1
        · next r' s es hw =>
          cases h1
          refine .inr ⟨k, _, id, r, s, es, _, rfl, hk, rfl, rfl, hw, rfl, ?_⟩
          unfold Peer.accepted
          dsimp only
          rw [hphase { c with _session := s } _ rfl]
          cases r <;> rfl
    · cases h
  | expire i =>
    obtain ⟨d, _, rfl⟩ := Option.map_eq_some_iff.mp h
    exact .inl ⟨rfl, rfl⟩
  | dead i =>
    obtain ⟨w, _, rfl⟩ := Option.map_eq_some_iff.mp h
    refine .inl ⟨?_, rfl⟩
    unfold RpcClient.rpcDeadCallback
    split
    · rfl
    · show (RpcClient.removeDeadRPC _ _)._session = _
      unfold RpcClient.removeDeadRPC
      split
      · rfl
      · exact RpcClient.session_release _ _

end

/-! ## The simulation -/

end JMEngine.Rpc

namespace JMEngine.Net.Duplex
open TcpSession

theorem Inv.write_up {d : Duplex} (h : d.Inv) {m : Message} (hm : m.Sound) {r : Bool} {s : TcpSession}
    {es : List Effect} (hw : d.left.writeMessage m = some (r, s, es)) :
    Inv ⟨s, d.right, { d.up with written := d.up.written ++ if r then [m] else [] }, d.down⟩ := by
  obtain ⟨⟨n, hu⟩, ⟨k, hd⟩⟩ := h
  have hl : d.upLink.step (.writeMessage m) =
      some { d.upLink with tx := s, written := d.up.written ++ if r then [m] else [] } := by
    unfold Link.step
    rw [if_pos hu.enabled]
    dsimp only
    rw [if_pos hm, show d.upLink.tx.writeMessage m = some (r, s, es) from hw]
    cases r with
    | true => rfl
    | false =>
      rw [if_neg Bool.false_ne_true, List.append_nil]
      rfl
  exact step_inv d (.up, .writeMessage m) _ ⟨⟨n, hu⟩, ⟨k, hd⟩⟩ trivial
    (show Option.map _ (d.upLink.step (.writeMessage m)) = _ by rw [hl]; rfl)

theorem Inv.write_down {d : Duplex} (h : d.Inv) {m : Message} (hm : m.Sound) {r : Bool}
    {s : TcpSession} {es : List Effect} (hw : d.right.writeMessage m = some (r, s, es)) :
    Inv ⟨d.left, s, d.up, { d.down with written := d.down.written ++ if r then [m] else [] }⟩ := by
  have hsym : Inv ⟨d.right, d.left, d.down, d.up⟩ := ⟨h.down, h.up⟩
  have h' := hsym.write_up hm hw
  exact ⟨h'.down, h'.up⟩

theorem written_transport {d d' : Duplex} {e : Direction × LinkEvent} (he : e.2.isWrite = false)
    (hs : d.step e = some d') : d'.up.written = d.up.written ∧ d'.down.written = d.down.written := by
  have hl : ∀ (s s' : Link) (e : LinkEvent), e.isWrite = false → s.step e = some s' →
      s'.written = s.written := by
    intro s s' e he hs
    unfold Link.step at hs
    split at hs
    · cases e with
      | writeMessage m => cases he
      | handleWrite ws =>
        dsimp only at hs
        split at hs <;> cases hs <;> rfl
      | handleRead len =>
        dsimp only at hs
        split at hs
        · split at hs <;> cases hs <;> rfl
        · cases hs
    · cases hs
  obtain ⟨dir, e⟩ := e
  cases dir with
  | up =>
    obtain ⟨l, h1, rfl⟩ := Option.map_eq_some_iff.mp hs
    exact ⟨hl _ _ e he h1, rfl⟩
  | down =>
    obtain ⟨l, h1, rfl⟩ := Option.map_eq_some_iff.mp hs
    exact ⟨rfl, hl _ _ e he h1⟩

end JMEngine.Net.Duplex

namespace JMEngine.Rpc
open JMEngine.Net Runs

/-- the connection stands for the peer: the frames on their way are the messages that were written and
not yet handled -/
structure Linked (c : Cable) (p : Peer) : Prop where
  inv : c.duplex.Inv
  client : p.client = c.client
  outbox : p.outbox = []
  conn : p.conn = 0
  requests : (p.requests 0).map Frame.msg = c.up.written.drop c.served
  responses : (p.responses 0).map Frame.msg = c.down.written.drop c.delivered
  served : c.served ≤ c.up.written.length
  delivered : c.delivered ≤ c.down.written.length

theorem drop_written {posted written : List Message} (hp : posted <+: written) {n : Nat} {msg : Message}
    {rest : List Message} (h : posted.drop n = msg :: rest) :
    written.drop n = msg :: written.drop (n + 1) ∧ n + 1 ≤ written.length := by
  obtain ⟨more, rfl⟩ := hp
  have hn : n < posted.length := by
    by_contra hge
    rw [List.drop_eq_nil_of_le (Nat.le_of_not_lt hge)] at h
    cases h
  have hd : posted.drop (n + 1) = rest := by
    rw [← List.drop_drop, h]
    rfl
  refine ⟨?_, by rw [List.length_append]; omega⟩
  rw [List.drop_append_of_le_length (Nat.le_of_lt hn), List.drop_append_of_le_length hn, h, hd]
  rfl

theorem first_frame {fs : List Frame} {msg : Message} {ms : List Message}
    (h : fs.map Frame.msg = msg :: ms) : ∃ f rest, fs = f :: rest ∧ f.msg = msg ∧
      rest.map Frame.msg = ms := by
  cases fs with
  | nil => cases h
  | cons f rest =>
    obtain ⟨h1, h2⟩ := List.cons.inj h
    exact ⟨f, rest, rfl, h1, h2⟩

namespace Wire

section
variable {ι σ : Type} [DecidableEq ι] {codec : Codec}
  {handlers : List UInt8 → Option (RpcHandler σ)}

structure Rel (w : Wire ι σ) (a : System ι σ) : Prop where
  state : a.state = w.state
  executed : a.executed.map (fun x => (x.client, x.toHandlerRun)) = w.executed
  linked : ∀ i, Linked (w.cables i) (a.peers i)

theorem Rel.set {w w' : Wire ι σ} {a a' : System ι σ} (h : Rel w a) {i : ι} {c : Cable} {p : Peer}
    (hw : w'.cables = Function.update w.cables i c) (ha : a'.peers = Function.update a.peers i p)
    (hst : a'.state = w'.state)
    (hx : a'.executed.map (fun x => (x.client, x.toHandlerRun)) = w'.executed) (hl : Linked c p) :
    Rel w' a' := by
  refine ⟨hst, hx, fun j => ?_⟩
  rw [hw, ha]
  by_cases e : j = i
  · rw [e, Function.update_self, Function.update_self]
    exact hl
  · rw [Function.update_of_ne e, Function.update_of_ne e]
    exact h.linked j

theorem new_rel (st : σ) {clients servers : ι → TcpSession} (hc : ∀ i, Link.Fresh (clients i))
    (hs : ∀ i, Link.Fresh (servers i)) : Rel (new st clients servers) (System.new st clients) :=
  ⟨rfl, rfl, fun i => ⟨Duplex.start_inv (hc i) (hs i), rfl, rfl, rfl, rfl, rfl, Nat.le_refl _,
    Nat.le_refl _⟩⟩

theorem step_send_setPeer (a : System ι σ) (i : ι) {p : Peer} {f : Frame} {rest : List Frame}
    (hp : p.outbox = f :: rest) : (a.setPeer i p).step codec handlers (.send i) =
      some (a.setPeer i { p with
        outbox := rest
        requests := Function.update p.requests p.conn (p.requests p.conn ++ [f]) }) := by
  have hpi : (a.setPeer i p).peers i = p := Function.update_self ..
  unfold System.step
  dsimp only
  rw [hpi, hp]
  unfold System.setPeer
  dsimp only
  rw [Function.update_idem]

section
variable {w w' : Wire ι σ} {a : System ι σ} (h : Rel w a) {i : ι}
include h

theorem Rel.client {e : RpcEvent} (hb : Bounded codec handlers w (.client i e))
    (hs : w.step codec handlers (.client i e) = some w') :
    ∃ fs a', exec (System.step codec handlers) a fs = some a' ∧ Rel w' a' := by
  obtain ⟨c, hc, rfl⟩ := Option.map_eq_some_iff.mp hs
  have hl := h.linked i
  unfold clientStep at hc
  split at hc
  · cases hc
  next hne =>
  rw [Bool.or_eq_true, not_or, Bool.not_eq_true, Bool.not_eq_true] at hne
  obtain ⟨cl, hcl, rfl⟩ := Option.map_eq_some_iff.mp hc
  have hstep : a.step codec handlers (.client i e) = some (a.setPeer i
      { a.peers i with client := cl, outbox := Peer.accepted codec cl e }) := by
    unfold System.step
    dsimp only
    rw [if_neg (by rw [hne.1]; exact Bool.false_ne_true), hl.client, hcl, hl.outbox]
    rfl
  rcases RpcClient.step_session hne.1 hne.2 hcl with ⟨hses, hacc⟩ |
    ⟨k, call, id, r, s, es, m, rfl, hk, hp, hm, hwm, hses, hacc⟩
  · rw [hacc] at hstep ⊢
    refine ⟨_, _, exec_one _ hstep, h.set rfl rfl h.state h.executed ?_⟩
    have hd : (⟨cl._session, (w.cables i).server, (w.cables i).up, (w.cables i).down⟩ : Duplex).Inv :=
      hses ▸ hl.inv
    rw [List.map_nil, List.append_nil]
    exact ⟨hd, rfl, rfl, hl.conn, hl.requests, hl.responses, hl.served, hl.delivered⟩
  · have hsound : m.Sound := hm ▸ hb call id hk hp
    have hd := hl.inv.write_up hsound hwm
    rw [← hses] at hd
    cases r with
    | false =>
      rw [if_neg Bool.false_ne_true] at hacc hd
      rw [hacc] at hstep ⊢
      exact ⟨_, _, exec_one _ hstep, h.set rfl rfl h.state h.executed
        ⟨hd, rfl, rfl, hl.conn, by rw [List.map_nil, List.append_nil]; exact hl.requests,
          hl.responses, by rw [List.map_nil, List.append_nil]; exact hl.served, hl.delivered⟩⟩
    | true =>
      rw [if_pos rfl] at hacc hd
      rw [hacc] at hstep ⊢
      refine ⟨[.client i (.finish k false), .send i], _, (exec_cons _ _ hstep).trans
        (exec_one _ (step_send_setPeer a i rfl)), h.set rfl rfl h.state h.executed ?_⟩
      refine ⟨hd, rfl, rfl, hl.conn, ?_, hl.responses, ?_, hl.delivered⟩
      · show (Function.update (a.peers i).requests (a.peers i).conn _ 0).map Frame.msg = _
        rw [hl.conn, Function.update_self, List.map_append, hl.requests]
        show _ = ((w.cables i).up.written ++ [m]).drop (w.cables i).served
        rw [List.drop_append_of_le_length hl.served]
        rfl
      · show (w.cables i).served ≤ ((w.cables i).up.written ++ [m]).length
        rw [List.length_append]
        exact Nat.le_add_right_of_le hl.served

theorem Rel.transport {e : Direction × LinkEvent} (hb : Bounded codec handlers w (.transport i e))
    (hs : w.step codec handlers (.transport i e) = some w') :
    ∃ fs a', exec (System.step codec handlers) a fs = some a' ∧ Rel w' a' := by
  obtain ⟨c, hc, rfl⟩ := Option.map_eq_some_iff.mp hs
  have hl := h.linked i
  unfold transportStep at hc
  split at hc
  · cases hc
  next hne =>
  obtain ⟨d, hd, rfl⟩ := Option.map_eq_some_iff.mp hc
  obtain ⟨hu, hdn⟩ := Duplex.written_transport (Bool.eq_false_iff.mpr hne) hd
  have hinv := Duplex.step_inv _ e d hl.inv hb hd
  let p1 : Peer := { a.peers i with client := { (w.cables i).client with _session := d.left } }
  have hstep : a.step codec handlers (.client i (.session d.left)) = some (a.setPeer i p1) := by
    unfold System.step
    dsimp only
    rw [if_neg (show ¬RpcEvent.isReceive (.session d.left) = true from Bool.false_ne_true), hl.client]
    show some (a.setPeer i { a.peers i with
      client := { (w.cables i).client with _session := d.left }
      outbox := (a.peers i).outbox ++ [] }) = _
    rw [List.append_nil]
  refine ⟨_, _, exec_one _ hstep, h.set rfl rfl h.state h.executed ⟨hinv, rfl, hl.outbox, hl.conn, ?_, ?_, ?_, ?_⟩⟩
  · exact hl.requests.trans (congrArg (List.drop _) hu.symm)
  · exact hl.responses.trans (congrArg (List.drop _) hdn.symm)
  · exact hu.symm ▸ hl.served
  · exact hdn.symm ▸ hl.delivered

theorem Rel.serve (hb : Bounded codec handlers w (.serve i))
    (hs : w.step codec handlers (.serve i) = some w') :
    ∃ fs a', exec (System.step codec handlers) a fs = some a' ∧ Rel w' a' := by
  have hl := h.linked i
  obtain ⟨n, hu⟩ := hl.inv.up
  unfold step at hs
  dsimp only at hs
  split at hs
  · cases hs
  next msg rest hposted =>
  obtain ⟨⟨st', session', out, runs⟩, hans, rfl⟩ := Option.map_eq_some_iff.mp hs
  obtain ⟨hwr, hlen⟩ := drop_written hu.posted_prefix hposted
  obtain ⟨f, fs, hreq, hf, hfs⟩ := first_frame (hl.requests.trans hwr)
  have hsound : f.msg.Sound := by
    rw [hf]
    exact hu.sound msg (List.mem_of_mem_drop (hwr.symm ▸ List.mem_cons_self))
  let p1 : Peer := { a.peers i with
    requests := Function.update (a.peers i).requests 0 fs
    responses := Function.update (a.peers i).responses 0
      ((a.peers i).responses 0 ++ out.map fun m => ⟨f.call, m⟩) }
  have hstep : a.step codec handlers (.serve i 0 (w.cables i).server) =
      some { a.setPeer i p1 with
        state := st'
        executed := a.executed ++ runs.map fun x => ⟨x, i, f.call⟩ } := by
    have hrec := RpcSessionNetHandler.answer_receive hans
    rw [← h.state, ← hf] at hrec
    unfold System.step
    dsimp only
    rw [hreq]
    dsimp only
    rw [if_pos hsound, hrec]
    rfl
  have hd : (⟨(w.cables i).client._session, session', (w.cables i).up,
      { (w.cables i).down with written := (w.cables i).down.written ++ out }⟩ : Duplex).Inv := by
    rcases RpcSessionNetHandler.answer_cases hans with ⟨rfl, rfl⟩ | ⟨result, st1, r, es, m, hex, hm, hw, rfl⟩
    · rw [List.append_nil]
      exact hl.inv
    · exact hl.inv.write_down (hm ▸ hb msg rest hposted result st1 hex) hw
  have hx : (a.executed ++ runs.map fun x => (⟨x, i, f.call⟩ : Execution ι σ)).map
      (fun x => (x.client, x.toHandlerRun)) = w.executed ++ runs.map fun x => (i, x) := by
    rw [List.map_append, h.executed, List.map_map]
    rfl
  refine ⟨_, _, exec_one _ hstep,
    h.set rfl rfl rfl hx ⟨hd, hl.client, hl.outbox, hl.conn, ?_, ?_, hlen, ?_⟩⟩
  · show (Function.update (a.peers i).requests 0 fs 0).map Frame.msg = _
    rw [Function.update_self]
    exact hfs
  · show (Function.update (a.peers i).responses 0
      ((a.peers i).responses 0 ++ out.map fun m => ⟨f.call, m⟩) 0).map Frame.msg =
      ((w.cables i).down.written ++ out).drop (w.cables i).delivered
    rw [Function.update_self, List.map_append, List.map_map, hl.responses,
      List.drop_append_of_le_length hl.delivered]
    exact congrArg _ (List.map_id out)
  · show (w.cables i).delivered ≤ ((w.cables i).down.written ++ out).length
    rw [List.length_append]
    exact Nat.le_add_right_of_le hl.delivered

theorem Rel.deliver (hs : w.step codec handlers (.deliver i) = some w') :
    ∃ fs a', exec (System.step codec handlers) a fs = some a' ∧ Rel w' a' := by
  have hl := h.linked i
  obtain ⟨n, hd⟩ := hl.inv.down
  unfold step at hs
  dsimp only at hs
  split at hs
  · cases hs
  next msg rest hposted =>
  cases hs
  obtain ⟨hwr, hlen⟩ := drop_written hd.posted_prefix hposted
  obtain ⟨f, fs, hres, hf, hfs⟩ := first_frame (hl.responses.trans hwr)
  have hsound : f.msg.Sound := by
    rw [hf]
    exact hd.sound msg (List.mem_of_mem_drop (hwr.symm ▸ List.mem_cons_self))
  let p1 : Peer := { a.peers i with
    client := (a.peers i).client.sessionReceiveMessage codec f.msg
    responses := Function.update (a.peers i).responses 0 fs }
  have hstep : a.step codec handlers (.deliver i 0) = some (a.setPeer i p1) := by
    unfold System.step
    dsimp only
    rw [hres]
    dsimp only
    rw [if_pos hsound]
  have hses : (RpcClient.sessionReceiveMessage codec (w.cables i).client msg)._session =
      (w.cables i).client._session := by
    unfold RpcClient.sessionReceiveMessage
    dsimp only
    split
    · rfl
    · rfl
    · dsimp only
      split <;> rfl
  refine ⟨_, _, exec_one _ hstep, h.set rfl rfl h.state h.executed ⟨?_, ?_, hl.outbox, hl.conn, hl.requests, ?_,
    hl.served, hlen⟩⟩
  · show (⟨(RpcClient.sessionReceiveMessage codec (w.cables i).client msg)._session,
      (w.cables i).server, (w.cables i).up, (w.cables i).down⟩ : Duplex).Inv
    rw [hses]
    exact hl.inv
  · show (a.peers i).client.sessionReceiveMessage codec f.msg = _
    rw [hl.client, hf]
  · show (Function.update (a.peers i).responses 0 fs 0).map Frame.msg = _
    rw [Function.update_self]
    exact hfs

end

theorem Rel.step {e : WireEvent ι} {w w' : Wire ι σ} {a : System ι σ} (h : Rel w a)
    (hb : Bounded codec handlers w e) (hs : w.step codec handlers e = some w') :
    ∃ fs a', exec (System.step codec handlers) a fs = some a' ∧ Rel w' a' := by
  cases e with
  | client i e => exact h.client hb hs
  | transport i e => exact h.transport hb hs
  | serve i => exact h.serve hb hs
  | deliver i => exact h.deliver hs

end

end Wire

section
variable {ι σ : Type} [DecidableEq ι]

/-- **Every run over bytes is a run of the frames.** It has the same clients and the same state of the
handlers, the frames on their way are the messages that were written and not yet handled, and what the
logic threads are given is a part of what was written. -/
theorem wire_refines_system (codec : Codec) (handlers : List UInt8 → Option (RpcHandler σ)) (st : σ)
    (clients servers : ι → TcpSession) (hc : ∀ i, Link.Fresh (clients i))
    (hs : ∀ i, Link.Fresh (servers i)) (es : List (WireEvent ι)) (w : Wire ι σ)
    (hG : Guarded (Wire.step codec handlers) (Wire.Bounded codec handlers)
      (Wire.new st clients servers) es)
    (hrun : exec (Wire.step codec handlers) (Wire.new st clients servers) es = some w) :
    ∃ fs a, exec (System.step codec handlers) (System.new st clients) fs = some a ∧
      a.state = w.state ∧ a.executed.map (fun x => (x.client, x.toHandlerRun)) = w.executed ∧
      ∀ i, (a.peers i).client = (w.cables i).client ∧
        ((a.peers i).requests 0).map Frame.msg = (w.cables i).up.written.drop (w.cables i).served ∧
        ((a.peers i).responses 0).map Frame.msg =
          (w.cables i).down.written.drop (w.cables i).delivered ∧
        (w.cables i).up.posted <+: (w.cables i).up.written ∧
        (w.cables i).down.posted <+: (w.cables i).down.written := by
  obtain ⟨fs, a, hrun', hR⟩ := exec_simulates (Wire.step codec handlers) (System.step codec handlers)
    (fun _ _ _ _ hR hb hs => hR.step hb hs) es _ _ w (Wire.new_rel st hc hs) hG hrun
  refine ⟨fs, a, hrun', hR.state, hR.executed, fun i => ?_⟩
  have hl := hR.linked i
  obtain ⟨_, hu⟩ := hl.inv.up
  obtain ⟨_, hd⟩ := hl.inv.down
  exact ⟨hl.client, hl.requests, hl.responses, hu.posted_prefix, hd.posted_prefix⟩

/-- **Over bytes as over frames, a callback gets the result of its own request, at most once**: among the
handlers that the server ran for this connection is the one registered for the method of the call, on the
parameters of the call, with this result. -/
theorem wire_answers (codec : Codec) (handlers : List UInt8 → Option (RpcHandler σ)) (st : σ)
    (clients servers : ι → TcpSession) (hc : ∀ i, Link.Fresh (clients i))
    (hs : ∀ i, Link.Fresh (servers i)) (es : List (WireEvent ι)) (w : Wire ι σ)
    (hG : Guarded (Wire.step codec handlers) (Wire.Bounded codec handlers)
      (Wire.new st clients servers) es)
    (hrun : exec (Wire.step codec handlers) (Wire.new st clients servers) es = some w) (i : ι) (k : Nat) :
    (∀ s, Invocation.cb k s ∈ (w.cables i).client.invoked →
      ∃ (call : Call) (x : HandlerRun σ) (h : RpcHandler σ),
        (w.cables i).client.calls[k]? = some call ∧ (i, x) ∈ w.executed ∧
        x.method = call.method ∧ x.params = call.params ∧ handlers x.method = some h ∧
        (h x.state x.params).1 = x.result ∧ x.result = some s) ∧
    (w.cables i).client.answers k ≤ 1 := by
  obtain ⟨fs, a, hrun', hR⟩ := exec_simulates (Wire.step codec handlers) (System.step codec handlers)
    (fun _ _ _ _ hR hb hs => hR.step hb hs) es _ _ w (Wire.new_rel st hc hs) hG hrun
  have ht := exec_invariant (System.step codec handlers) (fun _ _ _ hI hs => System.step_traced hI hs)
    fs _ a (System.traced_new st clients) hrun' i
  rw [← (hR.linked i).client]
  refine ⟨fun s hm => ?_, ht.ledger.once k⟩
  obtain ⟨call, x, h, hk, hx, rfl, _, hmethod, hp, hh, hr, hres⟩ := ht.answered k s hm
  exact ⟨call, x.toHandlerRun, h, hk, hR.executed ▸ List.mem_map_of_mem hx, hmethod, hp,
    hmethod ▸ hh, hr, hres⟩

/-- `Wire.Bounded`, computed -/
def Wire.boundedBy (codec : Codec) (handlers : List UInt8 → Option (RpcHandler σ)) (w : Wire ι σ) :
    WireEvent ι → Bool
  | .client i (.finish k _) =>
    match (w.cables i).client.calls[k]? with
    | some ⟨_, method, params, .registered id⟩ => decide (rpcMessage codec ⟨id, method, params⟩).Sound
    | _ => true
  | .client _ _ => true
  | .transport _ (_, .handleRead len) => decide (len ≤ 2147483648)
  | .transport _ _ => true
  | .serve i =>
    match (w.cables i).up.posted.drop (w.cables i).served with
    | [] => true
    | msg :: _ =>
      let rpc := codec.parseFromString msg.getMessageStr
      match (RpcHandlerInterface.execRpcHandler handlers w.state rpc.method rpc.params).1 with
      | none => true
      | some result => decide (rpcMessage codec ⟨rpc.rpc_id, rpc.method, result⟩).Sound
  | .deliver _ => true

theorem Wire.bounded_of_boundedBy {codec : Codec} {handlers : List UInt8 → Option (RpcHandler σ)}
    (w : Wire ι σ) (e : WireEvent ι) (h : w.boundedBy codec handlers e = true) :
    w.Bounded codec handlers e := by
  cases e with
  | client i e =>
    cases e with
    | finish k throws =>
      intro call id hk hp
      obtain ⟨o, method, params, phase⟩ := call
      unfold Wire.boundedBy at h
      dsimp only at h hp ⊢
      subst hp
      rw [hk] at h
      exact of_decide_eq_true h
    | _ => trivial
  | transport i e =>
    have hr : ∀ len, decide (len ≤ 2147483648) = true → ∀ n (xs : List UInt8),
        BoundedRead n (xs.take len) := by
      intro len hlen n xs
      refine Or.inl ?_
      have := of_decide_eq_true hlen
      rw [List.length_take]
      omega
    obtain ⟨dir, e⟩ := e
    cases dir <;> cases e <;> first | exact trivial | exact hr _ h _ _
  | serve i =>
    intro msg rest hp result st' hex
    unfold Wire.boundedBy at h
    dsimp only at h
    rw [hp] at h
    dsimp only at h
    rw [hex] at h
    exact of_decide_eq_true h
  | deliver i => trivial

def splitCall : List (WireEvent Unit) :=
  [.client () (.enter .callback [97] [5]), .client () (.register 0 .none),
    .client () (.finish 0 false), .transport () (.up, .handleWrite [.wrote 5]),
    .transport () (.up, .handleRead 3), .transport () (.up, .handleWrite [.wrote 100]),
    .transport () (.up, .handleRead 19), .serve (), .transport () (.down, .handleWrite [.wrote 100]),
    .transport () (.down, .handleRead 23), .deliver ()]

def small : TcpSession := .established (List.replicate 64 0)

theorem small_fresh : Link.Fresh small := established_fresh _ (by decide)

theorem splitCall_runs : ∃ w : Wire Unit UInt8,
    Guarded (Wire.step pb System.counting) (Wire.Bounded pb System.counting)
      (Wire.new 0 (fun _ => small) fun _ => small) splitCall ∧
    exec (Wire.step pb System.counting) (Wire.new 0 (fun _ => small) fun _ => small) splitCall = some w ∧
    (w.cables ()).client.invoked = [.cb 0 [0, 5]] := by
  have hg : guardedBy (Wire.step pb System.counting) (Wire.boundedBy pb System.counting)
      (Wire.new 0 (fun _ : Unit => small) fun _ => small) splitCall = true := by
    decide +kernel
  have h : (exec (Wire.step pb System.counting) (Wire.new 0 (fun _ : Unit => small) fun _ => small)
      splitCall).any (fun w => decide ((w.cables ()).client.invoked = [.cb 0 [0, 5]])) = true := by
    decide +kernel
  obtain ⟨w, hw, hp⟩ := (Option.any_eq_true ..).mp h
  exact ⟨w, guarded_of_guardedBy _ Wire.bounded_of_boundedBy _ _ hg, hw, of_decide_eq_true hp⟩

theorem wire_refines_system_split : ∃ (w : Wire Unit UInt8) (fs : _) (a : System Unit UInt8),
    exec (Wire.step pb System.counting) (Wire.new 0 (fun _ => small) fun _ => small) splitCall = some w ∧
    exec (System.step pb System.counting) (System.new 0 fun _ => small) fs = some a ∧
    (a.peers ()).client.invoked = [.cb 0 [0, 5]] := by
  obtain ⟨w, hG, hw, hi⟩ := splitCall_runs
  obtain ⟨fs, a, hrun, _, _, hp⟩ := wire_refines_system pb System.counting 0 (fun _ => small)
    (fun _ => small) (fun _ => small_fresh) (fun _ => small_fresh) splitCall w hG hw
  exact ⟨w, fs, a, hw, hrun, by rw [(hp ()).1]; exact hi⟩

theorem wire_answers_split : ∃ w : Wire Unit UInt8,
    exec (Wire.step pb System.counting) (Wire.new 0 (fun _ => small) fun _ => small) splitCall = some w ∧
    ∃ (call : Call) (x : HandlerRun UInt8) (h : RpcHandler UInt8),
      (w.cables ()).client.calls[0]? = some call ∧ ((), x) ∈ w.executed ∧ x.method = call.method ∧
      x.params = call.params ∧ System.counting x.method = some h ∧
      (h x.state x.params).1 = x.result ∧ x.result = some [0, 5] := by
  obtain ⟨w, hG, hw, hi⟩ := splitCall_runs
  have h := wire_answers pb System.counting 0 (fun _ => small) (fun _ => small)
    (fun _ => small_fresh) (fun _ => small_fresh) splitCall w hG hw () 0
  exact ⟨w, hw, h.1 [0, 5] (by rw [hi]; exact List.mem_cons_self)⟩

end

end JMEngine.Rpc
