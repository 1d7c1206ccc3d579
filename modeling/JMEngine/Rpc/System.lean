import JMEngine.Rpc.Numbers
import JMEngine.Rpc.Timeout

/-!
# Clients and a server (source/rpc/JME_RpcServer.cpp, JME_RpcHandler.cpp)

Any number of clients call one server.  A frame that `writeMessage` took waits in the client's write
buffer, travels on the connection that is up when it is sent, and is processed by the server's logic
thread; the response goes back on the same connection.  Frames of one connection arrive intact and in
order; a disconnect loses what has not arrived.  Frames of an older connection may still be waiting for
the logic thread on either side when the next one is up.

* `RpcHandlerInterface.execRpcHandler`, `RpcSessionNetHandler.sessionReceiveMessage`   the server;
* `System.step`           one event of a client, of the server, or of the network;
* `Peer.Traced`           where the frames of a client and the calls of its callbacks come from;
* `answers_own_call`      **a callback gets the result of its own request, at most once.**

A frame is marked with the call it was sent for, an execution with the request it was made for.
-/

set_option linter.unusedSectionVars false

namespace JMEngine.Rpc
open JMEngine.Net Runs

/-- a registered handler: it may keep a state, and returns a serialized message or a null pointer -/
abbrev RpcHandler (σ : Type) := σ → List UInt8 → Option (List UInt8) × σ

/-- a frame and the call of the client that it was sent for -/
structure Frame where
  call : Nat
  msg : Message
  deriving DecidableEq, Repr

/-- a run of a registered handler: what it was given and what it gave back -/
structure HandlerRun (σ : Type) where
  method : List UInt8
  params : List UInt8
  state : σ
  result : Option (List UInt8)

/-- a run of a handler and the request that it was made for -/
structure Execution (ι σ : Type) extends HandlerRun σ where
  client : ι
  call : Nat

section
variable {σ : Type} (handlers : List UInt8 → Option (RpcHandler σ))

/-- what the handler returns, the state it leaves, and the handlers that were run -/
def RpcHandlerInterface.execRpcHandler (st : σ) (method params : List UInt8) :
    Option (List UInt8) × σ × List (HandlerRun σ) :=
  match handlers method with
  | none => (none, st, [])
  | some handler =>
    let r := handler st params
    (r.1, r.2, [⟨method, params, st, r.1⟩])

/-- `RpcServer::response`; the frame goes out if `writeMessage` takes it -/
def RpcServer.response (codec : Codec) (session : TcpSession) (params : JmeRpc) :
    Option (List Message) :=
  (session.writeMessage (rpcMessage codec params)).map fun r =>
    if r.1 then [rpcMessage codec params] else []

/-- the state of the handlers, the frames that go out and the handlers that were run -/
def RpcSessionNetHandler.sessionReceiveMessage (codec : Codec) (st : σ) (session : TcpSession)
    (msg : Message) : Option (σ × List Message × List (HandlerRun σ)) :=
  let rpc := codec.parseFromString msg.getMessageStr
  match RpcHandlerInterface.execRpcHandler handlers st rpc.method rpc.params with
  | (none, st', runs) => some (st', [], runs)
  | (some result, st', runs) =>
    (RpcServer.response codec session ⟨rpc.rpc_id, rpc.method, result⟩).map fun out => (st', out, runs)

end

/-- a client, the frames in its write buffer, its present connection, and by connection the frames on
their way to the server and back -/
structure Peer where
  client : RpcClient
  outbox : List Frame
  conn : Nat
  requests : Nat → List Frame
  responses : Nat → List Frame

structure System (ι σ : Type) where
  peers : ι → Peer
  state : σ
  executed : List (Execution ι σ)

inductive SystemEvent (ι : Type) where
  | client (i : ι) (e : RpcEvent)
  | send (i : ι)
  | serve (i : ι) (n : Nat) (session : TcpSession)
  | deliver (i : ι) (n : Nat)
  | reconnect (i : ι) (lost sent received : Nat)

def RpcEvent.isReceive : RpcEvent → Bool
  | .receive _ => true
  | _ => false

/-- the frame that a call hands to the session -/
def Peer.accepted (codec : Codec) (c : RpcClient) : RpcEvent → List Frame
  | .finish k _ =>
    match c.calls[k]? with
    | some ⟨_, method, params, .returned (some id) true⟩ =>
      [⟨k, rpcMessage codec ⟨id, method, params⟩⟩]
    | _ => []
  | _ => []

namespace System

section
variable {ι σ : Type} [DecidableEq ι]

def new (st : σ) (sessions : ι → TcpSession) : System ι σ where
  peers := fun i => ⟨.new (sessions i), [], 0, fun _ => [], fun _ => []⟩
  state := st
  executed := []

def setPeer (w : System ι σ) (i : ι) (p : Peer) : System ι σ :=
  { w with peers := Function.update w.peers i p }

/-- one event.  A client receives messages from its connections only; a frame whose header does not
give its length (`Message.Sound`) does not arrive as a frame. -/
def step (codec : Codec) (handlers : List UInt8 → Option (RpcHandler σ)) (w : System ι σ) :
    SystemEvent ι → Option (System ι σ)
  | .client i e =>
    if e.isReceive then none
    else ((w.peers i).client.step codec e).map fun c =>
      w.setPeer i { w.peers i with
        client := c
        outbox := (w.peers i).outbox ++ Peer.accepted codec c e }
  | .send i =>
    match (w.peers i).outbox with
    | [] => none
    | f :: rest =>
      some (w.setPeer i { w.peers i with
        outbox := rest
        requests := Function.update (w.peers i).requests (w.peers i).conn
          ((w.peers i).requests (w.peers i).conn ++ [f]) })
  | .serve i n session =>
    match (w.peers i).requests n with
    | [] => none
    | f :: rest =>
      if f.msg.Sound then
        (RpcSessionNetHandler.sessionReceiveMessage handlers codec w.state session f.msg).map fun r =>
          let w1 := w.setPeer i { w.peers i with
            requests := Function.update (w.peers i).requests n rest
            responses := Function.update (w.peers i).responses n
              ((w.peers i).responses n ++ r.2.1.map fun m => ⟨f.call, m⟩) }
          { w1 with
            state := r.1
            executed := w.executed ++ r.2.2.map fun x => ⟨x, i, f.call⟩ }
      else none
  | .deliver i n =>
    match (w.peers i).responses n with
    | [] => none
    | f :: rest =>
      if f.msg.Sound then
        some (w.setPeer i { w.peers i with
          client := (w.peers i).client.sessionReceiveMessage codec f.msg
          responses := Function.update (w.peers i).responses n rest })
      else none
  | .reconnect i lost sent received =>
    -- of the old connection the first frames have arrived; frames of the write buffer may be lost
    let p := w.peers i
    some (w.setPeer i { p with
      outbox := p.outbox.drop lost
      conn := p.conn + 1
      requests := Function.update p.requests p.conn ((p.requests p.conn).take sent)
      responses := Function.update p.responses p.conn ((p.responses p.conn).take received) })

end

end System

/-! ## where frames and answers come from -/

theorem parse_rpcMessage (codec : Codec) (rpc : JmeRpc) (h : (rpcMessage codec rpc).Sound) :
    codec.parseFromString (rpcMessage codec rpc).getMessageStr = rpc := by
  rw [h.getMessageStr]
  exact codec.parse_serialize rpc h.data_lt

section
variable {ι σ : Type} (codec : Codec) (handlers : List UInt8 → Option (RpcHandler σ))

/-- a frame that asks for what its call asks for, under the number of the call -/
def IsRequest (c : RpcClient) (f : Frame) : Prop :=
  ∃ (call : Call) (id : BitVec 32), c.calls[f.call]? = some call ∧ call.phase.id = some id
    ∧ f.msg = rpcMessage codec ⟨id, call.method, call.params⟩

/-- the server ran the handler that is registered for the method of the call, on the parameters of the
call and because of its request, and `s` is the serialized result -/
def Executed (xs : List (Execution ι σ)) (i : ι) (c : RpcClient) (k : Nat) (s : List UInt8) : Prop :=
  ∃ (call : Call) (x : Execution ι σ) (h : RpcHandler σ), c.calls[k]? = some call ∧ x ∈ xs
    ∧ x.client = i ∧ x.call = k ∧ x.method = call.method ∧ x.params = call.params
    ∧ handlers call.method = some h ∧ (h x.state x.params).1 = x.result ∧ x.result = some s

def IsResponse (xs : List (Execution ι σ)) (i : ι) (c : RpcClient) (f : Frame) : Prop :=
  ∃ (id : BitVec 32) (method s : List UInt8), c.idOf f.call = some id
    ∧ f.msg = rpcMessage codec ⟨id, method, s⟩ ∧ Executed handlers xs i c f.call s

structure Peer.Traced (xs : List (Execution ι σ)) (i : ι) (p : Peer) : Prop where
  ledger : p.client.Ledger
  numbered : p.client.Numbered
  outbox : ∀ f ∈ p.outbox, IsRequest codec p.client f
  requests : ∀ n, ∀ f ∈ p.requests n, IsRequest codec p.client f
  responses : ∀ n, ∀ f ∈ p.responses n, IsResponse codec handlers xs i p.client f
  answered : ∀ k s, Invocation.cb k s ∈ p.client.invoked → Executed handlers xs i p.client k s

end

section
variable {ι σ : Type} {codec : Codec} {handlers : List UInt8 → Option (RpcHandler σ)}
  {xs xs' : List (Execution ι σ)} {i : ι} {c c' : RpcClient}

theorem IsRequest.later {f : Frame} (h : IsRequest codec c f) (hl : c.Later c') :
    IsRequest codec c' f := by
  obtain ⟨call, id, hk, hid, hm⟩ := h
  obtain ⟨call', hk', h1, h2, h3, _⟩ := hl _ _ hk
  exact ⟨call', id, hk', h3 id hid, by rw [hm, h1, h2]⟩

theorem Executed.later {k : Nat} {s : List UInt8} (h : Executed handlers xs i c k s)
    (hl : c.Later c') (hx : xs ⊆ xs') : Executed handlers xs' i c' k s := by
  obtain ⟨call, x, f, hk, hm, h1, h2, h3, h4, h5, h6⟩ := h
  obtain ⟨call', hk', e1, e2, _⟩ := hl _ _ hk
  exact ⟨call', x, f, hk', hx hm, h1, h2, by rw [h3, e1], by rw [h4, e2], by rw [e1]; exact h5, h6⟩

theorem IsResponse.later {f : Frame} (h : IsResponse codec handlers xs i c f)
    (hl : c.Later c') (hx : xs ⊆ xs') : IsResponse codec handlers xs' i c' f := by
  obtain ⟨id, method, s, hid, hm, he⟩ := h
  exact ⟨id, method, s, hl.idOf hid, hm, he.later hl hx⟩

variable {p : Peer}

theorem Peer.Traced.mono (h : p.Traced codec handlers xs i) (hx : xs ⊆ xs') :
    p.Traced codec handlers xs' i where
  ledger := h.ledger
  numbered := h.numbered
  outbox := h.outbox
  requests := h.requests
  responses := fun n f hf => (h.responses n f hf).later (.of_eq rfl) hx
  answered := fun k s hm => (h.answered k s hm).later (.of_eq rfl) hx

theorem forall_update {P : Frame → Prop} {t : Nat → List Frame} {n : Nat} {l : List Frame}
    (h : ∀ m, ∀ f ∈ t m, P f) (hl : ∀ f ∈ l, P f) : ∀ m, ∀ f ∈ Function.update t n l m, P f := by
  intro m f hf
  by_cases e : m = n
  · rw [e, Function.update_self] at hf
    exact hl f hf
  · rw [Function.update_of_ne e] at hf
    exact h m f hf

theorem Peer.Traced.deliver (h : p.Traced codec handlers xs i) {n : Nat} {f : Frame}
    {rest : List Frame} (hn : p.responses n = f :: rest) (hs : f.msg.Sound) :
    Peer.Traced codec handlers xs i
      { p with
        client := p.client.sessionReceiveMessage codec f.msg
        responses := Function.update p.responses n rest } := by
  obtain ⟨id, method, s, hid, hm, he⟩ :=
    h.responses n f (by rw [hn]; exact List.mem_cons_self)
  have hrpc : codec.parseFromString f.msg.getMessageStr = ⟨id, method, s⟩ := by
    rw [hm] at hs ⊢
    exact parse_rpcMessage codec _ hs
  have hc : (p.client.sessionReceiveMessage codec f.msg).calls = p.client.calls :=
    (RpcClient.receive_keeps p.client f.msg).1
  have hl : p.client.Later (p.client.sessionReceiveMessage codec f.msg) := .of_eq hc
  have hx : xs ⊆ xs := fun _ hm => hm
  refine ⟨(RpcClient.receive_change p.client f.msg).ledger h.ledger,
    (RpcClient.receive_numbering p.client f.msg).numbered h.numbered,
    fun g hg => (h.outbox g hg).later hl, fun m g hg => (h.requests m g hg).later hl, ?_, ?_⟩
  · refine forall_update (fun m g hg => (h.responses m g hg).later hl hx) (fun g hg => ?_)
    exact (h.responses n g (by rw [hn]; exact List.mem_cons_of_mem _ hg)).later hl hx
  · intro k r hk
    have hentry : p.client.entry (codec.parseFromString f.msg.getMessageStr).rpc_id
        = p.client.entry id := by rw [hrpc]
    cases hcb : p.client.entry id with
    | none =>
      rw [RpcClient.receive_none (hentry.trans hcb)] at hk
      exact (h.answered k r hk).later hl hx
    | some cb =>
      rw [(RpcClient.receive_eq (hentry.trans hcb)).2] at hk
      rcases List.mem_append.mp hk with hk | hk
      · exact (h.answered k r hk).later hl hx
      · have hcall : cb.call = f.call :=
          h.numbered.distinct _ _ id (h.ledger.table id cb hcb) hid
        have e := List.mem_singleton.mp hk
        rw [hrpc, hcall] at e
        cases e
        exact he.later hl hx

theorem RpcClient.Change.cb_mem {e : RpcEvent} (hs : RpcClient.Change codec c e c')
    (hr : e.isReceive = false) {k : Nat} {s : List UInt8} (h : Invocation.cb k s ∈ c'.invoked) :
    Invocation.cb k s ∈ c.invoked := by
  cases hs with
  | less _ _ _ hi => rw [hi] at h; exact h
  | registered _ _ _ _ _ _ _ _ _ _ hi => rw [hi] at h; exact h
  | answered msg _ he => rw [he] at hr; cases hr
  | died d rest hc hrest ht hd hi =>
    rw [hi] at h
    rcases List.mem_append.mp h with h | h
    · exact h
    · cases List.mem_singleton.mp h

theorem RpcClient.Change.later {e : RpcEvent} (hs : RpcClient.Change codec c e c') :
    c.Later c' := by
  cases hs with
  | less hl => exact hl
  | registered _ _ _ _ hl => exact hl
  | answered _ _ _ _ hc => exact .of_eq hc
  | died _ _ hc => exact .of_eq hc

theorem Peer.accepted_isRequest (codec : Codec) (c : RpcClient) (e : RpcEvent) :
    ∀ f ∈ Peer.accepted codec c e, IsRequest codec c f := by
  intro f hf
  unfold Peer.accepted at hf
  split at hf
  · split at hf
    · rename_i hk
      rw [List.mem_singleton.mp hf]
      exact ⟨_, _, hk, rfl, rfl⟩
    · cases hf
  · cases hf

theorem Peer.Traced.client (h : p.Traced codec handlers xs i) {e : RpcEvent}
    (hr : e.isReceive = false) (hs : p.client.step codec e = some c) :
    Peer.Traced codec handlers xs i
      { p with
        client := c
        outbox := p.outbox ++ Peer.accepted codec c e } := by
  have hch := RpcClient.step_change hs
  have hl := hch.later
  have hx : xs ⊆ xs := fun _ hm => hm
  refine ⟨hch.ledger h.ledger, (RpcClient.step_numbering hs).numbered h.numbered, ?_,
    fun m g hg => (h.requests m g hg).later hl, fun m g hg => (h.responses m g hg).later hl hx,
    fun k s hk => (h.answered k s (hch.cb_mem hr hk)).later hl hx⟩
  intro g hg
  rcases List.mem_append.mp hg with hg | hg
  · exact (h.outbox g hg).later hl
  · exact Peer.accepted_isRequest codec c e g hg

theorem Peer.Traced.send (h : p.Traced codec handlers xs i) {f : Frame} {rest : List Frame}
    (ho : p.outbox = f :: rest) :
    Peer.Traced codec handlers xs i
      { p with
        outbox := rest
        requests := Function.update p.requests p.conn (p.requests p.conn ++ [f]) } where
  ledger := h.ledger
  numbered := h.numbered
  outbox := fun g hg => h.outbox g (by rw [ho]; exact List.mem_cons_of_mem _ hg)
  requests := by
    refine forall_update h.requests (fun g hg => ?_)
    rcases List.mem_append.mp hg with hg | hg
    · exact h.requests _ g hg
    · rw [List.mem_singleton.mp hg]
      exact h.outbox f (by rw [ho]; exact List.mem_cons_self)
  responses := h.responses
  answered := h.answered

theorem Peer.Traced.reconnect (h : p.Traced codec handlers xs i) (lost sent received : Nat) :
    Peer.Traced codec handlers xs i
      { p with
        outbox := p.outbox.drop lost
        conn := p.conn + 1
        requests := Function.update p.requests p.conn ((p.requests p.conn).take sent)
        responses := Function.update p.responses p.conn ((p.responses p.conn).take received) } where
  ledger := h.ledger
  numbered := h.numbered
  outbox := fun g hg => h.outbox g (List.mem_of_mem_drop hg)
  requests := forall_update h.requests fun g hg => h.requests _ g (List.mem_of_mem_take hg)
  responses := forall_update h.responses fun g hg => h.responses _ g (List.mem_of_mem_take hg)
  answered := h.answered

theorem RpcSessionNetHandler.out_mem {st st' : σ} {session : TcpSession} {msg m : Message}
    {out : List Message} {runs : List (HandlerRun σ)}
    (h : RpcSessionNetHandler.sessionReceiveMessage handlers codec st session msg
      = some (st', out, runs)) (hm : m ∈ out) :
    ∃ (handler : RpcHandler σ) (s : List UInt8),
      handlers (codec.parseFromString msg.getMessageStr).method = some handler
      ∧ (handler st (codec.parseFromString msg.getMessageStr).params).1 = some s
      ∧ runs = [⟨(codec.parseFromString msg.getMessageStr).method,
          (codec.parseFromString msg.getMessageStr).params, st, some s⟩]
      ∧ m = rpcMessage codec ⟨(codec.parseFromString msg.getMessageStr).rpc_id,
          (codec.parseFromString msg.getMessageStr).method, s⟩ := by
  unfold RpcSessionNetHandler.sessionReceiveMessage at h
  dsimp only at h
  generalize codec.parseFromString msg.getMessageStr = rpc at h ⊢
  split at h
  · cases h
    cases hm
  · rename_i s st1 runs1 hex
    obtain ⟨out1, hout, e⟩ := Option.map_eq_some_iff.mp h
    cases e
    obtain ⟨⟨r, t, es⟩, _, rfl⟩ := Option.map_eq_some_iff.mp hout
    unfold RpcHandlerInterface.execRpcHandler at hex
    split at hex
    · cases hex
    · rename_i handler hh
      obtain ⟨hres, hrest⟩ := Prod.mk.inj hex
      obtain ⟨-, hruns⟩ := Prod.mk.inj hrest
      refine ⟨handler, s, hh, hres, ?_, ?_⟩
      · rw [← hruns, hres]
      · cases r with
        | false => cases hm
        | true => exact List.mem_singleton.mp hm

theorem Peer.Traced.serve (h : p.Traced codec handlers xs i) {n : Nat} {f : Frame}
    {rest : List Frame} (hn : p.requests n = f :: rest) (hs : f.msg.Sound) {st st' : σ}
    {session : TcpSession} {out : List Message} {runs : List (HandlerRun σ)}
    (ho : RpcSessionNetHandler.sessionReceiveMessage handlers codec st session f.msg
      = some (st', out, runs)) :
    Peer.Traced codec handlers (xs ++ runs.map fun x => ⟨x, i, f.call⟩) i
      { p with
        requests := Function.update p.requests n rest
        responses := Function.update p.responses n
          (p.responses n ++ out.map fun m => ⟨f.call, m⟩) } := by
  obtain ⟨call, id, hk, hid, hm⟩ := h.requests n f (by rw [hn]; exact List.mem_cons_self)
  have hrpc : codec.parseFromString f.msg.getMessageStr = ⟨id, call.method, call.params⟩ := by
    rw [hm] at hs ⊢
    exact parse_rpcMessage codec _ hs
  have h' := h.mono (List.subset_append_left xs (runs.map fun x => ⟨x, i, f.call⟩))
  refine ⟨h'.ledger, h'.numbered, h'.outbox, forall_update h'.requests (fun g hg => ?_),
    forall_update h'.responses (fun g hg => ?_), h'.answered⟩
  · exact h'.requests n g (by rw [hn]; exact List.mem_cons_of_mem _ hg)
  · rcases List.mem_append.mp hg with hg | hg
    · exact h'.responses n g hg
    · obtain ⟨m, hmem, rfl⟩ := List.mem_map.mp hg
      obtain ⟨handler, s, hh, hres, hruns, hmsg⟩ := RpcSessionNetHandler.out_mem ho hmem
      rw [hrpc] at hh hres hruns hmsg
      refine ⟨id, call.method, s, Option.bind_eq_some_iff.mpr ⟨call, hk, hid⟩, hmsg, call,
        ⟨⟨call.method, call.params, st, some s⟩, i, f.call⟩, handler, hk,
        List.mem_append_right _ ?_, rfl, rfl, rfl, rfl, hh, hres, rfl⟩
      rw [hruns]
      exact List.mem_singleton.mpr rfl

end

namespace System

section
variable {ι σ : Type} [DecidableEq ι] {codec : Codec}
  {handlers : List UInt8 → Option (RpcHandler σ)}

/-- every client's frames and answers are traced to their calls -/
def Traced (codec : Codec) (handlers : List UInt8 → Option (RpcHandler σ)) (w : System ι σ) : Prop :=
  ∀ i, (w.peers i).Traced codec handlers w.executed i

theorem traced_new (st : σ) (sessions : ι → TcpSession) :
    (System.new st sessions).Traced codec handlers := fun i =>
  { ledger := RpcClient.ledger_new (sessions i)
    numbered := RpcClient.numbered_new (sessions i)
    outbox := fun _ h => by cases h
    requests := fun _ _ h => by cases h
    responses := fun _ _ h => by cases h
    answered := fun _ _ h => by cases h }

theorem traced_setPeer {w w' : System ι σ} (h : w.Traced codec handlers) {i : ι} {p : Peer}
    (hp : w'.peers = Function.update w.peers i p) (hx : w.executed ⊆ w'.executed)
    (ht : p.Traced codec handlers w'.executed i) : w'.Traced codec handlers := by
  intro j
  rw [hp]
  by_cases e : j = i
  · rw [e, Function.update_self]
    exact ht
  · rw [Function.update_of_ne e]
    exact (h j).mono hx

theorem step_traced {w w' : System ι σ} {e : SystemEvent ι} (h : w.Traced codec handlers)
    (hs : w.step codec handlers e = some w') : w'.Traced codec handlers := by
  have hx : w.executed ⊆ w.executed := fun _ hm => hm
  cases e with
  | client i e =>
    rw [step] at hs
    split at hs
    · cases hs
    · rename_i hr
      obtain ⟨c, hc, rfl⟩ := Option.map_eq_some_iff.mp hs
      exact traced_setPeer h rfl hx ((h i).client (Bool.eq_false_iff.mpr hr) hc)
  | send i =>
    rw [step] at hs
    split at hs
    · cases hs
    · rename_i f rest ho
      cases hs
      exact traced_setPeer h rfl hx ((h i).send ho)
  | serve i n session =>
    rw [step] at hs
    split at hs
    · cases hs
    · rename_i f rest hn
      split at hs
      · rename_i hsound
        obtain ⟨⟨st', out, runs⟩, ho, rfl⟩ := Option.map_eq_some_iff.mp hs
        have ht := (h i).serve hn hsound ho
        exact traced_setPeer h rfl (List.subset_append_left _ _) ht
      · cases hs
  | deliver i n =>
    rw [step] at hs
    split at hs
    · cases hs
    · rename_i f rest hn
      split at hs
      · rename_i hsound
        cases hs
        exact traced_setPeer h rfl hx ((h i).deliver hn hsound)
      · cases hs
  | reconnect i lost sent received =>
    cases hs
    exact traced_setPeer h rfl hx ((h i).reconnect lost sent received)

/-- **A callback gets the result of its own request, at most once.**  In every run of any number of
clients and one server, whenever `cb` of the call `k` of the client `i` was called with `s`, the server
ran the handler registered for the method of the call, on the parameters of the call and because of its
request, and `s` is the serialized result. -/
theorem answers_own_call (codec : Codec) (handlers : List UInt8 → Option (RpcHandler σ)) (st : σ)
    (sessions : ι → TcpSession) (es : List (SystemEvent ι)) (w : System ι σ)
    (hrun : exec (step codec handlers) (System.new st sessions) es = some w) (i : ι) (k : Nat) :
    (∀ s, Invocation.cb k s ∈ (w.peers i).client.invoked →
      Executed handlers w.executed i (w.peers i).client k s)
    ∧ (w.peers i).client.answers k ≤ 1 := by
  have h := exec_invariant (step codec handlers) (fun _ _ _ hI hs => step_traced hI hs) es _ w
    (traced_new st sessions) hrun i
  exact ⟨h.answered k, h.ledger.once k⟩

end

/-- a handler that counts its runs and puts the count before its parameters -/
def counting : List UInt8 → Option (RpcHandler UInt8)
  | [97] => some fun n params => (some (n :: params), n + 1)
  | _ => none

/-- two clients whose first calls have the same number, served in the other order, the second over a
reconnect -/
theorem answers_own_call_two_clients :
    ∃ w, exec (step pb counting) (System.new 0 fun _ : Bool => .established (List.replicate 64 0))
        [.client true (.enter .timed [97] [5]), .client false (.enter .callback [97] [6]),
          .client true (.register 0 .none), .client false (.register 0 .none),
          .client true (.finish 0 false), .client false (.finish 0 false),
          .send true, .reconnect false 0 0 0, .send false,
          .serve false 1 (.established (List.replicate 64 0)),
          .serve true 0 (.established (List.replicate 64 0)), .deliver true 0, .deliver false 1]
        = some w
      ∧ Executed counting w.executed true (w.peers true).client 0 [1, 5]
      ∧ Executed counting w.executed false (w.peers false).client 0 [0, 6]
      ∧ (w.peers true).client.answers 0 ≤ 1 := by
  have h : (exec (step pb counting)
      (System.new 0 fun _ : Bool => .established (List.replicate 64 0))
      [.client true (.enter .timed [97] [5]), .client false (.enter .callback [97] [6]),
        .client true (.register 0 .none), .client false (.register 0 .none),
        .client true (.finish 0 false), .client false (.finish 0 false),
        .send true, .reconnect false 0 0 0, .send false,
        .serve false 1 (.established (List.replicate 64 0)),
        .serve true 0 (.established (List.replicate 64 0)), .deliver true 0, .deliver false 1]).any
      (fun w => decide ((w.peers true).client.invoked = [.cb 0 [1, 5]])
        && decide ((w.peers false).client.invoked = [.cb 0 [0, 6]])) = true := by
    decide +kernel
  obtain ⟨w, hw, hp⟩ := (Option.any_eq_true ..).mp h
  rw [Bool.and_eq_true, decide_eq_true_eq, decide_eq_true_eq] at hp
  have ht := answers_own_call pb counting 0 _ _ w hw true 0
  have hf := answers_own_call pb counting 0 _ _ w hw false 0
  refine ⟨w, hw, ht.1 _ ?_, hf.1 _ ?_, ht.2⟩
  · rw [hp.1]
    exact List.mem_cons_self
  · rw [hp.2]
    exact List.mem_cons_self

end System

end JMEngine.Rpc
