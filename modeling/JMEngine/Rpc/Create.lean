import JMEngine.Net.Settings
import JMEngine.Rpc.Client

/-!
# `RpcClient::create`

The constructor takes the buffer size before the reconnect interval; `create` passes them the other way
round, both of them of type `size_t`.

* `Allocator`             what `nedmalloc` promises;
* `RpcClient.construct`, `RpcClient.create`   the client's session after its first `connect`;
* `Accepted`              a call returns `true` and its frame is queued;
* `accepted_iff`          in an empty buffer that is decided by the size that the session has;
* `create_promise_iff`    what follows for a client that was created for `buffSize` and `reconnect`.
-/

set_option linter.unusedSectionVars false

namespace JMEngine.Rpc
open JMEngine.Net Runs

/-- a block has the size that was asked for, and no block takes half of the address space -/
structure Allocator where
  nedmalloc : Nat → Option (List UInt8)
  size : ∀ {n mem}, nedmalloc n = some mem → mem.length = n
  limit : ∀ {n mem}, nedmalloc n = some mem → n < 9223372036854775808

namespace RpcClient

/-- the constructor `RpcClient(ip, port, buffSize, reconnect)` -/
def construct (A : Allocator) (readMem : List UInt8) (buffSize reconnect : Nat) : Lifecycle :=
  Lifecycle.client (A.nedmalloc buffSize) readMem buffSize reconnect

/-- `RpcClient::create(ip, port, buffSize, reconnect)`: `new RpcClient(ip, port, reconnect, buffSize)` -/
def create (A : Allocator) (readMem : List UInt8) (buffSize reconnect : Nat) : Lifecycle :=
  construct A readMem reconnect buffSize

/-- the 14 bytes of the header and the serialized request that the next call sends -/
def frame (codec : Codec) (c : RpcClient) (method params : List UInt8) : List UInt8 :=
  (rpcMessage codec ⟨c._methodId + 1, method, params⟩).header
    ++ codec.serializeAsString ⟨c._methodId + 1, method, params⟩

/-- the call returns `true`, and its frame is what the buffer holds then -/
def Accepted (codec : Codec) (c : RpcClient) (o : Overload) (method params : List UInt8) : Prop :=
  ∃ c', c.callRpcMethod codec o method params .none false = some (true, c') ∧
    c'._session.queued = c.frame codec method params

/-- connected, on an open socket, with an empty write buffer -/
structure Ready (s : TcpSession) : Prop where
  connected : s._status = .Connected
  socket : s._socket = true
  empty : s._writeBufferOffest = 0

theorem Ready.writeOk {s : TcpSession} (h : Ready s)
    (hmem : ∀ mem, s._writeBuffer = some mem → mem.length = s._writeBufferSize)
    (hsize : s._writeBufferSize < 9223372036854775808) : s.WriteOk := by
  refine ⟨hmem, fun _ => h.empty, hsize, ?_, ?_⟩
  · rw [h.empty]
    exact Nat.zero_le _
  · rw [h.empty]
    decide

section
variable {codec : Codec} {c : RpcClient} {o : Overload} {method params : List UInt8}

theorem session_release (c : RpcClient) (p : Option RpcCallback) :
    (c.release p)._session = c._session := by
  unfold release
  split
  · split <;> rfl
  · rfl

theorem session_assign (c : RpcClient) (id : BitVec 32) (cb : RpcCallback) :
    (c.assign id cb)._session = c._session := by
  show (release _ _)._session = c._session
  rw [session_release]
  split <;> rfl

theorem register_none (c : RpcClient) (k : Nat) (o : Overload) (h : c._methodId ≠ 2147483647) :
    ∃ c2, c.register k o .none = some (c2, some (c._methodId + 1)) ∧ c2._session = c._session := by
  unfold register
  rw [if_neg (by decide), if_neg h]
  cases o with
  | plain => exact ⟨_, rfl, rfl⟩
  | callback => exact ⟨_, rfl, session_assign _ _ _⟩
  | timed => exact ⟨_, rfl, session_assign _ _ _⟩

theorem accepted_iff_writeMessage (hok : c._session.isOk = true) (hid : c._methodId ≠ 2147483647) :
    c.Accepted codec o method params ↔ ∃ t es,
      c._session.writeMessage (rpcMessage codec ⟨c._methodId + 1, method, params⟩)
        = some (true, t, es) ∧ t.queued = c.frame codec method params := by
  obtain ⟨c2, hreg, hses⟩ := register_none (c.enter o method params) c.calls.length o hid
  have hcall : c.callRpcMethod codec o method params .none false =
      c2.finish codec c.calls.length method params (c._methodId + 1) false := by
    unfold callRpcMethod
    dsimp only
    rw [hok, hreg]
    rfl
  have hses' : c2._session = c._session := hses
  unfold Accepted
  rw [hcall, finish, if_neg (by decide), hses']
  constructor
  · rintro ⟨c', hc, hq⟩
    split at hc
    · cases hc
    · next hw =>
      cases hc
      exact ⟨_, _, hw, hq⟩
  · rintro ⟨t, es, hw, hq⟩
    rw [hw]
    exact ⟨_, rfl, hq⟩

theorem length_frame (c : RpcClient) (codec : Codec) (method params : List UInt8) :
    (c.frame codec method params).length =
      (codec.serializeAsString ⟨c._methodId + 1, method, params⟩).length + 14 := by
  unfold frame
  rw [List.length_append, Message.length_header, Nat.add_comm]
  rfl

/-- **A ready session takes a frame iff it has a buffer, the frame fits it and its length fits an
`int`.** -/
theorem accepted_iff (hs : Ready c._session) (hid : c._methodId ≠ 2147483647)
    (hmem : ∀ mem, c._session._writeBuffer = some mem → mem.length = c._session._writeBufferSize ∧
      c._session._writeBufferSize < 9223372036854775808) :
    c.Accepted codec o method params ↔ c._session._writeBuffer.isSome = true ∧
      (c.frame codec method params).length ≤ c._session._writeBufferSize ∧
      (c.frame codec method params).length < 2147483648 := by
  rw [accepted_iff_writeMessage (decide_eq_true hs.connected) hid, length_frame]
  have hempty : c._session.queued = [] := TcpSession.queued_of_none hs.empty
  cases hb : c._session._writeBuffer with
  | none =>
    refine iff_of_false ?_ (fun h => by cases h.1)
    rintro ⟨t, es, hw, -⟩
    cases TcpSession.writeMessage_cases hw with
    | written hsome =>
      rw [hb] at hsome
      cases hsome
  | some mem =>
    obtain ⟨hlen, hsize⟩ := hmem mem hb
    by_cases h31 : (codec.serializeAsString ⟨c._methodId + 1, method, params⟩).length < 2147483634
    · have hok := hs.writeOk (fun m hm => (hmem m hm).1) hsize
      have hsound : (rpcMessage codec ⟨c._methodId + 1, method, params⟩).Sound :=
        Message.ofStr_sound RPCMessage _ h31
      obtain ⟨r, t, es, hw, hq, hr⟩ := TcpSession.writeMessage_spec hok (fun _ => hs.socket) hsound
      rw [hs.empty, Nat.zero_add, hsound.length_wire] at hr
      have hqueued : r = true → t.queued = c.frame codec method params := by
        rintro rfl
        rw [hq.queued, hempty, if_pos rfl, List.nil_append, hsound.wire]
        rfl
      constructor
      · rintro ⟨t', es', hw', -⟩
        rw [hw] at hw'
        cases hw'
        exact ⟨rfl, (hr.mp rfl).2.2⟩
      · rintro ⟨-, h1, h2⟩
        have hrt : r = true := hr.mpr ⟨hs.connected, by rw [hb]; rfl, h1, h2⟩
        exact ⟨t, es, hrt ▸ hw, hqueued hrt⟩
    · refine iff_of_false ?_ (fun h => by omega)
      rintro ⟨t, es, hw, hq⟩
      have hlt := TcpSession.length_queued_writeMessage hw hsize (by rw [hs.empty]; decide)
      rw [hq, length_frame] at hlt
      omega

end

end RpcClient

/-- what a client does when a connection attempt fails, and is to be tried again after `interval`
seconds -/
def RetriesAfter (s : TcpSession) (interval : Nat) : Prop :=
  ∀ e, e ≠ .success → (s.handleConnect e).2 =
    .post (.sessionConnectFailed e) :: (if interval ≠ 0 then [.async_wait interval] else [])

theorem wait_inj {m n : Nat} (h : (if m ≠ 0 then [Effect.async_wait m] else []) =
    if n ≠ 0 then [.async_wait n] else []) : m = n := by
  by_cases hm : m = 0 <;> by_cases hn : n = 0 <;> simp_all

theorem retriesAfter_iff (s : TcpSession) (interval : Nat) :
    RetriesAfter s interval ↔ s._reconnectInterval = interval := by
  have heff (e : ErrorCode) (he : e ≠ .success) : (s.handleConnect e).2 =
      .post (.sessionConnectFailed e) ::
        (if s._reconnectInterval ≠ 0 then [.async_wait s._reconnectInterval] else []) := by
    unfold TcpSession.handleConnect
    rw [if_pos he]
  constructor
  · intro h
    have h1 := h .would_block (by decide)
    rw [heff .would_block (by decide)] at h1
    exact wait_inj (List.cons.inj h1).2
  · rintro rfl e he
    exact heff e he

section
variable (A : Allocator) (readMem : List UInt8) (buffSize reconnect : Nat) {es : List LifeEvent}
  (hes : ∀ e ∈ es, e.isCall = false) {w : Lifecycle}
  (h : exec (Lifecycle.step .RpcClient) (RpcClient.create A readMem buffSize reconnect) es = some w)
include hes h

theorem settings_create : w.session.settings =
    ((A.nedmalloc reconnect).map List.length, reconnect, buffSize) :=
  (Lifecycle.settings_of_run hes h).trans (Lifecycle.settings_client ..)

theorem accepted_create {codec : Codec} {c : RpcClient} {o : Overload} {method params : List UInt8}
    (hc : c._session = w.session) (hready : RpcClient.Ready w.session)
    (hid : c._methodId ≠ 2147483647) :
    c.Accepted codec o method params ↔ (A.nedmalloc reconnect).isSome = true ∧
      (c.frame codec method params).length ≤ reconnect ∧
      (c.frame codec method params).length < 2147483648 := by
  have hset := settings_create A readMem buffSize reconnect hes h
  rw [← hc] at hset hready
  have hbuf : c._session._writeBuffer.map List.length = (A.nedmalloc reconnect).map List.length :=
    congrArg (fun x => x.1) hset
  have hsize : c._session._writeBufferSize = reconnect := congrArg (fun x => x.2.1) hset
  have hsome : c._session._writeBuffer.isSome = (A.nedmalloc reconnect).isSome := by
    rw [← Option.isSome_map (f := List.length), hbuf, Option.isSome_map]
  rw [RpcClient.accepted_iff hready hid ?_, hsize, hsome]
  intro mem hm
  rw [hm, Option.map_some] at hbuf
  obtain ⟨mem', hm', hl⟩ := Option.map_eq_some_iff.mp hbuf.symm
  rw [hsize]
  exact ⟨hl.symm.trans (A.size hm'), A.limit hm'⟩

theorem retriesAfter_create (interval : Nat) :
    RetriesAfter w.session interval ↔ buffSize = interval := by
  have hint : w.session._reconnectInterval = buffSize :=
    congrArg (fun x => x.2.2) (settings_create A readMem buffSize reconnect hes h)
  rw [retriesAfter_iff, hint]

end

/-- **A client that was created for `buffSize` and `reconnect`** takes, in every state of every run in
which it is ready, the frames of at most `reconnect` bytes, and retries after `reconnect` seconds only
if that is `buffSize`. -/
theorem create_promise_iff (A : Allocator) (readMem : List UInt8) (buffSize reconnect : Nat)
    (es : List LifeEvent) (hes : ∀ e ∈ es, e.isCall = false) (w : Lifecycle)
    (h : exec (Lifecycle.step .RpcClient) (RpcClient.create A readMem buffSize reconnect) es
      = some w) :
    (∀ (codec : Codec) (c : RpcClient) (o : Overload) (method params : List UInt8),
      c._session = w.session → RpcClient.Ready w.session → c._methodId ≠ 2147483647 →
      (c.Accepted codec o method params ↔ (A.nedmalloc reconnect).isSome = true ∧
        (c.frame codec method params).length ≤ reconnect ∧
        (c.frame codec method params).length < 2147483648)) ∧
    (RetriesAfter w.session reconnect ↔ buffSize = reconnect) :=
  ⟨fun _ _ _ _ _ hc hready hid =>
      accepted_create A readMem buffSize reconnect hes h hc hready hid,
    retriesAfter_create A readMem buffSize reconnect hes h reconnect⟩

/-- an allocator that never fails below its limit -/
def zeros : Allocator where
  nedmalloc n := if n < 9223372036854775808 then some (List.replicate n 0) else none
  size := by
    intro n mem h
    split at h
    · rw [← Option.some.inj h, List.length_replicate]
    · cases h
  limit := by
    intro n mem h
    split at h
    · assumption
    · cases h

/-- a client right after its first connection -/
def firstConnection (buffSize reconnect : Nat) : Lifecycle :=
  let w := RpcClient.create zeros [] buffSize reconnect
  { w with attempts := 0 }.apply (w.session.handleConnect .success)

theorem firstConnection_run (buffSize reconnect : Nat) :
    exec (Lifecycle.step .RpcClient) (RpcClient.create zeros [] buffSize reconnect)
      [.handleConnect .success] = some (firstConnection buffSize reconnect) :=
  rfl

theorem firstConnection_ready (buffSize reconnect : Nat) :
    RpcClient.Ready (firstConnection buffSize reconnect).session :=
  ⟨rfl, rfl, rfl⟩

/-- with 64 for both, the client keeps both -/
theorem create_promise_equal : RetriesAfter (firstConnection 64 64).session 64 ∧
    ∀ (codec : Codec) (c : RpcClient) (o : Overload) (method params : List UInt8),
      c._session = (firstConnection 64 64).session → c._methodId ≠ 2147483647 →
      (c.frame codec method params).length ≤ 64 → c.Accepted codec o method params := by
  have h := create_promise_iff zeros [] 64 64 [.handleConnect .success] (by decide)
    (firstConnection 64 64) (firstConnection_run 64 64)
  refine ⟨h.2.mpr rfl, fun codec c o method params hc hid hle => ?_⟩
  exact (h.1 codec c o method params hc (firstConnection_ready 64 64) hid).mpr ⟨rfl, hle, by omega⟩

/-- what the two arguments of `create` promise -/
def KeepsPromise (A : Allocator) (readMem : List UInt8) (buffSize reconnect : Nat) : Prop :=
  ∀ es : List LifeEvent, (∀ e ∈ es, e.isCall = false) → ∀ w : Lifecycle,
    exec (Lifecycle.step .RpcClient) (RpcClient.create A readMem buffSize reconnect) es = some w →
    (∀ (codec : Codec) (c : RpcClient) (o : Overload) (method params : List UInt8),
      c._session = w.session → RpcClient.Ready w.session → c._methodId ≠ 2147483647 →
      (c.frame codec method params).length ≤ buffSize → c.Accepted codec o method params) ∧
    RetriesAfter w.session reconnect

/-- a client for 100 bytes and 5 seconds refuses the shortest request -/
theorem interval_taken_for_size : ¬ ∀ buffSize reconnect, KeepsPromise zeros [] buffSize reconnect := by
  intro hall
  have hrun := firstConnection_run 100 5
  have hready := firstConnection_ready 100 5
  have hacc := (hall 100 5 [.handleConnect .success] (by decide) _ hrun).1 pb
    (RpcClient.new (firstConnection 100 5).session) .plain [] [] rfl hready (by decide)
    (by decide +kernel)
  have hle := ((accepted_create zeros [] 100 5 (by decide) hrun rfl hready (by decide)).mp hacc).2.1
  rw [RpcClient.length_frame] at hle
  omega

end JMEngine.Rpc
