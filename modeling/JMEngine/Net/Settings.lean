import JMEngine.Net.Alive

/-!
# What a session keeps for life

The size of the write buffer and the reconnect interval come from the constructor; no function of the
session changes them, `stop` apart.

* `settings s`          the length of the allocated buffer, `_writeBufferSize` and
                        `_reconnectInterval`;
* `settings_of_step`    every event of a client keeps them; `settings_of_run`;
* `length_queued_writeMessage`   an accepted message never leaves `2 ^ 31` bytes queued.
-/

set_option linter.unusedSectionVars false

namespace JMEngine.Net
open Bytes Runs

namespace TcpSession

def settings (s : TcpSession) : Option Nat × Nat × Nat :=
  (s._writeBuffer.map List.length, s._writeBufferSize, s._reconnectInterval)

theorem settings_of_same {s t : TcpSession} (h : SameWrite s t) : t.settings = s.settings := by
  unfold settings
  rw [h.buffer, h.size, readSide_field h.rest _reconnectInterval rfl rfl]

theorem settings_of_buffer {s t : TcpSession} {mem mem' : List UInt8} (hm : s._writeBuffer = some mem)
    (hl : mem'.length = mem.length) (hb : t._writeBuffer = some mem')
    (hr : t.readSide = s.readSide) : t.settings = s.settings := by
  unfold settings
  rw [hb, hm, Option.map_some, Option.map_some, hl, readSide_field hr _writeBufferSize rfl rfl,
    readSide_field hr _reconnectInterval rfl rfl]

/-! ## writing -/

theorem copyToTop_length {mem : List UInt8} {len offest : Nat} {e : ErrorCode} {w : Written}
    (h : copyToTop mem len offest e = some w) : w.mem.length = mem.length := by
  unfold copyToTop memmove at h
  split at h
  · split at h
    · cases h
    · next hmove =>
      split at hmove
      · next hc =>
        cases h
        rw [← Option.some.inj hmove]
        exact length_patch mem _ 0 (by rw [length_slice mem len offest hc.1]; exact hc.2)
      · cases hmove
  · cases h
    rfl

theorem writeLoop_length {mem : List UInt8} {ws : List WriteSome} : ∀ {len offest : Nat} {w : Written},
    writeLoop mem len offest ws = some w → w.mem.length = mem.length := by
  induction ws with
  | nil => exact fun h => copyToTop_length h
  | cons a ws ih =>
    intro len offest w h
    cases a with
    | failed e => exact copyToTop_length h
    | wrote k =>
      rw [writeLoop] at h
      split at h
      · exact copyToTop_length h
      · split at h
        · split at h
          · cases h
          · next hw =>
            have hl := ih hw
            cases h
            exact hl
        · cases h
          rfl

theorem settings_handleWrite {s t : TcpSession} {error : ErrorCode} {ws : List WriteSome}
    {sent : List UInt8} {es : List Effect} (h : s.handleWrite error ws = some (t, sent, es)) :
    t.settings = s.settings := by
  have hr := handleWrite_readSide h
  cases handleWrite_cases h with
  | wrote hm hw hp =>
    exact settings_of_buffer hm (writeLoop_length hw) (hp ▸ (finishWrite_same _ _).buffer) hr
  | idle k e hp =>
    rw [← hp]
    exact settings_of_same (s := { s with _writing := false, _writeBlockTimes := k })
      (finishWrite_same _ _)

theorem settings_writeNolock {s : TcpSession} {data : List UInt8} {len : Int}
    {r : TcpSession × List Effect} (h : s.writeNolock data len = some r) :
    r.1.settings = s.settings := by
  have hr := writeNolock_readSide h
  cases writeNolock_cases h with
  | refused => rfl
  | written hm hfit hd ho =>
    refine settings_of_buffer hm (length_patch _ _ _ ?_) (postWriteNull_same _).buffer hr
    rw [List.length_take, Nat.min_eq_left hd]
    exact ho

theorem settings_writeMessage {s t : TcpSession} {m : Message} {r : Bool} {es : List Effect}
    (h : s.writeMessage m = some (r, t, es)) : t.settings = s.settings := by
  cases writeMessage_cases h with
  | refused => rfl
  | full => exact settings_of_same (postWriteNull_same s)
  | written _ h1 h2 => exact (settings_writeNolock h2).trans (settings_writeNolock h1)

/-- `destSize` is compared as a `size_t`: a sum that turns negative does not fit -/
theorem writeNolock_offest {s : TcpSession} {data : List UInt8} {len : Int}
    {r : TcpSession × List Effect} (h : s.writeNolock data len = some r)
    (hsize : s._writeBufferSize < 9223372036854775808) (ho : s._writeBufferOffest < 2147483648)
    (hl : -2147483648 ≤ len) (hl' : len < 2147483648) : r.1._writeBufferOffest < 2147483648 := by
  cases writeNolock_cases h with
  | refused => exact ho
  | written hm hfit hd _ =>
    rw [(postWriteNull_same _).offest]
    show sizeT (s._writeBufferOffest + len) < 2147483648
    have hr := int32_range (s._writeBufferOffest + len)
    have hpos : 0 ≤ int32 (s._writeBufferOffest + len) := by
      by_contra hneg
      have := sizeT_of_neg _ hr.1 (Int.not_le.mp hneg)
      omega
    have hlt : ¬ 2147483648 ≤ s._writeBufferOffest + len := fun hge => by
      rw [int32_upper _ hge (by omega)] at hpos
      omega
    rw [int32_of_range _ (by omega) (by omega)] at hpos
    rw [sizeT_of_nonneg _ hpos (by omega)]
    omega

theorem length_queued_writeMessage {s t : TcpSession} {m : Message} {es : List Effect}
    (h : s.writeMessage m = some (true, t, es)) (hsize : s._writeBufferSize < 9223372036854775808)
    (ho : s._writeBufferOffest < 2147483648) : t.queued.length < 2147483648 := by
  cases writeMessage_cases h with
  | @written s1 _ _ _ _ h1 h2 =>
    have hs1 : s1._writeBufferSize = s._writeBufferSize :=
      congrArg (fun x => x.2.1) (settings_writeNolock h1)
    have ho1 := writeNolock_offest h1 hsize ho (by decide) (by decide)
    have hr := int32_range m.messageDataLen
    have ho2 := writeNolock_offest h2 (by rw [hs1]; exact hsize) ho1 hr.1 hr.2
    exact Nat.lt_of_le_of_lt (List.length_take_le _ _) ho2

end TcpSession

/-! ## connecting, starting and reading -/

namespace Lifecycle

section
variable {w w' : Lifecycle}

theorem settings_connects {x : ConnectCalls} (h : Connects w x w') :
    w'.session.settings = w.session.settings := by
  cases h with
  | busy | threw | attempt | succeed | fail => rfl

theorem settings_reads {s : TcpSession} (h : Reads w s w') : w'.session.settings = s.settings := by
  cases h with
  | none | post => rfl

theorem settings_start (w : Lifecycle) (y : StartCalls) :
    (w.apply (w.session.start y)).session.settings = w.session.settings := by
  cases y with
  | remote_endpoint_throws => rfl
  | non_blocking_throws => rfl
  | fine => exact (settings_reads (w.readsNull { w.session with _status := .Connected })).trans rfl

theorem settings_readsOn {e : ErrorCode} {rs : ReadSome} (h : ReadsOn w e rs w') :
    w'.session.settings = w.session.settings := by
  cases h with
  | ends | givesUp | cancelled => rfl
  | again b k ps h => exact (settings_reads h).trans rfl

theorem settings_completes {e : ErrorCode} (h : Completes w e w') :
    w'.session.settings = w.session.settings := by
  cases h with
  | succeed | fail => rfl

theorem session_foldl_writes (es : List Effect) (h : ∀ f ∈ es, f = .async_write_some) :
    (es.foldl perform w).session = w.session := by
  rw [foldl_writes w es h]

theorem settings_of_step {e : LifeEvent} (he : e.isCall = false)
    (h : step .RpcClient w e = some w') : w'.session.settings = w.session.settings := by
  have hm := step_moves h
  cases e with
  | connect | reconnect | start | stop | accept => cases he
  | handleWrite er ws =>
    rw [step] at h
    split at h
    · obtain ⟨⟨t, sent, es⟩, hr, rfl⟩ := Option.map_eq_some_iff.mp h
      unfold apply
      rw [session_foldl_writes es (TcpSession.handleWrite_effects hr)]
      exact TcpSession.settings_handleWrite hr
    · cases h
  | writeMessage m =>
    obtain ⟨⟨r, t, es⟩, hr, rfl⟩ := Option.map_eq_some_iff.mp h
    unfold apply
    rw [session_foldl_writes es (TcpSession.writeMessage_effects hr)]
    exact TcpSession.settings_writeMessage hr
  | timer x =>
    cases hm with
    | timer _ ht => exact (settings_connects (connects { w with timers := w.timers - 1 } x)).trans rfl
  | handleConnect er =>
    cases hm with
    | handleConnect _ ha hc => exact (settings_completes hc).trans rfl
  | readBegins =>
    cases hm with
    | readBegins hr => rfl
  | readOn i er rs =>
    cases hm with
    | readOn _ _ _ hi hr => exact (settings_readsOn hr).trans rfl
  | readEnds i =>
    cases hm with
    | readEnds _ hi => rfl
  | logic y x throws =>
    cases hm with
    | @runStart q hq => exact (settings_start { w with logic := q } y).trans rfl
    | runOther hq h1 h2 => rfl
    | @runReconnect e q hq ho =>
      exact (settings_connects
        (connects { w with session := w.session.resetReadBuffer, logic := q } x)).trans rfl
    | runStop hq ho => cases ho

theorem settings_of_run {es : List LifeEvent} (hes : ∀ e ∈ es, e.isCall = false)
    (h : exec (step .RpcClient) w es = some w') : w'.session.settings = w.session.settings := by
  refine exec_guarded (C := fun _ e => e.isCall = false)
    (I := fun v => v.session.settings = w.session.settings) (step .RpcClient)
    (fun v e v' hv he hs => (settings_of_step he hs).trans hv) es w w' rfl
    (guarded_of_mem _ es (fun e he _ => hes e he) w) h

theorem settings_client (mem : Option (List UInt8)) (readMem : List UInt8)
    (buffSize reconnect : Nat) :
    (client mem readMem buffSize reconnect).session.settings
      = (mem.map List.length, buffSize, reconnect) :=
  rfl

end

end Lifecycle

end JMEngine.Net
