import JMEngine.Net.Connection
import Mathlib.Data.List.GetD

/-!
# The messages of one connection come from the bytes of that connection

The half-received tail of a connection is dropped by a reset on the logic thread, while reads run on
the net thread.  What keeps the two apart is the queue: the read error of a connection is posted
before the start of the next one, so the reset comes before the next connection's first read.

* `Client.Decodes n`        the read buffer has decoded the present connection, or is clean, or its
                            reset is still queued;
* `decodes_connections`     the messages posted for a connection are the frames of its stream, in
                            order, and none follows its `sessionReadError`;
* `not_decodes_connections` without a bound on reads a message can be put together from the head of
                            one frame and the body of another.
-/

set_option linter.unusedSectionVars false

namespace JMEngine.Net
open Bytes Framing Runs TcpSession

namespace Client

/-- the messages posted for the connection `k` -/
def messagesOn (k : Nat) (l : List (Nat × Callback)) : List Message :=
  l.filterMap fun
    | (j, .sessionReceiveMessage m) => if j = k then some m else none
    | _ => none

def lastStream (c : Client) : List UInt8 := c.streams.getLast?.getD []

def messages (xs : List UInt8) : List Message :=
  (wireFramer.frames xs).map fun f => Message.create f f.length

/-- connections are numbered in order, and no message follows the read error of its connection -/
def Before (a b : Nat × Callback) : Prop :=
  a.1 ≤ b.1 ∧ (readErrors [a] ≠ [] → a.1 = b.1 → ∀ m, b.2 ≠ .sessionReceiveMessage m)

theorem messagesOn_append (k : Nat) (a b : List (Nat × Callback)) :
    messagesOn k (a ++ b) = messagesOn k a ++ messagesOn k b := List.filterMap_append

theorem messagesOn_messagePosts (j k : Nat) (ps : List (List UInt8)) :
    messagesOn k (messagePosts j ps)
      = if j = k then ps.map (fun f => Message.create f f.length) else [] := by
  unfold messagesOn messagePosts
  rw [List.filterMap_map]
  by_cases h : j = k
  · rw [if_pos h]
    have e : ∀ f : List UInt8, ((fun a : Nat × Callback => match a with
        | (j, .sessionReceiveMessage m) => if j = k then some m else none
        | _ => none) ∘ fun f : List UInt8 => (j, Callback.sessionReceiveMessage (Message.create f f.length))) f
        = some (Message.create f f.length) := fun f => if_pos h
    rw [← List.filterMap_eq_map]
    exact List.filterMap_congr fun f _ => e f
  · rw [if_neg h]
    exact List.filterMap_eq_nil_iff.mpr fun f _ => if_neg h

section
variable {streams : List (List UInt8)} (h : 0 < streams.length) (chunk : List UInt8)
include h

theorem receive_eq : receive streams chunk
    = streams.dropLast ++ [streams.getLast?.getD [] ++ chunk] := by
  unfold receive
  cases hl : streams.getLast? with
  | none =>
    rw [List.getLast?_eq_none_iff.mp hl] at h
    exact absurd h (Nat.lt_irrefl 0)
  | some xs => rfl

theorem getLast_receive : (receive streams chunk).getLast?.getD []
    = streams.getLast?.getD [] ++ chunk := by
  rw [receive_eq h, List.getLast?_append, List.getLast?_singleton]
  rfl

theorem getD_receive (k : Nat) : (receive streams chunk).getD k []
    = streams.getD k [] ++ (if k + 1 = streams.length then chunk else []) := by
  have hd : streams.dropLast.length = streams.length - 1 := List.length_dropLast
  rw [receive_eq h]
  rcases Nat.lt_trichotomy (k + 1) streams.length with hk | hk | hk
  · rw [if_neg (by omega), List.append_nil, List.getD_append _ _ _ _ (by omega)]
    simp only [List.getD_eq_getElem?_getD, List.getElem?_dropLast]
    rw [if_pos (by omega)]
  · rw [if_pos hk, List.getD_append_right _ _ _ _ (by omega)]
    have e : k - streams.dropLast.length = 0 := by omega
    rw [e, List.getLast?_eq_getElem?]
    have e' : streams.length - 1 = k := by omega
    rw [e', ← List.getD_eq_getElem?_getD]
    rfl
  · rw [if_neg (by omega), List.append_nil, List.getD_append_right _ _ _ _ (by omega)]
    rw [List.getD_eq_default _ _ (by rw [List.length_singleton]; omega),
      List.getD_eq_default _ _ (by omega)]

end

theorem getD_new (streams : List (List UInt8)) (k : Nat) :
    (streams ++ [[]]).getD k [] = streams.getD k [] := by
  rcases Nat.lt_trichotomy k streams.length with hk | hk | hk
  · exact List.getD_append _ _ _ _ hk
  · rw [List.getD_append_right _ _ _ _ (by omega), hk, Nat.sub_self,
      List.getD_eq_default streams _ (Nat.le_refl _)]
    rfl
  · rw [List.getD_append_right _ _ _ _ (by omega),
      List.getD_eq_default _ _ (by rw [List.length_singleton]; omega),
      List.getD_eq_default _ _ (by omega)]

/-! ## what has been posted -/

structure History (l : List (Nat × Callback)) (streams : List (List UInt8)) : Prop where
  messages : ∀ k, messagesOn (k + 1) l = messages (streams.getD k [])
  tags : ∀ a ∈ l, a.1 ≤ streams.length ∧ (messagesOn a.1 [a] ≠ [] → 1 ≤ a.1)
  order : l.Pairwise Before

section
variable {l : List (Nat × Callback)} {streams : List (List UInt8)} (h : History l streams)
include h

theorem History.post {a : Nat × Callback} (h1 : streams.length ≤ a.1)
    (hm : ∀ m, a.2 ≠ .sessionReceiveMessage m) : (l ++ [a]).Pairwise Before := by
  refine List.pairwise_append.mpr ⟨h.order, List.pairwise_singleton _ _, ?_⟩
  intro b hb a' ha'
  rw [List.mem_singleton.mp ha']
  have := (h.tags b hb).1
  exact ⟨by omega, fun _ _ => hm⟩

theorem History.establish :
    History (l ++ [(streams.length + 1, .sessionConnectSucceed)]) (streams ++ [[]]) := by
  have hlen : (streams ++ [([] : List UInt8)]).length = streams.length + 1 := List.length_append
  refine ⟨fun k => ?_, fun a ha => ?_, h.post (Nat.le_succ _) (fun m hm => by cases hm)⟩
  · rw [messagesOn_append, getD_new, h.messages k]
    exact List.append_nil _
  · rw [hlen]
    rcases List.mem_append.mp ha with ha | ha
    · have := h.tags a ha
      exact ⟨by omega, this.2⟩
    · rw [List.mem_singleton.mp ha]
      exact ⟨Nat.le_refl _, fun _ => Nat.le_add_left 1 _⟩

theorem History.notice (cb : Callback) (hm : ∀ m, cb ≠ .sessionReceiveMessage m) :
    History (l ++ [(streams.length, cb)]) streams := by
  have hn : ∀ k, messagesOn k [(streams.length, cb)] = [] := by
    intro k
    cases cb with
    | sessionReceiveMessage m => exact absurd rfl (hm m)
    | sessionConnectSucceed => rfl
    | sessionConnectFailed e => rfl
    | sessionReadError e => rfl
  refine ⟨fun k => ?_, fun a ha => ?_, h.post (Nat.le_refl _) hm⟩
  · rw [messagesOn_append, hn, List.append_nil]
    exact h.messages k
  · rcases List.mem_append.mp ha with ha | ha
    · exact h.tags a ha
    · rw [List.mem_singleton.mp ha]
      exact ⟨Nat.le_refl _, fun hx => absurd (hn _) hx⟩

theorem History.read (hl : 0 < streams.length) (he : streams.length ∉ readErrors l)
    (chunk : List UInt8) (ps : List (List UInt8))
    (hp : wireFramer.frames (streams.getLast?.getD []) ++ ps
      = wireFramer.frames (streams.getLast?.getD [] ++ chunk)) :
    History (l ++ messagePosts streams.length ps) (receive streams chunk) := by
  have hlast : streams.getD (streams.length - 1) [] = streams.getLast?.getD [] := by
    rw [List.getLast?_eq_getElem?, List.getD_eq_getElem?_getD]
  refine ⟨fun k => ?_, fun a ha => ?_, ?_⟩
  · rw [messagesOn_append, h.messages k, messagesOn_messagePosts, getD_receive hl]
    by_cases hk : streams.length = k + 1
    · have e : k = streams.length - 1 := by omega
      rw [if_pos hk, if_pos hk.symm, e, hlast]
      unfold Client.messages
      rw [← hp, List.map_append]
    · rw [if_neg hk, if_neg (fun e => hk e.symm), List.append_nil, List.append_nil]
  · rw [length_receive]
    rcases List.mem_append.mp ha with ha | ha
    · exact h.tags a ha
    · obtain ⟨f, _, rfl⟩ := List.mem_map.mp ha
      exact ⟨Nat.le_refl _, fun _ => hl⟩
  · refine List.pairwise_append.mpr ⟨h.order, ?_, ?_⟩
    · unfold messagePosts
      rw [List.pairwise_map]
      exact List.pairwise_of_forall fun _ _ => ⟨Nat.le_refl _, fun hx => absurd rfl hx⟩
    · intro a ha b hb
      obtain ⟨f, _, rfl⟩ := List.mem_map.mp hb
      refine ⟨(h.tags a ha).1, fun hx heq => ?_⟩
      exfalso
      obtain ⟨k, cb⟩ := a
      cases cb with
      | sessionReadError e =>
        have hk : k = streams.length := heq
        exact he (List.mem_filterMap.mpr ⟨_, ha, congrArg some hk⟩)
      | sessionReceiveMessage m => exact hx rfl
      | sessionConnectSucceed => exact hx rfl
      | sessionConnectFailed e => exact hx rfl

end

/-! ## the read buffer -/

structure Decodes (n : Nat) (c : Client) : Prop where
  inv : Inv c
  tracks : ∃ xs, Tracks n xs c.session._buff
  reading : c.session._reading = true →
    readErrors c.logic = [] ∧ Tracks n c.lastStream c.session._buff
  clean : c.session._status ≠ .Connected ∨ starts c.logic ≠ [] → readErrors c.logic = [] →
    Tracks n [] c.session._buff
  fresh : starts c.logic ≠ [] → c.lastStream = []
  history : History c.posted c.streams

theorem new_decodes {s : TcpSession} {n : Nat} (h : Idle s) (hb : Tracks n [] s._buff) :
    Decodes n (new s) := by
  refine ⟨new_inv h, ⟨[], hb⟩, ?_, fun _ _ => hb, fun _ => rfl, fun _ => rfl, ?_, List.Pairwise.nil⟩
  · intro hr
    exact absurd (h.reading.symm.trans hr) (by decide)
  · intro a ha
    cases ha

section
variable {n : Nat} {c : Client} (h : Decodes n c)
include h

theorem Decodes.clean_post (hn : c.session._status ≠ .Connected) {a : Nat × Callback}
    (he : readErrors (c.logic ++ [a]) = []) : Tracks n [] c.session._buff := by
  rw [readErrors_append] at he
  exact h.clean (Or.inl hn) (List.append_eq_nil_iff.mp he).1

theorem Decodes.establish {c' : Client} (hI : Inv c'.establish)
    (hb : c'.session._buff = c.session._buff) (h1 : c'.session._reading = c.session._reading)
    (h2 : c'.logic = c.logic) (h3 : c'.handled = c.handled) (h4 : c'.streams = c.streams)
    (hn : c.session._status ≠ .Connected) : Decodes n c'.establish := by
  have hr := (h.inv.not_connected hn).1
  refine ⟨hI, ?_, ?_, ?_, ?_, ?_⟩
  · show ∃ xs, Tracks n xs c'.session._buff
    rw [hb]
    exact h.tracks
  · intro hx
    exact absurd ((h1.trans hr).symm.trans hx) (by decide)
  · intro _ he
    show Tracks n [] c'.session._buff
    have he' : readErrors (c'.logic ++ [(c'.streams.length + 1, .sessionConnectSucceed)]) = [] := he
    rw [h2] at he'
    rw [hb]
    exact h.clean_post hn he'
  · intro _
    show (c'.streams ++ [[]]).getLast?.getD [] = []
    rw [List.getLast?_append]
    rfl
  · show History (c'.handled ++ (c'.logic ++ [(c'.streams.length + 1, _)])) (c'.streams ++ [[]])
    rw [h2, h3, h4, ← List.append_assoc]
    exact h.history.establish

theorem Decodes.refuse {c' : Client} {e : ErrorCode} {timers : List Nat}
    (hI : Inv (c'.refuse e timers)) (hb : c'.session._buff = c.session._buff)
    (h1 : c'.session._reading = c.session._reading) (h2 : c'.logic = c.logic)
    (h3 : c'.handled = c.handled) (h4 : c'.streams = c.streams)
    (hn : c.session._status ≠ .Connected) : Decodes n (c'.refuse e timers) := by
  obtain ⟨hr, hst, _⟩ := h.inv.not_connected hn
  refine ⟨hI, ?_, ?_, ?_, ?_, ?_⟩
  · show ∃ xs, Tracks n xs c'.session._buff
    rw [hb]
    exact h.tracks
  · intro hx
    exact absurd ((h1.trans hr).symm.trans hx) (by decide)
  · intro _ he
    show Tracks n [] c'.session._buff
    have he' : readErrors (c'.logic ++ [(c'.streams.length, .sessionConnectFailed e)]) = [] := he
    rw [h2] at he'
    rw [hb]
    exact h.clean_post hn he'
  · intro hx
    have hx' : Client.starts (c'.logic ++ [(c'.streams.length, .sessionConnectFailed e)]) ≠ [] := hx
    rw [h2, starts_append, hst] at hx'
    exact absurd rfl hx'
  · show History (c'.handled ++ (c'.logic ++ [(c'.streams.length, _)])) c'.streams
    rw [h2, h3, h4, ← List.append_assoc]
    exact h.history.notice _ (fun m hm => by cases hm)

theorem Decodes.keep {c' : Client} (hI : Inv c') (hb : c'.session._buff = c.session._buff)
    (h1 : c'.session._reading = c.session._reading) (h2 : c'.logic = c.logic)
    (h3 : c'.handled = c.handled) (h4 : c'.streams = c.streams)
    (hs : c'.session._status ≠ .Connected → c.session._status ≠ .Connected) : Decodes n c' := by
  refine ⟨hI, ?_, ?_, ?_, ?_, ?_⟩
  · rw [hb]; exact h.tracks
  · unfold lastStream
    rw [hb, h1, h2, h4]
    exact h.reading
  · rw [hb, h2]
    intro hx
    exact h.clean (hx.imp hs id)
  · unfold lastStream
    rw [h2, h4]
    exact h.fresh
  · unfold posted
    rw [h2, h3, h4]
    exact h.history

theorem Decodes.start {k : Nat} {q : List (Nat × Callback)}
    (hq : c.logic = (k, .sessionConnectSucceed) :: q) {status : SessionStatus}
    {reading : Bool} {reads : Nat} (hs : status = .Connected)
    (hI : Inv { c.dequeue q (k, .sessionConnectSucceed) with
      session := { c.session with _status := status, _reading := reading }, reads := reads }) :
    Decodes n { c.dequeue q (k, .sessionConnectSucceed) with
      session := { c.session with _status := status, _reading := reading }, reads := reads } := by
  obtain ⟨h1, h2, h3⟩ := h.inv.start_last hq
  have hst : Client.starts c.logic ≠ [] := fun e => by
    rw [hq] at e
    cases e
  have hre : readErrors c.logic = [] := by
    rw [hq, h1]
    rfl
  have hh : History (c.dequeue q (k, .sessionConnectSucceed)).posted c.streams := by
    rw [posted_dequeue hq]
    exact h.history
  rw [hs, h1] at hI ⊢
  rw [h1] at hh
  refine ⟨hI, h.tracks, ?_, ?_, fun hx => absurd rfl hx, hh⟩
  · intro _
    refine ⟨rfl, ?_⟩
    show Tracks n c.lastStream c.session._buff
    rw [h.fresh hst]
    exact h.clean (Or.inr hst) hre
  · rintro (hx | hx)
    · exact absurd rfl hx
    · exact absurd rfl hx

theorem Decodes.ignore {a : Nat × Callback} {q : List (Nat × Callback)} (hq : c.logic = a :: q)
    (ha : Client.starts [a] = []) (hr : readErrors [a] = []) (hI : Inv (c.dequeue q a)) :
    Decodes n (c.dequeue q a) := by
  have hst : Client.starts c.logic = Client.starts q := by
    rw [hq, show a :: q = [a] ++ q from rfl, starts_append, ha]
    rfl
  have hre : readErrors c.logic = readErrors q := by
    rw [hq, show a :: q = [a] ++ q from rfl, readErrors_append, hr]
    rfl
  refine ⟨hI, h.tracks, ?_, ?_, ?_, ?_⟩
  · show c.session._reading = true → readErrors q = [] ∧ _
    rw [← hre]
    exact h.reading
  · show c.session._status ≠ .Connected ∨ Client.starts q ≠ [] → readErrors q = [] → _
    rw [← hst, ← hre]
    exact h.clean
  · show Client.starts q ≠ [] → _
    rw [← hst]
    exact h.fresh
  · rw [posted_dequeue hq]
    exact h.history

theorem Decodes.reset {k : Nat} {e : ErrorCode} {q : List (Nat × Callback)}
    (hq : c.logic = (k, .sessionReadError e) :: q)
    (hI : Inv { c.dequeue q (k, .sessionReadError e) with session := c.session.resetReadBuffer }) :
    Decodes n { c.dequeue q (k, .sessionReadError e) with
      session := c.session.resetReadBuffer } := by
  obtain ⟨xs, ht⟩ := h.tracks
  have hst : Client.starts c.logic = Client.starts q := by
    rw [hq]
    rfl
  have hh : History (c.dequeue q (k, .sessionReadError e)).posted c.streams := by
    rw [posted_dequeue hq]
    exact h.history
  refine ⟨hI, ⟨[], ht.reset⟩, ?_, fun _ _ => ht.reset, ?_, hh⟩
  · intro hr
    have := (h.reading hr).1
    rw [hq] at this
    cases this
  · show Client.starts q ≠ [] → _
    rw [← hst]
    exact h.fresh

theorem Decodes.drained (hr : c.session._reading = true) (read : Option (List UInt8))
    (hb : (read.getD []).length ≤ c.session._buff.getAvailableBufferSize)
    (hB : ∀ chunk, read = some chunk → BoundedRead n chunk) :
    Tracks n (c.lastStream ++ read.getD []) (c.session.drained read).2 ∧
      wireFramer.frames c.lastStream ++ (c.session.drained read).1
        = wireFramer.frames (c.lastStream ++ read.getD []) := by
  have ht := (h.reading hr).2
  cases read with
  | none =>
    show Tracks n (c.lastStream ++ []) c.session._buff ∧ _ ++ [] = wireFramer.frames (_ ++ [])
    rw [List.append_nil, List.append_nil]
    exact ⟨ht, rfl⟩
  | some chunk =>
    obtain ⟨h1, h2, _⟩ := ht.read chunk hb (hB chunk rfl)
    exact ⟨h1, h2⟩

theorem Decodes.read_history (hr : c.session._reading = true) (read : Option (List UInt8))
    (hb : (read.getD []).length ≤ c.session._buff.getAvailableBufferSize)
    (hB : ∀ chunk, read = some chunk → BoundedRead n chunk) :
    History (c.posted ++ messagePosts c.streams.length (c.session.drained read).1)
      (receive c.streams (read.getD [])) := by
  have hs := (h.inv.reading hr).1
  have hl := h.inv.made hs
  refine h.history.read hl ?_ _ _ (h.drained hr read hb hB).2
  rw [h.inv.errors, gone_of_ok hs]
  intro hm
  have := List.mem_range'_1.mp hm
  omega

theorem Decodes.readEnds (hr : 0 < c.reads) (read : Option (List UInt8))
    (hb : (read.getD []).length ≤ c.session._buff.getAvailableBufferSize)
    (hB : ∀ chunk, read = some chunk → BoundedRead n chunk) (k : Nat) (e : ErrorCode) :
    Decodes n (c.afterRead read k .Disconnected false [.sessionReadError e]) := by
  have hrt := h.inv.reading_of_reads hr
  obtain ⟨_, h2⟩ := h.inv.reading hrt
  refine ⟨h.inv.readEnds hr read k e, ⟨_, (h.drained hrt read hb hB).1⟩, ?_, ?_, ?_, ?_⟩
  · intro hx
    cases hx
  · intro _ hx
    have hx' : readErrors (c.logic ++ messagePosts c.streams.length (c.session.drained read).1 ++
      [(c.streams.length, .sessionReadError e)]) = [] := hx
    rw [readErrors_append] at hx'
    exact absurd (List.append_eq_nil_iff.mp hx').2 (fun e => by cases e)
  · intro hx
    have hx' : Client.starts (c.logic ++ messagePosts c.streams.length (c.session.drained read).1 ++
      [(c.streams.length, .sessionReadError e)]) ≠ [] := hx
    rw [starts_append, starts_append, h2, starts_messagePosts] at hx'
    exact absurd rfl hx'
  · have hh := (h.read_history hrt read hb hB).notice (.sessionReadError e)
      (fun m hm => by cases hm)
    rw [length_receive, posted, List.append_assoc, List.append_assoc] at hh
    show History (c.handled ++ (c.logic ++ messagePosts _ _ ++ [_])) _
    rw [List.append_assoc]
    exact hh

theorem Decodes.readGoesOn (hr : 0 < c.reads) (read : Option (List UInt8))
    (hb : (read.getD []).length ≤ c.session._buff.getAvailableBufferSize)
    (hB : ∀ chunk, read = some chunk → BoundedRead n chunk) (k : Nat) (again : Bool) :
    Decodes n (c.afterRead read k c.session._status again []) := by
  have hrt := h.inv.reading_of_reads hr
  obtain ⟨h1, h2⟩ := h.inv.reading hrt
  have ht := (h.drained hrt read hb hB).1
  have hst : Client.starts (c.logic ++ messagePosts c.streams.length (c.session.drained read).1 ++ [])
      = [] := by
    rw [List.append_nil, starts_append, h2, starts_messagePosts]
    rfl
  refine ⟨h.inv.readGoesOn hr read k again, ⟨_, ht⟩, ?_, ?_, fun hx => absurd hst hx, ?_⟩
  · intro _
    constructor
    · show readErrors (c.logic ++ messagePosts _ _ ++ []) = []
      rw [List.append_nil, readErrors_append, (h.reading hrt).1, readErrors_messagePosts]
      rfl
    · show Tracks n ((receive c.streams (read.getD [])).getLast?.getD []) _
      rw [getLast_receive (h.inv.made h1)]
      exact ht
  · rintro (hx | hx)
    · exact absurd h1 hx
    · exact absurd hst hx
  · have hh := h.read_history hrt read hb hB
    rw [posted, List.append_assoc] at hh
    show History (c.handled ++ (c.logic ++ messagePosts _ _ ++ [])) _
    rw [List.append_nil]
    exact hh

end

theorem Move.decodes {R : Rules} {n : Nat} (hR : ∀ chunk, R.read chunk → BoundedRead n chunk)
    {c c' : Client} (h : Decodes n c) (hm : Move R c c') : Decodes n c' := by
  have hI := hm.inv h.inv
  cases hm with
  | wait timers up => exact h.keep hI rfl rfl rfl rfl rfl id
  | attempt hd ho => exact h.keep hI rfl rfl rfl rfl rfl (fun _ => by rw [hd]; decide)
  | threw hd ht socket => exact h.keep hI rfl rfl rfl rfl rfl (fun _ => by rw [hd]; decide)
  | connectNow hd ho => exact h.establish hI rfl rfl rfl rfl rfl (h.inv.disconnected hd).2
  | refuseNow hd ho e timers => exact h.refuse hI rfl rfl rfl rfl rfl (h.inv.disconnected hd).2
  | succeed ha => exact h.establish hI rfl rfl rfl rfl rfl (h.inv.attempting ha).2.2
  | fail ha e timers => exact h.refuse hI rfl rfl rfl rfl rfl (h.inv.attempting ha).2.2
  | startFails hq status hs =>
    obtain ⟨_, h2, _⟩ := h.inv.start_last hq
    have hst : status = .Connected := by
      rcases hs with hs | hs
      · exact hs.trans h2
      · exact hs
    exact h.start hq hst hI
  | start hq hr => exact h.start hq rfl hI
  | ignore hq h1 h2 =>
    rename_i k cb q
    cases cb with
    | sessionConnectSucceed => exact absurd rfl h1
    | sessionConnectFailed e => exact h.ignore hq rfl rfl hI
    | sessionReceiveMessage m => exact h.ignore hq rfl rfl hI
    | sessionReadError e => exact absurd rfl (h2 e)
  | reset hq => exact h.reset hq hI
  | readEnds hr read hb hB k e => exact h.readEnds hr read hb (fun x hx => hR x (hB x hx)) k e
  | readGoesOn hr read hb hB k again =>
    exact h.readGoesOn hr read hb (fun x hx => hR x (hB x hx)) k again
  | handleWrite e ws hs writes =>
    have ht := (h.inv.handleWrite hs).rest
    exact h.keep hI (readSide_field ht _buff rfl rfl) (readSide_field ht _reading rfl rfl) rfl rfl rfl
      (by rw [readSide_field ht _status rfl rfl]; exact id)
  | writeMessage hm _ hs writes =>
    have ht := (h.inv.writeMessage hm hs).rest
    exact h.keep hI (readSide_field ht _buff rfl rfl) (readSide_field ht _reading rfl rfl) rfl rfl rfl
      (by rw [readSide_field ht _status rfl rfl]; exact id)

/-- every read is one that the compaction of a read buffer of `n` bytes can cope with -/
def boundedReads (n : Nat) : Rules := ⟨True, BoundedRead n, fun _ => True, fun _ => True⟩

end Client

/-- **Connections do not mix on the reading side.**  In every state of every run whose reads are
bounded: a message is posted for an established connection, the messages of a connection are the
complete frames of the bytes received on it, in order, those that the handler has seen are the first
of them, and no message of a connection is posted after its `sessionReadError`. -/
theorem decodes_connections (s : TcpSession) (n : Nat) (hs : Client.Idle s) (hb : Tracks n [] s._buff)
    (es : List ClientEvent) (c : Client)
    (hG : Guarded Client.step (Client.boundedReads n).Permits (Client.new s) es)
    (h : exec Client.step (Client.new s) es = some c) :
    (∀ k m, (k, .sessionReceiveMessage m) ∈ c.posted → 1 ≤ k ∧ k ≤ c.streams.length) ∧
      (∀ k, Client.messagesOn (k + 1) c.posted = Client.messages (c.streams.getD k [])) ∧
      (∀ k, Client.messagesOn (k + 1) c.handled <+: Client.messages (c.streams.getD k [])) ∧
      c.posted.Pairwise Client.Before := by
  have hD := Client.run_moves (R := Client.boundedReads n) (I := Client.Decodes n)
    (fun a b ha hm => hm.decodes (fun _ hx => hx) ha) (Client.new_decodes hs hb) es hG h
  refine ⟨fun k m hm => ?_, hD.history.messages, fun k => ?_, hD.history.order⟩
  · have ht := hD.history.tags _ hm
    refine ⟨ht.2 ?_, ht.1⟩
    simp [Client.messagesOn]
  · rw [← hD.history.messages k, Client.posted, Client.messagesOn_append]
    exact List.prefix_append _ _

theorem boundedReads_guarded {n : Nat} (hn : n ≤ 4294967298) (es : List ClientEvent) :
    ∀ c, Guarded Client.step (Client.boundedReads n).Permits c es := by
  refine guarded_of_mem Client.step es fun e _ c => ?_
  exact ⟨fun _ => trivial, fun _ _ _ _ _ => Or.inr hn, fun _ _ _ => trivial, fun _ _ => trivial⟩

/-- the first connection ends in the middle of a frame, the second brings a whole one -/
theorem decodes_connections_two :
    ∃ c, exec Client.step (Client.new (TcpSession.client (List.replicate 20 0) 0 true))
        [.connect ⟨false, .success⟩, .handleConnect .success, .logic .fine ⟨false, .success⟩,
          .handleRead .success (.got [15, 0, 0, 0, 1, 0, 9]), .handleRead .success (.failed (.other 2)),
          .logic .fine ⟨false, .success⟩, .handleConnect .success, .logic .fine ⟨false, .success⟩,
          .handleRead .success (.got (Message.ofStr RPCMessage [7]).wire)] = some c ∧
      c.streams.length = 2 ∧
      Client.messagesOn 2 c.posted = Client.messages (c.streams.getD 1 []) ∧
      Client.messagesOn 2 c.posted = [Message.ofStr RPCMessage [7]] := by
  have h : (exec Client.step (Client.new (TcpSession.client (List.replicate 20 0) 0 true))
      [.connect ⟨false, .success⟩, .handleConnect .success, .logic .fine ⟨false, .success⟩,
        .handleRead .success (.got [15, 0, 0, 0, 1, 0, 9]), .handleRead .success (.failed (.other 2)),
        .logic .fine ⟨false, .success⟩, .handleConnect .success, .logic .fine ⟨false, .success⟩,
        .handleRead .success (.got (Message.ofStr RPCMessage [7]).wire)]).any
      (fun c => c.streams.length == 2 &&
        decide (Client.messagesOn 2 c.posted = [Message.ofStr RPCMessage [7]])) = true := by
    decide +kernel
  obtain ⟨c, hc, hp⟩ := (Option.any_eq_true ..).mp h
  simp only [Bool.and_eq_true, decide_eq_true_eq, beq_iff_eq] at hp
  have hd := decodes_connections (TcpSession.client (List.replicate 20 0) 0 true) 20
    (client_idle _ _ _ (by decide)) (Tracks.new (List.replicate 20 0) (by decide)) _ c
    (boundedReads_guarded (by decide) _ _) hc
  exact ⟨c, hc, hp.1, hd.2.1 1, hp.2⟩

/-! ## a message put together from two frames -/

/-- the head of `B` in front of the body of `A` -/
def splice (A B : Message) : Message := { B with _msgData := A._msgData }

section
variable {A B : Message} (hA : A.Sound) (hB : B.Sound) (lA : A.wire.length = 1073741824)
  (lB : B.wire.length = 1073741824)

include hA hB lA lB in
theorem splice_sound : (splice A B).Sound := by
  have h1 := hA.length_wire
  have h2 := hB.length_wire
  show B._totalLen.toInt = A._msgData.length + 14
  rw [hB]
  omega

include hA hB lA lB in
theorem splice_wire : (splice A B).wire = B.header ++ A._msgData :=
  (splice_sound hA hB lA lB).wire

/-- five frames `A`, a frame `B`, three frames `A` and the head of another one -/
def longRead (A B : Message) : List UInt8 :=
  (List.replicate 5 A.wire).flatten ++ (B.wire ++ ((List.replicate 3 A.wire).flatten ++ A.header))

include lA lB in
theorem length_longRead : (longRead A B).length = 9663676430 := by
  unfold longRead
  simp only [List.length_append, List.length_flatten, List.map_replicate, List.sum_replicate_nat, lA,
    lB, A.length_header]
  rfl

include hA hB lA lB in
theorem longRead_drained (b : ReadBuffer) (hb : b.Ok) (hn : b._buffSize = 9663676430)
    (hh : b._handleOffest = 0) (ho : b._buffOffest = 0) :
    (readAndDrain b (longRead A B)).posts = List.replicate 5 A.wire ∧
      (readAndDrain b (longRead A B)).exit = .noMessage ∧
      (readAndDrain b (longRead A B)).buff.Ok ∧
      (readAndDrain b (longRead A B)).buff._buffSize = 9663676430 ∧
      (readAndDrain b (longRead A B)).buff._handleOffest = 0 ∧
      (readAndDrain b (longRead A B)).buff.pending = B.header := by
  obtain ⟨h1, h2⟩ := hb.read_first hh ho (by rw [length_longRead lA lB, hn])
  have htake : (B.wire ++ ((List.replicate 3 A.wire).flatten ++ A.header)).take 14 = B.header := by
    rw [hB.wire, List.append_assoc, List.take_append_of_le_length (by rw [B.length_header]; decide)]
    exact List.take_of_length_le (by rw [B.length_header]; decide)
  have hdata : B._msgData ≠ [] := fun e => by
    have := hB.length_wire
    rw [e] at this
    rw [lB] at this
    exact absurd this (by decide)
  have hmore : wireFramer.scan B.header = .more :=
    wireFramer.scan_part B.wire B.header B._msgData (wire_whole hB) hB.wire hdata
  have hnm : ¬ Malformed B.header := fun hx => by
    rw [wireFramer_scan, scanFrame_bad.mpr hx] at hmore
    cases hmore
  have hlen : (B.wire ++ ((List.replicate 3 A.wire).flatten ++ A.header)).length
      = 4294967296 + 14 := by
    simp only [List.length_append, List.length_flatten, List.map_replicate, List.sum_replicate_nat,
      lA, lB, A.length_header]
    rfl
  obtain ⟨d1, d2, d3, d4, d5, d6⟩ := drain_keeps A.wire (wire_whole hA) lA _ 14 hlen (Nat.le_refl _)
    (by
      rw [htake]
      intro k hk
      rw [hmore] at hk
      cases hk) _ h1 hn hh h2
  rw [htake] at d2 d6
  rw [if_neg hnm] at d2
  exact ⟨d1, d2, d3, d4.trans hn, d5, d6⟩

include hA hB lA lB in
theorem splice_drained (b : ReadBuffer) (hb : b.Ok) (hn : b._buffSize = 9663676430)
    (hh : b._handleOffest = 0) (hp : b.pending = B.header) :
    A._msgData.length ≤ b.getAvailableBufferSize ∧
      (readAndDrain b A._msgData).posts = [(splice A B).wire] ∧
      (readAndDrain b A._msgData).exit = .noMessage := by
  have hl := hb.length_pending
  have hle := hb.handle_le
  have hlA := hA.length_wire
  rw [hp, B.length_header] at hl
  unfold MessageHeaderLength at hl
  have hc : A._msgData.length ≤ b.getAvailableBufferSize := by
    unfold ReadBuffer.getAvailableBufferSize
    omega
  obtain ⟨h1, h2⟩ := hb.read _ hc
  rw [hp, ← splice_wire hA hB lA lB] at h2
  have hs := splice_sound hA hB lA lB
  have hlen : (splice A B).wire.length = 1073741824 := by
    rw [hs.length_wire]
    show A._msgData.length + 14 = _
    omega
  have hd := drain_spec h1 ⟨Movable_of_small h1 (Or.inr (by rw [h2, hlen]; decide)),
    fun k _ => Or.inr (by rw [h2, hlen]; omega)⟩
  obtain ⟨e1, e2⟩ := wireFramer.decode_flatten [(splice A B).wire]
    (fun f hf => by rw [List.mem_singleton.mp hf]; exact wire_whole hs) []
    (fun k hk => by cases hk)
  rw [List.flatten_singleton, List.append_nil] at e1 e2
  refine ⟨hc, ?_, ?_⟩
  · have := hd.posts
    rw [h2, e1] at this
    exact this
  · have := hd.exit
    rw [h2, e2, if_neg (by decide)] at this
    exact this

include hA hB in
theorem frames_longRead : ∀ f ∈ wireFramer.frames (longRead A B ++ A._msgData),
    f = A.wire ∨ f = B.wire := by
  have e : longRead A B ++ A._msgData
      = (List.replicate 5 A.wire ++ [B.wire] ++ List.replicate 3 A.wire ++ [A.wire]).flatten ++ [] := by
    unfold longRead
    rw [List.append_nil]
    simp only [List.flatten_append, List.flatten_singleton, List.append_assoc]
    rw [hA.wire]
  have hmem : ∀ f ∈ List.replicate 5 A.wire ++ [B.wire] ++ List.replicate 3 A.wire ++ [A.wire],
      f = A.wire ∨ f = B.wire := by
    intro f hf
    simp only [List.mem_append, List.mem_replicate, List.mem_singleton] at hf
    rcases hf with ((hf | hf) | hf) | hf
    · exact Or.inl hf.2
    · exact Or.inr hf
    · exact Or.inl hf.2
    · exact Or.inl hf
  have hd := (wireFramer.decode_flatten _ (fun f hf => by
    rcases hmem f hf with rfl | rfl
    · exact wire_whole hA
    · exact wire_whole hB) [] (fun k hk => by cases hk)).1
  rw [e, hd]
  exact hmem

end

theorem Client.step_read {c : Client} {chunk : List UInt8} (hr : 0 < c.reads)
    (hb : chunk.length ≤ c.session._buff.getAvailableBufferSize) (ho : c.session._socket = true)
    (hx : (readAndDrain c.session._buff chunk).exit = .noMessage) :
    Client.step c (.handleRead .success (.got chunk))
      = some (c.afterRead (some chunk) 1 c.session._status true []) := by
  have hl := length_receive c.streams chunk
  have hp : postReadNull { c.session with
      _reading := false, _buff := (readAndDrain c.session._buff chunk).buff, _readBlockTimes := 1 }
      = ({ c.session with
        _reading := true, _buff := (readAndDrain c.session._buff chunk).buff, _readBlockTimes := 1 },
        [.async_read_some]) := by
    unfold postReadNull
    rw [if_neg]
    show ¬ (!c.session._socket || false) = true
    rw [ho]
    decide
  have h1 := handleRead_noMessage hx
  rw [hp] at h1
  rw [Client.step, if_pos ⟨hr, hb⟩, h1]
  show some (Client.apply _ _) = _
  unfold Client.apply Client.afterRead
  rw [List.foldl_append, Client.foldl_receivePosts, List.map_nil, List.append_nil]
  show some _ = some _
  rw [show (Client.receive c.streams ((readBytes .success (.got chunk)).getD [])).length
    = c.streams.length from hl]
  rfl

theorem Client.mem_afterRead (c : Client) (read : Option (List UInt8)) (k : Nat)
    (status : SessionStatus) (again : Bool) (last : List Callback) {f : List UInt8}
    (hf : f ∈ (c.session.drained read).1) :
    (c.streams.length, .sessionReceiveMessage (Message.create f f.length))
      ∈ (c.afterRead read k status again last).posted := by
  apply List.mem_append_right
  apply List.mem_append_left
  apply List.mem_append_right
  exact List.mem_map_of_mem hf

theorem Client.buff_afterRead (c : Client) (chunk : List UInt8) (k : Nat) (status : SessionStatus)
    (again : Bool) (last : List Callback) :
    (c.afterRead (some chunk) k status again last).session._buff
      = (readAndDrain c.session._buff chunk).buff := rfl

def Client.started (s : TcpSession) : Client :=
  ⟨{ s with _status := .Connected, _socket := true, _reading := true }, 0, 1, 0, [], [],
    [(1, .sessionConnectSucceed)], [[]], true, [], [[]]⟩

theorem Client.exec_start (mem : List UInt8) (reconnect : Nat) :
    exec Client.step (Client.new (TcpSession.client mem reconnect true))
      [.connect ⟨false, .success⟩, .handleConnect .success, .logic .fine ⟨false, .success⟩]
      = some (Client.started (TcpSession.client mem reconnect true)) := rfl

section
variable {A B : Message} (hA : A.Sound) (hB : B.Sound) (lA : A.wire.length = 1073741824)
  (lB : B.wire.length = 1073741824)
include hA hB lA lB

theorem posts_splice (mem : List UInt8) (hm : mem.length = 9663676430) :
    ∃ es c, exec Client.step (Client.new (TcpSession.client mem 0 true)) es = some c ∧
      (1, .sessionReceiveMessage (splice A B)) ∈ c.posted ∧
      c.streams.getD 0 [] = longRead A B ++ A._msgData := by
  have hok : (ReadBuffer.new mem).Ok := ReadBuffer.new_ok mem (by omega)
  obtain ⟨p1, x1, o1, s1, h1, q1⟩ := longRead_drained hA hB lA lB (ReadBuffer.new mem) hok hm rfl rfl
  obtain ⟨hc2, p2, x2⟩ := splice_drained hA hB lA lB _ o1 s1 h1 q1
  have hc1 : (longRead A B).length ≤ (ReadBuffer.new mem).getAvailableBufferSize := by
    rw [length_longRead lA lB]
    show _ ≤ mem.length - 0
    omega
  have e1 := Client.step_read (c := Client.started (TcpSession.client mem 0 true)) Nat.one_pos hc1
    rfl x1
  have hc : ∃ c1, Client.step (Client.started (TcpSession.client mem 0 true))
      (.handleRead .success (.got (longRead A B))) = some c1 ∧ c1.reads = 1 ∧
      c1.session._socket = true ∧ c1.streams = [longRead A B] ∧
      c1.session._buff = (readAndDrain (ReadBuffer.new mem) (longRead A B)).buff :=
    ⟨_, e1, rfl, rfl, rfl, Client.buff_afterRead _ _ _ _ _ _⟩
  obtain ⟨c1, e1', r1, k1, t1, b1⟩ := hc
  rw [← b1] at hc2 p2 x2
  have e2 := Client.step_read (by omega) hc2 k1 x2
  have hrun := exec_append Client.step [.handleRead .success (.got (longRead A B)),
    .handleRead .success (.got A._msgData)] (Client.exec_start mem 0)
  rw [exec_cons Client.step _ e1', exec_cons Client.step _ e2, exec_nil] at hrun
  refine ⟨_, _, hrun, ?_, ?_⟩
  · have hmem := Client.mem_afterRead c1 (some A._msgData) 1 c1.session._status true []
      (f := (splice A B).wire) (by
        show _ ∈ (readAndDrain c1.session._buff A._msgData).posts
        rw [p2]
        exact List.mem_singleton.mpr rfl)
    rw [t1, Message.create_self (splice_sound hA hB lA lB)] at hmem
    exact hmem
  · show (Client.receive c1.streams A._msgData).getD 0 [] = _
    rw [t1]
    rfl

end

theorem exists_bigMessages : ∃ A B : Message, (A.Sound ∧ A.wire.length = 1073741824) ∧
    (B.Sound ∧ B.wire.length = 1073741824) ∧ A._msgId ≠ B._msgId ∧ A._msgData ≠ B._msgData := by
  have h : ∀ d e : List UInt8, d.length = 1073741810 → e.length = 1073741810 → d ≠ e →
      ∃ A B : Message, (A.Sound ∧ A.wire.length = 1073741824) ∧
        (B.Sound ∧ B.wire.length = 1073741824) ∧ A._msgId ≠ B._msgId ∧ A._msgData ≠ B._msgData := by
    intro d e hd he hne
    exact ⟨Message.ofStr 1 d, Message.ofStr 2 e, Message.ofStr_big 1 hd, Message.ofStr_big 2 he,
      (by show (1 : BitVec 16) ≠ 2; decide), hne⟩
  refine h (List.replicate 1073741810 0) (List.replicate 1073741810 1) List.length_replicate
    List.length_replicate (fun e => ?_)
  have := congrArg List.head? e
  rw [List.head?_replicate, List.head?_replicate, if_neg (by decide), if_neg (by decide)] at this
  cases this

/-- With a read buffer of `9 * 2^30 + 14` bytes a message is posted that is no frame of its
connection's stream. -/
theorem not_decodes_connections :
    ¬ ∀ (s : TcpSession) (n : Nat) (es : List ClientEvent) (c : Client), Client.Idle s →
      Tracks n [] s._buff → exec Client.step (Client.new s) es = some c →
      ∀ k m, (k + 1, .sessionReceiveMessage m) ∈ c.posted →
        ∃ f ∈ wireFramer.frames (c.streams.getD k []), m = Message.create f f.length := by
  intro h
  obtain ⟨A, B, ⟨hA, lA⟩, ⟨hB, lB⟩, hid, hdata⟩ := exists_bigMessages
  have hgen : ∀ mem : List UInt8, mem.length = 9663676430 → False := by
    intro mem hm
    obtain ⟨es, c, hs, hp, hr⟩ := posts_splice hA hB lA lB mem hm
    obtain ⟨f, hf, e⟩ := h (TcpSession.client mem 0 true) mem.length es c
      (client_idle mem 0 true (by omega)) (Tracks.new mem (by omega)) hs 0 _ hp
    rw [hr] at hf
    rcases frames_longRead hA hB f hf with rfl | rfl
    · rw [Message.create_self hA] at e
      have hx : (splice A B)._msgId = A._msgId := by rw [e]
      exact hid hx.symm
    · rw [Message.create_self hB] at e
      have hx : (splice A B)._msgData = B._msgData := by rw [e]
      exact hdata hx
  exact hgen (List.replicate 9663676430 0) List.length_replicate

end JMEngine.Net
