import JMEngine.Lib.Runs
import JMEngine.Net.TcpSession
import JMEngine.Rpc.Pb
import Mathlib.Logic.Function.Basic
import Mathlib.Data.List.Perm.Subperm

/-!
# The RPC client (source/rpc/JME_RpcClient.cpp)

A client gives every call the next number `++_methodId`, keeps the callbacks in the table `_cbs` under
that number and arms a deadline timer for a timed call.  Any thread may call, so the three parts of
`callRpcMethod` (status check, locked block, serialization and write) are events of their own; responses
and `RpcDeadCallback` run on the logic service, in any order.  The session is what the net threads
leave there: it may become any session between two events.

* `RpcClient.callRpcMethod`   the three overloads, with what may throw in them;
* `RpcClient.step`            one event; a run ends where the C++ has no defined behaviour;
* `Change`, `step_change`     what an event can do to the table, the timers and the invocations.

The calls, the queue of completed waits and the list of invocations are the history of the run; a
callback, a timer and an invocation belong to the call with that position in `calls`.
-/

set_option linter.unusedSectionVars false

namespace JMEngine.Rpc
open JMEngine.Net Runs

/-- the overload of `callRpcMethod`: without callback, with `cb`, with `cb`, `dt` and `dcb` -/
inductive Overload where
  | plain
  | callback
  | timed
  deriving DecidableEq, Repr

inductive Phase where
  | checked
  | registered (id : BitVec 32)
  | returned (id : Option (BitVec 32)) (result : Bool)
  deriving DecidableEq, Repr

def Phase.id : Phase → Option (BitVec 32)
  | .checked => none
  | .registered id => some id
  | .returned id _ => id

structure Call where
  overload : Overload
  method : List UInt8
  params : List UInt8
  phase : Phase
  deriving DecidableEq, Repr

/-- an exception inside the locked block: before `++_methodId`, or in `RpcCallback::create`; C++ leaves
open whether `_cbs[_methodId]` has been evaluated (`inserted`) by then -/
inductive Fault where
  | none
  | lock
  | create (inserted : Bool)
  deriving DecidableEq, Repr

/-- `RpcCallback`; `_cb` and the timer `_dt` are those of the call `call` -/
structure RpcCallback where
  call : Nat
  _checkDead : Bool
  deriving DecidableEq, Repr

/-- what `boost::bind` keeps of `RpcDeadCallback`; `dcb` is that of the call `call` -/
structure DeadCallback where
  call : Nat
  methodId : BitVec 32
  deriving DecidableEq, Repr

structure Wait where
  err : Bool
  handler : DeadCallback
  deriving DecidableEq, Repr

inductive Invocation where
  | cb (call : Nat) (response : List UInt8)
  | dcb (call : Nat)
  deriving DecidableEq, Repr

def Invocation.call : Invocation → Nat
  | .cb k _ => k
  | .dcb k => k

/-- an entry of `_cbs` is a pointer, which may be null -/
structure RpcClient where
  _session : TcpSession
  _methodId : BitVec 32
  _cbs : BitVec 32 → Option (Option RpcCallback)
  armed : List DeadCallback
  queued : List Wait
  calls : List Call
  invoked : List Invocation

inductive RpcEvent where
  | session (s : TcpSession)
  | enter (o : Overload) (method params : List UInt8)
  | register (k : Nat) (f : Fault)
  | finish (k : Nat) (throws : Bool)
  | receive (msg : Message)
  | expire (i : Nat)
  | dead (i : Nat)
  deriving DecidableEq, Repr

def rpcMessage (codec : Codec) (rpc : JmeRpc) : Message :=
  Message.ofStr RPCMessage (codec.serializeAsString rpc)

namespace RpcClient

def new (s : TcpSession) : RpcClient where
  _session := s
  _methodId := 0
  _cbs := fun _ => none
  armed := []
  queued := []
  calls := []
  invoked := []

/-- `deadline_timer::cancel` (and its destructor): a waiting handler is queued with
`operation_aborted`, one that is queued already stays as it is -/
def cancel (c : RpcClient) (k : Nat) : RpcClient :=
  { c with
    armed := c.armed.filter fun d => d.call ≠ k
    queued := c.queued ++ (c.armed.filter fun d => d.call = k).map fun d => ⟨true, d⟩ }

/-- a pointer of the table goes out of scope -/
def release (c : RpcClient) (p : Option RpcCallback) : RpcClient :=
  match p with
  | some cb => if cb._checkDead then c.cancel cb.call else c
  | none => c

/-- `_cbs[id] = RpcCallback::create(...)` -/
def assign (c : RpcClient) (id : BitVec 32) (cb : RpcCallback) : RpcClient :=
  let c1 := if cb._checkDead then { c with armed := c.armed ++ [⟨cb.call, id⟩] } else c
  let c2 := c1.release (c._cbs id).join
  { c2 with _cbs := Function.update c._cbs id (some (some cb)) }

/-- `_cbs[id]`, evaluated before the exception -/
def subscript (c : RpcClient) (id : BitVec 32) : RpcClient :=
  { c with _cbs := Function.update c._cbs id (some (c._cbs id).join) }

def setPhase (c : RpcClient) (k : Nat) (p : Phase) : RpcClient :=
  { c with calls := c.calls.modify k fun call => { call with phase := p } }

/-- the status check of `callRpcMethod` -/
def enter (c : RpcClient) (o : Overload) (method params : List UInt8) : RpcClient :=
  { c with calls := c.calls ++
      [⟨o, method, params, if c._session.isOk then .checked else .returned none false⟩] }

/-- the locked block; the second component is the number, if nothing was thrown.  `++_methodId` beyond
`INT_MAX` is undefined. -/
def register (c : RpcClient) (k : Nat) (o : Overload) (f : Fault) :
    Option (RpcClient × Option (BitVec 32)) :=
  if f = .lock then some (c.setPhase k (.returned none false), none)
  else if c._methodId = 2147483647 then none
  else
    let id := c._methodId + 1
    let c1 := { c with _methodId := id }
    match o, f with
    | .plain, _ => some (c1.setPhase k (.registered id), some id)
    | _, .create inserted =>
      some ((if inserted then c1.subscript id else c1).setPhase k (.returned (some id) false), none)
    | o, _ => some ((c1.assign id ⟨k, o = .timed⟩).setPhase k (.registered id), some id)

/-- serialization and write; what throws here is caught as well -/
def finish (codec : Codec) (c : RpcClient) (k : Nat) (method params : List UInt8) (id : BitVec 32)
    (throws : Bool) : Option (Bool × RpcClient) :=
  if throws then some (false, c.setPhase k (.returned (some id) false))
  else
    match c._session.writeMessage (rpcMessage codec ⟨id, method, params⟩) with
    | none => none
    | some (r, s, _) => some (r, { c with _session := s }.setPhase k (.returned (some id) r))

def callRpcMethod (codec : Codec) (c : RpcClient) (o : Overload) (method params : List UInt8)
    (f : Fault) (throws : Bool) : Option (Bool × RpcClient) :=
  let k := c.calls.length
  let c1 := c.enter o method params
  if !c._session.isOk then some (false, c1)
  else
    match c1.register k o f with
    | none => none
    | some (c2, none) => some (false, c2)
    | some (c2, some id) => c2.finish codec k method params id throws

def sessionReceiveMessage (codec : Codec) (c : RpcClient) (msg : Message) : RpcClient :=
  let rpc := codec.parseFromString msg.getMessageStr
  match c._cbs rpc.rpc_id with
  | none => c
  | some none => { c with _cbs := Function.update c._cbs rpc.rpc_id none }
  | some (some cb) =>
    let c1 := { c with _cbs := Function.update c._cbs rpc.rpc_id none }
    let c2 := if cb._checkDead then c1.cancel cb.call else c1
    { c2 with invoked := c2.invoked ++ [.cb cb.call rpc.params] }

def removeDeadRPC (c : RpcClient) (methodId : BitVec 32) : RpcClient :=
  match c._cbs methodId with
  | none => c
  | some p => { c with _cbs := Function.update c._cbs methodId none }.release p

def rpcDeadCallback (c : RpcClient) (w : Wait) : RpcClient :=
  if w.err then c
  else
    let c1 := c.removeDeadRPC w.handler.methodId
    { c1 with invoked := c1.invoked ++ [.dcb w.handler.call] }

def step (codec : Codec) (c : RpcClient) : RpcEvent → Option RpcClient
  | .session s => some { c with _session := s }
  | .enter o method params => some (c.enter o method params)
  | .register k f =>
    match c.calls[k]? with
    | some ⟨o, _, _, .checked⟩ => (c.register k o f).map Prod.fst
    | _ => none
  | .finish k throws =>
    match c.calls[k]? with
    | some ⟨_, method, params, .registered id⟩ =>
      (c.finish codec k method params id throws).map Prod.snd
    | _ => none
  | .receive msg => some (c.sessionReceiveMessage codec msg)
  | .expire i =>
    c.armed[i]?.map fun d =>
      { c with armed := c.armed.eraseIdx i, queued := c.queued ++ [⟨false, d⟩] }
  | .dead i => c.queued[i]?.map fun w => { c with queued := c.queued.eraseIdx i }.rpcDeadCallback w

def entry (c : RpcClient) (id : BitVec 32) : Option RpcCallback := (c._cbs id).join

/-- the handlers that sit on the queue because their timer expired -/
def fired (c : RpcClient) : List DeadCallback :=
  (c.queued.filter fun w => !w.err).map Wait.handler

/-- the handlers that may still call a `dcb` -/
def timers (c : RpcClient) : List DeadCallback := c.armed ++ c.fired

def idOf (c : RpcClient) (k : Nat) : Option (BitVec 32) := c.calls[k]?.bind fun call => call.phase.id

/-! ## timers -/

section
variable (c : RpcClient)

theorem fired_cancel (k : Nat) : (c.cancel k).fired = c.fired := by
  unfold fired cancel
  rw [List.filter_append, List.map_append]
  have h : ((c.armed.filter fun d => d.call = k).map fun d => (⟨true, d⟩ : Wait)).filter
      (fun w => !w.err) = [] := by
    rw [List.filter_eq_nil_iff]
    intro w hw
    obtain ⟨d, _, rfl⟩ := List.mem_map.mp hw
    exact Bool.false_ne_true
  rw [h, List.map_nil, List.append_nil]

theorem timers_cancel (k : Nat) :
    (c.cancel k).timers = (c.armed.filter fun d => d.call ≠ k) ++ c.fired := by
  unfold timers
  rw [fired_cancel]
  rfl

theorem cancel_sublist (k : Nat) : (c.cancel k).timers.Sublist c.timers := by
  rw [timers_cancel]
  exact List.Sublist.append_right List.filter_sublist _

theorem cancel_fired {k : Nat} {d : DeadCallback} (hd : d ∈ (c.cancel k).timers) (hk : d.call = k) :
    d ∈ c.fired := by
  rw [timers_cancel] at hd
  rcases List.mem_append.mp hd with h | h
  · exact absurd hk (of_decide_eq_true (List.mem_filter.mp h).2)
  · exact h

theorem release_sublist (p : Option RpcCallback) : (c.release p).timers.Sublist c.timers := by
  cases p with
  | none => exact List.Sublist.refl _
  | some cb =>
    unfold release
    dsimp only
    split
    · exact c.cancel_sublist cb.call
    · exact List.Sublist.refl _

theorem release_fields (p : Option RpcCallback) : (c.release p)._cbs = c._cbs
    ∧ (c.release p).invoked = c.invoked ∧ (c.release p).calls = c.calls
    ∧ (c.release p)._methodId = c._methodId := by
  cases p with
  | none => exact ⟨rfl, rfl, rfl, rfl⟩
  | some cb =>
    unfold release
    dsimp only
    split <;> exact ⟨rfl, rfl, rfl, rfl⟩

theorem entry_update (id : BitVec 32) (e : Option (Option RpcCallback))
    {c' : RpcClient} (h : c'._cbs = Function.update c._cbs id e) :
    c'.entry = Function.update c.entry id e.join := by
  funext j
  unfold entry
  rw [h]
  by_cases hj : j = id
  · rw [hj, Function.update_self, Function.update_self]
  · rw [Function.update_of_ne hj, Function.update_of_ne hj]

end

/-! ## calls -/

/-- a call keeps what it asks for, its number once it has one, and its result -/
def Later (c c' : RpcClient) : Prop :=
  ∀ (k : Nat) (call : Call), c.calls[k]? = some call → ∃ call' : Call, c'.calls[k]? = some call'
    ∧ call'.method = call.method ∧ call'.params = call.params
    ∧ (∀ id, call.phase.id = some id → call'.phase.id = some id)
    ∧ ∀ id r, call.phase = .returned id r → call'.phase = .returned id r

theorem Later.of_eq {c c' : RpcClient} (h : c'.calls = c.calls) : Later c c' := by
  intro k call hk
  exact ⟨call, h ▸ hk, rfl, rfl, fun _ => id, fun _ _ => id⟩

theorem Later.idOf {c c' : RpcClient} (h : Later c c') {k : Nat} {id : BitVec 32}
    (hk : c.idOf k = some id) : c'.idOf k = some id := by
  obtain ⟨call, h1, h2⟩ := Option.bind_eq_some_iff.mp hk
  obtain ⟨call', h3, _, _, h4, _⟩ := h k call h1
  exact Option.bind_eq_some_iff.mpr ⟨call', h3, h4 id h2⟩

theorem Later.idOf_ne_none {c c' : RpcClient} (h : Later c c') {k : Nat} (hk : c.idOf k ≠ none) :
    c'.idOf k ≠ none := by
  obtain ⟨id, hid⟩ := Option.ne_none_iff_exists'.mp hk
  rw [h.idOf hid]
  exact Option.some_ne_none id

theorem idOf_checked {c : RpcClient} {k : Nat} {call : Call} (hk : c.calls[k]? = some call)
    (hp : call.phase = .checked) : c.idOf k = none := by
  unfold idOf
  rw [hk, Option.bind_some, hp]
  rfl

theorem calls_setPhase (c : RpcClient) (k : Nat) (p : Phase) (j : Nat) :
    (c.setPhase k p).calls[j]?
      = c.calls[j]?.map fun call => if k = j then { call with phase := p } else call := by
  show (c.calls.modify k fun call => { call with phase := p })[j]? = _
  rw [List.getElem?_modify]
  rfl

theorem idOf_setPhase_self {c : RpcClient} {k : Nat} {call : Call} (h : c.calls[k]? = some call)
    (p : Phase) : (c.setPhase k p).idOf k = p.id := by
  unfold idOf
  rw [calls_setPhase, h, Option.map_some, if_pos rfl]
  rfl

theorem idOf_setPhase_of_ne (c : RpcClient) {k j : Nat} (hj : k ≠ j) (p : Phase) :
    (c.setPhase k p).idOf j = c.idOf j := by
  unfold idOf
  rw [calls_setPhase]
  cases c.calls[j]? with
  | none => rfl
  | some call => rw [Option.map_some, if_neg hj]

theorem Later.setPhase {c : RpcClient} {k : Nat} {call : Call} {p : Phase}
    (hk : c.calls[k]? = some call) (hid : ∀ id, call.phase.id = some id → p.id = some id)
    (hr : ∀ id r, call.phase ≠ .returned id r) : Later c (c.setPhase k p) := by
  intro j call' hj
  rw [calls_setPhase, hj, Option.map_some]
  by_cases e : k = j
  · have ec : call = call' := by rw [e, hj] at hk; exact (Option.some.inj hk).symm
    rw [if_pos e]
    refine ⟨_, rfl, rfl, rfl, ?_, fun id r h => absurd h (ec ▸ hr id r)⟩
    exact ec ▸ hid
  · rw [if_neg e]
    exact ⟨call', rfl, rfl, rfl, fun _ => id, fun _ _ => id⟩

theorem Later.enter (c : RpcClient) (o : Overload) (method params : List UInt8) :
    Later c (c.enter o method params) := by
  intro k call hk
  refine ⟨call, ?_, rfl, rfl, fun _ => id, fun _ _ => id⟩
  have hlt : k < c.calls.length := (List.getElem?_eq_some_iff.mp hk).1
  show (c.calls ++ _)[k]? = _
  rw [List.getElem?_append_left hlt]
  exact hk

theorem Later.congr {c c1 c' : RpcClient} (h : Later c1 c') (he : c1.calls = c.calls) : Later c c' := by
  intro k call hk
  exact h k call (he ▸ hk)

/-! ## what an event can do -/

/-- what an event can do to the table, the timers and the invocations -/
inductive Change (codec : Codec) (c : RpcClient) (e : RpcEvent) (c' : RpcClient) : Prop
  | less (hl : Later c c') (ht : ∀ id cb, c'.entry id = some cb → c.entry id = some cb)
      (hd : c'.timers.Subperm c.timers) (hi : c'.invoked = c.invoked)
  | registered (k : Nat) (call : Call) (id : BitVec 32) (timed : Bool) (hl : Later c c')
      (hk : c.calls[k]? = some call) (hp : call.phase = .checked) (hid : c'.idOf k = some id)
      (ht : c'.entry = Function.update c.entry id (some ⟨k, timed⟩))
      (hd : c'.timers.Subperm (if timed then ⟨k, id⟩ :: c.timers else c.timers))
      (hi : c'.invoked = c.invoked)
  | answered (msg : Message) (cb : RpcCallback) (he : e = .receive msg)
      (hcb : c.entry (codec.parseFromString msg.getMessageStr).rpc_id = some cb)
      (hc : c'.calls = c.calls)
      (ht : c'.entry = Function.update c.entry (codec.parseFromString msg.getMessageStr).rpc_id none)
      (hd : c'.timers.Subperm c.timers)
      (hf : cb._checkDead = true → ∀ d ∈ c'.timers, d.call = cb.call → d ∈ c.fired)
      (hi : c'.invoked
        = c.invoked ++ [.cb cb.call (codec.parseFromString msg.getMessageStr).params])
  | died (d : DeadCallback) (rest : List DeadCallback) (hc : c'.calls = c.calls)
      (hr : c.timers.Perm (d :: rest)) (ht : c'.entry = Function.update c.entry d.methodId none)
      (hd : c'.timers.Subperm rest) (hi : c'.invoked = c.invoked ++ [.dcb d.call])

section
variable {codec : Codec} {c c' : RpcClient}

theorem Change.quiet {e : RpcEvent} (hl : Later c c') (ht : c'._cbs = c._cbs)
    (hd : c'.timers.Subperm c.timers) (hi : c'.invoked = c.invoked) : Change codec c e c' := by
  refine .less hl (fun id cb h => ?_) hd hi
  unfold entry at h ⊢
  rw [← ht]
  exact h

theorem entry_subscript (c : RpcClient) (id : BitVec 32) : (c.subscript id).entry = c.entry := by
  rw [c.entry_update id _ rfl]
  show Function.update c.entry id (c.entry id) = c.entry
  exact Function.update_eq_self id c.entry

theorem assign_spec (c : RpcClient) (id : BitVec 32) (cb : RpcCallback) :
    (c.assign id cb).entry = Function.update c.entry id (some cb)
    ∧ (c.assign id cb).timers.Subperm
        (if cb._checkDead then ⟨cb.call, id⟩ :: c.timers else c.timers)
    ∧ (c.assign id cb).invoked = c.invoked ∧ (c.assign id cb).calls = c.calls
    ∧ (c.assign id cb)._methodId = c._methodId := by
  refine ⟨c.entry_update id (some (some cb)) rfl, ?_⟩
  unfold assign
  dsimp only
  generalize (c._cbs id).join = p
  cases cb._checkDead with
  | false =>
    obtain ⟨_, h2, h3, h4⟩ := c.release_fields p
    exact ⟨(c.release_sublist p).subperm, h2, h3, h4⟩
  | true =>
    rw [if_pos rfl, if_pos rfl]
    generalize hc1 : ({ c with armed := c.armed ++ [⟨cb.call, id⟩] } : RpcClient) = c1
    obtain ⟨_, h2, h3, h4⟩ := c1.release_fields p
    have e : c1.timers.Perm (⟨cb.call, id⟩ :: c.timers) := by
      rw [← hc1]
      show (c.armed ++ [(⟨cb.call, id⟩ : DeadCallback)] ++ c.fired).Perm _
      rw [List.append_assoc]
      exact List.perm_middle
    refine ⟨(c1.release_sublist p).subperm.trans e.subperm, ?_, ?_, ?_⟩
    · exact h2.trans (by rw [← hc1])
    · exact h3.trans (by rw [← hc1])
    · exact h4.trans (by rw [← hc1])

inductive Registration (c : RpcClient) (k : Nat) (o : Overload) :
    Fault → RpcClient → Option (BitVec 32) → Prop
  | lock : Registration c k o .lock (c.setPhase k (.returned none false)) none
  | plain (f : Fault) (ho : o = .plain) (hmax : c._methodId ≠ 2147483647) :
      Registration c k o f
        ({ c with _methodId := c._methodId + 1 }.setPhase k (.registered (c._methodId + 1)))
        (some (c._methodId + 1))
  | create (inserted : Bool) (ho : o ≠ .plain) (hmax : c._methodId ≠ 2147483647) :
      Registration c k o (.create inserted)
        ((if inserted then { c with _methodId := c._methodId + 1 }.subscript (c._methodId + 1)
          else { c with _methodId := c._methodId + 1 }).setPhase k
            (.returned (some (c._methodId + 1)) false)) none
  | stored (ho : o ≠ .plain) (hmax : c._methodId ≠ 2147483647) :
      Registration c k o .none
        (({ c with _methodId := c._methodId + 1 }.assign (c._methodId + 1)
          ⟨k, decide (o = Overload.timed)⟩).setPhase k (.registered (c._methodId + 1)))
        (some (c._methodId + 1))

theorem register_cases {k : Nat} {o : Overload} {f : Fault} {i : Option (BitVec 32)}
    (h : c.register k o f = some (c', i)) : Registration c k o f c' i := by
  unfold register at h
  split at h
  · rename_i hf
    cases h
    exact hf ▸ .lock
  · split at h
    · cases h
    · rename_i hf hmax
      dsimp only at h
      split at h
      · cases h
        exact .plain f rfl hmax
      · rename_i ho
        cases h
        exact .create _ ho hmax
      · rename_i ho hcreate
        cases h
        cases f with
        | none => exact .stored ho hmax
        | lock => exact absurd rfl hf
        | create inserted => exact absurd rfl (hcreate inserted)

theorem register_change {k : Nat} {call : Call} (hk : c.calls[k]? = some call)
    (hp : call.phase = .checked) {f : Fault} {i : Option (BitVec 32)}
    (h : c.register k call.overload f = some (c', i)) : Change codec c (.register k f) c' := by
  have later : ∀ (c1 : RpcClient) (p : Phase), c1.calls = c.calls → Later c (c1.setPhase k p) := by
    intro c1 p h1
    refine (Later.setPhase (h1 ▸ hk) (fun id hi => ?_) (fun id r hi => ?_)).congr h1
    · rw [hp] at hi; cases hi
    · rw [hp] at hi; cases hi
  cases register_cases h with
  | lock => exact .quiet (later c _ rfl) rfl (List.Subperm.refl _) rfl
  | plain => exact .quiet (later _ _ rfl) rfl (List.Subperm.refl _) rfl
  | create inserted =>
    cases inserted with
    | false => exact .quiet (later _ _ rfl) rfl (List.Subperm.refl _) rfl
    | true =>
      refine .less (later _ _ rfl) (fun id cb he => ?_) (List.Subperm.refl _) rfl
      exact (congrFun (entry_subscript { c with _methodId := c._methodId + 1 } _) id).symm.trans he
  | stored =>
    obtain ⟨h1, h2, h3, h4, _⟩ := assign_spec { c with _methodId := c._methodId + 1 }
      (c._methodId + 1) ⟨k, decide (call.overload = .timed)⟩
    refine .registered k call (c._methodId + 1) (decide (call.overload = .timed)) (later _ _ h4) hk hp
      ?_ h1 h2 h3
    exact idOf_setPhase_self ((congrArg (·[k]?) h4).trans hk) _

theorem finish_eq {k : Nat} {method params : List UInt8} {id : BitVec 32} {throws r : Bool}
    (h : c.finish codec k method params id throws = some (r, c')) :
    ∃ s, c' = { c with _session := s }.setPhase k (.returned (some id) r) := by
  unfold finish at h
  split at h
  · cases h
    exact ⟨c._session, rfl⟩
  · split at h
    · cases h
    · rename_i s _ _
      cases h
      exact ⟨s, rfl⟩

theorem receive_change (c : RpcClient) (msg : Message) :
    Change codec c (.receive msg) (c.sessionReceiveMessage codec msg) := by
  unfold sessionReceiveMessage
  dsimp only
  generalize hrpc : codec.parseFromString msg.getMessageStr = rpc
  cases he : c._cbs rpc.rpc_id with
  | none => exact .quiet (Later.of_eq rfl) rfl (List.Subperm.refl _) rfl
  | some p =>
    have hj : c.entry rpc.rpc_id = p := by unfold entry; rw [he]; rfl
    have ht : ({ c with _cbs := Function.update c._cbs rpc.rpc_id none } : RpcClient).entry
        = Function.update c.entry rpc.rpc_id none := c.entry_update rpc.rpc_id none rfl
    cases p with
    | none =>
      refine .less (Later.of_eq rfl) (fun id cb h => ?_) (List.Subperm.refl _) rfl
      dsimp only at h
      rw [ht] at h
      by_cases hid : id = rpc.rpc_id
      · rw [hid, Function.update_self] at h; cases h
      · rw [Function.update_of_ne hid] at h; exact h
    | some cb =>
      dsimp only
      cases hd : cb._checkDead with
      | false =>
        refine .answered msg cb rfl (hrpc ▸ hj) rfl (hrpc ▸ ht) (List.Subperm.refl _) ?_ (hrpc ▸ rfl)
        intro h
        rw [hd] at h
        cases h
      | true =>
        refine .answered msg cb rfl (hrpc ▸ hj) rfl (hrpc ▸ ht) ?_ ?_ (hrpc ▸ rfl)
        · exact (c.cancel_sublist cb.call).subperm
        · intro _ d hd hk
          exact c.cancel_fired hd hk

theorem receive_keeps (c : RpcClient) (msg : Message) :
    (c.sessionReceiveMessage codec msg).calls = c.calls
    ∧ (c.sessionReceiveMessage codec msg)._methodId = c._methodId := by
  unfold sessionReceiveMessage
  dsimp only
  split
  · exact ⟨rfl, rfl⟩
  · exact ⟨rfl, rfl⟩
  · rename_i cb _
    cases cb._checkDead <;> exact ⟨rfl, rfl⟩

theorem removeDeadRPC_spec (c : RpcClient) (id : BitVec 32) :
    (c.removeDeadRPC id).entry = Function.update c.entry id none
    ∧ (c.removeDeadRPC id).timers.Sublist c.timers ∧ (c.removeDeadRPC id).invoked = c.invoked
    ∧ (c.removeDeadRPC id).calls = c.calls ∧ (c.removeDeadRPC id)._methodId = c._methodId := by
  unfold removeDeadRPC
  split
  · rename_i he
    refine ⟨?_, List.Sublist.refl _, rfl, rfl, rfl⟩
    have hj : c.entry id = none := by unfold entry; rw [he]; rfl
    rw [← hj, Function.update_eq_self]
  · rename_i p he
    generalize hc1 : ({ c with _cbs := Function.update c._cbs id none } : RpcClient) = c1
    obtain ⟨h1, h2, h3, h4⟩ := c1.release_fields p
    have hs := c1.release_sublist p
    subst hc1
    exact ⟨c.entry_update id none h1, hs, h2, h3, h4⟩

theorem fired_eraseIdx {i : Nat} {w : Wait} (h : c.queued[i]? = some w) (herr : w.err = false) :
    c.fired.Perm (w.handler :: ({ c with queued := c.queued.eraseIdx i } : RpcClient).fired) := by
  obtain ⟨hi, hw⟩ := List.getElem?_eq_some_iff.mp h
  have h1 := ((List.getElem_cons_eraseIdx_perm hi).filter fun w => !w.err).map Wait.handler
  rw [hw, List.filter_cons_of_pos (by rw [herr]; rfl), List.map_cons] at h1
  exact h1.symm

theorem dead_change {i : Nat} {w : Wait} (h : c.queued[i]? = some w) :
    Change codec c (.dead i) ({ c with queued := c.queued.eraseIdx i }.rpcDeadCallback w) := by
  generalize hc1 : ({ c with queued := c.queued.eraseIdx i } : RpcClient) = c1
  unfold rpcDeadCallback
  cases herr : w.err with
  | true =>
    rw [if_pos rfl, ← hc1]
    refine .quiet (Later.of_eq rfl) rfl (List.Sublist.subperm ?_) rfl
    exact List.Sublist.append_left (((List.eraseIdx_sublist ..).filter _).map _) _
  | false =>
    rw [if_neg Bool.false_ne_true]
    obtain ⟨h1, h2, h3, h4, _⟩ := c1.removeDeadRPC_spec w.handler.methodId
    refine .died w.handler c1.timers ?_ ?_ ?_ h2.subperm ?_
    · exact h4.trans (by rw [← hc1])
    · rw [← hc1]
      exact ((fired_eraseIdx h herr).append_left c.armed).trans List.perm_middle
    · exact h1.trans (by rw [← hc1]; rfl)
    · exact congrArg (· ++ [_]) (h3.trans (by rw [← hc1]))

theorem expire_timers {i : Nat} {d : DeadCallback} (h : c.armed[i]? = some d) :
    ({ c with armed := c.armed.eraseIdx i, queued := c.queued ++ [⟨false, d⟩] } : RpcClient).timers.Perm
      c.timers := by
  obtain ⟨hi, hd⟩ := List.getElem?_eq_some_iff.mp h
  have e : ({ c with armed := c.armed.eraseIdx i, queued := c.queued ++ [⟨false, d⟩] } :
      RpcClient).fired = c.fired ++ [d] := by
    unfold fired
    rw [List.filter_append, List.map_append]
    rfl
  unfold timers
  rw [e]
  have h1 : (c.armed.eraseIdx i ++ (c.fired ++ [d])).Perm (d :: c.armed.eraseIdx i ++ c.fired) := by
    rw [← List.append_assoc]
    exact List.perm_append_singleton d _
  refine h1.trans (List.Perm.append_right _ ?_)
  rw [← hd]
  exact List.getElem_cons_eraseIdx_perm hi

theorem step_register {k : Nat} {f : Fault} (h : c.step codec (.register k f) = some c') :
    ∃ call i, c.calls[k]? = some call ∧ call.phase = .checked
      ∧ c.register k call.overload f = some (c', i) := by
  rw [step] at h
  split at h
  · rename_i hk
    obtain ⟨⟨c1, i⟩, hr, rfl⟩ := Option.map_eq_some_iff.mp h
    exact ⟨_, i, hk, rfl, hr⟩
  · cases h

theorem step_finish {k : Nat} {throws : Bool} (h : c.step codec (.finish k throws) = some c') :
    ∃ call id s r, c.calls[k]? = some call ∧ call.phase = .registered id
      ∧ c' = { c with _session := s }.setPhase k (.returned (some id) r) := by
  rw [step] at h
  split at h
  · rename_i hk
    obtain ⟨⟨r, c1⟩, hr, rfl⟩ := Option.map_eq_some_iff.mp h
    obtain ⟨s, rfl⟩ := finish_eq hr
    exact ⟨_, _, s, r, hk, rfl, rfl⟩
  · cases h

theorem step_change {e : RpcEvent} (h : c.step codec e = some c') : Change codec c e c' := by
  cases e with
  | session s =>
    cases h
    exact .quiet (Later.of_eq rfl) rfl (List.Subperm.refl _) rfl
  | enter o method params =>
    cases h
    exact .quiet (Later.enter c o method params) rfl (List.Subperm.refl _) rfl
  | register k f =>
    obtain ⟨call, i, hk, hp, hr⟩ := step_register h
    exact register_change hk hp hr
  | finish k throws =>
    obtain ⟨call, id, s, r, hk, hp, rfl⟩ := step_finish h
    have hl : Later { c with _session := s }
        ({ c with _session := s }.setPhase k (.returned (some id) r)) :=
      Later.setPhase hk (fun j hj => by rw [hp] at hj; exact hj)
        (fun _ _ hj => by rw [hp] at hj; cases hj)
    exact .quiet (hl.congr rfl) rfl (List.Subperm.refl _) rfl
  | receive msg =>
    cases h
    exact receive_change c msg
  | expire i =>
    obtain ⟨d, hd, rfl⟩ := Option.map_eq_some_iff.mp h
    exact .quiet (Later.of_eq rfl) rfl (expire_timers hd).subperm rfl
  | dead i =>
    obtain ⟨w, hw, rfl⟩ := Option.map_eq_some_iff.mp h
    exact dead_change hw

end

end RpcClient

end JMEngine.Rpc
