import JMEngine.Rpc.Client

/-!
# The numbers of the calls

`++_methodId` is the only place where a call gets its number, and it has no defined behaviour beyond
`INT_MAX`; so no number is given twice, whichever overloads are used and whatever happens to the
session, the table and the timers.

* `Numbering`, `step_numbering`   what an event can do to `_methodId`, to the numbers of the calls and
                                  to the keys of the table;
* `Numbered`                      numbers and keys are at most `_methodId`, and numbers are distinct;
                                  every event keeps this (`Numbering.numbered`).
-/

set_option linter.unusedSectionVars false

namespace JMEngine.Rpc
open JMEngine.Net Runs

namespace RpcClient

section
variable {codec : Codec} {c c' : RpcClient}

/-- what an event can do to `_methodId`, the numbers of the calls and the keys of the table -/
inductive Numbering (c c' : RpcClient) : Prop
  | keep (hm : c'._methodId = c._methodId) (hids : ∀ k, c'.idOf k = c.idOf k)
      (ht : ∀ id, c._cbs id = none → c'._cbs id = none)
  | next (k : Nat) (hmax : c._methodId ≠ 2147483647) (hm : c'._methodId = c._methodId + 1)
      (hk : c.idOf k = none) (hid : c'.idOf k = some (c._methodId + 1))
      (hids : ∀ j, k ≠ j → c'.idOf j = c.idOf j)
      (ht : ∀ id, id ≠ c._methodId + 1 → c'._cbs id = c._cbs id)

theorem idOf_congr (h : c'.calls = c.calls) (k : Nat) : c'.idOf k = c.idOf k := by
  unfold idOf
  rw [h]

theorem Numbering.of_update {id : BitVec 32} (hm : c'._methodId = c._methodId)
    (hc : c'.calls = c.calls) (ht : c'._cbs = Function.update c._cbs id none) : Numbering c c' := by
  refine .keep hm (idOf_congr hc) (fun j hj => ?_)
  rw [ht]
  by_cases e : j = id
  · rw [e, Function.update_self]
  · rw [Function.update_of_ne e, hj]

theorem enter_idOf (c : RpcClient) (o : Overload) (method params : List UInt8) (k : Nat) :
    (c.enter o method params).idOf k = c.idOf k := by
  unfold idOf enter
  dsimp only
  rcases Nat.lt_trichotomy k c.calls.length with h | h | h
  · rw [List.getElem?_append_left h]
  · rw [h, List.getElem?_append_right (Nat.le_refl _), Nat.sub_self,
      List.getElem?_eq_none (Nat.le_refl _)]
    cases c._session.isOk <;> rfl
  · rw [List.getElem?_eq_none (Nat.le_of_lt h), List.getElem?_eq_none]
    rw [List.length_append, List.length_singleton]
    exact h

theorem register_numbering {k : Nat} {call : Call} (hk : c.calls[k]? = some call)
    (hp : call.phase = .checked) {f : Fault} {i : Option (BitVec 32)}
    (h : c.register k call.overload f = some (c', i)) : Numbering c c' := by
  have hn := idOf_checked hk hp
  -- every branch behind `++_methodId` ends by setting the phase in a state with the same calls
  have key : ∀ (c1 : RpcClient) (p : Phase), c1.calls = c.calls → c1._methodId = c._methodId + 1 →
      p.id = some (c._methodId + 1) → (∀ id, id ≠ c._methodId + 1 → c1._cbs id = c._cbs id) →
      c._methodId ≠ 2147483647 → Numbering c (c1.setPhase k p) := by
    intro c1 p h1 h2 h3 h4 hmax
    refine .next k hmax h2 hn ?_ (fun j hj => ?_) h4
    · exact (idOf_setPhase_self ((congrArg (·[k]?) h1).trans hk) p).trans h3
    · exact (c1.idOf_setPhase_of_ne hj p).trans (idOf_congr h1 j)
  cases register_cases h with
  | lock =>
    refine .keep rfl (fun j => ?_) (fun _ hj => hj)
    by_cases e : k = j
    · rw [← e, idOf_setPhase_self hk, hn]; rfl
    · exact c.idOf_setPhase_of_ne e _
  | plain _ _ hmax => exact key _ _ rfl rfl rfl (fun _ _ => rfl) hmax
  | create inserted _ hmax =>
    cases inserted with
    | false => exact key _ _ rfl rfl rfl (fun _ _ => rfl) hmax
    | true => exact key _ _ rfl rfl rfl (fun id hj => Function.update_of_ne hj _ _) hmax
  | stored _ hmax =>
    obtain ⟨_, _, _, h4, h5⟩ := assign_spec { c with _methodId := c._methodId + 1 }
      (c._methodId + 1) ⟨k, decide (call.overload = .timed)⟩
    exact key _ _ h4 h5 rfl (fun id hj => Function.update_of_ne hj _ _) hmax

theorem receive_numbering (c : RpcClient) (msg : Message) :
    Numbering c (c.sessionReceiveMessage codec msg) := by
  unfold sessionReceiveMessage
  dsimp only
  split
  · exact .keep rfl (fun _ => rfl) (fun _ => id)
  · exact .of_update rfl rfl rfl
  · rename_i cb _
    cases cb._checkDead <;> exact .of_update rfl rfl rfl

theorem dead_numbering (c : RpcClient) (q : List Wait) (w : Wait) :
    Numbering c ({ c with queued := q }.rpcDeadCallback w) := by
  unfold rpcDeadCallback
  split
  · exact .keep rfl (fun _ => rfl) (fun _ => id)
  · unfold removeDeadRPC
    split
    · exact .keep rfl (fun _ => rfl) (fun _ => id)
    · rename_i p _
      obtain ⟨h1, _, h3, h4⟩ := release_fields
        { c with queued := q, _cbs := Function.update c._cbs w.handler.methodId none } p
      exact .of_update h4 h3 h1

theorem step_numbering {e : RpcEvent} (h : c.step codec e = some c') : Numbering c c' := by
  cases e with
  | session s =>
    cases h
    exact .keep rfl (fun _ => rfl) (fun _ => id)
  | enter o method params =>
    cases h
    exact .keep rfl (c.enter_idOf o method params) (fun _ => id)
  | register k f =>
    obtain ⟨call, i, hk, hp, hr⟩ := step_register h
    exact register_numbering hk hp hr
  | finish k throws =>
    obtain ⟨call, id, s, r, hk, hp, rfl⟩ := step_finish h
    refine .keep rfl (fun j => ?_) (fun _ hj => hj)
    by_cases e : k = j
    · have hid : c.idOf k = some id := by unfold idOf; rw [hk, Option.bind_some, hp]; rfl
      have h1 : ({ c with _session := s } : RpcClient).calls[k]? = some call := hk
      rw [← e, idOf_setPhase_self h1, hid]
      rfl
    · exact RpcClient.idOf_setPhase_of_ne _ e _
  | receive msg =>
    cases h
    exact receive_numbering c msg
  | expire i =>
    obtain ⟨d, _, rfl⟩ := Option.map_eq_some_iff.mp h
    exact .keep rfl (fun _ => rfl) (fun _ => id)
  | dead i =>
    obtain ⟨w, _, rfl⟩ := Option.map_eq_some_iff.mp h
    exact dead_numbering c (c.queued.eraseIdx i) w

/-- numbers are given once and are below `_methodId`, as are the keys of the table -/
structure Numbered (c : RpcClient) : Prop where
  small : c._methodId.toNat < 2147483648
  keys : ∀ id, c._methodId.toNat < id.toNat → c._cbs id = none
  ids : ∀ k id, c.idOf k = some id → id.toNat ≤ c._methodId.toNat
  distinct : ∀ j k id, c.idOf j = some id → c.idOf k = some id → j = k

theorem numbered_new (s : TcpSession) : (new s).Numbered where
  small := show (0 : BitVec 32).toNat < 2147483648 by decide
  keys := fun _ _ => rfl
  ids := fun _ _ h => by cases h
  distinct := fun _ _ _ h => by cases h

theorem Numbered.toNat_next (h : c.Numbered) (hmax : c._methodId ≠ 2147483647) :
    (c._methodId + 1).toNat = c._methodId.toNat + 1 ∧ c._methodId.toNat + 1 < 2147483648 := by
  have h1 := h.small
  have h2 : c._methodId.toNat ≠ 2147483647 := fun e => hmax (BitVec.eq_of_toNat_eq e)
  rw [BitVec.toNat_add]
  show (c._methodId.toNat + 1) % 4294967296 = _ ∧ _
  omega

theorem Numbering.numbered (hs : Numbering c c') (h : c.Numbered) : c'.Numbered := by
  cases hs with
  | keep hm hids ht =>
    refine ⟨by rw [hm]; exact h.small, ?_, ?_, ?_⟩
    · intro id hid
      rw [hm] at hid
      exact ht id (h.keys id hid)
    · intro k id hk
      rw [hm]
      exact h.ids k id (by rw [← hids]; exact hk)
    · intro j k id hj hk
      rw [hids] at hj hk
      exact h.distinct j k id hj hk
  | next k hmax hm hk hid hids ht =>
    obtain ⟨e, hlt⟩ := h.toNat_next hmax
    have old : ∀ j, c.idOf j ≠ some (c._methodId + 1) := by
      intro j hj
      have := h.ids j _ hj
      omega
    refine ⟨by rw [hm]; omega, ?_, ?_, ?_⟩
    · intro id hid
      rw [hm] at hid
      rw [ht id (fun e' => by rw [e'] at hid; omega)]
      exact h.keys id (by omega)
    · intro j id hj
      rw [hm]
      by_cases ej : k = j
      · rw [← ej, hid] at hj
        rw [← Option.some.inj hj]
      · have := h.ids j id (by rw [← hids j ej]; exact hj)
        omega
    · intro i j id hi hj
      by_cases ei : k = i
      · by_cases ej : k = j
        · rw [← ei, ej]
        · rw [← ei, hid] at hi
          rw [hids j ej, ← hi] at hj
          exact absurd hj (old j)
      · by_cases ej : k = j
        · rw [← ej, hid] at hj
          rw [hids i ei, ← hj] at hi
          exact absurd hi (old i)
        · rw [hids i ei] at hi
          rw [hids j ej] at hj
          exact h.distinct i j id hi hj

end

end RpcClient

end JMEngine.Rpc
