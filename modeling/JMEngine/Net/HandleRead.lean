import JMEngine.Net.TcpSession

/-!
# What one `handleRead` can do

* `HandleRead s ps b t es`   the exits of `handleRead`: frames `ps` posted, the read buffer left as
                             `b`, the session as `t`, the effects `es`;
* `handleRead_cases`         every completed `handleRead` is one of them;
* `endsConnection`           the completions that end a connection;
* `handleRead_reports`       these are the ones that `handleRead` reports;
* `handleRead_noMessage`     the exit after a read whose drain loop found nothing wrong.
-/

set_option linter.unusedSectionVars false

namespace JMEngine.Net
open Bytes Framing

/-- an error that is neither a reason to try again nor an aborted operation -/
def ErrorCode.breaks : ErrorCode → Bool
  | .other v => v != 995
  | _ => false

namespace TcpSession

def messagesOf (es : List Effect) : List Message :=
  es.filterMap fun
    | .post (.sessionReceiveMessage m) => some m
    | _ => none

theorem messagesOf_append (es fs : List Effect) :
    messagesOf (es ++ fs) = messagesOf es ++ messagesOf fs := List.filterMap_append

theorem messagesOf_receivePosts (ps : List (List UInt8)) :
    messagesOf (receivePosts ps) = ps.map fun f => Message.create f f.length := by
  unfold messagesOf receivePosts
  rw [List.filterMap_map]
  exact congrFun List.filterMap_eq_map ps

theorem messagesOf_postReadNull (s : TcpSession) : messagesOf s.postReadNull.2 = [] := by
  unfold postReadNull
  split <;> rfl

inductive HandleRead (s : TcpSession) (ps : List (List UInt8)) (b : ReadBuffer) :
    TcpSession → List Effect → Prop
  | ends (k : Nat) (e : ErrorCode) :
      HandleRead s ps b
        { s with _reading := false, _buff := b, _readBlockTimes := k, _status := .Disconnected }
        (receivePosts ps ++ [.post (.sessionReadError e)])
  | goesOn (k : Nat) (again : Bool) :
      HandleRead s ps b { s with _reading := again, _buff := b, _readBlockTimes := k }
        (receivePosts ps ++ (if again then [.async_read_some] else []))

theorem postReadNull_cases (s : TcpSession) (h : s._reading = false) :
    ∃ again : Bool, s.postReadNull
      = ({ s with _reading := again }, if again then [.async_read_some] else []) := by
  by_cases ho : s._socket = true
  · refine ⟨true, ?_⟩
    unfold postReadNull
    rw [if_neg (by rw [ho, h]; decide)]
    rfl
  · refine ⟨false, ?_⟩
    have e : { s with _reading := false } = s := by rw [← h]
    unfold postReadNull
    rw [e, if_pos (by rw [Bool.eq_false_iff.mpr ho]; rfl)]
    rfl

theorem finishRead_cases (s : TcpSession) (ps : List (List UInt8)) (b : ReadBuffer) (k : Nat)
    (error : ErrorCode) :
    HandleRead s ps b
      (finishRead { s with _reading := false, _buff := b, _readBlockTimes := k } error).1
      (receivePosts ps ++
        (finishRead { s with _reading := false, _buff := b, _readBlockTimes := k } error).2) := by
  unfold finishRead
  split
  · dsimp only
    split
    · exact HandleRead.ends _ error
    · obtain ⟨again, e⟩ := postReadNull_cases
        { s with _reading := false, _buff := b, _readBlockTimes := k + 1 } rfl
      rw [e]
      exact HandleRead.goesOn _ again
  · split
    · exact HandleRead.goesOn k false
    · exact HandleRead.ends k error

/-- the bytes that `read_some` returned, if it was called and did not fail -/
def readBytes : ErrorCode → ReadSome → Option (List UInt8)
  | .success, .got chunk => some chunk
  | _, _ => none

/-- the frames that a `handleRead` posts and the read buffer that it leaves -/
def drained (s : TcpSession) : Option (List UInt8) → List (List UInt8) × ReadBuffer
  | some chunk => ((readAndDrain s._buff chunk).posts, (readAndDrain s._buff chunk).buff)
  | none => ([], s._buff)

theorem handleRead_cases {s t : TcpSession} {error : ErrorCode} {rs : ReadSome} {es : List Effect}
    (h : s.handleRead error rs = some (t, es)) :
    HandleRead s (s.drained (readBytes error rs)).1 (s.drained (readBytes error rs)).2 t es := by
  unfold handleRead at h
  by_cases he : error = .success
  swap
  · have hn : readBytes error rs = none := by
      cases error with
      | success => exact absurd rfl he
      | _ => rfl
    simp only [if_neg he] at h
    have hf := finishRead_cases s [] s._buff s._readBlockTimes error
    rw [Option.some.inj h] at hf
    rw [hn]
    exact hf
  simp only [if_pos he] at h
  rw [he]
  cases rs with
  | failed e =>
    have hf := finishRead_cases s [] s._buff 0 e
    rw [Option.some.inj h] at hf
    exact hf
  | got chunk =>
    cases hx : (readAndDrain s._buff chunk).exit with
    | fault => simp only [hx] at h; cases h
    | running => simp only [hx] at h; cases h
    | error =>
      simp only [hx] at h
      obtain ⟨rfl, rfl⟩ := Prod.mk.inj (Option.some.inj h)
      exact HandleRead.ends 0 .success
    | noMessage =>
      simp only [hx] at h
      obtain ⟨rfl, rfl⟩ := Prod.mk.inj (Option.some.inj h)
      exact finishRead_cases s _ _ 0 .success

theorem handleRead_noMessage {s : TcpSession} {chunk : List UInt8}
    (hx : (readAndDrain s._buff chunk).exit = .noMessage) :
    s.handleRead .success (.got chunk) = some
      ((postReadNull { s with
          _reading := false, _buff := (readAndDrain s._buff chunk).buff, _readBlockTimes := 1 }).1,
        receivePosts (readAndDrain s._buff chunk).posts ++
        (postReadNull { s with
          _reading := false, _buff := (readAndDrain s._buff chunk).buff, _readBlockTimes := 1 }).2) := by
  unfold handleRead
  simp only [if_pos, hx]
  rfl

theorem postReadNull_field {α : Type} (s : TcpSession) (f : TcpSession → α)
    (h : ∀ r, f { s with _reading := r } = f s) : f s.postReadNull.1 = f s := by
  unfold postReadNull
  split
  · rfl
  · exact h true

/-! ## the end of a connection -/

/-- A completed read ends the connection: the bytes are malformed, the read has failed, or it is the tenth
in a row that finds nothing.  `blocked` counts these; an aborted read ends nothing. -/
def endsConnection (buff : ReadBuffer) (blocked : Nat) : ErrorCode → ReadSome → Bool
  | .success, .got chunk => (readAndDrain buff chunk).exit = .error
  | .success, .failed e => e.breaks
  | e, _ => e.breaks || (e.retry && decide (10 ≤ blocked + 1))

/-- the reads in a row after which the session reads on, from the last one that was ready -/
def blockedAfter (buff : ReadBuffer) (blocked : Nat) : ErrorCode → ReadSome → Nat
  | .success, .got chunk => if (readAndDrain buff chunk).exit = .error then 0 else 1
  | .success, .failed e => if e.breaks || e.aborted then 0 else 1
  | e, _ => if e.retry then blocked + 1 else blocked

theorem ErrorCode.cases (e : ErrorCode) :
    (e = .success ∨ e.retry = true) ∧ e.breaks = false ∧ e.aborted = false ∨
    e.aborted = true ∧ e.breaks = false ∧ e.retry = false ∧ e ≠ .success ∨
    e.breaks = true ∧ e.aborted = false ∧ e.retry = false ∧ e ≠ .success := by
  cases e with
  | success => exact .inl ⟨.inl rfl, rfl, rfl⟩
  | would_block => exact .inl ⟨.inr rfl, rfl, rfl⟩
  | try_again => exact .inl ⟨.inr rfl, rfl, rfl⟩
  | other v =>
    by_cases hv : v = 995
    · subst hv
      exact .inr (.inl ⟨rfl, rfl, rfl, by decide⟩)
    · have h : (v == 995) = false := beq_eq_false_iff_ne.mpr hv
      refine .inr (.inr ⟨?_, h, rfl, fun h => by cases h⟩)
      show (v != 995) = true
      exact bne_iff_ne.mpr hv

/-- what the effects report: the end of the connection, or nothing -/
def Reports (ends : Bool) (es : List Effect) : Prop :=
  ∃ (ps : List (List UInt8)) (last : List Effect), es = receivePosts ps ++ last ∧
    if ends then ∃ e, last = [.post (.sessionReadError e)] else ∀ f ∈ last, f = .async_read_some

theorem postReadNull_effects (s : TcpSession) : ∀ f ∈ s.postReadNull.2, f = .async_read_some := by
  unfold postReadNull
  intro f hf
  split at hf
  · cases hf
  · exact List.mem_singleton.mp hf

theorem finishRead_reports (s : TcpSession) (ps : List (List UInt8)) (e : ErrorCode) :
    (s.finishRead e).1._readBlockTimes
        = (if e.breaks || e.aborted then s._readBlockTimes else s._readBlockTimes + 1) ∧
      Reports (e.breaks || (!e.aborted && decide (10 ≤ s._readBlockTimes + 1)))
        (receivePosts ps ++ (s.finishRead e).2) := by
  unfold finishRead
  rcases ErrorCode.cases e with ⟨h, hh, ha⟩ | ⟨ha, hh, hr, hs⟩ | ⟨hh, ha, hr, hs⟩
  · have h' : (decide (e = .success) || e.retry) = true := by
      rcases h with h | h
      · rw [decide_eq_true h, Bool.true_or]
      · rw [h, Bool.or_true]
    rw [if_pos h', hh, ha]
    dsimp only
    by_cases hk : s._readBlockTimes + 1 ≥ 10
    · rw [if_pos hk, show decide (10 ≤ s._readBlockTimes + 1) = true from decide_eq_true hk]
      exact ⟨rfl, ps, _, rfl, e, rfl⟩
    · rw [if_neg hk, show decide (10 ≤ s._readBlockTimes + 1) = false from decide_eq_false hk]
      exact ⟨postReadNull_field _ _readBlockTimes fun _ => rfl, ps, _, rfl, postReadNull_effects _⟩
  · have h' : ¬(decide (e = .success) || e.retry) = true := by
      rw [decide_eq_false hs, hr]
      decide
    rw [if_neg h', if_pos ha, hh, ha]
    exact ⟨rfl, ps, [], rfl, fun f hf => by cases hf⟩
  · have h' : ¬(decide (e = .success) || e.retry) = true := by
      rw [decide_eq_false hs, hr]
      decide
    rw [if_neg h', if_neg (by rw [ha]; decide), hh]
    exact ⟨rfl, ps, _, rfl, e, rfl⟩

theorem blockedAfter_of_ne {error : ErrorCode} (he : error ≠ .success) (buff : ReadBuffer) (blocked : Nat)
    (rs : ReadSome) : blockedAfter buff blocked error rs =
      if error.breaks || error.aborted then blocked else blocked + 1 := by
  cases error with
  | success => exact absurd rfl he
  | would_block => rfl
  | try_again => rfl
  | other v =>
    rcases ErrorCode.cases (.other v) with ⟨h | h, _⟩ | ⟨ha, hh, _⟩ | ⟨hh, ha, _⟩
    · cases h
    · cases h
    · rw [ha, hh]
      rfl
    · rw [ha, hh]
      rfl

theorem endsConnection_of_ne {error : ErrorCode} (he : error ≠ .success) (buff : ReadBuffer) (blocked : Nat)
    (rs : ReadSome) : endsConnection buff blocked error rs =
      (error.breaks || (!error.aborted && decide (10 ≤ blocked + 1))) := by
  cases error with
  | success => exact absurd rfl he
  | would_block => rfl
  | try_again => rfl
  | other v =>
    show ((ErrorCode.other v).breaks || (false && _)) = _
    rcases ErrorCode.cases (.other v) with ⟨h | h, _⟩ | ⟨ha, hh, _⟩ | ⟨hh, ha, _⟩
    · cases h
    · cases h
    · rw [ha, hh]
      rfl
    · rw [hh]
      rfl

/-- **`handleRead` reports the end of the connection and nothing else**, and counts the reads in a row. -/
theorem handleRead_reports {s t : TcpSession} {error : ErrorCode} {rs : ReadSome} {es : List Effect}
    (h : s.handleRead error rs = some (t, es)) :
    t._readBlockTimes = blockedAfter s._buff s._readBlockTimes error rs ∧
      Reports (endsConnection s._buff s._readBlockTimes error rs) es := by
  unfold handleRead at h
  by_cases he : error = .success
  swap
  · simp only [if_neg he] at h
    obtain ⟨rfl, rfl⟩ := Prod.mk.inj (Option.some.inj h)
    obtain ⟨h1, h2⟩ := finishRead_reports { s with _reading := false } [] error
    rw [blockedAfter_of_ne he, endsConnection_of_ne he]
    exact ⟨h1, h2⟩
  simp only [if_pos he] at h
  subst he
  cases rs with
  | failed e =>
    obtain ⟨rfl, rfl⟩ := Prod.mk.inj (Option.some.inj h)
    obtain ⟨h1, h2⟩ := finishRead_reports { s with _reading := false, _readBlockTimes := 0 } [] e
    have hends : (e.breaks || (!e.aborted && decide (10 ≤ 0 + 1))) = e.breaks := by
      rw [show decide (10 ≤ 0 + 1) = false from rfl, Bool.and_false, Bool.or_false]
    rw [show (TcpSession._readBlockTimes { s with _reading := false, _readBlockTimes := 0 }) = 0
      from rfl, hends] at h2
    exact ⟨h1, h2⟩
  | got chunk =>
    cases hx : (readAndDrain s._buff chunk).exit with
    | fault => simp only [hx] at h; cases h
    | running => simp only [hx] at h; cases h
    | error =>
      simp only [hx] at h
      obtain ⟨rfl, rfl⟩ := Prod.mk.inj (Option.some.inj h)
      rw [blockedAfter, endsConnection, hx]
      exact ⟨rfl, _, _, rfl, .success, rfl⟩
    | noMessage =>
      simp only [hx] at h
      obtain ⟨rfl, rfl⟩ := Prod.mk.inj (Option.some.inj h)
      rw [blockedAfter, endsConnection, hx]
      exact finishRead_reports { s with
        _reading := false, _readBlockTimes := 0, _buff := (readAndDrain s._buff chunk).buff } _ .success

end TcpSession

end JMEngine.Net
