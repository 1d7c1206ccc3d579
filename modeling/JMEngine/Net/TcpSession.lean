import JMEngine.Net.Reader

/-!
# The TCP session (source/net/JME_TcpSession.cpp)

Every member function is a function of the session and of what the operating system answers in it
(`read_some`, `write_some`, a synchronous `connect`, calls that throw); next to the new session it
returns the asynchronous operations it started and the callbacks it posted to the logic thread, in
order (`Effect`).  `none` is undefined behaviour.

The functions are those of the source, under its names; `TcpSession.writeMessage` is the whole call
(`JMEngine.Net.WriteSteps` has its steps one by one).
-/

set_option linter.unusedSectionVars false

namespace JMEngine.Net
open Bytes

inductive SessionStatus where
  | Disconnected
  | Connected
  | Connecting
  deriving DecidableEq, Repr

inductive ErrorCode where
  | success
  | would_block
  | try_again
  | other (value : Int)
  deriving DecidableEq, Repr

namespace ErrorCode

/-- `error == would_block || error == try_again` -/
def retry : ErrorCode → Bool
  | would_block => true
  | try_again => true
  | _ => false

/-- `error.value() == 995`, an operation that was aborted (Windows) -/
def aborted : ErrorCode → Bool
  | other v => v == 995
  | _ => false

end ErrorCode

/-- what is posted to the logic thread, for the session's `NetHandler` -/
inductive Callback where
  | sessionConnectSucceed
  | sessionConnectFailed (e : ErrorCode)
  | sessionReceiveMessage (msg : Message)
  | sessionReadError (e : ErrorCode)
  deriving DecidableEq, Repr

/-- `open_socket`: the old socket is closed and another one takes its place -/
inductive Effect where
  | open_socket
  | async_read_some
  | async_write_some
  | async_connect
  | async_wait (seconds : Nat)
  | post (c : Callback)
  deriving DecidableEq, Repr

/-- one `read_some` -/
inductive ReadSome where
  | got (chunk : List UInt8)
  | failed (e : ErrorCode)
  deriving DecidableEq, Repr

/-- one `write_some`: at most `k` bytes of what it is offered, or nothing and an error -/
inductive WriteSome where
  | wrote (k : Nat)
  | failed (e : ErrorCode)
  deriving DecidableEq, Repr

/-- the calls inside `start` that can throw -/
inductive StartCalls where
  | fine
  | remote_endpoint_throws
  | non_blocking_throws
  deriving DecidableEq, Repr

/-- the calls inside `onConnect`: whether resolving or parsing the address throws, and what a
synchronous `connect` answers -/
structure ConnectCalls where
  throws : Bool
  ec : ErrorCode
  deriving DecidableEq, Repr

structure TcpSession where
  /-- `_socket.is_open()` -/
  _socket : Bool
  _asyncConnect : Bool
  _writeBuffer : Option (List UInt8)
  _writeBufferSize : Nat
  _writeBufferOffest : Nat
  _buff : ReadBuffer
  _writing : Bool
  _writeBlockTimes : Nat
  _reading : Bool
  _readBlockTimes : Nat
  _reconnectInterval : Nat
  _status : SessionStatus
  deriving DecidableEq, Repr

namespace TcpSession

/-- `TcpSession(NetHandler*, size_t n, size_t reconnect)`; the allocator may return no memory for the
write buffer -/
def new (writeMem : Option (List UInt8)) (readMem : List UInt8) (n reconnect : Nat) : TcpSession where
  _socket := false
  _asyncConnect := true
  _writeBuffer := writeMem
  _writeBufferSize := n
  _writeBufferOffest := 0
  _buff := ReadBuffer.new readMem
  _writing := false
  _writeBlockTimes := 0
  _reading := false
  _readBlockTimes := 0
  _reconnectInterval := reconnect
  _status := .Disconnected

def isOk (s : TcpSession) : Bool := s._status = .Connected

def resetReadBuffer (s : TcpSession) : TcpSession := { s with _buff := s._buff.reset }

def postReadNull (s : TcpSession) : TcpSession × List Effect :=
  if !s._socket || s._reading then (s, [])
  else ({ s with _reading := true }, [.async_read_some])

def postWriteNull (s : TcpSession) : TcpSession × List Effect :=
  if !s._socket || s._writing || s._writeBufferOffest == 0 then (s, [])
  else ({ s with _writing := true }, [.async_write_some])

def start (s : TcpSession) : StartCalls → TcpSession × List Effect
  | .remote_endpoint_throws => (s, [])
  | .non_blocking_throws => ({ s with _status := .Connected }, [])
  | .fine => postReadNull { s with _status := .Connected }

/-! ## reading -/

/-- the part of `handleRead` after the read itself -/
def finishRead (s : TcpSession) (error : ErrorCode) : TcpSession × List Effect :=
  if error = .success || error.retry then
    let s := { s with _readBlockTimes := s._readBlockTimes + 1 }
    if s._readBlockTimes ≥ 10 then
      ({ s with _status := .Disconnected }, [.post (.sessionReadError error)])
    else s.postReadNull
  else if error.aborted then (s, [])
  else ({ s with _status := .Disconnected }, [.post (.sessionReadError error)])

/-- the copies of the frames that the drain loop posts -/
def receivePosts (posts : List (List UInt8)) : List Effect :=
  posts.map fun f => .post (.sessionReceiveMessage (Message.create f f.length))

/-- `rs` is what `read_some` answers, if it is called -/
def handleRead (s : TcpSession) (error : ErrorCode) (rs : ReadSome) :
    Option (TcpSession × List Effect) :=
  let s := { s with _reading := false }
  if error = .success then
    let s := { s with _readBlockTimes := 0 }
    match rs with
    | .failed e => some (s.finishRead e)
    | .got chunk =>
      let d := readAndDrain s._buff chunk
      let s := { s with _buff := d.buff }
      match d.exit with
      | .error => some ({ s with _status := .Disconnected },
          receivePosts d.posts ++ [.post (.sessionReadError .success)])
      | .noMessage =>
        let r := s.finishRead .success
        some (r.1, receivePosts d.posts ++ r.2)
      | .fault => none
      | .running => none
  else some (s.finishRead error)

/-! ## writing -/

/-- where the `do ... while` of `handleWrite` leaves the write buffer, the bytes that the socket
accepted in it, and the last error -/
structure Written where
  mem : List UInt8
  offest : Nat
  sent : List UInt8
  error : ErrorCode
  deriving DecidableEq, Repr

/-- the exit on `wlen <= 0`: what was not written is copied to the top -/
def copyToTop (mem : List UInt8) (len offest : Nat) (error : ErrorCode) : Option Written :=
  if len > 0 then
    match memmove mem 0 len offest with
    | none => none
    | some mem => some ⟨mem, offest, [], error⟩
  else some ⟨mem, offest, [], error⟩

/-- `len` bytes from the start of the buffer have been written, `offest` bytes behind them are left;
`ws` are the answers of `write_some`, after which the socket blocks. -/
def writeLoop (mem : List UInt8) (len offest : Nat) : List WriteSome → Option Written
  | [] => copyToTop mem len offest .would_block
  | .failed e :: _ => copyToTop mem len offest e
  | .wrote k :: ws =>
    let wlen := min k offest
    if wlen = 0 then copyToTop mem len offest .success
    else if offest - wlen > 0 then
      match writeLoop mem (len + wlen) (offest - wlen) ws with
      | none => none
      | some w => some { w with sent := slice mem len wlen ++ w.sent }
    else some ⟨mem, 0, slice mem len wlen, .success⟩

/-- the end of `handleWrite`; `_writeBlockTimes` is an `int` -/
def finishWrite (s : TcpSession) (error : ErrorCode) : TcpSession × List Effect :=
  if error.retry then
    let s := { s with _writeBlockTimes := s._writeBlockTimes + 1 }
    if s._writeBlockTimes ≥ 10 then (s, []) else s.postWriteNull
  else (s, [])

/-- the session, the bytes that the socket accepted, and the effects -/
def handleWrite (s : TcpSession) (error : ErrorCode) (ws : List WriteSome) :
    Option (TcpSession × List UInt8 × List Effect) :=
  let s := { s with _writing := false }
  if error = .success then
    let s := { s with _writeBlockTimes := 0 }
    if s._writeBufferOffest > 0 then
      match s._writeBuffer with
      | none => none
      | some mem =>
        match writeLoop mem 0 s._writeBufferOffest ws with
        | none => none
        | some w =>
          let r := finishWrite { s with _writeBuffer := some w.mem, _writeBufferOffest := w.offest }
            w.error
          some (r.1, w.sent, r.2)
    else
      let r := finishWrite s error
      some (r.1, [], r.2)
  else
    let r := finishWrite s error
    some (r.1, [], r.2)

/-- `data_ptr` points to `data`; `destSize` is an `int`, which the comparison turns into a `size_t` -/
def writeImpl (s : TcpSession) (data : List UInt8) (len : Int) : Option (TcpSession × List Effect) :=
  let destSize := int32 (s._writeBufferOffest + len)
  if sizeT destSize > s._writeBufferSize then some (s, [])
  else
    match s._writeBuffer with
    | none => none
    | some mem =>
      if sizeT len ≤ data.length ∧ s._writeBufferOffest + sizeT len ≤ mem.length then
        some (postWriteNull { s with
          _writeBuffer := some (patch mem s._writeBufferOffest (data.take (sizeT len)))
          _writeBufferOffest := sizeT (s._writeBufferOffest + len) })
      else none

def writeNolock (s : TcpSession) (data : List UInt8) (len : Int) : Option (TcpSession × List Effect) :=
  if !s.isOk then some (s, [])
  else if !s._socket then some (s, [])
  else s.writeImpl data len

/-- `writeLock`, which takes the write mutex behind its checks -/
def writeLock (s : TcpSession) (data : List UInt8) (len : Int) : Option (TcpSession × List Effect) :=
  if !s.isOk then some (s, [])
  else if !s._socket then some (s, [])
  else s.writeImpl data len

/-- `int destSize = _writeBufferOffest + msg._totalLen` -/
def checkWriteBuffer (s : TcpSession) (msg : Message) : Bool :=
  let destSize := int32 (s._writeBufferOffest + msg._totalLen.toInt)
  if sizeT destSize > s._writeBufferSize then false else true

def writeMessage (s : TcpSession) (msg : Message) : Option (Bool × TcpSession × List Effect) :=
  if !s.isOk then some (false, s, [])
  else if !s.checkWriteBuffer msg then
    let r := s.postWriteNull
    some (false, r.1, r.2)
  else if s._writeBuffer.isSome then
    match s.writeNolock msg.header MessageHeaderLength with
    | none => none
    | some (s1, e1) =>
      -- `size_t messageDataLen()` is passed as an `int`
      match s1.writeNolock msg._msgData (int32 msg.messageDataLen) with
      | none => none
      | some (s2, e2) => some (true, s2, e1 ++ e2)
  else some (false, s, [])

/-! ## connecting -/

def handleConnect (s : TcpSession) (e : ErrorCode) : TcpSession × List Effect :=
  if e ≠ .success then
    let s := { s with _status := .Disconnected }
    (s, .post (.sessionConnectFailed e) ::
      (if s._reconnectInterval ≠ 0 then [.async_wait s._reconnectInterval] else []))
  else ({ s with _status := .Connected }, [.post .sessionConnectSucceed])

/-- `async_connect` closes the socket and opens another, as the synchronous branch does. -/
def onConnect (s : TcpSession) (c : ConnectCalls) : TcpSession × List Effect :=
  if s._status ≠ .Disconnected then (s, [])
  else
    let s := { s with _status := .Connecting }
    if s._asyncConnect then
      if c.throws then (s, [])
      else ({ s with _socket := true }, [.open_socket, .async_connect])
    else
      let s := { s with _socket := false }
      if c.throws then (s, [])
      else
        let r := handleConnect { s with _socket := true } c.ec
        (r.1, .open_socket :: r.2)

def connect (s : TcpSession) (c : ConnectCalls) : TcpSession × List Effect := s.onConnect c

def reconnect (s : TcpSession) (c : ConnectCalls) : TcpSession × List Effect := s.onConnect c

def onReconnect (s : TcpSession) (c : ConnectCalls) : TcpSession × List Effect := s.onConnect c

/-- `throws` says that `shutdown` throws, before the socket is closed -/
def stop (s : TcpSession) (throws : Bool) : TcpSession :=
  { s with
    _reconnectInterval := 0
    _socket := s._socket && throws
    _writing := false
    _reading := false }

end TcpSession

end JMEngine.Net
