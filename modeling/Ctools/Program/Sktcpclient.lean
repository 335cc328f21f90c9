import Ctools.Library.Machine
import Ctools.Library.Descriptors
import Ctools.Program.Errno

/-!
# The TCP client of `sktcpclient.c`

`TcpClient` is `sktcpclient_t`.  What the system calls and `uev_io_init` answer are
inputs, and what a step does to the outside is the list of its `ClientEvent`s, in
order.  The address, the flags read by `fcntl` and `shutdown`, which comes before each
`close`, are not recorded.  The lock serialises the calls, so each is one step, and so
is the read handler with the `sktcpclient_disconnect` it calls.
-/

set_option autoImplicit false

namespace Ctools.Program

open Ctools.Library

/-- `enum sktcpclient_state`.
SOURCE: sktcpclient.h:25-28 -/
inductive SktcpclientState where
  | disconnected
  | connected
deriving DecidableEq

/-- `struct sktcpclient_config`; `ctx` and `recvCb` say whether the pointer is set.
SOURCE: sktcpclient.h:19-23 -/
structure TcpClientConfig where
  ctx : Bool
  bufferSize : ℤ
  recvCb : Bool
deriving DecidableEq

/-- `struct sktcpclient`; `rxbuffer` says whether the buffer is allocated.
SOURCE: sktcpclient.h:30-37 -/
structure TcpClient where
  cfg : TcpClientConfig
  fd : ℤ
  rxbuffer : Bool
  state : SktcpclientState
deriving DecidableEq

/-- What a step does to the outside: sockets that are opened and closed, the watcher
that is set on a descriptor and stopped, bytes passed to `write` with its answer, and
bytes passed to `recv_cb`. -/
inductive ClientEvent where
  | socket (fd : ℤ)
  | close (fd : ℤ)
  | ioInit (fd : ℤ) (ret : ℤ)
  | ioStop
  | write (fd : ℤ) (dat : List UInt8) (ret : ℤ)
  | recvCb (dat : List UInt8)
deriving DecidableEq

/-- What the calls inside `sktcpclient_connect` answer, should they be made. -/
structure ConnectAnswers where
  socket : ℤ
  connect : ℤ
  fcntl : ℤ
  ioInit : ℤ
deriving DecidableEq

/-- `sktcpclient_init`; `malloc` returned the buffer or not.
SOURCE: sktcpclient.c:27-44 -/
def sktcpclientInit (tcp : TcpClient) (cfg : Option TcpClientConfig) (allocated : Bool) :
    ℤ × TcpClient :=
  match cfg with
  | none => (-EINVAL, tcp)
  | some cfg =>
      if cfg.bufferSize = 0 ∨ cfg.ctx = false then (-EINVAL, tcp)
      else
        let tcp : TcpClient :=
          { cfg := cfg, fd := 0, rxbuffer := allocated, state := .disconnected }
        if allocated = false then (-ENOMEM, tcp) else (0, tcp)

/-- `create_noblock_socket_fd`.
SOURCE: sktcpclient.c:54-83 -/
def createNoblockSocketFd (answers : ConnectAnswers) : ℤ × List ClientEvent :=
  if answers.socket = -1 then (-1, [])
  else if answers.connect ≠ 0 then (answers.connect, [.socket answers.socket])
  else if answers.fcntl ≠ 0 then (answers.fcntl, [.socket answers.socket])
  else (answers.socket, [.socket answers.socket])

/-- `sktcpclient_connect`.
SOURCE: sktcpclient.c:107-133 -/
def sktcpclientConnect (tcp : TcpClient) (answers : ConnectAnswers) :
    ℤ × List ClientEvent × TcpClient :=
  let (fd, events) := createNoblockSocketFd answers
  if fd < 0 then (-1, events, tcp)
  else
    let events := events ++ [.ioInit fd answers.ioInit]
    if answers.ioInit ≠ 0 then (-1, events, tcp)
    else (0, events, { tcp with fd := fd, state := .connected })

/-- `sktcpclient_disconnect`.
SOURCE: sktcpclient.c:135-152 -/
def sktcpclientDisconnect (tcp : TcpClient) : ℤ × List ClientEvent × TcpClient :=
  match tcp.state with
  | .connected => (0, [.ioStop, .close tcp.fd], { tcp with state := .disconnected })
  | .disconnected => (-1, [], tcp)

/-- `sktcpclient_send`; `write` answered `ret`.
SOURCE: sktcpclient.c:154-168 -/
def sktcpclientSend (tcp : TcpClient) (dat : List UInt8) (ret : ℤ) : ℤ × List ClientEvent :=
  match tcp.state with
  | .connected => (ret, [.write tcp.fd dat ret])
  | .disconnected => (-1, [])

/-- `fd_read_event_handler`; `read` answered `n` and `errno`, and left `buf` in the
buffer.
SOURCE: sktcpclient.c:85-105 -/
def fdReadEventHandler (tcp : TcpClient) (n errno : ℤ) (buf : List UInt8) :
    List ClientEvent × TcpClient :=
  if n = 0 then (sktcpclientDisconnect tcp).2
  else if n = -1 then
    if errno = EAGAIN then ([], tcp) else (sktcpclientDisconnect tcp).2
  else if tcp.cfg.recvCb then ([.recvCb (buf.take n.toNat)], tcp)
  else ([], tcp)

/-- `sktcpclient_fini`.
SOURCE: sktcpclient.c:46-52 -/
def sktcpclientFini (tcp : TcpClient) : ℤ × List ClientEvent × TcpClient :=
  match tcp.state with
  | .connected => (0, (sktcpclientDisconnect tcp).2)
  | .disconnected => (0, [], tcp)

/-! ## Sequences of steps -/

/-- A call of the user, or an event on the descriptor. -/
inductive TcpClientAct where
  | connect (answers : ConnectAnswers)
  | disconnect
  | send (dat : List UInt8) (ret : ℤ)
  | readable (n errno : ℤ) (buf : List UInt8)
  | fini
deriving DecidableEq

/-- The client, and the sockets it has opened and not closed. -/
structure TcpClientWorld where
  tcp : TcpClient
  fds : List ℤ
deriving DecidableEq

/-- What a step returns, if it is a call, and what it does. -/
structure TcpClientObs where
  ret : Option ℤ
  events : List ClientEvent
deriving DecidableEq

/-- The calls among some events that open or close a socket. -/
def socketCalls (events : List ClientEvent) : List FdCall :=
  events.flatMap fun e =>
    match e with
    | .socket fd => [.opens fd]
    | .close fd => [.closes fd]
    | _ => []

/-- A step is over: the system has done what it was asked to. -/
def TcpClientWorld.done (s : TcpClientWorld) (ret : Option ℤ)
    (moved : List ClientEvent × TcpClient) :
    TcpClientObs × TcpClientWorld :=
  (⟨ret, moved.1⟩, ⟨moved.2, fdsAfter s.fds (socketCalls moved.1)⟩)

/-- One step.
SOURCE: sktcpclient.c:46-168 -/
def tcpClientStep (s : TcpClientWorld) : TcpClientAct → Option (TcpClientObs × TcpClientWorld)
  | .connect answers =>
      let (ret, moved) := sktcpclientConnect s.tcp answers
      some (s.done (some ret) moved)
  | .disconnect =>
      let (ret, moved) := sktcpclientDisconnect s.tcp
      some (s.done (some ret) moved)
  | .send dat writeRet =>
      let (ret, events) := sktcpclientSend s.tcp dat writeRet
      some (s.done (some ret) (events, s.tcp))
  | .readable n errno buf => some (s.done none (fdReadEventHandler s.tcp n errno buf))
  | .fini =>
      let (ret, moved) := sktcpclientFini s.tcp
      some (s.done (some ret) moved)

/-- A client under any sequence of steps. -/
def tcpClientMachine : Machine TcpClientWorld TcpClientAct TcpClientObs := ⟨tcpClientStep⟩

/-- The calls made inside `sktcpclient_connect` succeed: `socket` returns a descriptor
that is not open, the others return 0. -/
def connectSucceeds (s : TcpClientWorld) : TcpClientAct → Prop
  | .connect answers => (0 ≤ answers.socket ∧ answers.socket ∉ s.fds) ∧ answers.connect = 0 ∧
      answers.fcntl = 0 ∧ answers.ioInit = 0
  | _ => True

instance (s : TcpClientWorld) : ∀ act, Decidable (connectSucceeds s act)
  | .connect _ => inferInstanceAs (Decidable ((_ ∧ _) ∧ _ ∧ _ ∧ _))
  | .disconnect | .send _ _ | .readable _ _ _ | .fini => inferInstanceAs (Decidable True)

end Ctools.Program
