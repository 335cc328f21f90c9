import Ctools.Library.Machine
import Ctools.Library.Descriptors
import Ctools.Program.Errno

/-!
# The TCP server of `sktcpserver.c`

`Server` is `sktcpserver_t`, and `Client` is `struct sktcpserver_client_ctx` with its
address, which is the handle the user knows it by.  A record is in `client_list`
from `list_add` to `list_del`, right before it is freed.

What the system calls, `malloc` and the connect callback answer are inputs.  What a
step does to the outside is the list of its `ServerEvent`s, in order; callbacks are
called only where they are set.  `shutdown` comes before each `close` and is not
recorded, nor are the log lines that read no record.  Steps are serialised and the
callbacks do not call the server back, so each entry point is one step.
-/

set_option autoImplicit false

namespace Ctools.Program

open Ctools.Library

/-- The callbacks of `struct sktcpserver_config` that are set.
SOURCE: sktcpserver.h:17-25 -/
structure ServerConfig where
  clientConnectCb : Bool
  clientDisconnectCb : Bool
  clientDataRecvCb : Bool
deriving DecidableEq

/-- `struct sktcpserver_client_ctx`, at the address `handle`.
SOURCE: sktcpserver.h:36-42 -/
structure Client where
  handle : ℕ
  channelFd : ℤ
  priData : ℕ
deriving DecidableEq

/-- `sktcpserver_t`; `rxbuffer` says whether the buffer is allocated.
SOURCE: sktcpserver.h:27-34 -/
structure Server where
  cfg : ServerConfig
  listenFd : ℤ
  clientList : List Client
  rxbuffer : Bool
deriving DecidableEq

/-- What a step does to the outside: descriptors that `accept` returned and that are
closed, callbacks, bytes passed to `send` with its answer, and log lines that read a
client's record, with whether it is still allocated. -/
inductive ServerEvent where
  | accept (fd : ℤ)
  | close (fd : ℤ)
  | connectCb (client : ℕ) (ret : ℤ) (priData : ℕ)
  | recvCb (client : ℕ) (priData : ℕ) (dat : List UInt8)
  | disconnectCb (client : ℕ) (priData : ℕ)
  | send (fd : ℤ) (dat : List UInt8) (ret : ℤ)
  | clientLog (client : ℕ) (allocated : Bool)
deriving DecidableEq

/-- `client_disconnect`.
SOURCE: sktcpserver.c:41-56 -/
def clientDisconnect (tcp : Server) (client : Client) : List ServerEvent × Server :=
  let called :=
    if tcp.cfg.clientDisconnectCb then [.disconnectCb client.handle client.priData] else []
  let closed := if client.channelFd ≥ 0 then [.close client.channelFd] else []
  (called ++ closed ++ [.clientLog client.handle true],
    { tcp with clientList := tcp.clientList.eraseP fun c => c.handle = client.handle })

/-- `client_receive_data_handler`; `recv` answered `recvLen` and `errno`, and left
`buf` in the buffer.
SOURCE: sktcpserver.c:58-83 -/
def clientReceiveDataHandler (tcp : Server) (client : Client) (recvLen errno : ℤ)
    (buf : List UInt8) : List ServerEvent × Server :=
  let log := .clientLog client.handle true
  if recvLen = 0 then
    let (events, tcp) := clientDisconnect tcp client
    (log :: log :: events, tcp)
  else if recvLen = -1 then
    if errno = EAGAIN then ([log], tcp)
    else
      let (events, tcp) := clientDisconnect tcp client
      (log :: log :: events, tcp)
  else if tcp.cfg.clientDataRecvCb then
    ([log, .recvCb client.handle client.priData (buf.take recvLen.toNat)], tcp)
  else ([log], tcp)

/-- `tcp_conn_handler`; `accept` answered `newFd`, `malloc` answered `allocated`, and
the connect callback, where it is called, returned `ret` and left `priData`.
SOURCE: sktcpserver.c:85-120 -/
def tcpConnHandler (tcp : Server) (newFd : ℤ) (allocated : Option ℕ) (ret : ℤ) (priData : ℕ) :
    List ServerEvent × Server :=
  if newFd < 0 then ([], tcp)
  else
    match allocated with
    | none => ([.accept newFd, .close newFd], tcp)
    | some client =>
        if tcp.cfg.clientConnectCb ∧ ret ≠ 0 then
          ([.accept newFd, .connectCb client ret priData], tcp)
        else
          let called := if tcp.cfg.clientConnectCb then [.connectCb client ret priData] else []
          let priData := if tcp.cfg.clientConnectCb then priData else 0
          (.accept newFd :: called,
            { tcp with clientList := ⟨client, newFd, priData⟩ :: tcp.clientList })

/-- `sktcpserver_init`; `malloc` returned the buffer or not, and `tcp_listen` returned
`listenFd`.
SOURCE: sktcpserver.c:172-190 -/
def sktcpserverInit (cfg : ServerConfig) (allocated : Bool) (listenFd : ℤ) : ℤ × Server :=
  let tcp : Server := { cfg := cfg, listenFd := listenFd, clientList := [], rxbuffer := allocated }
  if allocated = false then (-1, tcp)
  else if listenFd < 0 then (-1, tcp)
  else (0, tcp)

/-- The loop of `sktcpserver_fini`: each client's successor is read before the client
is removed.
SOURCE: sktcpserver.c:196-199 -/
def finiLoop (tcp : Server) : List Client → List ServerEvent × Server
  | [] => ([], tcp)
  | p :: rest =>
      let (events, tcp) := clientDisconnect tcp p
      let (more, tcp) := finiLoop tcp rest
      (events ++ more, tcp)

/-- `sktcpserver_fini`.
SOURCE: sktcpserver.c:192-210 -/
def sktcpserverFini (tcp : Server) : List ServerEvent × Server :=
  let (events, tcp) := finiLoop tcp tcp.clientList
  let closed := if tcp.listenFd ≥ 0 then [.close tcp.listenFd] else []
  (events ++ closed, { tcp with rxbuffer := false })

/-- `client_handle_to_ptr`.
SOURCE: sktcpserver.c:212-222 -/
def clientHandleToPtr (tcp : Server) (client : ℕ) : Option Client :=
  tcp.clientList.find? fun p => p.handle = client

/-- `sktcpserver_client_pri_data_get`.
SOURCE: sktcpserver.c:224-239 -/
def sktcpserverClientPriDataGet (tcp : Server) (client : ℕ) : ℕ :=
  match clientHandleToPtr tcp client with
  | none => 0
  | some p => p.priData

/-- `sktcpserver_send`; `select` answered `selectRet` and, by `isset`, whether the
descriptor is ready, and `send` answered `sendRet`.  `FD_SET` and `FD_ISSET` need a
descriptor below `FD_SETSIZE`; those `accept` returned are taken to be.  The log line
after `client_disconnect` reads the record it freed.
SOURCE: sktcpserver.c:241-282 -/
def sktcpserverSend (tcp : Server) (client : ℕ) (dat : List UInt8) (selectRet : ℤ) (isset : Bool)
    (sendRet : ℤ) : ℤ × List ServerEvent × Server :=
  match clientHandleToPtr tcp client with
  | none => (dat.length, [], tcp)
  | some p =>
      if selectRet > 0 then
        if isset then
          if sendRet < 0 then
            let (events, tcp) := clientDisconnect tcp p
            (dat.length, .send p.channelFd dat sendRet :: events ++ [.clientLog p.handle false],
             tcp)
          else (dat.length, [.send p.channelFd dat sendRet], tcp)
        else (dat.length, [], tcp)
      else
        let (events, tcp) := clientDisconnect tcp p
        (dat.length, events ++ [.clientLog p.handle false], tcp)

/-! ## Sequences of steps -/

/-- An event on the listening descriptor or on a client's, or a call of the user. -/
inductive ServerAct where
  | conn (newFd : ℤ) (allocated : Option ℕ) (ret : ℤ) (priData : ℕ)
  | receive (client : ℕ) (recvLen errno : ℤ) (buf : List UInt8)
  | send (client : ℕ) (dat : List UInt8) (selectRet : ℤ) (isset : Bool) (sendRet : ℤ)
  | priDataGet (client : ℕ)
  | fini
deriving DecidableEq

/-- The server, and the system's table of its open descriptors. -/
structure ServerWorld where
  tcp : Server
  fds : List ℤ
deriving DecidableEq

/-- What a step returns, if it is a call that returns something, and what it does. -/
structure ServerObs where
  ret : Option ℤ
  events : List ServerEvent
deriving DecidableEq

/-- The calls among some events that open or close a descriptor. -/
def fdCalls (events : List ServerEvent) : List FdCall :=
  events.flatMap fun e =>
    match e with
    | .accept fd => [.opens fd]
    | .close fd => [.closes fd]
    | _ => []

/-- A step is over: the system has done what it was asked to. -/
def ServerWorld.done (s : ServerWorld) (ret : Option ℤ) (moved : List ServerEvent × Server) :
    ServerObs × ServerWorld :=
  (⟨ret, moved.1⟩, ⟨moved.2, fdsAfter s.fds (fdCalls moved.1)⟩)

/-- One step.  Only a client in the list has a watcher that may fire.
SOURCE: sktcpserver.c:58-282 -/
def serverStep (s : ServerWorld) : ServerAct → Option (ServerObs × ServerWorld)
  | .conn newFd allocated ret priData =>
      some (s.done none (tcpConnHandler s.tcp newFd allocated ret priData))
  | .receive client recvLen errno buf => do
      let p ← clientHandleToPtr s.tcp client
      pure (s.done none (clientReceiveDataHandler s.tcp p recvLen errno buf))
  | .send client dat selectRet isset sendRet =>
      let (ret, moved) := sktcpserverSend s.tcp client dat selectRet isset sendRet
      some (s.done (some ret) moved)
  | .priDataGet client =>
      some (s.done (some (sktcpserverClientPriDataGet s.tcp client)) ([], s.tcp))
  | .fini => some (s.done (some 0) (sktcpserverFini s.tcp))

/-- A server under any sequence of steps. -/
def serverMachine : Machine ServerWorld ServerAct ServerObs := ⟨serverStep⟩

/-- What `accept` may return, in a world: `anyFd`, or a `freshFd`, one that is not open. -/
def anyFd (_ : ServerWorld) (_ : ℤ) : Prop := True

/-- A descriptor that is not open. -/
def freshFd (s : ServerWorld) (fd : ℤ) : Prop := fd ∉ s.fds

/-- What the environment keeps to: the server is in use until `sktcpserver_fini`,
`accept` returns what it may, and `malloc` no record that is in the list. -/
def serverGuard (accepts : ServerWorld → ℤ → Prop) (s : ServerWorld) (act : ServerAct) : Prop :=
  s.tcp.rxbuffer = true ∧ match act with
    | .conn newFd allocated _ _ => accepts s newFd ∧
        ∀ client ∈ allocated, clientHandleToPtr s.tcp client = none
    | _ => True

instance (s : ServerWorld) (fd : ℤ) : Decidable (anyFd s fd) := inferInstanceAs (Decidable True)

instance (s : ServerWorld) (fd : ℤ) : Decidable (freshFd s fd) :=
  inferInstanceAs (Decidable (fd ∉ s.fds))

instance (accepts : ServerWorld → ℤ → Prop) [∀ s fd, Decidable (accepts s fd)] (s : ServerWorld) :
    ∀ act, Decidable (serverGuard accepts s act)
  | .conn _ _ _ _ => inferInstanceAs (Decidable (_ ∧ _ ∧ _))
  | .receive _ _ _ _ | .send _ _ _ _ _ | .priDataGet _ | .fini =>
      inferInstanceAs (Decidable (_ ∧ True))

end Ctools.Program
