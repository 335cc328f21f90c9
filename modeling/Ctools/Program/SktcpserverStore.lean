import Ctools.Library.CircularList
import Ctools.Program.Sktcpserver

/-!
# The records of the TCP server in memory

The server of `Program.Sktcpserver` once more, with its client list as the source has
it: records at addresses, linked through their `node`s to `client_list`.  Every access to
a field of a record asks first whether `malloc` has given the record and `free` has not
taken it back, and fails with `StoreFault.removed` if not; a walk of the list reads the
links of the records it passes.  `client->server` points to the server in all records, so
reading it is an access and no more.
-/

set_option autoImplicit false

namespace Ctools.Program

open Ctools.Library

/-- A `struct list_head` of the server: `client_list`, or the `node` of a record.
SOURCE: sktcpserver.h:32, sktcpserver.h:37 -/
inductive ClientNode where
  | clientList
  | node (client : ℕ)
deriving DecidableEq

/-- Why an access fails: its record is not allocated, its pointer is to no
`struct list_head`, or the walk it belongs to does not end. -/
inductive StoreFault where
  | removed (client : ℕ)
  | wild
  | endless
deriving DecidableEq

/-- The fields of a record other than `node` and `server`.
SOURCE: sktcpserver.h:36-42 -/
structure ClientFields where
  channelFd : ℤ
  priData : ℕ
deriving DecidableEq

/-- `sktcpserver_t` with the memory of the records: the links of all nodes, the fields,
which records are allocated, and whose `recv_watcher` is active; `listening` says whether
`listen_watcher` is. -/
structure ServerStore where
  cfg : ServerConfig
  listenFd : ℤ
  rxbuffer : Bool
  listening : Bool
  links : Links ClientNode
  fields : ℕ → ClientFields
  allocated : Finset ℕ
  watchers : Finset ℕ

namespace ServerStore

/-! ## Accesses -/

/-- Read a record. -/
def read (m : ServerStore) (client : ℕ) : Except StoreFault ClientFields :=
  if client ∈ m.allocated then .ok (m.fields client) else .error (.removed client)

/-- Write a record. -/
def write (m : ServerStore) (client : ℕ) (f : ClientFields → ClientFields) :
    Except StoreFault ServerStore := do
  let ctx ← m.read client
  pure { m with fields := Function.update m.fields client (f ctx) }

/-- Access a `struct list_head`. -/
def reach (m : ServerStore) : ClientNode → Except StoreFault Unit
  | .clientList => pure ()
  | .node client => do
      let _ ← m.read client
      pure ()

/-- A pointer that is to be a `struct list_head *`. -/
def follow : Option ClientNode → Except StoreFault ClientNode
  | some a => .ok a
  | none => .error .wild

/-- `a->next`. -/
def nextOf (m : ServerStore) (a : ClientNode) : Except StoreFault ClientNode := do
  m.reach a
  follow (m.links.next a)

/-- `list_add`.
SOURCE: linux_list.h:103-127 -/
def listAdd (m : ServerStore) (new head : ClientNode) : Except StoreFault ServerStore := do
  let next ← m.nextOf head
  m.reach next
  m.reach new
  m.reach head
  pure { m with links := m.links.insert new head next }

/-- `list_del`; the links it leaves in the entry point to no `struct list_head`.
SOURCE: linux_list.h:148-169 -/
def listDel (m : ServerStore) (entry : ClientNode) : Except StoreFault ServerStore := do
  m.reach entry
  let prev ← follow (m.links.prev entry)
  let next ← follow (m.links.next entry)
  m.reach next
  m.reach prev
  m.reach entry
  pure { m with links := (m.links.remove prev next).clear entry }

/-- `uev_io_init` of a record's `recv_watcher`. -/
def uevIoInit (m : ServerStore) (client : ℕ) : Except StoreFault ServerStore := do
  let _ ← m.read client
  pure { m with watchers := insert client m.watchers }

/-- `uev_io_stop` of a record's `recv_watcher`. -/
def uevIoStop (m : ServerStore) (client : ℕ) : Except StoreFault ServerStore := do
  let _ ← m.read client
  pure { m with watchers := m.watchers.erase client }

/-! ## The functions of the server -/

/-- The connection of a client is closed.
SOURCE: sktcpserver.c:48-52 -/
def closeChannel (m : ServerStore) (client : ℕ) :
    Except StoreFault (List ServerEvent × ServerStore) := do
  let ctx ← m.read client
  if ctx.channelFd ≥ 0 then
    let m ← m.write client fun c => { c with channelFd := -1 }
    pure ([.close ctx.channelFd], m)
  else pure ([], m)

/-- `client_disconnect`.
SOURCE: sktcpserver.c:41-56 -/
def clientDisconnect (m : ServerStore) (client : ℕ) :
    Except StoreFault (List ServerEvent × ServerStore) := do
  let ctx ← m.read client
  let called := if m.cfg.clientDisconnectCb then [.disconnectCb client ctx.priData] else []
  let m ← m.uevIoStop client
  let (closed, m) ← m.closeChannel client
  let m ← m.listDel (.node client)
  let _ ← m.read client
  pure (called ++ closed ++ [.clientLog client true],
    { m with allocated := m.allocated.erase client })

/-- `client_receive_data_handler`.
SOURCE: sktcpserver.c:58-83 -/
def clientReceiveDataHandler (m : ServerStore) (client : ℕ) (recvLen errno : ℤ) (buf : List UInt8) :
    Except StoreFault (List ServerEvent × ServerStore) := do
  let ctx ← m.read client
  let log := .clientLog client true
  if recvLen = 0 then
    let _ ← m.read client
    let (events, m) ← m.clientDisconnect client
    pure (log :: log :: events, m)
  else if recvLen = -1 then
    if errno = EAGAIN then pure ([log], m)
    else
      let _ ← m.read client
      let (events, m) ← m.clientDisconnect client
      pure (log :: log :: events, m)
  else if m.cfg.clientDataRecvCb then
    pure ([log, .recvCb client ctx.priData (buf.take recvLen.toNat)], m)
  else pure ([log], m)

/-- `tcp_conn_handler`.
SOURCE: sktcpserver.c:85-120 -/
def tcpConnHandler (m : ServerStore) (newFd : ℤ) (allocated : Option ℕ) (ret : ℤ) (priData : ℕ) :
    Except StoreFault (List ServerEvent × ServerStore) :=
  if newFd < 0 then pure ([], m)
  else
    match allocated with
    | none => pure ([.accept newFd, .close newFd], m)
    | some client =>
        let m := { m with allocated := insert client m.allocated }
        if m.cfg.clientConnectCb ∧ ret ≠ 0 then
          pure ([.accept newFd, .connectCb client ret priData],
            { m with allocated := m.allocated.erase client })
        else do
          let called := if m.cfg.clientConnectCb then [.connectCb client ret priData] else []
          let priData := if m.cfg.clientConnectCb then priData else 0
          let m ← m.write client fun c => { c with priData := priData }
          let m ← m.write client fun c => { c with channelFd := newFd }
          let m ← m.listAdd (.node client) .clientList
          let m ← m.uevIoInit client
          pure (.accept newFd :: called, m)

/-- The loop of `client_handle_to_ptr`, from the entry `p` on; `fuel` bounds its passes.
SOURCE: sktcpserver.c:216-221, linux_list.h:497-500 -/
def findClient (m : ServerStore) (client : ℕ) : ℕ → ClientNode → Except StoreFault (Option ℕ)
  | 0, _ => .error .endless
  | _ + 1, .clientList => .ok none
  | fuel + 1, .node p =>
      if p = client then .ok (some p)
      else do
        let next ← m.nextOf (.node p)
        m.findClient client fuel next

/-- `client_handle_to_ptr`.
SOURCE: sktcpserver.c:212-222 -/
def clientHandleToPtr (m : ServerStore) (client : ℕ) : Except StoreFault (Option ℕ) := do
  let p ← m.nextOf .clientList
  m.findClient client (m.allocated.card + 1) p

/-- `sktcpserver_client_pri_data_get`.
SOURCE: sktcpserver.c:224-239 -/
def sktcpserverClientPriDataGet (m : ServerStore) (client : ℕ) : Except StoreFault ℕ := do
  match ← m.clientHandleToPtr client with
  | none => pure 0
  | some p =>
      let ctx ← m.read p
      pure ctx.priData

/-- `sktcpserver_send`.
SOURCE: sktcpserver.c:241-282 -/
def sktcpserverSend (m : ServerStore) (client : ℕ) (dat : List UInt8) (selectRet : ℤ)
    (isset : Bool) (sendRet : ℤ) : Except StoreFault (ℤ × List ServerEvent × ServerStore) := do
  match ← m.clientHandleToPtr client with
  | none => pure (dat.length, [], m)
  | some p =>
      let ctx ← m.read p
      let fd := ctx.channelFd
      if selectRet > 0 then
        if isset then
          if sendRet < 0 then
            let (events, m) ← m.clientDisconnect p
            let _ ← m.read p
            pure (dat.length, .send fd dat sendRet :: events ++ [.clientLog p true], m)
          else pure (dat.length, [.send fd dat sendRet], m)
        else pure (dat.length, [], m)
      else
        let (events, m) ← m.clientDisconnect p
        let _ ← m.read p
        pure (dat.length, events ++ [.clientLog p true], m)

/-- The loop of `sktcpserver_fini`, at the entry `p` with its successor `pn`; `fuel` bounds
its passes.
SOURCE: sktcpserver.c:196-199, linux_list.h:576-580 -/
def finiLoop : ℕ → ClientNode → ClientNode → ServerStore →
    Except StoreFault (List ServerEvent × ServerStore)
  | 0, _, _, _ => .error .endless
  | _ + 1, .clientList, _, m => pure ([], m)
  | fuel + 1, .node p, pn, m => do
      let (events, m) ← m.clientDisconnect p
      let next ← m.nextOf pn
      let (more, m) ← finiLoop fuel pn next m
      pure (events ++ more, m)

/-- `sktcpserver_fini`.
SOURCE: sktcpserver.c:192-210 -/
def sktcpserverFini (m : ServerStore) : Except StoreFault (List ServerEvent × ServerStore) := do
  let p ← m.nextOf .clientList
  let pn ← m.nextOf p
  let (events, m) ← finiLoop (m.allocated.card + 1) p pn m
  let closed := if m.listenFd ≥ 0 then [.close m.listenFd] else []
  pure (events ++ closed, { m with listening := false, rxbuffer := false })

/-- What `sktcpserver_init` leaves when all goes well, in a memory that held anything.
SOURCE: sktcpserver.c:172-190, linux_list.h:91-94 -/
def start (memory : Links ClientNode) (fields : ℕ → ClientFields) (cfg : ServerConfig)
    (listenFd : ℤ) :
    ServerStore where
  cfg := cfg
  listenFd := listenFd
  rxbuffer := true
  listening := true
  links := (memory.setNext .clientList (some .clientList)).setPrev .clientList (some .clientList)
  fields := fields
  allocated := ∅
  watchers := ∅

/-- One step. -/
def step (m : ServerStore) : ServerAct → Except StoreFault (ServerObs × ServerStore)
  | .conn newFd allocated ret priData => do
      let (events, m) ← m.tcpConnHandler newFd allocated ret priData
      pure (⟨none, events⟩, m)
  | .receive client recvLen errno buf => do
      let (events, m) ← m.clientReceiveDataHandler client recvLen errno buf
      pure (⟨none, events⟩, m)
  | .send client dat selectRet isset sendRet => do
      let (ret, events, m) ← m.sktcpserverSend client dat selectRet isset sendRet
      pure (⟨some ret, events⟩, m)
  | .priDataGet client => do
      let priData ← m.sktcpserverClientPriDataGet client
      pure (⟨some priData, []⟩, m)
  | .fini => do
      let (events, m) ← m.sktcpserverFini
      pure (⟨some 0, events⟩, m)

/-- What the environment keeps to: a handler runs only while its watcher is active, and
`malloc` returns a record that is not allocated. -/
def allows (m : ServerStore) : ServerAct → Prop
  | .conn _ allocated _ _ => m.listening = true ∧ ∀ client ∈ allocated, client ∉ m.allocated
  | .receive client _ _ _ => client ∈ m.watchers
  | _ => True

instance (m : ServerStore) : ∀ act, Decidable (m.allows act)
  | .conn _ _ _ _ => inferInstanceAs (Decidable (_ ∧ _))
  | .receive _ _ _ _ => inferInstanceAs (Decidable (_ ∈ _))
  | .send _ _ _ _ _ | .priDataGet _ | .fini => inferInstanceAs (Decidable True)

end ServerStore

/-- The server and its records under any sequence of steps. -/
def storeMachine : Machine ServerStore ServerAct ServerObs := ⟨fun m act => (m.step act).toOption⟩

end Ctools.Program
