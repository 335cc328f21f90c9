import Ctools.Analysis.SktcpserverDescriptors
import Ctools.Program.SktcpserverStore

/-!
# No access to a record that has been removed

The server with its records in memory does what the server of `Program.Sktcpserver` does
(`InMemory`, one lemma for each function): between two steps the allocated records, those
with an active watcher and those on the ring of `client_list` are the clients of the list,
and every access of a step finds its record allocated.  The exceptions are the two log
lines of `sktcpserver_send` that stand behind `client_disconnect`.
-/

set_option autoImplicit false

namespace Ctools.Analysis

open Ctools.Library Ctools.Program

/-- The nodes of the clients. -/
def nodesOf (clients : List Client) : List ClientNode := clients.map fun p => .node p.handle

/-- The memory holds the server. -/
structure InMemory (m : ServerStore) (tcp : Server) : Prop where
  cfg_eq : m.cfg = tcp.cfg
  listenFd_eq : m.listenFd = tcp.listenFd
  rxbuffer_eq : m.rxbuffer = tcp.rxbuffer
  ring : m.links.Circular .clientList (nodesOf tcp.clientList)
  fields : ∀ p ∈ tcp.clientList, m.fields p.handle = ⟨p.channelFd, p.priData⟩
  allocated : ∀ client, client ∈ m.allocated ↔ client ∈ tcp.clientList.map Client.handle
  watchers : ∀ client, client ∈ m.watchers ↔ client ∈ tcp.clientList.map Client.handle

variable {m : ServerStore} {tcp : Server} {client : ℕ}

/-! ## Accesses -/

/-- A record that is there is read. -/
theorem read_eq (hlive : client ∈ m.allocated) : m.read client = pure (m.fields client) :=
  if_pos hlive

/-- A record that was released is not. -/
theorem read_removed (hfreed : client ∉ m.allocated) : m.read client = .error (.removed client) :=
  if_neg hfreed

/-- A record that is there is written. -/
theorem write_eq (hlive : client ∈ m.allocated) (f : ClientFields → ClientFields) :
    m.write client f =
      pure { m with fields := Function.update m.fields client (f (m.fields client)) } := by
  rw [ServerStore.write, read_eq hlive, pure_bind]

/-- Two writes of the same record. -/
theorem write_write {α : Type} (hlive : client ∈ m.allocated) (f g : ClientFields → ClientFields)
    (k : ServerStore → Except StoreFault α) :
    (do
      let m ← m.write client f
      let m ← m.write client g
      k m) =
    k { m with fields := Function.update m.fields client (g (f (m.fields client))) } := by
  have hstill :
      client ∈ ({ m with fields := Function.update m.fields client (f (m.fields client)) } :
      ServerStore).allocated := hlive
  rw [write_eq hlive, pure_bind, write_eq hstill, pure_bind]
  simp only [Function.update_self, Function.update_idem]

/-- The node of a record that is there is reached. -/
theorem reach_eq (hlive : client ∈ m.allocated) : m.reach (.node client) = pure () := by
  rw [ServerStore.reach, read_eq hlive, pure_bind]

/-- A pointer that is not `NULL` is followed. -/
theorem follow_some (a : ClientNode) : ServerStore.follow (some a) = pure a := rfl

/-- All nodes but `client_list` are of allocated records. -/
def Live (m : ServerStore) (nodes : List ClientNode) : Prop :=
  ∀ client, .node client ∈ nodes → client ∈ m.allocated

/-- All nodes of the list are reached. -/
theorem Live.reach {nodes : List ClientNode} (hlive : Live m nodes) {a : ClientNode}
    (ha : a ∈ .clientList :: nodes) : m.reach a = pure () := by
  cases a with
  | clientList => rfl
  | node client =>
    have hmem : .node client ∈ nodes := by simpa using ha
    exact reach_eq (hlive client hmem)

/-- `a->next` of a node of the list. -/
theorem Live.nextOf {nodes : List ClientNode} (hlive : Live m nodes) {a next : ClientNode}
    (ha : a ∈ .clientList :: nodes) (hnext : m.links.next a = some next) :
    m.nextOf a = pure next := by
  rw [ServerStore.nextOf, hlive.reach ha, pure_bind, hnext, follow_some]

/-- A new record is put on the list.
SOURCE: linux_list.h:103-127 -/
theorem listAdd_eq {nodes : List ClientNode} (hring : m.links.Circular .clientList nodes)
    (hlive : Live m nodes) (hnew : client ∈ m.allocated) :
    m.listAdd (.node client) .clientList =
      pure { m with
        links := m.links.insert (.node client) .clientList (nodes.headD .clientList) } := by
  have hfirst : nodes.headD .clientList ∈ .clientList :: nodes := by
    cases nodes with
    | nil => exact List.mem_singleton_self _
    | cons first rest => exact List.mem_cons_of_mem _ List.mem_cons_self
  rw [ServerStore.listAdd, hlive.nextOf List.mem_cons_self hring.next_head, pure_bind,
    hlive.reach hfirst, pure_bind, reach_eq hnew]
  rfl

/-- A record is taken off the list.
SOURCE: linux_list.h:148-169 -/
theorem listDel_eq {before after : List ClientNode}
    (hring : m.links.Circular .clientList (before ++ .node client :: after))
    (hlive : Live m (before ++ .node client :: after)) :
    ∃ links : Links ClientNode, m.listDel (.node client) = pure { m with links := links } ∧
      links.Circular .clientList (before ++ after) := by
  obtain ⟨prev, hprev, hprevOf, hnextOf, hremoved⟩ := hring.remove
  have hoff : ClientNode.node client ∉ .clientList :: (before ++ after) := by
    have hperm : (ClientNode.clientList :: (before ++ .node client :: after)).Perm
        (.node client :: .clientList :: (before ++ after)) :=
      (List.perm_middle.cons _).trans (List.Perm.swap _ _ _)
    exact (List.nodup_cons.mp (hperm.nodup_iff.mp hring.distinct)).1
  have hself : m.reach (.node client) = pure () := hlive.reach (by simp)
  have hnextReach : m.reach (after.headD .clientList) = pure () := by
    refine hlive.reach ?_
    cases after <;> simp
  have hprevReach : m.reach prev = pure () := by
    refine hlive.reach ?_
    rcases List.mem_cons.mp hprev with rfl | hmem
    · exact List.mem_cons_self
    · simp [hmem]
  refine ⟨_, ?_, hremoved.clear hoff⟩
  simp only [ServerStore.listDel, hself, hprevOf, hnextOf, follow_some, hnextReach, hprevReach,
    pure_bind]

/-- SOURCE: sktcpserver.c:48-52 -/
theorem closeChannel_eq (hself : client ∈ m.allocated) :
    ∃ fields : ℕ → ClientFields, m.closeChannel client = pure
        (if (m.fields client).channelFd ≥ 0 then [.close (m.fields client).channelFd] else [],
          { m with fields := fields }) ∧
      ∀ other ≠ client, fields other = m.fields other := by
  simp only [ServerStore.closeChannel, read_eq hself, write_eq hself, pure_bind]
  by_cases hopen : (m.fields client).channelFd ≥ 0
  · simp only [if_pos hopen]
    exact ⟨_, rfl, fun other hne => Function.update_of_ne hne _ _⟩
  · simp only [if_neg hopen]
    exact ⟨m.fields, rfl, fun _ _ => rfl⟩

/-- `client_disconnect` of a record that is on the list: all its accesses are to allocated
records, and it changes no other record's fields.
SOURCE: sktcpserver.c:41-56 -/
theorem clientDisconnect_eq {before after : List ClientNode}
    (hring : m.links.Circular .clientList (before ++ .node client :: after))
    (hlive : Live m (before ++ .node client :: after)) :
    ∃ (links : Links ClientNode) (fields : ℕ → ClientFields),
      m.clientDisconnect client = pure
        ((if m.cfg.clientDisconnectCb then
            [.disconnectCb client (m.fields client).priData] else []) ++
          (if (m.fields client).channelFd ≥ 0 then [.close (m.fields client).channelFd] else []) ++
          [.clientLog client true],
        { m with
          links := links, fields := fields, allocated := m.allocated.erase client,
          watchers := m.watchers.erase client }) ∧
      links.Circular .clientList (before ++ after) ∧
      ∀ other ≠ client, fields other = m.fields other := by
  have hself : client ∈ m.allocated := hlive client (by simp)
  let stopped : ServerStore := { m with watchers := m.watchers.erase client }
  obtain ⟨fields, hclose, hothers⟩ := closeChannel_eq (m := stopped) hself
  obtain ⟨links, hdel, hrest⟩ := listDel_eq (m := { stopped with fields := fields }) hring hlive
  have hlog : { stopped with links := links, fields := fields }.read client =
      pure (fields client) :=
    read_eq hself
  refine ⟨links, fields, ?_, hrest, hothers⟩
  simp only [ServerStore.clientDisconnect, ServerStore.uevIoStop, read_eq hself, pure_bind]
  show (stopped.closeChannel client >>= fun closed => _) = _
  rw [hclose, pure_bind]
  show (ServerStore.listDel { stopped with fields := fields } (.node client) >>= fun m => _) = _
  rw [hdel, pure_bind, hlog, pure_bind]

/-! ## The functions of the server -/

/-- All clients of the list have a record. -/
theorem InMemory.live (hm : InMemory m tcp) : Live m (nodesOf tcp.clientList) := by
  intro client hmem
  obtain ⟨p, hp, hnode⟩ := List.mem_map.mp hmem
  obtain rfl := ClientNode.node.inj hnode
  exact (hm.allocated p.handle).mpr (List.mem_map_of_mem hp)

/-- No two records of the list have the same address. -/
theorem InMemory.distinct (hm : InMemory m tcp) : (tcp.clientList.map Client.handle).Nodup := by
  have hnodes := (List.nodup_cons.mp hm.ring.distinct).2
  rw [nodesOf, ← Function.comp_def, ← List.map_map] at hnodes
  exact hnodes.of_map

/-- The record of a client has its fields. -/
theorem InMemory.read (hm : InMemory m tcp) {p : Client} (hp : p ∈ tcp.clientList) :
    m.read p.handle = pure ⟨p.channelFd, p.priData⟩ := by
  rw [read_eq ((hm.allocated p.handle).mpr (List.mem_map_of_mem hp)), hm.fields p hp]

/-- The first record, or the head if there is none. -/
def entryOf (clients : List Client) : ClientNode := (nodesOf clients).headD .clientList

/-- The list begins with its first client. -/
theorem InMemory.first (hm : InMemory m tcp) :
    m.nextOf .clientList = pure (entryOf tcp.clientList) :=
  hm.live.nextOf List.mem_cons_self hm.ring.next_head

/-- A client is followed by the next one. -/
theorem InMemory.next (hm : InMemory m tcp) {before after : List Client} {p : Client}
    (hlist : tcp.clientList = before ++ p :: after) :
    m.nextOf (.node p.handle) = pure (entryOf after) := by
  have hring := hm.ring
  have hlive := hm.live
  rw [hlist, nodesOf, List.map_append, List.map_cons] at hring hlive
  exact hlive.nextOf (by simp) hring.next_node

/-- The walk of the list, from a record on.
SOURCE: sktcpserver.c:216-221 -/
theorem InMemory.findClient (hm : InMemory m tcp) (client : ℕ) {before after : List Client}
    (hlist : tcp.clientList = before ++ after) {fuel : ℕ} (hfuel : after.length < fuel) :
    m.findClient client fuel (entryOf after) =
      pure ((after.find? fun p => p.handle = client).map Client.handle) := by
  induction after generalizing before fuel with
  | nil =>
    obtain ⟨fuel, rfl⟩ := Nat.exists_eq_succ_of_ne_zero (Nat.ne_of_gt hfuel)
    rfl
  | cons p after ih =>
    obtain ⟨fuel, rfl⟩ := Nat.exists_eq_succ_of_ne_zero (Nat.ne_of_gt (Nat.zero_lt_of_lt hfuel))
    show m.findClient client (fuel + 1) (.node p.handle) = _
    rw [ServerStore.findClient]
    by_cases hp : p.handle = client
    · rw [if_pos hp, List.find?_cons_of_pos (by simpa using hp)]
      rfl
    · rw [if_neg hp, List.find?_cons_of_neg (by simpa using hp), hm.next hlist, pure_bind]
      have hrest : tcp.clientList = (before ++ [p]) ++ after := by simpa using hlist
      exact ih hrest (by simpa using hfuel)

/-- There are as many allocated records as clients. -/
theorem InMemory.card_eq (hm : InMemory m tcp) : m.allocated.card = tcp.clientList.length := by
  have hset : m.allocated = (tcp.clientList.map Client.handle).toFinset := by
    ext client
    rw [hm.allocated, List.mem_toFinset]
  rw [hset, List.toFinset_card_of_nodup hm.distinct, List.length_map]

/-- SOURCE: sktcpserver.c:212-222 -/
theorem InMemory.clientHandleToPtr (hm : InMemory m tcp) (client : ℕ) :
    m.clientHandleToPtr client =
        pure ((Program.clientHandleToPtr tcp client).map Client.handle) := by
  rw [ServerStore.clientHandleToPtr, hm.first, pure_bind]
  have hall : tcp.clientList = [] ++ tcp.clientList := rfl
  exact hm.findClient client hall (by rw [hm.card_eq]; exact Nat.lt_succ_self _)

/-- A client is disconnected, and its record removed.
SOURCE: sktcpserver.c:41-56 -/
theorem InMemory.disconnect (hm : InMemory m tcp) {p : Client} (hp : p ∈ tcp.clientList) :
    ∃ m', m.clientDisconnect p.handle = pure ((clientDisconnect tcp p).1, m') ∧
      InMemory m' (clientDisconnect tcp p).2 ∧ p.handle ∉ m'.allocated := by
  obtain ⟨before, after, hlist⟩ := List.append_of_mem hp
  have hring := hm.ring
  have hlive := hm.live
  have hdistinct := hm.distinct
  rw [hlist, nodesOf, List.map_append, List.map_cons] at hring hlive
  rw [hlist, List.map_append, List.map_cons, List.nodup_middle, List.nodup_cons] at hdistinct
  have herased : (tcp.clientList.eraseP fun c => c.handle = p.handle) = before ++ after := by
    rw [hlist, List.eraseP_append_right, List.eraseP_cons_of_pos (by simp)]
    intro c hc hhandle
    refine hdistinct.1 (List.mem_append_left _ ?_)
    exact of_decide_eq_true hhandle ▸ List.mem_map_of_mem hc
  obtain ⟨links, fields, hdone, hrest, hothers⟩ := clientDisconnect_eq hring hlive
  have hrecord := hm.fields p hp
  have hmem : ∀ other, other ∈ (before ++ after).map Client.handle ↔
      other ≠ p.handle ∧ other ∈ tcp.clientList.map Client.handle := by
    intro other
    rw [hlist, List.map_append, List.map_append, List.map_cons, List.mem_append, List.mem_append,
      List.mem_cons]
    constructor
    · intro hin
      refine ⟨?_, hin.imp_right .inr⟩
      rintro rfl
      exact hdistinct.1 (List.mem_append.mpr hin)
    · rintro ⟨hne, hin | hself | hin⟩
      · exact .inl hin
      · exact absurd hself hne
      · exact .inr hin
  refine ⟨{ m with links := links, fields := fields, allocated := m.allocated.erase p.handle,
                   watchers := m.watchers.erase p.handle }, ?_, ?_, Finset.notMem_erase _ _⟩
  · rw [hdone, hrecord, hm.cfg_eq]
    rfl
  · have hend : (clientDisconnect tcp p).2.clientList = before ++ after := herased
    exact {
      cfg_eq := hm.cfg_eq
      listenFd_eq := hm.listenFd_eq
      rxbuffer_eq := hm.rxbuffer_eq
      ring := by
        rw [hend, nodesOf, List.map_append]
        exact hrest
      fields := fun c hc => by
        rw [hend] at hc
        have hother := (hmem c.handle).mp (List.mem_map_of_mem hc)
        have hold : c ∈ tcp.clientList := by
          rw [hlist]
          simp only [List.mem_append, List.mem_cons] at hc ⊢
          exact hc.imp_right .inr
        exact (hothers _ hother.1).trans (hm.fields c hold)
      allocated := fun other => by
        rw [hend, hmem, Finset.mem_erase, hm.allocated]
      watchers := fun other => by
        rw [hend, hmem, Finset.mem_erase, hm.watchers] }

/-- A connection gets a record that is not in use, which is given back or put on the list.
SOURCE: sktcpserver.c:85-120 -/
theorem InMemory.conn (hm : InMemory m tcp) (newFd : ℤ) {allocated : Option ℕ}
    (hfree : ∀ client ∈ allocated, client ∉ m.allocated) (ret : ℤ) (priData : ℕ) :
    ∃ m', m.tcpConnHandler newFd allocated ret priData =
        pure ((tcpConnHandler tcp newFd allocated ret priData).1, m') ∧
      InMemory m' (tcpConnHandler tcp newFd allocated ret priData).2 := by
  unfold ServerStore.tcpConnHandler tcpConnHandler
  by_cases hfail : newFd < 0
  · rw [if_pos hfail, if_pos hfail]
    exact ⟨m, rfl, hm⟩
  rw [if_neg hfail, if_neg hfail]
  cases allocated with
  | none => exact ⟨m, rfl, hm⟩
  | some client =>
    have hunknown : client ∉ m.allocated := hfree client rfl
    have hset : m.cfg.clientConnectCb = tcp.cfg.clientConnectCb := by rw [hm.cfg_eq]
    simp only [hset]
    by_cases hrefuse : tcp.cfg.clientConnectCb = true ∧ ret ≠ 0
    · rw [if_pos hrefuse, if_pos hrefuse, Finset.erase_insert hunknown]
      exact ⟨m, rfl, hm⟩
    rw [if_neg hrefuse, if_neg hrefuse]
    generalize (if tcp.cfg.clientConnectCb = true then priData else 0) = priData
    let taken : ServerStore := { m with
      allocated := insert client m.allocated,
      fields := Function.update m.fields client ⟨newFd, priData⟩ }
    have hself : client ∈ taken.allocated := Finset.mem_insert_self _ _
    have hlive : Live taken (nodesOf tcp.clientList) := fun other hother =>
      Finset.mem_insert_of_mem (hm.live other hother)
    have hoff : ClientNode.node client ∉ .clientList :: nodesOf tcp.clientList := by
      intro hmem
      exact hunknown (hm.live client (by simpa using hmem))
    have hadd := listAdd_eq (m := taken) hm.ring hlive hself
    refine ⟨{ taken with
      links := taken.links.insert (.node client) .clientList
          ((nodesOf tcp.clientList).headD .clientList),
      watchers := insert client m.watchers }, ?_, ?_⟩
    · rw [write_write (m := { m with allocated := insert client m.allocated }) hself]
      show (taken.listAdd (.node client) .clientList >>= fun m => _) = _
      rw [hadd, pure_bind, ServerStore.uevIoInit, read_eq (by exact hself), pure_bind]
      rfl
    · exact {
        cfg_eq := hm.cfg_eq
        listenFd_eq := hm.listenFd_eq
        rxbuffer_eq := hm.rxbuffer_eq
        ring := hm.ring.insert hoff
        fields := fun p hp => by
          rcases List.mem_cons.mp hp with rfl | hold
          · exact Function.update_self _ _ _
          · have hne : p.handle ≠ client := by
              rintro rfl
              exact hunknown ((hm.allocated _).mpr (List.mem_map_of_mem hold))
            exact (Function.update_of_ne hne _ _).trans (hm.fields p hold)
        allocated := fun other => by
          rw [Finset.mem_insert, hm.allocated, List.map_cons, List.mem_cons]
        watchers := fun other => by
          rw [Finset.mem_insert, hm.watchers, List.map_cons, List.mem_cons] }

/-- SOURCE: sktcpserver.c:58-83 -/
theorem InMemory.receive (hm : InMemory m tcp) {p : Client} (hp : p ∈ tcp.clientList)
    (recvLen errno : ℤ) (buf : List UInt8) :
    ∃ m', m.clientReceiveDataHandler p.handle recvLen errno buf =
        pure ((clientReceiveDataHandler tcp p recvLen errno buf).1, m') ∧
      InMemory m' (clientReceiveDataHandler tcp p recvLen errno buf).2 := by
  obtain ⟨m', hdisconnect, hm', -⟩ := hm.disconnect hp
  have hset : m.cfg.clientDataRecvCb = tcp.cfg.clientDataRecvCb := by rw [hm.cfg_eq]
  simp only [ServerStore.clientReceiveDataHandler, clientReceiveDataHandler, hm.read hp, pure_bind,
    hdisconnect, hset]
  by_cases hend : recvLen = 0
  · simp only [if_pos hend]
    exact ⟨m', rfl, hm'⟩
  simp only [if_neg hend]
  by_cases herror : recvLen = -1
  · simp only [if_pos herror]
    by_cases hagain : errno = EAGAIN
    · simp only [if_pos hagain]
      exact ⟨m, rfl, hm⟩
    · simp only [if_neg hagain]
      exact ⟨m', rfl, hm'⟩
  simp only [if_neg herror]
  cases tcp.cfg.clientDataRecvCb <;> exact ⟨m, rfl, hm⟩

/-- A send whose `select` times out or fails, or whose `send` fails. -/
def SendFails (selectRet : ℤ) (isset : Bool) (sendRet : ℤ) : Prop :=
  selectRet ≤ 0 ∨ isset = true ∧ sendRet < 0

/-- A send that keeps the client, or has none.
SOURCE: sktcpserver.c:241-282 -/
theorem InMemory.send (hm : InMemory m tcp) (client : ℕ) (dat : List UInt8) {selectRet : ℤ}
    {isset : Bool} {sendRet : ℤ}
    (hkeeps : Program.clientHandleToPtr tcp client = none ∨ ¬ SendFails selectRet isset sendRet) :
    m.sktcpserverSend client dat selectRet isset sendRet =
        pure ((sktcpserverSend tcp client dat selectRet isset sendRet).1,
          (sktcpserverSend tcp client dat selectRet isset sendRet).2.1, m) ∧
      (sktcpserverSend tcp client dat selectRet isset sendRet).2.2 = tcp := by
  rw [ServerStore.sktcpserverSend, hm.clientHandleToPtr, pure_bind, sktcpserverSend]
  cases hfound : Program.clientHandleToPtr tcp client with
  | none => exact ⟨rfl, rfl⟩
  | some p =>
    have hsucceeds := hkeeps.resolve_left (by simp [hfound])
    rw [SendFails, not_or, not_le, not_and, not_lt] at hsucceeds
    simp only [Option.map_some, hm.read (List.mem_of_find?_eq_some hfound), pure_bind,
      if_pos hsucceeds.1]
    cases isset with
    | false => exact ⟨rfl, rfl⟩
    | true =>
      have hsent : ¬ sendRet < 0 := not_lt.mpr (hsucceeds.2 rfl)
      simp [hsent]

/-- A send that disconnects the client: the log line behind it reads the record.
SOURCE: sktcpserver.c:266-277 -/
theorem InMemory.send_removed (hm : InMemory m tcp) {client : ℕ} {p : Client}
    (hfound : Program.clientHandleToPtr tcp client = some p) (dat : List UInt8) {selectRet : ℤ}
    {isset : Bool} {sendRet : ℤ} (hfails : SendFails selectRet isset sendRet) :
    m.sktcpserverSend client dat selectRet isset sendRet = .error (.removed p.handle) := by
  have hp : p ∈ tcp.clientList := List.mem_of_find?_eq_some hfound
  obtain ⟨m', hdisconnect, -, hfreed⟩ := hm.disconnect hp
  rw [ServerStore.sktcpserverSend, hm.clientHandleToPtr, pure_bind, hfound]
  simp only [Option.map_some, hm.read hp, pure_bind, hdisconnect, read_removed hfreed]
  by_cases hready : selectRet > 0
  · obtain ⟨hset, hfail⟩ := hfails.resolve_left (not_le.mpr hready)
    simp only [if_pos hready, hset, if_true, if_pos hfail]
    rfl
  · simp only [if_neg hready]
    rfl

/-- SOURCE: sktcpserver.c:224-239 -/
theorem InMemory.priDataGet (hm : InMemory m tcp) (client : ℕ) :
    m.sktcpserverClientPriDataGet client = pure (sktcpserverClientPriDataGet tcp client) := by
  rw [ServerStore.sktcpserverClientPriDataGet, hm.clientHandleToPtr, pure_bind,
    sktcpserverClientPriDataGet]
  cases hfound : Program.clientHandleToPtr tcp client with
  | none => rfl
  | some p =>
    simp only [Option.map_some, hm.read (List.mem_of_find?_eq_some hfound), pure_bind]

/-- The successor of the entry, which `sktcpserver_fini` reads ahead. -/
theorem InMemory.nextEntry (hm : InMemory m tcp) :
    m.nextOf (entryOf tcp.clientList) = pure (entryOf tcp.clientList.tail) := by
  cases hlist : tcp.clientList with
  | nil =>
    have hfirst := hm.first
    rwa [hlist] at hfirst
  | cons p rest =>
    have hfirst : tcp.clientList = [] ++ p :: rest := hlist
    exact hm.next hfirst

/-- The loop of `sktcpserver_fini` removes a record only when it is past it.
SOURCE: sktcpserver.c:196-199 -/
theorem InMemory.finiLoop (hm : InMemory m tcp) {clients : List Client}
    (hlist : tcp.clientList = clients) {fuel : ℕ} (hfuel : clients.length < fuel) :
    ∃ m', ServerStore.finiLoop fuel (entryOf clients) (entryOf clients.tail) m =
        pure ((finiLoop tcp clients).1, m') ∧
      InMemory m' (finiLoop tcp clients).2 := by
  induction clients generalizing m tcp fuel with
  | nil =>
    obtain ⟨fuel, rfl⟩ := Nat.exists_eq_succ_of_ne_zero (Nat.ne_of_gt hfuel)
    exact ⟨m, rfl, hm⟩
  | cons p rest ih =>
    obtain ⟨fuel, rfl⟩ := Nat.exists_eq_succ_of_ne_zero (Nat.ne_of_gt (Nat.zero_lt_of_lt hfuel))
    have hp : p ∈ tcp.clientList := by rw [hlist]; exact List.mem_cons_self
    obtain ⟨m₁, hdisconnect, hm₁, -⟩ := hm.disconnect hp
    have hrest : (clientDisconnect tcp p).2.clientList = rest := by simp [clientDisconnect, hlist]
    have hnext := hm₁.nextEntry
    rw [hrest] at hnext
    obtain ⟨m₂, hloop, hm₂⟩ := ih hm₁ hrest (Nat.lt_of_succ_lt_succ hfuel)
    refine ⟨m₂, ?_, hm₂⟩
    show ServerStore.finiLoop (fuel + 1) (.node p.handle) (entryOf rest) m = _
    rw [ServerStore.finiLoop, hdisconnect, pure_bind]
    simp only [hnext, pure_bind, hloop]
    rfl

/-- SOURCE: sktcpserver.c:192-210 -/
theorem InMemory.fini (hm : InMemory m tcp) :
    ∃ m', m.sktcpserverFini = pure ((sktcpserverFini tcp).1, m') ∧
      InMemory m' (sktcpserverFini tcp).2 := by
  have hfuel : tcp.clientList.length < m.allocated.card + 1 := by
    rw [hm.card_eq]
    exact Nat.lt_succ_self _
  obtain ⟨m', hloop, hm'⟩ := hm.finiLoop rfl hfuel
  refine ⟨{ m' with listening := false, rxbuffer := false }, ?_, { hm' with rxbuffer_eq := rfl }⟩
  rw [ServerStore.sktcpserverFini, hm.first, pure_bind, hm.nextEntry, pure_bind, hloop, pure_bind]
  simp only [sktcpserverFini, hm'.listenFd_eq]

/-! ## Steps and runs -/

/-- The send of a known client that is disconnected in it. -/
def DropsInSend (m : ServerStore) : ServerAct → Prop
  | .send client _ selectRet isset sendRet =>
      client ∈ m.allocated ∧ SendFails selectRet isset sendRet
  | _ => False

/-- A record that is allocated is found in the list. -/
theorem InMemory.found (hm : InMemory m tcp) (hknown : client ∈ m.allocated) :
    ∃ p ∈ tcp.clientList, p.handle = client ∧ Program.clientHandleToPtr tcp client = some p :=
  exists_found (List.mem_map.mp ((hm.allocated client).mp hknown))

/-- **A step finds all records it accesses**, and does what the server does. -/
theorem InMemory.step {s : ServerWorld} (hm : InMemory m s.tcp) {act : ServerAct}
    (hallows : m.allows act) (hkeeps : ¬ DropsInSend m act) :
    ∃ obs m' s', m.step act = .ok (obs, m') ∧ serverStep s act = some (obs, s') ∧
      InMemory m' s'.tcp := by
  cases act with
  | conn newFd allocated ret priData =>
    obtain ⟨m', hdone, hm'⟩ := hm.conn newFd hallows.2 ret priData
    refine ⟨_, m', _, ?_, rfl, hm'⟩
    rw [ServerStore.step, hdone]
    rfl
  | receive client recvLen errno buf =>
    obtain ⟨p, hp, rfl, hfound⟩ := hm.found ((hm.allocated _).mpr ((hm.watchers client).mp hallows))
    obtain ⟨m', hdone, hm'⟩ := hm.receive hp recvLen errno buf
    refine ⟨⟨none, (clientReceiveDataHandler s.tcp p recvLen errno buf).1⟩, m',
      (s.done none (clientReceiveDataHandler s.tcp p recvLen errno buf)).2, ?_, ?_, hm'⟩
    · rw [ServerStore.step, hdone]
      rfl
    · rw [serverStep, hfound]
      rfl
  | send client dat selectRet isset sendRet =>
    have hnone : Program.clientHandleToPtr s.tcp client = none ∨
        ¬ SendFails selectRet isset sendRet := by
      cases hfound : Program.clientHandleToPtr s.tcp client with
      | none => exact .inl rfl
      | some p =>
        refine .inr fun hfails => hkeeps ⟨?_, hfails⟩
        rw [hm.allocated, ← handle_of_found hfound]
        exact List.mem_map_of_mem (List.mem_of_find?_eq_some hfound)
    obtain ⟨hsend, hsame⟩ := hm.send client dat hnone
    refine ⟨_, m, _, ?_, rfl, ?_⟩
    · rw [ServerStore.step, hsend]
      rfl
    · show InMemory m (sktcpserverSend s.tcp client dat selectRet isset sendRet).2.2
      rw [hsame]
      exact hm
  | priDataGet client =>
    refine ⟨_, m, _, ?_, rfl, hm⟩
    rw [ServerStore.step, hm.priDataGet]
    rfl
  | fini =>
    obtain ⟨m', hdone, hm'⟩ := hm.fini
    refine ⟨_, m', _, ?_, rfl, hm'⟩
    rw [ServerStore.step, hdone]
    rfl

/-- A step that disconnects the client it sends to reads its record after it is freed. -/
theorem InMemory.step_removed (hm : InMemory m tcp) {act : ServerAct} (hdrops : DropsInSend m act) :
    ∃ client, m.step act = .error (.removed client) := by
  cases act with
  | send client dat selectRet isset sendRet =>
    obtain ⟨p, -, -, hfound⟩ := hm.found hdrops.1
    refine ⟨p.handle, ?_⟩
    rw [ServerStore.step, hm.send_removed hfound dat hdrops.2]
    rfl
  | _ => exact hdrops.elim

/-- What `sktcpserver_init` leaves in memory. -/
theorem inMemory_start (memory : Links ClientNode) (fields : ℕ → ClientFields) (cfg : ServerConfig)
    (listenFd : ℤ) :
    InMemory (ServerStore.start memory fields cfg listenFd) ⟨cfg, listenFd, [], true⟩ where
  cfg_eq := rfl
  listenFd_eq := rfl
  rxbuffer_eq := rfl
  ring := by
    refine ⟨List.nodup_singleton _, List.isChain_pair.mpr ⟨?_, ?_⟩⟩
    · simp [ServerStore.start, Links.setNext, Links.setPrev]
    · simp [ServerStore.start, Links.setNext, Links.setPrev]
  fields := by simp
  allocated := by simp [ServerStore.start]
  watchers := by simp [ServerStore.start]

/-- **The server in memory refines the server.**  Whatever it does, the server does with
the same observations. -/
theorem inMemory_run {memory : Links ClientNode} {fields : ℕ → ClientFields} {cfg : ServerConfig}
    {listenFd : ℤ} (hlisten : 0 ≤ listenFd) {h : List (ServerAct × ServerObs)}
    (hrun : storeMachine.Run ServerStore.allows
      (ServerStore.start memory fields cfg listenFd) h m) :
    ∃ s, serverMachine.Run Machine.anyStep (serverStart cfg listenFd) h s ∧ InMemory m s.tcp := by
  refine hrun.invariant (fun h m => ∃ s,
    serverMachine.Run Machine.anyStep (serverStart cfg listenFd) h s ∧ InMemory m s.tcp) ?_ ?_
  · refine ⟨_, .start, ?_⟩
    rw [serverStart_eq hlisten]
    exact inMemory_start memory fields cfg listenFd
  · rintro h m act obs m' ⟨s, hbefore, hm⟩ hallows hstep
    have hdone : m.step act = .ok (obs, m') := by
      have htaken : (m.step act).toOption = some (obs, m') := hstep
      cases hresult : m.step act with
      | error fault => simp [hresult, Except.toOption] at htaken
      | ok r => simpa [hresult, Except.toOption] using htaken
    have hkeeps : ¬ DropsInSend m act := by
      intro hdrops
      obtain ⟨client, hremoved⟩ := hm.step_removed hdrops
      rw [hdone] at hremoved
      cases hremoved
    obtain ⟨obs₁, m₁, s₁, hdone₁, hserver, hm₁⟩ := hm.step hallows hkeeps
    rw [hdone, Except.ok.injEq, Prod.mk.injEq] at hdone₁
    obtain ⟨rfl, rfl⟩ := hdone₁
    exact ⟨s₁, hbefore.next trivial hserver, hm₁⟩

end Ctools.Analysis

open Ctools.Library Ctools.Program Ctools.Analysis in
/-- **No access to a removed record.**  In every state that the steps of an initialised
server have led to, an allowed step finds every record it accesses, and its walks of the
list end, if and only if it is not a send that disconnects its client; such a send
accesses a record that has been removed.
SOURCE: sktcpserver.c:25-28, sktcpserver.c:41-83, sktcpserver.c:192-282 -/
theorem Ctools.Analysis.removed_record_unread_iff {memory : Links ClientNode}
    {fields : ℕ → ClientFields} {cfg : ServerConfig} {listenFd : ℤ}
    (hinit : (sktcpserverInit cfg true listenFd).1 = 0) {h : List (ServerAct × ServerObs)}
    {m : ServerStore}
    (hrun : storeMachine.Run ServerStore.allows (ServerStore.start memory fields cfg listenFd) h m)
    {act : ServerAct} (hallows : m.allows act) :
    ((∃ obs m', m.step act = .ok (obs, m')) ↔ ¬ DropsInSend m act) ∧
      (DropsInSend m act → ∃ client, m.step act = .error (.removed client)) := by
  obtain ⟨s, -, hm⟩ := inMemory_run (listenFd_of_init hinit) hrun
  refine ⟨⟨?_, fun hkeeps => ?_⟩, hm.step_removed⟩
  · rintro ⟨obs, m', hdone⟩ hdrops
    obtain ⟨client, hremoved⟩ := hm.step_removed hdrops
    rw [hdone] at hremoved
    cases hremoved
  · obtain ⟨obs, m', -, hdone, -, -⟩ := hm.step hallows hkeeps
    exact ⟨obs, m', hdone⟩

open Ctools.Library Ctools.Program Ctools.Analysis in
/-- One client sends data and closes, another is sent to, and the server is shut down with
it connected. -/
theorem Ctools.Analysis.removed_record_unread_iff_served :
    ∃ h m, storeMachine.Run ServerStore.allows
        (ServerStore.start ⟨fun _ => none, fun _ => none⟩ (fun _ => ⟨0, 0⟩)
          ⟨true, true, true⟩ 3) h m ∧
      h.length = 5 ∧ m.allows .fini ∧ ∃ obs m', m.step .fini = .ok (obs, m') := by
  obtain ⟨h, m, hrun, hlength⟩ : ∃ h m, storeMachine.Run ServerStore.allows
      (ServerStore.start ⟨fun _ => none, fun _ => none⟩ (fun _ => ⟨0, 0⟩)
        ⟨true, true, true⟩ 3) h m ∧
      h.length = 5 :=
    ⟨_, _, Machine.run_of_execUnder (m := storeMachine) ServerStore.allows _
      [.conn 4 (some 100) 0 7, .conn 5 (some 200) 0 8, .receive 100 2 0 [104, 105],
        .receive 100 0 0 [], .send 200 [111] 1 true 1] rfl, rfl⟩
  have hallows : m.allows .fini := trivial
  exact ⟨h, m, hrun, hlength, hallows, (removed_record_unread_iff rfl hrun hallows).1.mpr id⟩

open Ctools.Library Ctools.Program Ctools.Analysis in
/-- `select` times out when the one client is sent to: the record is removed, and the log
line behind reads it.
SOURCE: sktcpserver.c:272-277 -/
theorem Ctools.Analysis.removed_record_read :
    ∃ h m, storeMachine.Run ServerStore.allows
        (ServerStore.start ⟨fun _ => none, fun _ => none⟩ (fun _ => ⟨0, 0⟩)
          ⟨true, true, true⟩ 3) h m ∧
      m.allows (.send 100 [111] 0 false 0) ∧
      m.step (.send 100 [111] 0 false 0) = .error (.removed 100) := by
  have hrun := Machine.run_of_execUnder (m := storeMachine) ServerStore.allows
    (ServerStore.start ⟨fun _ => none, fun _ => none⟩ (fun _ => ⟨0, 0⟩) ⟨true, true, true⟩ 3)
    [.conn 4 (some 100) 0 7] rfl
  exact ⟨_, _, hrun, trivial, rfl⟩
