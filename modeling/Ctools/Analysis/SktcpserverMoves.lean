import Ctools.Interface.SktcpserverSpec

/-!
# What a step of the TCP server does

A step is a sequence of moves, each of which changes the client list by one record at
most: a connection is dropped, refused or admitted, a client's data are passed on, a
client is disconnected, the server stops listening.  `step_moves` says so once for all
entry points; the invariants of the server are invariants of the moves.
-/

set_option autoImplicit false

namespace Ctools.Analysis

open Ctools.Library Ctools.Program Ctools.Interface

/-- Neither a callback nor a call on the table of descriptors. -/
def IsQuiet : ServerEvent → Prop
  | .send _ _ _ | .clientLog _ _ => True
  | _ => False

/-- One move: what it does to the outside, the connection it gives a record, and the
world after it. -/
inductive ServerMove (accepts : ServerWorld → ℤ → Prop) (s : ServerWorld) :
    List ServerEvent → List Admission → ServerWorld → Prop
  | quiet {events : List ServerEvent} (hquiet : ∀ e ∈ events, IsQuiet e) :
      ServerMove accepts s events [] s
  | dropped {fd : ℤ} (fresh : accepts s fd) : ServerMove accepts s [.accept fd, .close fd] [] s
  | refused {fd : ℤ} {client : ℕ} {ret : ℤ} {priData : ℕ} (fresh : accepts s fd)
      (unknown : clientHandleToPtr s.tcp client = none) (hset : s.tcp.cfg.clientConnectCb = true)
      (hret : ret ≠ 0) :
      ServerMove accepts s [.accept fd, .connectCb client ret priData]
          [.refused fd client ret priData]
        ⟨s.tcp, fd :: s.fds⟩
  | admitted {fd : ℤ} {client priData : ℕ} (fresh : accepts s fd) (valid : 0 ≤ fd)
      (unknown : clientHandleToPtr s.tcp client = none) (running : s.tcp.rxbuffer = true) :
      ServerMove accepts s (.accept fd :: [.connectCb client 0 priData].filter (isSet s.tcp.cfg))
        [.admitted fd client priData]
        ⟨{ s.tcp with clientList := ⟨client, fd, priData⟩ :: s.tcp.clientList }, fd :: s.fds⟩
  | received {p : Client} {dat : List UInt8} (known : clientHandleToPtr s.tcp p.handle = some p)
      (hset : s.tcp.cfg.clientDataRecvCb = true) :
      ServerMove accepts s [.recvCb p.handle p.priData dat] [] s
  | disconnected {p : Client} (known : clientHandleToPtr s.tcp p.handle = some p) :
      ServerMove accepts s (clientDisconnect s.tcp p).1 []
        ⟨(clientDisconnect s.tcp p).2, fdsAfter s.fds (fdCalls (clientDisconnect s.tcp p).1)⟩
  | stopped (empty : s.tcp.clientList = []) (running : s.tcp.rxbuffer = true)
      (valid : 0 ≤ s.tcp.listenFd) :
      ServerMove accepts s [.close s.tcp.listenFd] []
        ⟨{ s.tcp with rxbuffer := false }, s.fds.erase s.tcp.listenFd⟩

/-- Some moves, one after the other. -/
inductive ServerMoves (accepts : ServerWorld → ℤ → Prop) (s : ServerWorld) :
    List ServerEvent → List Admission → ServerWorld → Prop
  | none : ServerMoves accepts s [] [] s
  | more {events more : List ServerEvent} {given new : List Admission} {t u : ServerWorld}
      (before : ServerMoves accepts s events given t) (move : ServerMove accepts t more new u) :
      ServerMoves accepts s (events ++ more) (given ++ new) u

variable {accepts : ServerWorld → ℤ → Prop} {s t : ServerWorld}

/-- The rule for an invariant of the moves. -/
theorem ServerMoves.invariant (I : List ServerEvent → List Admission → ServerWorld → Prop)
    (events₀ : List ServerEvent) (given₀ : List Admission) (init : I events₀ given₀ s)
    (keep : ∀ events given t more new u, I events given t → ServerMove accepts t more new u →
      I (events ++ more) (given ++ new) u)
    {events : List ServerEvent} {given : List Admission}
    (hmoves : ServerMoves accepts s events given t) :
    I (events₀ ++ events) (given₀ ++ given) t := by
  induction hmoves with
  | none => simpa using init
  | more before move ih =>
    rw [← List.append_assoc, ← List.append_assoc]
    exact keep _ _ _ _ _ _ ih move

/-- One move. -/
theorem ServerMove.single {events : List ServerEvent} {given : List Admission}
    (hmove : ServerMove accepts s events given t) : ServerMoves accepts s events given t :=
    .more .none hmove

/-- The configuration and the listening descriptor stay. -/
theorem ServerMove.cfg_eq {events : List ServerEvent} {given : List Admission}
    (hmove : ServerMove accepts s events given t) :
    t.tcp.cfg = s.tcp.cfg ∧ t.tcp.listenFd = s.tcp.listenFd := by
  cases hmove <;> exact ⟨rfl, rfl⟩

/-- Moves leave the callbacks and the listening socket. -/
theorem ServerMoves.cfg_eq {events : List ServerEvent} {given : List Admission}
    (hmoves : ServerMoves accepts s events given t) :
    t.tcp.cfg = s.tcp.cfg ∧ t.tcp.listenFd = s.tcp.listenFd := by
  refine hmoves.invariant (fun _ _ u => u.tcp.cfg = s.tcp.cfg ∧ u.tcp.listenFd = s.tcp.listenFd)
    [] [] ⟨rfl, rfl⟩ ?_
  rintro _ _ _ _ _ _ ⟨hcfg, hlisten⟩ hmove
  exact ⟨hmove.cfg_eq.1.trans hcfg, hmove.cfg_eq.2.trans hlisten⟩

/-- Calls on descriptors, in two pieces. -/
@[simp] theorem fdCalls_append (es more : List ServerEvent) :
    fdCalls (es ++ more) = fdCalls es ++ fdCalls more := by
  simp [fdCalls]

/-- Descriptors behind two pieces. -/
@[simp] theorem fdsAfter_append (fds : List ℤ) (calls more : List FdCall) :
    fdsAfter fds (calls ++ more) = fdsAfter (fdsAfter fds calls) more := by
  simp [fdsAfter]

/-- What is quiet opens and closes nothing. -/
theorem fdCalls_quiet {events : List ServerEvent} (hquiet : ∀ e ∈ events, IsQuiet e) :
    fdCalls events = [] := by
  rw [fdCalls, List.flatMap_eq_nil_iff]
  intro e he
  have := hquiet e he
  cases e <;> first | rfl | exact this.elim

/-! ## The entry points -/

/-- A handle that is found is the handle of the record. -/
theorem handle_of_found {tcp : Server} {client : ℕ} {p : Client}
    (hfound : clientHandleToPtr tcp client = some p) : p.handle = client := by
  simpa using List.find?_some hfound

/-- A record that is found is found under its own handle. -/
theorem known_of_found {tcp : Server} {client : ℕ} {p : Client}
    (hfound : clientHandleToPtr tcp client = some p) : clientHandleToPtr tcp p.handle = some p := by
  rw [handle_of_found hfound, hfound]

/-- A handle that denotes a client is found.
SOURCE: sktcpserver.c:212-222 -/
theorem exists_found {tcp : Server} {client : ℕ}
    (hknown : ∃ p ∈ tcp.clientList, p.handle = client) :
    ∃ p ∈ tcp.clientList, p.handle = client ∧ clientHandleToPtr tcp client = some p := by
  obtain ⟨q, hmem, hhandle⟩ := hknown
  have hsome : (clientHandleToPtr tcp client).isSome = true :=
    List.find?_isSome.mpr ⟨q, hmem, decide_eq_true hhandle⟩
  obtain ⟨p, hfound⟩ := Option.isSome_iff_exists.mp hsome
  exact ⟨p, List.mem_of_find?_eq_some hfound, handle_of_found hfound, hfound⟩

/-- SOURCE: sktcpserver.c:85-120 -/
theorem conn_moves {newFd : ℤ} {allocated : Option ℕ} {ret : ℤ} {priData : ℕ}
    (running : s.tcp.rxbuffer = true) (fresh : accepts s newFd)
    (hfree : ∀ client ∈ allocated, clientHandleToPtr s.tcp client = none) :
    ServerMoves accepts s (tcpConnHandler s.tcp newFd allocated ret priData).1
      (admissions s.tcp.cfg (.conn newFd allocated ret priData))
      (s.done none (tcpConnHandler s.tcp newFd allocated ret priData)).2 := by
  by_cases hfail : newFd < 0
  · have hnone : admissions s.tcp.cfg (.conn newFd allocated ret priData) = [] := by
      cases allocated with
      | none => rfl
      | some _ => exact if_pos hfail
    rw [hnone]
    simp only [tcpConnHandler.eq_def, if_pos hfail]
    exact .none
  · simp only [tcpConnHandler.eq_def, if_neg hfail]
    cases allocated with
    | none =>
      have hsame : fdsAfter s.fds (fdCalls [.accept newFd, .close newFd]) = s.fds := by
        simp [fdCalls, fdsAfter, fdAfter]
      rw [ServerWorld.done, hsame]
      exact (ServerMove.dropped fresh).single
    | some client =>
      have hunknown := hfree client rfl
      simp only [admissions, if_neg hfail]
      by_cases hrefuse : s.tcp.cfg.clientConnectCb = true ∧ ret ≠ 0
      · simp only [if_pos hrefuse]
        exact (ServerMove.refused fresh hunknown hrefuse.1 hrefuse.2).single
      · simp only [if_neg hrefuse]
        have hmove : ServerMove accepts s _ [.admitted newFd client
            (if s.tcp.cfg.clientConnectCb then priData else 0)] _ :=
          .admitted fresh (by omega) hunknown running
        cases hset : s.tcp.cfg.clientConnectCb with
        | false =>
            simpa [hset, isSet, ServerWorld.done, fdCalls, fdsAfter, fdAfter] using hmove.single
        | true =>
          have hzero : ret = 0 := by
            by_contra hne
            exact hrefuse ⟨hset, hne⟩
          simpa [hset, isSet, hzero, ServerWorld.done, fdCalls, fdsAfter, fdAfter]
            using hmove.single

/-- Quiet events around a move. -/
theorem ServerMove.between {events before after : List ServerEvent} {given : List Admission}
    (hmove : ServerMove accepts s events given t) (hbefore : ∀ e ∈ before, IsQuiet e)
    (hafter : ∀ e ∈ after, IsQuiet e) :
    ServerMoves accepts s (before ++ events ++ after) given t := by
  have hmoves := ((ServerMove.quiet hbefore).single.more hmove).more (.quiet hafter)
  rwa [List.nil_append, List.append_nil] at hmoves

/-- A client is disconnected, between quiet events. -/
theorem disconnect_moves {p : Client} (known : clientHandleToPtr s.tcp p.handle = some p)
    {before after : List ServerEvent} (hbefore : ∀ e ∈ before, IsQuiet e)
    (hafter : ∀ e ∈ after, IsQuiet e) :
    ServerMoves accepts s (before ++ (clientDisconnect s.tcp p).1 ++ after) []
      ⟨(clientDisconnect s.tcp p).2,
        fdsAfter s.fds (fdCalls (before ++ (clientDisconnect s.tcp p).1 ++ after))⟩ := by
  rw [fdCalls_append, fdCalls_append, fdCalls_quiet hbefore, fdCalls_quiet hafter, List.nil_append,
    List.append_nil]
  exact (ServerMove.disconnected known).between hbefore hafter

/-- SOURCE: sktcpserver.c:58-83 -/
theorem receive_moves {p : Client} (known : clientHandleToPtr s.tcp p.handle = some p)
    (recvLen errno : ℤ) (buf : List UInt8) :
    ServerMoves accepts s (clientReceiveDataHandler s.tcp p recvLen errno buf).1 []
      (s.done none (clientReceiveDataHandler s.tcp p recvLen errno buf)).2 := by
  have hnone : ∀ e ∈ ([] : List ServerEvent), IsQuiet e := by simp
  have hlog : ∀ e ∈ [ServerEvent.clientLog p.handle true], IsQuiet e := by simp [IsQuiet]
  have hlogs :
      ∀ e ∈ [ServerEvent.clientLog p.handle true, .clientLog p.handle true], IsQuiet e := by
    simp [IsQuiet]
  have hlost : ServerMoves accepts s _ [] _ := disconnect_moves known hlogs hnone
  rw [List.append_nil] at hlost
  simp only [clientReceiveDataHandler]
  by_cases hend : recvLen = 0
  · rw [if_pos hend]
    exact hlost
  rw [if_neg hend]
  by_cases herror : recvLen = -1
  · rw [if_pos herror]
    by_cases hagain : errno = EAGAIN
    · rw [if_pos hagain]
      exact (ServerMove.quiet hlog).single
    · rw [if_neg hagain]
      exact hlost
  rw [if_neg herror]
  cases hset : s.tcp.cfg.clientDataRecvCb with
  | false => exact (ServerMove.quiet hlog).single
  | true =>
    have hmove : ServerMove accepts s [.recvCb p.handle p.priData (buf.take recvLen.toNat)] [] s :=
      .received known hset
    exact hmove.between hlog hnone

/-- SOURCE: sktcpserver.c:241-282 -/
theorem send_moves (client : ℕ) (dat : List UInt8) (selectRet : ℤ) (isset : Bool) (sendRet : ℤ)
    (ret : Option ℤ) :
    ServerMoves accepts s (sktcpserverSend s.tcp client dat selectRet isset sendRet).2.1 []
      (s.done ret (sktcpserverSend s.tcp client dat selectRet isset sendRet).2).2 := by
  cases hfound : clientHandleToPtr s.tcp client with
  | none =>
    simp only [sktcpserverSend, hfound]
    exact .none
  | some p =>
    have hknown := known_of_found hfound
    have hnone : ∀ e ∈ ([] : List ServerEvent), IsQuiet e := by simp
    have hlog : ∀ e ∈ [ServerEvent.clientLog p.handle false], IsQuiet e := by simp [IsQuiet]
    have hsend : ∀ e ∈ [ServerEvent.send p.channelFd dat sendRet], IsQuiet e := by simp [IsQuiet]
    simp only [sktcpserverSend, hfound]
    by_cases hready : selectRet > 0
    · rw [if_pos hready]
      cases isset with
      | false => exact .none
      | true =>
        by_cases hfail : sendRet < 0
        · simp only [if_true, if_pos hfail]
          exact disconnect_moves hknown hsend hlog
        · simp only [if_true, if_neg hfail]
          exact (ServerMove.quiet hsend).single
    · rw [if_neg hready]
      exact disconnect_moves hknown hnone hlog

/-- Moves one after the other. -/
theorem ServerMoves.trans {u : ServerWorld} {events more : List ServerEvent}
    {given new : List Admission} (hfirst : ServerMoves accepts s events given t)
    (hsecond : ServerMoves accepts t more new u) :
    ServerMoves accepts s (events ++ more) (given ++ new) u := by
  refine hsecond.invariant (ServerMoves accepts s) events given hfirst ?_
  intro _ _ _ _ _ _ hbefore hmove
  exact hbefore.more hmove

/-- The loop of `sktcpserver_fini` empties the list.
SOURCE: sktcpserver.c:196-199 -/
theorem finiLoop_end (clients : List Client) (tcp : Server) (hlist : tcp.clientList = clients) :
    (finiLoop tcp clients).2 = { tcp with clientList := [] } := by
  induction clients generalizing tcp with
  | nil => rw [finiLoop, ← hlist]
  | cons p rest ih =>
    have hrest : (clientDisconnect tcp p).2.clientList = rest := by simp [clientDisconnect, hlist]
    rw [finiLoop, ih _ hrest]
    rfl

/-- It disconnects one client after the other.
SOURCE: sktcpserver.c:196-199 -/
theorem finiLoop_moves (clients : List Client) (s : ServerWorld)
    (hlist : s.tcp.clientList = clients) :
    ServerMoves accepts s (finiLoop s.tcp clients).1 []
      ⟨(finiLoop s.tcp clients).2, fdsAfter s.fds (fdCalls (finiLoop s.tcp clients).1)⟩ := by
  induction clients generalizing s with
  | nil => exact .none
  | cons p rest ih =>
    have hknown : clientHandleToPtr s.tcp p.handle = some p := by simp [clientHandleToPtr, hlist]
    have hrest : (clientDisconnect s.tcp p).2.clientList = rest := by simp [clientDisconnect, hlist]
    have hmoves := ih ⟨(clientDisconnect s.tcp p).2,
      fdsAfter s.fds (fdCalls (clientDisconnect s.tcp p).1)⟩ hrest
    simp only [finiLoop, fdCalls_append, fdsAfter_append]
    exact (ServerMove.disconnected hknown).single.trans hmoves

/-- SOURCE: sktcpserver.c:192-210 -/
theorem fini_end (tcp : Server) :
    (sktcpserverFini tcp).2 = { tcp with clientList := [], rxbuffer := false } := by
  simp only [sktcpserverFini]
  rw [finiLoop_end _ tcp rfl]

/-- SOURCE: sktcpserver.c:192-210 -/
theorem fini_moves (running : s.tcp.rxbuffer = true) (valid : 0 ≤ s.tcp.listenFd) (ret : Option ℤ) :
    ServerMoves accepts s (sktcpserverFini s.tcp).1 [] (s.done ret (sktcpserverFini s.tcp)).2 := by
  have hmoves : ServerMoves accepts s _ [] _ := finiLoop_moves s.tcp.clientList s rfl
  have hend := finiLoop_end s.tcp.clientList s.tcp rfl
  have hlisten : (finiLoop s.tcp s.tcp.clientList).2.listenFd = s.tcp.listenFd := by rw [hend]
  have hstop : ServerMove accepts ⟨(finiLoop s.tcp s.tcp.clientList).2, _⟩
      [.close (finiLoop s.tcp s.tcp.clientList).2.listenFd] [] _ :=
    .stopped (s := ⟨_, fdsAfter s.fds (fdCalls (finiLoop s.tcp s.tcp.clientList).1)⟩)
      (by rw [hend]) (by rw [hend]; exact running) (by rw [hlisten]; exact valid)
  have hclosed : (finiLoop s.tcp s.tcp.clientList).2.listenFd ≥ 0 := by omega
  simp only [sktcpserverFini, if_pos hclosed, ServerWorld.done, fdCalls_append, fdsAfter_append]
  exact hmoves.more hstop

/-- **A step is a sequence of moves.** -/
theorem step_moves {act : ServerAct} {obs : ServerObs} (valid : 0 ≤ s.tcp.listenFd)
    (hguard : serverGuard accepts s act) (hstep : serverStep s act = some (obs, t)) :
    ServerMoves accepts s obs.events (admissions s.tcp.cfg act) t := by
  obtain ⟨running, henv⟩ := hguard
  cases act with
  | conn newFd allocated ret priData =>
    cases hstep
    exact conn_moves running henv.1 henv.2
  | receive client recvLen errno buf =>
    simp only [serverStep, Option.bind_eq_bind, Option.pure_def, Option.bind_eq_some_iff,
      Option.some.injEq] at hstep
    obtain ⟨p, hfound, hdone⟩ := hstep
    cases hdone
    exact receive_moves (known_of_found hfound) recvLen errno buf
  | send client dat selectRet isset sendRet =>
    cases hstep
    exact send_moves client dat selectRet isset sendRet none
  | priDataGet client =>
    cases hstep
    exact .none
  | fini =>
    cases hstep
    exact fini_moves running valid none

end Ctools.Analysis
