import Ctools.Program.Sktcpclient

/-!
# Who owns the sockets of the TCP client

Every socket the client has opened and not closed is the `fd` of the connected client,
or was left to nobody (`SocketLedger`).  `sktcpclient_disconnect`, and with it the read
handler, closes the `fd` and is refused when there is none; `sktcpclient_connect` is
not refused when there is one and overwrites it.  So the sockets left to nobody are
those a connected client had when it was connected again.
-/

set_option autoImplicit false

namespace Ctools.Analysis

open Ctools.Library Ctools.Program

/-- The socket of a connected client. -/
def connectedFd (tcp : TcpClient) : List ℤ :=
  match tcp.state with
  | .connected => [tcp.fd]
  | .disconnected => []

/-- The calls so far, and the sockets left to nobody. -/
structure SocketLedger (calls : List FdCall) (leaked : List ℤ) (s : TcpClientWorld) : Prop where
  run : FdRun calls s.fds
  owned : s.fds.Perm (connectedFd s.tcp ++ leaked)

/-- A client that is connected is not connected again. -/
def connectsOnce (s : TcpClientWorld) : TcpClientAct → Prop
  | .connect _ => s.tcp.state = .disconnected
  | _ => True

instance (s : TcpClientWorld) : ∀ act, Decidable (connectsOnce s act)
  | .connect _ => inferInstanceAs (Decidable (_ = _))
  | .disconnect | .send _ _ | .readable _ _ _ | .fini => inferInstanceAs (Decidable True)

variable {s t : TcpClientWorld} {calls : List FdCall} {leaked : List ℤ}

/-- A step that opens and closes nothing and leaves the client as it is. -/
theorem SocketLedger.same (hs : SocketLedger calls leaked s) (ret : Option ℤ)
    {events : List ClientEvent} (hquiet : socketCalls events = []) :
    SocketLedger (calls ++ socketCalls events) leaked (s.done ret (events, s.tcp)).2 := by
  rw [TcpClientWorld.done, hquiet, List.append_nil]
  exact hs

/-- What `sktcpclient_connect` does when the calls inside it succeed.
SOURCE: sktcpclient.c:54-83, sktcpclient.c:107-133 -/
theorem connect_succeeds (tcp : TcpClient) {answers : ConnectAnswers} (hsocket : 0 ≤ answers.socket)
    (hconnect : answers.connect = 0) (hfcntl : answers.fcntl = 0) (hinit : answers.ioInit = 0) :
    sktcpclientConnect tcp answers = (0, [.socket answers.socket, .ioInit answers.socket 0],
      { tcp with fd := answers.socket, state := .connected }) := by
  have hvalid : ¬ answers.socket = -1 := by omega
  have hcreated : createNoblockSocketFd answers = (answers.socket, [.socket answers.socket]) := by
    rw [createNoblockSocketFd, if_neg hvalid, if_neg (by simp [hconnect]),
      if_neg (by simp [hfcntl])]
  simp only [sktcpclientConnect, hcreated]
  rw [if_neg (by omega), if_neg (by simp [hinit]), hinit]
  rfl

/-- The new socket is the client's, and the one it had is left to nobody.
SOURCE: sktcpclient.c:107-133 -/
theorem SocketLedger.connect (hs : SocketLedger calls leaked s) {answers : ConnectAnswers}
    (hmet : connectSucceeds s (.connect answers)) (ret : Option ℤ) :
    SocketLedger (calls ++ socketCalls (sktcpclientConnect s.tcp answers).2.1)
      (connectedFd s.tcp ++ leaked) (s.done ret (sktcpclientConnect s.tcp answers).2).2 := by
  obtain ⟨⟨hvalid, hfresh⟩, hconnect, hfcntl, hinit⟩ := hmet
  rw [connect_succeeds s.tcp hvalid hconnect hfcntl hinit]
  exact ⟨hs.run.opened hfresh, hs.owned.cons answers.socket⟩

/-- The socket is closed, if there is one.
SOURCE: sktcpclient.c:135-152 -/
theorem SocketLedger.disconnect (hs : SocketLedger calls leaked s) (ret : Option ℤ) :
    SocketLedger (calls ++ socketCalls (sktcpclientDisconnect s.tcp).2.1) leaked
      (s.done ret (sktcpclientDisconnect s.tcp).2).2 := by
  cases hstate : s.tcp.state with
  | disconnected =>
    simp only [sktcpclientDisconnect, hstate]
    exact hs.same ret rfl
  | connected =>
    have howned : s.fds.Perm (s.tcp.fd :: leaked) := by
      have := hs.owned
      rwa [connectedFd, hstate] at this
    have hclosed := howned.erase s.tcp.fd
    rw [List.erase_cons_head] at hclosed
    simp only [sktcpclientDisconnect, hstate]
    exact ⟨hs.run.closed (howned.mem_iff.mpr List.mem_cons_self), hclosed⟩

/-- SOURCE: sktcpclient.c:85-105 -/
theorem SocketLedger.readable (hs : SocketLedger calls leaked s) (n errno : ℤ) (buf : List UInt8)
    (ret : Option ℤ) :
    SocketLedger (calls ++ socketCalls (fdReadEventHandler s.tcp n errno buf).1) leaked
      (s.done ret (fdReadEventHandler s.tcp n errno buf)).2 := by
  simp only [fdReadEventHandler]
  by_cases hend : n = 0
  · rw [if_pos hend]
    exact hs.disconnect ret
  rw [if_neg hend]
  by_cases herror : n = -1
  · rw [if_pos herror]
    by_cases hagain : errno = EAGAIN
    · rw [if_pos hagain]
      exact hs.same ret rfl
    · rw [if_neg hagain]
      exact hs.disconnect ret
  rw [if_neg herror]
  cases s.tcp.cfg.recvCb with
  | false => exact hs.same ret rfl
  | true => exact hs.same ret rfl

/-- SOURCE: sktcpclient.c:46-52 -/
theorem SocketLedger.fini (hs : SocketLedger calls leaked s) (ret : Option ℤ) :
    SocketLedger (calls ++ socketCalls (sktcpclientFini s.tcp).2.1) leaked
      (s.done ret (sktcpclientFini s.tcp).2).2 := by
  cases hstate : s.tcp.state with
  | connected =>
    simp only [sktcpclientFini, hstate]
    exact hs.disconnect ret
  | disconnected =>
    simp only [sktcpclientFini, hstate]
    exact hs.same ret rfl

/-- A step keeps the account; it leaves a socket to nobody exactly if it connects a
client that is connected.
SOURCE: sktcpclient.c:46-168 -/
theorem SocketLedger.step (hs : SocketLedger calls leaked s) {act : TcpClientAct}
    {obs : TcpClientObs}
    (hmet : connectSucceeds s act) (hstep : tcpClientStep s act = some (obs, t)) :
    ∃ lost, SocketLedger (calls ++ socketCalls obs.events) (lost ++ leaked) t ∧
      (lost = [] ↔ connectsOnce s act) := by
  cases act with
  | connect answers =>
    cases hstep
    refine ⟨connectedFd s.tcp, hs.connect hmet none, ?_⟩
    rw [connectedFd, connectsOnce]
    cases s.tcp.state <;> simp
  | disconnect =>
    cases hstep
    exact ⟨[], hs.disconnect none, by simp [connectsOnce]⟩
  | send dat writeRet =>
    cases hstep
    have hquiet : socketCalls (sktcpclientSend s.tcp dat writeRet).2 = [] := by
      cases hstate : s.tcp.state <;> simp only [sktcpclientSend, hstate] <;> rfl
    exact ⟨[], hs.same none hquiet, by simp [connectsOnce]⟩
  | readable n errno buf =>
    cases hstep
    exact ⟨[], hs.readable n errno buf none, by simp [connectsOnce]⟩
  | fini =>
    cases hstep
    exact ⟨[], hs.fini none, by simp [connectsOnce]⟩

/-- SOURCE: sktcpclient.c:27-44 -/
theorem state_of_init {tcp tcp₀ : TcpClient} {cfg : Option TcpClientConfig}
    (hinit : sktcpclientInit tcp₀ cfg true = (0, tcp)) : tcp.state = .disconnected := by
  cases cfg with
  | none =>
    have hret : -EINVAL = (0 : ℤ) := congrArg Prod.fst hinit
    exact absurd hret (by decide)
  | some cfg =>
    simp only [sktcpclientInit] at hinit
    by_cases hinvalid : cfg.bufferSize = 0 ∨ cfg.ctx = false
    · rw [if_pos hinvalid] at hinit
      have hret : -EINVAL = (0 : ℤ) := congrArg Prod.fst hinit
      exact absurd hret (by decide)
    · rw [if_neg hinvalid] at hinit
      cases hinit
      rfl

/-- A disconnected client has no socket. -/
theorem SocketLedger.start {tcp : TcpClient} (hstate : tcp.state = .disconnected) :
    SocketLedger [] [] ⟨tcp, []⟩ := by
  refine ⟨.start, ?_⟩
  rw [connectedFd, hstate]
  exact .refl _

/-- The calls on sockets in a history. -/
def socketCallsOf (h : List (TcpClientAct × TcpClientObs)) : List FdCall :=
  h.flatMap fun e => socketCalls e.2.events

/-- Where no connected client is connected, nothing is left to nobody. -/
theorem socketLedger_once {tcp : TcpClient} (hstate : tcp.state = .disconnected)
    {h : List (TcpClientAct × TcpClientObs)}
    (hrun : tcpClientMachine.Run (fun s act => connectSucceeds s act ∧ connectsOnce s act)
      ⟨tcp, []⟩ h s) :
    SocketLedger (socketCallsOf h) [] s := by
  refine hrun.invariant (fun h s => SocketLedger (socketCallsOf h) [] s) (.start hstate) ?_
  rintro h s act obs t hs ⟨met, honce⟩ moved
  obtain ⟨lost, ht, hlost⟩ := hs.step met moved
  obtain rfl := hlost.mpr honce
  simpa [socketCallsOf] using ht

/-- Where nothing is left to nobody, no connected client is connected. -/
theorem socketLedger_run {tcp : TcpClient} (hstate : tcp.state = .disconnected)
    {h : List (TcpClientAct × TcpClientObs)}
    (hrun : tcpClientMachine.Run connectSucceeds ⟨tcp, []⟩ h s) :
    ∃ leaked, SocketLedger (socketCallsOf h) leaked s ∧
      (leaked = [] → tcpClientMachine.Run (fun s act => connectSucceeds s act ∧ connectsOnce s act)
        ⟨tcp, []⟩ h s) := by
  induction hrun with
  | start => exact ⟨[], .start hstate, fun _ => .start⟩
  | @next h s act obs t before met moved ih =>
    obtain ⟨leaked, hs, hleaked⟩ := ih
    obtain ⟨lost, ht, hlost⟩ := hs.step met moved
    refine ⟨lost ++ leaked, by simpa [socketCallsOf] using ht, fun hnone => ?_⟩
    obtain ⟨hnew, hold⟩ := List.append_eq_nil_iff.mp hnone
    exact .next (hleaked hold) ⟨met, hlost.mp hnew⟩ moved

/-- The sockets opened and not closed are the client's `fd` when it is connected and
none when it is not, and each `close` was of an open one. -/
structure OneSocket (h : List (TcpClientAct × TcpClientObs)) (s : TcpClientWorld) : Prop where
  run : FdRun (socketCallsOf h) s.fds
  connected : s.tcp.state = .connected → s.fds = [s.tcp.fd]
  disconnected : s.tcp.state = .disconnected → s.fds = []

/-- The only socket is the one in `tcp->fd`. -/
theorem OneSocket.fds_eq {h : List (TcpClientAct × TcpClientObs)} (hone : OneSocket h s) :
    s.fds = connectedFd s.tcp := by
  cases hstate : s.tcp.state with
  | connected => rw [hone.connected hstate, connectedFd, hstate]
  | disconnected => rw [hone.disconnected hstate, connectedFd, hstate]

/-- An account with nothing left over is one socket at most. -/
theorem SocketLedger.oneSocket {h : List (TcpClientAct × TcpClientObs)}
    (hs : SocketLedger (socketCallsOf h) [] s) : OneSocket h s := by
  have howned := hs.owned
  rw [List.append_nil, connectedFd] at howned
  refine ⟨hs.run, fun hstate => ?_, fun hstate => ?_⟩
  · rw [hstate] at howned
    exact List.perm_singleton.mp howned
  · rw [hstate] at howned
    exact howned.eq_nil

end Ctools.Analysis

open Ctools.Library Ctools.Program Ctools.Analysis in
/-- **One socket per connected client.**  In every run of an initialised client in which
the calls inside `sktcpclient_connect` succeed, its open sockets are `fd` when it is
connected and none when it is not, if and only if in each step of the run that connects
it, it was disconnected.
SOURCE: sktcpclient.c:46-168 -/
theorem Ctools.Analysis.one_socket_iff {tcp tcp₀ : TcpClient} {cfg : Option TcpClientConfig}
    (hinit : sktcpclientInit tcp₀ cfg true = (0, tcp)) {h : List (TcpClientAct × TcpClientObs)}
    {s : TcpClientWorld} (hrun : tcpClientMachine.Run connectSucceeds ⟨tcp, []⟩ h s) :
    OneSocket h s ↔
      tcpClientMachine.Run (fun s act => connectSucceeds s act ∧ connectsOnce s act)
        ⟨tcp, []⟩ h s := by
  have hstate := state_of_init hinit
  constructor
  · intro hone
    obtain ⟨leaked, hs, hleaked⟩ := socketLedger_run hstate hrun
    have hlen := hs.owned.length_eq
    rw [hone.fds_eq, List.length_append] at hlen
    exact hleaked (List.eq_nil_of_length_eq_zero (by omega))
  · intro honce
    exact (socketLedger_once hstate honce).oneSocket

open Ctools.Library Ctools.Program Ctools.Analysis in
/-- A client connects, receives, disconnects when it reads the end, and connects again. -/
theorem Ctools.Analysis.one_socket_reconnect :
    ∃ h s, tcpClientMachine.Run connectSucceeds
        ⟨⟨⟨true, 64, true⟩, 0, true, .disconnected⟩, []⟩ h s ∧
      h.length = 5 ∧ OneSocket h s ∧ s.fds = [4] := by
  have honce := Machine.run_of_execUnder (m := tcpClientMachine)
    (fun s act => connectSucceeds s act ∧ connectsOnce s act)
    ⟨⟨⟨true, 64, true⟩, 0, true, .disconnected⟩, []⟩
    [.connect ⟨4, 0, 0, 0⟩, .readable 2 0 [104, 105], .readable 0 0 [], .disconnect,
      .connect ⟨4, 0, 0, 0⟩] rfl
  have hrun := honce.weaken fun _ _ hmet => hmet.1
  have hinit :
      sktcpclientInit ⟨⟨false, 0, false⟩, 0, false, .disconnected⟩ (some ⟨true, 64, true⟩) true =
      (0, ⟨⟨true, 64, true⟩, 0, true, .disconnected⟩) := rfl
  exact ⟨_, _, hrun, rfl, (one_socket_iff hinit hrun).mpr honce, rfl⟩

open Ctools.Library Ctools.Program Ctools.Analysis in
/-- A connected client is connected again: its first socket stays open for ever.
SOURCE: sktcpclient.c:107-133 -/
theorem Ctools.Analysis.two_sockets :
    ∃ h s, tcpClientMachine.Run connectSucceeds
        ⟨⟨⟨true, 64, true⟩, 0, true, .disconnected⟩, []⟩ h s ∧
      s.tcp.state = .disconnected ∧ s.fds = [4] ∧ ¬ OneSocket h s := by
  have hrun := Machine.run_of_execUnder (m := tcpClientMachine) connectSucceeds
    ⟨⟨⟨true, 64, true⟩, 0, true, .disconnected⟩, []⟩
    [.connect ⟨4, 0, 0, 0⟩, .connect ⟨5, 0, 0, 0⟩, .disconnect] rfl
  refine ⟨_, _, hrun, rfl, rfl, fun hone => ?_⟩
  exact absurd (hone.disconnected rfl) (by decide)
