import Ctools.Analysis.SktcpserverMoves
import Ctools.Library.Table

/-!
# Who owns the server's descriptors

Every descriptor that is open is the listening one, the `channel_fd` of one record in
`client_list`, or was left to nobody when the connect callback refused its connection
(`Ledger`).  Each move keeps this account: what `accept` returns goes to a new record
or is closed at once, and a record that leaves the list has its descriptor closed.
The path that refuses a connection frees the record and returns, so the account of the
clients is complete exactly in the runs in which no connection is refused.
-/

set_option autoImplicit false

namespace Ctools.Analysis

open Ctools.Library Ctools.Program Ctools.Interface

/-- The descriptor the server listens on, until it is shut down. -/
def listening (tcp : Server) : List ℤ := if tcp.rxbuffer then [tcp.listenFd] else []

/-- The account after the calls: each descriptor that is not closed has one owner, or is
left to nobody. -/
structure Ledger (calls : List FdCall) (leaked : List ℤ) (s : ServerWorld) : Prop where
  run : FdRun calls s.fds
  owned : s.fds.Perm (listening s.tcp ++ (s.tcp.clientList.map Client.channelFd ++ leaked))
  valid : ∀ p ∈ s.tcp.clientList, 0 ≤ p.channelFd
  listens : 0 ≤ s.tcp.listenFd
  stopped : s.tcp.rxbuffer = false → s.tcp.clientList = []

variable {s t : ServerWorld} {calls : List FdCall} {leaked : List ℤ}

/-- The client that is disconnected has its descriptor closed.
SOURCE: sktcpserver.c:41-56 -/
theorem Ledger.disconnect (hs : Ledger calls leaked s) {p : Client}
    (known : clientHandleToPtr s.tcp p.handle = some p) :
    Ledger (calls ++ fdCalls (clientDisconnect s.tcp p).1) leaked
      ⟨(clientDisconnect s.tcp p).2, fdsAfter s.fds (fdCalls (clientDisconnect s.tcp p).1)⟩ := by
  have hperm := perm_of_find? known
  have hmem : p ∈ s.tcp.clientList := List.mem_of_find?_eq_some known
  have hvalid := hs.valid p hmem
  have hcloses : fdCalls (clientDisconnect s.tcp p).1 = [.closes p.channelFd] := by
    cases hset : s.tcp.cfg.clientDisconnectCb <;> simp [clientDisconnect, hset, hvalid, fdCalls]
  have hrest : s.fds.Perm (p.channelFd :: (listening s.tcp ++
      ((s.tcp.clientList.eraseP fun c => c.handle = p.handle).map Client.channelFd ++
        leaked))) := by
    refine hs.owned.trans
      (.trans (.append_left _ ((hperm.map Client.channelFd).append_right leaked)) ?_)
    exact List.perm_middle
  rw [hcloses]
  exact {
    run := hs.run.closed (hrest.mem_iff.mpr List.mem_cons_self)
    owned := by
      have herased := hrest.erase p.channelFd
      rw [List.erase_cons_head] at herased
      exact herased
    valid := fun c hc => hs.valid c (List.mem_of_mem_eraseP hc)
    listens := hs.listens
    stopped := fun hstop => by
      have hempty := hs.stopped hstop
      rw [hempty] at hmem
      cases hmem }

/-- The descriptors of refused connections, which nobody closes.
SOURCE: sktcpserver.c:106-110 -/
def leftOpen (given : List Admission) : List ℤ :=
  given.filterMap fun a =>
    match a with
    | .refused fd _ _ _ => some fd
    | .admitted _ _ _ => none

/-- **Each move keeps the account.** -/
theorem Ledger.move (hs : Ledger calls leaked s) {events : List ServerEvent}
    {given : List Admission}
    (hmove : ServerMove freshFd s events given t) :
    Ledger (calls ++ fdCalls events) (leaked ++ leftOpen given) t := by
  cases hmove with
  | quiet hquiet =>
    rw [fdCalls_quiet hquiet]
    simpa [leftOpen] using hs
  | dropped fresh =>
    rw [show leftOpen [] = [] from rfl, List.append_nil]
    exact { hs with run := hs.run.openedClosed fresh }
  | @refused fd client ret priData fresh unknown hset hret =>
    rw [show leftOpen [.refused fd client ret priData] = [fd] from rfl]
    exact {
      run := hs.run.opened fresh
      owned := by
        refine (hs.owned.cons fd).trans ?_
        rw [← List.append_assoc, ← List.append_assoc, ← List.append_assoc]
        exact (List.perm_append_singleton fd _).symm
      valid := hs.valid
      listens := hs.listens
      stopped := hs.stopped }
  | @admitted fd client priData fresh valid unknown running =>
    have hopens : fdCalls (.accept fd :: [.connectCb client 0 priData].filter (isSet s.tcp.cfg)) =
        [.opens fd] := by
      rw [List.filter_singleton]
      cases isSet s.tcp.cfg (.connectCb client 0 priData) <;> rfl
    rw [hopens, show leftOpen [.admitted fd client priData] = [] from rfl, List.append_nil]
    exact {
      run := hs.run.opened fresh
      owned := (hs.owned.cons fd).trans List.perm_middle.symm
      valid := fun p hp => by
        rcases List.mem_cons.mp hp with rfl | hold
        · exact valid
        · exact hs.valid p hold
      listens := hs.listens
      stopped := fun hstop => absurd (hstop.symm.trans running) Bool.false_ne_true }
  | received known hset =>
    rw [show leftOpen [] = [] from rfl, List.append_nil]
    exact { hs with run := by simpa [fdCalls] using hs.run }
  | disconnected known =>
    rw [show leftOpen [] = [] from rfl, List.append_nil]
    exact hs.disconnect known
  | stopped empty running valid =>
    have hperm : s.fds.Perm (s.tcp.listenFd :: leaked) := by
      have := hs.owned
      rwa [listening, if_pos running, empty] at this
    rw [show leftOpen [] = [] from rfl, List.append_nil]
    exact {
      run := hs.run.closed (hperm.mem_iff.mpr List.mem_cons_self)
      owned := by
        have herased := hperm.erase s.tcp.listenFd
        rw [List.erase_cons_head] at herased
        show (s.fds.erase s.tcp.listenFd).Perm
          ([] ++ (s.tcp.clientList.map Client.channelFd ++ leaked))
        rw [empty]
        exact herased
      valid := hs.valid
      listens := hs.listens
      stopped := fun _ => empty }

/-- The descriptors that a step's connect callback refuses.
SOURCE: sktcpserver.c:106-110 -/
def refusedFds (cfg : ServerConfig) : ServerAct → List ℤ
  | .conn newFd (some _) ret _ =>
      if 0 ≤ newFd ∧ cfg.clientConnectCb = true ∧ ret ≠ 0 then [newFd] else []
  | _ => []

/-- What is left open are the descriptors of refused clients. -/
theorem leftOpen_admissions (cfg : ServerConfig) (act : ServerAct) :
    leftOpen (admissions cfg act) = refusedFds cfg act := by
  cases act with
  | conn newFd allocated ret priData =>
    cases allocated with
    | none => rfl
    | some client =>
      simp only [admissions, refusedFds]
      by_cases hfail : newFd < 0
      · rw [if_pos hfail, if_neg (by omega)]
        rfl
      · rw [if_neg hfail]
        by_cases hrefuse : cfg.clientConnectCb = true ∧ ret ≠ 0
        · rw [if_pos hrefuse, if_pos ⟨by omega, hrefuse⟩]
          rfl
        · have hnone : ¬ (0 ≤ newFd ∧ cfg.clientConnectCb = true ∧ ret ≠ 0) := fun h => hrefuse h.2
          rw [if_neg hrefuse, if_neg hnone]
          rfl
  | _ => rfl

/-- A step keeps the account, with the descriptors it refuses.
SOURCE: sktcpserver.c:58-282 -/
theorem Ledger.step (hs : Ledger calls leaked s) {act : ServerAct} {obs : ServerObs}
    (hguard : serverGuard freshFd s act) (hstep : serverStep s act = some (obs, t)) :
    Ledger (calls ++ fdCalls obs.events) (leaked ++ refusedFds s.tcp.cfg act) t ∧
      t.tcp.cfg = s.tcp.cfg ∧ t.tcp.listenFd = s.tcp.listenFd := by
  have hmoves := step_moves hs.listens hguard hstep
  refine ⟨?_, hmoves.cfg_eq⟩
  rw [← leftOpen_admissions]
  refine hmoves.invariant (fun events given u =>
    Ledger (calls ++ fdCalls events) (leaked ++ leftOpen given) u) [] []
    (by simpa [fdCalls, leftOpen] using hs) ?_
  intro events given u more new v hu hmove
  have hsplit : leftOpen (given ++ new) = leftOpen given ++ leftOpen new := List.filterMap_append
  rw [fdCalls_append, hsplit, ← List.append_assoc, ← List.append_assoc]
  exact hu.move hmove

/-- The calls on descriptors in a history. -/
def callsOf (h : List (ServerAct × ServerObs)) : List FdCall :=
  h.flatMap fun e => fdCalls e.2.events

/-- The descriptors refused in a history. -/
def refusedIn (cfg : ServerConfig) (h : List (ServerAct × ServerObs)) : List ℤ :=
  h.flatMap fun e => refusedFds cfg e.1

/-- What `sktcpserver_init` leaves.
SOURCE: sktcpserver.c:172-190 -/
def serverStart (cfg : ServerConfig) (listenFd : ℤ) : ServerWorld :=
  ⟨(sktcpserverInit cfg true listenFd).2, [listenFd]⟩

/-- A server that is initialised listens. -/
theorem listenFd_of_init {cfg : ServerConfig} {listenFd : ℤ}
    (hinit : (sktcpserverInit cfg true listenFd).1 = 0) : 0 ≤ listenFd := by
  by_contra hneg
  rw [sktcpserverInit, if_neg (by simp), if_pos (by omega)] at hinit
  cases hinit

/-- A server behind `sktcpserver_init`. -/
theorem serverStart_eq {cfg : ServerConfig} {listenFd : ℤ} (hlisten : 0 ≤ listenFd) :
    serverStart cfg listenFd = ⟨⟨cfg, listenFd, [], true⟩, [listenFd]⟩ := by
  rw [serverStart, sktcpserverInit, if_neg (by simp), if_neg (by omega)]

/-- In every run each open descriptor has one owner or was refused. -/
theorem ledger_run {cfg : ServerConfig} {listenFd : ℤ} (hlisten : 0 ≤ listenFd)
    {h : List (ServerAct × ServerObs)}
    (hrun : serverMachine.Run (serverGuard freshFd) (serverStart cfg listenFd) h s) :
    Ledger (.opens listenFd :: callsOf h) (refusedIn cfg h) s ∧ s.tcp.cfg = cfg ∧
      s.tcp.listenFd = listenFd := by
  refine hrun.invariant (fun h s => Ledger (.opens listenFd :: callsOf h) (refusedIn cfg h) s ∧
    s.tcp.cfg = cfg ∧ s.tcp.listenFd = listenFd)
    ⟨?_, by rw [serverStart_eq hlisten], by rw [serverStart_eq hlisten]⟩ ?_
  · rw [serverStart_eq hlisten]
    have hlistens : FdRun [.opens listenFd] [listenFd] := FdRun.start.opened (by simp)
    exact {
      run := hlistens
      owned := .refl _
      valid := by simp
      listens := hlisten
      stopped := fun _ => rfl }
  · rintro h u act obs t ⟨hu, hcfg, hlist⟩ hguard hstep
    obtain ⟨ht, hcfg', hlist'⟩ := hu.step hguard hstep
    refine ⟨?_, hcfg'.trans hcfg, hlist'.trans hlist⟩
    rw [hcfg] at ht
    simpa [callsOf, refusedIn] using ht

/-- The descriptors `accept` returned are closed, each once, or are the `channel_fd` of
one record; when the server is shut down all are closed. -/
structure DescriptorsOwned (h : List (ServerAct × ServerObs)) (s : ServerWorld) : Prop where
  run : FdRun (.opens s.tcp.listenFd :: callsOf h) s.fds
  owned : s.fds.Perm (listening s.tcp ++ s.tcp.clientList.map Client.channelFd)
  distinct : (s.tcp.clientList.map Client.channelFd).Nodup
  shutDown : s.tcp.rxbuffer = false → s.fds = []

end Ctools.Analysis

open Ctools.Library Ctools.Program Ctools.Analysis in
/-- **Descriptor ownership.**  In every run of an initialised server, every descriptor
that `accept` returned is closed once or is owned by one record, and all are closed
after `sktcpserver_fini`, if and only if the connect callback has refused no connection
in the run.
SOURCE: sktcpserver.c:41-120, sktcpserver.c:192-282 -/
theorem Ctools.Analysis.descriptors_owned_iff {cfg : ServerConfig} {listenFd : ℤ}
    (hinit : (sktcpserverInit cfg true listenFd).1 = 0) {h : List (ServerAct × ServerObs)}
    {s : ServerWorld}
    (hrun : serverMachine.Run (serverGuard freshFd) (serverStart cfg listenFd) h s) :
    DescriptorsOwned h s ↔ ∀ e ∈ h, refusedFds cfg e.1 = [] := by
  obtain ⟨hs, -, hlist⟩ := ledger_run (listenFd_of_init hinit) hrun
  rw [← List.flatMap_eq_nil_iff]
  show DescriptorsOwned h s ↔ refusedIn cfg h = []
  constructor
  · intro howned
    have hlen := (hs.owned.symm.trans howned.owned).length_eq
    simp only [List.length_append] at hlen
    exact List.eq_nil_of_length_eq_zero (by omega)
  · intro hnone
    have howned := hs.owned
    rw [hnone, List.append_nil] at howned
    refine ⟨by rw [hlist]; exact hs.run, howned, ?_, fun hstop => ?_⟩
    · exact (List.nodup_append.mp (howned.nodup_iff.mp hs.run.nodup)).2.1
    · rw [listening, hstop, hs.stopped hstop] at howned
      exact howned.eq_nil

open Ctools.Library Ctools.Program Ctools.Analysis in
/-- A client connects, sends data and closes; another is connected when the server is
shut down: no connection is refused. -/
theorem Ctools.Analysis.descriptors_owned_served :
    ∃ h s, serverMachine.Run (serverGuard freshFd) (serverStart ⟨true, true, true⟩ 3) h s ∧
        h.length = 5 ∧
      DescriptorsOwned h s := by
  have hrun := Machine.run_of_execUnder (m := serverMachine) (serverGuard freshFd)
    (serverStart ⟨true, true, true⟩ 3)
    [.conn 4 (some 100) 0 7, .receive 100 2 0 [104, 105], .receive 100 0 0 [],
      .conn 4 (some 200) 0 8, .fini] rfl
  exact ⟨_, _, hrun, rfl, (descriptors_owned_iff rfl hrun).mpr (by decide)⟩

open Ctools.Library Ctools.Program Ctools.Analysis in
/-- The connect callback refuses a connection: its descriptor is in no record and is
never closed, not even by `sktcpserver_fini`.
SOURCE: sktcpserver.c:106-110 -/
theorem Ctools.Analysis.descriptors_left_open :
    (∃ h s, serverMachine.Run (serverGuard freshFd) (serverStart ⟨true, false, false⟩ 3) h s ∧
      s.fds = [5, 3] ∧ s.tcp.clientList = [] ∧ ¬ DescriptorsOwned h s) ∧
    ∃ h s, serverMachine.Run (serverGuard freshFd) (serverStart ⟨true, false, false⟩ 3) h s ∧
      s.tcp.rxbuffer = false ∧ s.fds = [5] ∧ ¬ DescriptorsOwned h s := by
  have hrefused := Machine.run_of_execUnder (m := serverMachine) (serverGuard freshFd)
    (serverStart ⟨true, false, false⟩ 3) [.conn 5 (some 100) 1 0] rfl
  have hstopped := Machine.run_of_execUnder (m := serverMachine) (serverGuard freshFd)
    (serverStart ⟨true, false, false⟩ 3) [.conn 5 (some 100) 1 0, .fini] rfl
  refine ⟨⟨_, _, hrefused, rfl, rfl, fun howned => ?_⟩,
    ⟨_, _, hstopped, rfl, rfl, fun howned => ?_⟩⟩
  · have hlen := howned.owned.length_eq
    exact absurd hlen (by decide)
  · exact absurd (howned.shutDown rfl) (by decide)
