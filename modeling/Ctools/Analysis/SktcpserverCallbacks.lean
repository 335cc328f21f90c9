import Ctools.Analysis.SktcpserverDescriptors

/-!
# The callbacks of the TCP server

At any time the records in `client_list` have different handles, and of each handle
the user has been told what a handle's connections are to be told (`Told`): the one
that has the record, if there is one, has been admitted and its end not told yet
(`Protocol`).  Each move keeps this; a move is about one handle and says nothing of
the others, so one lemma for the handle and one for the others serve it.
-/

set_option autoImplicit false

namespace Ctools.Analysis

open Ctools.Library Ctools.Program Ctools.Interface

/-- The connections that got a handle. -/
def givenTo (client : ℕ) (given : List Admission) : List Admission :=
  given.filter fun a => a.client = client

/-- The user has been told of each handle what there is to tell. -/
structure Protocol (cfg : ServerConfig) (events : List ServerEvent) (given : List Admission)
    (s : ServerWorld) : Prop where
  cfg_eq : s.tcp.cfg = cfg
  distinct : (s.tcp.clientList.map Client.handle).Nodup
  told : ∀ client, Told cfg client (givenTo client given) (callbacksOf client events)
    (clientHandleToPtr s.tcp client)

variable {s t : ServerWorld} {cfg : ServerConfig} {events more : List ServerEvent}
  {given new : List Admission}

/-- Callbacks of a handle, in two pieces. -/
@[simp] theorem callbacksOf_append (client : ℕ) (events more : List ServerEvent) :
    callbacksOf client (events ++ more) = callbacksOf client events ++ callbacksOf client more :=
  List.filter_append ..

/-- Admissions under a handle, in two pieces. -/
@[simp] theorem givenTo_append (client : ℕ) (given new : List Admission) :
    givenTo client (given ++ new) = givenTo client given ++ givenTo client new :=
  List.filter_append ..

/-- What is quiet calls nothing back. -/
theorem callbacksOf_quiet {client : ℕ} (hquiet : ∀ e ∈ events, IsQuiet e) :
    callbacksOf client events = [] := by
  rw [callbacksOf, List.filter_eq_nil_iff]
  intro e he
  have := hquiet e he
  cases e <;> first | exact this.elim | exact Bool.false_ne_true

/-- A handle that a move is not about. -/
theorem Protocol.others (hs : Protocol cfg events given s) {client : ℕ}
    (hsilent : callbacksOf client more = []) (hgiven : givenTo client new = [])
    (hsame : clientHandleToPtr t.tcp client = clientHandleToPtr s.tcp client) :
    Told cfg client (givenTo client (given ++ new)) (callbacksOf client (events ++ more))
      (clientHandleToPtr t.tcp client) := by
  rw [givenTo_append, callbacksOf_append, hsilent, hgiven, List.append_nil, List.append_nil, hsame]
  exact hs.told client

/-- The client that is disconnected is told so, and its handle is free.
SOURCE: sktcpserver.c:41-56 -/
theorem Protocol.disconnect (hs : Protocol cfg events given s) {p : Client}
    (known : clientHandleToPtr s.tcp p.handle = some p) :
    Protocol cfg (events ++ (clientDisconnect s.tcp p).1) (given ++ [])
      ⟨(clientDisconnect s.tcp p).2, fdsAfter s.fds (fdCalls (clientDisconnect s.tcp p).1)⟩ := by
  have hcallbacks : ∀ client, callbacksOf client (clientDisconnect s.tcp p).1 =
      if p.handle = client then [.disconnectCb p.handle p.priData].filter (isSet cfg) else [] := by
    intro client
    rw [← hs.cfg_eq, List.filter_singleton]
    by_cases hclient : p.handle = client <;> by_cases hfd : 0 ≤ p.channelFd <;>
      cases hset : s.tcp.cfg.clientDisconnectCb <;>
        simp [clientDisconnect, callbacksOf, callbackOf, isSet, hclient, hset, hfd]
  refine ⟨hs.cfg_eq, hs.distinct.sublist ((List.eraseP_sublist).map _), fun client => ?_⟩
  by_cases hclient : p.handle = client
  · subst hclient
    have hfree : clientHandleToPtr (clientDisconnect s.tcp p).2 p.handle = none :=
      find?_eraseP_self hs.distinct p.handle
    have htold := hs.told p.handle
    rw [known] at htold
    rw [List.append_nil, callbacksOf_append, hcallbacks, if_pos rfl, hfree]
    exact htold.disconnect
  · refine hs.others ?_ rfl ?_
    · rw [hcallbacks, if_neg hclient]
    · refine find?_eraseP_of_not fun c hc => ?_
      rw [of_decide_eq_true hc]
      exact decide_eq_false hclient

/-- **Each move keeps the protocol.** -/
theorem Protocol.move (hs : Protocol cfg events given s) (hmove : ServerMove anyFd s more new t) :
    Protocol cfg (events ++ more) (given ++ new) t := by
  cases hmove with
  | quiet hquiet =>
    exact ⟨hs.cfg_eq, hs.distinct, fun client => hs.others (callbacksOf_quiet hquiet) rfl rfl⟩
  | dropped fresh => exact ⟨hs.cfg_eq, hs.distinct, fun client => hs.others rfl rfl rfl⟩
  | stopped empty running valid =>
    exact ⟨hs.cfg_eq, hs.distinct, fun client => hs.others rfl rfl rfl⟩
  | disconnected known => exact hs.disconnect known
  | @refused fd handle ret priData fresh unknown hset hret =>
    refine ⟨hs.cfg_eq, hs.distinct, fun client => ?_⟩
    by_cases hclient : handle = client
    · subst hclient
      have htold := hs.told handle
      rw [unknown] at htold
      have hmore := htold.refuse fd priData hret
      rw [List.filter_singleton, isSet, ← hs.cfg_eq, hset] at hmore
      rw [givenTo_append, callbacksOf_append]
      simpa [givenTo, Admission.client, callbacksOf, callbackOf, unknown, hs.cfg_eq] using hmore
    · refine hs.others ?_ ?_ rfl
      · simp [callbacksOf, callbackOf, hclient]
      · simp [givenTo, Admission.client, hclient]
  | @admitted fd handle priData fresh valid unknown running =>
    have hfree : handle ∉ s.tcp.clientList.map Client.handle := by
      intro hmem
      obtain ⟨c, hc, hhandle⟩ := List.mem_map.mp hmem
      exact List.find?_eq_none.mp unknown c hc (decide_eq_true hhandle)
    refine ⟨hs.cfg_eq, List.nodup_cons.mpr ⟨hfree, hs.distinct⟩, fun client => ?_⟩
    by_cases hclient : handle = client
    · subst hclient
      have htold := hs.told handle
      rw [unknown] at htold
      have hmore := htold.admit fd priData
      rw [givenTo_append, callbacksOf_append]
      cases hset : isSet cfg (.connectCb handle 0 priData) <;>
        simpa [givenTo, Admission.client, callbacksOf, callbackOf, clientHandleToPtr, hs.cfg_eq,
          hset]
          using hmore
    · refine hs.others ?_ ?_ ?_
      · cases hset : isSet s.tcp.cfg (.connectCb handle 0 priData) <;>
          simp [callbacksOf, callbackOf, hclient, hset]
      · simp [givenTo, Admission.client, hclient]
      · exact List.find?_cons_of_neg (by simpa using hclient)
  | @received p dat known hset =>
    refine ⟨hs.cfg_eq, hs.distinct, fun client => ?_⟩
    by_cases hclient : p.handle = client
    · subst hclient
      have htold := hs.told p.handle
      rw [known] at htold
      have hmore := htold.receive dat
      rw [List.filter_singleton, isSet, ← hs.cfg_eq, hset] at hmore
      rw [List.append_nil, callbacksOf_append]
      simpa [callbacksOf, callbackOf, known, hs.cfg_eq] using hmore
    · refine hs.others ?_ rfl rfl
      simp [callbacksOf, callbackOf, hclient]

/-- The events of a history. -/
def eventsOf (h : List (ServerAct × ServerObs)) : List ServerEvent := h.flatMap fun e => e.2.events

/-- The connections of a history that got a record. -/
def admissionsOf (cfg : ServerConfig) (h : List (ServerAct × ServerObs)) : List Admission :=
  h.flatMap fun e => admissions cfg e.1

/-- SOURCE: sktcpserver.c:58-282 -/
theorem Protocol.step (hs : Protocol cfg events given s) (valid : 0 ≤ s.tcp.listenFd)
    {act : ServerAct}
    {obs : ServerObs} (hguard : serverGuard anyFd s act)
    (hstep : serverStep s act = some (obs, t)) :
    Protocol cfg (events ++ obs.events) (given ++ admissions cfg act) t := by
  have hmoves := step_moves valid hguard hstep
  rw [hs.cfg_eq] at hmoves
  refine hmoves.invariant (Protocol cfg) events given hs ?_
  intro _ _ _ _ _ _ hu hmove
  exact hu.move hmove

/-- What holds of the callbacks in every state of a run. -/
theorem protocol_run {listenFd : ℤ} (hlisten : 0 ≤ listenFd) {h : List (ServerAct × ServerObs)}
    (hrun : serverMachine.Run (serverGuard anyFd) (serverStart cfg listenFd) h s) :
    Protocol cfg (eventsOf h) (admissionsOf cfg h) s ∧ s.tcp.listenFd = listenFd ∧
      ∀ e ∈ h, e.1 = .fini → s.tcp.rxbuffer = false ∧ s.tcp.clientList = [] := by
  refine hrun.invariant (fun h s => Protocol cfg (eventsOf h) (admissionsOf cfg h) s ∧
    s.tcp.listenFd = listenFd ∧
      ∀ e ∈ h, e.1 = .fini → s.tcp.rxbuffer = false ∧ s.tcp.clientList = [])
    ⟨?_, by rw [serverStart_eq hlisten], by simp⟩ ?_
  · rw [serverStart_eq hlisten]
    exact ⟨rfl, List.nodup_nil, fun client => .free []⟩
  · rintro h u act obs t ⟨hu, hlist, hover⟩ hguard hstep
    have hvalid : 0 ≤ u.tcp.listenFd := by omega
    have ht := hu.step hvalid hguard hstep
    have hlist' := (step_moves hvalid hguard hstep).cfg_eq.2
    refine ⟨by simpa [eventsOf, admissionsOf] using ht, hlist'.trans hlist, fun e he hfini => ?_⟩
    rcases List.mem_append.mp he with hold | hnew
    · -- the server is not used after it
      have hstopped := (hover e hold hfini).1
      exact absurd (hstopped.symm.trans hguard.1) Bool.false_ne_true
    · rw [List.mem_singleton] at hnew
      subst hnew
      obtain rfl : act = .fini := hfini
      cases hstep
      show (sktcpserverFini u.tcp).2.rxbuffer = false ∧ (sktcpserverFini u.tcp).2.clientList = []
      rw [fini_end]
      exact ⟨rfl, rfl⟩

end Ctools.Analysis

open Ctools.Library Ctools.Program Ctools.Interface Ctools.Analysis in
/-- **The callback protocol.**  In every run of an initialised server, the callbacks of
each handle are those of the connections that got it, in order: a refused one has only
its connect callback, an ended one its connect callback, its data and its end, each once
and with its `pri_data`, and the last one has not ended exactly if the handle is found.
After `sktcpserver_fini` no handle is found, so all have ended.
SOURCE: sktcpserver.c:41-120, sktcpserver.c:192-282 -/
theorem Ctools.Analysis.callbacks_follow_protocol {cfg : ServerConfig} {listenFd : ℤ}
    (hinit : (sktcpserverInit cfg true listenFd).1 = 0) {h : List (ServerAct × ServerObs)}
    {s : ServerWorld} (hrun : serverMachine.Run (serverGuard anyFd) (serverStart cfg listenFd) h s)
    (client : ℕ) :
    Told cfg client (givenTo client (admissionsOf cfg h)) (callbacksOf client (eventsOf h))
      (clientHandleToPtr s.tcp client) ∧
    ((∃ e ∈ h, e.1 = .fini) → clientHandleToPtr s.tcp client = none) := by
  obtain ⟨hs, -, hover⟩ := protocol_run (listenFd_of_init hinit) hrun
  refine ⟨hs.told client, ?_⟩
  rintro ⟨e, he, hfini⟩
  rw [clientHandleToPtr, (hover e he hfini).2]
  rfl

open Ctools.Library Ctools.Program Ctools.Interface Ctools.Analysis in
/-- Two connections get the same record, the first ends when it sends no more, the
second when the server is shut down. -/
theorem Ctools.Analysis.callbacks_of_recycled_handle :
    ∃ h s, serverMachine.Run (serverGuard anyFd) (serverStart ⟨true, true, true⟩ 3) h s ∧
      callbacksOf 100 (eventsOf h) =
          [.connectCb 100 0 7, .recvCb 100 7 [104, 105], .disconnectCb 100 7,
        .connectCb 100 0 8, .disconnectCb 100 8] ∧
      Told ⟨true, true, true⟩ 100 (givenTo 100 (admissionsOf ⟨true, true, true⟩ h))
        (callbacksOf 100 (eventsOf h)) (clientHandleToPtr s.tcp 100) ∧
      clientHandleToPtr s.tcp 100 = none := by
  have hrun := Machine.run_of_execUnder (m := serverMachine) (serverGuard anyFd)
    (serverStart ⟨true, true, true⟩ 3)
    [.conn 4 (some 100) 0 7, .receive 100 2 0 [104, 105], .receive 100 0 0 [],
      .conn 4 (some 100) 0 8, .fini] rfl
  have htold := callbacks_follow_protocol rfl hrun 100
  exact ⟨_, _, hrun, rfl, htold.1, htold.2 (by decide)⟩
