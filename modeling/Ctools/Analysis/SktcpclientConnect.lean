import Ctools.Analysis.SktcpclientSockets

/-!
# What a failing connect of the TCP client leaves behind

`sktcpclient_connect` can fail at `socket`, at `connect`, at `fcntl` and at
`uev_io_init`.  It changes the client in none of these cases, but only the first one
comes before the descriptor exists, and no exit closes it (`connect_step`).  So a
failed attempt leaves the open sockets as they were if it failed at `socket`, and one
more after any later failure; a run of failed attempts adds them up.
-/

set_option autoImplicit false

namespace Ctools.Analysis

open Ctools.Library Ctools.Program

/-- The calls inside `sktcpclient_connect` answer as documented: `socket` with -1 or a
descriptor that is not open, `connect` and `fcntl` with 0 or -1. -/
def connectAnswered (s : TcpClientWorld) : TcpClientAct → Prop
  | .connect answers =>
      (answers.socket = -1 ∨ (0 ≤ answers.socket ∧ answers.socket ∉ s.fds)) ∧
      (answers.connect = 0 ∨ answers.connect = -1) ∧ (answers.fcntl = 0 ∨ answers.fcntl = -1)
  | _ => True

instance (s : TcpClientWorld) : ∀ act, Decidable (connectAnswered s act)
  | .connect _ => inferInstanceAs (Decidable ((_ ∨ (_ ∧ _)) ∧ (_ ∨ _) ∧ (_ ∨ _)))
  | .disconnect | .send _ _ | .readable _ _ _ | .fini => inferInstanceAs (Decidable True)

/-- Nothing fails once the socket exists. -/
def NothingFailsLate (answers : ConnectAnswers) : Prop :=
  answers.socket = -1 ∨ (answers.connect = 0 ∧ answers.fcntl = 0 ∧ answers.ioInit = 0)

/-- The client and the set of its open sockets are as they were. -/
structure Untouched (s t : TcpClientWorld) : Prop where
  state_eq : t.tcp.state = s.tcp.state
  fd_eq : t.tcp.fd = s.tcp.fd
  fds_eq : ∀ fd, fd ∈ t.fds ↔ fd ∈ s.fds

/-- If the call fails, it changes nothing. -/
def FailureUndone (s : TcpClientWorld) (answers : ConnectAnswers) : Prop :=
  ∀ obs t, tcpClientStep s (.connect answers) = some (obs, t) → obs.ret ≠ some 0 → Untouched s t

/-- A connect that returned non-zero. -/
def FailedConnect (e : TcpClientAct × TcpClientObs) : Prop :=
  ∃ answers, e.1 = .connect answers ∧ e.2.ret ≠ some 0

variable {s t : TcpClientWorld} {answers : ConnectAnswers} {obs : TcpClientObs}

/-- A connect fails and has opened no socket, or fails and leaves the one it has opened
open, or succeeds.
SOURCE: sktcpclient.c:54-83, sktcpclient.c:107-133 -/
theorem connect_step (hmet : connectAnswered s (.connect answers))
    (hstep : tcpClientStep s (.connect answers) = some (obs, t)) :
    (obs.ret ≠ some 0 ∧ t = s ∧ answers.socket = -1) ∨
    (obs.ret ≠ some 0 ∧ t = { s with fds := answers.socket :: s.fds } ∧
      answers.socket ∉ s.fds ∧ ¬ NothingFailsLate answers) ∨
    (obs.ret = some 0 ∧ NothingFailsLate answers) := by
  obtain ⟨hsocket, hconnect, hfcntl⟩ := hmet
  have hdone : obs = ⟨some (sktcpclientConnect s.tcp answers).1,
      (sktcpclientConnect s.tcp answers).2.1⟩ ∧
      t = ⟨(sktcpclientConnect s.tcp answers).2.2,
        fdsAfter s.fds (socketCalls (sktcpclientConnect s.tcp answers).2.1)⟩ := by
    cases hstep
    exact ⟨rfl, rfl⟩
  obtain ⟨rfl, rfl⟩ := hdone
  rcases hsocket with hnone | ⟨hvalid, hfresh⟩
  · have hcreated : createNoblockSocketFd answers = (-1, []) := if_pos hnone
    have hcall : sktcpclientConnect s.tcp answers = (-1, [], s.tcp) := by
      simp only [sktcpclientConnect, hcreated]
      rw [if_pos (by decide)]
    rw [hcall]
    exact .inl ⟨by simp, rfl, hnone⟩
  have hopened : ¬ answers.socket = -1 := by omega
  by_cases hall : answers.connect = 0 ∧ answers.fcntl = 0 ∧ answers.ioInit = 0
  · obtain ⟨hc, hf, hi⟩ := hall
    rw [connect_succeeds s.tcp hvalid hc hf hi]
    exact .inr (.inr ⟨rfl, .inr ⟨hc, hf, hi⟩⟩)
  have hlate : ¬ NothingFailsLate answers := by
    rintro (hnone | hnever)
    · exact hopened hnone
    · exact hall hnever
  apply Or.inr
  apply Or.inl
  by_cases hready : answers.connect = 0 ∧ answers.fcntl = 0
  · -- `uev_io_init` failed
    obtain ⟨hc, hf⟩ := hready
    have hi : answers.ioInit ≠ 0 := fun hi => hall ⟨hc, hf, hi⟩
    have hcreated : createNoblockSocketFd answers = (answers.socket, [.socket answers.socket]) := by
      rw [createNoblockSocketFd, if_neg hopened, if_neg (not_not.mpr hc), if_neg (not_not.mpr hf)]
    have hcall : sktcpclientConnect s.tcp answers = (-1,
        [.socket answers.socket, .ioInit answers.socket answers.ioInit], s.tcp) := by
      simp only [sktcpclientConnect, hcreated]
      rw [if_neg hvalid.not_gt, if_pos hi]
      rfl
    rw [hcall]
    exact ⟨by simp, rfl, hfresh, hlate⟩
  · -- `connect` or `fcntl` failed
    have hcreated : createNoblockSocketFd answers = (-1, [.socket answers.socket]) := by
      rw [createNoblockSocketFd, if_neg hopened]
      by_cases hc : answers.connect = 0
      · have hf : answers.fcntl = -1 := hfcntl.resolve_left fun hf => hready ⟨hc, hf⟩
        rw [if_neg (not_not.mpr hc), hf, if_pos (by decide)]
      · rw [if_pos hc, hconnect.resolve_left hc]
    have hcall : sktcpclientConnect s.tcp answers = (-1, [.socket answers.socket], s.tcp) := by
      simp only [sktcpclientConnect, hcreated]
      rw [if_pos (by decide)]
    rw [hcall]
    exact ⟨by simp, rfl, hfresh, hlate⟩

/-- An open socket more is not what was there before. -/
theorem not_untouched_of_opened {fd : ℤ} (hfresh : fd ∉ s.fds) (hfd : fd ∈ t.fds) :
    ¬ Untouched s t := by
  intro hsame
  exact hfresh ((hsame.fds_eq fd).mp hfd)

/-- One call undoes its failure exactly if nothing fails once the socket exists. -/
theorem failureUndone_iff (hmet : connectAnswered s (.connect answers)) :
    FailureUndone s answers ↔ NothingFailsLate answers := by
  obtain ⟨⟨obs, t⟩, hstep⟩ : ∃ r, tcpClientStep s (.connect answers) = some r := ⟨_, rfl⟩
  constructor
  · intro hundone
    rcases connect_step hmet hstep with ⟨-, -, hnone⟩ | ⟨hret, rfl, hfresh, -⟩ | ⟨-, hnever⟩
    · exact .inl hnone
    · exact absurd (hundone obs _ hstep hret) (not_untouched_of_opened hfresh List.mem_cons_self)
    · exact hnever
  · intro hnever obs t hstep hret
    rcases connect_step hmet hstep with ⟨-, rfl, -⟩ | ⟨-, -, -, hlate⟩ | ⟨hzero, -⟩
    · exact ⟨rfl, rfl, fun fd => Iff.rfl⟩
    · exact absurd hnever hlate
    · exact absurd hzero hret

/-- Failed attempts leave the client alone and the sockets that were open open; they
add none exactly if none of them failed once its socket existed. -/
theorem failed_attempts {h : List (TcpClientAct × TcpClientObs)}
    (hrun : tcpClientMachine.Run connectAnswered s h t) (hfailed : ∀ e ∈ h, FailedConnect e) :
    t.tcp = s.tcp ∧ s.fds ⊆ t.fds ∧
      (t.fds ⊆ s.fds ↔ ∀ answers obs, (.connect answers, obs) ∈ h → NothingFailsLate answers) := by
  induction hrun with
  | start => exact ⟨rfl, List.Subset.refl _, by simp⟩
  | @next h t act obs u before met moved ih =>
    obtain ⟨htcp, hsub, hiff⟩ := ih fun e he => hfailed e (List.mem_append_left _ he)
    obtain ⟨answers, rfl, hret⟩ := hfailed (act, obs) (by simp)
    have hlast :
        ∀ answers' obs', (TcpClientAct.connect answers', obs') ∈ h ++ [(.connect answers, obs)] ↔
        (TcpClientAct.connect answers', obs') ∈ h ∨ (answers' = answers ∧ obs' = obs) := by
      simp
    rcases connect_step met moved with ⟨-, rfl, hnone⟩ | ⟨-, rfl, hfresh, hlate⟩ | ⟨hzero, -⟩
    · refine ⟨htcp, hsub, hiff.trans ⟨?_, ?_⟩⟩
      · intro hold answers' obs' he
        rcases (hlast answers' obs').mp he with hin | ⟨rfl, -⟩
        · exact hold answers' obs' hin
        · exact .inl hnone
      · intro hall answers' obs' hin
        exact hall answers' obs' ((hlast answers' obs').mpr (.inl hin))
    · refine ⟨htcp, List.subset_cons_of_subset _ hsub, ⟨?_, ?_⟩⟩
      · intro hnew
        exact absurd (hsub (hnew List.mem_cons_self)) hfresh
      · intro hall
        exact absurd (hall answers obs ((hlast answers obs).mpr (.inr ⟨rfl, rfl⟩))) hlate
    · exact absurd hzero hret

end Ctools.Analysis

open Ctools.Library Ctools.Program Ctools.Analysis in
/-- **When a failing connect leaves no trace.**  In every state, whether a client
reaches it or not, and for every outcome of the four calls, a `sktcpclient_connect` that
returns non-zero leaves `state`, `fd` and the set of open sockets as they were if and only if
nothing fails once the socket exists; and any number of failed attempts does so if
and only if this holds of each of them.
SOURCE: sktcpclient.c:53-83, sktcpclient.c:107-133 -/
theorem Ctools.Analysis.failed_connect_iff (s : TcpClientWorld) :
    (∀ answers, connectAnswered s (.connect answers) →
      (FailureUndone s answers ↔ NothingFailsLate answers)) ∧
    ∀ attempts t, tcpClientMachine.Run connectAnswered s attempts t →
      (∀ e ∈ attempts, FailedConnect e) →
      (Untouched s t ↔
        ∀ answers obs, (.connect answers, obs) ∈ attempts → NothingFailsLate answers) := by
  refine ⟨fun answers hmet => failureUndone_iff hmet, ?_⟩
  intro attempts t hattempts hfailed
  obtain ⟨htcp, hsub, hiff⟩ := failed_attempts hattempts hfailed
  rw [← hiff]
  constructor
  · intro hsame fd hfd
    exact (hsame.fds_eq fd).mp hfd
  · intro hnew
    exact ⟨by rw [htcp], by rw [htcp], fun fd => ⟨fun hfd => hnew hfd, fun hfd => hsub hfd⟩⟩

open Ctools.Library Ctools.Program Ctools.Analysis in
/-- A client that was connected and disconnected tries twice in vain to open a socket. -/
theorem Ctools.Analysis.failed_connect_refused :
    ∃ s t, Untouched s t ∧ s.tcp.fd = 4 ∧ t.fds = [] := by
  have hattempts := Machine.run_of_execUnder (m := tcpClientMachine) connectAnswered
    ⟨⟨⟨true, 64, true⟩, 4, true, .disconnected⟩, []⟩
    [.connect ⟨-1, 0, 0, 0⟩, .connect ⟨-1, 0, 0, 0⟩] rfl
  obtain ⟨-, hretries⟩ := failed_connect_iff ⟨⟨⟨true, 64, true⟩, 4, true, .disconnected⟩, []⟩
  refine ⟨_, _, (hretries _ _ hattempts ?_).mpr ?_, rfl, rfl⟩
  · intro e he
    simp only [List.mem_cons, List.not_mem_nil, or_false] at he
    rcases he with rfl | rfl <;> exact ⟨⟨-1, 0, 0, 0⟩, rfl, by decide⟩
  · intro answers obs he
    simp only [List.mem_cons, List.not_mem_nil, or_false, Prod.mk.injEq,
      TcpClientAct.connect.injEq] at he
    rcases he with ⟨rfl, -⟩ | ⟨rfl, -⟩ <;> exact .inl rfl

open Ctools.Library Ctools.Program Ctools.Analysis in
/-- The server refuses twice: each attempt returns -1 and leaves its socket open.
SOURCE: sktcpclient.c:69-73 -/
theorem Ctools.Analysis.failed_connect_leaks :
    ∃ h t, tcpClientMachine.Run connectAnswered
        ⟨⟨⟨true, 64, true⟩, 0, true, .disconnected⟩, []⟩ h t ∧
      (∀ e ∈ h, FailedConnect e) ∧ t.tcp.state = .disconnected ∧ t.fds = [5, 4] ∧
      ¬ Untouched ⟨⟨⟨true, 64, true⟩, 0, true, .disconnected⟩, []⟩ t := by
  have hrun := Machine.run_of_execUnder (m := tcpClientMachine) connectAnswered
    ⟨⟨⟨true, 64, true⟩, 0, true, .disconnected⟩, []⟩
    [.connect ⟨4, -1, 0, 0⟩, .connect ⟨5, -1, 0, 0⟩] rfl
  refine ⟨_, _, hrun, ?_, rfl, rfl, ?_⟩
  · intro e he
    simp only [List.mem_cons, List.not_mem_nil, or_false] at he
    rcases he with rfl | rfl
    · exact ⟨⟨4, -1, 0, 0⟩, rfl, by decide⟩
    · exact ⟨⟨5, -1, 0, 0⟩, rfl, by decide⟩
  · have hopened : (5 : ℤ) ∉ ([] : List ℤ) := List.not_mem_nil
    exact not_untouched_of_opened hopened List.mem_cons_self
