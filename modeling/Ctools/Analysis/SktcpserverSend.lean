import Ctools.Analysis.SktcpserverDescriptors

/-!
# What `sktcpserver_send` tells its caller

The caller has only the return value to know whether its data have been taken.  What
the kernel has taken for a descriptor is seen from the calls of `send` and their answers
(`bytesTaken`), and `SendReports` is what the value would have to say of it.  All paths
of the function return `dat_len`, so it says so exactly where all bytes have been taken:
of a client that is known, ready, and whose `send` is not cut short.
-/

set_option autoImplicit false

namespace Ctools.Analysis

open Ctools.Library Ctools.Program

/-- The bytes that the kernel has taken for a descriptor. -/
def bytesTaken (fd : ℤ) (events : List ServerEvent) : List UInt8 :=
  events.flatMap fun e =>
    match e with
    | .send fd' dat ret => if fd' = fd then dat.take ret.toNat else []
    | _ => []

/-- The handle denotes a connected client, and the kernel has taken all of `dat` for its
descriptor. -/
def Delivered (tcp : Server) (client : ℕ) (dat : List UInt8) (events : List ServerEvent) : Prop :=
  ∃ p ∈ tcp.clientList, p.handle = client ∧ bytesTaken p.channelFd events = dat

/-- What the returned value says: `dat_len` only of data that have been delivered, and
something else when the client is unknown, does not become ready in time, or fails. -/
structure SendReports (tcp : Server) (client : ℕ) (dat : List UInt8) (selectRet : ℤ) (isset : Bool)
    (sendRet : ℤ) : Prop where
  delivered : (sktcpserverSend tcp client dat selectRet isset sendRet).1 = dat.length →
    Delivered tcp client dat (sktcpserverSend tcp client dat selectRet isset sendRet).2.1
  failed : (∀ p ∈ tcp.clientList, p.handle ≠ client) ∨ selectRet ≤ 0 ∨
      (isset = true ∧ sendRet < 0) →
    (sktcpserverSend tcp client dat selectRet isset sendRet).1 ≠ dat.length

variable {tcp : Server} {client : ℕ} {dat : List UInt8} {selectRet sendRet : ℤ} {isset : Bool}

/-- Every path ends at the same `return`.
SOURCE: sktcpserver.c:279-281 -/
theorem sktcpserverSend_ret :
    (sktcpserverSend tcp client dat selectRet isset sendRet).1 = dat.length := by
  unfold sktcpserverSend
  cases clientHandleToPtr tcp client with
  | none => rfl
  | some p =>
    by_cases hready : selectRet > 0
    · cases isset with
      | false => simp [hready]
      | true => by_cases hfail : sendRet < 0 <;> simp [hready, hfail]
    · simp [hready]

/-- A client that is disconnected is sent nothing. -/
theorem bytesTaken_clientDisconnect (fd : ℤ) (p : Client) :
    bytesTaken fd (clientDisconnect tcp p).1 = [] := by
  by_cases hopen : p.channelFd ≥ 0 <;> cases hset : tcp.cfg.clientDisconnectCb <;>
    simp [clientDisconnect, bytesTaken, hset, hopen]

/-- Only the call of `send` gives bytes to the kernel.
SOURCE: sktcpserver.c:263-271 -/
theorem bytesTaken_sktcpserverSend {p : Client} (hfound : clientHandleToPtr tcp client = some p)
    (fd : ℤ) :
    bytesTaken fd (sktcpserverSend tcp client dat selectRet isset sendRet).2.1 =
      if 0 < selectRet ∧ isset = true ∧ p.channelFd = fd then dat.take sendRet.toNat else [] := by
  have hdisconnect : bytesTaken fd (clientDisconnect tcp p).1 = [] :=
    bytesTaken_clientDisconnect fd p
  unfold bytesTaken at hdisconnect ⊢
  unfold sktcpserverSend
  rw [hfound]
  by_cases hready : selectRet > 0
  · cases isset with
    | false => simp [hready]
    | true => by_cases hfail : sendRet < 0 <;> simp [hready, hfail, hdisconnect]
  · simp [hready, hdisconnect]

end Ctools.Analysis

open Ctools.Library Ctools.Program Ctools.Analysis in
/-- **What the return value of `sktcpserver_send` is worth.**  For every server, handle,
payload and answers of `select` and `send`, it reports what was sent if and only if the
handle denotes a client, the client became ready, and `send` took all bytes.
SOURCE: sktcpserver.c:241-282 -/
theorem Ctools.Analysis.send_reports_iff (tcp : Server) (client : ℕ) {dat : List UInt8}
    (hlen : 0 < dat.length) (selectRet : ℤ) (isset : Bool) (sendRet : ℤ) :
    SendReports tcp client dat selectRet isset sendRet ↔
      (∃ p ∈ tcp.clientList, p.handle = client) ∧ 0 < selectRet ∧ isset = true ∧
        (dat.length : ℤ) ≤ sendRet := by
  constructor
  · intro hreports
    obtain ⟨q, hmem, hhandle, htaken⟩ := hreports.delivered sktcpserverSend_ret
    refine ⟨⟨q, hmem, hhandle⟩, ?_⟩
    obtain ⟨p, -, -, hfound⟩ := exists_found ⟨q, hmem, hhandle⟩
    rw [bytesTaken_sktcpserverSend hfound] at htaken
    by_cases hsent : 0 < selectRet ∧ isset = true ∧ p.channelFd = q.channelFd
    · rw [if_pos hsent] at htaken
      have hall := congrArg List.length htaken
      rw [List.length_take] at hall
      exact ⟨hsent.1, hsent.2.1, by omega⟩
    · rw [if_neg hsent] at htaken
      rw [← htaken] at hlen
      exact absurd hlen (Nat.lt_irrefl 0)
  · rintro ⟨hknown, hready, hset, hall⟩
    obtain ⟨p, hmem, hhandle, hfound⟩ := exists_found hknown
    refine ⟨fun _ => ⟨p, hmem, hhandle, ?_⟩, ?_⟩
    · rw [bytesTaken_sktcpserverSend hfound, if_pos ⟨hready, hset, rfl⟩,
        List.take_of_length_le (by omega)]
    · rintro (hunknown | htimeout | ⟨-, hfail⟩)
      · exact absurd hhandle (hunknown p hmem)
      · omega
      · omega

open Ctools.Library Ctools.Program Ctools.Analysis in
/-- Two bytes for a client that takes both. -/
theorem Ctools.Analysis.send_reports_iff_whole :
    0 < [(104 : UInt8), 105].length ∧
      SendReports ⟨⟨true, true, true⟩, 3, [⟨100, 4, 7⟩], true⟩ 100 [104, 105] 1 true 2 :=
  ⟨by decide, (send_reports_iff _ 100 (by decide) 1 true 2).mpr ⟨⟨_, List.mem_cons_self, rfl⟩,
    by decide, rfl, by decide⟩⟩

open Ctools.Library Ctools.Program Ctools.Analysis in
/-- A server with one client returns `dat_len` for a handle it does not know, for its
client when `select` times out, when `send` fails, and when the kernel takes one byte of two. -/
theorem Ctools.Analysis.send_misreports :
    ∃ h s, serverMachine.Run (serverGuard freshFd) (serverStart ⟨true, true, true⟩ 3) h s ∧
      ¬ SendReports s.tcp 200 [104, 105] 1 true 2 ∧
      ¬ SendReports s.tcp 100 [104, 105] 0 false (-1) ∧
      ¬ SendReports s.tcp 100 [104, 105] 1 true (-1) ∧
      ¬ SendReports s.tcp 100 [104, 105] 1 true 1 := by
  have hrun := Machine.run_of_execUnder (m := serverMachine) (serverGuard freshFd)
    (serverStart ⟨true, true, true⟩ 3) [.conn 4 (some 100) 0 7] rfl
  refine ⟨_, _, hrun,
    fun hreports => ?_, fun hreports => ?_, fun hreports => ?_, fun hreports => ?_⟩
  · exact hreports.failed (.inl (by decide)) sktcpserverSend_ret
  · exact hreports.failed (.inr (.inl (by decide))) sktcpserverSend_ret
  · exact hreports.failed (.inr (.inr ⟨rfl, by decide⟩)) sktcpserverSend_ret
  · obtain ⟨p, hmem, -, htaken⟩ := hreports.delivered sktcpserverSend_ret
    have hone : p = ⟨100, 4, 7⟩ := List.mem_singleton.mp hmem
    subst hone
    exact absurd htaken (by decide)
