import Ctools.Program.Sktcpserver

/-!
# What the user of the TCP server is told

A connection that gets a record is refused or admitted (`Admission`).  The user is
told of it by callbacks that name its handle, the address of the record: of a refused
one, the connect callback that refused it; of an admitted one, the connect callback,
then its data, then its end, each with the `pri_data` that the connect callback left.
`Told` says this of a handle that many connections have had, one after the other.
-/

set_option autoImplicit false

namespace Ctools.Interface

open Ctools.Program

/-- What becomes of a connection that gets a record. -/
inductive Admission where
  | refused (fd : ℤ) (client : ℕ) (ret : ℤ) (priData : ℕ)
  | admitted (fd : ℤ) (client : ℕ) (priData : ℕ)
deriving DecidableEq

/-- The handle that was given. -/
def Admission.client : Admission → ℕ
  | .refused _ client _ _ | .admitted _ client _ => client

/-- The connection that a step gives a record.
SOURCE: sktcpserver.c:94-118 -/
def admissions (cfg : ServerConfig) : ServerAct → List Admission
  | .conn newFd (some client) ret priData =>
      if newFd < 0 then []
      else if cfg.clientConnectCb ∧ ret ≠ 0 then [.refused newFd client ret priData]
      else [.admitted newFd client (if cfg.clientConnectCb then priData else 0)]
  | _ => []

/-- The event is a callback that names the client. -/
def callbackOf (client : ℕ) : ServerEvent → Bool
  | .connectCb c _ _ | .recvCb c _ _ | .disconnectCb c _ => c = client
  | _ => false

/-- The callbacks among some events that name a client. -/
def callbacksOf (client : ℕ) (events : List ServerEvent) : List ServerEvent :=
  events.filter (callbackOf client)

/-- The callback of an event is set. -/
def isSet (cfg : ServerConfig) : ServerEvent → Bool
  | .connectCb _ _ _ => cfg.clientConnectCb
  | .recvCb _ _ _ => cfg.clientDataRecvCb
  | .disconnectCb _ _ => cfg.clientDisconnectCb
  | _ => false

/-- A connection that is over, with what the user was told in between. -/
inductive Connection where
  | refused (fd : ℤ) (ret : ℤ) (priData : ℕ) (hret : ret ≠ 0)
  | ended (fd : ℤ) (priData : ℕ) (dats : List (List UInt8))

/-- How a connection began, under its handle. -/
def Connection.admission (client : ℕ) : Connection → Admission
  | .refused fd ret priData _ => .refused fd client ret priData
  | .ended fd priData _ => .admitted fd client priData

/-- The callbacks of an admitted connection before its end. -/
def served (client priData : ℕ) (dats : List (List UInt8)) : List ServerEvent :=
  .connectCb client 0 priData :: dats.map (.recvCb client priData)

/-- One more block of data is one more callback. -/
theorem served_snoc (client priData : ℕ) (dats : List (List UInt8)) (dat : List UInt8) :
    served client priData (dats ++ [dat]) =
      served client priData dats ++ [.recvCb client priData dat] := by
  simp [served]

/-- The callbacks of a connection that is over. -/
def Connection.callbacks (client : ℕ) : Connection → List ServerEvent
  | .refused _ ret priData _ => [.connectCb client ret priData]
  | .ended _ priData dats => served client priData dats ++ [.disconnectCb client priData]

/-- What the user is told of a handle, as far as the callbacks are set: each connection
that got it was refused or has ended, except the last one if a record still has it. -/
inductive Told (cfg : ServerConfig) (client : ℕ) :
    List Admission → List ServerEvent → Option Client → Prop
  | free (past : List Connection) :
      Told cfg client (past.map (Connection.admission client))
        ((past.flatMap (Connection.callbacks client)).filter (isSet cfg)) none
  | held (past : List Connection) (fd : ℤ) (priData : ℕ) (dats : List (List UInt8)) :
      Told cfg client (past.map (Connection.admission client) ++ [.admitted fd client priData])
        ((past.flatMap (Connection.callbacks client) ++ served client priData dats).filter
          (isSet cfg))
        (some ⟨client, fd, priData⟩)

variable {cfg : ServerConfig} {client : ℕ} {given : List Admission} {told : List ServerEvent}

/-! ## One more thing the user is told -/

/-- A client that is refused is told so. -/
theorem Told.refuse (htold : Told cfg client given told none) (fd : ℤ) {ret : ℤ} (priData : ℕ)
    (hret : ret ≠ 0) : Told cfg client (given ++ [.refused fd client ret priData])
      (told ++ [.connectCb client ret priData].filter (isSet cfg)) none := by
  cases htold with
  | free past =>
    have hmore : Told cfg client _ _ _ := .free (past ++ [.refused fd ret priData hret])
    simpa [Connection.admission, Connection.callbacks] using hmore

/-- A client that is admitted is told so. -/
theorem Told.admit (htold : Told cfg client given told none) (fd : ℤ) (priData : ℕ) :
    Told cfg client (given ++ [.admitted fd client priData])
      (told ++ [.connectCb client 0 priData].filter (isSet cfg)) (some ⟨client, fd, priData⟩) := by
  cases htold with
  | free past =>
    have hmore : Told cfg client _ _ _ := .held past fd priData []
    simpa [served] using hmore

/-- Data of a client is handed on. -/
theorem Told.receive {p : Client} (htold : Told cfg client given told (some p)) (dat : List UInt8) :
    Told cfg client given (told ++ [.recvCb client p.priData dat].filter (isSet cfg)) (some p) := by
  cases htold with
  | held past fd priData dats =>
    have hmore : Told cfg client _ _ _ := .held past fd priData (dats ++ [dat])
    rwa [served_snoc, ← List.append_assoc, List.filter_append] at hmore

/-- The end of a connection is told. -/
theorem Told.disconnect {p : Client} (htold : Told cfg client given told (some p)) :
    Told cfg client given (told ++ [.disconnectCb client p.priData].filter (isSet cfg)) none := by
  cases htold with
  | held past fd priData dats =>
    have hmore : Told cfg client _ _ _ := .free (past ++ [.ended fd priData dats])
    simpa [Connection.admission, Connection.callbacks] using hmore

end Ctools.Interface
