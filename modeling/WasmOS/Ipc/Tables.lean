import WasmOS.Forest.Cascade
import WasmOS.Queue.Ring

/-! # The IPC tables

An endpoint is a ring of messages with one slot more than a sender may fill, and a list of hangups
that found even that slot taken. A run is a sequence of sections under the kernel's locks. A wake, a
time-out and an abort look the same behind a wait, so a blocked thread may go on at any time.
-/

namespace Ipc

section

open Queue

def queueDepth : ℕ := 32
def queueSlots : ℕ := queueDepth + 1
def contactsMax : ℕ := 8
def contextKernel : UInt32 := 0
def endpointNone : UInt32 := 0xFFFFFFFF
/-- `WASMOS_IPC_HANGUP` -/
def hangupType : UInt32 := 0xFF03

/-- `ipc_result_t` -/
inductive Status where
  | ok
  | empty
  | invalid
  | perm
  | full
  | noent
  | unsupported
  | peerGone
  deriving DecidableEq, Repr

inductive EndpointType where
  | message
  | notification
  deriving DecidableEq, Repr

structure Message where
  type : UInt32
  source : UInt32
  destination : UInt32
  requestId : UInt32
  arg0 : UInt32
  arg1 : UInt32
  arg2 : UInt32
  arg3 : UInt32
  deriving DecidableEq, Repr

/-- `ipc_hangup_t`: a hangup owed to `destination`. -/
structure Hangup where
  destination : UInt32
  deadEndpoint : UInt32
  ownerContextId : UInt32
  deriving DecidableEq, Repr

def Hangup.message (record : Hangup) : Message :=
  ⟨hangupType, endpointNone, record.destination, 0, record.deadEndpoint, record.ownerContextId,
    0, 0⟩

/-- `ipc_endpoint_t`. The watchers are the select sets on its poll hub. -/
structure Endpoint where
  id : UInt32
  ownerContextId : UInt32
  type : EndpointType
  ring : Ring Message queueSlots
  notifyCount : UInt32
  refusedCount : UInt32
  lastRefusedType : UInt32
  lastRefusedRequestId : UInt32
  lastRefusedSource : UInt32
  contacts : List Hangup
  contactsOverflowed : Bool
  pending : List Hangup
  watchers : List UInt32

def emptyRing : Ring Message queueSlots := .empty ⟨0, 0, 0, 0, 0, 0, 0, 0⟩ (by decide)

namespace Endpoint

/-- `ipc_endpoint_create_typed`, once the table has allotted the id. -/
def create (id ownerContextId : UInt32) (type : EndpointType) : Endpoint where
  id := id
  ownerContextId := ownerContextId
  type := type
  ring := emptyRing
  notifyCount := 0
  refusedCount := 0
  lastRefusedType := 0
  lastRefusedRequestId := 0
  lastRefusedSource := 0
  contacts := []
  contactsOverflowed := false
  pending := []
  watchers := []

def acquire (ep : Endpoint) (type : EndpointType) : Status :=
  if ep.type ≠ type then .unsupported else .ok

def acquireOwned (ep : Endpoint) (type : EndpointType) (contextId : UInt32) : Status :=
  if ep.type ≠ type then .unsupported
  else if contextId ≠ contextKernel ∧ ep.ownerContextId ≠ contextId then .perm
  else .ok

/-- `ipc_endpoint_enqueue_locked`, when there is room. The wake of a receiver is the receiver's next
step. -/
def enqueueLocked (ep : Endpoint) (msg : Message) (room : ep.ring.count < queueSlots) : Endpoint :=
  { ep with ring := ep.ring.push { msg with destination := ep.id } room }

/-- `ipc_endpoint_dequeue_locked`. The slot it frees goes to the oldest pending hangup. -/
def dequeueLocked (ep : Endpoint) (pos : 0 < ep.ring.count) : Message × Endpoint :=
  let rest := { ep with ring := ep.ring.pop pos }
  match ep.pending with
  | [] => (ep.ring.front, rest)
  | record :: pending =>
    have room : (ep.ring.pop pos).count < queueSlots := by
      have := ep.ring.count_le
      simp only [Ring.pop]
      omega
    (ep.ring.front, { rest with pending }.enqueueLocked record.message room)

/-- The part of `ipc_send_from` under the destination's lock. -/
def sendLocked (ep : Endpoint) (msg : Message) : Status × Endpoint :=
  if h : queueDepth ≤ ep.ring.count then
    (.full, { ep with
      refusedCount := ep.refusedCount + 1
      lastRefusedType := msg.type
      lastRefusedRequestId := msg.requestId
      lastRefusedSource := msg.source })
  else
    (.ok, ep.enqueueLocked msg (by unfold queueSlots; omega))

def recvLocked (ep : Endpoint) : Option (Message × Endpoint) :=
  if h : 0 < ep.ring.count then some (ep.dequeueLocked h) else none

/-- `ipc_hangup_deliver` under the destination's lock, and whether the record went into the ring. -/
def hangupLocked (ep : Endpoint) (record : Hangup) : Bool × Endpoint :=
  if h : ep.pending = [] ∧ ep.ring.count < queueSlots then
    (true, ep.enqueueLocked record.message h.2)
  else (false, { ep with pending := ep.pending ++ [record] })

def contents (ep : Endpoint) : List Message :=
  ep.ring.toList ++ ep.pending.map fun record => { record.message with destination := ep.id }

def Packed (ep : Endpoint) : Prop := ep.pending ≠ [] → ep.ring.count = queueSlots

variable {ep : Endpoint}

lemma contents_enqueueLocked (msg : Message) (room : ep.ring.count < queueSlots)
    (h : ep.pending = []) :
    (ep.enqueueLocked msg room).contents = ep.contents ++ [{ msg with destination := ep.id }] := by
  simp [contents, enqueueLocked, h]

lemma contents_dequeueLocked (pos : 0 < ep.ring.count) :
    ep.contents = (ep.dequeueLocked pos).1 :: (ep.dequeueLocked pos).2.contents := by
  unfold dequeueLocked
  split <;> rename_i h <;>
    simp [contents, enqueueLocked, h, ep.ring.toList_eq_front_cons pos]

lemma packed_dequeueLocked (hp : ep.Packed) (pos : 0 < ep.ring.count) :
    (ep.dequeueLocked pos).2.Packed := by
  unfold dequeueLocked
  split
  next h => exact fun hne => absurd h hne
  next record pending h =>
    -- the ring was full, and the hangup takes the slot just freed
    intro _
    have hfull := hp (by simp [h])
    show ep.ring.count - 1 + 1 = queueSlots
    omega

variable {ep' : Endpoint} {msg : Message}

lemma sendLocked_ok (hp : ep.Packed) (h : ep.sendLocked msg = (.ok, ep')) :
    ep'.contents = ep.contents ++ [{ msg with destination := ep.id }] ∧ ep'.Packed := by
  unfold sendLocked at h
  split at h
  · cases h
  next hroom =>
    cases h
    have hnone : ep.pending = [] := by
      by_contra hne
      have := hp hne
      unfold queueSlots at this
      omega
    exact ⟨contents_enqueueLocked msg _ hnone, fun hne => absurd hnone hne⟩

lemma sendLocked_of_ne_ok {status : Status}
    (h : ep.sendLocked msg = (status, ep')) (hne : status ≠ .ok) :
    ep'.contents = ep.contents ∧ (ep.Packed → ep'.Packed) := by
  unfold sendLocked at h
  split at h <;> cases h
  · exact ⟨rfl, fun h => h⟩
  · exact absurd rfl hne

lemma recvLocked_some (hp : ep.Packed)
    (h : ep.recvLocked = some (msg, ep')) : ep.contents = msg :: ep'.contents ∧ ep'.Packed := by
  unfold recvLocked at h
  split at h
  next hpos =>
    have hc := contents_dequeueLocked hpos
    have hk := packed_dequeueLocked hp hpos
    rw [Option.some.inj h] at hc hk
    exact ⟨hc, hk⟩
  next => cases h

lemma hangupLocked_contents (hp : ep.Packed) (record : Hangup) :
    (ep.hangupLocked record).2.contents =
        ep.contents ++ [{ record.message with destination := ep.id }] ∧
      (ep.hangupLocked record).2.Packed := by
  unfold hangupLocked
  split
  next h => exact ⟨contents_enqueueLocked _ _ h.1, fun hne => absurd h.1 hne⟩
  next h =>
    refine ⟨by simp [contents], fun _ => ?_⟩
    by_cases hpend : ep.pending = []
    · have := ep.ring.count_le
      show ep.ring.count = queueSlots
      have : ¬ ep.ring.count < queueSlots := fun hlt => h ⟨hpend, hlt⟩
      omega
    · exact hp hpend

end Endpoint

/-- The check on a sender's claimed source; `srcOwner` is the owner of the source endpoint or 0. -/
def checkSource (senderContextId srcOwner : UInt32) (msg : Message) : Status :=
  if senderContextId = contextKernel then .ok
  else if msg.source = endpointNone then .perm
  else if msg.type = hangupType then .perm
  else if srcOwner = 0 ∨ srcOwner ≠ senderContextId then .perm
  else .ok

open Endpoint

/-- An endpoint with the threads parked on it, and what was accepted and handed out. -/
structure Channel where
  ep : Endpoint
  parked : List ℕ
  accepted : List Message
  received : List Message

/-- The sections of the calls. A send carries who owns its claimed source. -/
inductive Section where
  | send (senderContextId srcOwner : UInt32) (msg : Message)
  | recv (receiverContextId : UInt32)
  | recvBlocking (tid : ℕ) (receiverContextId : UInt32)
  | resume (tid : ℕ)
  | hangup (record : Hangup)

namespace Channel

def fresh (id ownerContextId : UInt32) : Channel := ⟨.create id ownerContextId .message, [], [], []⟩

variable (c : Channel)

def send (senderContextId srcOwner : UInt32) (msg : Message) : Status × Channel :=
  match checkSource senderContextId srcOwner msg with
  | .ok =>
    match c.ep.acquire .message with
    | .ok =>
      match c.ep.sendLocked msg with
      | (.ok, ep) =>
        (.ok, { c with ep, accepted := c.accepted ++ [{ msg with destination := c.ep.id }] })
      | (status, ep) => (status, { c with ep })
    | status => (status, c)
  | status => (status, c)

def take : Status × Channel :=
  match c.ep.recvLocked with
  | none => (.empty, c)
  | some (msg, ep) => (.ok, { c with ep, received := c.received ++ [msg] })

def recv (receiverContextId : UInt32) : Status × Channel :=
  match c.ep.acquireOwned .message receiverContextId with
  | .ok => c.take
  | status => (status, c)

/-- `ipc_recv_blocking_for` up to its wait, which `none` is. -/
def recvBlocking (tid : ℕ) (receiverContextId : UInt32) : Option Status × Channel :=
  match c.ep.acquireOwned .message receiverContextId with
  | .ok =>
    if c.ep.ring.count = 0 then (none, { c with parked := tid :: c.parked })
    else
      let (status, c) := c.take
      (some status, c)
  | status => (some status, c)

/-- `ipc_recv_blocking_for` after its wait, whatever ended it. -/
def resume (tid : ℕ) : Option Status × Channel :=
  if tid ∈ c.parked then
    let (status, c) := { c with parked := c.parked.erase tid }.take
    (some status, c)
  else (none, c)

/-- `ipc_hangup_deliver`, which cannot fail. -/
def hangup (record : Hangup) : Channel := { c with
    ep := (c.ep.hangupLocked record).2
    accepted := c.accepted ++ [{ record.message with destination := c.ep.id }] }

def step : Section → Option Status × Channel
  | .send sender srcOwner msg =>
    let (status, c) := c.send sender srcOwner msg
    (some status, c)
  | .recv receiver =>
    let (status, c) := c.recv receiver
    (some status, c)
  | .recvBlocking tid receiver => c.recvBlocking tid receiver
  | .resume tid => c.resume tid
  | .hangup record => (none, c.hangup record)

def run (ss : List Section) : Channel := ss.foldl (fun c s => (c.step s).2) c

structure Fifo (owner : UInt32) (c : Channel) : Prop where
  type : c.ep.type = .message
  owned : c.ep.ownerContextId = owner
  log : c.accepted = c.received ++ c.ep.contents
  packed : c.ep.Packed

variable {c : Channel} {owner : UInt32}

lemma sendLocked_frame (ep : Endpoint) (msg : Message) : (ep.sendLocked msg).2.type = ep.type ∧
    (ep.sendLocked msg).2.ownerContextId = ep.ownerContextId := by
  unfold sendLocked
  split <;> exact ⟨rfl, rfl⟩

lemma recvLocked_frame {ep ep' : Endpoint} {msg : Message} (h : ep.recvLocked = some (msg, ep')) :
    ep'.type = ep.type ∧ ep'.ownerContextId = ep.ownerContextId := by
  unfold recvLocked dequeueLocked at h
  split at h
  · split at h <;> cases h <;> exact ⟨rfl, rfl⟩
  · cases h

section

variable (h : c.Fifo owner)
include h

lemma Fifo.send (sender srcOwner : UInt32) (msg : Message) :
    (c.send sender srcOwner msg).2.Fifo owner := by
  unfold Channel.send
  split
  · split
    · obtain ⟨htype, howner⟩ := sendLocked_frame c.ep msg
      split
      next ep hsend =>
        obtain ⟨hc, hp⟩ := sendLocked_ok h.packed hsend
        rw [hsend] at htype howner
        exact ⟨htype.trans h.type, howner.trans h.owned, by simp [h.log, hc], hp⟩
      next status ep hne hsend =>
        obtain ⟨hc, hp⟩ := sendLocked_of_ne_ok hsend hne
        rw [hsend] at htype howner
        exact ⟨htype.trans h.type, howner.trans h.owned, by simp [h.log, hc], hp h.packed⟩
    · exact h
  · exact h

lemma Fifo.take : c.take.2.Fifo owner := by
  unfold Channel.take
  split
  · exact h
  next msg ep hrecv =>
    obtain ⟨hc, hp⟩ := recvLocked_some h.packed hrecv
    obtain ⟨htype, howner⟩ := recvLocked_frame hrecv
    exact ⟨htype.trans h.type, howner.trans h.owned, by simp [h.log, hc], hp⟩

lemma Fifo.hangup (record : Hangup) : (c.hangup record).Fifo owner := by
  obtain ⟨hc, hp⟩ := hangupLocked_contents h.packed record
  refine ⟨?_, ?_, by simp [Channel.hangup, h.log, hc], hp⟩
  · rw [← h.type]
    simp only [Channel.hangup, hangupLocked]
    split <;> rfl
  · rw [← h.owned]
    simp only [Channel.hangup, hangupLocked]
    split <;> rfl

lemma Fifo.acquireOwned {receiver : UInt32} (hr : receiver = owner ∨ receiver = contextKernel) :
    c.ep.acquireOwned .message receiver = .ok := by
  rcases hr with rfl | rfl <;> simp [Endpoint.acquireOwned, h.type, h.owned]

lemma Fifo.step (s : Section) : (c.step s).2.Fifo owner := by
  cases s with
  | send sender srcOwner msg => exact h.send sender srcOwner msg
  | recv receiver =>
    simp only [Channel.step, Channel.recv]
    split
    · exact h.take
    · exact h
  | recvBlocking tid receiver =>
    simp only [Channel.step, Channel.recvBlocking]
    split
    · split
      · exact ⟨h.type, h.owned, h.log, h.packed⟩
      · exact h.take
    · exact h
  | resume tid =>
    simp only [Channel.step, Channel.resume]
    split
    · exact Fifo.take ⟨h.type, h.owned, h.log, h.packed⟩
    · exact h
  | hangup record => exact h.hangup record

lemma Fifo.run (ss : List Section) : (c.run ss).Fifo owner := by
  induction ss generalizing c with
  | nil => exact h
  | cons s ss ih => exact ih (h.step s)

end

end Channel

end

def selectEpsMax : ℕ := 8
def endpointPerContextMax : ℕ := 64
def selectPerContextMax : ℕ := 8

/-- The id counter of an `idtable_t`. -/
structure IdCounter where
  nextId : UInt32
  wrapped : Bool
  deriving DecidableEq, Repr

/-- `idtable_alloc_id`: the next id, skipping reserved values and, after a wrap, ids that are taken.
-/
def IdCounter.alloc (taken : UInt32 → Bool) : ℕ → IdCounter → Option (UInt32 × IdCounter)
  | 0, _ => none
  | bound + 1, c =>
    let id := c.nextId
    let c : IdCounter :=
      if c.nextId + 1 = endpointNone then ⟨1, true⟩ else ⟨c.nextId + 1, c.wrapped⟩
    if id = 0 ∨ id = endpointNone then alloc taken bound c
    else if !c.wrapped || !taken id then some (id, c)
    else alloc taken bound c

/-- `ipc_select_t` -/
structure SelectSet where
  id : UInt32
  ownerContextId : UInt32
  readyEp : UInt32
  epIds : List UInt32
  scanCursor : ℕ

/-- Where in a blocking call a thread stands. -/
inductive Wait where
  | recv (endpoint : UInt32)
  | readable (endpoint : UInt32)
  /-- In `ipc_select_wait`, scanned and about to look at the latch. -/
  | selectLatch (select : UInt32)
  | selectParked (select : UInt32)
  /-- Woken, scanned again and about to look at the latch again. -/
  | selectRelatch (select : UInt32)
  deriving DecidableEq, Repr

structure Blocked where
  contextId : UInt32
  wait : Wait

structure State where
  endpoints : List Endpoint
  endpointIds : IdCounter
  selects : List SelectSet
  selectIds : IdCounter
  contextWatches : List Hangup
  /-- Hangups a teardown has collected and not delivered yet. -/
  owed : List Hangup
  blocked : ℕ → Option Blocked

def State.init : State := ⟨[], ⟨1, false⟩, [], ⟨1, false⟩, [], [], fun _ => none⟩

inductive Reply where
  | status (status : Status)
  | message (msg : Message)
  | ready (endpoint : UInt32)
  deriving DecidableEq, Repr

namespace State

variable (s : State)

/-- `idtable_get` on the endpoints. -/
def endpoint (id : UInt32) : Option Endpoint :=
  if id = 0 ∨ id = endpointNone then none else s.endpoints.find? (·.id == id)

variable (ep : Endpoint)

def putEndpoint : State :=
  { s with endpoints := Forest.updateFirst (·.id == ep.id) (fun _ => ep) s.endpoints }

/-- `idtable_get` on the select sets. -/
def select (id : UInt32) : Option SelectSet :=
  if id = 0 ∨ id = endpointNone then none else s.selects.find? (·.id == id)

variable (sel : SelectSet)

def putSelect : State :=
  { s with selects := Forest.updateFirst (·.id == sel.id) (fun _ => sel) s.selects }

variable (tid : ℕ)

def setBlocked (b : Option Blocked) : State := { s with blocked := Function.update s.blocked tid b }

def endpointOwnerContext (id : UInt32) : UInt32 :=
  match s.endpoint id with
  | none => 0
  | some ep => ep.ownerContextId

/-- `poll_notify` on the hub of an endpoint: every set on it is told the endpoint's id. -/
def pollNotify : State := { s with selects := s.selects.map fun sel =>
      if sel.id ∈ ep.watchers then { sel with readyEp := ep.id } else sel }

def enqueued : State := (s.putEndpoint ep).pollNotify ep

def take : Reply × State :=
  match ep.recvLocked with
  | none => (.status .empty, s)
  | some (msg, ep') =>
    (.message msg, if ep.pending = [] then s.putEndpoint ep' else s.enqueued ep')

def endpointCreate (grow : Bool) (ownerContextId : UInt32) (type : EndpointType) : State :=
  if endpointPerContextMax ≤ s.endpoints.countP (·.ownerContextId == ownerContextId) || !grow then s
  else
    match s.endpointIds.alloc (fun id => s.endpoints.any (·.id == id)) (s.endpoints.length + 1) with
    | none => s
    | some (id, endpointIds) =>
      { s with endpoints := s.endpoints ++ [.create id ownerContextId type], endpointIds }

/-- `ipc_endpoints_release_owner` up to its deliveries: the endpoints go, the hangups owed are
collected. -/
def endpointsReleaseOwner (ownerContextId : UInt32) : State :=
  if ownerContextId = 0 then s
  else
    { s with
      endpoints := s.endpoints.filter (·.ownerContextId != ownerContextId)
      contextWatches := s.contextWatches.filter (·.ownerContextId != ownerContextId)
      owed := s.owed ++ ((s.endpoints.filter (·.ownerContextId == ownerContextId)).flatMap
          (·.contacts)) ++ s.contextWatches.filter (·.ownerContextId == ownerContextId) }

/-- `ipc_hangup_deliver` -/
def hangupInto (record : Hangup) : State :=
  match s.endpoint record.destination with
  | none => s
  | some ep =>
    match ep.acquire .message with
    | .ok =>
      match ep.hangupLocked record with
      | (true, ep) => s.enqueued ep
      | (false, ep) => s.putEndpoint ep
    | _ => s

def hangupDeliver (record : Hangup) : State :=
  if record ∈ s.owed then { s with owed := s.owed.erase record }.hangupInto record else s

variable (alloc : Bool)

def contextWatch (contextId destination : UInt32) : State :=
  if contextId = contextKernel ∨ destination = endpointNone ∨ alloc = false then s
  else { s with contextWatches := ⟨destination, endpointNone, contextId⟩ :: s.contextWatches }

/-- `ipc_send_from` without its last step. -/
def sendFrom (senderContextId endpoint : UInt32) (msg : Message) : Status × State :=
  match checkSource senderContextId (s.endpointOwnerContext msg.source) msg with
  | .ok =>
    match s.endpoint endpoint with
    | none => (.noent, s)
    | some ep =>
      match ep.acquire .message with
      | .ok =>
        match ep.sendLocked msg with
        | (.ok, ep) => (.ok, s.enqueued ep)
        | (status, ep) => (status, s.putEndpoint ep)
      | status => (status, s)
  | status => (status, s)

def noteContact (source destination : UInt32) : State :=
  if source = endpointNone ∨ destination = endpointNone ∨ source = destination then s
  else
    match s.endpoint source with
    | none => s
    | some src =>
      if src.type ≠ .message then s
      else if src.ownerContextId = contextKernel ∨
          src.contacts.any (·.destination == destination) then s
      else if contactsMax ≤ src.contacts.length ∨ alloc = false then
        s.putEndpoint { src with contactsOverflowed := true }
      else
        s.putEndpoint
          { src with contacts := ⟨destination, source, src.ownerContextId⟩ :: src.contacts }

def notifyFrom (senderContextId endpoint : UInt32) : Status × State :=
  match s.endpoint endpoint with
  | none => (.noent, s)
  | some ep =>
    match ep.acquireOwned .notification senderContextId with
    | .ok =>
      (.ok, s.enqueued { ep with notifyCount :=
            if ep.notifyCount = 0xFFFFFFFF then ep.notifyCount else ep.notifyCount + 1 })
    | status => (status, s)

variable (receiverContextId endpoint : UInt32)

def waitFor : Status × State :=
  match s.endpoint endpoint with
  | none => (.noent, s)
  | some ep =>
    match ep.acquireOwned .notification receiverContextId with
    | .ok =>
      if ep.notifyCount = 0 then (.empty, s)
      else (.ok, s.putEndpoint { ep with notifyCount := ep.notifyCount - 1 })
    | status => (status, s)

def recvFor : Reply × State :=
  match s.endpoint endpoint with
  | none => (.status .noent, s)
  | some ep =>
    match ep.acquireOwned .message receiverContextId with
    | .ok => s.take ep
    | status => (.status status, s)

/-- `ipc_recv_blocking_for` up to its wait; no reply is a thread that waits. -/
def recvBlockingFor : Option Reply × State :=
  match s.endpoint endpoint with
  | none => (some (.status .noent), s)
  | some ep =>
    match ep.acquireOwned .message receiverContextId with
    | .ok =>
      if ep.ring.count = 0 then
        (none, s.setBlocked tid (some ⟨receiverContextId, .recv endpoint⟩))
      else
        let (reply, s) := s.take ep
        (some reply, s)
    | status => (some (.status status), s)

/-- `ipc_recv_blocking_for` after its wait: no check is made again. -/
def recvResume (endpoint : UInt32) : Reply × State :=
  match s.endpoint endpoint with
  | none => (.status .peerGone, s)
  | some ep => s.take ep

/-- `ipc_endpoint_wait_for` up to its wait. -/
def endpointWaitFor : Option Reply × State :=
  match s.endpoint endpoint with
  | none => (some (.status .noent), s)
  | some ep =>
    match ep.acquireOwned .message receiverContextId with
    | .ok =>
      if ep.ring.count ≠ 0 then (some (.status .ok), s)
      else (none, s.setBlocked tid (some ⟨receiverContextId, .readable endpoint⟩))
    | status => (some (.status status), s)

variable (id ownerContextId : UInt32)

def selectFind : Except Status SelectSet :=
  match s.select id with
  | none => .error .noent
  | some sel =>
    if ownerContextId ≠ contextKernel ∧ sel.ownerContextId ≠ ownerContextId then .error .perm
    else .ok sel

def selectCreate (grow : Bool) (ownerContextId : UInt32) : State :=
  if selectPerContextMax ≤ s.selects.countP (·.ownerContextId == ownerContextId) || !grow then s
  else
    match s.selectIds.alloc (fun id => s.selects.any (·.id == id)) (s.selects.length + 1) with
    | none => s
    | some (id, selectIds) =>
      { s with selects := s.selects ++ [⟨id, ownerContextId, endpointNone, [], 0⟩], selectIds }

/-- `ipc_select_add`; `alloc` is whether the poll hub and its watcher can be allocated. -/
def selectAdd (id endpoint ownerContextId : UInt32) : Status × State :=
  match s.selectFind id ownerContextId with
  | .error status => (status, s)
  | .ok sel =>
    if endpoint ∈ sel.epIds then (.ok, s)
    else if selectEpsMax ≤ sel.epIds.length then (.full, s)
    else
      match s.endpoint endpoint with
      | none => (.noent, s)
      | some ep =>
        if alloc = false then (.full, s)
        else
          (.ok, (s.putEndpoint { ep with watchers := sel.id :: ep.watchers }).putSelect
            { sel with epIds := sel.epIds ++ [endpoint] })

def endpointIsReady (id : UInt32) : Bool :=
  match s.endpoint id with
  | none => false
  | some ep =>
    match ep.type with
    | .notification => ep.notifyCount != 0
    | .message => ep.ring.count != 0

/-- `ipc_select_scan_ready`: the first ready endpoint from the cursor on, and its place. -/
def selectScanReady : Option (UInt32 × ℕ) :=
  let n := sel.epIds.length
  let cursor := if n ≤ sel.scanCursor then 0 else sel.scanCursor
  (List.range n).findSome? fun k =>
    let i := (cursor + k) % n
    match sel.epIds[i]? with
    | none => none
    | some ep => if s.endpointIsReady ep then some (ep, i) else none

def selectScanned (i : ℕ) : State :=
  s.putSelect { sel with readyEp := endpointNone, scanCursor := (i + 1) % sel.epIds.length }

def selectIdle : State := s.putSelect { sel with
    scanCursor := if sel.epIds.length ≤ sel.scanCursor ∧ sel.epIds ≠ [] then 0 else sel.scanCursor }

/-- `ipc_select_wait` up to its latch. -/
def selectWait : Option Reply × State :=
  match s.selectFind id ownerContextId with
  | .error status => (some (.status status), s)
  | .ok sel =>
    match s.selectScanReady sel with
    | some (ep, i) => (some (.ready ep), s.selectScanned sel i)
    | none =>
      (none, (s.selectIdle sel).setBlocked tid (some ⟨ownerContextId, .selectLatch id⟩))

def selectTakeReady : Option (UInt32 × State) :=
  if sel.readyEp = endpointNone then none
  else some (sel.readyEp, s.putSelect { sel with readyEp := endpointNone })

/-- `ipc_select_wait` at its latch. The set cannot go while its lock is held. -/
def selectLatch : Option Reply × State :=
  match s.select id with
  | none => (some (.status .empty), s)
  | some sel =>
    match s.selectTakeReady sel with
    | some (ep, s) => (some (.ready ep), s)
    | none => (none, s.setBlocked tid (some ⟨ownerContextId, .selectParked id⟩))

/-- `ipc_select_wait` after its wait, up to its second latch. -/
def selectResume : Option Reply × State :=
  match s.selectFind id ownerContextId with
  | .error _ => (some (.status .empty), s)
  | .ok sel =>
    match s.selectScanReady sel with
    | some (ep, i) => (some (.ready ep), s.selectScanned sel i)
    | none =>
      (none, (s.selectIdle sel).setBlocked tid (some ⟨ownerContextId, .selectRelatch id⟩))

/-- `ipc_select_wait` at its second latch. -/
def selectRelatch (id : UInt32) : Reply × State :=
  match s.select id with
  | none => (.status .empty, s)
  | some sel =>
    match s.selectTakeReady sel with
    | some (ep, s) => (.ready ep, s)
    | none => (.status .empty, s)

def selectDestroy : State :=
  match s.selectFind id ownerContextId with
  | .error _ => s
  | .ok sel =>
    { s with
      endpoints := s.endpoints.map fun ep =>
        if ep.id ∈ sel.epIds then { ep with watchers := ep.watchers.filter (· != sel.id) } else ep
      selects := s.selects.filter (·.id != sel.id) }

def resume (b : Blocked) : Option Reply × State :=
  let s := s.setBlocked tid none
  match b.wait with
  | .recv endpoint =>
    let (reply, s) := s.recvResume endpoint
    (some reply, s)
  | .readable _ => (some (.status .ok), s)
  | .selectLatch id => s.selectLatch tid id b.contextId
  | .selectParked id => s.selectResume tid id b.contextId
  | .selectRelatch id =>
    let (reply, s) := s.selectRelatch id
    (some reply, s)

end State

/-- One section of a call. The Booleans are whether the allocations of the call succeed. -/
inductive Event where
  | endpointCreate (grow : Bool) (ownerContextId : UInt32) (type : EndpointType)
  | endpointsReleaseOwner (ownerContextId : UInt32)
  | hangupDeliver (record : Hangup)
  | contextWatch (alloc : Bool) (contextId destination : UInt32)
  | sendFrom (senderContextId endpoint : UInt32) (msg : Message)
  | noteContact (alloc : Bool) (source destination : UInt32)
  | notifyFrom (senderContextId endpoint : UInt32)
  | waitFor (receiverContextId endpoint : UInt32)
  | recvFor (receiverContextId endpoint : UInt32)
  | recvBlockingFor (tid : ℕ) (receiverContextId endpoint : UInt32)
  | endpointWaitFor (tid : ℕ) (receiverContextId endpoint : UInt32)
  | selectCreate (grow : Bool) (ownerContextId : UInt32)
  | selectAdd (alloc : Bool) (select endpoint ownerContextId : UInt32)
  | selectWait (tid : ℕ) (select ownerContextId : UInt32)
  | selectDestroy (select ownerContextId : UInt32)
  | resume (tid : ℕ)
  deriving DecidableEq

/-- The state after a section, and what a call that returns in it tells its context. -/
def exec (s : State) : Event → Option (UInt32 × Reply) × State
  | .endpointCreate grow owner type => (none, s.endpointCreate grow owner type)
  | .endpointsReleaseOwner owner => (none, s.endpointsReleaseOwner owner)
  | .hangupDeliver record => (none, s.hangupDeliver record)
  | .contextWatch alloc ctx destination => (none, s.contextWatch alloc ctx destination)
  | .sendFrom sender endpoint msg => (none, (s.sendFrom sender endpoint msg).2)
  | .noteContact alloc source destination => (none, s.noteContact alloc source destination)
  | .notifyFrom sender endpoint => (none, (s.notifyFrom sender endpoint).2)
  | .waitFor receiver endpoint => (none, (s.waitFor receiver endpoint).2)
  | .recvFor receiver endpoint =>
    (some (receiver, (s.recvFor receiver endpoint).1), (s.recvFor receiver endpoint).2)
  | .recvBlockingFor tid receiver endpoint =>
    ((s.recvBlockingFor tid receiver endpoint).1.map (receiver, ·),
      (s.recvBlockingFor tid receiver endpoint).2)
  | .endpointWaitFor tid receiver endpoint =>
    ((s.endpointWaitFor tid receiver endpoint).1.map (receiver, ·),
      (s.endpointWaitFor tid receiver endpoint).2)
  | .selectCreate grow owner => (none, s.selectCreate grow owner)
  | .selectAdd alloc select endpoint owner =>
    (some (owner, .status (s.selectAdd alloc select endpoint owner).1),
      (s.selectAdd alloc select endpoint owner).2)
  | .selectWait tid select owner =>
    ((s.selectWait tid select owner).1.map (owner, ·), (s.selectWait tid select owner).2)
  | .selectDestroy select owner => (none, s.selectDestroy select owner)
  | .resume tid =>
    match s.blocked tid with
    | none => (none, s)
    | some b => ((s.resume tid b).1.map (b.contextId, ·), (s.resume tid b).2)

def heard (ctx : UInt32) : Option (UInt32 × Reply) → Option Reply
  | none => none
  | some (caller, reply) => if caller = ctx then some reply else none

def replies (ctx : UInt32) : State → List Event → List Reply
  | _, [] => []
  | s, e :: es => (heard ctx (exec s e).1).toList ++ replies ctx (exec s e).2 es

end Ipc
