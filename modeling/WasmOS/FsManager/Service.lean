import WasmOS.FsManager.Routing

/-! # The service loop

The manager takes one message after another from an endpoint that anyone may send to. Among them are
the process manager's replies to spawns that mounts wait for, and the events of the class the
backends register in.
-/

open List

namespace FsManager

/-- A mount that waits for its driver to be spawned. The code does not keep the id of the spawn
request. -/
structure Pending where
  client : ℤ
  requestId : ℤ
  mount : Text
  spawnId : ℤ
  deriving DecidableEq

structure State where
  backends : Table
  clients : List Client
  pending : Option Pending
  mountRequestId : ℤ
  deriving DecidableEq

/-- The end of `fsmgr_mount_send_spawn`; a send that fails has used up its id. -/
inductive SpawnSend
  | sent
  | noBuffer
  | notSent

structure Env where
  xferSize : ℤ
  /-- What a backend reports about itself. -/
  info : ℤ → Option Info
  /-- The providers of the backends' class. -/
  providers : List ℤ
  spawn : SpawnSend
  /-- A stat of a directory succeeds. -/
  isDir : Bool
  /-- The descriptor an open is answered with. -/
  opened : Option ℤ
  closed : Bool
  /-- The heap has room for another client. -/
  room : Bool

inductive ClassEvent | add | remove | other
  deriving DecidableEq

inductive Body
  | procReply (ok : Bool) (pid : ℤ)
  | classEvent (event : ClassEvent) (endpoint : ℤ)
  | hangup (contextId : ℤ)
  | cloneCwd (src dst : ℤ)
  | queryMounts
  | unmount (pathLen : ℤ) (buffer : Buffer)
  | mount (descLen : ℤ) (buffer : Buffer)
  | open_ (q : PathRequest)
  | paths (q : PathRequest)
  | close (fd : ℤ)
  /-- A listing, or a read, write or seek. -/
  | passOn
  deriving DecidableEq

structure Message where
  source : ℤ
  /-- The context that owns the source, negative if there is none. -/
  owner : ℤ
  requestId : ℤ
  body : Body
  deriving DecidableEq

structure Answer where
  client : ℤ
  requestId : ℤ
  result : Except Err ℤ

variable (env : Env) (t : Table) (endpoint : ℤ)

def pullBackend : Table :=
  if endpoint < 0 then t
  else
    match env.info endpoint with
    | none => t
    | some info =>
      if info.mount.length = 0 ∨ mountPathMax ≤ info.mount.length then t
      else
        applyBackendInfo t endpoint
          { info with source := if 64 ≤ info.source.length then [] else info.source }

def pullAllBackends : Table := (env.providers.take 8).foldl (pullBackend env) t

/-- `fsmgr_forget_backend_in_clients`, of one client. -/
def Client.forget (c : Client) : Client := { c with
    backendEndpoint := if c.backendEndpoint = endpoint then -1 else c.backendEndpoint
    fds := c.fds.map fun fd => fd.filter fun f => f.backendEndpoint != endpoint }

variable (s : State)

def backendRemove (endpoint : ℤ) : State :=
  { s with
    backends := s.backends.remove endpoint
    clients := s.clients.map (Client.forget endpoint) }

/-- `fsmgr_mount_busy_reason`, of the backend in a slot. -/
def mountBusy (slot : ℕ) (mount : Backend) : Bool := (s.backends.zipIdx.any fun b =>
    b.2 != slot && b.1.any fun b => pathIsWithin mount.mountPath b.mountPath) ||
    s.clients.any fun c => pathIsWithin mount.mountPath c.cwd ||
      c.fds.any fun fd => fd.any fun f => f.backendEndpoint == mount.endpoint

def isBlank (c : Char) : Bool := c == ' ' || c == '\t'

def descToken (desc key : Text) (cap : ℕ) : Option Text :=
  match (desc.splitOnP isBlank).find? fun word => key.isPrefixOf word with
  | none => none
  | some word =>
    let value := word.drop key.length
    if cap ≤ value.length ∨ value = [] then none else some value

/-- `g_fstypes`: the types that can be mounted, and whether they have a device. -/
def fstypeNeedsSource (type : Text) : Option Bool :=
  if type = "tmpfs".toList then some false
  else if type = "fat".toList ∨ type = "wfs".toList then some true
  else none

def mountedAt (mount : Text) : Option (ℕ × Backend) := do
  let slot ← t.findIdx? fun b => b.any fun b => b.mountPath == mount
  let b ← t[slot]?
  b.map fun b => (slot, b)

def mountPathOf (cwd path : Text) : Except Err Text :=
  match cwdJoin cwd path cwdMax with
  | none => .error .pathTooLong
  | some target =>
    match mountPathFromReported target mountPathMax with
    | none => .error .notAbsolute
    | some mount => .ok mount

variable (c : Client)

def mountRequested (descLen : ℤ) (buffer : Buffer) :
    Except Err Text :=
  if s.pending.isSome then .error .busy
  else if buffer.id ≤ 0 ∨ descLen ≤ 0 ∨ 256 ≤ descLen ∨ env.xferSize ≤ descLen then .error .badArgs
  else
    match buffer.read descLen.toNat 0 with
    | none => .error .buffer
    | some bytes =>
      let desc := cstr bytes
      match (descToken desc "type=".toList 16).bind fstypeNeedsSource with
      | none => .error .mountFstype
      | some needsSource =>
        if (descToken desc "source=".toList 64).isSome ≠ needsSource then .error .mountFstype
        else
          match descToken desc "mount=".toList cwdMax with
          | none => .error .badArgs
          | some path =>
            match mountPathOf c.cwd path with
            | .error e => .error e
            | .ok mount =>
              if (mountedAt s.backends mount).isSome then .error .mountExists else .ok mount

def handleMountReq (m : Message) (descLen : ℤ) (buffer : Buffer) : State × List Answer :=
  match mountRequested env s c descLen buffer with
  | .error e => (s, [⟨m.source, m.requestId, .error e⟩])
  | .ok mount =>
    match env.spawn with
    | .sent =>
      ({ s with
        pending := some ⟨m.source, m.requestId, mount, s.mountRequestId⟩
        mountRequestId := s.mountRequestId + 1 }, [])
    | .noBuffer => (s, [⟨m.source, m.requestId, .error .buffer⟩])
    | .notSent =>
      ({ s with mountRequestId := s.mountRequestId + 1 },
        [⟨m.source, m.requestId, .error .backendIpc⟩])

def handleSpawnReply (ok : Bool) (pid : ℤ) : State × List Answer :=
  match s.pending with
  | none => (s, [])
  | some p =>
    if !ok then ({ s with pending := none }, [⟨p.client, p.requestId, .error .notReady⟩])
    else
      let t := pullAllBackends env s.backends
      ({ s with backends := t, pending := none }, [⟨p.client, p.requestId,
          if (mountedAt t p.mount).isSome then .ok pid else .error .notReady⟩])

def handleUnmountReq (m : Message) (pathLen : ℤ) (buffer : Buffer) : State × List Answer :=
  let refuse (e : Err) : State × List Answer := (s, [⟨m.source, m.requestId, .error e⟩])
  if buffer.id ≤ 0 ∨ pathLen ≤ 0 ∨ 128 ≤ pathLen ∨ env.xferSize ≤ pathLen then refuse .pathTooLong
  else
    match buffer.read pathLen.toNat 0 with
    | none => refuse .buffer
    | some bytes =>
      match mountPathOf c.cwd (cstr bytes) with
      | .error e => refuse e
      | .ok mount =>
        match mountedAt s.backends mount with
        | none => refuse .noBackend
        | some (slot, victim) =>
          if mountBusy s slot victim then refuse .mountBusy
          else
            ({ s with
              backends := s.backends.set slot none
              clients := s.clients.map (Client.forget victim.endpoint) },
              [⟨m.source, m.requestId, .ok 0⟩])

def fdCap : ℕ := 32

def Client.new (contextId : ℤ) : Client := ⟨contextId, -1, ['/'], List.replicate fdCap none⟩

def clientGet (contextId : ℤ) : Option (State × Client) :=
  match s.clients.find? fun c => c.contextId == contextId with
  | some c => some (s, c)
  | none =>
    if env.room then
      some ({ s with clients := s.clients ++ [Client.new contextId] }, Client.new contextId)
    else none

def State.setClient : State :=
  { s with clients := s.clients.map fun d => if d.contextId = c.contextId then c else d }

/-- `handle_chdir_mount`, once the backend has answered. -/
def chdirClient (q : PathRequest) : State :=
  match servePaths env.xferSize s.backends c q, q.names with
  | .ok none, _ => s.setClient { c with cwd := ['/'], backendEndpoint := -1 }
  | .ok (some f), [path] =>
    if env.isDir then
      s.setClient { c with
        cwd := (cwdJoin c.cwd path cwdMax).getD c.cwd, backendEndpoint := f.backend }
    else s
  | _, _ => s

def openClient (q : PathRequest) : State :=
  match servePaths env.xferSize s.backends c q, env.opened, c.fds.findIdx? Option.isNone with
  | .ok (some f), some fd, some i =>
    if 0 ≤ fd then s.setClient { c with fds := c.fds.set i (some ⟨f.backend, fd⟩) } else s
  | _, _, _ => s

def closeClient (fd : ℤ) : State :=
  if env.closed && decide (3 ≤ fd) then s.setClient { c with fds := c.fds.set (fd - 3).toNat none }
  else s

/-- `handle_clone_cwd_req` of an authorised sender. -/
def cloneCwd (src dst : ℤ) : State :=
  match clientGet env s src with
  | none => s
  | some (s, parent) =>
    match clientGet env s dst with
    | none => s
    | some (s, child) =>
      s.setClient { child with backendEndpoint := parent.backendEndpoint, cwd := parent.cwd }

/-- One round of the loop. `procOwner` is the context that owns the process manager's endpoint. -/
def serveMessage (procOwner : ℤ) (env : Env) (s : State) (m : Message) : State × List Answer :=
  match m.body with
  | .procReply ok pid => handleSpawnReply env s ok pid
  | .hangup contextId =>
    ({ s with clients := s.clients.filter fun c => c.contextId != contextId }, [])
  | .classEvent .add endpoint => ({ s with backends := pullBackend env s.backends endpoint }, [])
  | .classEvent .remove endpoint => (backendRemove s endpoint, [])
  | .classEvent .other _ => (s, [])
  | .cloneCwd src dst =>
    if m.owner < 0 ∨ procOwner < 0 ∨ m.owner ≠ procOwner ∨ src ≤ 0 ∨ dst ≤ 0 then (s, [])
    else (cloneCwd env s src dst, [])
  | .queryMounts => (s, [])
  | body =>
    match clientGet env s (if m.owner < 0 then m.source else m.owner) with
    | none => (s, [])
    | some (s, c) =>
      match body with
      | .unmount pathLen buffer => handleUnmountReq env s c m pathLen buffer
      | .mount descLen buffer => handleMountReq env s c m descLen buffer
      | .open_ q => (openClient env s c q, [])
      | .paths q => (if q.op = .chdir then chdirClient env s c q else s, [])
      | .close fd => (closeClient env s c fd, [])
      | _ => (s, [])

def Body.isProcs : Body → Bool
  | .procReply .. => true
  | .classEvent .. => true
  | _ => false

def Body.isReply : Body → Bool
  | .procReply .. => true
  | _ => false

structure Run where
  state : State
  unanswered : List ℤ

def spawnSent (s t : State) : List ℤ :=
  if s.pending.isNone then (t.pending.map Pending.spawnId).toList else []

variable (proc procOwner : ℤ) (r : Run) (e : Message × Env)

def runStep : Run :=
  let t := (serveMessage procOwner e.2 r.state e.1).1
  { state := t
    unanswered := (if e.1.body.isReply && e.1.source == proc then r.unanswered.erase e.1.requestId
        else r.unanswered) ++ spawnSent r.state t }

def runMessages (es : List (Message × Env)) : Run := es.foldl (runStep proc procOwner) r

/-- In one round, messages that are the process manager's to send change nothing when they come from
elsewhere, and its replies settle the mount that waits for them. -/
structure Heeds (s : State) (e : Message × Env) : Prop where
  others : e.1.body.isProcs = true → e.1.source ≠ proc →
    (serveMessage procOwner e.2 s e.1).1.backends = s.backends ∧
    (serveMessage procOwner e.2 s e.1).1.pending = s.pending ∧
    (serveMessage procOwner e.2 s e.1).2 = []
  replies : e.1.body.isReply = true → e.1.source = proc → ∀ p, s.pending = some p →
    (serveMessage procOwner e.2 s e.1).1.pending ≠ some p → p.spawnId = e.1.requestId

def inert : Body → Bool
  | .procReply .. => s.pending.isNone
  | .classEvent .add endpoint => decide (endpoint < 0) || (env.info endpoint).isNone
  | .classEvent .remove endpoint => s.backends.mounted.all fun b => b.endpoint != endpoint
  | .classEvent .other _ => true
  | _ => false

/-- The process manager's messages come from it or do nothing, and it answers its spawn requests
once each. -/
def authentic : Bool :=
  if e.1.body.isProcs && e.1.source != proc then inert e.2 r.state e.1.body
  else !e.1.body.isReply || r.unanswered.contains e.1.requestId

def runAuthentic : Run → List (Message × Env) → Bool
  | _, [] => true
  | r, e :: es => authentic proc r e && runAuthentic (runStep proc procOwner r e) es

variable {proc procOwner} {env : Env} {s : State} {m : Message} {c : Client}

lemma clientGet_pending {id : ℤ} {t : State} (h : clientGet env s id = some (t, c)) :
    t.pending = s.pending := by
  unfold clientGet at h
  split at h
  · cases h
    rfl
  split at h
  · cases h
    rfl
  · cases h

lemma handleUnmountReq_pending {pathLen : ℤ} {buffer : Buffer} :
    (handleUnmountReq env s c m pathLen buffer).1.pending = s.pending := by
  unfold handleUnmountReq
  iterate 4
    split
    · rfl
  split <;> rfl

lemma handleMountReq_pending {descLen : ℤ} {buffer : Buffer} (hp : s.pending.isSome = true) :
    (handleMountReq env s c m descLen buffer).1.pending = s.pending := by
  unfold handleMountReq mountRequested
  rw [if_pos hp]

lemma chdirClient_pending {q : PathRequest} : (chdirClient env s c q).pending = s.pending := by
  unfold chdirClient
  split
  · rfl
  · split <;> rfl
  · rfl

lemma openClient_pending {q : PathRequest} : (openClient env s c q).pending = s.pending := by
  unfold openClient
  split
  · split <;> rfl
  · rfl

lemma closeClient_pending {fd : ℤ} : (closeClient env s c fd).pending = s.pending := by
  unfold closeClient
  split <;> rfl

lemma cloneCwd_pending {src dst : ℤ} : (cloneCwd env s src dst).pending = s.pending := by
  unfold cloneCwd
  split
  · rfl
  next t parent hsrc =>
  split
  · exact clientGet_pending hsrc
  next u child hdst => exact (clientGet_pending hdst).trans (clientGet_pending hsrc)

lemma serveMessage_pending (hm : m.body.isReply = false) (hp : s.pending.isSome = true) :
    (serveMessage procOwner env s m).1.pending = s.pending := by
  -- the requests of clients are served from the state that knows the client
  have hclient : ∀ (f : State → Client → State × List Answer),
      (∀ t d, t.pending = s.pending → (f t d).1.pending = t.pending) →
      (match clientGet env s (if m.owner < 0 then m.source else m.owner) with
        | none => (s, [])
        | some (t, d) => f t d).1.pending = s.pending := by
    intro f hf
    split
    · rfl
    next t d hget =>
    have ht := clientGet_pending hget
    exact (hf t d ht).trans ht
  unfold serveMessage
  cases hb : m.body with
  | procReply ok pid => rw [hb] at hm; cases hm
  | hangup contextId => rfl
  | classEvent event endpoint => cases event <;> rfl
  | cloneCwd src dst =>
    dsimp only
    split
    · rfl
    · exact cloneCwd_pending
  | queryMounts => rfl
  | unmount pathLen buffer => exact hclient _ fun t d ht => handleUnmountReq_pending
  | mount descLen buffer =>
    exact hclient _ fun t d ht => handleMountReq_pending (by rw [ht]; exact hp)
  | open_ q => exact hclient _ fun t d ht => openClient_pending
  | paths q =>
    refine hclient (fun t d => (if q.op = .chdir then chdirClient env t d q else t, [])) ?_
    intro t d ht
    split
    · exact chdirClient_pending
    · rfl
  | close fd => exact hclient _ fun t d ht => closeClient_pending
  | passOn => exact hclient _ fun t d ht => rfl

lemma remove_eq_self {t : Table} {endpoint : ℤ}
    (h : ∀ b ∈ t.mounted, b.endpoint ≠ endpoint) : t.remove endpoint = t := by
  conv_rhs => rw [← map_id t]
  apply map_congr_left
  intro slot hslot
  cases slot with
  | none => rfl
  | some b =>
    have hb : b ∈ t.mounted := mem_filterMap.mpr ⟨some b, hslot, rfl⟩
    simp [h b hb]

lemma serveMessage_inert (hb : m.body.isProcs = true) (h : inert env s m.body = true) :
    (serveMessage procOwner env s m).1.backends = s.backends ∧
      (serveMessage procOwner env s m).1.pending = s.pending ∧
      (serveMessage procOwner env s m).2 = [] := by
  unfold serveMessage
  cases hm : m.body with
  | procReply ok pid =>
    rw [hm] at h
    have hnone : s.pending = none := Option.isNone_iff_eq_none.mp h
    simp [handleSpawnReply, hnone]
  | classEvent event endpoint =>
    rw [hm] at h
    cases event with
    | add =>
      simp only [inert, Bool.or_eq_true, decide_eq_true_eq, Option.isNone_iff_eq_none] at h
      refine ⟨?_, rfl, rfl⟩
      dsimp only
      unfold pullBackend
      split
      · rfl
      · next hneg => rw [h.resolve_left hneg]
    | remove =>
      simp only [inert, all_eq_true, bne_iff_ne, ne_eq] at h
      exact ⟨remove_eq_self h, rfl, rfl⟩
    | other => exact ⟨rfl, rfl, rfl⟩
  | _ => rw [hm] at hb; cases hb

def Awaited : Prop := r.unanswered = (r.state.pending.map Pending.spawnId).toList

variable {r : Run} {e : Message × Env}

lemma Awaited.heeds (h : Awaited r)
    (ha : authentic proc r e = true) : Heeds proc procOwner r.state e := by
  unfold authentic at ha
  constructor
  · intro hb hsrc
    rw [if_pos (by simp [hb, hsrc])] at ha
    exact serveMessage_inert hb ha
  intro hr hsrc p hp _
  rw [if_neg (by simp [hsrc]), hr, Bool.not_true, Bool.false_or, h, hp] at ha
  simpa using Eq.symm (mem_singleton.mp (contains_iff_mem.mp ha))

lemma handleSpawnReply_pending {ok : Bool} {pid : ℤ} :
    (handleSpawnReply env s ok pid).1.pending = none := by
  unfold handleSpawnReply
  split
  · next h => exact h
  · split <;> rfl

lemma Awaited.step (h : Awaited r)
    (ha : authentic proc r e = true) : Awaited (runStep proc procOwner r e) := by
  unfold Awaited runStep spawnSent at *
  dsimp only
  cases hr : e.1.body.isReply with
  | false =>
    rw [Bool.false_and, if_neg (by simp), h]
    cases hp : r.state.pending with
    | none => simp
    | some p =>
      rw [serveMessage_pending hr (by rw [hp]; rfl), hp]
      simp
  | true =>
    obtain ⟨ok, pid, hb⟩ : ∃ ok pid, e.1.body = .procReply ok pid := by
      cases hb : e.1.body with
      | procReply ok pid => exact ⟨ok, pid, rfl⟩
      | _ => rw [hb] at hr; cases hr
    have hafter : (serveMessage procOwner e.2 r.state e.1).1.pending = none := by
      unfold serveMessage
      rw [hb]
      exact handleSpawnReply_pending
    rw [hafter, h]
    unfold authentic at ha
    by_cases hsrc : e.1.source = proc
    · rw [if_neg (by simp [hsrc]), hr, Bool.not_true, Bool.false_or, h, contains_iff_mem] at ha
      rw [if_pos (by simp [hsrc])]
      cases hp : r.state.pending with
      | none => rw [hp] at ha; simp at ha
      | some p =>
        rw [hp] at ha
        have hid : e.1.requestId = p.spawnId := by simpa using ha
        simp [hid]
    have hprocs : e.1.body.isProcs = true := by rw [hb]; rfl
    rw [if_pos (by simp [hprocs, hsrc]), hb] at ha
    have hnone := Option.isNone_iff_eq_none.mp ha
    rw [if_neg (by simp [hsrc]), hnone]
    rfl

lemma Awaited.run {es : List (Message × Env)} (h : Awaited r)
    (ha : runAuthentic proc procOwner r es = true) :
    Awaited (runMessages proc procOwner r es) := by
  induction es generalizing r with
  | nil => exact h
  | cons e es ih =>
    simp only [runAuthentic, Bool.and_eq_true] at ha
    exact ih (h.step ha.1) ha.2

lemma runAuthentic_append {pre post : List (Message × Env)} :
    runAuthentic proc procOwner r (pre ++ post) = (runAuthentic proc procOwner r pre &&
        runAuthentic proc procOwner (runMessages proc procOwner r pre) post) := by
  induction pre generalizing r with
  | nil => rfl
  | cons e pre ih =>
    simp only [cons_append, runAuthentic, ih, Bool.and_assoc]
    rfl

def Run.start : Run := ⟨⟨t, [], none, 1⟩, []⟩

/-- In every run whose messages are authentic, only the process manager's word changes the mount
table or settles a mount, and a reply settles its own mount. -/
theorem heeds_process_manager {t : Table} {es pre post : List (Message × Env)}
    {e : Message × Env} (ha : runAuthentic proc procOwner (Run.start t) es = true)
    (hsplit : es = pre ++ e :: post) :
    Heeds proc procOwner (runMessages proc procOwner (Run.start t) pre).state e := by
  subst hsplit
  rw [runAuthentic_append, Bool.and_eq_true] at ha
  have hstart : Awaited (Run.start t) := rfl
  simp only [runAuthentic, Bool.and_eq_true] at ha
  exact (hstart.run ha.1).heeds ha.2.1

def scratchEnv : Env where
  xferSize := 4096
  info endpoint := if endpoint = 12 then some ⟨1, .tmpfs, "/scratch".toList, []⟩ else none
  providers := [12]
  spawn := .sent
  isDir := true
  opened := none
  closed := true
  room := true

def scratchMount : Message :=
  let desc := "type=tmpfs mount=/scratch".toList
  ⟨50, 5, 77, .mount desc.length ⟨1, desc, true⟩⟩

/-- The mount, a forged reply to no request in front of it, and the process manager's reply. -/
def scratchRun : List (Message × Env) :=
  [(⟨66, 6, 1, .procReply false 0⟩, scratchEnv), (scratchMount, scratchEnv),
    (⟨1, 2, 1, .procReply true 9⟩, scratchEnv)]

theorem heeds_process_manager_scratchRun :
    runAuthentic 1 2 (Run.start bootTable) scratchRun = true ∧
      Heeds 1 2 (runMessages 1 2 (Run.start bootTable) (scratchRun.take 2)).state
        (⟨1, 2, 1, .procReply true 9⟩, scratchEnv) := by
  have ha : runAuthentic 1 2 (Run.start bootTable) scratchRun = true := by decide +kernel
  exact ⟨ha, heeds_process_manager ha rfl⟩

/-- Someone else's class event takes the boot volume out of the table, and someone else's reply
fails a mount. -/
theorem forged_messages_obeyed :
    ¬ Heeds 1 2 (Run.start bootTable).state (⟨66, 6, 0, .classEvent .remove 10⟩, scratchEnv) ∧
      ¬ Heeds 1 2 (runMessages 1 2 (Run.start bootTable) [(scratchMount, scratchEnv)]).state
        (⟨66, 6, 0, .procReply false 0⟩, scratchEnv) := by
  constructor
  · intro h
    exact absurd (h.others rfl (by decide)).1 (by decide +kernel)
  · intro h
    exact absurd (h.others rfl (by decide)).2.1 (by decide +kernel)

end FsManager
