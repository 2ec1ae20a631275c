import Mathlib.Data.List.Nodup

/-! # The operation pool of the FAT driver

The reactor takes a slot for every request it receives, queues it and gives it back once the request
is answered. Requests are numbered as they arrive; what a step of an operation comes to is open.
-/

open List Function

namespace Fat.Pool

def maxInflight : ℕ := 8

/-- `fat_r_t`. -/
inductive Outcome | wait | done | err

inductive Final | resp | failed | busy | badArgs | pathTooLong | buffer
  deriving DecidableEq

/-- A final reply and how many requests were queued or active when it was sent. -/
structure Reply where
  request : ℕ
  final : Final
  inFlight : ℕ

structure Server where
  /-- The request in each slot in use. -/
  ops : ℕ → Option ℕ
  fifo : List ℕ
  active : Option ℕ
  taken : ℕ
  started : List ℕ
  replies : List Reply
  drives : ℕ

/-- The path of a `FS_IPC_READDIR_REQ`: its length, the size of the buffer, and if it is read. -/
structure ListPath where
  len : ℕ
  bufferSize : ℕ
  read : Bool

inductive Event
  /-- A message of the block server; `owner` is the slot whose request it completes. -/
  | block (owner : Option ℕ) (ok : Bool)
  | request (list : Option ListPath)
  | ready
  /-- A failed wait, or a message that is no request to the file system; the owner's unmount ends
  the run. -/
  | other

def ListPath.error (p : ListPath) : Option Final :=
  if p.len = 0 then some .badArgs
  else if 128 ≤ p.len ∨ p.bufferSize < p.len + 1 then some .pathTooLong
  else if p.read then none
  else some .buffer

namespace Server

def init : Server := ⟨fun _ => none, [], none, 0, [], [], 0⟩

variable (env : ℕ → Outcome) (s : Server)

def inFlight : List ℕ := s.active.toList ++ s.fifo

def requestOf (i : ℕ) : ℕ := (s.ops i).getD 0

def answer (r : ℕ) (f : Final) : Server :=
  { s with replies := s.replies ++ [⟨r, f, s.inFlight.length⟩] }

/-- The reply to the active request and `fat_op_free`. -/
def finish (i : ℕ) (f : Final) : Server :=
  { s.answer (s.requestOf i) f with ops := update s.ops i none, active := none }

def driveActive : Server :=
  match s.active, env s.drives with
  | none, _ => s
  | some _, .wait => { s with drives := s.drives + 1 }
  | some i, .done => { s with drives := s.drives + 1 }.finish i .resp
  | some i, .err => { s with drives := s.drives + 1 }.finish i .failed

def activateNext (env : ℕ → Outcome) : Server → List ℕ → Server
  | s, [] => s
  | s, i :: fifo =>
    match s.active with
    | some _ => s
    | none => activateNext env (driveActive env
        { s with fifo, active := some i, started := s.started ++ [s.requestOf i] }) fifo

/-- The `FS_IPC` requests that take a slot. -/
def takeRequest (list : Option ListPath) : Server :=
  let r := s.taken
  let s := { s with taken := r + 1 }
  match (List.range maxInflight).find? fun i => (s.ops i).isNone with
  | none => s.answer r .busy
  | some i =>
    let s := { s with ops := update s.ops i (some r) }
    match list.bind ListPath.error with
    | some f => s.answer r f
    | none => { s with fifo := s.fifo ++ [i] }

def handle : Event → Server
  | .block owner ok =>
    match s.active with
    | none => s
    | some i =>
      if owner ≠ some i then s
      else if ok then s.driveActive env
      else s.finish i .failed
  | .request list => s.takeRequest list
  | .ready => { s with taken := s.taken + 1 }.answer s.taken .resp
  | .other => s

/-- One round of the loop. -/
def step (e : Event) : Server := (activateNext env s s.fifo).handle env e

def run (es : List Event) : Server := es.foldl (step env) init

structure Sound (s : Server) : Prop where
  slots : ∀ i, (s.ops i).isSome = true ↔ i ∈ s.inFlight
  nodup : s.inFlight.Nodup
  lt : ∀ i ∈ s.inFlight, i < maxInflight
  /-- Requests are started in the order of their arrival. -/
  order : (s.started ++ s.fifo.map s.requestOf).Pairwise (· < ·)
  arrived : ∀ r ∈ s.started ++ s.fifo.map s.requestOf, r < s.taken
  /-- A request is queued, active or answered once. -/
  once : (s.replies.map (·.request) ++ s.inFlight.map s.requestOf).Perm (List.range s.taken)
  busy : ∀ a ∈ s.replies, a.final = .busy → a.inFlight = maxInflight

variable {env} {s : Server} {i r : ℕ} {f : Final}

lemma map_requestOf_update {l : List ℕ} (v : Option ℕ) (hi : i ∉ l) :
    l.map { s with ops := update s.ops i v }.requestOf = l.map s.requestOf := by
  refine map_congr_left fun j hj => ?_
  have hne : j ≠ i := fun he => hi (he ▸ hj)
  simp [requestOf, hne]

namespace Sound

variable (h : Sound s)
include h

lemma finish (ha : s.active = some i) (hf : f ≠ .busy) : Sound (s.finish i f) := by
  have hin : s.inFlight = i :: s.fifo := by rw [inFlight, ha]; rfl
  obtain ⟨hi, hnd⟩ := nodup_cons.mp (hin ▸ h.nodup)
  have hmap : s.fifo.map (s.finish i f).requestOf = s.fifo.map s.requestOf :=
    map_requestOf_update none hi
  have honce := h.once
  rw [hin, map_cons, append_cons] at honce
  refine ⟨fun j => ?_, hnd, fun j hj => h.lt j (hin ▸ mem_cons_of_mem _ hj), ?_, ?_, ?_, ?_⟩
  · show (update s.ops i none j).isSome = true ↔ j ∈ s.fifo
    by_cases hj : j = i
    · subst hj
      simp [hi]
    · rw [update_of_ne hj, h.slots, hin, mem_cons, or_iff_right hj]
  · exact hmap.symm ▸ h.order
  · exact hmap.symm ▸ h.arrived
  · show (map _ (s.replies ++ [_]) ++ s.fifo.map _).Perm _
    rwa [hmap, map_append]
  · exact forall_mem_append.mpr ⟨h.busy, forall_mem_singleton.mpr fun he => absurd he hf⟩

lemma driveActive : Sound (s.driveActive env) ∧ (s.driveActive env).fifo = s.fifo := by
  have hnext : Sound { s with drives := s.drives + 1 } :=
    ⟨h.slots, h.nodup, h.lt, h.order, h.arrived, h.once, h.busy⟩
  unfold Server.driveActive
  split
  · exact ⟨h, rfl⟩
  · exact ⟨hnext, rfl⟩
  next ha _ => exact ⟨hnext.finish ha nofun, rfl⟩
  next ha _ => exact ⟨hnext.finish ha nofun, rfl⟩

lemma activateNext {fifo : List ℕ} (hq : s.fifo = fifo) : Sound (activateNext env s fifo) := by
  induction fifo generalizing s with
  | nil => exact h
  | cons i fifo ih =>
    unfold Server.activateNext
    split
    · exact h
    next ha =>
    obtain ⟨hslots, hnodup, hlt, horder, harrived, honce, hbusy⟩ := h
    have hin : s.inFlight = i :: fifo := by rw [inFlight, ha, hq]; rfl
    rw [hin] at hslots hnodup hlt honce
    rw [hq, map_cons, append_cons] at horder harrived
    have hpop : Sound { s with
        fifo, active := some i, started := s.started ++ [s.requestOf i] } :=
      ⟨hslots, hnodup, hlt, horder, harrived, honce, hbusy⟩
    exact ih hpop.driveActive.1 hpop.driveActive.2

lemma arrived_succ : ∀ r ∈ s.started ++ s.fifo.map s.requestOf, r < s.taken + 1 :=
  fun r hr => Nat.lt_succ_of_lt (h.arrived r hr)

lemma once_succ : (s.replies.map (·.request) ++ s.inFlight.map s.requestOf ++ [s.taken]).Perm
    (List.range (s.taken + 1)) :=
  range_succ ▸ h.once.append_right _

lemma length_inFlight (hnone : ∀ i < maxInflight, (s.ops i).isSome = true) :
    s.inFlight.length = maxInflight := by
  have hperm : s.inFlight.Perm (List.range maxInflight) := by
    refine (perm_ext_iff_of_nodup h.nodup nodup_range).mpr fun i => ?_
    rw [List.mem_range]
    exact ⟨h.lt i, fun hi => (h.slots i).mp (hnone i hi)⟩
  rw [hperm.length_eq, length_range]

lemma answerNow (hf : f = .busy → s.inFlight.length = maxInflight) :
    Sound ({ s with taken := s.taken + 1 }.answer s.taken f) := by
  refine ⟨h.slots, h.nodup, h.lt, h.order, h.arrived_succ, ?_,
    forall_mem_append.mpr ⟨h.busy, forall_mem_singleton.mpr hf⟩⟩
  show (map _ (s.replies ++ [_]) ++ _).Perm _
  rw [map_append, append_assoc]
  refine (perm_append_comm.append_left _).trans ?_
  rw [← append_assoc]
  exact h.once_succ

lemma takeRequest {list : Option ListPath} (hl : list.bind ListPath.error = none) :
    Sound (s.takeRequest list) := by
  unfold Server.takeRequest
  dsimp only
  split
  next hnone =>
    refine h.answerNow fun _ => h.length_inFlight fun i hi => ?_
    simpa [Option.isSome_iff_ne_none] using find?_eq_none.mp hnone i (List.mem_range.mpr hi)
  next i hfind =>
  rw [hl]
  have hi : i < maxInflight := List.mem_range.mp (mem_of_find?_eq_some hfind)
  have hfree : (s.ops i).isNone = true := find?_some (p := fun i => (s.ops i).isNone) hfind
  have hnew : i ∉ s.inFlight := by
    rw [← h.slots, Option.isNone_iff_eq_none.mp hfree]
    exact Bool.false_ne_true
  set t : Server := { s with
    taken := s.taken + 1, ops := update s.ops i (some s.taken), fifo := s.fifo ++ [i] } with ht
  have hin : t.inFlight = s.inFlight ++ [i] := (append_assoc ..).symm
  have hself : t.requestOf i = s.taken := by simp [requestOf, ht]
  have hmap : s.inFlight.map t.requestOf = s.inFlight.map s.requestOf := map_requestOf_update _ hnew
  have hqueue : s.started ++ t.fifo.map t.requestOf =
      s.started ++ s.fifo.map s.requestOf ++ [s.taken] := by
    rw [append_assoc, ← hself, ← map_requestOf_update _ fun hm => hnew (mem_append_right _ hm)]
    exact congrArg _ map_append
  constructor
  · intro j
    rw [hin]
    by_cases hj : j = i
    · subst hj
      simp [ht]
    · simpa [ht, hj] using h.slots j
  · rw [hin]
    exact nodup_append_comm.mp (nodup_cons.mpr ⟨hnew, h.nodup⟩)
  · rw [hin]
    exact forall_mem_append.mpr ⟨h.lt, forall_mem_singleton.mpr hi⟩
  · rw [hqueue]
    exact pairwise_append.mpr ⟨h.order, pairwise_singleton .., by simpa using h.arrived⟩
  · rw [hqueue]
    exact forall_mem_append.mpr ⟨h.arrived_succ, forall_mem_singleton.mpr (Nat.lt_succ_self _)⟩
  · rw [hin, map_append, hmap, map_singleton, hself, ← append_assoc]
    exact h.once_succ
  · exact h.busy

lemma step {e : Event} (he : ∀ list, e = .request list → list.bind ListPath.error = none) :
    Sound (s.step env e) := by
  have hn : Sound (Server.activateNext env s s.fifo) := h.activateNext rfl
  unfold Server.step handle
  split
  · split
    · exact hn
    next ha =>
    split_ifs
    · exact hn
    · exact hn.driveActive.1
    · exact hn.finish ha nofun
  · exact hn.takeRequest (he _ rfl)
  · exact hn.answerNow nofun
  · exact hn

end Sound

/-- As long as no listing is refused for its path, slots are in use for the requests queued or
active, which are taken in order, answered once and refused only when all slots are taken. -/
theorem pool_kept (env : ℕ → Outcome) (es : List Event)
    (hes : ∀ list, .request list ∈ es → list.bind ListPath.error = none) :
    Sound (run env es) := by
  have hinit : Sound init := by constructor <;> simp [init, inFlight]
  exact foldlRecOn es _ hinit fun s h e he => h.step fun list hl => hes list (hl ▸ he)

theorem pool_kept_listing :
    let s := run (fun _ => .done) [.request none, .request (some ⟨4, 64, true⟩)]
    Sound s ∧ s.fifo = [0] :=
  ⟨pool_kept _ _ (by simp [ListPath.error]), rfl⟩

/-- Listings of the empty path keep their slots: after eight of them every request is refused,
though none is queued or active. -/
theorem refused_listings_leak :
    let s := run (fun _ => .done) (replicate 8 (.request (some ⟨0, 64, true⟩)) ++ [.request none])
    s.inFlight = [] ∧ (∀ i < maxInflight, (s.ops i).isSome = true) ∧
      s.replies.getLast?.map (fun a => (a.request, a.final, a.inFlight)) = some (8, .busy, 0) := by
  decide +kernel

end Server

end Fat.Pool
