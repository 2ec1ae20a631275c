import Mathlib.Data.List.ReduceOption
import WasmOS.Crc.Basic
import WasmOS.Wfs.OnDisk.LogRecords

/-! # The partition manager

`partition_manager.zig` forwards transfers, and a disk reads the descriptor of one when it gets to
the message. If a transfer is forwarded only when the earlier descriptors have been read, under an
id that no transfer in flight has, every disk reads the descriptor of its message.
-/

open List

namespace PartitionManager

open Crc Wfs.OnDisk

/-- `BLOCK_IPC_READ_*` or `BLOCK_IPC_WRITE_*`. -/
inductive Kind
  | read
  | write
  deriving DecidableEq

/-- `BlockRequest`: what a client or this manager writes for a transfer. -/
structure BlockRequest where
  version : ℕ
  target : ℕ
  lba : ℕ
  sectorCount : ℕ
  dstKind : ℕ
  dstPhys : ℕ
  dstBufferId : ℤ
  dstBorrowId : ℤ
  dstOffset : ℕ
  deriving DecidableEq

structure Disk where
  instance_ : ℕ
  endpoint : ℤ
  sectorCount : ℕ
  /-- A disk has less than 2^64 sectors. -/
  bounded : sectorCount < 2 ^ 64
  deriving DecidableEq

structure Partition where
  instance_ : ℕ
  disk : ℕ
  lbaStart : ℕ
  lbaCount : ℕ
  deriving DecidableEq

structure Record where
  kind : Kind
  request : BlockRequest
  partition : Partition
  disk : Disk
  borrow : Option ℤ
  deriving DecidableEq

structure Inflight where
  client : ℤ
  clientRequestId : ℤ
  downRequestId : ℤ
  downBorrowId : Option ℤ
  sectors : ℕ
  respType : Kind
  record : Record
  deriving DecidableEq

structure Forward where
  endpoint : ℤ
  kind : Kind
  id : ℤ
  record : Record
  deriving DecidableEq

inductive Status
  | badRequest
  | descriptorVersion
  | noSuchUnit
  | notReady
  | inactiveBorrow
  deriving DecidableEq

inductive Outcome
  | error (code : ℤ)
  | done (kind : Kind) (moved : ℤ)
  deriving DecidableEq

/-- A `BLOCK_IPC_READ_RESP`, `BLOCK_IPC_WRITE_RESP` or `BLOCK_IPC_ERROR`. -/
structure Reply where
  source : ℤ
  requestId : ℤ
  isError : Bool
  arg0 : ℤ
  arg1 : ℤ
  deriving DecidableEq

def Reply.outcome (r : Reply) (slot : Inflight) : Outcome :=
  if r.isError then .error r.arg0 else .done slot.respType r.arg1

inductive Event
  /-- A disk has read the descriptor of a message; the slot in which the message's id is
  recorded then. -/
  | read (message : Forward) (seen : Option BlockRequest) (slot : Option Inflight)
  | answer (slot : Inflight) (outcome : Outcome) (reply : Reply)
  | refuse (client requestId : ℤ) (status : Status)
  deriving DecidableEq

structure State where
  disks : List Disk
  parts : List (Option Partition)
  inflight : List (Option Inflight)
  staging : Option BlockRequest
  nextRequestId : ℤ
  mailbox : List Forward
  log : List Event

/-- A client's `BLOCK_IPC_READ_REQ` or `BLOCK_IPC_WRITE_REQ`. -/
structure Message where
  source : ℤ
  kind : Kind
  requestId : ℤ
  arg0 : ℤ
  arg1 : ℤ
  arg2 : ℤ
  deriving DecidableEq

/-- What the calls of a transfer return. -/
structure Answers where
  request : Option BlockRequest
  reborrow : Option ℤ
  written : Bool
  sent : Bool
  deriving DecidableEq

def wrap64 (x : ℕ) : ℕ := x % 2 ^ 64

/-- `rc.fits`. -/
def fits (lbaStart lbaCount sectorCount : ℕ) : Bool :=
  lbaCount ≠ 0 && lbaStart < sectorCount && lbaCount ≤ sectorCount - lbaStart

def claim {α : Type*} (a : α) : List (Option α) → Option (List (Option α))
  | [] => none
  | none :: xs => some (some a :: xs)
  | some x :: xs => (claim a xs).map (some x :: ·)

namespace State

variable (s : State)

def advanceId : ℤ := if s.nextRequestId + 1 < 2 ^ 31 then s.nextRequestId + 1 else 0x7000

def findPartition (target : ℕ) : Option Partition :=
  s.parts.reduceOption.find? (·.instance_ = target)

def findInflightByDownId (id : ℤ) : Option Inflight :=
  s.inflight.reduceOption.find? (·.downRequestId = id)

def logged (e : Event) : State := { s with log := e :: s.log }

variable (msg : Message)

def sendError (status : Status) : State := s.logged (.refuse msg.source msg.requestId status)

/-- `MAX_INFLIGHT` is the length of the table. -/
def boot : State where
  disks := []
  parts := List.replicate 16 none
  inflight := List.replicate 8 none
  staging := none
  nextRequestId := 0x7000
  mailbox := []
  log := []

def addDisk (d : Disk) : State :=
  if s.disks.length < 4 then { s with disks := s.disks ++ [d] } else s

def addPartition (p : Partition) : State :=
  match s.disks[p.disk]? with
  | none => s
  | some d =>
    if fits p.lbaStart p.lbaCount d.sectorCount && p.instance_ ≠ 0 then
      match claim p s.parts with
      | none => s
      | some parts => { s with parts := parts }
    else s

def updatePartition (slot lbaStart lbaCount : ℕ) : State :=
  match s.parts[slot]? with
  | some (some p) =>
    match s.disks[p.disk]? with
    | none => s
    | some d =>
      if fits lbaStart lbaCount d.sectorCount then
        { s with
          parts := s.parts.set slot (some { p with lbaStart := lbaStart, lbaCount := lbaCount }) }
      else s
  | _ => s

def retirePartition (slot : ℕ) : State := { s with parts := s.parts.set slot none }

/-- The request as it is forwarded, with the rights of the destination already lent on. -/
def rebase (req : BlockRequest) (part : Partition) (disk : Disk) (borrow : Option ℤ) :
    BlockRequest :=
  let room := part.lbaCount - req.lba
  { req with
    sectorCount := if room < req.sectorCount then room else req.sectorCount
    target := disk.instance_
    lba := wrap64 (req.lba + part.lbaStart)
    dstBorrowId := borrow.getD req.dstBorrowId }

def stage (answers : Answers) (record : Record) : State :=
  let req := rebase record.request record.partition record.disk record.borrow
  if answers.written then
    let s₁ := { s with staging := some req, nextRequestId := s.advanceId }
    let slot : Inflight :=
      { client := msg.source, clientRequestId := msg.requestId, downRequestId := s.advanceId
        downBorrowId := record.borrow, sectors := req.sectorCount, respType := msg.kind
        record := record }
    match answers.sent, claim slot s₁.inflight with
    | true, some inflight =>
      { s₁ with
        inflight := inflight
        mailbox := s.mailbox ++ [⟨record.disk.endpoint, msg.kind, s.advanceId, record⟩] }
    | _, _ => s₁.sendError msg .notReady
  else s.sendError msg .notReady

def handleTransfer (answers : Answers) : State :=
  if msg.arg0 ≤ 0 ∨ msg.arg1 < 0 ∨ msg.arg2 < 40 then s.sendError msg .badRequest
  else
    match answers.request with
    | none => s.sendError msg .badRequest
    | some req =>
      if req.version ≠ 1 then s.sendError msg .descriptorVersion
      else
        match s.findPartition req.target with
        | none => s.sendError msg .noSuchUnit
        | some part =>
          if part.lbaCount ≤ req.lba ∨ req.sectorCount = 0 then s.sendError msg .badRequest
          else if s.inflight.all Option.isSome then s.sendError msg .notReady
          else
            match s.disks[part.disk]? with
            -- the disk of a partition is never removed
            | none => s
            | some disk =>
              if req.dstKind = 1 then
                if req.dstBorrowId ≤ 0 then s.sendError msg .badRequest
                else
                  match answers.reborrow with
                  | none => s.sendError msg .inactiveBorrow
                  | some borrow => s.stage msg answers ⟨msg.kind, req, part, disk, some borrow⟩
              else s.stage msg answers ⟨msg.kind, req, part, disk, none⟩

def diskRead (i : ℕ) : State :=
  match s.mailbox[i]? with
  | none => s
  | some message =>
    { s with mailbox := s.mailbox.eraseIdx i }.logged
      (.read message s.staging (s.findInflightByDownId message.id))

def release (id : ℤ) : List (Option Inflight) → List (Option Inflight)
  | [] => []
  | none :: xs => none :: release id xs
  | some f :: xs => if f.downRequestId = id then none :: xs else some f :: release id xs

def handleDownstreamReply (r : Reply) : State :=
  match s.findInflightByDownId r.requestId with
  | none => s
  | some slot =>
    let outcome := r.outcome slot
    { s with inflight := release r.requestId s.inflight }.logged (.answer slot outcome r)

end State

inductive Step
  | addDisk (d : Disk)
  | addPartition (p : Partition)
  | updatePartition (slot lbaStart lbaCount : ℕ)
  | retirePartition (slot : ℕ)
  | takeId
  | transfer (msg : Message) (answers : Answers)
  | diskRead (i : ℕ)
  | reply (r : Reply)

def State.exec (s : State) : Step → State
  | .addDisk d => s.addDisk d
  | .addPartition p => s.addPartition p
  | .updatePartition slot lbaStart lbaCount => s.updatePartition slot lbaStart lbaCount
  | .retirePartition slot => s.retirePartition slot
  | .takeId => { s with nextRequestId := s.advanceId }
  | .transfer msg answers => s.handleTransfer msg answers
  | .diskRead i => s.diskRead i
  | .reply r => s.handleDownstreamReply r

def State.run : State → List Step → State
  | s, [] => s
  | s, step :: steps => run (s.exec step) steps

open State

def Record.descriptor (r : Record) : BlockRequest := { r.request with
    target := r.disk.instance_
    lba := r.partition.lbaStart + r.request.lba
    sectorCount := min r.request.sectorCount (r.partition.lbaCount - r.request.lba)
    dstBorrowId := r.borrow.getD r.request.dstBorrowId }

def Record.Inside (r : Record) : Prop := r.partition.lbaStart ≤ r.descriptor.lba ∧
    r.descriptor.lba + r.descriptor.sectorCount ≤ r.partition.lbaStart + r.partition.lbaCount

/-- A read sees the descriptor of the message's own request; an answer is what the disk of the slot
has replied. -/
def Event.Sound : Event → Prop
  | .read message seen slot => ∀ f ∈ slot,
    message.endpoint = f.record.disk.endpoint ∧ message.kind = f.record.kind ∧
      seen = some f.record.descriptor ∧ f.record.Inside
  | .answer slot outcome reply =>
    reply.source = slot.record.disk.endpoint ∧ reply.requestId = slot.downRequestId ∧
      outcome = reply.outcome slot
  | .refuse .. => True

/-- A transfer comes when every descriptor has been read and the next id is free; a reply comes from
the slot's disk. -/
def Step.Careful (s : State) : Step → Prop
  | .transfer _ _ => s.mailbox = [] ∧ ∀ f ∈ s.inflight.reduceOption, f.downRequestId ≠ s.advanceId
  | .reply r => ∀ f ∈ s.findInflightByDownId r.requestId, r.source = f.record.disk.endpoint
  | _ => True

instance (s : State) (step : Step) : Decidable (step.Careful s) := by
  cases step <;> unfold Step.Careful <;> infer_instance

def State.CarefulRun : State → List Step → Prop
  | _, [] => True
  | s, step :: steps => step.Careful s ∧ CarefulRun (s.exec step) steps

instance State.decidableCarefulRun : (s : State) → (steps : List Step) →
    Decidable (s.CarefulRun steps)
  | _, [] => .isTrue trivial
  | s, step :: steps =>
    haveI := decidableCarefulRun (s.exec step) steps
    inferInstanceAs (Decidable (_ ∧ _))

section Slots

variable {α : Type*} {a b : α} {xs ys : List (Option α)}

lemma mem_claim (h : claim a xs = some ys) (hb : some b ∈ ys) : some b ∈ xs ∨ b = a := by
  induction xs generalizing ys with
  | nil => cases h
  | cons x xs ih =>
    cases x with
    | none =>
      cases h
      rcases mem_cons.1 hb with hb | hb
      · exact .inr (Option.some.inj hb)
      · exact .inl (.tail _ hb)
    | some x =>
      obtain ⟨zs, hzs, rfl⟩ := Option.map_eq_some_iff.1 h
      rcases mem_cons.1 hb with hb | hb
      · exact .inl (hb ▸ .head _)
      · exact (ih hzs hb).imp_left (mem_cons_of_mem _)

lemma mem_release {id : ℤ} {f : Inflight} {xs : List (Option Inflight)}
    (h : some f ∈ release id xs) : some f ∈ xs := by
  induction xs with
  | nil => cases h
  | cons x xs ih =>
    cases x with
    | none => exact .tail _ (ih (by simpa [release] using h))
    | some g =>
      rw [release] at h
      split at h
      · exact mem_cons_of_mem _ (by simpa using h)
      rcases mem_cons.1 h with h | h
      · exact h ▸ .head _
      · exact .tail _ (ih h)

end Slots

namespace State

variable {s : State}

structure Inv (s : State) : Prop where
  windows : ∀ p, some p ∈ s.parts → p.lbaStart + p.lbaCount < 2 ^ 64
  staged : s.mailbox = [] ∨ ∃ f : Forward, s.mailbox = [f] ∧
    s.staging = some f.record.descriptor ∧ f.record.Inside ∧
      f.endpoint = f.record.disk.endpoint ∧ f.kind = f.record.kind
  matched : ∀ f ∈ s.mailbox, ∀ g, some g ∈ s.inflight → g.downRequestId = f.id → g.record = f.record
  sound : ∀ e ∈ s.log, e.Sound

lemma inv_boot : boot.Inv where
  windows p hp := by simp [boot] at hp
  staged := .inl rfl
  matched f hf := by cases hf
  sound e he := by cases he

lemma Inv.of_parts (h : s.Inv) {parts : List (Option Partition)}
    (hparts : ∀ p, some p ∈ parts → p.lbaStart + p.lbaCount < 2 ^ 64) :
    ({ s with parts := parts } : State).Inv := ⟨hparts, h.staged, h.matched, h.sound⟩

lemma Inv.logged (h : s.Inv) {e : Event} (he : e.Sound) : (s.logged e).Inv := { h with
    sound e' he' := by
      rcases mem_cons.1 he' with rfl | he'
      · exact he
      · exact h.sound e' he' }

lemma Inv.sendError (h : s.Inv) (msg : Message) (status : Status) :
    (s.sendError msg status).Inv := h.logged trivial

lemma fits_bound {lbaStart lbaCount : ℕ} {d : Disk}
    (h : fits lbaStart lbaCount d.sectorCount = true) : lbaStart + lbaCount < 2 ^ 64 := by
  have := d.bounded
  simp only [fits, Bool.and_eq_true, decide_eq_true_eq] at h
  omega

lemma Inv.addPartition (h : s.Inv) (p : Partition) : (s.addPartition p).Inv := by
  unfold State.addPartition
  split
  · exact h
  split
  next hfits =>
    split
    · exact h
    next parts hclaim =>
      refine h.of_parts fun p' hp' => ?_
      rcases mem_claim hclaim hp' with hp' | rfl
      · exact h.windows p' hp'
      · rw [Bool.and_eq_true] at hfits
        exact fits_bound hfits.1
  · exact h

lemma Inv.updatePartition (h : s.Inv) (slot lbaStart lbaCount : ℕ) :
    (s.updatePartition slot lbaStart lbaCount).Inv := by
  unfold State.updatePartition
  split
  · split
    · exact h
    split
    next hfits =>
      refine h.of_parts fun p' hp' => ?_
      rcases mem_or_eq_of_mem_set hp' with hp' | hp'
      · exact h.windows p' hp'
      · cases hp'
        exact fits_bound hfits
    · exact h
  · exact h

lemma Inv.retirePartition (h : s.Inv) (slot : ℕ) : (s.retirePartition slot).Inv := by
  refine h.of_parts fun p hp => ?_
  rcases mem_or_eq_of_mem_set hp with hp | hp
  · exact h.windows p hp
  · cases hp

lemma findPartition_mem {target : ℕ} {p : Partition} (h : s.findPartition target = some p) :
    some p ∈ s.parts := reduceOption_mem_iff.1 (mem_of_find?_eq_some h)

lemma findInflightByDownId_ok {id : ℤ} {f : Inflight}
    (h : s.findInflightByDownId id = some f) : some f ∈ s.inflight ∧ f.downRequestId = id :=
  ⟨reduceOption_mem_iff.1 (mem_of_find?_eq_some h), by simpa using find?_some h⟩

lemma rebase_eq {r : Record} (hwindow : r.partition.lbaStart + r.partition.lbaCount < 2 ^ 64)
    (hlba : r.request.lba < r.partition.lbaCount) :
    rebase r.request r.partition r.disk r.borrow = r.descriptor := by
  have hsum : wrap64 (r.request.lba + r.partition.lbaStart) =
      r.partition.lbaStart + r.request.lba := by
    rw [wrap64]
    omega
  have hmin : (if r.partition.lbaCount - r.request.lba < r.request.sectorCount then
      r.partition.lbaCount - r.request.lba else r.request.sectorCount) =
      min r.request.sectorCount (r.partition.lbaCount - r.request.lba) := by
    split <;> omega
  simp only [rebase, Record.descriptor, hsum, hmin]

lemma inside_of_lt {r : Record} (hlba : r.request.lba < r.partition.lbaCount) : r.Inside := by
  simp only [Record.Inside, Record.descriptor]
  omega

section

variable (h : s.Inv)
include h

lemma Inv.stage {msg : Message} {answers : Answers} {record : Record}
    (hempty : s.mailbox = [])
    (hfresh : ∀ f ∈ s.inflight.reduceOption, f.downRequestId ≠ s.advanceId)
    (hwindow : record.partition.lbaStart + record.partition.lbaCount < 2 ^ 64)
    (hlba : record.request.lba < record.partition.lbaCount) (hkind : msg.kind = record.kind) :
    (s.stage msg answers record).Inv := by
  unfold State.stage
  rw [rebase_eq hwindow hlba]
  dsimp only
  split
  · have hwritten : ({ s with staging := some record.descriptor
                              nextRequestId := s.advanceId } : State).Inv :=
      ⟨h.windows, .inl hempty, fun f hf => by simp [hempty] at hf, h.sound⟩
    split
    next inflight _ hclaim =>
      rw [hempty, nil_append]
      refine ⟨h.windows, .inr ⟨_, rfl, rfl, inside_of_lt hlba, rfl, hkind⟩, fun f hf g hg hid => ?_,
        h.sound⟩
      obtain rfl := mem_singleton.1 hf
      -- only the new slot has the new id
      rcases mem_claim hclaim hg with hg | rfl
      · exact absurd hid (hfresh g (reduceOption_mem_iff.2 hg))
      · rfl
    · exact hwritten.sendError msg .notReady
  · exact h.sendError msg .notReady

lemma Inv.handleTransfer {msg : Message} {answers : Answers}
    (hcare : (Step.transfer msg answers).Careful s) : (s.handleTransfer msg answers).Inv := by
  obtain ⟨hempty, hfresh⟩ := hcare
  unfold State.handleTransfer
  iterate 4
    split
    · exact h.sendError msg _
  next part hfind =>
    have hwindow := h.windows part (findPartition_mem hfind)
    split
    · exact h.sendError msg _
    next hargs =>
      rw [not_or, not_le] at hargs
      split
      · exact h.sendError msg _
      split
      · exact h
      split
      · split
        · exact h.sendError msg _
        split
        · exact h.sendError msg _
        · exact h.stage hempty hfresh hwindow hargs.1 rfl
      · exact h.stage hempty hfresh hwindow hargs.1 rfl

lemma Inv.diskRead (i : ℕ) : (s.diskRead i).Inv := by
  unfold State.diskRead
  split
  · exact h
  next message hmessage =>
    have hmem := mem_of_getElem? hmessage
    rcases h.staged with hnil | ⟨f, hf, hstaging, hinside, hendpoint, hkind⟩
    · rw [hnil] at hmem
      cases hmem
    rw [hf, mem_singleton] at hmem
    subst hmem
    have hrest : s.mailbox.eraseIdx i = [] := by
      cases i with
      | zero => simp [hf]
      | succ i => simp [hf] at hmessage
    have hread : ({ s with mailbox := s.mailbox.eraseIdx i } : State).Inv := by
      rw [hrest]
      exact ⟨h.windows, .inl rfl, fun _ hnil => absurd hnil not_mem_nil, h.sound⟩
    refine hread.logged fun g hg => ?_
    obtain ⟨hslot, hid⟩ := findInflightByDownId_ok hg
    rw [h.matched message (by simp [hf]) g hslot hid]
    exact ⟨hendpoint, hkind, hstaging, hinside⟩

lemma Inv.handleDownstreamReply {r : Reply} (hcare : (Step.reply r).Careful s) :
    (s.handleDownstreamReply r).Inv := by
  unfold State.handleDownstreamReply
  split
  · exact h
  next slot hfind =>
    have hreleased : ({ s with inflight := release r.requestId s.inflight } : State).Inv :=
      ⟨h.windows, h.staged, fun f hf g hg => h.matched f hf g (mem_release hg), h.sound⟩
    exact hreleased.logged ⟨hcare slot hfind, (findInflightByDownId_ok hfind).2.symm, rfl⟩

lemma Inv.exec {step : Step} (hcare : step.Careful s) : (s.exec step).Inv := by
  cases step with
  | addDisk d =>
    change (s.addDisk d).Inv
    unfold addDisk
    split
    · exact ⟨h.windows, h.staged, h.matched, h.sound⟩
    · exact h
  | addPartition p => exact h.addPartition p
  | updatePartition slot lbaStart lbaCount => exact h.updatePartition slot lbaStart lbaCount
  | retirePartition slot => exact h.retirePartition slot
  | takeId => exact ⟨h.windows, h.staged, h.matched, h.sound⟩
  | transfer msg answers => exact h.handleTransfer hcare
  | diskRead i => exact h.diskRead i
  | reply r => exact h.handleDownstreamReply hcare

lemma Inv.run {steps : List Step} (hcare : s.CarefulRun steps) : (s.run steps).Inv := by
  induction steps generalizing s with
  | nil => exact h
  | cons step steps ih => exact ih (h.exec hcare.1) hcare.2

end

end State

/-- In every careful run, each disk reads the descriptor its message was made from, inside the
window of its partition, and each client is told what its disk has replied. -/
theorem transfers_served_own (steps : List Step) (hcare : boot.CarefulRun steps) :
    ∀ e ∈ (boot.run steps).log, e.Sound := (inv_boot.run hcare).sound

def disk : Disk := ⟨1, 7, 1000, by decide⟩

def record (kind : Kind) (second : Bool) (lba : ℕ) : Record :=
  ⟨kind, ⟨1, if second then 12 else 11, lba, 200, 0, 4096, 0, 0, 0⟩,
    if second then ⟨12, 0, 300, 100⟩ else ⟨11, 0, 100, 100⟩, disk, none⟩

def twoPartitions : List Step :=
  [.addDisk disk, .addPartition ⟨11, 0, 100, 100⟩, .addPartition ⟨12, 0, 300, 100⟩]

def request (client : ℤ) (r : Record) : Step :=
  .transfer ⟨client, r.kind, 1, 1, 0, 40⟩ ⟨some r.request, none, true, true⟩

def inTurn : List Step := twoPartitions ++ [request 21 (record .write false 5), .diskRead 0,
    request 22 (record .read true 6), .diskRead 0, .reply ⟨7, 0x7002, false, 0, 94⟩]

theorem transfers_served_own_inTurn :
    boot.CarefulRun inTurn ∧ ∀ e ∈ (boot.run inTurn).log, e.Sound :=
  ⟨by decide +kernel, transfers_served_own inTurn (by decide +kernel)⟩

/-- A second transfer is forwarded before the disk reads the first descriptor: it writes to a sector
of the other partition. And a client is answered by a process that has guessed the id. -/
theorem overwritten_and_forged :
    (boot.run (twoPartitions ++ [request 21 (record .write false 5),
        request 22 (record .read true 6), .diskRead 0])).log =
      [.read ⟨7, .write, 0x7001, record .write false 5⟩ (some (record .read true 6).descriptor)
        (some ⟨21, 1, 0x7001, none, 95, .write, record .write false 5⟩)] ∧
    (record .write false 5).descriptor.lba = 105 ∧ (record .read true 6).descriptor.lba = 306 ∧
    (boot.run (twoPartitions ++ [request 21 (record .read false 5),
        .reply ⟨99, 0x7001, false, 0, 95⟩])).log =
      [.answer ⟨21, 1, 0x7001, none, 95, .read, record .read false 5⟩ (.done .read 95)
        ⟨99, 0x7001, false, 0, 95⟩] := by
  decide +kernel

/-- `LABEL_BYTES`. -/
def labelBytes : ℕ := 144

def codeUnit (lo hi : UInt8) : ℕ := lo.toNat + hi.toNat * 256

def isHighSurrogate (u : ℕ) : Bool := 0xD800 ≤ u && u ≤ 0xDBFF

def isLowSurrogate (u : ℕ) : Bool := 0xDC00 ≤ u && u ≤ 0xDFFF

def joinSurrogates (high low : ℕ) : ℕ := 0x10000 + (high - 0xD800) * 1024 + (low - 0xDC00)

/-- The bytes that the code writes for a code point. -/
def encodeUtf8 (cp : ℕ) : List UInt8 :=
  if cp < 0x80 then [.ofNat cp]
  else if cp < 0x800 then [.ofNat (0xC0 + cp / 64), .ofNat (0x80 + cp % 64)]
  else if cp < 0x10000 then
    [.ofNat (0xE0 + cp / 4096), .ofNat (0x80 + cp / 64 % 64), .ofNat (0x80 + cp % 64)]
  else
    [.ofNat (0xF0 + cp / 262144), .ofNat (0x80 + cp / 4096 % 64), .ofNat (0x80 + cp / 64 % 64),
      .ofNat (0x80 + cp % 64)]

def writeUtf8 (out : List UInt8) : List UInt8 → List UInt8
  | lo :: hi :: rest =>
    let cp := codeUnit lo hi
    if cp = 0 then out
    else if isHighSurrogate cp then
      match rest with
      | lo' :: hi' :: rest' =>
        let low := codeUnit lo' hi'
        if !isLowSurrogate low then out
        else
          let bytes := encodeUtf8 (joinSurrogates cp low)
          if labelBytes < out.length + bytes.length + 1 then out
          else writeUtf8 (out ++ bytes) rest'
      | _ => out
    else if isLowSurrogate cp then out
    else if labelBytes < out.length + (encodeUtf8 cp).length + 1 then out
    else writeUtf8 (out ++ encodeUtf8 cp) rest
  | _ => out

def utf16leToUtf8 (name : List UInt8) : List UInt8 := (writeUtf8 [] name).rightpad labelBytes 0

/-- What a reader of the label takes: the bytes before the first NUL. -/
def cString (label : List UInt8) : List UInt8 := label.takeWhile (· ≠ 0)

def codeUnits : List UInt8 → List ℕ
  | lo :: hi :: rest => codeUnit lo hi :: codeUnits rest
  | _ => []

def nameChars : List ℕ → List Char
  | [] => []
  | [u] => if u = 0 ∨ isHighSurrogate u ∨ isLowSurrogate u then [] else [.ofNat u]
  | u :: v :: us =>
    if u = 0 then []
    else if isHighSurrogate u && isLowSurrogate v then
      .ofNat (joinSurrogates u v) :: nameChars us
    else if isHighSurrogate u || isLowSurrogate u then nameChars (v :: us)
    else .ofNat u :: nameChars (v :: us)

/-- Before the first NUL, no character comes after an unpaired surrogate. -/
def lonesLast : List ℕ → Bool
  | [] | [_] => true
  | u :: v :: us =>
    if u = 0 then true
    else if isHighSurrogate u && isLowSurrogate v then lonesLast us
    else if isHighSurrogate u || isLowSurrogate u then (nameChars (v :: us)).isEmpty
    else lonesLast (v :: us)

lemma codeUnit_lt (lo hi : UInt8) : codeUnit lo hi < 0x10000 := by
  have hlo := lo.toNat_lt
  have hhi := hi.toNat_lt
  unfold codeUnit
  omega

variable {cp : ℕ}

lemma encodeUtf8_ofNat (h : cp.isValidChar) :
    encodeUtf8 cp = String.utf8EncodeChar (.ofNat cp) := by
  have hval : (Char.ofNat cp).val.toNat = cp := by
    rw [Char.ofNat, dif_pos h]
    rfl
  unfold encodeUtf8 String.utf8EncodeChar
  simp only [hval]
  split_ifs <;> try omega
  all_goals simp only [List.cons.injEq, and_true]
  all_goals and_intros <;> congr 1 <;> omega

lemma length_encodeUtf8_le (cp : ℕ) : (encodeUtf8 cp).length ≤ 4 := by
  unfold encodeUtf8
  split_ifs <;> simp

lemma length_encodeUtf8_le_three (h : cp < 0x10000) : (encodeUtf8 cp).length ≤ 3 := by
  unfold encodeUtf8
  split_ifs <;> simp

lemma zero_notMem_encodeUtf8 (hpos : cp ≠ 0) (h : cp < 0x110000) : 0 ∉ encodeUtf8 cp := by
  have hne : ∀ n, n < 256 → n ≠ 0 → (0 : UInt8) ≠ .ofNat n := by
    intro n hn hpos heq
    have := congrArg UInt8.toNat heq
    simp [Nat.mod_eq_of_lt hn] at this
    exact hpos this.symm
  unfold encodeUtf8
  split_ifs <;> simp only [mem_cons, not_mem_nil, or_false, not_or]
  all_goals and_intros <;> exact hne _ (by omega) (by omega)

section Plain

variable {u : ℕ} {us : List ℕ} (hpos : u ≠ 0) (hhigh : isHighSurrogate u = false)
  (hlow : isLowSurrogate u = false)
include hpos hhigh hlow

lemma nameChars_cons : nameChars (u :: us) = .ofNat u :: nameChars us := by
  cases us <;> simp [nameChars, hpos, hhigh, hlow]

lemma lonesLast_cons : lonesLast (u :: us) = lonesLast us := by
  cases us <;> simp [lonesLast, hpos, hhigh, hlow]

end Plain

lemma nameChars_zero (us : List ℕ) : nameChars (0 :: us) = [] := by
  cases us <;> simp [nameChars]

lemma lonesLast_zero (us : List ℕ) : lonesLast (0 :: us) = true := by
  cases us <;> simp [lonesLast]

/-- At an unpaired surrogate the units behind it decide. -/
lemma lonesLast_lone {u : ℕ} {us : List ℕ} (hpos : u ≠ 0)
    (hlone : isLowSurrogate u = true ∨ isHighSurrogate u = true ∧
      ∀ v vs, us = v :: vs → isLowSurrogate v = false) :
    lonesLast (u :: us) = true ↔ nameChars (u :: us) = [] := by
  have hnot : isLowSurrogate u = true → isHighSurrogate u = false := by
    simp only [isLowSurrogate, isHighSurrogate, Bool.and_eq_true, decide_eq_true_eq,
      Bool.and_eq_false_iff, decide_eq_false_iff_not]
    omega
  cases us with
  | nil => rcases hlone with h | h <;> simp [lonesLast, nameChars, h]
  | cons v vs =>
    rcases hlone with h | ⟨h, hv⟩
    · simp [lonesLast, nameChars, hpos, h, hnot h]
    · simp [lonesLast, nameChars, hpos, h, hv v vs rfl]

lemma codeUnits_short {t : List UInt8} (h : ∀ lo hi rest, t = lo :: hi :: rest → False) :
    codeUnits t = [] := by
  rwa [codeUnits]

lemma joinSurrogates_valid {high low : ℕ} (hh : isHighSurrogate high = true)
    (hl : isLowSurrogate low = true) :
    0x10000 ≤ joinSurrogates high low ∧ (joinSurrogates high low).isValidChar := by
  simp only [isHighSurrogate, isLowSurrogate, Bool.and_eq_true, decide_eq_true_eq] at hh hl
  unfold joinSurrogates Nat.isValidChar
  omega

lemma self_eq_append_chars_iff {out : List UInt8} {cs : List Char} :
    out = out ++ cs.flatMap String.utf8EncodeChar ↔ cs = [] := by
  rw [self_eq_append_right, flatMap_eq_nil_iff]
  refine ⟨fun h => eq_nil_iff_forall_not_mem.mpr fun c hc => ?_, fun h => by simp [h]⟩
  have := congrArg List.length (h c hc)
  rw [String.length_utf8EncodeChar, length_nil] at this
  exact absurd this (Nat.pos_iff_ne_zero.mp (Char.utf8Size_pos c))

lemma writeUtf8_eq_iff (out : List UInt8) {bytes : List UInt8}
    (hroom : out.length + 3 * (bytes.length / 2) < labelBytes) :
    writeUtf8 out bytes = out ++ (nameChars (codeUnits bytes)).flatMap String.utf8EncodeChar ↔
      lonesLast (codeUnits bytes) = true := by
  fun_induction writeUtf8 out bytes with
  | case1 out lo hi rest cp hzero =>
    simp only [codeUnits, show codeUnit lo hi = 0 from hzero, nameChars_zero, lonesLast_zero,
      flatMap_nil, append_nil]
  | case2 out lo hi cp hpos hhigh lo' hi' rest low hlow =>
    rw [self_eq_append_chars_iff, codeUnits, codeUnits, lonesLast_lone hpos (.inr ⟨hhigh, ?_⟩)]
    rintro _ _ ⟨⟩
    simpa using hlow
  | case3 out lo hi cp hpos hhigh lo' hi' rest low hlow bytes hfull =>
    have hlen : bytes.length ≤ 4 := length_encodeUtf8_le _
    simp only [length_cons] at hroom
    omega
  | case4 out lo hi cp hpos hhigh lo' hi' rest low hlow bytes hfits ih =>
    have hlow : isLowSurrogate low = true := by simpa using hlow
    have hlen : bytes.length ≤ 4 := length_encodeUtf8_le _
    have hbytes : bytes = _ := encodeUtf8_ofNat (joinSurrogates_valid hhigh hlow).2
    simp only [length_cons] at hroom
    have hrest := ih (by rw [length_append]; omega)
    rw [append_assoc, hbytes] at hrest
    simp_all [codeUnits, nameChars, lonesLast, cp, low]
  | case5 out lo hi rest cp hpos hhigh hshort =>
    rw [self_eq_append_chars_iff, codeUnits, codeUnits_short hshort,
      lonesLast_lone hpos (.inr ⟨hhigh, by simp⟩)]
  | case6 out lo hi rest cp hpos hhigh hlow =>
    rw [self_eq_append_chars_iff, codeUnits, lonesLast_lone hpos (.inl hlow)]
  | case7 out lo hi rest cp hpos hhigh hlow hfull =>
    have hlen : (encodeUtf8 cp).length ≤ 3 := length_encodeUtf8_le_three (codeUnit_lt lo hi)
    simp only [length_cons] at hroom
    omega
  | case8 out lo hi rest cp hpos hhigh hlow hfits ih =>
    have hcp : cp < 0x10000 := codeUnit_lt lo hi
    have hlen := length_encodeUtf8_le_three hcp
    rw [Bool.not_eq_true] at hhigh hlow
    simp only [length_cons] at hroom
    have hvalid : cp.isValidChar := by
      simp only [isHighSurrogate, isLowSurrogate, Bool.and_eq_false_iff, decide_eq_false_iff_not]
        at hhigh hlow
      unfold Nat.isValidChar
      omega
    rw [codeUnits, nameChars_cons hpos hhigh hlow, lonesLast_cons hpos hhigh hlow,
      ← ih (by rw [length_append]; omega), flatMap_cons, append_assoc, encodeUtf8_ofNat hvalid]
  | case9 t out hshort => simp [codeUnits_short hshort, nameChars, lonesLast]

lemma zero_notMem_writeUtf8 {out : List UInt8} (bytes : List UInt8) (h : 0 ∉ out)
    (hlt : out.length < labelBytes) :
    0 ∉ writeUtf8 out bytes ∧ (writeUtf8 out bytes).length < labelBytes := by
  fun_induction writeUtf8 out bytes with
  | case4 out lo hi cp hpos hhigh lo' hi' rest low hlow bytes hfits ih =>
    have hvalid := joinSurrogates_valid hhigh (by simpa using hlow)
    have hbytes : 0 ∉ bytes := zero_notMem_encodeUtf8 (by omega) (by have := hvalid.2; omega)
    exact ih (by simp [h, hbytes]) (by rw [length_append]; omega)
  | case8 out lo hi rest cp hpos hhigh hlow hfits ih =>
    have hbytes := zero_notMem_encodeUtf8 hpos (lt_trans (codeUnit_lt lo hi) (by decide))
    exact ih (by simpa [h] using hbytes) (by rw [length_append]; omega)
  | _ => exact ⟨h, hlt⟩

lemma cString_utf16leToUtf8 (name : List UInt8) :
    cString (utf16leToUtf8 name) = writeUtf8 [] name := by
  have h := (zero_notMem_writeUtf8 name not_mem_nil (by decide)).1
  rw [cString, utf16leToUtf8, List.rightpad, takeWhile_append_of_pos, takeWhile_replicate]
  · simp
  · intro b hb
    simpa using fun heq : b = 0 => h (heq ▸ hb)

/-- A label is NUL-terminated, and it is the UTF-8 of the name's characters exactly if no character
comes after an unpaired surrogate. -/
theorem label_encodes_name (name : List UInt8) (hlen : name.length = 72) :
    (utf16leToUtf8 name).length = labelBytes ∧ 0 ∈ utf16leToUtf8 name ∧
      (cString (utf16leToUtf8 name) = (nameChars (codeUnits name)).flatMap String.utf8EncodeChar ↔
        lonesLast (codeUnits name) = true) := by
  have := zero_notMem_writeUtf8 name not_mem_nil (by decide)
  refine ⟨?_, ?_, ?_⟩
  · rw [utf16leToUtf8, length_rightpad]
    omega
  · rw [utf16leToUtf8, List.rightpad]
    refine mem_append_right _ (mem_replicate.2 ⟨?_, rfl⟩)
    omega
  · rw [cString_utf16leToUtf8, ← writeUtf8_eq_iff [] (by rw [hlen]; decide), nil_append]

theorem label_encodes_name_pair :
    cString (utf16leToUtf8 ([0x41, 0, 0x3D, 0xD8, 0x00, 0xDE, 0, 0xD8] ++ List.replicate 64 0)) =
      [0x41, 0xF0, 0x9F, 0x98, 0x80] :=
  ((label_encodes_name _ (by decide)).2.2.mpr (by decide)).trans (by decide)

/-- After a lone surrogate nothing is written, not even the rest of the name. -/
theorem lone_surrogate_ends_label :
    nameChars (codeUnits ([0x00, 0xD8, 0x41, 0] ++ List.replicate 68 0)) = ['A'] ∧
      cString (utf16leToUtf8 ([0x00, 0xD8, 0x41, 0] ++ List.replicate 68 0)) = [] := by
  decide

def crcNibble : List ℕ := [
  0x00000000, 0x1DB71064, 0x3B6E20C8, 0x26D930AC, 0x76DC4190, 0x6B6B51F4, 0x4DB26158, 0x5005713C,
  0xEDB88320, 0xF00F9344, 0xD6D6A3E8, 0xCB61B38C, 0x9B64C2B0, 0x86D3D2D4, 0xA00AE278, 0xBDBDF21C]

/-- One lookup of `crc32Update`. -/
def nibbleUpdate (crc b : ℕ) : ℕ := crcNibble.getD ((crc ^^^ b) &&& 0x0F) 0 ^^^ crc >>> 4

def crc32Update (crc : ℕ) (bytes : List UInt8) : ℕ :=
  bytes.foldl (fun crc b => nibbleUpdate (nibbleUpdate crc b.toNat) (b.toNat >>> 4)) crc

lemma crcNibble_getD : ∀ i < 16, crcNibble.getD i 0 = (shift 0xEDB88320)^[4] i := by decide

lemma nibbleUpdate_eq (crc b : ℕ) :
    nibbleUpdate crc b = (shift 0xEDB88320)^[4] (crc ^^^ b) ^^^ b >>> 4 := by
  have hlt : (crc ^^^ b) &&& 0x0F < 16 := Nat.lt_succ_of_le Nat.and_le_right
  rw [iterate_shift, Nat.shiftRight_xor_distrib, Nat.xor_assoc, Nat.xor_assoc, Nat.xor_self,
    Nat.xor_zero]
  exact congrArg (· ^^^ _) (crcNibble_getD _ hlt)

lemma shiftRight_eight (b : UInt8) : b.toNat >>> 8 = 0 :=
  Nat.shiftRight_eq_zero _ _ b.toNat_lt

/-- Both lookups give the checksum bit by bit, and updates in turn are one over the whole. -/
theorem crc_updates_bitwise (crc : ℕ) (data more : List UInt8) :
    crcUpdate crc data = update 0x82F63B78 crc data ∧
    crcUpdate crc (data ++ more) = crcUpdate (crcUpdate crc data) more ∧
    crc32Update crc data = update 0xEDB88320 crc data ∧
    crc32Update crc (data ++ more) = crc32Update (crc32Update crc data) more := by
  refine ⟨?_, List.foldl_append, ?_, List.foldl_append⟩
  · refine List.foldl_ext _ _ _ fun c b _ => ?_
    rw [iterate_shift, Nat.shiftRight_xor_distrib, shiftRight_eight, Nat.xor_zero]
    rfl
  · refine List.foldl_ext _ _ _ fun c b _ => ?_
    rw [nibbleUpdate_eq, nibbleUpdate_eq, Nat.xor_assoc (_^[4] _), Nat.xor_self, Nat.xor_zero,
      ← Function.iterate_add_apply, ← Nat.shiftRight_add, shiftRight_eight, Nat.xor_zero]

end PartitionManager
