import Mathlib.Algebra.Order.Ring.Nat
import Mathlib.Data.List.Basic

/-! # The FAT driver's block layer

All operations of the FAT driver share one sector buffer, a tag that names its sector and one
outstanding request to the block server. An operation is a coroutine: it asks for a sector, or fills
the buffer and has it written, and goes on when that is done.
-/

open List

namespace Fat

/-- What an operation asks of the block layer next, and how it goes on. -/
inductive Co (σ : Type)
  | done
  | fail
  /-- `FAT_CO_READ`; the operation goes on with what the buffer holds. -/
  | read (lba : ℕ) (k : σ → Co σ)
  /-- The buffer is filled with `content`, then `FAT_CO_WRITE`. -/
  | write (lba : ℕ) (content : σ) (k : Co σ)
  /-- The buffer is filled for a later write and its tag is dropped. -/
  | restage (content : σ) (k : Co σ)
  /-- `FAT_CO_READ_DIRECT`; the operation goes on with the number of sectors that came. -/
  | readDirect (lba count : ℕ) (bufferId : ℤ) (k : ℕ → Co σ)

structure Block (σ : Type) where
  sector : σ
  loadedLba : Option ℕ
  curReqId : ℕ
  nextReqId : ℕ
  waitLba : ℕ
  /-- `wait_resp_type`: whether a write response is awaited. -/
  waitWrite : Bool
  copyIntoSector : Bool
  /-- The block buffer shared with the server. -/
  staged : σ
  writePending : Bool
  directPending : Bool
  directRead : Bool
  directSectors : ℕ
  owner : Option ℕ

def Block.configure {σ : Type} (sector : σ) : Block σ where
  sector := sector
  loadedLba := none
  curReqId := 0
  nextReqId := 1
  waitLba := 0
  waitWrite := false
  copyIntoSector := false
  staged := sector
  writePending := false
  directPending := false
  directRead := false
  directSectors := 0
  owner := none

inductive Sent
  | sent
  | unstaged
  | unsent
  deriving DecidableEq

/-- What the next requests of each kind meet with; past the end of a list they are sent. -/
structure Sends where
  reads : List Sent
  writes : List Sent
  directs : List Sent

/-- What happened to the requests and to the coroutines that wait for them. -/
inductive Entry (σ : Type)
  | issued (op lba : ℕ) (content : σ)
  | acked (op lba : ℕ) (content : σ)
  /-- A `FAT_CO_WRITE` let its coroutine continue. -/
  | wrote (op lba : ℕ) (content : σ)
  /-- A `FAT_CO_READ` let its coroutine continue with `buffer` while the sector held `stored`. -/
  | loaded (op lba : ℕ) (buffer stored : σ)
  | answered (op : ℕ) (ok : Bool)
  deriving DecidableEq

structure World (σ : Type) where
  blk : Block σ
  disk : ℕ → σ
  sends : Sends
  log : List (Entry σ)

inductive Kind
  | read
  | write
  | direct
  deriving DecidableEq

def Sends.of (s : Sends) : Kind → List Sent
  | .read => s.reads
  | .write => s.writes
  | .direct => s.directs

def Sends.next (s : Sends) : Kind → Sends
  | .read => { s with reads := s.reads.tail }
  | .write => { s with writes := s.writes.tail }
  | .direct => { s with directs := s.directs.tail }

def bumpId (id : ℕ) : ℕ := if id + 1 < 2 ^ 31 then id + 1 else 1

section Requests

variable {σ : Type}

namespace World

variable (w : World σ)

def submit (kind : Kind) (lba : ℕ) : Bool × World σ :=
  let sends := w.sends.next kind
  let blk := { w.blk with
    nextReqId := bumpId w.blk.nextReqId
    waitLba := lba
    waitWrite := kind = Kind.write
    copyIntoSector := kind = Kind.read
    staged := if kind = Kind.write then w.blk.sector else w.blk.staged }
  let outcome := (w.sends.of kind).headD .sent
  if kind = .write ∧ outcome = .unstaged then (false, { w with sends := sends })
  else if outcome = .sent then
    (true, { w with blk := { blk with curReqId := w.blk.nextReqId }, sends := sends })
  else (false, { w with blk := { blk with curReqId := 0 }, sends := sends })

def note (e : Entry σ) : World σ := { w with log := w.log ++ [e] }

def fill (content : σ) : World σ := { w with blk := { w.blk with sector := content } }

end World

inductive Step (σ : Type)
  | done
  | err
  | wait (co : Co σ)

def zcMaxSectors : ℕ := 8

/-- Runs operation `op` until it ends or has to wait. A `resumed` one enters at its request and does
not fill the buffer again. -/
def runCo (op : ℕ) : Co σ → Bool → World σ → Step σ × World σ
  | .done, _, w => (.done, w)
  | .fail, _, w => (.err, w)
  | .read lba k, _, w =>
    if w.blk.loadedLba = some lba then
      runCo op (k w.blk.sector) false (w.note (.loaded op lba w.blk.sector (w.disk lba)))
    else
      match w.submit .read lba with
      | (true, w) => (.wait (.read lba k), w)
      | (false, w) => (.err, w)
  | .write lba content k, resumed, w =>
    let w :=
  if resumed then w else w.fill content
    if w.blk.writePending then
      runCo op k false
        ({ w with blk := { w.blk with writePending := false } }.note (.wrote op lba content))
    else
      match w.submit .write lba with
      | (true, w) =>
        (.wait (.write lba content k),
          { w with blk := { w.blk with writePending := true } }.note (.issued op lba content))
      | (false, w) => (.err, w)
  | .restage content k, _, w =>
    runCo op k false { w with blk := { w.blk with sector := content, loadedLba := none } }
  | .readDirect lba count bufferId k, _, w =>
    if w.blk.directPending then
      runCo op (k w.blk.directSectors) false { w with blk := { w.blk with directPending := false } }
    else if bufferId < 0 ∨ count = 0 ∨ zcMaxSectors < count then (.err, w)
    else
      match w.submit .direct lba with
      | (true, w) =>
        (.wait (.readDirect lba count bufferId k),
          { w with blk := { w.blk with directPending := true, directRead := true } })
      | (false, w) => (.err, { w with blk := { w.blk with directRead := false } })

variable (b : Block σ)

def Block.release (op : ℕ) : Block σ :=
  if b.owner = some op then { b with owner := none, directPending := false, directRead := false }
  else b

inductive RespType
  | read
  | write
  | error
  deriving DecidableEq

/-- A reply of the block server: whether the buffer could be copied, and whether a write that was
not acknowledged is stored. -/
structure Reply where
  id : ℕ
  type : RespType
  status : ℤ
  sectors : ℤ
  copied : Bool
  stored : Bool
  deriving DecidableEq

def Block.expects : RespType := if b.waitWrite then .write else .read

def Reply.success (r : Reply) (type : RespType) : Bool := r.type = type ∧ r.status = 0

/-- An acknowledged write is stored, one that fails may have been. -/
def World.serve (w : World σ) (r : Reply) : World σ :=
  let stored := { w with disk := Function.update w.disk w.blk.waitLba w.blk.staged }
  if w.blk.waitWrite ∧ ¬ w.blk.directRead then
    if r.success .write then
      stored.note (.acked (w.blk.owner.getD 0) w.blk.waitLba w.blk.staged)
    else if r.stored then stored
    else w
  else w

/-- What `fat_block_complete` makes of the reply, and whether it was a success. -/
def Block.finish (stored : σ) (r : Reply) : Bool × Block σ :=
  let b := { b with curReqId := 0 }
  if b.directRead then
    let ok := r.success b.expects ∧ 0 < r.sectors
    (ok, { b with directSectors := if ok then r.sectors.toNat else 0, directRead := false })
  else if r.success b.expects then
    if b.copyIntoSector then
      if r.copied then (true, { b with sector := stored, loadedLba := some b.waitLba })
      else (false, { b with loadedLba := none })
    else (true, { b with loadedLba := some b.waitLba })
  else (false, { b with loadedLba := none })

def World.complete (w : World σ) (r : Reply) : Bool × World σ :=
  let w := w.serve r
  let f := w.blk.finish (w.disk w.blk.waitLba) r
  (f.1, { w with blk := f.2 })

end Requests

structure Op (σ : Type) where
  id : ℕ
  co : Co σ
  resumed : Bool

structure Reactor (σ : Type) where
  world : World σ
  active : Option (Op σ)
  fifo : List (Op σ)
  nextOp : ℕ

/-- A client's request, or a message on the endpoint of the block server's replies. -/
inductive Message (σ : Type)
  | request (co : Co σ)
  | reply (r : Reply)

structure Event (σ : Type) where
  message : Message σ
  sends : Sends

def maxInflight : ℕ := 8

section Reactor

variable {σ : Type}

def World.answer (w : World σ) (op : ℕ) (ok : Bool) : World σ :=
  { w with blk := w.blk.release op }.note (.answered op ok)

def drive (op : Op σ) (w : World σ) : Option (Op σ) × World σ :=
  match runCo op.id op.co op.resumed { w with blk := { w.blk with owner := some op.id } } with
  | (.wait co, w) => (some { op with co := co, resumed := true }, w)
  | (.done, w) => (none, w.answer op.id true)
  | (.err, w) => (none, w.answer op.id false)

def activateNext : List (Op σ) → World σ → Option (Op σ) × List (Op σ) × World σ
  | [], w => (none, [], w)
  | op :: fifo, w =>
    match drive op w with
    | (some op, w) => (some op, fifo, w)
    | (none, w) => activateNext fifo w

namespace Reactor

variable (s : Reactor σ)

def next : Reactor σ :=
  match s.active with
  | some _ => s
  | none =>
    let r := activateNext s.fifo s.world
    { s with active := r.1, fifo := r.2.1, world := r.2.2 }

def receive (r : Reply) : Reactor σ :=
  if s.world.blk.curReqId = 0 ∨ r.id ≠ s.world.blk.curReqId then s
  else
    let c := s.world.complete r
    match s.active with
    | none => { s with world := c.2 }
    | some op =>
      if s.world.blk.owner = some op.id then
        if c.1 then
          let d := drive op c.2
          { s with active := d.1, world := d.2 }
        else { s with active := none, world := c.2.answer op.id false }
      else { s with world := c.2 }

def accept (co : Co σ) : Reactor σ :=
  if maxInflight ≤ s.fifo.length + s.active.toList.length then s
  else { s with fifo := s.fifo ++ [⟨s.nextOp, co, false⟩], nextOp := s.nextOp + 1 }

def step (e : Event σ) : Reactor σ :=
  let s := { s with world := { s.world with sends := e.sends } }
  match e.message with
  | .request co => (s.accept co).next
  | .reply r => (s.receive r).next

def run (es : List (Event σ)) : Reactor σ := es.foldl step s

def boot (disk : ℕ → σ) (sector : σ) : Reactor σ where
  world := ⟨Block.configure sector, disk, ⟨[], [], []⟩, []⟩
  active := none
  fifo := []
  nextOp := 1

end Reactor

end Reactor

section Log

variable {σ : Type} (log : List (Entry σ))

/-- A write lets its coroutine continue right after its request was acknowledged, a read with what
the sector holds. -/
def Follows : Entry σ → Prop
  | .wrote op lba content => [.issued op lba content, .acked op lba content] <:+ log
  | .loaded _ _ buffer stored => buffer = stored
  | _ => True

def Faithful : Prop := ∀ pre e post, log = pre ++ e :: post → Follows pre e

variable {log : List (Entry σ)} {e : Entry σ}

lemma Faithful.snoc (h : Faithful log) (he : Follows log e) : Faithful (log ++ [e]) := by
  intro pre e' post hsplit
  rcases eq_nil_or_concat post with rfl | ⟨post, last, rfl⟩
  · obtain ⟨rfl, hlast⟩ := append_inj' hsplit rfl
    obtain rfl := singleton_injective hlast
    exact he
  · rw [concat_eq_append, ← cons_append, ← append_assoc] at hsplit
    exact h pre e' post (append_inj' hsplit rfl).1

end Log

section Invariants

variable {σ : Type}

structure Settled (w : World σ) : Prop where
  idle : w.blk.curReqId = 0
  noWrite : w.blk.writePending = false
  noDirect : w.blk.directPending = false
  noDirectRead : w.blk.directRead = false
  truthful : ∀ lba, w.blk.loadedLba = some lba → w.blk.sector = w.disk lba

def Waits (w : World σ) (op : ℕ) : Co σ → Prop
  | .read lba _ => Settled { w with blk := { w.blk with curReqId := 0 } } ∧
      w.blk.waitLba = lba ∧ w.blk.waitWrite = false ∧ w.blk.copyIntoSector = true
  | .write lba content _ => w.blk.writePending = true ∧ w.blk.directPending = false ∧
      w.blk.directRead = false ∧ w.blk.sector = content ∧ w.blk.staged = content ∧
      w.blk.waitLba = lba ∧ w.blk.waitWrite = true ∧ w.blk.copyIntoSector = false ∧
      [.issued op lba content] <:+ w.log
  | .readDirect _ _ _ _ => w.blk.waitWrite = false ∧ w.blk.directPending = true ∧
      w.blk.directRead = true ∧ w.blk.writePending = false ∧
      ∀ lba, w.blk.loadedLba = some lba → w.blk.sector = w.disk lba
  | _ => False

def Sends.writesSent (s : Sends) : Prop := ∀ o ∈ s.writes, o = .sent

instance (s : Sends) : Decidable s.writesSent := inferInstanceAs (Decidable (∀ _ ∈ _, _))

lemma Sends.writesSent.head {s : Sends} (h : s.writesSent) : s.writes.headD .sent = .sent := by
  cases hw : s.writes with
  | nil => rfl
  | cons o os => exact h o (by simp [hw])

lemma Sends.writesSent.next {s : Sends} (h : s.writesSent) (kind : Kind) :
    (s.next kind).writesSent := by
  cases kind with
  | read | direct => exact h
  | write => exact fun o ho => h o (mem_of_mem_tail ho)

structure Outcome (w : World σ) (op : ℕ) (r : Step σ × World σ) : Prop where
  faithful : Faithful r.2.log
  writes : r.2.sends.writesSent
  owner : r.2.blk.owner = w.blk.owner
  state : match r.1 with
    | .wait co => Waits r.2 op co
    | _ => Settled r.2

variable {w w' : World σ} {op : ℕ} {r : Step σ × World σ}

lemma Outcome.of_owner (h : Outcome w' op r) (ho : w'.blk.owner = w.blk.owner) :
    Outcome w op r := ⟨h.faithful, h.writes, h.owner.trans ho, h.state⟩

lemma Settled.submit (h : Settled w) (hlog : Faithful w.log) (hs : w.sends.writesSent) {kind : Kind}
    (hk : kind ≠ .write) {lba : ℕ} {sent : Bool} (hw : w.submit kind lba = (sent, w')) :
    Faithful w'.log ∧ w'.sends.writesSent ∧ w'.blk.owner = w.blk.owner ∧
      Settled { w' with blk := { w'.blk with curReqId := 0 } } ∧ (sent = false → Settled w') ∧
      w'.blk.waitLba = lba ∧ w'.blk.waitWrite = false ∧
      (w'.blk.copyIntoSector ↔ kind = .read) := by
  unfold World.submit at hw
  rw [if_neg (fun hw => hk hw.1)] at hw
  split at hw
  · cases hw
    exact ⟨hlog, hs.next kind, rfl, ⟨rfl, h.2, h.3, h.4, h.5⟩, (fun hf => by cases hf), rfl,
      by simp [hk], by simp⟩
  · cases hw
    exact ⟨hlog, hs.next kind, rfl, ⟨rfl, h.2, h.3, h.4, h.5⟩, fun _ => ⟨rfl, h.2, h.3, h.4, h.5⟩,
      rfl, by simp [hk], by simp⟩

lemma submit_write (h : w.sends.writesSent) (lba : ℕ) : w.submit .write lba = (true, { w with
      blk := { w.blk with
        curReqId := w.blk.nextReqId
        nextReqId := bumpId w.blk.nextReqId
        waitLba := lba
        waitWrite := true
        copyIntoSector := false
        staged := w.blk.sector }
      sends := w.sends.next .write }) := by
  unfold World.submit
  dsimp only [Sends.of]
  rw [h.head]
  simp

lemma runCo_outcome (co : Co σ) (h : Settled w) (hlog : Faithful w.log)
    (hs : w.sends.writesSent) : Outcome w op (runCo op co false w) := by
  induction co generalizing w with
  | done | fail => exact ⟨hlog, hs, rfl, h⟩
  | read lba k ih =>
    unfold runCo
    split
    · next hit =>
      have hfollows : Follows w.log (.loaded op lba w.blk.sector (w.disk lba)) := h.truthful lba hit
      exact (ih w.blk.sector (w := w.note _) ⟨h.1, h.2, h.3, h.4, h.5⟩
        (hlog.snoc hfollows) hs).of_owner rfl
    split
    · next w' heq =>
      obtain ⟨hl, hs', ho, hset, -, hlba, hwrite, hcopy⟩ := h.submit hlog hs (by simp) heq
      exact ⟨hl, hs', ho, hset, hlba, hwrite, by simpa using hcopy⟩
    next w' heq =>
    obtain ⟨hl, hs', ho, -, hfail, -⟩ := h.submit hlog hs (by simp) heq
    exact ⟨hl, hs', ho, hfail rfl⟩
  | write lba content k ih =>
    have hsent : (w.fill content).sends.writesSent := hs
    unfold runCo
    rw [if_neg Bool.false_ne_true, if_neg (by simp [World.fill, h.noWrite]), submit_write hsent]
    exact ⟨hlog.snoc trivial, hs.next .write, rfl, rfl, h.noDirect, h.noDirectRead, rfl, rfl, rfl,
      rfl, rfl, suffix_append _ _⟩
  | restage content k ih =>
    exact (ih (w := { w with blk := { w.blk with sector := content, loadedLba := none } })
      ⟨h.1, h.2, h.3, h.4, by simp⟩ hlog hs).of_owner rfl
  | readDirect lba count bufferId k ih =>
    unfold runCo
    rw [if_neg (by simp [h.noDirect])]
    split
    · exact ⟨hlog, hs, rfl, h⟩
    split
    · next w' heq =>
      obtain ⟨hl, hs', ho, hset, -, -, hwrite, -⟩ := h.submit hlog hs (by simp) heq
      exact ⟨hl, hs', ho, hwrite, rfl, rfl, hset.noWrite, hset.truthful⟩
    next w' heq =>
    obtain ⟨hl, hs', ho, -, hfail, -⟩ := h.submit hlog hs (by simp) heq
    have hset := hfail rfl
    exact ⟨hl, hs', ho, hset.1, hset.2, hset.3, rfl, hset.5⟩

lemma Settled.answer (h : Settled { w with blk := { w.blk with directPending := false } })
    (ho : w.blk.owner = some op) (ok : Bool) : Settled (w.answer op ok) := by
  have hblk : w.blk.release op =
      { w.blk with owner := none, directPending := false, directRead := false } := if_pos ho
  unfold World.answer World.note
  rw [hblk]
  exact ⟨h.1, h.2, rfl, rfl, h.5⟩

end Invariants

section Runs

variable {σ : Type}

structure Sound (active : Option (Op σ)) (w : World σ) : Prop where
  faithful : Faithful w.log
  state : match active with
    | none => Settled w
    | some op => Waits w op.id op.co ∧ w.blk.owner = some op.id ∧ op.resumed = true

variable {w : World σ} {op : Op σ} {s : Reactor σ} {e : Event σ} {r : Reply}

lemma drive_of_outcome (h : Outcome { w with blk := { w.blk with owner := some op.id } } op.id
      (runCo op.id op.co op.resumed { w with blk := { w.blk with owner := some op.id } })) :
    Sound (drive op w).1 (drive op w).2 ∧ (drive op w).2.sends.writesSent := by
  unfold drive
  obtain ⟨hlog, hs, howner, hstate⟩ := h
  split <;> next hrun =>
    rw [hrun] at hlog hs howner hstate
    first
    | exact ⟨⟨hlog, hstate, howner, rfl⟩, hs⟩
    | exact ⟨⟨hlog.snoc trivial, Settled.answer
        ⟨hstate.1, hstate.2, rfl, hstate.4, hstate.5⟩ howner _⟩, hs⟩

lemma drive_fresh (hop : op.resumed = false) (h : Settled w) (hlog : Faithful w.log)
    (hs : w.sends.writesSent) :
    Sound (drive op w).1 (drive op w).2 ∧ (drive op w).2.sends.writesSent := by
  apply drive_of_outcome
  rw [hop]
  exact runCo_outcome op.co ⟨h.1, h.2, h.3, h.4, h.5⟩ hlog hs

lemma activateNext_sound (fifo : List (Op σ)) (hq : ∀ op ∈ fifo, op.resumed = false)
    (h : Settled w) (hlog : Faithful w.log) (hs : w.sends.writesSent) :
    Sound (activateNext fifo w).1 (activateNext fifo w).2.2 ∧
      ∀ op ∈ (activateNext fifo w).2.1, op.resumed = false := by
  induction fifo generalizing w with
  | nil => exact ⟨⟨hlog, h⟩, hq⟩
  | cons op fifo ih =>
    obtain ⟨hsound, hs'⟩ := drive_fresh (hq op (.head _)) h hlog hs
    have hq' : ∀ o ∈ fifo, o.resumed = false := fun o ho => hq o (.tail _ ho)
    unfold activateNext
    split
    · next op' w' hd =>
      rw [hd] at hsound
      exact ⟨hsound, hq'⟩
    next w' hd =>
    rw [hd] at hsound hs'
    exact ih hq' hsound.state hsound.faithful hs'

structure Reactor.Ok (s : Reactor σ) : Prop where
  sound : Sound s.active s.world
  queued : ∀ op ∈ s.fifo, op.resumed = false

lemma Reactor.Ok.next (h : s.Ok) (hs : s.world.sends.writesSent) : s.next.Ok := by
  unfold Reactor.next
  split
  · exact h
  next hnone =>
  have hset := h.sound.state
  rw [hnone] at hset
  obtain ⟨hsound, hq⟩ := activateNext_sound s.fifo h.queued hset h.sound.faithful hs
  exact ⟨hsound, hq⟩

lemma Reactor.Ok.accept (h : s.Ok) (co : Co σ) : (s.accept co).Ok := by
  unfold Reactor.accept
  split
  · exact h
  · exact ⟨h.sound, by simpa [or_imp, forall_and] using h.queued⟩

section Replies

variable {lba count : ℕ} {content : σ} {bufferId : ℤ}

lemma serve_frame : (w.serve r).sends = w.sends ∧ (w.serve r).blk = w.blk := by
  unfold World.serve World.note
  split
  · split
    · exact ⟨rfl, rfl⟩
    · split <;> exact ⟨rfl, rfl⟩
  · exact ⟨rfl, rfl⟩

lemma complete_frame :
    (w.complete r).2.sends = w.sends ∧ (w.complete r).2.blk.owner = w.blk.owner := by
  obtain ⟨hsends, hblk⟩ := serve_frame
  unfold World.complete Block.finish
  dsimp only
  rw [hsends, hblk]
  refine ⟨rfl, ?_⟩
  split
  · rfl
  split
  · split
    · split <;> rfl
    · rfl
  · rfl

lemma serve_of_read (h : w.blk.waitWrite = false) : w.serve r = w := by
  unfold World.serve
  simp [h]

variable {id : ℕ}

lemma complete_read {k : σ → Co σ} (h : Waits w id (.read lba k)) :
    Settled (w.complete r).2 ∧ (w.complete r).2.log = w.log := by
  obtain ⟨hset, hlba, hwrite, hcopy⟩ := h
  unfold World.complete
  rw [serve_of_read hwrite]
  unfold Block.finish
  dsimp only
  rw [if_neg (by simpa using hset.noDirectRead), if_pos hcopy]
  have hnone : ∀ l, (none : Option ℕ) = some l → w.blk.sector = w.disk l := fun l hl => by cases hl
  split
  · split
    · exact ⟨⟨rfl, hset.2, hset.3, hset.4, fun l hl => by cases hl; rfl⟩, rfl⟩
    · exact ⟨⟨rfl, hset.2, hset.3, hset.4, hnone⟩, rfl⟩
  · exact ⟨⟨rfl, hset.2, hset.3, hset.4, hnone⟩, rfl⟩

lemma complete_direct {k : ℕ → Co σ} (h : Waits w id (.readDirect lba count bufferId k)) :
    Settled { (w.complete r).2 with
        blk := { (w.complete r).2.blk with directPending := false } } ∧
      (w.complete r).2.blk.directPending = true ∧ (w.complete r).2.log = w.log := by
  obtain ⟨hwrite, hpending, hdirect, hlatch, htruth⟩ := h
  unfold World.complete
  rw [serve_of_read hwrite]
  unfold Block.finish
  dsimp only
  rw [if_pos hdirect]
  exact ⟨⟨rfl, hlatch, rfl, rfl, htruth⟩, hpending, rfl⟩

lemma complete_write {k : Co σ} (h : Waits w id (.write lba content k))
    (ho : w.blk.owner = some id) (hr : r.success .write = true) :
    Settled { (w.complete r).2 with
        blk := { (w.complete r).2.blk with writePending := false } } ∧
      (w.complete r).1 = true ∧ (w.complete r).2.blk.writePending = true ∧
      (w.complete r).2.log = w.log ++ [.acked id lba content] := by
  obtain ⟨hlatch, hdirect, hread, hsector, hstaged, hlba, hwrite, hcopy, -⟩ := h
  have hserve : w.serve r = { w with disk := Function.update w.disk lba content }.note
      (.acked id lba content) := by
    unfold World.serve
    simp [hwrite, hread, hr, ho, hlba, hstaged]
  unfold World.complete
  rw [hserve]
  unfold Block.finish Block.expects World.note
  dsimp only
  rw [hread, hwrite, hcopy, hlba]
  rw [if_neg Bool.false_ne_true, if_pos rfl, if_pos hr, if_neg Bool.false_ne_true]
  refine ⟨⟨rfl, rfl, hdirect, rfl, ?_⟩, rfl, hlatch, rfl⟩
  rintro l hl
  cases hl
  simpa using hsector

end Replies

lemma drive_resumed (hop : op.resumed = true) (ho : w.blk.owner = some op.id)
    (hw : Waits w op.id op.co) (hlog : Faithful w.log) (hs : w.sends.writesSent)
    (hack : w.blk.waitWrite = true → r.success .write = true) :
    Sound (drive op (w.complete r).2).1 (drive op (w.complete r).2).2 ∧
      (drive op (w.complete r).2).2.sends.writesSent := by
  have hs' : (w.complete r).2.sends.writesSent := by rwa [complete_frame.1]
  apply drive_of_outcome
  rw [hop]
  obtain ⟨id, co, resumed⟩ := op
  cases co with
  | done | fail | restage => exact hw.elim
  | read lba k =>
    obtain ⟨hset, hl⟩ := complete_read hw
    exact runCo_outcome (.read lba k) ⟨hset.1, hset.2, hset.3, hset.4, hset.5⟩ (hl ▸ hlog) hs'
  | readDirect lba count bufferId k =>
    obtain ⟨hset, hpending, hl⟩ := complete_direct hw
    unfold runCo
    rw [if_pos hpending]
    apply Outcome.of_owner
    · exact runCo_outcome (k _) ⟨hset.1, hset.2, hset.3, hset.4, hset.5⟩ (hl ▸ hlog) hs'
    · rfl
  | write lba content k =>
    obtain ⟨hset, -, hlatch, hl⟩ := complete_write hw ho (hack hw.2.2.2.2.2.2.1)
    have hfollows : Follows (w.complete r).2.log (.wrote id lba content) := by
      obtain ⟨pre, hpre⟩ := hw.2.2.2.2.2.2.2.2
      rw [hl, ← hpre]
      exact ⟨pre, by simp⟩
    have hfaithful : Faithful (w.complete r).2.log := hl ▸ hlog.snoc trivial
    unfold runCo
    rw [if_pos rfl, if_pos hlatch]
    apply Outcome.of_owner
    · exact runCo_outcome k ⟨hset.1, hset.2, hset.3, hset.4, hset.5⟩ (hfaithful.snoc hfollows) hs'
    · rfl

lemma sound_of_failed (ho : w.blk.owner = some op.id) (hw : Waits w op.id op.co)
    (hlog : Faithful w.log) (hok : (w.complete r).1 = false)
    (hack : w.blk.waitWrite = true → r.success .write = true) :
    Sound none ((w.complete r).2.answer op.id false) := by
  have ho' : (w.complete r).2.blk.owner = some op.id := complete_frame.2.trans ho
  obtain ⟨id, co, resumed⟩ := op
  cases co with
  | done | fail | restage => exact hw.elim
  | read lba k =>
    obtain ⟨hset, hl⟩ := complete_read hw
    have hfaithful : Faithful (w.complete r).2.log := hl ▸ hlog
    exact ⟨hfaithful.snoc trivial, Settled.answer ⟨hset.1, hset.2, rfl, hset.4, hset.5⟩ ho' false⟩
  | readDirect lba count bufferId k =>
    obtain ⟨hset, -, hl⟩ := complete_direct hw
    have hfaithful : Faithful (w.complete r).2.log := hl ▸ hlog
    exact ⟨hfaithful.snoc trivial, Settled.answer hset ho' false⟩
  | write lba content k =>
    rw [(complete_write hw ho (hack hw.2.2.2.2.2.2.1)).2.1] at hok
    cases hok

/-- A write that is outstanding is acknowledged when it is answered. -/
def Message.careful (b : Block σ) : Message σ → Prop
  | .request _ => True
  | .reply r => b.curReqId ≠ 0 → r.id = b.curReqId → b.waitWrite = true → r.success .write = true

def Event.careful (s : Reactor σ) (e : Event σ) : Prop :=
  e.sends.writesSent ∧ e.message.careful s.world.blk

lemma Reactor.Ok.receive (h : s.Ok) (hs : s.world.sends.writesSent)
    (hack : s.world.blk.curReqId ≠ 0 → r.id = s.world.blk.curReqId →
      s.world.blk.waitWrite = true → r.success .write = true) :
    (s.receive r).Ok ∧ (s.receive r).world.sends.writesSent := by
  obtain ⟨⟨hlog, hstate⟩, hq⟩ := h
  unfold Reactor.receive
  split
  · exact ⟨⟨⟨hlog, hstate⟩, hq⟩, hs⟩
  next hmatch =>
  rw [not_or, not_not] at hmatch
  replace hack := hack hmatch.1 hmatch.2
  split
  · next hnone =>
    rw [hnone] at hstate
    exact absurd hstate.idle hmatch.1
  next op hop =>
  rw [hop] at hstate
  obtain ⟨hw, ho, hresumed⟩ := hstate
  rw [if_pos ho]
  split
  · obtain ⟨hsound, hs'⟩ := drive_resumed hresumed ho hw hlog hs hack
    exact ⟨⟨hsound, hq⟩, hs'⟩
  next hok =>
  have hs' : (s.world.complete r).2.sends.writesSent := by rwa [complete_frame.1]
  exact ⟨⟨sound_of_failed ho hw hlog (by simpa using hok) hack, hq⟩, hs'⟩

lemma Reactor.Ok.step (h : s.Ok) (he : e.careful s) : (s.step e).Ok := by
  obtain ⟨hs, hreply⟩ := he
  have h' : Reactor.Ok { s with world := { s.world with sends := e.sends } } := by
    obtain ⟨⟨hlog, hstate⟩, hq⟩ := h
    refine ⟨⟨hlog, ?_⟩, hq⟩
    split
    · next hnone =>
      rw [hnone] at hstate
      exact ⟨hstate.1, hstate.2, hstate.3, hstate.4, hstate.5⟩
    next op hop =>
    rw [hop] at hstate
    obtain ⟨hw, ho, hresumed⟩ := hstate
    refine ⟨?_, ho, hresumed⟩
    cases hco : op.co with
    | read lba k =>
      rw [hco] at hw
      obtain ⟨hset, hwait⟩ := hw
      exact ⟨⟨hset.1, hset.2, hset.3, hset.4, hset.5⟩, hwait⟩
    | _ => rw [hco] at hw; exact hw
  unfold Reactor.step
  cases hm : e.message with
  | request co =>
    apply (h'.accept co).next
    unfold Reactor.accept
    split <;> exact hs
  | reply r =>
    rw [hm] at hreply
    obtain ⟨hok, hs'⟩ := h'.receive hs hreply
    exact hok.next hs'

def runCareful (s : Reactor σ) : List (Event σ) → Prop
  | [] => True
  | e :: es => e.careful s ∧ runCareful (s.step e) es

instance (b : Block σ) : (m : Message σ) → Decidable (m.careful b)
  | .request _ => isTrue trivial
  | .reply _ => inferInstanceAs (Decidable (_ → _ → _ → _))

instance decidableRunCareful (s : Reactor σ) : (es : List (Event σ)) → Decidable (runCareful s es)
  | [] => isTrue trivial
  | e :: es =>
    have := decidableRunCareful (s.step e) es
    inferInstanceAs (Decidable ((_ ∧ _) ∧ _))

lemma Reactor.Ok.run (h : s.Ok) (es : List (Event σ)) (hes : runCareful s es) : (s.run es).Ok := by
  induction es generalizing s with
  | nil => exact h
  | cons e es ih => exact ih (h.step hes.1) hes.2

def event (message : Message ℕ) : Event ℕ := ⟨message, ⟨[], [], []⟩⟩

end Runs

end Fat
