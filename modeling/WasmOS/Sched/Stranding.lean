import Mathlib.Algebra.Order.Ring.Nat
import WasmOS.Interleaving.Basic

/-! # No woken thread is stranded

Each atomic operation and each run-queue lock section is one step. When no context is inside one of
the paths, a READY thread is on one run queue, is current on a CPU or is owed an enqueue that a
sweep will find. A debt taken between the owing and the marking of a deferral is lost.
-/

namespace Sched

open Interleaving

/-- The states of a live thread that has been published (`thread_state_t`). -/
inductive ThreadState
  | ready
  | running
  | blocked
  deriving DecidableEq, Repr

/-- `dispatch_ref`; a slot is frozen only while it is freed. -/
inductive SlotRef
  | free
  | dispatch
  deriving DecidableEq, Repr

structure Shared (α Q : Type*) where
  state : ThreadState
  wakePending : Bool
  blockingTransition : Bool
  /-- The run queues whose lists hold the thread's `sched_node`. -/
  queues : List Q
  onRq : Bool
  enqueueOwed : Bool
  /-- What this thread adds to `g_enqueue_owed_count`. -/
  owedCount : ℤ
  dispatchRef : SlotRef
  /-- Which CPUs name the thread in `current_thread`. -/
  current : α → Bool
  /-- `SCHED_DEBUG_ENQUEUE_CURRENT`, which decides whether a deferral is reported. -/
  enqueueCurrent : ℕ
  /-- Whether a wake was issued since the thread last committed to block. -/
  woken : Bool

inductive RunResult
  | blocked
  | yielded (registered : Bool)
  deriving DecidableEq, Repr

inductive Return
  | out
  | settled (result : RunResult)
  | dispatched
  | swept
  deriving DecidableEq, Repr

/-- `sched_wake_thread` up to its enqueue. -/
inductive WakePlace
  | publish
  | readTransition
  | claim
  | test
  | promote
  deriving DecidableEq, Repr

/-- `sched_mark_ready_if_live` and `sched_owe_enqueue`. -/
inductive DeferPlace
  | load
  | mark (seen : ThreadState)
  | owe
  | count
  deriving DecidableEq, Repr

/-- `cpu_sched_enqueue_from`. -/
inductive EnqueuePlace (α : Type*)
  | scan (cpus : List α)
  | bump
  | load
  | link
  deriving DecidableEq, Repr

/-- `process_schedule_once_impl` from the pick on. -/
inductive DispatchPlace (α : Type*)
  | claimSlot
  | dropped
  | checkReady
  | claim
  | setCurrent
  | running
  | registered
  | committed
  | leave (result : RunResult)
  | settle (result : RunResult)
  | settleTake (result : RunResult)
  | settleCount (result : RunResult)
  | clearTransition
  | takeToken
  | recheck
  | promote
  | readReady
  | readRunning
  | yieldTransition
  | yieldToken
  | setReady
  | report (cpus : List α)
  | release
  deriving DecidableEq, Repr

/-- `sched_sweep_owed_enqueues` at this thread. -/
inductive SweepPlace (α : Type*)
  | owed
  | scan (cpus : List α)
  | claimSlot
  | take
  | count
  | readState
  | readOnRq
  | release
  deriving DecidableEq, Repr

inductive Place (α : Type*)
  | idle
  | wake (w : WakePlace)
  | enqueue (e : EnqueuePlace α) (ret : Return)
  /-- Mark the thread, then owe the enqueue. -/
  | markFirst (d : DeferPlace) (ret : Return)
  /-- Owe the enqueue, then mark the thread. -/
  | oweFirst (d : DeferPlace) (ret : Return)
  | dispatch (d : DispatchPlace α)
  | sweep (w : SweepPlace α)
  deriving DecidableEq, Repr

inductive Choice (Q : Type*)
  | wake
  | pick (q : Q)
  /-- Start a sweep that reads the other threads' debts as this number. -/
  | sweep (others : ℤ)
  /-- Defer the enqueue of another thread. -/
  | deferOther
  /-- The running thread goes on to block, yields, or returns
  `PROCESS_RUN_BLOCKED` without having blocked. -/
  | block
  | yield (registered : Bool)
  | giveUp
  /-- The queue an enqueue goes to. -/
  | into (q : Q)
  | go

section Step

variable {α Q : Type*} (cpus : List α)

def RunResult.place : RunResult → Place α
  | .blocked => .dispatch .clearTransition
  | .yielded true => .dispatch .yieldTransition
  | .yielded false => .dispatch .setReady

def Return.place : Return → Place α
  | .out => .idle
  | .settled result => result.place
  | .dispatched => .dispatch .release
  | .swept => .sweep .release

variable (s : Shared α Q)

/-- `thread_transit` to READY. -/
def Shared.markReady (seen : ThreadState) : Shared α Q :=
  { s with state := if s.state = seen then .ready else s.state }

def wakeNext : WakePlace → Shared α Q × Place α
  | .publish => ({ s with wakePending := true }, .wake .readTransition)
  | .readTransition =>
    (s, if s.blockingTransition then .markFirst .load .out else .wake .claim)
  | .claim =>
    ({ s with wakePending := false }, if s.wakePending then .wake .test else .markFirst .load .out)
  -- `thread_wake_if_blocked`: the table lock does not exclude the exchanges of `thread_transit`
  | .test => (s, if s.state = .blocked then .wake .promote else .idle)
  | .promote => ({ s with state := .ready }, .enqueue (.scan cpus) .out)

variable (ret : Return)

def markFirstNext : DeferPlace → Shared α Q × Place α
  | .load =>
    (s, if s.state = .ready then .markFirst .owe ret else .markFirst (.mark s.state) ret)
  | .mark seen => (s.markReady seen, .markFirst .owe ret)
  | .owe =>
    ({ s with enqueueOwed := true }, if s.enqueueOwed then ret.place else .markFirst .count ret)
  | .count => ({ s with owedCount := s.owedCount + 1 }, ret.place)

def oweFirstNext : DeferPlace → Shared α Q × Place α
  | .owe =>
    ({ s with enqueueOwed := true },
      if s.enqueueOwed then .oweFirst .load ret else .oweFirst .count ret)
  | .count => ({ s with owedCount := s.owedCount + 1 }, .oweFirst .load ret)
  | .load => (s, if s.state = .ready then ret.place else .oweFirst (.mark s.state) ret)
  | .mark seen => (s.markReady seen, ret.place)

/-- The lock section of `cpu_sched_enqueue_from`: the exchange on `on_rq` decides who links. -/
def Shared.link (q : Q) : Shared α Q :=
  if s.onRq then s
  else if s.queues = [] then { s with onRq := true, queues := [q] }
  else s

def enqueueNext : EnqueuePlace α → Choice Q → Option (Shared α Q × Place α)
  | .scan [], _ => some (s, .enqueue .load ret)
  | .scan (c :: cs), _ =>
    some (s, if s.current c then .enqueue .bump ret else .enqueue (.scan cs) ret)
  | .bump, _ =>
    let n := s.enqueueCurrent
    some ({ s with enqueueCurrent := (n + 1) % 2 ^ 32 },
      if n &&& (n - 1) ≠ 0 then .oweFirst .owe ret else .markFirst .load ret)
  | .load, _ => some (s, if s.state = .ready then .enqueue .link ret else ret.place)
  | .link, .into q => some (s.link q, ret.place)
  | .link, _ => none

variable [DecidableEq α]

def dispatchNext (a : α) (s : Shared α Q) :
    DispatchPlace α → Choice Q → Option (Shared α Q × Place α)
  | .claimSlot, _ =>
    if s.dispatchRef = .free then
      some ({ s with dispatchRef := .dispatch }, .dispatch .checkReady)
    else some (s, .dispatch .dropped)
  -- `sched_owe_enqueue_for_dropped_pick`
  | .dropped, _ => some (s, if s.state = .ready then .markFirst .owe .out else .idle)
  | .checkReady, _ =>
    some (s, .dispatch (if s.state = .ready then .claim else .release))
  | .claim, _ =>
    if s.state = .ready then some ({ s with state := .running }, .dispatch .setCurrent)
    else some (s, .dispatch .release)
  | .setCurrent, _ =>
    some ({ s with current := Function.update s.current a true }, .dispatch .running)
  -- the thread itself: `sched_event_wait`, or its way back to the scheduler
  | .running, .block => some ({ s with blockingTransition := true }, .dispatch .registered)
  | .running, .yield registered => some (s, .dispatch (.leave (.yielded registered)))
  | .running, .giveUp => some (s, .dispatch (.leave .blocked))
  | .running, _ => none
  | .registered, _ => some ({ s with state := .blocked, woken := false }, .dispatch .committed)
  | .committed, .yield registered => some (s, .dispatch (.leave (.yielded registered)))
  | .committed, _ => some (s, .dispatch (.leave .blocked))
  | .leave result, _ =>
    some ({ s with current := Function.update s.current a false }, .dispatch (.settle result))
  -- `sched_settle_deferred_enqueue`
  | .settle result, _ =>
    some (s, if s.state = .ready then .dispatch (.settleTake result) else result.place)
  | .settleTake result, _ =>
    some ({ s with enqueueOwed := false },
      if s.enqueueOwed then .dispatch (.settleCount result) else result.place)
  | .settleCount result, _ =>
    some ({ s with owedCount := s.owedCount - 1 }, .enqueue (.scan cpus) (.settled result))
  -- PROCESS_RUN_BLOCKED
  | .clearTransition, _ => some ({ s with blockingTransition := false }, .dispatch .takeToken)
  | .takeToken, _ =>
    some ({ s with wakePending := false },
      .dispatch (if s.wakePending then .recheck else .readReady))
  | .recheck, _ => some (s, .dispatch (if s.state = .blocked then .promote else .readReady))
  | .promote, _ => some ({ s with state := .ready }, .dispatch .readReady)
  | .readReady, _ =>
    some (s, .dispatch (if s.state = .ready then .report cpus else .readRunning))
  | .readRunning, _ =>
    some (s, .dispatch (if s.state = .running then .setReady else .release))
  -- a yield while registered with an event
  | .yieldTransition, _ => some ({ s with blockingTransition := false }, .dispatch .yieldToken)
  | .yieldToken, _ => some ({ s with wakePending := false }, .dispatch .setReady)
  | .setReady, _ => some ({ s with state := .ready }, .dispatch (.report cpus))
  -- `sched_enqueue_thread_from` scans for its report before it enqueues
  | .report [], _ => some (s, .enqueue (.scan cpus) .dispatched)
  | .report (c :: cs), _ =>
    if s.current c then
      some ({ s with enqueueCurrent := (s.enqueueCurrent + 1) % 2 ^ 32 },
        .enqueue (.scan cpus) .dispatched)
    else some (s, .dispatch (.report cs))
  | .release, _ => some ({ s with dispatchRef := .free }, .idle)

def sweepNext : SweepPlace α → Shared α Q × Place α
  | .owed => (s, if s.enqueueOwed then .sweep (.scan cpus) else .idle)
  | .scan [] => (s, .sweep .claimSlot)
  | .scan (c :: cs) => (s, if s.current c then .idle else .sweep (.scan cs))
  | .claimSlot =>
    if s.dispatchRef = .free then ({ s with dispatchRef := .dispatch }, .sweep .take)
    else (s, .idle)
  | .take =>
    ({ s with enqueueOwed := false }, .sweep (if s.enqueueOwed then .count else .release))
  | .count => ({ s with owedCount := s.owedCount - 1 }, .sweep .readState)
  | .readState => (s, .sweep (if s.state = .ready then .readOnRq else .release))
  | .readOnRq => (s, if s.onRq then .sweep .release else .enqueue (.scan cpus) .swept)
  | .release => ({ s with dispatchRef := .free }, .idle)

variable [DecidableEq Q]

def idleNext : Choice Q → Option (Shared α Q × Place α)
  | .wake => some ({ s with woken := true }, .wake .publish)
  -- `cpu_sched_unlink_locked` in `cpu_sched_pick_next` or `cpu_sched_steal_pick`
  | .pick q =>
    if q ∈ s.queues then
      some ({ s with queues := s.queues.erase q, onRq := false }, .dispatch .claimSlot)
    else none
  | .sweep others => some (s, if s.owedCount + others = 0 then .idle else .sweep .owed)
  | .deferOther => some ({ s with enqueueCurrent := (s.enqueueCurrent + 1) % 2 ^ 32 }, .idle)
  | _ => none

def next (a : α) (s : Shared α Q) : Place α → Choice Q → Option (Shared α Q × Place α)
  | .idle, c => idleNext s c
  | .wake w, _ => some (wakeNext cpus s w)
  | .enqueue e ret, c => enqueueNext s ret e c
  | .markFirst d ret, _ => some (markFirstNext s ret d)
  | .oweFirst d ret, _ => some (oweFirstNext s ret d)
  | .dispatch d, c => dispatchNext cpus a s d c
  | .sweep w, _ => some (sweepNext cpus s w)

def system : System α (Shared α Q) (Place α) (Choice Q) := ⟨next cpus⟩

end Step

abbrev Machine (α Q : Type*) := Config α (Shared α Q) (Place α)

def Machine.boot {α Q : Type*} (q : Q) : Machine α Q where
  shared :=
    { state := .ready, wakePending := false, blockingTransition := false, queues := [q],
      onRq := true, enqueueOwed := false, owedCount := 0, dispatchRef := .free,
      current := fun _ => false, enqueueCurrent := 0, woken := false }
  place := fun _ => .idle

open Interleaving RunResult Machine

variable {α Q : Type*} {s s' : Shared α Q} {p p' : Place α} {a : α}

/-! ## Duties

A place bears a duty if the context there is bound to discharge it. -/

structure Shared.Stray (s : Shared α Q) : Prop where
  ready : s.state = .ready
  unqueued : s.onRq = false
  unowed : s.enqueueOwed = false
  off : s.current = fun _ => false

structure Shared.Overslept (s : Shared α Q) : Prop where
  blocked : s.state = .blocked
  woken : s.woken = true

@[simp] def DispatchPlace.enqueues : DispatchPlace α → Bool
  | .running | .readRunning | .release => false
  | _ => true

/-- From here a thread that is READY is linked or owed. -/
@[simp] def Place.enqueues : Place α → Bool
  | .enqueue _ _ | .markFirst .load _ | .markFirst (.mark _) _ | .markFirst .owe _
  | .oweFirst .owe _ => true
  | .dispatch d => d.enqueues
  | .sweep .count | .sweep .readState | .sweep .readOnRq => true
  | _ => false

/-- From here a thread that is BLOCKED is made READY. -/
@[simp] def Place.rouses : Place α → Bool
  | .wake _ | .markFirst .load _ | .markFirst (.mark .blocked) _ => true
  | _ => false

@[simp] def DispatchPlace.drives : DispatchPlace α → Bool
  | .claimSlot | .dropped | .checkReady | .claim | .report _ | .release => false
  | _ => true

/-- From here a thread that is RUNNING is executed or made READY. -/
@[simp] def Place.drives : Place α → Bool
  | .enqueue _ (.settled _) | .markFirst _ (.settled _) | .oweFirst _ (.settled _) => true
  | .dispatch d => d.drives
  | _ => false

/-- The context has the thread as its current one. -/
@[simp] def Place.onCpu : Place α → Bool
  | .dispatch .running | .dispatch .registered | .dispatch .committed | .dispatch (.leave _) => true
  | _ => false

/-- The enqueue is owed and the mark is still to come. -/
@[simp] def Place.marksLate : Place α → Bool
  | .oweFirst .count _ | .oweFirst .load _ | .oweFirst (.mark _) _ => true
  | _ => false

@[simp] def Place.uncounted : Place α → ℤ
  | .markFirst .count _ | .oweFirst .count _ => 1
  | .dispatch (.settleCount _) | .sweep .count => -1
  | _ => 0

@[simp] def Place.takes : Place α → Bool
  | .dispatch (.settleTake _) | .sweep .take => true
  | _ => false

structure Shared.Linked (s : Shared α Q) : Prop where
  on : s.onRq = true → ∃ q, s.queues = [q]
  off : s.onRq = false → s.queues = []

/-- What a step of a context from one place to another means for the thread. -/
structure Steps (a : α) (s : Shared α Q) (p : Place α) (s' : Shared α Q) (p' : Place α) : Prop where
  linked : s.Linked → s'.Linked
  stray : (p.marksLate = true → s.enqueueOwed = true) → s'.Stray →
    p'.enqueues = true ∨ s.Stray ∧ p.enqueues = false
  overslept : s'.Overslept → p'.rouses = true ∨ s.Overslept ∧ p.rouses = false
  running : s'.state = .running → p'.drives = true ∨ s.state = .running ∧ p.drives = false
  current : ∀ b, b ≠ a → s'.current b = s.current b
  onCpu : (p.onCpu = true → s.current a = true) → p'.onCpu = true → s'.current a = true
  owed : s.enqueueOwed = true → p.takes = false → s'.enqueueOwed = true
  marksLate : (p.marksLate = true → s.enqueueOwed = true) → p'.marksLate = true →
    s'.enqueueOwed = true
  count : s'.owedCount + p'.uncounted - s'.enqueueOwed.toNat =
    s.owedCount + p.uncounted - s.enqueueOwed.toNat

lemma handed_on {duty duty' : Bool} {P : Prop} (hkept : duty = true → duty' = true) (h : P) :
    duty' = true ∨ P ∧ duty = false := by
  cases duty with
  | true => exact .inl (hkept rfl)
  | false => exact .inr ⟨h, rfl⟩

section Step

variable {cpus : List α} {c : Choice Q} {ret : Return}

lemma Steps.of_same (hstate : s'.state = s.state) (hqueues : s'.queues = s.queues)
    (hrq : s'.onRq = s.onRq) (howed : s'.enqueueOwed = s.enqueueOwed)
    (hcount : s'.owedCount = s.owedCount) (hcur : s'.current = s.current)
    (hwoken : s'.woken = s.woken)
    (henqueues : s.state = .ready → s.onRq = false → s.enqueueOwed = false →
      p.enqueues = true → p'.enqueues = true)
    (hrouses : s.state = .blocked → p.rouses = true → p'.rouses = true)
    (hdrives : s.state = .running → p.drives = true → p'.drives = true)
    (honCpu : p'.onCpu = true → p.onCpu = true)
    (hmarks : p'.marksLate = true → p.marksLate = true)
    (huncounted : p'.uncounted = p.uncounted) : Steps a s p s' p' where
  linked h := ⟨by rw [hrq, hqueues]; exact h.on, by rw [hrq, hqueues]; exact h.off⟩
  stray _ h := by
    obtain ⟨h₁, h₂, h₃, h₄⟩ := h
    rw [hstate] at h₁
    rw [hrq] at h₂
    rw [howed] at h₃
    rw [hcur] at h₄
    exact handed_on (henqueues h₁ h₂ h₃) ⟨h₁, h₂, h₃, h₄⟩
  overslept h := by
    obtain ⟨h₁, h₂⟩ := h
    rw [hstate] at h₁
    rw [hwoken] at h₂
    exact handed_on (hrouses h₁) ⟨h₁, h₂⟩
  running h := by
    rw [hstate] at h
    exact handed_on (hdrives h) h
  current _ _ := by rw [hcur]
  onCpu h hp := by
    rw [hcur]
    exact h (honCpu hp)
  owed h _ := by rw [howed, h]
  marksLate h hp := by
    rw [howed]
    exact h (hmarks hp)
  count := by rw [hcount, howed, huncounted]

lemma Steps.of_ready (henqueues : p'.enqueues = true ∨ p.marksLate = true)
    (honCpu : p'.onCpu = false) (hmarks : p'.marksLate = false)
    (huncounted : p'.uncounted = p.uncounted) : Steps a s p { s with state := .ready } p' where
  linked h := ⟨h.on, h.off⟩
  stray howed h := by
    rcases henqueues with hp' | hp
    · exact .inl hp'
    have : s.enqueueOwed = false := h.unowed
    rw [howed hp] at this
    cases this
  overslept h := nomatch h.blocked
  running h := nomatch h
  current _ _ := rfl
  onCpu _ h := nomatch honCpu.symm.trans h
  owed h _ := h
  marksLate _ h := nomatch hmarks.symm.trans h
  count := by rw [huncounted]

lemma link_eq (s : Shared α Q) (q : Q) : s.onRq = true ∧ s.link q = s ∨
      s.onRq = false ∧ s.queues = [] ∧ s.link q = { s with onRq := true, queues := [q] } ∨
      s.onRq = false ∧ s.queues ≠ [] ∧ s.link q = s := by
  cases hs : s.onRq <;> by_cases hq : s.queues = [] <;> simp [Shared.link, hs, hq]

section Owing

variable (hrouses : p.rouses = false) (hdrives : p.drives = true → p'.drives = true)
  (honCpu : p'.onCpu = false)
include hrouses hdrives honCpu

lemma Steps.of_owe
    (huncounted : p'.uncounted = if s.enqueueOwed then p.uncounted else p.uncounted + 1) :
    Steps a s p { s with enqueueOwed := true } p' where
  linked h := ⟨h.on, h.off⟩
  stray _ h := nomatch h.unowed
  overslept h := .inr ⟨⟨h.blocked, h.woken⟩, hrouses⟩
  running h := handed_on hdrives h
  current _ _ := rfl
  onCpu _ h := nomatch honCpu.symm.trans h
  owed _ _ := rfl
  marksLate _ _ := rfl
  count := by
    rw [huncounted]
    cases s.enqueueOwed <;> simp
    omega

lemma Steps.of_take (htakes : p.takes = true) (hmarks : p'.marksLate = false)
    (henqueues : p'.enqueues = true ∨ s.enqueueOwed = false ∧ p.enqueues = false)
    (huncounted : p'.uncounted = if s.enqueueOwed then p.uncounted - 1 else p.uncounted) :
    Steps a s p { s with enqueueOwed := false } p' where
  linked h := ⟨h.on, h.off⟩
  stray _ h := by
    rcases henqueues with hp' | ⟨howed, hp⟩
    · exact .inl hp'
    · exact .inr ⟨⟨h.ready, h.unqueued, howed, h.off⟩, hp⟩
  overslept h := .inr ⟨⟨h.blocked, h.woken⟩, hrouses⟩
  running h := handed_on hdrives h
  current _ _ := rfl
  onCpu _ h := nomatch honCpu.symm.trans h
  owed _ h := nomatch htakes.symm.trans h
  marksLate _ h := nomatch hmarks.symm.trans h
  count := by
    rw [huncounted]
    cases s.enqueueOwed <;> simp
    omega

lemma Steps.of_count {z : ℤ} (henqueues : p.enqueues = true → p'.enqueues = true)
    (hmarks : p'.marksLate = true → p.marksLate = true)
    (huncounted : p'.uncounted + z = p.uncounted) :
    Steps a s p { s with owedCount := s.owedCount + z } p' where
  linked h := ⟨h.on, h.off⟩
  stray _ h := handed_on henqueues ⟨h.ready, h.unqueued, h.unowed, h.off⟩
  overslept h := .inr ⟨⟨h.blocked, h.woken⟩, hrouses⟩
  running h := handed_on hdrives h
  current _ _ := rfl
  onCpu _ h := nomatch honCpu.symm.trans h
  owed h _ := h
  marksLate h hp := h (hmarks hp)
  count := by
    rw [← huncounted]
    simp only
    omega

lemma Steps.of_link {q : Q} (hmarks : p'.marksLate = false)
    (huncounted : p'.uncounted = p.uncounted) (hs : s.Linked) :
    Steps a s p (s.link q) p' := by
  obtain ⟨hrq, heq⟩ | ⟨hrq, -, heq⟩ | ⟨hrq, hq, -⟩ := link_eq s q
  · rw [heq]
    apply Steps.of_same <;> simp_all
  · rw [heq]
    constructor
    case linked => exact fun _ => ⟨fun _ => ⟨q, rfl⟩, nofun⟩
    case stray => exact fun _ h => nomatch h.unqueued
    case overslept => exact fun h => .inr ⟨⟨h.blocked, h.woken⟩, hrouses⟩
    case running => exact fun h => handed_on hdrives h
    all_goals simp_all
  · exact absurd (hs.off hrq) hq

end Owing

lemma wakeNext_steps (cpus : List α) (w : WakePlace) :
    Steps a s (.wake w) (wakeNext cpus s w).1 (wakeNext cpus s w).2 := by
  cases w with
  | publish => apply Steps.of_same <;> simp [wakeNext]
  | readTransition => cases h : s.blockingTransition <;> apply Steps.of_same <;> simp [wakeNext, h]
  | claim => cases h : s.wakePending <;> apply Steps.of_same <;> simp [wakeNext, h]
  | test =>
    by_cases h : s.state = .blocked <;> apply Steps.of_same <;> simp [wakeNext, h]
  | promote => apply Steps.of_ready <;> simp [wakeNext]

lemma markReady_eq (s : Shared α Q) (seen : ThreadState) :
    s.state = seen ∧ s.markReady seen = { s with state := .ready } ∨
      s.state ≠ seen ∧ s.markReady seen = s := by
  by_cases h : s.state = seen <;> simp [Shared.markReady, h]

lemma markFirstNext_steps (d : DeferPlace) :
    Steps a s (.markFirst d ret) (markFirstNext s ret d).1 (markFirstNext s ret d).2 := by
  rcases ret with _ | (_ | (_ | _)) | _ | _ <;> cases d with
  | load => cases h : s.state <;> apply Steps.of_same <;> simp [markFirstNext, h]
  | mark seen =>
    rw [markFirstNext]
    obtain ⟨-, hs⟩ | ⟨hne, hs⟩ := markReady_eq s seen <;> rw [hs]
    · apply Steps.of_ready <;> simp
    · cases seen <;> apply Steps.of_same <;> simp_all
  | owe => cases h : s.enqueueOwed <;> apply Steps.of_owe <;>
      simp [markFirstNext, h, Return.place, place]
  | count => apply Steps.of_count <;> simp [markFirstNext, Return.place, place]

lemma oweFirstNext_steps (d : DeferPlace) :
    Steps a s (.oweFirst d ret) (oweFirstNext s ret d).1 (oweFirstNext s ret d).2 := by
  rcases ret with _ | (_ | (_ | _)) | _ | _ <;> cases d with
  | load => cases h : s.state <;> apply Steps.of_same <;>
      simp [oweFirstNext, h, Return.place, place]
  | mark seen =>
    rw [oweFirstNext]
    obtain ⟨-, hs⟩ | ⟨-, hs⟩ := markReady_eq s seen <;> rw [hs]
    · apply Steps.of_ready <;> simp [Return.place, place]
    · apply Steps.of_same <;> simp [Return.place, place]
  | owe => cases h : s.enqueueOwed <;> apply Steps.of_owe <;>
      simp [oweFirstNext, h]
  | count => apply Steps.of_count <;> simp [oweFirstNext]

lemma sweepNext_steps [DecidableEq α] (cpus : List α) (w : SweepPlace α) :
    Steps a s (.sweep w) (sweepNext cpus s w).1 (sweepNext cpus s w).2 := by
  cases w with
  | owed => cases h : s.enqueueOwed <;> apply Steps.of_same <;> simp [sweepNext, h]
  | scan cs =>
    cases cs with
    | nil => apply Steps.of_same <;> simp [sweepNext]
    | cons c cs => cases h : s.current c <;> apply Steps.of_same <;> simp [sweepNext, h]
  | claimSlot => cases h : s.dispatchRef <;> apply Steps.of_same <;> simp [sweepNext, h]
  | take => cases h : s.enqueueOwed <;> apply Steps.of_take <;> simp [sweepNext, h]
  | count => apply Steps.of_count <;> simp [sweepNext]
  | readState => cases h : s.state <;> apply Steps.of_same <;> simp [sweepNext, h]
  | readOnRq => cases h : s.onRq <;> apply Steps.of_same <;> simp [sweepNext, h]
  | release => apply Steps.of_same <;> simp [sweepNext]

lemma enqueueNext_steps {e : EnqueuePlace α} (hlinked : s.Linked)
    (h : enqueueNext s ret e c = some (s', p')) :
    Steps a s (.enqueue e ret) s' p' := by
  cases e with
  | scan cs =>
    cases cs with
    | nil =>
      cases h
      cases ret <;> apply Steps.of_same <;> simp
    | cons b cs =>
      cases h
      cases hb : s.current b <;> cases ret <;> apply Steps.of_same <;> simp
  | bump =>
    cases h
    split <;> cases ret <;> apply Steps.of_same <;> simp
  | load =>
    cases h
    rcases ret with _ | (_ | (_ | _)) | _ | _ <;> cases hs : s.state <;> apply Steps.of_same <;>
      simp [hs, Return.place, place]
  | link =>
    cases c with
    | into q =>
      cases h
      rcases ret with _ | (_ | (_ | _)) | _ | _ <;> refine Steps.of_link ?_ ?_ ?_ ?_ ?_ hlinked <;>
        simp [Return.place, place]
    | _ => cases h

lemma Steps.of_current [DecidableEq α] {b : Bool}
    (hstray : p'.enqueues = true ∨ b = true) (hrouses : p.rouses = false)
    (hdrives : p'.drives = true) (honCpu : p'.onCpu = true → b = true)
    (hmarks : p'.marksLate = false) (huncounted : p'.uncounted = p.uncounted) :
    Steps a s p { s with current := Function.update s.current a b } p' where
  linked h := ⟨h.on, h.off⟩
  stray _ h := by
    rcases hstray with hp | rfl
    · exact .inl hp
    have hoff : Function.update s.current a true a = false := congrFun h.off a
    rw [Function.update_self] at hoff
    cases hoff
  overslept h := .inr ⟨⟨h.blocked, h.woken⟩, hrouses⟩
  running _ := .inl hdrives
  current _ hb := Function.update_of_ne hb _ _
  onCpu _ hp := by
    rw [honCpu hp]
    exact Function.update_self ..
  owed h _ := h
  marksLate _ h := nomatch hmarks.symm.trans h
  count := by rw [huncounted]

lemma dispatchNext_steps [DecidableEq α] {d : DispatchPlace α}
    (h : dispatchNext cpus a s d c = some (s', p')) : Steps a s (.dispatch d) s' p' := by
  cases d with
  | claimSlot =>
    cases hs : s.dispatchRef <;> rw [dispatchNext, hs] at h <;> cases h <;>
      apply Steps.of_same <;> simp
  | dropped | checkReady | recheck | readReady | readRunning =>
    cases hs : s.state <;>
      obtain ⟨rfl, rfl⟩ : _ = s' ∧ _ = p' := by simpa [dispatchNext, hs] using h
    all_goals apply Steps.of_same <;> simp [hs]
  | claim =>
    cases hs : s.state <;> rw [dispatchNext, hs] at h <;> cases h
    case ready.refl =>
      constructor
      case linked => exact fun h => ⟨h.on, h.off⟩
      case stray => exact fun _ h => nomatch h.ready
      case overslept => exact fun h => nomatch h.blocked
      all_goals simp
    all_goals apply Steps.of_same <;> simp [hs]
  | setCurrent | leave =>
    cases h
    apply Steps.of_current <;> simp
  | running | committed =>
    cases c <;> cases h
    all_goals apply Steps.of_same <;> simp
  | registered =>
    cases h
    constructor
    case linked => exact fun h => ⟨h.on, h.off⟩
    case stray => exact fun _ h => nomatch h.ready
    case overslept => exact fun h => nomatch h.woken
    all_goals simp
  | settle r =>
    rcases r with _ | (_ | _) <;> cases hs : s.state <;> rw [dispatchNext, hs] at h <;> cases h
    all_goals apply Steps.of_same <;> simp [hs, place]
  | settleTake r =>
    rcases r with _ | (_ | _) <;> cases hs : s.enqueueOwed <;> rw [dispatchNext, hs] at h <;>
      cases h
    all_goals apply Steps.of_take <;> simp [hs, place]
  | settleCount r =>
    cases h
    apply Steps.of_count <;> simp
  | clearTransition | yieldTransition | yieldToken | release =>
    cases h
    apply Steps.of_same <;> simp
  | takeToken =>
    cases hs : s.wakePending <;> rw [dispatchNext, hs] at h <;> cases h
    all_goals apply Steps.of_same <;> simp
  | promote | setReady =>
    cases h
    apply Steps.of_ready <;> simp
  | report cs =>
    cases cs with
    | nil =>
      cases h
      apply Steps.of_same <;> simp
    | cons b cs =>
      cases hs : s.current b <;> rw [dispatchNext, hs] at h <;> cases h
      all_goals apply Steps.of_same <;> simp

lemma idleNext_steps [DecidableEq Q] (h : idleNext s c = some (s', p')) :
    Steps a s .idle s' p' := by
  cases c with
  | wake =>
    cases h
    constructor
    case linked => exact fun h => ⟨h.on, h.off⟩
    case stray => exact fun _ h => .inr ⟨⟨h.ready, h.unqueued, h.unowed, h.off⟩, rfl⟩
    all_goals simp
  | pick q =>
    obtain ⟨hq, rfl, rfl⟩ : q ∈ s.queues ∧ _ = s' ∧ _ = p' := by simpa [idleNext] using h
    constructor
    case linked =>
      -- the queue it was picked from is the only one
      intro hs
      have hempty : s.queues.erase q = [] := by
        cases hrq : s.onRq with
        | true =>
          obtain ⟨q', hq'⟩ := hs.on hrq
          rw [hq', List.mem_singleton] at hq
          rw [hq', hq, List.erase_cons_head]
        | false =>
          rw [hs.off hrq] at hq
          cases hq
      exact ⟨nofun, fun _ => hempty⟩
    case overslept => exact fun h => .inr ⟨⟨h.blocked, h.woken⟩, rfl⟩
    all_goals simp
  | sweep others =>
    cases h
    split <;> apply Steps.of_same <;> simp
  | deferOther =>
    cases h
    apply Steps.of_same <;> simp
  | _ => cases h

lemma Steps.of_eq {r : Shared α Q × Place α} (h : Steps a s p r.1 r.2)
    (hr : some r = some (s', p')) : Steps a s p s' p' := by
  obtain rfl := Option.some.inj hr
  exact h

lemma next_steps [DecidableEq α] [DecidableEq Q] (hlinked : s.Linked)
    (h : next cpus a s p c = some (s', p')) : Steps a s p s' p' := by
  cases p with
  | idle => exact idleNext_steps h
  | wake w => exact (wakeNext_steps cpus w).of_eq h
  | enqueue e ret => exact enqueueNext_steps hlinked h
  | markFirst d ret => exact (markFirstNext_steps d).of_eq h
  | oweFirst d ret => exact (oweFirstNext_steps d).of_eq h
  | dispatch d => exact dispatchNext_steps h
  | sweep w => exact (sweepNext_steps cpus w).of_eq h

end Step

section Run

variable {α Q : Type*} {g g' : Machine α Q}

/-- No context is inside one of the paths: each is elsewhere, or executes the thread. -/
def Machine.Quiet (g : Machine α Q) : Prop :=
  ∀ a, g.place a = .idle ∨ g.place a = .dispatch .running

instance [Fintype α] [DecidableEq α] (g : Machine α Q) : Decidable g.Quiet :=
  inferInstanceAs (Decidable (∀ a, g.place a = .idle ∨ g.place a = .dispatch .running))

/-- Something will run the thread: a run queue, a CPU, or a debt that a sweep finds. -/
def Machine.Placed (g : Machine α Q) : Prop :=
  (∃ q, g.shared.queues = [q]) ∨ (∃ a, g.shared.current a = true) ∨
    g.shared.enqueueOwed = true ∧ g.shared.owedCount = 1

structure Machine.Upheld (g : Machine α Q) : Prop where
  one_queue : g.shared.queues.length ≤ 1
  roused : g.Quiet → g.shared.woken = true →
    g.shared.state = .ready ∨ ∃ a, g.shared.current a = true
  placed : g.Quiet → g.shared.state = .ready → g.Placed

/-- A debt is not taken while a context that has owed the enqueue has yet to mark the
thread. -/
def Machine.Careful (g : Machine α Q) (l : α × Choice Q) : Prop :=
  (g.place l.1).takes = true → ∀ b, (g.place b).marksLate = false

instance [Fintype α] (g : Machine α Q) (l : α × Choice Q) : Decidable (g.Careful l) :=
  inferInstanceAs (Decidable ((g.place l.1).takes = true → ∀ b, (g.place b).marksLate = false))

structure Machine.Inv [Fintype α] (g : Machine α Q) : Prop where
  linked : g.shared.Linked
  stray : g.shared.Stray → ∃ a, (g.place a).enqueues = true
  overslept : g.shared.Overslept → ∃ a, (g.place a).rouses = true
  running : g.shared.state = .running → ∃ a, (g.place a).drives = true
  onCpu : ∀ a, (g.place a).onCpu = true → g.shared.current a = true
  owed : ∀ a, (g.place a).marksLate = true → g.shared.enqueueOwed = true
  count : g.shared.owedCount + ∑ a, (g.place a).uncounted = g.shared.enqueueOwed.toNat

lemma Machine.Quiet.not_enqueues (h : g.Quiet) (a : α) : (g.place a).enqueues = false := by
  rcases h a with ha | ha <;> rw [ha] <;> rfl

lemma Machine.Quiet.not_rouses (h : g.Quiet) (a : α) : (g.place a).rouses = false := by
  rcases h a with ha | ha <;> rw [ha] <;> rfl

lemma Machine.Quiet.uncounted (h : g.Quiet) (a : α) : (g.place a).uncounted = 0 := by
  rcases h a with ha | ha <;> rw [ha] <;> rfl

variable [Fintype α]

lemma Machine.inv_boot (q : Q) : (boot q : Machine α Q).Inv where
  linked := ⟨fun _ => ⟨q, rfl⟩, nofun⟩
  stray h := nomatch h.unqueued
  overslept h := nomatch h.blocked
  running h := nomatch h
  onCpu _ h := nomatch h
  owed _ h := nomatch h
  count := by simp [boot]

lemma Machine.Inv.current_of_running (hg : g.Inv) (hq : g.Quiet) (h : g.shared.state = .running) :
    ∃ a, g.shared.current a = true := by
  obtain ⟨a, ha⟩ := hg.running h
  refine ⟨a, hg.onCpu a ?_⟩
  rcases hq a with hp | hp <;> rw [hp] at ha ⊢
  · cases ha
  · rfl

lemma Machine.Inv.upheld (hg : g.Inv) : g.Upheld where
  one_queue := by
    cases hrq : g.shared.onRq with
    | true =>
      obtain ⟨q, hq⟩ := hg.linked.on hrq
      simp [hq]
    | false => simp [hg.linked.off hrq]
  roused hq hwoken := by
    cases hs : g.shared.state with
    | ready => exact .inl rfl
    | running => exact .inr (hg.current_of_running hq hs)
    | blocked =>
      obtain ⟨a, ha⟩ := hg.overslept ⟨hs, hwoken⟩
      rw [hq.not_rouses a] at ha
      cases ha
  placed hq hready := by
    by_cases hcur : ∃ a, g.shared.current a = true
    · exact .inr (.inl hcur)
    cases hrq : g.shared.onRq with
    | true => exact .inl (hg.linked.on hrq)
    | false =>
      cases howed : g.shared.enqueueOwed with
      | true =>
        have hcount := hg.count
        simp only [hq.uncounted, Finset.sum_const_zero, howed] at hcount
        exact .inr (.inr ⟨howed, by simpa using hcount⟩)
      | false =>
        have hoff : g.shared.current = fun _ => false :=
          funext fun a => Bool.eq_false_iff.2 fun ha => hcur ⟨a, ha⟩
        obtain ⟨a, ha⟩ := hg.stray ⟨hready, hrq, howed, hoff⟩
        rw [hq.not_enqueues a] at ha
        cases ha

variable [DecidableEq α] [DecidableEq Q] {cpus : List α}

lemma Machine.step_inv (l : α × Choice Q) (hg : g.Inv) (hcare : g.Careful l)
    (h : (system cpus).step g l = some g') : g'.Inv := by
  obtain ⟨a, c⟩ := l
  obtain ⟨s', p', hnext, rfl⟩ := System.step_ok h
  have hstep := next_steps hg.linked hnext
  constructor
  · exact hstep.linked hg.linked
  · exact exists_bearer Shared.Stray Place.enqueues hg.stray (hstep.stray (hg.owed a))
  · exact exists_bearer Shared.Overslept Place.rouses hg.overslept hstep.overslept
  · exact exists_bearer (fun s : Shared α Q => s.state = .running) Place.drives hg.running
      hstep.running
  · refine forall_place (fun (s : Shared α Q) b (p : Place α) =>
      p.onCpu = true → s.current b = true)
      hg.onCpu (hstep.onCpu (hg.onCpu a)) fun b hb hcur hp => ?_
    rw [hstep.current b hb]
    exact hcur hp
  · refine forall_place (fun (s : Shared α Q) _ (p : Place α) =>
      p.marksLate = true → s.enqueueOwed = true) hg.owed (hstep.marksLate (hg.owed a))
      fun b _ howed hp => hstep.owed (howed hp) ?_
    -- the debt is only taken when no context is between the owe and the mark
    cases htakes : (g.place a).takes with
    | false => rfl
    | true => exact absurd hp (Bool.eq_false_iff.1 (hcare htakes b))
  have hcount := hg.count
  have := hstep.count
  rw [sum_place]
  simp only
  omega

/-- In every run in which no debt is taken between an owe and its mark, a woken thread is READY or
executing once every context has left the paths, a READY thread is placed, and never on two run
queues. -/
theorem never_stranded (cpus : List α) (q : Q) (ls : List (α × Choice Q)) (g : Machine α Q)
    (hcare : (system cpus).Allowed Machine.Careful (boot q) ls)
    (hrun : (system cpus).run (boot q) ls = some g) : g.Upheld :=
  (System.run_invariant (fun _ l _ hg hok h => step_inv l hg hok h) ls _ g
    (inv_boot q) hcare hrun).upheld

end Run

/-! ## A debt lost between the owe and the mark -/

abbrev Duo := Fin 2

lemma duo_neZero : NeZero 2 := ⟨by decide⟩

attribute [local instance] duo_neZero

def steps (a : Duo) (n : ℕ) : List (Duo × Choice ℕ) := List.replicate n (a, .go)

/-- A waker claims the token before the completion reads the state, so the completion links the
thread and it is dispatched again. The waker finds it current and owes the enqueue. -/
def deferredWake : List (Duo × Choice ℕ) :=
  List.replicate 3 (1, .deferOther) ++ (0, .pick 0) :: steps 0 4 ++ (0, .block) :: steps 0 6 ++
  (1, .wake) :: steps 1 5 ++ steps 0 8 ++ (0, .into 0) :: steps 0 1 ++ (0, .pick 0) :: steps 0 4 ++
  steps 1 4

def blockAndSweep : List (Duo × Choice ℕ) := (0, .block) :: steps 0 9 ++ (0, .sweep 0) :: steps 0 9

def markedInTime : List (Duo × Choice ℕ) :=
  deferredWake ++ steps 1 2 ++ blockAndSweep ++ (1, .wake) :: steps 1 9 ++ [(1, .into 1)]

theorem never_stranded_markedInTime :
    ∃ g : Machine Duo ℕ, (system [0, 1]).run (boot 0) markedInTime = some g ∧
      (system [0, 1]).Allowed Machine.Careful (boot 0) markedInTime ∧
      g.Quiet ∧ g.shared.woken = true ∧ g.shared.state = .ready ∧ g.Upheld := by
  have hcare : (system [0, 1]).Allowed Machine.Careful (boot 0) markedInTime := by
    decide +kernel
  have hrun : ∃ g : Machine Duo ℕ, (system [0, 1]).run (boot 0) markedInTime = some g ∧
      g.Quiet ∧ g.shared.woken = true ∧ g.shared.state = .ready := by
    decide +kernel
  obtain ⟨g, hg, hquiet, hwoken, hready⟩ := hrun
  exact ⟨g, hg, hcare, hquiet, hwoken, hready, never_stranded _ _ _ g hcare hg⟩

/-- The sweep takes the debt before the waker marks the thread, which has blocked again; the next
wake leaves it to whoever marked it. -/
def sweptTooEarly : List (Duo × Choice ℕ) :=
  deferredWake ++ blockAndSweep ++ steps 1 2 ++ (1, .wake) :: steps 1 4

theorem sweptTooEarly_strands :
    ∃ g : Machine Duo ℕ, (system [0, 1]).run (boot 0) sweptTooEarly = some g ∧
      g.Quiet ∧ g.shared.woken = true ∧ g.shared.state = .ready ∧ ¬ g.Placed ∧ ¬ g.Upheld := by
  have hrun : ∃ g : Machine Duo ℕ, (system [0, 1]).run (boot 0) sweptTooEarly = some g ∧
      g.Quiet ∧ g.shared.woken = true ∧ g.shared.state = .ready ∧ g.shared.queues = [] ∧
      (∀ a, g.shared.current a = false) ∧ g.shared.enqueueOwed = false := by
    decide +kernel
  obtain ⟨g, hg, hquiet, hwoken, hready, hqueues, hoff, howed⟩ := hrun
  have hlost : ¬ g.Placed := by
    rintro (⟨q, hq⟩ | ⟨a, ha⟩ | ⟨hdebt, -⟩)
    · cases hqueues.symm.trans hq
    · rw [hoff a] at ha
      cases ha
    · cases howed.symm.trans hdebt
  exact ⟨g, hg, hquiet, hwoken, hready, hlost, fun h => hlost (h.placed hquiet hready)⟩

end Sched
