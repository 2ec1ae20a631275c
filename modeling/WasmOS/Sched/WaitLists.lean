import Mathlib.Algebra.Order.Ring.Nat
import Mathlib.Data.Fintype.Card
import WasmOS.Intrusive.List

/-! # Event wait lists

`sched_event.c` over the thread table. As long as no thread is killed, reset or initialised again
while it is on a wait list, and no dead thread starts to wait, every wait list holds the threads
that are BLOCKED on its event.
-/

namespace Event

open Intrusive

/-- `thread_state_t`; a slot that is being claimed is NEW only under the table lock. -/
inductive ThreadState
  | unused
  | ready
  | running
  | blocked
  | zombie
  deriving DecidableEq, Repr

inductive Pend
  | none
  | ok
  | timeout
  | abort
  deriving DecidableEq, Repr

structure Thread (ε : Type*) where
  state : ThreadState
  ownerPid : ℕ
  waitEvent : Option ε
  timeoutTick : ℕ
  pendState : Pend
  pendData : ℕ
  /-- Whether a CPU executes the thread, and so holds its dispatch claim. -/
  executing : Bool

structure Machine (ε : Type*) (n : ℕ) where
  /-- The heads of the wait lists and the `event_node`s of the threads. -/
  links : Links (Node ε (Fin n))
  thread : Fin n → Thread ε
  /-- `g_sched_timeout_next`, where `none` is the largest tick. -/
  timeoutNext : Option ℕ

namespace Machine

variable {ε : Type*} {n : ℕ} (m : Machine ε n) (t : Fin n)

def setThread (f : Thread ε → Thread ε) : Machine ε n :=
  { m with thread := Function.update m.thread t (f (m.thread t)) }

def wakeThread : Machine ε n :=
  m.setThread t fun th => { th with state := if th.state = .blocked then .ready else th.state }

def timeoutArm (deadline : ℕ) : Machine ε n :=
  let tick := if deadline = 0 then 1 else deadline
  { m.setThread t fun th => { th with timeoutTick := tick } with
    timeoutNext :=
      match m.timeoutNext with
      | none => some tick
      | some next => some (min tick next) }

variable [DecidableEq ε] (e : ε)

/-- `sched_event_wait` by a thread, up to its switch off the CPU. -/
def eventWait (deadline : Option ℕ) : Machine ε n :=
  let m₁ := match deadline with
    | none => m
    | some d => m.timeoutArm t d
  let links := if m₁.links.isEmpty (.node t) then m₁.links else m₁.links.del (.node t)
  { m₁.setThread t fun th =>
      { th with
        waitEvent := some e, pendState := .none, pendData := 0, executing := false
        -- no edge leads out of ZOMBIE
        state := if th.state = .zombie then .zombie else .blocked } with
    links := links.addTail (.head e) (.node t) }

variable (data : ℕ) (pend : Pend)

def detachWake : Machine ε n :=
  let m₁ := { m with links := m.links.del (.node t) }
  let m₂ := m₁.setThread t fun th =>
    { th with waitEvent := none, timeoutTick := 0, pendState := pend, pendData := data }
  m₂.wakeThread t

/-- `sched_event_wake_one`; none if the list does not lead to a thread. -/
def eventWakeOne :
    Option (Option (Fin n) × Machine ε n) :=
  if m.links.isEmpty (.head e) then some (none, m)
  else
    match m.links.next (.head e) with
    | .node t => some (some t, m.detachWake t data pend)
    | .head _ => none

/-- The loop of `sched_event_wake_all`; none if it runs out of steps or off the threads. -/
def wakeAllLoop (e : ε) (data : ℕ) (pend : Pend) :
    (fuel : ℕ) → Machine ε n → (pos tmp : Node ε (Fin n)) → ℕ → Option (ℕ × Machine ε n)
  | 0, _, _, _, _ => none
  | fuel + 1, m, pos, tmp, woken =>
    if pos = .head e then some (woken, m)
    else
      match pos with
      | .node t =>
        let m' := m.detachWake t data pend
        wakeAllLoop e data pend fuel m' tmp (m'.links.next tmp) (woken + 1)
      | .head _ => none

def eventWakeAll : Option (ℕ × Machine ε n) :=
  let pos := m.links.next (.head e)
  wakeAllLoop e data pend (n + 1) m pos (m.links.next pos) 0

def eventAbortAll : Option (ℕ × Machine ε n) := m.eventWakeAll e 0 .abort

def timeoutFire : Machine ε n :=
  match (m.thread t).waitEvent with
  | none => m
  | some _ =>
    if m.links.isEmpty (.node t) then m
    else
      let m₁ := { m with links := m.links.del (.node t) }
      (m₁.setThread t fun th =>
        { th with waitEvent := none, pendState := .timeout }).wakeThread t

def timeoutStep (now : ℕ) (r : Machine ε n × Option ℕ) (t : Fin n) : Machine ε n × Option ℕ :=
  let (m, next) := r
  let d := (m.thread t).timeoutTick
  if d = 0 then r
  else if (m.thread t).state ≠ .blocked then
    (m.setThread t fun th => { th with timeoutTick := 0 }, next)
  else if d ≤ now then
    ((m.setThread t fun th => { th with timeoutTick := 0 }).timeoutFire t, next)
  else (m, match next with
    | none => some d
    | some k => some (min d k))

def timeoutCheck (now : ℕ) : Machine ε n :=
  if m.timeoutNext.elim true (now < ·) then m
  else
    let r := (List.finRange n).foldl (timeoutStep now) (m, none)
    { r.1 with timeoutNext := r.2 }

def markOwnerExited (pid : ℕ) : Machine ε n :=
  if pid = 0 then m
  else
    { m with
      thread := fun t =>
        let th := m.thread t
        if th.state ≠ .unused ∧ th.ownerPid = pid then { th with state := .zombie } else th }

/-- `thread_reset_slot`: refused while a CPU holds the slot. -/
def resetSlot : Machine ε n :=
  if (m.thread t).executing ∨ (m.thread t).state = .running then m
  else m.setThread t fun th => { th with state := .unused, ownerPid := 0, timeoutTick := 0 }

/-- `thread_spawn_in_owner`, READY or BLOCKED in the first free slot. -/
def spawnInOwner (pid : ℕ) (ready : Bool) : Machine ε n :=
  if pid = 0 then m
  else
    match (List.finRange n).find? fun t => (m.thread t).state = .unused with
    | none => m
    | some t =>
      m.setThread t fun th =>
        { th with state := if ready then .ready else .blocked, ownerPid := pid }

def threadInit : Machine ε n :=
  { m.setThread t fun th => { th with waitEvent := none, pendState := .none, pendData := 0 } with
    links := m.links.init (.node t) }

def dispatch : Machine ε n :=
  m.setThread t fun th => { th with state := .running, executing := true, timeoutTick := 0 }

/-- The end of a dispatch whose thread yields; a thread whose owner is gone is dropped. -/
def leave (ownerGone : Bool) : Machine ε n :=
  if ownerGone then m.setThread t fun th => { th with executing := false }
  else
    let m₁ := if (m.thread t).waitEvent = none then m
      else
        { m.setThread t fun th => { th with waitEvent := none } with
          links := if m.links.isEmpty (.node t) then m.links else m.links.del (.node t) }
    m₁.setThread t fun th =>
      { th with state := if th.state = .zombie then .zombie else .ready, executing := false }

def threadExit : Machine ε n :=
  m.setThread t fun th => { th with state := .zombie, executing := false }

def park : Machine ε n := m.setThread t fun th =>
    { th with state := if th.state = .zombie then .zombie else .blocked, executing := false }

end Machine

inductive Call (ε : Type*) (n : ℕ)
  | wait (t : Fin n) (e : ε) (deadline : Option ℕ)
  | wakeOne (e : ε) (data : ℕ) (pend : Pend)
  | wakeAll (e : ε) (data : ℕ) (pend : Pend)
  | abortAll (e : ε)
  | timeoutCheck (now : ℕ)
  | kill (pid : ℕ)
  | reset (t : Fin n)
  | spawn (pid : ℕ) (ready : Bool)
  | init (t : Fin n)
  | dispatch (t : Fin n)
  | leave (t : Fin n) (ownerGone : Bool)
  | exit (t : Fin n)
  | park (t : Fin n)
  | unpark (t : Fin n)

variable {ε : Type*} {n : ℕ}

/-- Only a thread that is executed waits, parks or leaves, only a READY thread that no CPU executes
is dispatched, and only a thread that is parked off the events is unparked by itself. -/
def Call.Legal (m : Machine ε n) : Call ε n → Prop
  | .wait t _ _ | .leave t _ | .exit t | .park t =>
    (m.thread t).executing = true ∧ (m.thread t).state ≠ .unused
  | .dispatch t => (m.thread t).state = .ready ∧ (m.thread t).executing = false
  | .unpark t => (m.thread t).waitEvent = none
  | _ => True

instance [DecidableEq ε] (m : Machine ε n) (c : Call ε n) : Decidable (c.Legal m) := by
  cases c <;> unfold Call.Legal <;> infer_instance

variable [DecidableEq ε]

def Machine.exec (m : Machine ε n) : Call ε n → Option (Option (Fin n) × Machine ε n)
  | .wait t e deadline => some (none, m.eventWait t e deadline)
  | .wakeOne e data pend => m.eventWakeOne e data pend
  | .wakeAll e data pend => (m.eventWakeAll e data pend).map fun r => (none, r.2)
  | .abortAll e => (m.eventAbortAll e).map fun r => (none, r.2)
  | .timeoutCheck now => some (none, m.timeoutCheck now)
  | .kill pid => some (none, m.markOwnerExited pid)
  | .reset t => some (none, m.resetSlot t)
  | .spawn pid ready => some (none, m.spawnInOwner pid ready)
  | .init t => some (none, m.threadInit t)
  | .dispatch t => some (none, m.dispatch t)
  | .leave t gone => some (none, m.leave t gone)
  | .exit t => some (none, m.threadExit t)
  | .park t => some (none, m.park t)
  | .unpark t => some (none, m.wakeThread t)

def Machine.run : Machine ε n → List (Call ε n) → Option (Machine ε n)
  | m, [] => some m
  | m, c :: cs => (m.exec c).bind fun r => run r.2 cs

/-- All slots are free and all lists empty. -/
def Machine.boot : Machine ε n where
  links := ⟨id, id⟩
  thread := fun _ => ⟨.unused, 0, none, 0, .none, 0, false⟩
  timeoutNext := none

open Intrusive List Function Machine

variable {ε : Type*} {n : ℕ} {m m' : Machine ε n} {q : ε → List (Fin n)} {e : ε} {t : Fin n}

def Machine.Holds (m : Machine ε n) (e : ε) (ts : List (Fin n)) : Prop :=
  Ring m.links (.head e) (ts.map .node)

def Machine.Waits (m : Machine ε n) (t : Fin n) (e : ε) : Prop :=
  (m.thread t).state = .blocked ∧ (m.thread t).waitEvent = some e

instance [DecidableEq ε] (m : Machine ε n) (e : ε) (ts : List (Fin n)) : Decidable (m.Holds e ts) :=
  instDecidablePath ..

instance [DecidableEq ε] (m : Machine ε n) (t : Fin n) (e : ε) : Decidable (m.Waits t e) :=
  inferInstanceAs (Decidable (_ ∧ _))

structure Machine.Lists (m : Machine ε n) (q : ε → List (Fin n)) : Prop where
  family : Family m.links q
  waits : ∀ e t, t ∈ q e ↔ (m.thread t).waitEvent = some e
  blocked : ∀ e t, t ∈ q e → (m.thread t).state = .blocked ∧ (m.thread t).executing = false

def Machine.Inv (m : Machine ε n) : Prop := ∃ q, m.Lists q

namespace Machine.Lists

section

variable (h : m.Lists q)
include h

lemma off_of_waitEvent (ht : (m.thread t).waitEvent = none) (e : ε) : t ∉ q e := by
  rw [h.waits, ht]
  simp

lemma off_of_state (ht : (m.thread t).state ≠ .blocked) (e : ε) : t ∉ q e :=
  fun hmem => ht (h.blocked e t hmem).1

lemma off_of_executing (ht : (m.thread t).executing = true) (e : ε) : t ∉ q e := by
  intro hmem
  cases (h.blocked e t hmem).2.symm.trans ht

lemma waitEvent_of_off (ht : ∀ e, t ∉ q e) : (m.thread t).waitEvent = none :=
  Option.eq_none_iff_forall_ne_some.2 fun e hw => ht e ((h.waits e t).2 hw)

lemma of_threads (hlinks : m'.links = m.links)
    (hon : ∀ e t, t ∈ q e → (m'.thread t).waitEvent = (m.thread t).waitEvent ∧
      (m'.thread t).state = (m.thread t).state ∧ (m'.thread t).executing = (m.thread t).executing)
    (hoff : ∀ t, (∀ e, t ∉ q e) → (m'.thread t).waitEvent = none) : m'.Lists q where
  family := hlinks ▸ h.family
  waits e t := by
    by_cases hmem : ∃ e', t ∈ q e'
    · obtain ⟨e', hmem⟩ := hmem
      rw [(hon e' t hmem).1, h.waits]
    · rw [not_exists] at hmem
      simp [hmem e, hoff t hmem]
  blocked e t hmem := by
    obtain ⟨-, hstate, hexec⟩ := hon e t hmem
    rw [hstate, hexec]
    exact h.blocked e t hmem

end

variable {f : Thread ε → Thread ε}

lemma setThread_off (h : m.Lists q) (ht : ∀ e, t ∉ q e)
    (hf : (f (m.thread t)).waitEvent = none) : (m.setThread t f).Lists q := by
  refine h.of_threads rfl (fun e t' hmem => ?_) fun t' hoff => ?_
  · have hne : t' ≠ t := fun heq => ht e (heq ▸ hmem)
    simp [setThread, hne]
  by_cases heq : t' = t
  · subst heq
    simpa [setThread] using hf
  · simpa [setThread, heq] using h.waitEvent_of_off hoff

variable [DecidableEq ε]

lemma off_of_isEmpty (h : m.Lists q) (ht : m.links.isEmpty (.node t) = true) (e : ε) :
    t ∉ q e := (h.family.isEmpty_node t).1 ht e

lemma unlink (h : m.Lists q) (ht : t ∈ q e) (hf : (f (m.thread t)).waitEvent = none) :
    ({ m with links := m.links.del (.node t) } : Machine ε n).setThread t f |>.Lists
      (update q e ((q e).erase t)) where
  family := h.family.del ht
  waits e' t' := by
    rw [h.family.mem_update_erase ht, h.waits]
    by_cases heq : t' = t
    · subst heq
      simp [setThread, hf]
    · simp [setThread, heq]
  blocked e' t' hmem := by
    obtain ⟨hmem, hne⟩ := (h.family.mem_update_erase ht).1 hmem
    simpa [setThread, hne] using h.blocked e' t' hmem

lemma eventWait (h : m.Lists q) (hexec : (m.thread t).executing = true)
    (hlive : (m.thread t).state ≠ .zombie) (deadline : Option ℕ) :
    (m.eventWait t e deadline).Lists (update q e (q e ++ [t])) := by
  have hoff := h.off_of_executing hexec
  have hempty := (h.family.isEmpty_node t).2 hoff
  refine ⟨?_, fun e' t' => ?_, fun e' t' hmem => ?_⟩
  · cases deadline <;>
      simpa [Machine.eventWait, Machine.timeoutArm, Machine.setThread, hempty] using
        h.family.addTail hoff
  · rw [Family.mem_update_append, h.waits]
    by_cases heq : t' = t
    · subst heq
      have hnone := h.waitEvent_of_off hoff
      cases deadline <;>
        simp [Machine.eventWait, Machine.timeoutArm, Machine.setThread, hnone, eq_comm (a := e)]
    · cases deadline <;>
        simp [Machine.eventWait, Machine.timeoutArm, Machine.setThread, heq]
  rcases Family.mem_update_append.1 hmem with hmem | ⟨-, rfl⟩
  · have hne : t' ≠ t := fun heq => hoff e' (heq ▸ hmem)
    cases deadline <;>
      simpa [Machine.eventWait, Machine.timeoutArm, Machine.setThread, hne] using
        h.blocked e' t' hmem
  · cases deadline <;>
      simp [Machine.eventWait, Machine.timeoutArm, Machine.setThread, hlive]

omit [DecidableEq ε] in
lemma wakeThread (h : m.Lists q) (ht : ∀ e, t ∉ q e) : (m.wakeThread t).Lists q :=
  h.setThread_off ht (h.waitEvent_of_off ht)

lemma detachWake (h : m.Lists q) (ht : t ∈ q e) (data : ℕ) (pend : Pend) :
    (m.detachWake t data pend).Lists (update q e ((q e).erase t)) := by
  refine (h.unlink ht rfl).wakeThread fun e' hmem => ?_
  exact ((h.family.mem_update_erase ht).1 hmem).2 rfl

lemma timeoutFire (h : m.Lists q) (t : Fin n) : (m.timeoutFire t).Inv := by
  cases hw : (m.thread t).waitEvent with
  | none => exact ⟨q, by simpa [Machine.timeoutFire, hw] using h⟩
  | some e =>
    have hmem := (h.waits e t).2 hw
    have hempty : m.links.isEmpty (.node t) = false := by
      rw [Bool.eq_false_iff]
      exact fun hempty => h.off_of_isEmpty hempty e hmem
    refine ⟨update q e ((q e).erase t), ?_⟩
    simp only [Machine.timeoutFire, hw, hempty, Bool.false_eq_true, if_false]
    refine (h.unlink hmem rfl).wakeThread fun e' hmem' => ?_
    exact ((h.family.mem_update_erase hmem).1 hmem').2 rfl

omit [DecidableEq ε] in
lemma clearTick (h : m.Lists q) (t : Fin n) :
    (m.setThread t fun th => { th with timeoutTick := 0 }).Lists q := by
  refine h.of_threads rfl (fun e t' _ => ?_) fun t' hoff => ?_
  · by_cases heq : t' = t
    · subst heq
      simp [setThread]
    · simp [setThread, heq]
  have hnone := h.waitEvent_of_off hoff
  by_cases heq : t' = t
  · subst heq
    simpa [setThread] using hnone
  · simpa [setThread, heq] using hnone

lemma timeoutStep (h : m.Lists q) (now : ℕ) (next : Option ℕ) (t : Fin n) :
    (Machine.timeoutStep now (m, next) t).1.Inv := by
  unfold Machine.timeoutStep
  simp only
  split_ifs
  · exact ⟨q, h⟩
  · exact ⟨q, h.clearTick t⟩
  · exact (h.clearTick t).timeoutFire t
  · exact ⟨q, h⟩

end Machine.Lists

lemma Machine.Inv.foldl_timeoutStep [DecidableEq ε] (now : ℕ) (ts : List (Fin n))
    (r : Machine ε n × Option ℕ) (h : r.1.Inv) : (ts.foldl (timeoutStep now) r).1.Inv := by
  induction ts generalizing r with
  | nil => exact h
  | cons t ts ih =>
    obtain ⟨q, h⟩ := h
    exact ih _ (h.timeoutStep now r.2 t)

lemma Machine.Inv.timeoutCheck [DecidableEq ε] (h : m.Inv) (now : ℕ) :
    (m.timeoutCheck now).Inv := by
  unfold Machine.timeoutCheck
  split
  · exact h
  · obtain ⟨q, hfold⟩ := foldl_timeoutStep now (List.finRange n) (m, none) h
    exact ⟨q, hfold.family, hfold.waits, hfold.blocked⟩

section Wake

variable [DecidableEq ε]

lemma Machine.Lists.wakeAllLoop (h : m.Lists q) (e : ε) (data : ℕ) (pend : Pend)
    {ts : List (Fin n)} (hq : q e = ts) (fuel woken : ℕ) (hfuel : ts.length < fuel) :
    ∃ m', wakeAllLoop e data pend fuel m (m.links.next (.head e))
        (m.links.next (m.links.next (.head e))) woken = some (woken + ts.length, m') ∧
      m'.Lists (update q e []) := by
  induction ts generalizing m q fuel woken with
  | nil =>
    obtain ⟨fuel, rfl⟩ := Nat.exists_eq_add_one.2 hfuel
    have hhead : m.links.next (.head e) = .head e := by
      simpa [Links.isEmpty] using (h.family.isEmpty_head e).2 hq
    refine ⟨m, by simp [wakeAllLoop, hhead], ?_⟩
    rwa [← hq, update_eq_self]
  | cons t ts ih =>
    obtain ⟨fuel, rfl⟩ := Nat.exists_eq_add_one.2 (Nat.zero_lt_of_lt hfuel)
    have hhead : m.links.next (.head e) = .node t := h.family.next_head hq
    have hdet := h.detachWake (hq ▸ mem_cons_self : t ∈ q e) data pend
    rw [hq, erase_cons_head] at hdet
    have hnext : (m.detachWake t data pend).links.next (.head e) = m.links.next (.node t) :=
      h.family.next_del hq
    obtain ⟨m', hm', hl⟩ := ih hdet (update_self ..) fuel (woken + 1) (Nat.lt_of_succ_lt_succ hfuel)
    refine ⟨m', ?_, by rwa [update_idem] at hl⟩
    rw [hnext] at hm'
    rw [hhead, wakeAllLoop, if_neg (by simp)]
    simp only [hm', length_cons, Nat.add_assoc, Nat.add_comm 1]

omit [DecidableEq ε] in
lemma Machine.Lists.length_le (h : m.Lists q) (e : ε) : (q e).length ≤ n := by
  simpa using List.Nodup.length_le_card (h.family.nodup e)

lemma Machine.Lists.eventWakeAll (h : m.Lists q) (e : ε) (data : ℕ) (pend : Pend) :
    ∃ m', m.eventWakeAll e data pend = some ((q e).length, m') ∧ m'.Lists (update q e []) := by
  obtain ⟨m', hm', hl⟩ := h.wakeAllLoop e data pend rfl (n + 1) 0
    (Nat.lt_succ_of_le (h.length_le e))
  exact ⟨m', by simpa [Machine.eventWakeAll] using hm', hl⟩

lemma Machine.Lists.eventWakeOne (h : m.Lists q) (e : ε) (data : ℕ) (pend : Pend) :
    (q e = [] ∧ m.eventWakeOne e data pend = some (none, m)) ∨ ∃ t ts, q e = t :: ts ∧
        m.eventWakeOne e data pend = some (some t, m.detachWake t data pend) := by
  cases hq : q e with
  | nil =>
    have hempty := (h.family.isEmpty_head e).2 hq
    exact .inl ⟨rfl, by simp [Machine.eventWakeOne, hempty]⟩
  | cons t ts =>
    have hempty : m.links.isEmpty (.head e) = false := by
      rw [Bool.eq_false_iff, Ne, h.family.isEmpty_head, hq]
      simp
    exact .inr ⟨t, ts, rfl, by simp [Machine.eventWakeOne, hempty, h.family.next_head hq]⟩

end Wake

/-- A kill, a reset and an initialisation find the node on no list, and a dead thread does not start
to wait. -/
def Call.Careful [DecidableEq ε] (m : Machine ε n) : Call ε n → Prop
  | .wait t _ _ => (m.thread t).state ≠ .zombie
  | .kill pid => ∀ t, (m.thread t).state ≠ .unused → (m.thread t).ownerPid = pid →
      m.links.isEmpty (.node t) = true
  | .reset t | .init t => m.links.isEmpty (.node t) = true
  | _ => True

instance [DecidableEq ε] (m : Machine ε n) : (c : Call ε n) → Decidable (c.Careful m)
  | .wait t _ _ => inferInstanceAs (Decidable ((m.thread t).state ≠ .zombie))
  | .kill pid => inferInstanceAs (Decidable (∀ t, (m.thread t).state ≠ .unused →
      (m.thread t).ownerPid = pid → m.links.isEmpty (.node t) = true))
  | .reset t | .init t => inferInstanceAs (Decidable (m.links.isEmpty (.node t) = true))
  | .wakeOne .. | .wakeAll .. | .abortAll _ | .timeoutCheck _ | .spawn .. | .dispatch _
  | .leave .. | .exit _ | .park _ | .unpark _ => .isTrue trivial

variable [DecidableEq ε]

def Machine.LegalRun : Machine ε n → List (Call ε n) → Prop
  | _, [] => True
  | m, c :: cs => c.Legal m ∧ match m.exec c with
    | none => True
    | some r => LegalRun r.2 cs

def Machine.CarefulRun : Machine ε n → List (Call ε n) → Prop
  | _, [] => True
  | m, c :: cs => (c.Legal m ∧ c.Careful m) ∧ match m.exec c with
    | none => True
    | some r => CarefulRun r.2 cs

instance Machine.decidableLegalRun : (m : Machine ε n) → (cs : List (Call ε n)) →
    Decidable (m.LegalRun cs)
  | _, [] => .isTrue trivial
  | m, c :: cs =>
    haveI : Decidable (match m.exec c with
        | none => True
        | some r => LegalRun r.2 cs) :=
      match m.exec c with
      | none => .isTrue trivial
      | some r => decidableLegalRun r.2 cs
    inferInstanceAs (Decidable (_ ∧ _))

instance Machine.decidableCarefulRun : (m : Machine ε n) → (cs : List (Call ε n)) →
    Decidable (m.CarefulRun cs)
  | _, [] => .isTrue trivial
  | m, c :: cs =>
    haveI : Decidable (match m.exec c with
        | none => True
        | some r => CarefulRun r.2 cs) :=
      match m.exec c with
      | none => .isTrue trivial
      | some r => decidableCarefulRun r.2 cs
    inferInstanceAs (Decidable (_ ∧ _))

lemma Machine.Lists.markOwnerExited (h : m.Lists q) {pid : ℕ}
    (hcare : (Call.kill pid).Careful m) : (m.markOwnerExited pid).Lists q := by
  unfold Machine.markOwnerExited
  split
  · exact h
  refine h.of_threads rfl (fun e t hmem => ?_) fun t hoff => ?_
  · have hkeep : ¬ ((m.thread t).state ≠ .unused ∧ (m.thread t).ownerPid = pid) :=
      fun ⟨hused, howner⟩ => h.off_of_isEmpty (hcare t hused howner) e hmem
    simp [if_neg hkeep]
  have hnone := h.waitEvent_of_off hoff
  dsimp only
  split <;> exact hnone

lemma Machine.Lists.resetSlot (h : m.Lists q) (ht : m.links.isEmpty (.node t) = true) :
    (m.resetSlot t).Lists q := by
  unfold Machine.resetSlot
  split
  · exact h
  · exact h.setThread_off (h.off_of_isEmpty ht) (h.waitEvent_of_off (h.off_of_isEmpty ht))

omit [DecidableEq ε] in
lemma Machine.Lists.spawnInOwner (h : m.Lists q) (pid : ℕ) (ready : Bool) :
    (m.spawnInOwner pid ready).Lists q := by
  unfold Machine.spawnInOwner
  split
  · exact h
  split
  · exact h
  next t hfind =>
    have hunused : (m.thread t).state = .unused := by simpa using find?_some hfind
    have hoff := h.off_of_state (t := t) (by simp [hunused])
    exact h.setThread_off hoff (h.waitEvent_of_off hoff)

lemma Machine.Lists.threadInit (h : m.Lists q) (ht : m.links.isEmpty (.node t) = true) :
    (m.threadInit t).Lists q := by
  have hoff := h.off_of_isEmpty ht
  have hset := h.setThread_off hoff
    (f := fun th => { th with waitEvent := none, pendState := .none, pendData := 0 }) rfl
  exact ⟨h.family.init hoff, hset.waits, hset.blocked⟩

lemma Machine.Lists.leave (h : m.Lists q) (ht : (m.thread t).executing = true)
    (ownerGone : Bool) : (m.leave t ownerGone).Lists q := by
  have hoff := h.off_of_executing ht
  have hnone := h.waitEvent_of_off hoff
  cases ownerGone with
  | true =>
    rw [Machine.leave, if_pos rfl]
    exact h.setThread_off hoff hnone
  | false =>
    rw [Machine.leave, if_neg Bool.false_ne_true]
    simp only [if_pos hnone]
    exact h.setThread_off hoff hnone

lemma Machine.Inv.exec {c : Call ε n} (h : m.Inv) (hlegal : c.Legal m) (hcare : c.Careful m) :
    ∃ r m', m.exec c = some (r, m') ∧ m'.Inv := by
  obtain ⟨q, hq⟩ := h
  cases c with
  | wait t e deadline => exact ⟨_, _, rfl, _, hq.eventWait hlegal.1 hcare deadline⟩
  | wakeOne e data pend =>
    rcases hq.eventWakeOne e data pend with ⟨-, hwake⟩ | ⟨t, ts, hts, hwake⟩
    · exact ⟨_, _, hwake, q, hq⟩
    · exact ⟨_, _, hwake, _, hq.detachWake (hts ▸ mem_cons_self) data pend⟩
  | wakeAll e data pend =>
    obtain ⟨m', hwake, hl⟩ := hq.eventWakeAll e data pend
    exact ⟨_, m', by simp [Machine.exec, hwake]; rfl, _, hl⟩
  | abortAll e =>
    obtain ⟨m', hwake, hl⟩ := hq.eventWakeAll e 0 .abort
    exact ⟨_, m', by simp [Machine.exec, Machine.eventAbortAll, hwake]; rfl, _, hl⟩
  | timeoutCheck now => exact ⟨_, _, rfl, Machine.Inv.timeoutCheck ⟨q, hq⟩ now⟩
  | kill pid => exact ⟨_, _, rfl, q, hq.markOwnerExited hcare⟩
  | reset t => exact ⟨_, _, rfl, q, hq.resetSlot hcare⟩
  | spawn pid ready => exact ⟨_, _, rfl, q, hq.spawnInOwner pid ready⟩
  | init t => exact ⟨_, _, rfl, q, hq.threadInit hcare⟩
  | dispatch t =>
    have hoff := hq.off_of_state (t := t) (by simp [hlegal.1])
    exact ⟨_, _, rfl, q, hq.setThread_off hoff (hq.waitEvent_of_off hoff)⟩
  | leave t ownerGone => exact ⟨_, _, rfl, q, hq.leave hlegal.1 ownerGone⟩
  | exit t | park t =>
    have hoff := hq.off_of_executing hlegal.1
    exact ⟨_, _, rfl, q, hq.setThread_off hoff (hq.waitEvent_of_off hoff)⟩
  | unpark t => exact ⟨_, _, rfl, q, hq.wakeThread (hq.off_of_waitEvent hlegal)⟩

omit [DecidableEq ε] in
lemma Machine.inv_boot : (boot : Machine ε n).Inv := by
  refine ⟨fun _ => [], ⟨fun e => ⟨rfl, rfl⟩, fun t _ => ⟨rfl, rfl⟩, fun e => .nil, ?_⟩, ?_, ?_⟩ <;>
    simp [boot]

lemma Machine.Inv.run {cs : List (Call ε n)} (h : m.Inv) (hrun : m.CarefulRun cs) :
    ∃ m', m.run cs = some m' ∧ m'.Inv := by
  induction cs generalizing m with
  | nil => exact ⟨m, rfl, h⟩
  | cons c cs ih =>
    obtain ⟨⟨hlegal, hcare⟩, hrest⟩ := hrun
    obtain ⟨r, m₁, hexec, h₁⟩ := h.exec hlegal hcare
    rw [hexec] at hrest
    obtain ⟨m', hm', h'⟩ := ih h₁ hrest
    exact ⟨m', by simp [run, hexec, hm'], h'⟩

structure Machine.Sound (m : Machine ε n) : Prop where
  held : ∀ e, ∃ ts, m.Holds e ts ∧ ts.Nodup
  live : ∀ e ts t, m.Holds e ts → (t ∈ ts ↔ m.Waits t e)
  single : ∀ e e' ts ts' t, m.Holds e ts → m.Holds e' ts' → t ∈ ts → t ∈ ts' → e = e'
  /-- A wake-up goes to a live waiter, and to none only if there is none. -/
  wakes : ∀ e data pend, ∃ r m', m.exec (.wakeOne e data pend) = some (r, m') ∧ match r with
    | none => ∀ t, ¬ m.Waits t e
    | some t => m.Waits t e ∧ (m'.thread t).state = .ready

omit [DecidableEq ε] in
lemma Machine.Lists.holds_iff (h : m.Lists q) {ts : List (Fin n)} : m.Holds e ts ↔ ts = q e := by
  constructor
  · intro hts
    have hmap := Path.unique hts (h.family.ring e) (by simp) (by simp)
    exact map_injective_iff.2 (fun _ _ heq => by cases heq; rfl) hmap
  · rintro rfl
    exact h.family.ring e

omit [DecidableEq ε] in
lemma Machine.Lists.mem_iff_waits (h : m.Lists q) : t ∈ q e ↔ m.Waits t e :=
  ⟨fun hmem => ⟨(h.blocked e t hmem).1, (h.waits e t).1 hmem⟩, fun hw => (h.waits e t).2 hw.2⟩

lemma Machine.detachWake_state (data : ℕ) (pend : Pend) (ht : (m.thread t).state = .blocked) :
    ((m.detachWake t data pend).thread t).state = .ready := by
  simp [detachWake, wakeThread, setThread, ht]

lemma Machine.Inv.sound (h : m.Inv) : m.Sound := by
  obtain ⟨q, hq⟩ := h
  refine ⟨fun e => ⟨q e, hq.holds_iff.2 rfl, hq.family.nodup e⟩, fun e ts t hts => ?_,
    fun e e' ts ts' t hts hts' ht ht' => ?_, fun e data pend => ?_⟩
  · rw [hq.holds_iff.1 hts]
    exact hq.mem_iff_waits
  · rw [hq.holds_iff] at hts hts'
    exact hq.family.single e e' t (hts ▸ ht) (hts' ▸ ht')
  rcases hq.eventWakeOne e data pend with ⟨hnil, hwake⟩ | ⟨t, ts, hts, hwake⟩
  · refine ⟨none, m, hwake, fun t hw => ?_⟩
    rw [← hq.mem_iff_waits, hnil] at hw
    cases hw
  · have hw : m.Waits t e := hq.mem_iff_waits.1 (hts ▸ .head _)
    exact ⟨some t, _, hwake, hw, detachWake_state data pend hw.1⟩

/-- In every careful run from boot the calls return, the wait lists hold exactly the live waiters,
and every wake-up reaches one. -/
theorem wait_lists_live (cs : List (Call ε n)) (hrun : (boot : Machine ε n).CarefulRun cs) :
    ∃ m, boot.run cs = some m ∧ m.Sound := by
  obtain ⟨m, hm, hinv⟩ := inv_boot.run hrun
  exact ⟨m, hm, hinv.sound⟩

def twoWaiters : List (Call Unit 2) :=
  [.spawn 1 true, .init 0, .spawn 2 true, .init 1,
    .dispatch 0, .wait 0 () none, .dispatch 1, .wait 1 () (some 5)]

theorem wait_lists_live_twoWaiters : (boot : Machine Unit 2).CarefulRun
        (twoWaiters ++ [.timeoutCheck 3, .wakeAll () 7 .ok, .kill 1, .reset 0]) ∧
      ∃ m, boot.run (twoWaiters ++ [.timeoutCheck 3, .wakeAll () 7 .ok, .kill 1, .reset 0]) =
        some m ∧ m.Sound := ⟨by decide +kernel, wait_lists_live _ (by decide +kernel)⟩

/-- A process is killed while its thread waits. The next wake-up is spent on the dead thread. Once
the slot is used again, its node leads to itself, and `wake_all` does not come back to the head. -/
theorem killedWaiter_takes_wake : (boot : Machine Unit 2).LegalRun
        (twoWaiters ++ [.kill 1, .reset 0, .spawn 3 true, .init 0]) ∧
      (∃ m, boot.run (twoWaiters ++ [.kill 1]) = some m ∧
        m.Holds () [0, 1] ∧ (m.thread 0).state = .zombie ∧ m.Waits 1 () ∧
        ∃ r, m.exec (.wakeOne () 7 .ok) = some r ∧ r.1 = some 0 ∧
          (r.2.thread 0).state = .zombie ∧ r.2.Waits 1 ()) ∧
      ∃ m, boot.run (twoWaiters ++ [.kill 1, .reset 0, .spawn 3 true, .init 0]) = some m ∧
        m.Waits 1 () ∧ (m.thread 0).state = .ready ∧ m.exec (.wakeAll () 7 .ok) = none ∧
        ∃ r, m.exec (.wakeOne () 7 .ok) = some r ∧ r.1 = some 0 ∧ r.2.Waits 1 () ∧
          r.2.links.next (.head ()) = .node 0 := by
  refine ⟨by decide +kernel, by decide +kernel, ?_⟩
  decide +kernel

end Event
