import Mathlib.Data.UInt
import Mathlib.Tactic.Cases

/-! # Kernel mutexes and semaphores

Both sit on a `sched_event_t` whose lock guards their state and their wait list, so a call is a row
of sections under that lock. A turn that parks the thread ends in `sched_event_wait`, the next one
begins when a wake has detached it, and any other section may come in between.
-/

namespace Ksync

/-- A thread, by its tid. 0 is the tid of no thread. -/
abbrev Thread := { tid : UInt32 // tid ≠ 0 }

/-- `sched_event_t`: the parked threads, oldest first, and the detached ones that have not tested
again. -/
structure Event where
  waitList : List Thread
  woken : List Thread
  cnt : UInt32
  deriving DecidableEq

namespace Event

def init (cnt : UInt32) : Event := ⟨[], [], cnt⟩

variable (ev : Event)

def wait (t : Thread) : Event := { ev with waitList := ev.waitList ++ [t] }

def wakeOne : Event :=
  match ev.waitList with
  | [] => ev
  | t :: ts => { ev with waitList := ts, woken := t :: ev.woken }

def resume (t : Thread) : Event := { ev with woken := ev.woken.erase t }

end Event

/-- What a section returns; a thread that parks has no result yet. -/
inductive Result
  | ok
  | busy
  | rejected
  | parked
  deriving DecidableEq, Repr

def currentOwnerTid (t : Thread) : UInt32 := if t.1 ≠ 0 then t.1 else 0xFFFFFFFF

structure Mutex where
  event : Event
  ownerTid : UInt32
  locked : Bool

inductive MutexCall
  | tryLock
  | lock
  | unlock
  deriving DecidableEq, Repr

namespace Mutex

def init : Mutex := ⟨.init 0, 0, false⟩

variable (m : Mutex) (t : Thread)

def tryLock : Result × Mutex :=
  if m.locked = false then (.ok, { m with locked := true, ownerTid := currentOwnerTid t })
  else if m.ownerTid = currentOwnerTid t then (.rejected, m)
  else (.busy, m)

/-- A turn of `ksync_mutex_lock`. -/
def lock : Result × Mutex :=
  let ev := m.event.resume t
  if m.locked = false then
    (.ok, { event := ev, locked := true, ownerTid := currentOwnerTid t })
  else if m.ownerTid = currentOwnerTid t then (.rejected, { m with event := ev })
  else (.parked, { m with event := ev.wait t })

def unlock : Result × Mutex :=
  if m.locked = false ∨ m.ownerTid ≠ currentOwnerTid t then (.rejected, m)
  else (.ok, { event := m.event.wakeOne, locked := false, ownerTid := 0 })

def call : MutexCall → Result × Mutex
  | .tryLock => m.tryLock t
  | .lock => m.lock t
  | .unlock => m.unlock t

end Mutex

/-- `ksync_semaphore_t` is its event, with the count in it. -/
abbrev Semaphore := Event

inductive SemaphoreCall
  | tryAcquire
  | acquire
  | release
  deriving DecidableEq, Repr

namespace Semaphore

variable (sem : Semaphore)

def tryAcquire : Result × Semaphore :=
  if sem.cnt ≠ 0 then (.ok, { sem with cnt := sem.cnt - 1 }) else (.busy, sem)

/-- A turn of `ksync_semaphore_acquire`. -/
def acquire (t : Thread) : Result × Semaphore :=
  let ev := sem.resume t
  if sem.cnt ≠ 0 then (.ok, { ev with cnt := sem.cnt - 1 }) else (.parked, ev.wait t)

def release : Result × Semaphore :=
  if sem.cnt = 0xFFFFFFFF then (.rejected, sem)
  else (.ok, Event.wakeOne { sem with cnt := sem.cnt + 1 })

def call (t : Thread) : SemaphoreCall → Result × Semaphore
  | .tryAcquire => tryAcquire sem
  | .acquire => acquire sem t
  | .release => release sem

end Semaphore

/-- An object with calls of threads on it, and the call that waits in a loop. -/
structure Object (σ C : Type) where
  event : σ → Event
  call : σ → Thread → C → Result × σ
  waits : C

def mutex : Object Mutex MutexCall := ⟨Mutex.event, Mutex.call, .lock⟩

def semaphore : Object Semaphore SemaphoreCall := ⟨id, Semaphore.call, .acquire⟩

variable {σ C : Type}

/-- What was called and how it went, the latest first. -/
abbrev History (C : Type) := List (Thread × C × Result)

/-- A parked thread runs no section, and a woken one only the next turn of its loop. -/
def Object.step [DecidableEq C] (ob : Object σ C) (s : σ × History C) (c : Thread × C) :
    σ × History C :=
  if c.1 ∈ (ob.event s.1).waitList ∨ c.1 ∈ (ob.event s.1).woken ∧ c.2 ≠ ob.waits then s
  else ((ob.call s.1 c.1 c.2).2, (c.1, c.2, (ob.call s.1 c.1 c.2).1) :: s.2)

def Object.run [DecidableEq C] (ob : Object σ C) (s : σ) (calls : List (Thread × C)) :
    σ × History C :=
  calls.foldl ob.step (s, [])

lemma Object.run_induction [DecidableEq C] {ob : Object σ C} {P : σ → History C → Prop} {s : σ}
    (h₀ : P s [])
    (hcall : ∀ s h t c, t ∉ (ob.event s).waitList → (t ∈ (ob.event s).woken → c = ob.waits) →
      P s h → P (ob.call s t c).2 ((t, c, (ob.call s t c).1) :: h))
    (calls : List (Thread × C)) : P (ob.run s calls).1 (ob.run s calls).2 := by
  suffices hfold : ∀ s h, P s h →
      P (calls.foldl ob.step (s, h)).1 (calls.foldl ob.step (s, h)).2 from hfold s [] h₀
  induction calls with
  | nil => exact fun _ _ h => h
  | cons c calls ih =>
    intro s h hp
    rw [List.foldl_cons]
    have hstep : P (ob.step (s, h) c).1 (ob.step (s, h) c).2 := by
      unfold Object.step
      split
      · exact hp
      next hruns =>
        rw [not_or, not_and_not_right] at hruns
        exact hcall s h c.1 c.2 hruns.1 hruns.2 hp
    exact ih _ _ hstep

/-- The last answer to the thread is that it parks. -/
def parks (t : Thread) : History C → Bool
  | [] => false
  | (u, _, r) :: h => if u = t then r == .parked else parks t h

/-- The threads on the event are those whose calls have not returned, each of them once. -/
structure Event.Waits (ev : Event) (h : History C) : Prop where
  nodup : (ev.waitList ++ ev.woken).Nodup
  parked : ∀ t, t ∈ ev.waitList ++ ev.woken ↔ parks t h = true

namespace Event.Waits

variable {ev : Event} {h : History C} {t : Thread} {c : C} {r : Result}

lemma init (cnt : UInt32) : (Event.init cnt).Waits ([] : History C) :=
  ⟨List.nodup_nil, fun t => by simp [Event.init, parks]⟩

variable (hw : ev.Waits h)
include hw

lemma wakeOne : ev.wakeOne.Waits h := by
  obtain ⟨hnodup, hparked⟩ := hw
  unfold Event.wakeOne
  split
  · exact ⟨hnodup, hparked⟩
  next t ts hlist =>
    rw [hlist] at hnodup hparked
    have hperm : (ts ++ t :: ev.woken).Perm (t :: ts ++ ev.woken) := List.perm_middle
    exact ⟨hperm.nodup_iff.mpr hnodup, fun u => hperm.mem_iff.trans (hparked u)⟩

/-- A thread that is not on the event gets an answer. -/
lemma answer (ht : t ∉ ev.waitList ++ ev.woken) (hr : r ≠ .parked) : ev.Waits ((t, c, r) :: h) := by
  refine ⟨hw.nodup, fun u => ?_⟩
  by_cases htu : t = u
  · subst htu
    simp [parks, hr, ht]
  · rw [hw.parked, parks, if_neg htu]

variable (ht : t ∉ ev.waitList)
include ht

/-- A woken thread tests again and returns. -/
lemma resume (hr : r ≠ .parked) : (ev.resume t).Waits ((t, c, r) :: h) := by
  obtain ⟨hnodup, hparked⟩ := hw
  have herase : (ev.waitList ++ ev.woken).erase t = ev.waitList ++ ev.woken.erase t :=
    List.erase_append_right _ ht
  refine ⟨herase ▸ hnodup.erase t, fun u => ?_⟩
  change u ∈ ev.waitList ++ ev.woken.erase t ↔ _
  rw [← herase, hnodup.mem_erase_iff, hparked, parks]
  by_cases htu : t = u
  · simp [htu, hr]
  · simp [htu, Ne.symm htu]

lemma wait : ((ev.resume t).wait t).Waits ((t, c, .parked) :: h) := by
  obtain ⟨hnodup, hparked⟩ := hw.resume (c := c) ht (r := .ok) (by decide)
  have hout : t ∉ (ev.resume t).waitList ++ (ev.resume t).woken := by
    rw [hparked, parks, if_pos rfl]
    decide
  have hperm : ((ev.resume t).waitList ++ [t] ++ (ev.resume t).woken).Perm
      (t :: ((ev.resume t).waitList ++ (ev.resume t).woken)) := by
    rw [List.append_assoc]
    exact List.perm_middle
  refine ⟨hperm.nodup_iff.mpr (List.nodup_cons.mpr ⟨hout, hnodup⟩), fun u => ?_⟩
  refine hperm.mem_iff.trans ?_
  rw [List.mem_cons, hparked, parks, parks]
  by_cases htu : t = u
  · simp [htu]
  · simp [htu, Ne.symm htu]

end Event.Waits

lemma Mutex.waits_call {m : Mutex} {h : History MutexCall} (hw : m.event.Waits h) {t : Thread}
    {c : MutexCall} (ht : t ∉ m.event.waitList) (hc : t ∈ m.event.woken → c = .lock) :
    (m.call t c).2.event.Waits ((t, c, (m.call t c).1) :: h) := by
  cases c with
  | tryLock =>
    have hout : t ∉ m.event.waitList ++ m.event.woken := by simpa [ht] using hc
    simp only [Mutex.call, tryLock]
    split_ifs <;> exact hw.answer hout (by simp)
  | lock =>
    simp only [Mutex.call, lock]
    split_ifs
    · exact hw.resume ht (by simp)
    · exact hw.resume ht (by simp)
    · exact hw.wait ht
  | unlock =>
    have hout : t ∉ m.event.waitList ++ m.event.woken := by simpa [ht] using hc
    simp only [Mutex.call, unlock]
    split_ifs
    · exact hw.answer hout (by simp)
    · exact (hw.answer hout (by simp)).wakeOne

lemma Semaphore.waits_call {sem : Semaphore} {h : History SemaphoreCall} (hw : sem.Waits h)
    {t : Thread} {c : SemaphoreCall} (ht : t ∉ sem.waitList) (hc : t ∈ sem.woken → c = .acquire) :
    (call sem t c).2.Waits ((t, c, (call sem t c).1) :: h) := by
  cases c with
  | tryAcquire =>
    have hout : t ∉ sem.waitList ++ sem.woken := by simpa [ht] using hc
    simp only [Semaphore.call, tryAcquire]
    split_ifs
    · exact ⟨hw.nodup, (hw.answer hout (by simp)).parked⟩
    · exact hw.answer hout (by simp)
  | acquire =>
    simp only [Semaphore.call, acquire]
    split_ifs
    · have hresume := hw.resume (c := .acquire) ht (r := .ok) (by simp)
      exact ⟨hresume.nodup, hresume.parked⟩
    · exact hw.wait ht
  | release =>
    have hout : t ∉ sem.waitList ++ sem.woken := by simpa [ht] using hc
    simp only [Semaphore.call, release]
    split_ifs
    · exact hw.answer hout (by simp)
    · refine Event.Waits.wakeOne ⟨hw.nodup, ?_⟩
      exact (hw.answer hout (by simp)).parked

def holds (t : Thread) : History MutexCall → Bool
  | [] => false
  | (u, c, .ok) :: h => if u = t then decide (c ≠ .unlock) else holds t h
  | _ :: h => holds t h

/-- The owner holds the mutex, and a free mutex with threads parked on it has a woken one that has
not tested it. -/
structure Mutex.Sound (m : Mutex) (h : History MutexCall) : Prop where
  holder : ∀ t, holds t h = (m.locked && m.ownerTid == t.1)
  alert : m.locked = false → m.event.waitList ≠ [] → m.event.woken ≠ []

lemma currentOwnerTid_eq (t : Thread) : currentOwnerTid t = t.1 := if_pos t.2

lemma Mutex.unlock_ok {m : Mutex} {t : Thread} :
    (m.unlock t).1 = .ok ↔ (m.locked && m.ownerTid == t.1) = true := by
  unfold unlock
  rw [currentOwnerTid_eq]
  split_ifs with hno
  · rcases hno with hno | hno <;> simp [hno]
  · simpa using hno

lemma Event.woken_wakeOne {ev : Event} (h : ev.wakeOne.waitList ≠ []) : ev.wakeOne.woken ≠ [] := by
  unfold wakeOne at *
  split at * <;> simp_all

lemma Mutex.Sound.call {m : Mutex} {h : History MutexCall} (hs : m.Sound h) (t : Thread)
    (c : MutexCall) : (m.call t c).2.Sound ((t, c, (m.call t c).1) :: h) := by
  obtain ⟨hholder, halert⟩ := hs
  cases c with
  | tryLock =>
    simp only [Mutex.call, tryLock, currentOwnerTid_eq]
    split_ifs with hfree howner
    · exact ⟨fun u => by simp [holds, hholder, hfree, Subtype.ext_iff, beq_eq_decide], nofun⟩
    · exact ⟨hholder, halert⟩
    · exact ⟨hholder, halert⟩
  | lock =>
    simp only [Mutex.call, lock, currentOwnerTid_eq]
    split_ifs with hfree howner
    · exact ⟨fun u => by simp [holds, hholder, hfree, Subtype.ext_iff, beq_eq_decide], nofun⟩
    · exact ⟨hholder, fun hf => absurd hf hfree⟩
    · exact ⟨hholder, fun hf => absurd hf hfree⟩
  | unlock =>
    simp only [Mutex.call, unlock, currentOwnerTid_eq]
    split_ifs with hno
    · exact ⟨hholder, halert⟩
    rw [not_or, not_not] at hno
    refine ⟨fun u => ?_, fun _ => Event.woken_wakeOne⟩
    by_cases htu : t.1 = u.1 <;> simp [holds, hholder, hno.2, Subtype.ext_iff, htu]

def acquires (h : History SemaphoreCall) : ℕ := h.countP fun x => x.2.1 != .release && x.2.2 == .ok

def releases (h : History SemaphoreCall) : ℕ := h.countP fun x => x.2.1 == .release && x.2.2 == .ok

/-- No permit is made or lost, and beside parked threads each permit has a woken one that has not
tested. -/
structure Semaphore.Sound (initial : UInt32) (sem : Semaphore) (h : History SemaphoreCall) :
    Prop where
  conserved : sem.cnt.toNat + acquires h = initial.toNat + releases h
  alert : sem.waitList ≠ [] → sem.cnt.toNat ≤ sem.woken.length

lemma toNat_sub_one {cnt : UInt32} (h : cnt ≠ 0) : (cnt - 1).toNat + 1 = cnt.toNat := by
  have hpos : 1 ≤ cnt.toNat := Nat.pos_of_ne_zero fun h0 => h (UInt32.toNat_inj.mp h0)
  rw [UInt32.toNat_sub_of_le cnt 1 (UInt32.le_iff_toNat_le.mpr hpos)]
  exact Nat.sub_add_cancel hpos

lemma toNat_add_one {cnt : UInt32} (h : cnt ≠ 0xFFFFFFFF) : (cnt + 1).toNat = cnt.toNat + 1 := by
  have hlt := cnt.toNat_lt
  have hne : cnt.toNat ≠ 0xFFFFFFFF := fun h0 => h (UInt32.toNat_inj.mp h0)
  rw [UInt32.toNat_add]
  exact Nat.mod_eq_of_lt (by simp; omega)

variable (x : Thread × SemaphoreCall × Result)

@[simp] lemma acquires_cons (h : History SemaphoreCall) :
    acquires (x :: h) = acquires h + if x.2.1 ≠ .release ∧ x.2.2 = .ok then 1 else 0 := by
  simp [acquires, List.countP_cons]

@[simp] lemma releases_cons (h : History SemaphoreCall) :
    releases (x :: h) = releases h + if x.2.1 = .release ∧ x.2.2 = .ok then 1 else 0 := by
  simp [releases, List.countP_cons]

lemma Semaphore.Sound.call {initial : UInt32} {sem : Semaphore} {h : History SemaphoreCall}
    (hs : Sound initial sem h) (t : Thread) (c : SemaphoreCall) :
    Sound initial (call sem t c).2 ((t, c, (call sem t c).1) :: h) := by
  obtain ⟨hconserved, halert⟩ := hs
  cases c with
  | tryAcquire =>
    simp only [Semaphore.call, tryAcquire]
    split_ifs with hcnt
    · have hsub := toNat_sub_one hcnt
      exact ⟨by simp; omega, fun hw => by have := halert hw; dsimp only; omega⟩
    · exact ⟨by simpa using hconserved, halert⟩
  | acquire =>
    simp only [Semaphore.call, acquire]
    split_ifs with hcnt
    · have hsub := toNat_sub_one hcnt
      have hlen : sem.woken.length ≤ (sem.woken.erase t).length + 1 := by
        rw [List.length_erase]
        split <;> omega
      refine ⟨by simp; omega, fun hw => ?_⟩
      have := halert hw
      dsimp only [Event.resume]
      omega
    · have hzero : sem.cnt = 0 := not_not.mp hcnt
      exact ⟨by simpa [Event.wait, Event.resume] using hconserved,
        fun _ => by simp [Event.wait, Event.resume, hzero]⟩
  | release =>
    simp only [Semaphore.call, release]
    split_ifs with hcnt
    · exact ⟨by simpa using hconserved, halert⟩
    have hadd := toNat_add_one hcnt
    unfold Event.wakeOne
    split
    next hnil => exact ⟨by simp [-UInt32.toNat_add]; omega, fun hw => absurd hnil hw⟩
    next u us hw =>
      have := halert (hw ▸ List.cons_ne_nil u us)
      exact ⟨by simp [-UInt32.toNat_add]; omega, fun _ => by simp [-UInt32.toNat_add]; omega⟩

/-- However the sections interleave, at most one thread holds the mutex and only that one can unlock
it, permits are conserved, and no thread is left parked beside a free mutex or a permit unless a
woken one has still to test it. The parked and woken threads are those whose last call parked. -/
theorem locks_exclude_and_permits_conserve : (∀ calls, let s := mutex.run .init calls
      (∀ t u, holds t s.2 = true → holds u s.2 = true → t = u) ∧
      (∀ t, (s.1.unlock t).1 = .ok ↔ holds t s.2 = true) ∧
      (s.1.event.waitList ≠ [] → s.1.locked = false → s.1.event.woken ≠ []) ∧
      ∀ t, t ∈ s.1.event.waitList ++ s.1.event.woken ↔ parks t s.2 = true) ∧
    ∀ initial calls, let s := semaphore.run (.init initial) calls
      s.1.cnt.toNat + acquires s.2 = initial.toNat + releases s.2 ∧
      (s.1.waitList ≠ [] → s.1.cnt ≠ 0 → s.1.woken ≠ []) ∧
      ∀ t, t ∈ s.1.waitList ++ s.1.woken ↔ parks t s.2 = true := by
  refine ⟨fun calls => ?_, fun initial calls => ?_⟩
  · have hs : (mutex.run .init calls).1.Sound (mutex.run .init calls).2 :=
      Object.run_induction ⟨fun t => rfl, nofun⟩ (fun _ _ t c _ _ h => h.call t c) calls
    have hw : (mutex.run .init calls).1.event.Waits (mutex.run .init calls).2 :=
      Object.run_induction (P := fun (m : Mutex) h => m.event.Waits h) (.init 0)
        (fun _ _ _ _ ht hc h => Mutex.waits_call h ht hc) calls
    refine ⟨fun t u ht hu => ?_, fun t => ?_, fun hw hfree => hs.alert hfree hw, hw.parked⟩
    · rw [hs.holder, Bool.and_eq_true, beq_iff_eq] at ht hu
      exact Subtype.ext (ht.2.symm.trans hu.2)
    · rw [hs.holder, Mutex.unlock_ok]
  have hs : Semaphore.Sound initial (semaphore.run (.init initial) calls).1
      (semaphore.run (.init initial) calls).2 :=
    Object.run_induction ⟨rfl, nofun⟩ (fun _ _ t c _ _ h => h.call t c) calls
  have hw : (semaphore.run (.init initial) calls).1.Waits (semaphore.run (.init initial) calls).2 :=
    Object.run_induction (P := fun (sem : Semaphore) h => sem.Waits h) (.init initial)
      (fun _ _ _ _ ht hc h => Semaphore.waits_call h ht hc) calls
  refine ⟨hs.conserved, fun hw hcnt hnil => hcnt (UInt32.toNat_inj.mp ?_), hw.parked⟩
  have hle := hs.alert hw
  rw [hnil] at hle
  exact Nat.le_zero.mp hle

end Ksync
