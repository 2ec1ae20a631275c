import WasmOS.Slots.Count
import WasmOS.Sched.WaitLists

/-! # The threads of a process

The threads of one process are spawned, dispatched, joined, detached, killed and reaped. Its
`thread_count` is the number of its slots in use, unless a join or a detach meets a thread that has
exited and is still held by its dispatch, or a detach one that its dispatch is about to reap.
-/

namespace Threads

open Finset Function Event

/-- `thread_t` in the slot of a thread, or in a free one. -/
structure Slot where
  state : ThreadState := .unused
  /-- `dispatch_ref`: a CPU holds the slot. -/
  claimed : Bool := false
  worker : Bool := false
  detached : Bool := false
  joinWaiterTid : ℕ := 0
  /-- The CPU that ran the thread has counted it out and will reap it (`reap_tid`). -/
  retired : Bool := false
  /-- It has given up the slot, and the reap comes next. -/
  released : Bool := false
  /-- How often the thread was counted out. The kernel keeps no such number. -/
  out : ℕ := 0

namespace Slot

variable (x : Slot)

def used : Bool := x.state ≠ .unused

def live : Bool := x.state ≠ .unused ∧ x.state ≠ .zombie

/-- `thread_reset_slot`, which refuses a slot that is held or RUNNING. -/
def reap : Slot := if x.claimed ∨ x.state = .running then x else { out := x.out }

/-- `thread_mark_owner_exited` on one slot. -/
def markExited : Slot := if x.used then { x with state := .zombie } else x

end Slot

structure Proc (ι : Type) where
  slot : ι → Slot
  threadCount : ℕ
  liveThreadCount : ℕ
  exiting : Bool

variable {ι : Type} [DecidableEq ι]

namespace Proc

variable (s : Proc ι) (i : ι)

def put (x : Slot) : Proc ι := { s with slot := update s.slot i x }

/-- `process_count_dec` on `thread_count`, for the thread that leaves `x` in the slot. -/
def countOut (x : Slot) : Proc ι :=
  { s.put i { x with out := x.out + 1 } with threadCount := s.threadCount - 1 }

/-- `process_mark_exited`. -/
def markExited : Proc ι := { s with
    slot := fun j => (s.slot j).markExited
    liveThreadCount := 0
    exiting := true }

/-- A spawn that fails gives its slot back. -/
def spawn (worker ok : Bool) : Proc ι :=
  if s.exiting ∨ (s.slot i).used ∨ !ok then s
  else { s.put i { state := .ready, worker } with
    threadCount := s.threadCount + 1
    liveThreadCount := s.liveThreadCount + 1 }

/-- The start of a dispatch, which may find that the thread is not to run. -/
def claim : Proc ι :=
  let x := s.slot i
  if !x.used ∨ x.claimed then s
  else
    let runs := x.state = .ready ∧ !s.exiting
    s.put i { x with claimed := true, state := if runs then .running else x.state }

/-- The scheduler moves a thread between the states of a live one. -/
def move (state : ThreadState) : Proc ι :=
  let x := s.slot i
  if x.live ∧ Slot.live { x with state } then s.put i { x with state } else s

def retire : Proc ι :=
  let x := s.slot i
  if x.detached then s.countOut i { x with retired := true } else s

/-- The end of a dispatch with `PROCESS_RUN_EXITED`, or with `PROCESS_RUN_THREAD_EXITED`. -/
def exit (thread : Bool) : Proc ι :=
  let x := s.slot i
  if !x.claimed ∨ !x.live ∨ s.exiting then s
  else if !thread ∧ !x.worker then s.markExited
  else
    let t : Proc ι := { s.put i { x with state := .zombie, joinWaiterTid := 0 } with
      liveThreadCount := s.liveThreadCount - 1 }
    if thread ∧ t.liveThreadCount = 0 then t.markExited.retire i else t.retire i

/-- The store at `dispatch_done`. -/
def dispatchDone : Proc ι :=
  let x := s.slot i
  if !x.claimed then s else s.put i { x with claimed := false, released := x.retired }

/-- The `thread_reap` of `reap_tid`, which only reports a refusal. -/
def reapRetired : Proc ι :=
  let x := s.slot i
  if !x.released then s else s.put i (Slot.reap { x with retired := false, released := false })

def join (caller : ℕ) : Proc ι :=
  let x := s.slot i
  if !x.used ∨ x.detached then s
  else if x.state = .zombie then s.countOut i x.reap
  else if x.joinWaiterTid ≠ 0 ∧ x.joinWaiterTid ≠ caller then s
  else s.put i { x with joinWaiterTid := caller }

def detach (caller : ℕ) : Proc ι :=
  let x := s.slot i
  if !x.used ∨ x.joinWaiterTid ≠ 0 ∧ x.joinWaiterTid ≠ caller then s
  else if x.state = .zombie then s.countOut i (Slot.reap { x with detached := true })
  else s.put i { x with detached := true }

/-- `process_reap_claim`, which is refused while a slot is held or RUNNING. -/
def reap [Fintype ι] : Proc ι :=
  if s.exiting ∧ ∀ j, (s.slot j).claimed = false ∧ (s.slot j).state ≠ .running then
    { s with slot := fun j => { out := (s.slot j).out }, threadCount := 0, liveThreadCount := 0 }
  else s

end Proc

/-- The calls and the steps of dispatches; a call on a thread that is gone names a free slot. -/
inductive Op (ι : Type)
  | spawn (i : ι) (worker ok : Bool)
  | claim (i : ι)
  | move (i : ι) (state : ThreadState)
  | exit (i : ι) (thread : Bool)
  | dispatchDone (i : ι)
  | reapRetired (i : ι)
  | join (i : ι) (caller : ℕ)
  | detach (i : ι) (caller : ℕ)
  | kill
  | reap

variable [Fintype ι]

def Proc.exec (s : Proc ι) : Op ι → Proc ι
  | .spawn i worker ok => s.spawn i worker ok
  | .claim i => s.claim i
  | .move i state => s.move i state
  | .exit i thread => s.exit i thread
  | .dispatchDone i => s.dispatchDone i
  | .reapRetired i => s.reapRetired i
  | .join i caller => s.join i caller
  | .detach i caller => s.detach i caller
  | .kill => if s.exiting then s else s.markExited
  | .reap => s.reap

def Proc.run (s : Proc ι) (ops : List (Op ι)) : Proc ι := ops.foldl Proc.exec s

def fresh (main : ι) : Proc ι := ⟨update (fun _ => {}) main { state := .ready }, 1, 1, false⟩

/-- A join or a detach finds no thread that has exited and is still held by its dispatch, and from
the release of a thread to its reap there is no detach and no claim of it. -/
def Op.Careful (s : Proc ι) : Op ι → Prop
  | .join i _ => ¬ ((s.slot i).state = .zombie ∧ (s.slot i).claimed = true)
  | .detach i _ => ¬ ((s.slot i).state = .zombie ∧
      ((s.slot i).claimed = true ∨ (s.slot i).released = true))
  | .claim i => (s.slot i).released = false
  | _ => True

instance (s : Proc ι) : ∀ op : Op ι, Decidable (op.Careful s)
  | .join _ _ | .detach _ _ => inferInstanceAs (Decidable (¬ _))
  | .claim _ => inferInstanceAs (Decidable (_ = false))
  | .spawn .. | .move .. | .exit .. | .dispatchDone _ | .reapRetired _ | .kill | .reap =>
    isTrue trivial

def CarefulRun : Proc ι → List (Op ι) → Prop
  | _, [] => True
  | s, op :: ops => op.Careful s ∧ CarefulRun (s.exec op) ops

instance decidableCarefulRun : ∀ (s : Proc ι) ops, Decidable (CarefulRun s ops)
  | _, [] => isTrue trivial
  | s, op :: ops => @instDecidableAnd _ _ _ (decidableCarefulRun (s.exec op) ops)

structure Slot.Sound (x : Slot) : Prop where
  out_le : x.out ≤ 1
  out_eq : x.used = true → x.out = x.retired.toNat
  retired : x.retired = true → x.state = .zombie ∧ x.detached = true ∧ x.claimed = !x.released
  released : x.released = true → x.retired = true
  claimed : x.claimed = true → x.used = true

lemma Slot.Sound.used {x : Slot} (h : x.Sound) (hr : x.retired = true) : x.used = true := by
  simp [Slot.used, (h.retired hr).1]

lemma Slot.Sound.not_released {x : Slot} (h : x.Sound) (hr : x.retired = false) :
    x.released = false := by
  by_contra hrel
  simp [h.released (Bool.eq_true_of_not_eq_false hrel)] at hr

lemma Slot.Sound.not_retired {x : Slot} (h : x.Sound) (hz : x.state ≠ .zombie) :
    x.retired = false := by
  by_contra hr
  exact hz (h.retired (Bool.eq_true_of_not_eq_false hr)).1

lemma Slot.reap_of_zombie {x : Slot} (hz : x.state = .zombie) (hc : x.claimed = false) :
    x.reap = { out := x.out } := by simp [Slot.reap, hz, hc]

@[simp] lemma Slot.retired_markExited {x : Slot} : x.markExited.retired = x.retired := by
  unfold Slot.markExited
  split <;> rfl

@[simp] lemma Slot.used_markExited {x : Slot} : x.markExited.used = x.used := by
  unfold Slot.markExited
  split
  · next hu => rw [hu]; rfl
  · rfl

lemma Slot.Sound.markExited {x : Slot} (h : x.Sound) : x.markExited.Sound := by
  unfold Slot.markExited
  split
  · next hu =>
    exact ⟨h.out_le, fun _ => h.out_eq hu, fun hr => ⟨rfl, (h.retired hr).2⟩, h.released,
      fun _ => rfl⟩
  · exact h

/-- A thread whose exit is complete is counted while it has a slot. -/
structure Proc.Sound (s : Proc ι) : Prop where
  slot : ∀ i, (s.slot i).Sound
  count : s.threadCount + #{i | (s.slot i).retired} = #{i | (s.slot i).used}

namespace Proc.Sound

variable {s : Proc ι} {i : ι} {x : Slot} (h : Sound s)
include h

lemma update {t : Proc ι} (hx : x.Sound) (ht : t.slot = update s.slot i x)
    (hc : t.threadCount + x.retired.toNat + (s.slot i).used.toNat =
      s.threadCount + (s.slot i).retired.toNat + x.used.toNat) : Sound t := by
  have hr := Slots.card_update (f := s.slot) (i := i) Slot.retired x
  have hu := Slots.card_update (f := s.slot) (i := i) Slot.used x
  have hs := h.count
  refine ⟨fun j => ?_, by rw [ht]; omega⟩
  rw [ht]
  by_cases hj : j = i
  · subst hj
    rwa [update_self]
  · rw [update_of_ne hj]
    exact h.slot j

lemma put (hx : x.Sound) (hr : x.retired = (s.slot i).retired)
    (hu : x.used = (s.slot i).used) : Sound (s.put i x) :=
  h.update hx rfl (by rw [hr, hu]; rfl)

omit [DecidableEq ι] in
lemma count_pos (hu : (s.slot i).used = true) (hr : (s.slot i).retired = false) :
    0 < s.threadCount := by
  have hlt : #{j | (s.slot j).retired} < #{j | (s.slot j).used} := by
    refine card_lt_card (ssubset_iff_of_subset ?_ |>.2 ⟨i, by simp [hu], by simp [hr]⟩)
    intro j hj
    simp only [mem_filter, mem_univ, true_and] at hj ⊢
    exact (h.slot j).used hj
  have := h.count
  omega

lemma countOut (hu : (s.slot i).used = true) (hr : (s.slot i).retired = false)
    (hx : x.used = x.retired) (ho : x.out = (s.slot i).out)
    (hz : x.retired = true → x.state = .zombie ∧ x.detached = true ∧ x.claimed = true)
    (hc : x.claimed = x.retired) (hrel : x.released = false) : Sound (s.countOut i x) := by
  have hout : x.out = 0 := by rw [ho, (h.slot i).out_eq hu, hr]; rfl
  refine h.update (x := { x with out := x.out + 1 })
    ⟨?_, fun hx' => ?_, fun hret => ?_, fun hrel' => ?_, fun hcl => ?_⟩ rfl ?_
  · simp [hout]
  · have hret : x.retired = true := hx ▸ hx'
    simp [hout, hret]
  · simpa [hrel] using hz hret
  · simp [hrel] at hrel'
  · exact hx.trans (hc.symm.trans hcl)
  have hpos := h.count_pos hu hr
  have hx' : Slot.used { x with out := x.out + 1 } = x.retired := hx
  simp only [hx', hu, hr, Proc.countOut, Bool.toNat_true, Bool.toNat_false]
  omega

omit [DecidableEq ι] in
lemma markExited : Sound s.markExited := by
  refine ⟨fun j => ?_, ?_⟩
  · exact (h.slot j).markExited
  · simpa [Proc.markExited] using h.count

lemma retire (hz : (s.slot i).state = .zombie) (hc : (s.slot i).claimed = true)
    (hr : (s.slot i).retired = false) : Sound (s.retire i) := by
  have hu : (s.slot i).used = true := by simp [Slot.used, hz]
  unfold Proc.retire
  dsimp only
  split_ifs with hd
  · exact h.countOut hu hr hu rfl (fun _ => ⟨hz, hd, hc⟩) hc ((h.slot i).not_released hr)
  · exact h

lemma spawn {worker ok : Bool} : Sound (s.spawn i worker ok) := by
  unfold Proc.spawn
  split_ifs with hno
  · exact h
  simp only [not_or, Bool.not_eq_true] at hno
  have hr : (s.slot i).retired = false := by
    by_contra hr
    simp [(h.slot i).used (Bool.eq_true_of_not_eq_false hr)] at hno
  refine h.update (by constructor <;> simp) rfl ?_
  rw [hno.2.1, hr]
  simp [Slot.used]

lemma claim (hrel : (s.slot i).released = false) : Sound (s.claim i) := by
  have hi := h.slot i
  unfold Proc.claim
  dsimp only
  split_ifs with hno hready
  · exact h
  · have hr := hi.not_retired (by simp [hready.1])
    refine h.put ⟨hi.out_le, fun _ => hi.out_eq ?_, ?_, hi.released, fun _ => rfl⟩ rfl ?_ <;>
      simp [Slot.used, hready.1, hr]
  · simp only [not_or, Bool.not_eq_true, Bool.not_eq_false'] at hno
    refine h.put ⟨hi.out_le, hi.out_eq, fun hr => ?_, hi.released, fun _ => hno.1⟩ rfl rfl
    exact ⟨(hi.retired hr).1, (hi.retired hr).2.1, by simp [hrel]⟩

lemma move {state : ThreadState} : Sound (s.move i state) := by
  have hi := h.slot i
  unfold Proc.move
  dsimp only
  split_ifs with hlive
  · simp only [Slot.live, decide_eq_true_eq] at hlive
    have hr := hi.not_retired hlive.1.2
    refine h.put ⟨hi.out_le, fun _ => hi.out_eq ?_, ?_, hi.released, fun _ => ?_⟩ rfl ?_ <;>
      simp [Slot.used, hlive, hr]
  · exact h

lemma exit {thread : Bool} : Sound (s.exit i thread) := by
  have hi := h.slot i
  unfold Proc.exit
  dsimp only
  split_ifs with hno hmain hlast
  · exact h
  · exact h.markExited
  all_goals
    simp only [Slot.live, not_or, Bool.not_eq_true, Bool.not_eq_false', decide_eq_true_eq] at hno
    have hr := hi.not_retired hno.2.1.2
    have hz : Sound (s.put i { s.slot i with state := .zombie, joinWaiterTid := 0 }) :=
      h.put ⟨hi.out_le, fun _ => hi.out_eq (by simp [Slot.used, hno]), by simp [hr], hi.released,
        fun _ => rfl⟩ rfl (by simp [Slot.used, hno])
    have hz' : Sound { s.put i { s.slot i with state := .zombie, joinWaiterTid := 0 } with
        liveThreadCount := s.liveThreadCount - 1 } := ⟨hz.slot, hz.count⟩
  · refine hz'.markExited.retire ?_ ?_ ?_ <;>
      simp [Proc.markExited, Proc.put, Slot.markExited, Slot.used, hno, hr]
  · refine hz'.retire ?_ ?_ ?_ <;> simp [Proc.put, hno, hr]

lemma dispatchDone : Sound (s.dispatchDone i) := by
  have hi := h.slot i
  unfold Proc.dispatchDone
  dsimp only
  split_ifs
  · exact h
  · refine h.put ⟨hi.out_le, hi.out_eq, fun hr => ?_, id, by simp⟩ rfl rfl
    have hr : (s.slot i).retired = true := hr
    exact ⟨(hi.retired hr).1, (hi.retired hr).2.1, by simp [hr]⟩

lemma reapRetired : Sound (s.reapRetired i) := by
  have hi := h.slot i
  unfold Proc.reapRetired
  dsimp only
  split_ifs with hno
  · exact h
  · have hrel : (s.slot i).released = true := by simpa using hno
    have hr := hi.released hrel
    obtain ⟨hz, -, hc⟩ := hi.retired hr
    have hreap : Slot.reap { s.slot i with retired := false, released := false } =
        { out := (s.slot i).out } := Slot.reap_of_zombie hz (by simp [hc, hrel])
    rw [hreap]
    refine h.update (x := { out := (s.slot i).out }) ⟨hi.out_le, ?_, ?_, ?_, ?_⟩ rfl ?_ <;>
      simp [Proc.put, Slot.used, hz, hr]

lemma countOut_reap (hz : (s.slot i).state = .zombie) (hc : (s.slot i).claimed = false)
    (hr : (s.slot i).retired = false) (hx : x = { s.slot i with detached := x.detached }) :
    Sound (s.countOut i x.reap) := by
  have hreap : x.reap = { out := (s.slot i).out } := by
    rw [hx]
    exact Slot.reap_of_zombie hz hc
  rw [hreap]
  exact h.countOut (by simp [Slot.used, hz]) hr rfl rfl (by simp) rfl rfl

lemma exec (op : Op ι) (hop : op.Careful s) : Sound (s.exec op) := by
  cases op with
  | spawn => exact h.spawn
  | claim => exact h.claim hop
  | move => exact h.move
  | exit => exact h.exit
  | dispatchDone => exact h.dispatchDone
  | reapRetired => exact h.reapRetired
  | join i caller =>
    have hi := h.slot i
    simp only [Proc.exec, Proc.join]
    split_ifs with hno hz hbusy
    · exact h
    · -- a thread to be reaped is detached, and a join refuses it
      have hr : (s.slot i).retired = false := by
        by_contra hr
        simp [(hi.retired (Bool.eq_true_of_not_eq_false hr)).2.1] at hno
      exact h.countOut_reap hz (Bool.eq_false_of_not_eq_true fun hc => hop ⟨hz, hc⟩) hr rfl
    · exact h
    · exact h.put ⟨hi.out_le, hi.out_eq, hi.retired, hi.released, hi.claimed⟩ rfl rfl
  | detach i caller =>
    have hi := h.slot i
    simp only [Proc.exec, Proc.detach]
    split_ifs with hno hz
    · exact h
    · have hc : (s.slot i).claimed = false :=
        Bool.eq_false_of_not_eq_true fun hc => hop ⟨hz, .inl hc⟩
      have hr : (s.slot i).retired = false := by
        by_contra hr
        have hrel := (hi.retired (Bool.eq_true_of_not_eq_false hr)).2.2
        exact hop ⟨hz, .inr (by simpa [hc] using hrel)⟩
      exact h.countOut_reap hz hc hr rfl
    · refine h.put ⟨hi.out_le, hi.out_eq, fun hr => ?_, hi.released, hi.claimed⟩ rfl rfl
      exact ⟨(hi.retired hr).1, rfl, (hi.retired hr).2.2⟩
  | kill =>
    simp only [Proc.exec]
    split_ifs
    · exact h
    · exact h.markExited
  | reap =>
    simp only [Proc.exec, Proc.reap]
    split_ifs
    · refine ⟨fun j => ⟨(h.slot j).out_le, ?_, ?_, ?_, ?_⟩, ?_⟩ <;> simp [Slot.used]
    · exact h

end Proc.Sound

end Threads
