import WasmOS.Slots.Count

/-! # Shared interrupt lines

`irq_sharing.c`: a line that was dispatched stays masked until each of its sharers has acked,
left or run past the deadline. The lines of the table do not touch each other, so a call is what
it does to each of them.
-/

namespace Irq

open Finset List Function

def timerLine : ℕ := 0

/-- `IRQ_SHARERS_MAX`. -/
abbrev sharersMax : ℕ := 4

/-- `IRQ_ACK_DEADLINE_TICKS`. -/
def ackDeadlineTicks : UInt64 := 50

/-- `IRQ_DISPATCH_BUDGET_PER_TICK`. -/
def dispatchBudgetPerTick : ℕ := 64

/-- `irq_sharer_t`. -/
structure Sharer where
  inUse : Bool
  ackPending : Bool
  ownerContextId : UInt32
  endpoint : UInt32

/-- `irq_line_t`, with the last of `ops->mask` and `ops->unmask` that was issued for it. -/
structure Line where
  ackDeadline : UInt64
  budgetTick : UInt64
  budgetUsed : ℕ
  sharers : Fin sharersMax → Sharer
  sharerCount : ℕ
  pendingAcks : ℕ
  throttled : Bool
  throttleLogged : Bool
  masked : Bool

inductive Status
  | ok | lineFull | notASharer
  deriving DecidableEq

namespace Line

/-- `line_reset`, on a line that is masked. -/
def reset : Line := ⟨0, 0, 0, fun _ => ⟨false, false, 0, 0⟩, 0, 0, false, false, true⟩

variable (irq : ℕ) (l : Line)

def sharerOf (contextId : UInt32) : Option (Fin sharersMax) :=
  (List.finRange sharersMax).find? fun i =>
    (l.sharers i).inUse && (l.sharers i).ownerContextId == contextId

def put (i : Fin sharersMax) (s : Sharer) : Line := { l with sharers := update l.sharers i s }

def unmaskIfOpen : Line := if l.throttled ∨ irq = timerLine then l else { l with masked := false }

def completeAck : Line :=
  if l.pendingAcks = 0 then l
  else
    let l := { l with pendingAcks := l.pendingAcks - 1 }
    if l.pendingAcks ≠ 0 then l else ({ l with ackDeadline := 0 }).unmaskIfOpen irq

/-- The end of `irq_sharing_register`, with the slot found or taken. -/
def enrol (contextId endpoint : UInt32) (i : Fin sharersMax) : Line :=
  let l := l.put i { l.sharers i with ownerContextId := contextId, endpoint }
  if l.pendingAcks = 0 then l.unmaskIfOpen irq else l

def register (contextId endpoint : UInt32) : Status × Line :=
  match l.sharerOf contextId with
  | some i => (.ok, l.enrol irq contextId endpoint i)
  | none =>
    match (List.finRange sharersMax).find? fun i => !(l.sharers i).inUse with
    | none => (.lineFull, l)
    | some i =>
      let l := { l.put i { l.sharers i with inUse := true, ackPending := false } with
        sharerCount := l.sharerCount + 1 }
      (.ok, l.enrol irq contextId endpoint i)

def ack (contextId : UInt32) : Status × Line :=
  match l.sharerOf contextId with
  | none => (.notASharer, l)
  | some i =>
    if (l.sharers i).ackPending then
      (.ok, (l.put i { l.sharers i with ackPending := false }).completeAck irq)
    else (.ok, l)

def dropSharer (i : Fin sharersMax) : Line :=
  let owed := (l.sharers i).ackPending
  let l : Line := { l.put i ⟨false, false, 0, 0⟩ with sharerCount := l.sharerCount - 1 }
  let l := if owed then l.completeAck irq else l
  if l.sharerCount = 0 then
    { l with pendingAcks := 0, ackDeadline := 0, masked := l.masked || decide (irq ≠ timerLine) }
  else l

def unregister (contextId : UInt32) : Status × Line :=
  match l.sharerOf contextId with
  | none => (.notASharer, l)
  | some i => (.ok, l.dropSharer irq i)

def unregisterAll : Status × Line := (List.finRange sharersMax).foldl (fun r i =>
    if (r.2.sharers i).inUse then (.ok, r.2.dropSharer irq i) else r) (.notASharer, l)

def deliver (delivered : Fin sharersMax → Bool) (l : Line) (i : Fin sharersMax) : Line :=
  if (l.sharers i).inUse && delivered i then
    { l.put i { l.sharers i with ackPending := true } with pendingAcks := l.pendingAcks + 1 }
  else l

def charge (now : UInt64) : Line := { l with
    masked := l.masked || decide (irq ≠ timerLine)
    budgetTick := now
    budgetUsed := (if l.budgetTick ≠ now then 0 else l.budgetUsed) + 1 }

def dispatch (now : UInt64) (delivered : Fin sharersMax → Bool) : Line :=
  if l.sharerCount = 0 ∨ l.throttled then l
  else
    let l := l.charge irq now
    if dispatchBudgetPerTick < l.budgetUsed then
      { l with throttled := true, throttleLogged := true }
    else
      let l := (List.finRange sharersMax).foldl (deliver delivered) { l with pendingAcks := 0 }
      if l.pendingAcks = 0 then l.unmaskIfOpen irq
      else { l with ackDeadline := now + ackDeadlineTicks }

/-- What `irq_sharing_tick` does to one line. -/
def tick (now : UInt64) : Line :=
  let l := if 0 < l.pendingAcks ∧ l.ackDeadline ≠ 0 ∧ l.ackDeadline ≤ now then
    ({ l with
      sharers := fun i => { l.sharers i with ackPending := false }
      pendingAcks := 0
      ackDeadline := 0 }).unmaskIfOpen irq else l
  if l.throttled then
    let l := { l with throttled := false, budgetTick := now, budgetUsed := 0 }
    if l.pendingAcks = 0 ∧ 0 < l.sharerCount then l.unmaskIfOpen irq else l
  else l

end Line

/-- The calls on a table of `n` lines. A dispatch comes with what its deliveries answer. -/
inductive Call (n : ℕ)
  | register (line : Fin n) (contextId endpoint : UInt32)
  | ack (line : Fin n) (contextId : UInt32)
  | unregister (line : Fin n) (contextId : UInt32)
  | unregisterAll (line : Fin n)
  | releaseContext (contextId : UInt32)
  | dispatch (line : Fin n) (now : UInt64) (delivered : Fin sharersMax → Bool)
  | tick (now : UInt64)

def Call.exec {n : ℕ} (k : Fin n) (l : Line) : Call n → Line
  | .register line c e => if line = k then (l.register k c e).2 else l
  | .ack line c => if line = k then (l.ack k c).2 else l
  | .unregister line c => if line = k then (l.unregister k c).2 else l
  | .unregisterAll line => if line = k then (l.unregisterAll k).2 else l
  | .releaseContext c => (l.unregister k c).2
  | .dispatch line now delivered => if line = k then l.dispatch k now delivered else l
  | .tick now => l.tick k now

abbrev Table (n : ℕ) := Fin n → Line

def Table.run {n : ℕ} (t : Table n) (calls : List (Call n)) : Table n :=
  calls.foldl (fun t c k => c.exec k (t k)) t

structure Counted (f : Fin sharersMax → Sharer) (count acks : ℕ) : Prop where
  acks : acks = #{i | (f i).ackPending}
  count : count = #{i | (f i).inUse}
  inUse : ∀ i, (f i).ackPending → (f i).inUse

structure Line.Sound (irq : ℕ) (l : Line) : Prop
    extends Counted l.sharers l.sharerCount l.pendingAcks where
  gate : irq ≠ timerLine →
    (l.masked = false ↔ 0 < l.sharerCount ∧ l.pendingAcks = 0 ∧ l.throttled = false)

variable {f : Fin sharersMax → Sharer} {i : Fin sharersMax} {count acks : ℕ}

namespace Counted

variable (h : Counted f count acks)
include h

lemma update {s : Sharer} {count' acks' : ℕ} (hs : s.ackPending → s.inUse)
    (hc : count' + (f i).inUse.toNat = count + s.inUse.toNat)
    (ha : acks' + (f i).ackPending.toNat = acks + s.ackPending.toNat) :
    Counted (update f i s) count' acks' := by
  have h₁ := Slots.card_update (f := f) (i := i) Sharer.ackPending s
  have h₂ := Slots.card_update (f := f) (i := i) Sharer.inUse s
  have h₃ := h.acks
  have h₄ := h.count
  refine ⟨by omega, by omega, fun j => ?_⟩
  by_cases hj : j = i
  · subst hj
    rwa [update_self]
  · rw [update_of_ne hj]
    exact h.inUse j

lemma acks_le : acks ≤ count := by
  rw [h.acks, h.count]
  exact card_le_card fun i => by simpa using h.inUse i

lemma count_pos (hi : (f i).inUse) : 0 < count := by
  rw [h.count]
  exact card_pos.mpr ⟨i, by simpa using hi⟩

lemma acks_pos (hi : (f i).ackPending) : 0 < acks := by
  rw [h.acks]
  exact card_pos.mpr ⟨i, by simpa using hi⟩

end Counted

namespace Line

variable {irq : ℕ} {l : Line}

lemma unmaskIfOpen_eq : l.unmaskIfOpen irq =
    { l with masked := if l.throttled ∨ irq = timerLine then l.masked else false } := by
  unfold unmaskIfOpen
  split_ifs <;> rfl

lemma sharers_completeAck : (l.completeAck irq).sharers = l.sharers := by
  simp only [completeAck, unmaskIfOpen_eq]
  split_ifs <;> rfl

variable {contextId endpoint : UInt32}

lemma sharers_enrol : (l.enrol irq contextId endpoint i).sharers =
    update l.sharers i { l.sharers i with ownerContextId := contextId, endpoint } := by
  simp only [enrol, unmaskIfOpen_eq]
  split_ifs <;> rfl

lemma sharers_dropSharer :
    (l.dropSharer irq i).sharers = update l.sharers i ⟨false, false, 0, 0⟩ := by
  simp only [dropSharer]
  split_ifs <;> simp only [sharers_completeAck] <;> rfl

lemma sharerOf_some {contextId : UInt32} (h : l.sharerOf contextId = some i) :
    (l.sharers i).inUse ∧ (l.sharers i).ownerContextId = contextId := by
  simpa using find?_some h

lemma sound_reset : reset.Sound irq := by
  constructor
  · constructor <;> simp [reset]
  · simp [reset]

lemma sound_enrol (h : Counted l.sharers l.sharerCount l.pendingAcks) (hi : (l.sharers i).inUse)
    (hm : irq ≠ timerLine → l.pendingAcks ≠ 0 ∨ l.throttled → l.masked) :
    (l.enrol irq contextId endpoint i).Sound irq := by
  have hpos := h.count_pos hi
  have hc : Counted (update l.sharers i
      { l.sharers i with ownerContextId := contextId, endpoint }) l.sharerCount l.pendingAcks :=
    h.update (h.inUse i) rfl rfl
  unfold enrol
  simp only [put, unmaskIfOpen_eq]
  split <;> exact ⟨hc, fun hirq => by have := hm hirq; grind⟩

variable (h : l.Sound irq)
include h

lemma Sound.masked (hirq : irq ≠ timerLine) (hp : l.pendingAcks ≠ 0 ∨ l.throttled) : l.masked := by
  have := h.gate hirq
  grind

lemma sound_register (contextId endpoint : UInt32) :
    (l.register irq contextId endpoint).2.Sound irq := by
  unfold register
  split
  · next i hi => exact sound_enrol h.toCounted (sharerOf_some hi).1 h.masked
  split
  · exact h
  next i hi =>
  have hfree : (l.sharers i).inUse = false := by simpa using find?_some hi
  have hno : (l.sharers i).ackPending = false := by
    have := h.inUse i
    simp_all
  exact sound_enrol (h.update nofun (by simp [hfree]) (by simp [hno, put])) (by simp [put]) h.masked

lemma Sound.settle {s : Sharer} {count : ℕ} (hi : (l.sharers i).inUse) (hs : s.ackPending = false)
    (hc : count + 1 = l.sharerCount + s.inUse.toNat) {l' : Line}
    (hl : l' = if (l.sharers i).ackPending
      then ({ l.put i s with sharerCount := count } : Line).completeAck irq
      else { l.put i s with sharerCount := count }) :
    Counted l'.sharers l'.sharerCount l'.pendingAcks ∧ l'.sharerCount = count ∧
      (0 < count → l'.Sound irq) := by
  have hpos := h.count_pos hi
  have hgate := h.gate
  have hupd : ∀ a, a + (l.sharers i).ackPending.toNat = l.pendingAcks →
      Counted (update l.sharers i s) count a :=
    fun a ha => h.update (by simp [hs]) (by simp [hi, hc]) (by simpa [hs] using ha)
  subst hl
  cases hp : (l.sharers i).ackPending with
  | true =>
    have := h.acks_pos hp
    have hcount := hupd (l.pendingAcks - 1) (by simp [hp]; omega)
    simp only [if_true, completeAck, put, this.ne', if_false, unmaskIfOpen_eq]
    split <;> exact ⟨hcount, rfl, fun _ => ⟨hcount, fun hirq => by grind⟩⟩
  | false =>
    have hcount := hupd l.pendingAcks (by simp [hp])
    exact ⟨hcount, rfl, fun _ => ⟨hcount, fun hirq => by grind [put]⟩⟩

lemma sound_ack (contextId : UInt32) : (l.ack irq contextId).2.Sound irq := by
  unfold ack
  split
  · exact h
  next i hi =>
  split
  · next hp =>
    have hin := h.inUse i hp
    exact (h.settle hin rfl (by simp [hin]) (if_pos hp).symm).2.2 (h.count_pos hin)
  · exact h

lemma sound_drop (hi : (l.sharers i).inUse) : (l.dropSharer irq i).Sound irq := by
  have hpos := h.count_pos hi
  unfold dropSharer
  dsimp only
  generalize hl : (if (l.sharers i).ackPending = true then _ else _) = l'
  obtain ⟨hc, hcount, hs⟩ := h.settle hi rfl (by simp; omega) hl.symm
  split
  · next h0 =>
    have hle := hc.acks_le
    rw [h0, Nat.le_zero] at hle
    exact ⟨hle ▸ hc, fun hirq => by simp [hirq, h0]⟩
  · next h0 => exact hs (by omega)

lemma sound_unregister (contextId : UInt32) : (l.unregister irq contextId).2.Sound irq := by
  unfold unregister
  split
  · exact h
  · next i hi => exact sound_drop h (sharerOf_some hi).1

lemma sound_unregisterAll : (l.unregisterAll irq).2.Sound irq := by
  unfold unregisterAll
  generalize Status.notASharer = found
  induction List.finRange sharersMax generalizing found l with
  | nil => exact h
  | cons i is ih =>
    rw [foldl_cons]
    split
    · next hi => exact ih (sound_drop h hi) _
    · exact ih h _

omit h in
lemma foldl_deliver (delivered : Fin sharersMax → Bool) {is : List (Fin sharersMax)}
    (hnd : is.Nodup) (hc : Counted l.sharers l.sharerCount l.pendingAcks)
    (hclear : ∀ i ∈ is, (l.sharers i).ackPending = false) :
    ∃ f acks, is.foldl (deliver delivered) l = { l with sharers := f, pendingAcks := acks } ∧
      Counted f l.sharerCount acks := by
  induction is generalizing l with
  | nil => exact ⟨_, _, rfl, hc⟩
  | cons i is ih =>
    rw [nodup_cons] at hnd
    rw [List.forall_mem_cons] at hclear
    rw [List.foldl_cons, deliver]
    split
    · next hi =>
      rw [Bool.and_eq_true] at hi
      have hc' : Counted (update l.sharers i { l.sharers i with ackPending := true })
          l.sharerCount (l.pendingAcks + 1) := hc.update (fun _ => hi.1) rfl (by simp [hclear.1])
      refine ih hnd.2 hc' fun j hj => ?_
      have hne := ne_of_mem_of_not_mem hj hnd.1
      simpa [put, hne] using hclear.2 j hj
    · exact ih hnd.2 hc hclear.2

lemma sound_dispatch (now : UInt64) (delivered : Fin sharersMax → Bool)
    (hfree : l.pendingAcks = 0) : (l.dispatch irq now delivered).Sound irq := by
  have hclear : ∀ i, (l.sharers i).ackPending = false := by
    intro i
    by_contra hp
    exact (h.acks_pos (by simpa using hp)).ne' hfree
  obtain ⟨f, acks, hf, hc⟩ := foldl_deliver (l := { l.charge irq now with pendingAcks := 0 })
    delivered (nodup_finRange sharersMax) (hfree ▸ h.toCounted) fun i _ => hclear i
  unfold dispatch
  split
  · exact h
  next hgo =>
  simp only [hf, unmaskIfOpen_eq]
  split
  · exact ⟨h.toCounted, fun hirq => by simp [charge, hirq]⟩
  split <;> exact ⟨hc, fun hirq => by grind [charge]⟩

lemma sound_tick (now : UInt64) : (l.tick irq now).Sound irq := by
  have hgate := h.gate
  have hforgiven : Sound irq (if 0 < l.pendingAcks ∧ l.ackDeadline ≠ 0 ∧ l.ackDeadline ≤ now then
      ({ l with
        sharers := fun i => { l.sharers i with ackPending := false }
        pendingAcks := 0
        ackDeadline := 0 } : Line).unmaskIfOpen irq else l) := by
    split
    · next hdue =>
      rw [unmaskIfOpen_eq]
      have hle := h.acks_le
      exact ⟨⟨by simp, h.count, nofun⟩, fun hirq => by grind⟩
    · exact h
  unfold tick
  generalize (if 0 < l.pendingAcks ∧ l.ackDeadline ≠ 0 ∧ l.ackDeadline ≤ now then _ else l) = l'
    at hforgiven
  have hgate' := hforgiven.gate
  dsimp only
  split
  · split
    · rw [unmaskIfOpen_eq]
      exact ⟨hforgiven.toCounted, fun hirq => by grind⟩
    · exact ⟨hforgiven.toCounted, fun hirq => by grind⟩
  · exact hforgiven

omit h in
lemma flagged_foldl (delivered : Fin sharersMax → Bool) (is : List (Fin sharersMax))
    (hi : (l.sharers i).ackPending ∨ i ∈ is ∧ (l.sharers i).inUse ∧ delivered i) :
    ((is.foldl (deliver delivered) l).sharers i).ackPending := by
  induction is generalizing l with
  | nil => simpa using hi
  | cons j is ih =>
    refine ih ?_
    unfold deliver put
    by_cases hj : i = j
    · split <;> simp_all
      grind
    · split <;> simp_all

lemma flagged_dispatch {now : UInt64} {delivered : Fin sharersMax → Bool}
    (hi : (l.sharers i).ackPending ∨
      (l.dispatch irq now delivered).throttled = false ∧ (l.sharers i).inUse ∧ delivered i) :
    ((l.dispatch irq now delivered).sharers i).ackPending := by
  have hflag := flagged_foldl (i := i) (l := { l.charge irq now with pendingAcks := 0 }) delivered
    (List.finRange sharersMax)
  have hpos := h.count_pos (i := i)
  grind [dispatch, charge, unmaskIfOpen_eq]

end Line

variable {n : ℕ} {k : Fin n}

/-- What ends the wait for the ack of the sharer `i`: its ack, its departure, the deadline. -/
def Call.excuses (k : Fin n) (l : Line) (i : Fin sharersMax) : Call n → Prop
  | .ack line c => line = k ∧ c = (l.sharers i).ownerContextId
  | .unregister line c => line = k ∧ c = (l.sharers i).ownerContextId
  | .unregisterAll line => line = k
  | .releaseContext c => c = (l.sharers i).ownerContextId
  | .tick now => l.ackDeadline ≤ now
  | _ => False

lemma flagged_exec {l : Line} (h : l.Sound k) (hi : (l.sharers i).ackPending) (c : Call n)
    (hc : ¬ c.excuses k l i) : ((c.exec k l).sharers i).ackPending := by
  have hin := h.inUse i hi
  have hother : ∀ {ctx j}, l.sharerOf ctx = some j → ctx ≠ (l.sharers i).ownerContextId →
      i ≠ j := by
    rintro ctx j hj hctx rfl
    exact hctx (Line.sharerOf_some hj).2.symm
  have hgone : ∀ ctx, ctx ≠ (l.sharers i).ownerContextId →
      ((l.unregister k ctx).2.sharers i).ackPending := by
    intro ctx hctx
    unfold Line.unregister
    split
    · exact hi
    · next j hj => simp [Line.sharers_dropSharer, hother hj hctx, hi]
  cases c with
  | register line ctx e =>
    simp only [Call.exec, Line.register]
    split_ifs
    · split
      · next j hj => by_cases hij : i = j <;> simp_all [Line.sharers_enrol]
      split
      · exact hi
      next j hj =>
      have := find?_some hj
      by_cases hij : i = j <;> simp_all [Line.sharers_enrol, Line.put]
    · exact hi
  | ack line ctx =>
    simp only [Call.exec, Line.ack]
    split_ifs with hk
    · split
      · exact hi
      next j hj =>
      have := hother hj fun hctx => hc ⟨hk, hctx⟩
      split_ifs <;> simp [Line.sharers_completeAck, Line.put, this, hi]
    · exact hi
  | unregister line ctx =>
    simp only [Call.exec]
    split_ifs with hk
    · exact hgone ctx fun hctx => hc ⟨hk, hctx⟩
    · exact hi
  | unregisterAll line =>
    have hk : ¬ line = k := hc
    rwa [Call.exec, if_neg hk]
  | releaseContext ctx => exact hgone ctx hc
  | dispatch line now delivered =>
    simp only [Call.exec]
    split_ifs with hk
    · exact Line.flagged_dispatch h (.inl hi)
    · exact hi
  | tick now =>
    have hdue : ¬ l.ackDeadline ≤ now := hc
    grind [Call.exec, Line.tick, Line.unmaskIfOpen_eq]

def Call.dispatches (k : Fin n) : Call n → Bool
  | .dispatch line _ _ => line == k
  | _ => false

/-- Every dispatch on the line finds no ack owed on it. -/
def spaced (k : Fin n) : Line → List (Call n) → Bool
  | _, [] => true
  | l, c :: cs => (!c.dispatches k || l.pendingAcks == 0) && spaced k (c.exec k l) cs

lemma sound_exec {l : Line} (h : l.Sound k) (c : Call n)
    (hc : c.dispatches k → l.pendingAcks = 0) : (c.exec k l).Sound k := by
  cases c with
  | releaseContext ctx => exact Line.sound_unregister h ctx
  | tick now => exact Line.sound_tick h now
  | dispatch line now delivered =>
    simp only [Call.exec]
    split_ifs with hk
    · exact Line.sound_dispatch h now delivered (hc (by simp [Call.dispatches, hk]))
    · exact h
  | _ =>
    simp only [Call.exec]
    split_ifs
    · first
        | exact Line.sound_register h _ _ | exact Line.sound_ack h _
        | exact Line.sound_unregister h _ | exact Line.sound_unregisterAll h
    · exact h

lemma run_apply (t : Table n) (calls : List (Call n)) :
    t.run calls k = calls.foldl (Call.exec k) (t k) := by
  induction calls generalizing t with
  | nil => rfl
  | cons c cs ih => exact ih _

/-- On a line whose dispatches all find no ack owed, the counters are right, the line is open
exactly when nothing holds it, and a sharer is waited for until it acks, leaves or is late. -/
theorem lines_open_iff_free (calls : List (Call n)) (k : Fin n)
    (hs : spaced k .reset calls) {l : Line} (hl : l = Table.run (fun _ => .reset) calls k) :
    l.Sound k ∧ ∀ (c : Call n) (i : Fin sharersMax),
      ((l.sharers i).ackPending → ¬ c.excuses k l i → ((c.exec k l).sharers i).ackPending) ∧
      ∀ now delivered, c = .dispatch k now delivered → (c.exec k l).throttled = false →
        (l.sharers i).inUse → delivered i → ((c.exec k l).sharers i).ackPending := by
  have hrun : ∀ l₀ : Line, l₀.Sound k → spaced k l₀ calls →
      (calls.foldl (Call.exec k) l₀).Sound k := by
    clear hs hl
    induction calls with
    | nil => exact fun _ h _ => h
    | cons c cs ih =>
      intro l₀ h hs
      rw [spaced, Bool.and_eq_true] at hs
      exact ih _ (sound_exec h c fun hd => by simpa [hd] using hs.1) hs.2
  have hsound : l.Sound k := by
    rw [hl, run_apply]
    exact hrun _ Line.sound_reset hs
  refine ⟨hsound, fun c i => ⟨fun hi hc => flagged_exec hsound hi c hc, ?_⟩⟩
  rintro now delivered rfl ht hin hd
  simp only [Call.exec, if_true] at ht ⊢
  exact Line.flagged_dispatch hsound (.inr ⟨ht, hin, hd⟩)

def twoSharers (calls : List (Call 2)) : List (Call 2) :=
  .register (.last 1) 7 70 :: .register (.last 1) 8 80 ::
    .dispatch (.last 1) 3 (fun _ => true) :: calls

theorem lines_open_iff_free_acked :
    (Table.run (fun _ => .reset) (twoSharers [.ack 1 7, .ack 1 8]) 1).Sound 1 :=
  (lines_open_iff_free (twoSharers [.ack 1 7, .ack 1 8]) 1 rfl rfl).1

/-- The first sharer's ack reopens the line while the second, whom the second interrupt did not
reach, still owes the ack of the first. -/
theorem redispatch_reopens :
    let l := Table.run (fun _ => .reset) (twoSharers [.dispatch 1 4 fun i => i == 0, .ack 1 7]) 1
    l.masked = false ∧ l.pendingAcks = 0 ∧ (l.sharers 1).inUse ∧ (l.sharers 1).ackPending := by
  decide

end Irq
