import WasmOS.Sched.Stranding

/-! # Waiting for an exit

`process_wait` and `process_thread_join` against the exit they wait for. Each lock section and each
access to a shared field is one step. The owner of the waiting threads stays live, and none of its
threads is spawned or reaped meanwhile, so a scan visits its threads in table order. An exit that
begins while a waiter is between its look at the target and its registration can miss it.
-/

namespace Process

open Interleaving Sched

inductive Kind
  | process
  | thread
  deriving DecidableEq, Repr

inductive TargetState
  | live
  | zombie
  | gone
  deriving DecidableEq, Repr

inductive BlockReason
  | none
  | waitProcess
  | waitThread
  deriving DecidableEq, Repr

def Kind.reason : Kind → BlockReason
  | .process => .waitProcess
  | .thread => .waitThread

structure Waiter where
  state : ThreadState
  reason : BlockReason
  waitTarget : Bool
  wakePending : Bool

structure Shared (ω : Type*) where
  target : TargetState
  /-- `join_waiter_tid` of the target. -/
  joinWaiter : Option ω
  waiter : ω → Waiter

/-- `process_wait` or `process_thread_join`, called again after every wake. -/
inductive WaitPlace
  | check
  | reap
  | readJoiner
  | writeJoiner
  | block
  | record
  | takeToken
  | recheck
  | setReady
  | parked
  | returned
  deriving DecidableEq, Repr

inductive ExitPlace (ω : Type*)
  | alive
  | scan (todo : List ω)
  | readReason (u : ω) (todo : List ω)
  | readTarget (u : ω) (todo : List ω)
  | clearTarget (u : ω) (todo : List ω)
  | readJoiner
  | clearJoiner (u : ω)
  | readState (u : ω)
  | promote (u : ω) (todo : List ω)
  | publish (u : ω) (todo : List ω)
  | claim (u : ω) (todo : List ω)
  | finished
  deriving DecidableEq, Repr

inductive Place (ω : Type*)
  | waiting (p : WaitPlace)
  | exiting (e : ExitPlace ω)
  deriving DecidableEq, Repr

section Step

variable {ω : Type*} [DecidableEq ω]

def Shared.update (s : Shared ω) (w : ω) (f : Waiter → Waiter) : Shared ω :=
  { s with waiter := Function.update s.waiter w (f (s.waiter w)) }

variable (kind : Kind)

def waitNext (w : ω) (s : Shared ω) : WaitPlace → Option (Shared ω × WaitPlace)
  | .check =>
    match s.target, kind with
    | .gone, _ => some (s, .returned)
    | .zombie, _ => some (s, .reap)
    | .live, .process => some (s, .block)
    | .live, .thread => some (s, .readJoiner)
  | .reap => some ({ s with target := .gone }, .returned)
  -- a second joiner is refused
  | .readJoiner =>
    some (s, if s.joinWaiter = none ∨ s.joinWaiter = some w then .writeJoiner else .returned)
  | .writeJoiner => some ({ s with joinWaiter := some w }, .block)
  -- `process_set_blocked`
  | .block =>
    some (s.update w fun t => { t with state := .blocked, reason := kind.reason }, .record)
  | .record =>
    some (s.update w fun t => { t with waitTarget := decide (kind = .process) }, .takeToken)
  -- PROCESS_RUN_BLOCKED
  | .takeToken =>
    some (s.update w fun t => { t with wakePending := false },
      if (s.waiter w).wakePending then .recheck else .parked)
  | .recheck => some (s, if (s.waiter w).state = .blocked then .setReady else .parked)
  | .setReady =>
    some (s.update w fun t => { t with state := .ready, reason := .none }, .parked)
  -- a READY thread is dispatched and calls again
  | .parked =>
    if (s.waiter w).state = .ready then
      some (s.update w fun t => { t with state := .running, reason := .none }, .check)
    else none
  | .returned => none

variable (order : List ω)

def exitNext (s : Shared ω) : ExitPlace ω → Option (Shared ω × ExitPlace ω)
  | .alive =>
    some ({ s with target := .zombie }, match kind with
      | .process => .scan order
      | .thread => .readJoiner)
  -- `process_wake_waiters`
  | .scan [] => some (s, .finished)
  | .scan (u :: us) =>
    some (s, if (s.waiter u).state = .blocked then .readReason u us else .scan us)
  | .readReason u us =>
    some (s, if (s.waiter u).reason = .waitProcess then .readTarget u us else .scan us)
  | .readTarget u us => some (s, if (s.waiter u).waitTarget then .clearTarget u us else .scan us)
  | .clearTarget u us => some (s.update u fun t => { t with waitTarget := false }, .promote u us)
  -- `process_wake_thread_joiner`
  | .readJoiner =>
    some (s, match s.joinWaiter with
      | none => .finished
      | some u => .clearJoiner u)
  | .clearJoiner u => some ({ s with joinWaiter := none }, .readState u)
  | .readState u => some (s, if (s.waiter u).state = .blocked then .promote u [] else .finished)
  -- `thread_wake_if_blocked`, on its own or in `process_set_ready`
  | .promote u us =>
    some (if (s.waiter u).state = .blocked then
        s.update u fun t => { t with state := .ready, reason := .none }
      else s, .publish u us)
  -- `sched_wake_claim_enqueue`: these paths never set `blocking_transition`
  | .publish u us => some (s.update u fun t => { t with wakePending := true }, .claim u us)
  | .claim u us => some (s.update u fun t => { t with wakePending := false }, .scan us)
  | .finished => none

/-- The agents are the waiting threads and the exit, which is the agent without a thread. -/
def next : Option ω → Shared ω → Place ω → Unit → Option (Shared ω × Place ω)
  | some w, s, .waiting p, _ => (waitNext kind w s p).map fun r => (r.1, .waiting r.2)
  | none, s, .exiting e, _ => (exitNext kind order s e).map fun r => (r.1, .exiting r.2)
  | _, _, _, _ => none

def system : System (Option ω) (Shared ω) (Place ω) Unit := ⟨next kind order⟩

end Step

abbrev Machine (ω : Type*) := Config (Option ω) (Shared ω) (Place ω)

def Machine.boot {ω : Type*} : Machine ω where
  shared :=
    { target := .live, joinWaiter := none, waiter := fun _ => ⟨.running, .none, false, false⟩ }
  place
    | some _ => .waiting .check
    | none => .exiting .alive

open Interleaving Sched Function Machine List

variable {ω : Type*} {kind : Kind} {order : List ω} {s s' : Shared ω} {w u : ω}

/-- The waiter has looked at the target and is not registered yet. -/
@[simp] def WaitPlace.registers : WaitPlace → Bool
  | .readJoiner | .writeJoiner | .block | .record => true
  | _ => false

/-- The waiter is registered and has given up the CPU, or is about to. -/
@[simp] def WaitPlace.sleeps : WaitPlace → Bool
  | .takeToken | .recheck | .setReady | .parked => true
  | _ => false

def Shared.Registered (kind : Kind) (s : Shared ω) (w : ω) : Prop :=
  match kind with
  | .process => (s.waiter w).reason = .waitProcess ∧ (s.waiter w).waitTarget = true
  | .thread => s.joinWaiter = some w

def ExitPlace.Owes (kind : Kind) (s : Shared ω) (w : ω) : ExitPlace ω → Prop
  | .alive => s.Registered kind w
  | .scan us => kind = .process ∧ w ∈ us ∧ s.Registered kind w
  | .readReason u us | .readTarget u us | .clearTarget u us =>
    kind = .process ∧ (w = u ∨ w ∈ us) ∧ s.Registered kind w
  | .readJoiner => kind = .thread ∧ s.Registered kind w
  | .clearJoiner u | .readState u => kind = .thread ∧ w = u
  | .promote u us => w = u ∨ kind = .process ∧ w ∈ us ∧ s.Registered kind w
  | .publish _ us | .claim _ us => kind = .process ∧ w ∈ us ∧ s.Registered kind w
  | .finished => False

variable {e : ExitPlace ω}

lemma ExitPlace.Owes.mono (h : e.Owes kind s w)
    (hreg : s.Registered kind w → s'.Registered kind w) : e.Owes kind s' w := by
  cases e with
  | alive => exact hreg h
  | scan | publish | claim | readReason | readTarget | clearTarget => exact ⟨h.1, h.2.1, hreg h.2.2⟩
  | readJoiner => exact ⟨h.1, hreg h.2⟩
  | clearJoiner | readState | finished => exact h
  | promote u us => exact h.imp_right fun h => ⟨h.1, h.2.1, hreg h.2.2⟩

lemma owes_of_test {us : List ω} {b : Prop} [Decidable b] (hb : w = u → b)
    (hk : kind = .process) (hmem : w = u ∨ w ∈ us) (hreg : s.Registered kind w)
    (he : e.Owes kind s w) : (if b then e else .scan us).Owes kind s w := by
  split
  next => exact he
  next hnot => exact ⟨hk, hmem.resolve_left (mt hb hnot), hreg⟩

/-- Every blocked thread is on its way into its sleep, or the exit is bound to wake it. -/
structure Covered (kind : Kind) (s : Shared ω) (e : ExitPlace ω) (p : ω → WaitPlace) : Prop where
  alive_iff : e = .alive ↔ s.target = .live
  late : ∀ w, (p w).registers = true → e = .alive
  reaps : ∀ w, p w = .reap → e ≠ .alive
  joins : ∀ w, p w = .block ∨ p w = .record → kind = .thread → s.joinWaiter = some w
  reason : ∀ w, p w = .record → (s.waiter w).reason = kind.reason
  asleep : ∀ w, (s.waiter w).state = .blocked →
    p w = .record ∨ (p w).sleeps = true ∧ e.Owes kind s w

lemma Covered.awake {p : ω → WaitPlace} (h : Covered kind s e p)
    (hrecord : p w ≠ .record) (hsleeps : (p w).sleeps = false) : (s.waiter w).state ≠ .blocked := by
  intro hs
  rcases h.asleep w hs with hp | ⟨hp, -⟩
  · exact hrecord hp
  · exact Bool.false_ne_true (hsleeps.symm.trans hp)

section Step

variable [DecidableEq ω] {e e' : ExitPlace ω} {p : ω → WaitPlace} {q : WaitPlace}

variable {f : Waiter → Waiter}

@[simp] lemma update_target : (s.update w f).target = s.target := rfl

@[simp] lemma update_joinWaiter : (s.update w f).joinWaiter = s.joinWaiter := rfl

@[simp] lemma update_waiter_self : (s.update w f).waiter w = f (s.waiter w) := update_self ..

lemma update_waiter_of_ne (h : u ≠ w) : (s.update w f).waiter u = s.waiter u := update_of_ne h ..

lemma update_id : s.update w id = s := by
  simp [Shared.update]

lemma Covered.move (h : Covered kind s e p) (htarget : s'.target = .live ↔ s.target = .live)
    (hwaiter : ∀ u, u ≠ w → s'.waiter u = s.waiter u)
    (hjoin : ∀ u, u ≠ w → kind = .thread → s.joinWaiter = some u → s'.joinWaiter = some u)
    (hlate : q.registers = true → e = .alive) (hreaps : q = .reap → e ≠ .alive)
    (hjoins : q = .block ∨ q = .record → kind = .thread → s'.joinWaiter = some w)
    (hreason : q = .record → (s'.waiter w).reason = kind.reason)
    (hasleep : (s'.waiter w).state = .blocked → q = .record ∨ q.sleeps = true ∧ e.Owes kind s' w) :
    Covered kind s' e (update p w q) := by
  have hreg : ∀ u, u ≠ w → s.Registered kind u → s'.Registered kind u := by
    intro u hu hs
    cases kind with
    | process => simpa only [Shared.Registered, hwaiter u hu] using hs
    | thread => exact hjoin u hu rfl hs
  refine ⟨by rw [h.alive_iff, htarget], ?_, ?_, ?_, ?_, ?_⟩ <;> intro u <;>
    rcases eq_or_ne u w with rfl | hu
  all_goals first
    | rw [update_self]; assumption
    | rw [update_of_ne hu]
  · exact h.late u
  · exact h.reaps u
  · exact fun hp hk => hjoin u hu hk (h.joins u hp hk)
  · rw [hwaiter u hu]
    exact h.reason u
  · rw [hwaiter u hu]
    exact fun hs => (h.asleep u hs).imp_right fun ⟨hp, ho⟩ => ⟨hp, ho.mono (hreg u hu)⟩

lemma Covered.sleep (h : Covered kind s e p) (hp : p w ≠ .record) (hq : q.sleeps = true)
    (hstate : (f (s.waiter w)).state = .blocked → (s.waiter w).state = .blocked ∧
      (f (s.waiter w)).reason = (s.waiter w).reason ∧
      (f (s.waiter w)).waitTarget = (s.waiter w).waitTarget) :
    Covered kind (s.update w f) e (update p w q) := by
  refine h.move (by simp) (fun u hu => update_waiter_of_ne hu) (fun u _ _ hj => hj) ?_ ?_ ?_ ?_ ?_
  · intro hr
    cases q <;> simp at hq hr
  · rintro rfl
    cases hq
  · rintro (rfl | rfl) <;> cases hq
  · rintro rfl
    cases hq
  intro hs
  rw [update_waiter_self] at hs
  obtain ⟨hs, hreason, htarget⟩ := hstate hs
  refine (h.asleep w hs).elim (fun hrecord => absurd hrecord hp) fun ⟨_, ho⟩ =>
    .inr ⟨hq, ho.mono ?_⟩
  cases kind with
  | process => simp [Shared.Registered, hreason, htarget]
  | thread => exact id

lemma waitNext_covered (h : Covered kind s e p)
    (hcare : p w = .writeJoiner → s.joinWaiter = none ∨ s.joinWaiter = some w)
    (hnext : waitNext kind w s (p w) = some (s', q)) :
    Covered kind s' e (update p w q) := by
  have hlive := h.alive_iff
  have hlate := h.late w
  have hjoins := h.joins w
  have hawake := h.awake (w := w)
  cases hp : p w with rw [hp] at hnext hlate hjoins hawake
  | check =>
    cases htarget : s.target <;> cases kind <;> simp [waitNext, htarget] at hnext <;>
      obtain ⟨rfl, rfl⟩ := hnext <;> apply h.move <;> simp_all
  | reap =>
    have hdead := h.reaps w hp
    cases hnext
    apply h.move <;> simp_all
  | readJoiner =>
    cases hnext
    split <;> apply h.move <;> simp_all
  | writeJoiner =>
    cases hnext
    apply h.move <;> simp_all
    rintro u hu - hj
    rcases hcare with hnone | hmine
    · cases hnone.symm.trans hj
    · exact Option.some.inj (hmine.symm.trans hj)
  | block =>
    cases hnext
    apply h.move <;> simp_all +contextual [update_waiter_of_ne]
  | record =>
    have hreason := h.reason w hp
    cases hnext
    apply h.move <;> simp_all +contextual [update_waiter_of_ne]
    -- before the exit begins, being registered is enough
    intro _
    cases kind with
    | process => simp [ExitPlace.Owes, Shared.Registered, hreason, Kind.reason]
    | thread => exact hjoins rfl
  | takeToken =>
    cases hnext
    apply h.sleep
    · simp [hp]
    · split <;> rfl
    · simp
  | recheck =>
    cases hnext
    rw [← update_id (s := s) (w := w)]
    apply h.sleep
    · simp [hp]
    · split <;> rfl
    · simp
  | setReady =>
    cases hnext
    apply h.sleep <;> simp [hp]
  | parked =>
    obtain ⟨hready, rfl, rfl⟩ : (s.waiter w).state = .ready ∧ _ = s' ∧ _ = q := by
      simpa [waitNext] using hnext
    apply h.move <;> simp_all +contextual [update_waiter_of_ne]
  | returned => cases hnext

lemma registered_update (hf : w = u → (f (s.waiter u)).reason = (s.waiter u).reason ∧
      (f (s.waiter u)).waitTarget = (s.waiter u).waitTarget)
    (h : s.Registered kind w) : (s.update u f).Registered kind w := by
  cases kind with
  | process =>
    rcases eq_or_ne w u with rfl | hw
    · simpa [Shared.Registered, hf rfl] using h
    · simpa [Shared.Registered, update_waiter_of_ne hw] using h
  | thread => exact h

lemma state_update (hf : (f (s.waiter u)).state = (s.waiter u).state) :
    ((s.update u f).waiter w).state = (s.waiter w).state := by
  rcases eq_or_ne w u with rfl | hw
  · rw [update_waiter_self, hf]
  · rw [update_waiter_of_ne hw]

lemma exitNext_owes (horder : ∀ w, w ∈ order) (hnext : exitNext kind order s e = some (s', e'))
    (hs' : (s'.waiter w).state = .blocked) :
    (s.waiter w).state = .blocked ∧ (e.Owes kind s w → e'.Owes kind s' w) := by
  cases e with
  | alive =>
    cases kind <;> simp [exitNext] at hnext <;> obtain ⟨rfl, rfl⟩ := hnext <;>
      exact ⟨hs', fun ho => by simpa [ExitPlace.Owes, Shared.Registered, horder] using ho⟩
  | scan us =>
    cases us with
    | nil =>
      cases hnext
      exact ⟨hs', fun ho => absurd ho.2.1 not_mem_nil⟩
    | cons u us =>
      cases hnext
      refine ⟨hs', ?_⟩
      rintro ⟨hk, hmem, hreg⟩
      rw [mem_cons] at hmem
      exact owes_of_test (u := u) (fun h => h ▸ hs') hk hmem hreg ⟨hk, hmem, hreg⟩
  | readReason u us | readTarget u us =>
    cases hnext
    refine ⟨hs', ?_⟩
    rintro ⟨rfl, hmem, hreg⟩
    refine owes_of_test (u := u) ?_ rfl hmem hreg ⟨rfl, hmem, hreg⟩
    rintro rfl
    first | exact hreg.1 | exact hreg.2
  | clearTarget u us =>
    cases hnext
    rw [state_update rfl] at hs'
    refine ⟨hs', ?_⟩
    rintro ⟨hk, hmem, hreg⟩
    by_cases hw : w = u
    · exact .inl hw
    · exact .inr ⟨hk, hmem.resolve_left hw, registered_update (fun h => absurd h hw) hreg⟩
  | readJoiner =>
    cases hnext
    refine ⟨hs', ?_⟩
    rintro ⟨rfl, hreg⟩
    have hjoin : s.joinWaiter = some w := hreg
    rw [hjoin]
    exact ⟨rfl, rfl⟩
  | clearJoiner u =>
    cases hnext
    exact ⟨hs', id⟩
  | readState u =>
    cases hnext
    refine ⟨hs', ?_⟩
    rintro ⟨-, rfl⟩
    rw [if_pos hs']
    exact .inl rfl
  | promote u us =>
    cases hnext
    split at hs' <;> rename_i hu
    · have hw : w ≠ u := by
        rintro rfl
        simp at hs'
      rw [update_waiter_of_ne hw] at hs'
      refine ⟨hs', fun ho => ?_⟩
      obtain ⟨hk, hmem, hreg⟩ := ho.resolve_left hw
      rw [if_pos hu]
      exact ⟨hk, hmem, registered_update (fun h => absurd h hw) hreg⟩
    have hw : w ≠ u := by
      rintro rfl
      exact hu hs'
    rw [if_neg hu]
    exact ⟨hs', fun ho => ho.resolve_left hw⟩
  | publish u us | claim u us =>
    cases hnext
    rw [state_update rfl] at hs'
    refine ⟨hs', ?_⟩
    rintro ⟨hk, hmem, hreg⟩
    exact ⟨hk, hmem, registered_update (fun _ => ⟨rfl, rfl⟩) hreg⟩
  | finished => cases hnext

lemma exitNext_dead (h : e ≠ .alive → s.target ≠ .live)
    (hnext : exitNext kind order s e = some (s', e')) : e' ≠ .alive ∧ s'.target ≠ .live := by
  unfold exitNext at hnext
  split at hnext <;> grind [Shared.update]

lemma exitNext_covered (horder : ∀ w, w ∈ order) (h : Covered kind s e p)
    (hcare : e = .alive → ∀ w, (p w).registers = false)
    (hnext : exitNext kind order s e = some (s', e')) : Covered kind s' e' p := by
  have hdead := exitNext_dead (mt h.alive_iff.2) hnext
  -- once the exit has begun, nobody is on the way into a registration
  have hnone : ∀ w, (p w).registers = false := by
    intro w
    by_cases he : e = .alive
    · exact hcare he w
    · exact Bool.eq_false_iff.2 (mt (h.late w) he)
  constructor
  · exact iff_of_false hdead.1 hdead.2
  · intro w hw
    rw [hnone w] at hw
    cases hw
  · exact fun _ _ => hdead.1
  · intro w hw
    have := hnone w
    rcases hw with hw | hw <;> rw [hw] at this <;> cases this
  · intro w hw
    have := hnone w
    rw [hw] at this
    cases this
  · intro w hs'
    obtain ⟨hs, howes⟩ := exitNext_owes horder hnext hs'
    exact (h.asleep w hs).imp_right fun ⟨hp, ho⟩ => ⟨hp, howes ho⟩

end Step

section Run

variable {n : ℕ} {g g' : Machine (Fin n)}

@[simp] def Place.registers : Place ω → Bool
  | .waiting p => p.registers
  | .exiting _ => false

/-- The exit has finished its scan, and a thread is asleep over it with no wake to come. -/
structure Machine.Missed (g : Machine ω) : Prop where
  dead : g.shared.target ≠ .live
  finished : g.place none = .exiting .finished
  asleep : ∃ w, (g.shared.waiter w).state = .blocked ∧ (g.shared.waiter w).wakePending = false

/-- The exit does not begin while a thread is about to register, and no second joiner overwrites the
first. -/
def Machine.Careful (g : Machine (Fin n)) : Option (Fin n) × Unit → Prop
  | (none, _) => g.place none = .exiting .alive → ∀ w, (g.place (some w)).registers = false
  | (some w, _) => g.place (some w) = .waiting .writeJoiner →
    g.shared.joinWaiter = none ∨ g.shared.joinWaiter = some w

instance (g : Machine (Fin n)) : (l : Option (Fin n) × Unit) → Decidable (g.Careful l)
  | (none, _) => inferInstanceAs
    (Decidable (g.place none = .exiting .alive → ∀ w, (g.place (some w)).registers = false))
  | (some w, _) => inferInstanceAs (Decidable (g.place (some w) = .waiting .writeJoiner →
      g.shared.joinWaiter = none ∨ g.shared.joinWaiter = some w))

structure Machine.Inv (kind : Kind) (g : Machine (Fin n)) (e : ExitPlace (Fin n))
    (p : Fin n → WaitPlace) : Prop where
  exiting : g.place none = .exiting e
  waiting : ∀ w, g.place (some w) = .waiting (p w)
  covered : Covered kind g.shared e p

lemma Machine.step_inv (l : Option (Fin n) × Unit) (h : ∃ e p, g.Inv kind e p)
    (hcare : g.Careful l) (hstep : (system kind (finRange n)).step g l = some g') :
    ∃ e p, g'.Inv kind e p := by
  obtain ⟨e, p, hg⟩ := h
  obtain ⟨a, c⟩ := l
  obtain ⟨s', q, hnext, rfl⟩ := System.step_ok hstep
  cases a with
  | none =>
    simp only [system, hg.exiting, next, Option.map_eq_some_iff] at hnext
    obtain ⟨⟨s', e'⟩, hnext, hout⟩ := hnext
    cases hout
    have hcovered := exitNext_covered mem_finRange hg.covered (fun he w => by
      have := hcare (he ▸ hg.exiting) w
      rwa [hg.waiting w] at this) hnext
    exact ⟨e', p, by simp, by simp [hg.waiting], hcovered⟩
  | some w =>
    simp only [system, hg.waiting w, next, Option.map_eq_some_iff] at hnext
    obtain ⟨⟨s', q'⟩, hnext, hout⟩ := hnext
    cases hout
    have hcovered := waitNext_covered hg.covered (fun hp => hcare (hp ▸ hg.waiting w)) hnext
    refine ⟨e, update p w q', by simp [hg.exiting], fun u => ?_, hcovered⟩
    rcases eq_or_ne u w with rfl | hu
    · simp
    · simp [hu, hg.waiting]

lemma Machine.inv_boot : (boot : Machine (Fin n)).Inv kind .alive fun _ => .check where
  exiting := rfl
  waiting _ := rfl
  covered := ⟨by simp [boot], by simp, by simp, by simp, by simp, by simp [boot]⟩

lemma Machine.Inv.not_missed {e : ExitPlace (Fin n)} {p : Fin n → WaitPlace}
    (hg : g.Inv kind e p) : ¬ g.Missed := by
  rintro ⟨-, hfinished, w, hs, -⟩
  obtain rfl : e = .finished := by simpa [hg.exiting] using hfinished
  rcases hg.covered.asleep w hs with hp | ⟨-, ho⟩
  · cases hg.covered.late w (by simp [hp])
  · exact ho

/-- Any number of threads wait for a process or join a thread. If the exit does not begin while one
of them is between its look at the target and its registration, none is left asleep when it is over.
-/
theorem no_exit_missed (kind : Kind) (ls : List (Option (Fin n) × Unit)) (g : Machine (Fin n))
    (hcare : (system kind (finRange n)).Allowed Machine.Careful boot ls)
    (hrun : (system kind (finRange n)).run boot ls = some g) : ¬ g.Missed := by
  obtain ⟨e, p, hg⟩ := System.run_invariant
    (fun _ l _ hg hok h => step_inv l hg hok h) ls _ g
    ⟨_, _, inv_boot⟩ hcare hrun
  exact hg.not_missed

end Run

/-! ## A look at the target before the exit, and a block after it -/

def waiterSteps (k : ℕ) : List (Option (Fin 1) × Unit) := replicate k (some 0, ())

def exitSteps (k : ℕ) : List (Option (Fin 1) × Unit) := replicate k (none, ())

def parkThenExit : List (Option (Fin 1) × Unit) := waiterSteps 4 ++ exitSteps 9 ++ waiterSteps 3

theorem no_exit_missed_parkThenExit :
    ∃ g : Machine (Fin 1), (system .process (finRange 1)).run boot parkThenExit = some g ∧
      (system .process (finRange 1)).Allowed Machine.Careful boot parkThenExit ∧
      g.place none = .exiting .finished ∧ g.place (some 0) = .waiting .returned ∧ ¬ g.Missed := by
  have hcare : (system .process (finRange 1)).Allowed Machine.Careful boot
      parkThenExit := by
    decide +kernel
  have hrun : ∃ g : Machine (Fin 1), (system .process (finRange 1)).run boot parkThenExit = some g ∧
        g.place none = .exiting .finished ∧ g.place (some 0) = .waiting .returned := by
    decide +kernel
  obtain ⟨g, hg, hfinished, hreturned⟩ := hrun
  exact ⟨g, hg, hcare, hfinished, hreturned, no_exit_missed .process _ g hcare hg⟩

/-- The child exits between the parent's look at it and the parent's block. -/
def waitTooLate : List (Option (Fin 1) × Unit) := waiterSteps 1 ++ exitSteps 3 ++ waiterSteps 3

/-- The thread exits between the joiner's look at it and the joiner's registration. -/
def joinTooLate : List (Option (Fin 1) × Unit) := waiterSteps 1 ++ exitSteps 2 ++ waiterSteps 5

theorem tooLate_missed : (∃ g : Machine (Fin 1),
      (system .process (finRange 1)).run boot waitTooLate = some g ∧
        g.place (some 0) = .waiting .parked ∧ g.Missed) ∧ ∃ g : Machine (Fin 1),
      (system .thread (finRange 1)).run boot joinTooLate = some g ∧
        g.place (some 0) = .waiting .parked ∧ g.Missed := by
  have hwait : ∃ g : Machine (Fin 1), (system .process (finRange 1)).run boot waitTooLate = some g ∧
        g.place (some 0) = .waiting .parked ∧ g.shared.target ≠ .live ∧
        g.place none = .exiting .finished ∧ (g.shared.waiter 0).state = .blocked ∧
        (g.shared.waiter 0).wakePending = false := by
    decide +kernel
  have hjoin : ∃ g : Machine (Fin 1), (system .thread (finRange 1)).run boot joinTooLate = some g ∧
        g.place (some 0) = .waiting .parked ∧ g.shared.target ≠ .live ∧
        g.place none = .exiting .finished ∧ (g.shared.waiter 0).state = .blocked ∧
        (g.shared.waiter 0).wakePending = false := by
    decide +kernel
  obtain ⟨g, hg, hparked, hdead, hfinished, hasleep⟩ := hwait
  obtain ⟨g', hg', hparked', hdead', hfinished', hasleep'⟩ := hjoin
  exact ⟨⟨g, hg, hparked, hdead, hfinished, 0, hasleep⟩,
    ⟨g', hg', hparked', hdead', hfinished', 0, hasleep'⟩⟩

end Process
