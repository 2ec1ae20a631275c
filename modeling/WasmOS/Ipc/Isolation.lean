import WasmOS.Ipc.Unwinding

/-! # A context learns nothing of endpoints it does not own

Two runs that differ only in what is sent or notified to endpoints a context does not own tell the
context the same, as long as their sections are `Careful`. Otherwise a set that `ipc_select_add`
gave a foreign endpoint reports what another context is sent.
-/

namespace Ipc

open State

variable {s t : State} {ctx : UInt32} {e : Event} {es : List Event}

def Hidden (ctx : UInt32) (s : State) : Event → Bool
  | .sendFrom _ endpoint _ | .notifyFrom _ endpoint => !s.owns ctx endpoint
  | .noteContact _ _ destination => !s.owns ctx destination
  | _ => false

def purge (ctx : UInt32) : State → List Event → List Event
  | _, [] => []
  | s, e :: es =>
    if Hidden ctx s e then purge ctx (exec s e).2 es else e :: purge ctx (exec s e).2 es

def EnabledRun : State → List Event → Prop
  | _, [] => True
  | s, e :: es => Enabled s e ∧ EnabledRun (exec s e).2 es

def CarefulRun (ctx : UInt32) : State → List Event → Prop
  | _, [] => True
  | s, e :: es => Careful ctx s e ∧ CarefulRun ctx (exec s e).2 es

lemma foreign_of_not_owns (h : Guarded ctx s) {id : UInt32} (hid : s.owns ctx id = false) :
    Foreign ctx s id := by
  intro ep hget ho
  rw [h.owns_endpoint hget] at hid
  exact of_decide_eq_false hid ho

lemma Guarded.hidden (h : Guarded ctx s) (he : Hidden ctx s e = true) :
    (exec s e).1 = none ∧ Same ctx (exec s e).2 s := by
  cases e with
  | sendFrom sender endpoint msg =>
    rw [Hidden, Bool.not_eq_true'] at he
    exact ⟨rfl, h.same_locked (locked_sendFrom _ _ _) (foreign_of_not_owns h he)⟩
  | notifyFrom sender endpoint =>
    rw [Hidden, Bool.not_eq_true'] at he
    exact ⟨rfl, h.same_locked (locked_notifyFrom _ _) (foreign_of_not_owns h he)⟩
  | noteContact alloc source destination =>
    rw [Hidden, Bool.not_eq_true'] at he
    exact ⟨rfl, same_noteContact he⟩
  | _ => exact absurd he Bool.false_ne_true

lemma heard_map (caller : UInt32) (reply : Option Reply) :
    heard ctx (reply.map (caller, ·)) = if caller = ctx then reply else none := by
  cases reply with
  | none => simp [heard]
  | some r => rfl

lemma Agree.heard {caller : UInt32} {x y : Option Reply × State} (h : Agree ctx caller x y) :
    heard ctx (x.1.map (caller, ·)) = heard ctx (y.1.map (caller, ·)) ∧ Same ctx x.2 y.2 := by
  refine ⟨?_, h.state⟩
  rw [heard_map, heard_map]
  split
  next hc => exact h.reply hc
  · rfl

/-- A section in the tables and in the context's view of them: the context is told the
same, and afterwards the two still look the same to it. -/
lemma Guarded.step_view (h : Guarded ctx s) (hk : ctx ≠ contextKernel) (he : Enabled s e)
    (hc : Careful ctx s e) :
    heard ctx (exec s e).1 = heard ctx (exec (s.view ctx) e).1 ∧
      Same ctx (exec s e).2 (exec (s.view ctx) e).2 := by
  cases e with
  | endpointCreate grow owner type => exact ⟨rfl, congr_endpointCreate hc⟩
  | endpointsReleaseOwner owner => exact ⟨rfl, congr_endpointsReleaseOwner owner⟩
  | hangupDeliver record => exact ⟨rfl, h.congr_hangupDeliver record⟩
  | contextWatch alloc contextId destination => exact ⟨rfl, congr_contextWatch _ _ _⟩
  | sendFrom sender endpoint msg =>
    exact ⟨rfl, h.same_of_endpoint endpoint
      (fun _ => locked_sendFrom _ _ _) fun _ hget ho => congr_sendFrom hget ho⟩
  | noteContact alloc source destination =>
    refine ⟨rfl, ?_⟩
    cases hd : s.owns ctx destination with
    | true => exact congr_noteContact hd (hc hd)
    | false => exact same_both (same_noteContact hd) (same_noteContact (by rwa [owns_view]))
  | notifyFrom sender endpoint =>
    exact ⟨rfl, h.same_of_endpoint endpoint
      (fun _ => locked_notifyFrom _ _) fun _ hget ho => congr_notifyFrom hget ho⟩
  | waitFor receiver endpoint =>
    exact ⟨rfl, h.same_of_endpoint endpoint
      (fun _ => locked_waitFor _ _) fun _ hget ho => congr_waitFor hget ho⟩
  | recvFor receiver endpoint =>
    exact (h.agree_recvFor hk receiver endpoint).heard
  | recvBlockingFor tid receiver endpoint =>
    exact (h.agree_recvBlockingFor hk he receiver endpoint).heard
  | endpointWaitFor tid receiver endpoint =>
    exact (h.agree_endpointWaitFor hk he receiver endpoint).heard
  | selectCreate grow owner => exact ⟨rfl, congr_selectCreate hc⟩
  | selectAdd alloc select endpoint owner =>
    have hagree := agree_selectAdd s ctx alloc select endpoint owner
    refine ⟨?_, hagree.2⟩
    simp only [exec, hagree.1]
  | selectWait tid select owner =>
    exact (h.agree_selectScan hk he select owner .status (.inl rfl)).heard
  | selectDestroy select owner => exact ⟨rfl, congr_selectDestroy select owner⟩
  | resume tid =>
    cases hb : s.blocked tid with
    | none =>
      simp only [exec, hb, view_blocked_none hb]
      exact ⟨trivial, same_view s⟩
    | some b =>
      cases ht : s.touches ctx b with
      | true =>
        have hv : (s.view ctx).blocked tid = some b := by
          show (s.blocked tid).filter _ = some b
          rw [hb, Option.filter_some, if_pos ht]
        simp only [exec, hb, hv]
        exact (h.agree_resume hk hb).heard
      | false =>
        -- the view does not have the thread
        have hv : (s.view ctx).blocked tid = none := by
          show (s.blocked tid).filter _ = none
          rw [hb, Option.filter_some, if_neg (by rw [ht]; exact Bool.false_ne_true)]
        have hne : b.contextId ≠ ctx := by
          rintro hc
          simp [State.touches, hc] at ht
        simp only [exec, hb, hv]
        refine ⟨?_, (h.same_resume hk hb ht).trans (same_view s)⟩
        rw [heard_map, if_neg hne]
        rfl

section

variable (hk : ctx ≠ contextKernel)
include hk

lemma step_same (hst : Same ctx s t) (hs : Guarded ctx s)
    (ht : Guarded ctx t) (hse : Enabled s e) (hte : Enabled t e) (hsc : Careful ctx s e)
    (htc : Careful ctx t e) :
    heard ctx (exec s e).1 = heard ctx (exec t e).1 ∧ Same ctx (exec s e).2 (exec t e).2 := by
  obtain ⟨hsh, hss⟩ := hs.step_view hk hse hsc
  obtain ⟨hth, hts⟩ := ht.step_view hk hte htc
  rw [hst] at hsh hss
  exact ⟨hsh.trans hth.symm, hss.trans hts.symm⟩

lemma replies_of_purge_nil (h : Guarded ctx s)
    (hc : CarefulRun ctx s es) (hp : purge ctx s es = []) : replies ctx s es = [] := by
  induction es generalizing s with
  | nil => rfl
  | cons e es ih =>
    unfold purge at hp
    split at hp
    next he =>
      obtain ⟨hnone, -⟩ := h.hidden he
      unfold replies
      rw [hnone, ih (guarded_exec hk h hc.1) hc.2 hp]
      rfl
    · cases hp

lemma exists_of_purge_cons (h : Guarded ctx s)
    (hen : EnabledRun s es) (hc : CarefulRun ctx s es) {l : List Event}
    (hp : purge ctx s es = e :: l) :
    ∃ t es', Same ctx t s ∧ Guarded ctx t ∧ EnabledRun t (e :: es') ∧ CarefulRun ctx t (e :: es') ∧
      purge ctx (exec t e).2 es' = l ∧ replies ctx s es = replies ctx t (e :: es') := by
  induction es generalizing s with
  | nil => cases hp
  | cons e₀ es ih =>
    unfold purge at hp
    split at hp
    next he =>
      obtain ⟨hnone, hsame⟩ := h.hidden he
      obtain ⟨t, es', hts, hg, hen', hc', hl, hr⟩ := ih (guarded_exec hk h hc.1) hen.2 hc.2 hp
      refine ⟨t, es', hts.trans hsame, hg, hen', hc', hl, ?_⟩
      rw [← hr]
      show (heard ctx (exec s e₀).1).toList ++ _ = _
      rw [hnone]
      rfl
    next he =>
      cases hp
      exact ⟨s, es, rfl, h, hen, hc, rfl, rfl⟩

lemma replies_eq_of_same {es₁ es₂ : List Event}
    (hst : Same ctx s t) (hs : Guarded ctx s) (ht : Guarded ctx t)
    (he₁ : EnabledRun s es₁) (he₂ : EnabledRun t es₂)
    (hc₁ : CarefulRun ctx s es₁) (hc₂ : CarefulRun ctx t es₂)
    (hp : purge ctx s es₁ = purge ctx t es₂) : replies ctx s es₁ = replies ctx t es₂ := by
  -- the first run section by section; the second is brought to the same point each time
  induction es₁ generalizing s t es₂ with
  | nil => rw [replies_of_purge_nil hk ht hc₂ hp.symm, replies]
  | cons e es₁ ih =>
    have hgs := guarded_exec hk hs hc₁.1
    rw [purge] at hp
    split at hp
    next hidden =>
      obtain ⟨hnone, hsame⟩ := hs.hidden hidden
      have hrest := ih (hsame.trans hst) hgs ht he₁.2 he₂ hc₁.2 hc₂ hp
      rw [replies, hnone, hrest]
      rfl
    next hseen =>
      obtain ⟨t', es₂', hts, hg, he₂', hc₂', hl, hr⟩ := exists_of_purge_cons hk ht he₂ hc₂ hp.symm
      obtain ⟨hheard, hsame⟩ := step_same hk (hst.trans hts.symm) hs hg he₁.1 he₂'.1 hc₁.1 hc₂'.1
      have hrest := ih hsame hgs (guarded_exec hk hg hc₂'.1) he₁.2 he₂'.2 hc₁.2 hc₂'.2 hl.symm
      rw [hr, replies, replies, hheard, hrest]

end

/-- Two runs that differ only in what is sent or notified to endpoints of others tell the context
the same, if their sections meet the conditions. -/
theorem isolation (hk : ctx ≠ contextKernel) {es₁ es₂ : List Event}
    (he₁ : EnabledRun .init es₁) (he₂ : EnabledRun .init es₂)
    (hc₁ : CarefulRun ctx .init es₁) (hc₂ : CarefulRun ctx .init es₂)
    (hp : purge ctx .init es₁ = purge ctx .init es₂) :
    replies ctx .init es₁ = replies ctx .init es₂ :=
  replies_eq_of_same hk rfl (guarded_init ctx) (guarded_init ctx) he₁ he₂ hc₁ hc₂ hp

instance (s : State) : DecidablePred (Enabled s) := fun e => by
  unfold Enabled
  split <;> infer_instance

instance decidableEnabledRun : ∀ (s : State) (es : List Event), Decidable (EnabledRun s es)
  | _, [] => inferInstanceAs (Decidable True)
  | s, e :: es =>
    have := decidableEnabledRun (exec s e).2 es
    inferInstanceAs (Decidable (_ ∧ _))

/-- Context 1 waits on its endpoint 1 while endpoint 2 of context 2 is or is not sent a message. -/
def receiveWhile (sent : List Event) : List Event :=
  [.endpointCreate true 1 .message, .endpointCreate true 2 .message, .recvBlockingFor 5 1 1] ++
    sent ++ [.sendFrom 0 1 ⟨7, 0, 0, 1, 0, 0, 0, 0⟩, .resume 5]

lemma careful_create {s : State} {grow : Bool} {owner id : UInt32} {type : EndpointType}
    {c : IdCounter}
    (hid : s.endpointIds.alloc (fun id => s.endpoints.any (·.id == id)) (s.endpoints.length + 1) =
      some (id, c)) (hu : Unreferenced s id) :
    Careful ctx s (.endpointCreate grow owner type) := by
  intro x hx
  rw [hid, Option.mem_def, Option.some.injEq] at hx
  rwa [← hx]

lemma careful_receiveWhile {sent : List Event}
    (h : sent = [] ∨ sent = [.sendFrom 0 2 ⟨9, 0, 0, 1, 0, 0, 0, 0⟩]) :
    CarefulRun 1 .init (receiveWhile sent) := by
  have h₁ : Unreferenced .init 1 := by
    constructor <;> first | decide | exact fun tid b hb => nomatch hb
  have h₂ : Unreferenced (exec .init (.endpointCreate true 1 .message)).2 2 := by
    constructor <;> first | decide | exact fun tid b hb => nomatch hb
  refine ⟨careful_create rfl h₁, careful_create rfl h₂, ?_⟩
  rcases h with rfl | rfl
  · exact ⟨trivial, trivial, trivial, trivial⟩
  · exact ⟨trivial, trivial, trivial, trivial, trivial⟩

theorem isolation_receiveWhile :
    replies 1 .init (receiveWhile [.sendFrom 0 2 ⟨9, 0, 0, 1, 0, 0, 0, 0⟩]) =
      replies 1 .init (receiveWhile []) :=
  isolation (by decide) (by decide +kernel) (by decide +kernel) (careful_receiveWhile (.inr rfl))
    (careful_receiveWhile (.inl rfl)) (by decide +kernel)

/-- Context 1 waits on a set with endpoint 1 of context 2, which `ipc_select_add` allows. -/
def watchOther (sent : List Event) : List Event :=
  [.endpointCreate true 2 .message, .selectCreate true 1, .selectAdd true 1 1 1] ++ sent ++
    [.selectWait 5 1 1, .resume 5, .resume 5, .resume 5]

/-- The two runs differ in a message to endpoint 1 only, and context 1 hears of it. -/
theorem watchOther_leaks : EnabledRun .init (watchOther [.sendFrom 0 1 ⟨9, 0, 0, 1, 0, 0, 0, 0⟩]) ∧
    EnabledRun .init (watchOther []) ∧
    purge 1 .init (watchOther [.sendFrom 0 1 ⟨9, 0, 0, 1, 0, 0, 0, 0⟩]) =
      purge 1 .init (watchOther []) ∧
    replies 1 .init (watchOther [.sendFrom 0 1 ⟨9, 0, 0, 1, 0, 0, 0, 0⟩]) =
      [.status .ok, .ready 1] ∧
    replies 1 .init (watchOther []) = [.status .ok, .status .empty] := by
  decide +kernel

end Ipc
