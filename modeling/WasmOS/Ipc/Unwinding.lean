import WasmOS.Ipc.Guard

/-! # Sections and the view of a context

What a section does to the tables it does to the view of a context as well, and the
context is told the same. A section on an endpoint or a set of another context does
nothing to the view at all.
-/

namespace Ipc

open State List Function Endpoint

variable {s t : State} {ctx : UInt32} {ep ep' : Endpoint} {sel : SelectSet}

/-! ### Sections on endpoints of others

A section on an endpoint the context does not own leaves its view as it was. -/

def Foreign (ctx : UInt32) (s : State) (id : UInt32) : Prop :=
  ∀ ep, s.endpoint id = some ep → ep.ownerContextId ≠ ctx

variable {id : UInt32}

lemma Foreign.view (hf : Foreign ctx s id) : Foreign ctx (s.view ctx) id := by
  intro ep hep
  rw [endpoint_view, Option.map_eq_some_iff] at hep
  obtain ⟨ep', hep', rfl⟩ := hep
  exact hf ep' hep'

lemma endpoint_self (hget : s.endpoint id = some ep) : s.endpoint ep.id = some ep := by
  rw [(endpoint_some hget).2.1, hget]

lemma Guarded.owns_endpoint (h : Guarded ctx s) (hget : s.endpoint id = some ep) :
    s.owns ctx id = decide (ep.ownerContextId = ctx) := by
  obtain ⟨hm, hid, -⟩ := endpoint_some hget
  rw [← hid, h.owns_eq hm]

variable {endpoint : UInt32} {tid : ℕ} {w : Wait}

namespace Guarded

variable (h : Guarded ctx s)
include h

lemma same_locked (hl : Locked s id t) (hforeign : Foreign ctx s id) : Same ctx t s := by
  cases hl with
  | idle => rfl
  | put hget hf =>
    have hid := (endpoint_some hget).2.1
    exact same_putEndpoint (by rw [hf.id, hid, hget]) hf.owner (hf.seen (hforeign _ hget) _)
  | enqueued hget hf =>
    obtain ⟨hm, hid, -⟩ := endpoint_some hget
    have ho := hforeign _ hget
    refine same_enqueued (by rw [hf.id, hid, hget]) hf.owner (hf.seen ho _) fun sel hsel hw => ?_
    exact h.unwatched hm ho sel hsel (hf.watchers ▸ hw)

lemma same_park {caller endpoint : UInt32}
    (hget : s.endpoint endpoint = some ep) (ho : ep.ownerContextId ≠ ctx) (hc : caller ≠ ctx)
    (hw : w = .recv endpoint ∨ w = .readable endpoint) (htid : s.blocked tid = none) :
    Same ctx (s.setBlocked tid (some ⟨caller, w⟩)) s := by
  have howns : s.owns ctx endpoint = false := by rw [h.owns_endpoint hget, decide_eq_false ho]
  refine same_setBlocked tid ?_ (by rw [htid]; rfl)
  rcases hw with rfl | rfl <;> simp [State.touches, howns, hc]

end Guarded

lemma same_noteContact {alloc : Bool} {source destination : UInt32}
    (hd : s.owns ctx destination = false) :
    Same ctx (s.noteContact alloc source destination) s := by
  unfold State.noteContact
  split
  · rfl
  split
  · rfl
  next src hget =>
    have hget' := endpoint_self hget
    split
    · rfl
    split
    · rfl
    split
    · exact same_putEndpoint hget' rfl rfl
    · refine same_putEndpoint hget' rfl ?_
      simp [seen, hd]

structure Agree (ctx caller : UInt32) (x y : Option Reply × State) : Prop where
  reply : caller = ctx → x.1 = y.1
  state : Same ctx x.2 y.2

lemma agree_view (s : State) (caller : UInt32) (reply : Option Reply) :
    Agree ctx caller (reply, s) (reply, s.view ctx) := ⟨fun _ => rfl, same_view s⟩

lemma same_both {x y : State} (hx : Same ctx x s) (hy : Same ctx y (s.view ctx)) :
    Same ctx x y := hx.trans ((same_view s).trans hy.symm)

lemma view_endpoint_some (hget : s.endpoint id = some ep) :
    (s.view ctx).endpoint id = some (ep.seen ctx (s.owns ctx)) := by
  rw [endpoint_view, hget, Option.map_some]

lemma view_endpoint_none (hget : s.endpoint id = none) : (s.view ctx).endpoint id = none := by
  rw [endpoint_view, hget, Option.map_none]

lemma view_blocked_none (h : s.blocked tid = none) : (s.view ctx).blocked tid = none := by
  show (s.blocked tid).filter _ = none
  rw [h, Option.filter_none]

lemma foreign_of_some (hget : s.endpoint id = some ep)
    (ho : ep.ownerContextId ≠ ctx) : Foreign ctx s id := by
  intro ep' hget'
  rw [hget] at hget'
  rwa [← Option.some.inj hget']

lemma agree_take (hget : s.endpoint id = some ep) (ho : ep.ownerContextId = ctx) (caller : UInt32) :
    Agree ctx caller (some (s.take ep).1, (s.take ep).2)
      (some ((s.view ctx).take (ep.seen ctx (s.owns ctx))).1,
        ((s.view ctx).take (ep.seen ctx (s.owns ctx))).2) := by
  obtain ⟨hreply, hsame⟩ := take_congr (endpoint_self hget) ho
  exact ⟨fun _ => congrArg some hreply, hsame⟩

def State.acquired (s : State) (endpoint caller : UInt32) (f : Endpoint → Option Reply × State) :
    Option Reply × State :=
  match s.endpoint endpoint with
  | none => (some (.status .noent), s)
  | some ep =>
    match ep.acquireOwned .message caller with
    | .ok => f ep
    | status => (some (.status status), s)

lemma acquireOwned_seen (keep : UInt32 → Bool) (type : EndpointType) (caller : UInt32) :
    (ep.seen ctx keep).acquireOwned type caller = ep.acquireOwned type caller := rfl

namespace Guarded

variable (h : Guarded ctx s)
include h

lemma agree_recvResume {caller endpoint : UInt32}
    (hw : caller = ctx → ∀ ep ∈ s.endpoint endpoint, ep.ownerContextId = ctx) :
    Agree ctx caller (some (s.recvResume endpoint).1, (s.recvResume endpoint).2)
      (some ((s.view ctx).recvResume endpoint).1, ((s.view ctx).recvResume endpoint).2) := by
  cases hget : s.endpoint endpoint with
  | none =>
    simp only [State.recvResume, hget, view_endpoint_none hget]
    exact agree_view s _ _
  | some ep =>
    by_cases ho : ep.ownerContextId = ctx
    · simp only [State.recvResume, hget, view_endpoint_some hget]
      exact agree_take hget ho caller
    have hf := foreign_of_some hget ho
    refine ⟨fun hc => absurd (hw hc ep hget) ho, ?_⟩
    exact same_both (h.same_locked (locked_recvResume _) hf)
      ((guarded_view_iff.2 h).same_locked (locked_recvResume _) hf.view)

variable (hk : ctx ≠ contextKernel)
include hk

lemma agree_acquired {f : State → Endpoint → Option Reply × State} {P : State → Prop}
    {caller : UInt32} (hP : P s) (hP' : P (s.view ctx))
    (hforeign : ∀ {t ep}, Guarded ctx t → P t → t.endpoint endpoint = some ep →
      ep.ownerContextId ≠ ctx → caller ≠ ctx → Same ctx (f t ep).2 t)
    (hown : ∀ {ep}, s.endpoint endpoint = some ep → ep.ownerContextId = ctx →
      Agree ctx caller (f s ep) (f (s.view ctx) (ep.seen ctx (s.owns ctx)))) :
    Agree ctx caller (s.acquired endpoint caller (f s))
      ((s.view ctx).acquired endpoint caller (f (s.view ctx))) := by
  unfold State.acquired
  cases hget : s.endpoint endpoint with
  | none =>
    rw [view_endpoint_none hget]
    exact agree_view s _ _
  | some ep =>
    simp only [view_endpoint_some hget, acquireOwned_seen]
    split
    next hok =>
      by_cases ho : ep.ownerContextId = ctx
      · exact hown hget ho
      have hc : caller ≠ ctx := by
        rintro rfl
        exact acquireOwned_ne_ok hk ho _ hok
      refine ⟨fun hcaller => absurd hcaller hc, same_both (hforeign h hP hget ho hc) ?_⟩
      exact hforeign (guarded_view_iff.2 h) hP' (view_endpoint_some hget) ho hc
    next => exact agree_view s _ _

lemma agree_recvFor (receiver endpoint : UInt32) :
    Agree ctx receiver (some (s.recvFor receiver endpoint).1, (s.recvFor receiver endpoint).2)
      (some ((s.view ctx).recvFor receiver endpoint).1,
        ((s.view ctx).recvFor receiver endpoint).2) := by
  have heq : ∀ t : State, (some (t.recvFor receiver endpoint).1, (t.recvFor receiver endpoint).2) =
      t.acquired endpoint receiver fun ep => (some (t.take ep).1, (t.take ep).2) := by
    intro t
    unfold State.recvFor State.acquired
    cases t.endpoint endpoint with
    | none => rfl
    | some ep => cases hacq : ep.acquireOwned .message receiver <;> simp only [hacq]
  rw [heq, heq]
  exact h.agree_acquired hk (f := fun t ep => (some (t.take ep).1, (t.take ep).2))
    (P := fun _ => True) trivial trivial
    (fun ht _ hget ho _ => ht.same_locked (locked_take hget) (foreign_of_some hget ho))
    fun hget ho => agree_take hget ho receiver

lemma agree_recvBlockingFor (htid : s.blocked tid = none) (receiver endpoint : UInt32) :
    Agree ctx receiver (s.recvBlockingFor tid receiver endpoint)
      ((s.view ctx).recvBlockingFor tid receiver endpoint) := by
  refine h.agree_acquired hk (f := fun t ep => if ep.ring.count = 0 then
    (none, t.setBlocked tid (some ⟨receiver, .recv endpoint⟩))
    else (some (t.take ep).1, (t.take ep).2))
    (P := (·.blocked tid = none)) htid (view_blocked_none htid)
    (fun ht hb hget ho hc => ?_) fun hget ho => ?_
  · split
    · exact ht.same_park hget ho hc (.inl rfl) hb
    · exact ht.same_locked (locked_take hget) (foreign_of_some hget ho)
  simp only [seen_ring ho]
  split
  · exact ⟨fun _ => rfl, setBlocked_congr (same_view s) _ _⟩
  · exact agree_take hget ho receiver

lemma agree_endpointWaitFor (htid : s.blocked tid = none) (receiver endpoint : UInt32) :
    Agree ctx receiver (s.endpointWaitFor tid receiver endpoint)
      ((s.view ctx).endpointWaitFor tid receiver endpoint) := by
  refine h.agree_acquired hk (f := fun t ep => if ep.ring.count ≠ 0 then (some (.status .ok), t)
    else (none, t.setBlocked tid (some ⟨receiver, .readable endpoint⟩)))
    (P := (·.blocked tid = none)) htid (view_blocked_none htid)
    (fun ht hb hget ho hc => ?_) fun hget ho => ?_
  · split
    · rfl
    · exact ht.same_park hget ho hc (.inr rfl) hb
  simp only [seen_ring ho]
  split
  · exact agree_view s _ _
  · exact ⟨fun _ => rfl, setBlocked_congr (same_view s) _ _⟩

end Guarded

lemma endpointOwnerContext_view (id : UInt32) :
    (s.view ctx).endpointOwnerContext id = s.endpointOwnerContext id := by
  unfold State.endpointOwnerContext
  rw [endpoint_view]
  cases s.endpoint id <;> rfl

lemma congr_locked {ep₁ ep₂ : Endpoint} (hget : s.endpoint id = some ep) (hf : Frame ep ep₁)
    (hf' : Frame (ep.seen ctx (s.owns ctx)) ep₂)
    (hseen : ep₂.seen ctx (s.owns ctx) = ep₁.seen ctx (s.owns ctx)) :
    Same ctx (s.putEndpoint ep₁) ((s.view ctx).putEndpoint ep₂) ∧
      Same ctx (s.enqueued ep₁) ((s.view ctx).enqueued ep₂) := by
  have hget₁ : s.endpoint ep₁.id = some ep := by rw [hf.id, (endpoint_some hget).2.1, hget]
  have hid : ep₂.id = ep₁.id := hf'.id.trans hf.id.symm
  have ho := hf'.owner.trans hf.owner.symm
  exact ⟨putEndpoint_congr hget₁ hf.owner hid ho hseen,
    enqueued_congr hget₁ hf.owner hid (hf'.watchers.trans hf.watchers.symm) ho hseen⟩

variable {sender endpoint : UInt32}

lemma congr_sendFrom {msg : Message}
    (hget : s.endpoint endpoint = some ep) (ho : ep.ownerContextId = ctx) :
    Same ctx (s.sendFrom sender endpoint msg).2 ((s.view ctx).sendFrom sender endpoint msg).2 := by
  have hacq : (ep.seen ctx (s.owns ctx)).acquire .message = ep.acquire .message := rfl
  obtain ⟨hstatus, hseen⟩ := sendLocked_seen ho (s.owns ctx) msg
  obtain ⟨hput, henq⟩ := congr_locked hget (frame_sendLocked msg) (frame_sendLocked msg) hseen
  simp only [State.sendFrom, endpointOwnerContext_view, hget, view_endpoint_some hget, hacq]
  split
  · split
    · rcases hx : ep.sendLocked msg with ⟨status, ep₁⟩
      rcases hy : (ep.seen ctx (s.owns ctx)).sendLocked msg with ⟨status', ep₂⟩
      rw [hx, hy] at hstatus hput henq
      obtain rfl : status' = status := hstatus
      cases status'
      case ok => exact henq
      all_goals exact hput
    · exact same_view s
  · exact same_view s

lemma congr_notifyFrom (hget : s.endpoint endpoint = some ep) (ho : ep.ownerContextId = ctx) :
    Same ctx (s.notifyFrom sender endpoint).2 ((s.view ctx).notifyFrom sender endpoint).2 := by
  have hget' := endpoint_self hget
  simp only [State.notifyFrom, hget, view_endpoint_some hget, acquireOwned_seen,
    seen_notifyCount ho]
  split
  · refine enqueued_congr hget' rfl rfl rfl rfl ?_
    simp [seen, ho]
  · exact same_view s

lemma congr_waitFor {receiver endpoint : UInt32} (hget : s.endpoint endpoint = some ep)
    (ho : ep.ownerContextId = ctx) :
    Same ctx (s.waitFor receiver endpoint).2 ((s.view ctx).waitFor receiver endpoint).2 := by
  have hget' := endpoint_self hget
  simp only [State.waitFor, hget, view_endpoint_some hget, acquireOwned_seen, seen_notifyCount ho]
  split
  · split
    · exact same_view s
    · refine putEndpoint_congr hget' rfl rfl rfl ?_
      simp [seen, ho]
  · exact same_view s

lemma Guarded.same_of_endpoint (h : Guarded ctx s) {f : State → State} (endpoint : UInt32)
    (hlocked : ∀ t, Locked t endpoint (f t))
    (hown : ∀ ep, s.endpoint endpoint = some ep → ep.ownerContextId = ctx →
      Same ctx (f s) (f (s.view ctx))) : Same ctx (f s) (f (s.view ctx)) := by
  by_cases hf : Foreign ctx s endpoint
  · exact same_both (h.same_locked (hlocked s) hf)
      ((guarded_view_iff.2 h).same_locked (hlocked _) hf.view)
  unfold Foreign at hf
  push Not at hf
  obtain ⟨ep, hget, ho⟩ := hf
  exact hown ep hget ho

lemma selectFind_view (id owner : UInt32) :
    (s.view ctx).selectFind id owner = (s.selectFind id owner).map (·.seen ctx) := by
  unfold State.selectFind
  rw [select_view]
  cases s.select id with
  | none => rfl
  | some sel =>
    simp only [Option.map_some, select_seen_owner]
    split <;> rfl

lemma view_select_some (hget : s.select id = some sel) :
    (s.view ctx).select id = some (sel.seen ctx) := by
  rw [select_view, hget, Option.map_some]

lemma view_select_none (hget : s.select id = none) : (s.view ctx).select id = none := by
  rw [select_view, hget, Option.map_none]

section

variable (hget : s.select id = some sel)
include hget

lemma same_updateSelect {sel' : SelectSet}
    (ho : sel.ownerContextId ≠ ctx) (hf : SelectSet.frame sel' = sel.frame) :
    Same ctx (s.putSelect sel') s := by
  simp only [SelectSet.frame, Prod.mk.injEq] at hf
  obtain ⟨hid, howner, hmembers⟩ := hf
  refine same_putSelect (by rw [hid, (select_some hget).2.1, hget]) howner ?_
  simp [SelectSet.seen, hid, howner, hmembers, ho]

lemma congr_updateSelect {sel' : SelectSet} (hf : SelectSet.frame sel' = sel.frame) :
    Same ctx (s.putSelect sel') ((s.view ctx).putSelect sel') := by
  simp only [SelectSet.frame, Prod.mk.injEq] at hf
  obtain ⟨hid, howner, hmembers⟩ := hf
  have hget' : s.select sel'.id = some sel := by rw [hid, (select_some hget).2.1, hget]
  exact putSelect_congr (same_view s) hget' (view_select_some hget') howner
    (by rw [select_seen_owner, howner]) rfl

lemma congr_selectIdle :
    Same ctx (s.selectIdle sel) ((s.view ctx).selectIdle sel) := congr_updateSelect hget rfl

end

variable {caller id : UInt32}

lemma Guarded.same_parkSelect (h : Guarded ctx s)
    (hget : s.select id = some sel) (ho : sel.ownerContextId ≠ ctx) (hc : caller ≠ ctx)
    (hw : w = .selectLatch id ∨ w = .selectParked id ∨ w = .selectRelatch id)
    (htid : s.blocked tid = none) : Same ctx (s.setBlocked tid (some ⟨caller, w⟩)) s := by
  have howns : s.ownsSelect ctx id = false := by
    rw [← (select_some hget).2.1, h.ownsSelect_eq (select_some hget).1, decide_eq_false ho]
  refine same_setBlocked tid ?_ (by rw [htid]; rfl)
  rcases hw with rfl | rfl | rfl <;> simp [State.touches, howns, hc]

lemma endpointIsReady_view (hw : ∀ ep ∈ s.endpoint id, ep.ownerContextId = ctx) :
    (s.view ctx).endpointIsReady id = s.endpointIsReady id := by
  unfold State.endpointIsReady
  cases hget : s.endpoint id with
  | none => rw [view_endpoint_none hget]
  | some ep =>
    have ho := hw ep hget
    simp only [view_endpoint_some hget, seen_type, seen_ring ho, seen_notifyCount ho]

lemma Guarded.selectScanReady_view (h : Guarded ctx s) (hm : sel ∈ s.selects)
    (ho : sel.ownerContextId = ctx) :
    (s.view ctx).selectScanReady sel = s.selectScanReady sel := by
  unfold State.selectScanReady
  simp only
  congr 1
  funext k
  split
  · rfl
  next id hget =>
    have hready : (s.view ctx).endpointIsReady id = s.endpointIsReady id := by
      refine endpointIsReady_view fun ep hep => ?_
      obtain ⟨hepm, hid, -⟩ := endpoint_some hep
      exact h.watched sel hm ho ep hepm (hid ▸ mem_of_getElem? hget)
    rw [hready]

def ForeignSelect (ctx : UInt32) (s : State) (id : UInt32) : Prop :=
  ∀ sel ∈ s.select id, sel.ownerContextId ≠ ctx

lemma ForeignSelect.view (hf : ForeignSelect ctx s id) : ForeignSelect ctx (s.view ctx) id := by
  intro sel hsel
  rw [select_view, Option.mem_def, Option.map_eq_some_iff] at hsel
  obtain ⟨sel', hsel', rfl⟩ := hsel
  rw [select_seen_owner]
  exact hf sel' hsel'

lemma same_selectTakeReady {id endpoint : UInt32} (hget : s.select id = some sel)
    (ho : sel.ownerContextId ≠ ctx) (htake : s.selectTakeReady sel = some (endpoint, t)) :
    Same ctx t s := by
  unfold State.selectTakeReady at htake
  split at htake
  · cases htake
  · cases htake
    exact same_updateSelect hget ho rfl

lemma same_selectRelatch (hf : ForeignSelect ctx s id) : Same ctx (s.selectRelatch id).2 s := by
  unfold State.selectRelatch
  split
  · rfl
  next sel hget =>
    split
    next htake => exact same_selectTakeReady hget (hf sel hget) htake
    · rfl

lemma Guarded.same_selectLatch (h : Guarded ctx s)
    (hf : ForeignSelect ctx s id) (hc : caller ≠ ctx) (htid : s.blocked tid = none) :
    Same ctx (s.selectLatch tid id caller).2 s := by
  unfold State.selectLatch
  split
  · rfl
  next sel hget =>
    split
    next htake => exact same_selectTakeReady hget (hf sel hget) htake
    · exact h.same_parkSelect hget (hf sel hget) hc (.inr (.inl rfl)) htid

lemma caller_ne {id caller : UInt32} (hk : ctx ≠ contextKernel)
    (hfind : s.selectFind id caller = .ok sel) (ho : sel.ownerContextId ≠ ctx) : caller ≠ ctx :=
  fun hc => ho (selectFind_owner hk hfind hc)

lemma Guarded.same_idle (h : Guarded ctx s)
    (hget : s.select id = some sel) (ho : sel.ownerContextId ≠ ctx) (hc : caller ≠ ctx)
    (hw : w = .selectLatch id ∨ w = .selectParked id ∨ w = .selectRelatch id)
    (htid : s.blocked tid = none) :
    Same ctx ((s.selectIdle sel).setBlocked tid (some ⟨caller, w⟩)) s := by
  have hidle : Same ctx (s.selectIdle sel) s := same_updateSelect hget ho rfl
  exact (setBlocked_congr hidle tid _).trans (h.same_parkSelect hget ho hc hw htid)

lemma Guarded.same_selectScan (h : Guarded ctx s) (hk : ctx ≠ contextKernel)
    (fail : Status → Reply) (hf : ForeignSelect ctx s id)
    (hw : w = .selectLatch id ∨ w = .selectParked id ∨ w = .selectRelatch id)
    (htid : s.blocked tid = none) : Same ctx (s.selectScan tid id caller fail w).2 s := by
  unfold State.selectScan
  split
  · rfl
  next sel hfind =>
    have hget := (selectFind_ok hfind).1
    have ho := hf sel hget
    split
    · exact same_updateSelect hget ho rfl
    · exact h.same_idle hget ho (caller_ne hk hfind ho) hw htid

lemma foreignSelect_of_some (hget : s.select id = some sel)
    (ho : sel.ownerContextId ≠ ctx) : ForeignSelect ctx s id := by
  intro sel' hget'
  rw [Option.mem_def, hget] at hget'
  rwa [← Option.some.inj hget']

lemma agree_selectRelatch (hw : caller = ctx → ∀ sel ∈ s.select id, sel.ownerContextId = ctx) :
    Agree ctx caller (some (s.selectRelatch id).1, (s.selectRelatch id).2)
      (some ((s.view ctx).selectRelatch id).1, ((s.view ctx).selectRelatch id).2) := by
  cases hget : s.select id with
  | none =>
    simp only [State.selectRelatch, hget, view_select_none hget]
    exact agree_view s _ _
  | some sel =>
    by_cases ho : sel.ownerContextId = ctx
    · simp only [State.selectRelatch, hget, view_select_some hget, select_seen_of_owner ho,
        State.selectTakeReady]
      by_cases hr : sel.readyEp = endpointNone
      · simp only [if_pos hr]
        exact agree_view s _ _
      · simp only [if_neg hr]
        exact ⟨fun _ => rfl, congr_updateSelect hget rfl⟩
    · have hf := foreignSelect_of_some hget ho
      exact ⟨fun hc => absurd (hw hc sel hget) ho,
        same_both (same_selectRelatch hf) (same_selectRelatch hf.view)⟩

namespace Guarded

variable (h : Guarded ctx s)
include h

lemma agree_selectLatch {caller id : UInt32} (htid : s.blocked tid = none)
    (hw : caller = ctx → ∀ sel ∈ s.select id, sel.ownerContextId = ctx) :
    Agree ctx caller (s.selectLatch tid id caller) ((s.view ctx).selectLatch tid id caller) := by
  cases hget : s.select id with
  | none =>
    simp only [State.selectLatch, hget, view_select_none hget]
    exact agree_view s _ _
  | some sel =>
    by_cases ho : sel.ownerContextId = ctx
    · simp only [State.selectLatch, hget, view_select_some hget, select_seen_of_owner ho,
        State.selectTakeReady]
      by_cases hr : sel.readyEp = endpointNone
      · simp only [if_pos hr]
        exact ⟨fun _ => rfl, setBlocked_congr (same_view s) _ _⟩
      · simp only [if_neg hr]
        exact ⟨fun _ => rfl, congr_updateSelect hget rfl⟩
    · have hf := foreignSelect_of_some hget ho
      have hc : caller ≠ ctx := fun hc => ho (hw hc sel hget)
      exact ⟨fun hc' => absurd hc' hc, same_both (h.same_selectLatch hf hc htid)
        ((guarded_view_iff.2 h).same_selectLatch hf.view hc (view_blocked_none htid))⟩

variable (hk : ctx ≠ contextKernel)
include hk

lemma agree_selectScan (htid : s.blocked tid = none) (id caller : UInt32) (fail : Status → Reply)
    (hw : w = .selectLatch id ∨ w = .selectParked id ∨ w = .selectRelatch id) :
    Agree ctx caller (s.selectScan tid id caller fail w)
      ((s.view ctx).selectScan tid id caller fail w) := by
  cases hfind : s.selectFind id caller with
  | error status =>
    simp only [State.selectScan, selectFind_view, hfind, Except.map]
    exact agree_view s _ _
  | ok sel =>
    have hget := (selectFind_ok hfind).1
    by_cases ho : sel.ownerContextId = ctx
    · simp only [State.selectScan, selectFind_view, hfind, Except.map, select_seen_of_owner ho,
        h.selectScanReady_view (select_some hget).1 ho]
      split
      · exact ⟨fun _ => rfl, congr_updateSelect hget rfl⟩
      · exact ⟨fun _ => rfl, setBlocked_congr (congr_selectIdle hget) _ _⟩
    · have hf := foreignSelect_of_some hget ho
      exact ⟨fun hc => absurd hc (caller_ne hk hfind ho),
        same_both (h.same_selectScan hk fail hf hw htid)
          ((guarded_view_iff.2 h).same_selectScan hk fail hf.view hw (view_blocked_none htid))⟩

end Guarded

lemma view_unpark (s : State) (tid : ℕ) :
    (s.setBlocked tid none).view ctx = (s.view ctx).setBlocked tid none := by
  unfold State.view State.setBlocked
  congr 1
  funext tid'
  by_cases hid : tid' = tid
  · subst hid
    simp
  · simp only [update_of_ne hid]
    rfl

section Resume

variable (h : Guarded ctx s) (hk : ctx ≠ contextKernel) {tid : ℕ} {b : Blocked}
include h hk

lemma Guarded.agree_resume (hb : s.blocked tid = some b) :
    Agree ctx b.contextId (s.resume tid b) ((s.view ctx).resume tid b) := by
  have hun := h.unpark tid
  have htid : (s.setBlocked tid none).blocked tid = none := update_self ..
  obtain ⟨caller, w⟩ := b
  unfold State.resume
  rw [← view_unpark]
  cases w with
  | recv endpoint =>
    refine hun.agree_recvResume fun hc ep hget => ?_
    have hep := endpoint_some hget
    exact h.endpointWaits tid _ hb hc ep hep.1 (.inl (by rw [hep.2.1]))
  | readable endpoint => exact agree_view _ _ _
  | selectLatch id =>
    refine hun.agree_selectLatch htid fun hc sel hget => ?_
    have hsel := select_some hget
    exact h.selectWaits tid _ hb hc sel hsel.1 (.inl (by rw [hsel.2.1]))
  | selectParked id =>
    exact hun.agree_selectScan hk htid id caller (fun _ => .status .empty) (.inr (.inr rfl))
  | selectRelatch id =>
    refine agree_selectRelatch fun hc sel hget => ?_
    have hsel := select_some hget
    exact h.selectWaits tid _ hb hc sel hsel.1 (.inr (.inr (by rw [hsel.2.1])))

lemma Guarded.same_resume (hb : s.blocked tid = some b) (hno : s.touches ctx b = false) :
    Same ctx (s.resume tid b).2 s := by
  have hun := h.unpark tid
  have htid : (s.setBlocked tid none).blocked tid = none := update_self ..
  have hgone : Same ctx (s.setBlocked tid none) s := by
    refine same_setBlocked tid rfl ?_
    rw [hb, Option.filter_some, if_neg (by simp [hno])]
  obtain ⟨caller, w⟩ := b
  unfold State.touches at hno
  rw [Bool.or_eq_false_iff, beq_eq_false_iff_ne] at hno
  obtain ⟨hc, hno⟩ := hno
  refine Eq.trans ?_ hgone
  have hfor : ∀ id, s.owns ctx id = false → Foreign ctx (s.setBlocked tid none) id := by
    intro id hid ep hget ho
    rw [← (endpoint_some hget).2.1, h.owns_eq (endpoint_some hget).1] at hid
    exact of_decide_eq_false hid ho
  have hforsel : ∀ id, s.ownsSelect ctx id = false →
      ForeignSelect ctx (s.setBlocked tid none) id := by
    intro id hid sel hget ho
    rw [← (select_some hget).2.1, h.ownsSelect_eq (select_some hget).1] at hid
    exact of_decide_eq_false hid ho
  cases w with
  | recv endpoint => exact hun.same_locked (locked_recvResume _) (hfor endpoint hno)
  | readable endpoint => rfl
  | selectLatch id => exact hun.same_selectLatch (hforsel id hno) hc htid
  | selectParked id =>
    exact hun.same_selectScan hk (fun _ => .status .empty) (hforsel id hno) (.inr (.inr rfl)) htid
  | selectRelatch id => exact same_selectRelatch (hforsel id hno)

end Resume

lemma congr_hangupInto {record : Hangup} (hget : s.endpoint record.destination = some ep)
    (ho : ep.ownerContextId = ctx) :
    Same ctx (s.hangupInto record) ((s.view ctx).hangupInto record) := by
  have hacq : (ep.seen ctx (s.owns ctx)).acquire .message = ep.acquire .message := rfl
  obtain ⟨hroom, hseen⟩ := hangupLocked_seen ho (s.owns ctx) record
  obtain ⟨hput, henq⟩ :=
    congr_locked hget (frame_hangupLocked record) (frame_hangupLocked record) hseen
  simp only [State.hangupInto, hget, view_endpoint_some hget, hacq]
  split
  · rcases hx : ep.hangupLocked record with ⟨room, ep₁⟩
    rcases hy : (ep.seen ctx (s.owns ctx)).hangupLocked record with ⟨room', ep₂⟩
    rw [hx, hy] at hroom hput henq
    obtain rfl : room' = room := hroom
    cases room' with
    | true => exact henq
    | false => exact hput
  · exact same_view s

lemma view_erase (s : State) (record : Hangup) :
    ({ s with owed := s.owed.erase record } : State).view ctx =
      { s.view ctx with owed := (s.view ctx).owed.erase record } := by
  show State.mk _ _ _ _ _ _ _ = State.mk _ _ _ _ _ _ _
  congr 1
  exact (erase_filter ..).symm

lemma Guarded.congr_hangupDeliver (h : Guarded ctx s) (record : Hangup) :
    Same ctx (s.hangupDeliver record) ((s.view ctx).hangupDeliver record) := by
  unfold State.hangupDeliver
  have hmem : record ∈ (s.view ctx).owed ↔ record ∈ s.owed ∧ s.owns ctx record.destination = true :=
    mem_filter
  have hguard : Guarded ctx { s with owed := s.owed.erase record } := h.keep ⟨rfl, rfl, rfl⟩
  by_cases hin : record ∈ s.owed
  · rw [if_pos hin]
    by_cases howns : s.owns ctx record.destination = true
    · rw [if_pos (hmem.2 ⟨hin, howns⟩), ← view_erase]
      exact hguard.same_of_endpoint record.destination
        (fun _ => locked_hangupInto record) fun ep hget ho => congr_hangupInto hget ho
    rw [if_neg fun hv => howns (hmem.1 hv).2]
    refine Eq.trans (hguard.same_locked (locked_hangupInto record) fun ep hget ho => howns ?_) ?_
    · have hget' : s.endpoint record.destination = some ep := hget
      rw [h.owns_endpoint hget', decide_eq_true ho]
    · rw [view_erase, view_view, erase_of_not_mem fun hv => howns (hmem.1 hv).2]
  · rw [if_neg hin, if_neg fun hv => hin (hmem.1 hv).1]
    exact same_view s

lemma congr_contextWatch (alloc : Bool) (contextId destination : UInt32) :
    Same ctx (s.contextWatch alloc contextId destination)
      ((s.view ctx).contextWatch alloc contextId destination) := by
  have hview : ∀ s : State, (s.contextWatch alloc contextId destination).view ctx =
      (s.view ctx).contextWatch alloc contextId destination := by
    intro s
    unfold State.contextWatch
    split <;> rfl
  rw [Same, hview, hview, view_view]

/-- A contact of a destination of the context is noted in the view as well, unless the list is full.
-/
lemma congr_noteContact {alloc : Bool} {source destination : UInt32}
    (hd : s.owns ctx destination = true)
    (hroom : ∀ src ∈ s.endpoint source, src.contacts.any (·.destination == destination) ∨
      src.contacts.length < contactsMax) :
    Same ctx (s.noteContact alloc source destination)
      ((s.view ctx).noteContact alloc source destination) := by
  unfold State.noteContact
  split
  · exact same_view s
  cases hget : s.endpoint source with
  | none =>
    rw [view_endpoint_none hget]
    exact same_view s
  | some src =>
    rw [view_endpoint_some hget]
    have hget' := endpoint_self hget
    have hany : (src.seen ctx (s.owns ctx)).contacts.any (·.destination == destination) =
        src.contacts.any (·.destination == destination) := by
      simp only [seen, any_filter]
      congr 1
      funext record
      by_cases hr : record.destination = destination
      · simp [hr, hd]
      · simp [hr]
    have hlen : (src.seen ctx (s.owns ctx)).contacts.length ≤ src.contacts.length :=
      length_filter_le ..
    simp only [seen_type, seen_owner, hany]
    split
    · exact same_view s
    split
    · exact same_view s
    next hnew =>
      have hlt : src.contacts.length < contactsMax := by
        rcases hroom src hget with hany | hlt
        · exact absurd (.inr hany) hnew
        · exact hlt
      have h₁ : ¬ contactsMax ≤ src.contacts.length := by omega
      have h₂ : ¬ contactsMax ≤ (src.seen ctx (s.owns ctx)).contacts.length := by omega
      simp only [h₁, h₂, false_or]
      split <;> refine putEndpoint_congr hget' rfl rfl rfl ?_
      all_goals by_cases ho : src.ownerContextId = ctx <;> simp [seen, ho, hd]

lemma filter_touches_congr (h : ∀ b, s.blocked tid = some b → t.touches ctx b = s.touches ctx b) :
    (s.blocked tid).filter (t.touches ctx) = (s.blocked tid).filter (s.touches ctx) := by
  cases hb : s.blocked tid with
  | none => rfl
  | some b => rw [Option.filter_some, Option.filter_some, h b hb]

variable {type : EndpointType} {id owner : UInt32} {id' : UInt32}

lemma owns_addEndpoint {endpointIds : IdCounter} (hne : id' ≠ id) :
    ({ s with endpoints := s.endpoints ++ [.create id owner type], endpointIds } : State).owns
      ctx id' = s.owns ctx id' := by
  simp [State.owns, create, hne.symm]

lemma view_addEndpoint (hu : Unreferenced s id) (owner : UInt32)
    (type : EndpointType) (endpointIds : IdCounter) :
    ({ s with endpoints := s.endpoints ++ [.create id owner type], endpointIds } : State).view ctx =
      { s.view ctx with
        endpoints := (s.view ctx).endpoints ++ [.create id owner type], endpointIds } := by
  show State.mk _ _ _ _ _ _ _ = State.mk _ _ _ _ _ _ _
  congr 1
  · rw [map_append]
    congr 1
    · refine map_congr_left fun ep hm => ?_
      unfold seen
      congr 1
      refine filter_congr fun record hr => ?_
      rw [owns_addEndpoint (hu.contacts ep hm record hr)]
    · simp [seen, create]
  · exact filter_congr fun record hr => owns_addEndpoint (hu.owed record hr)
  refine funext fun tid => filter_touches_congr (s := s) fun b hb => ?_
  have hw := hu.waits tid b hb
  obtain ⟨caller, w⟩ := b
  cases w with
  | recv id' =>
    exact congrArg (caller == ctx || ·) (owns_addEndpoint fun he => hw.1 (congrArg _ he))
  | readable id' =>
    exact congrArg (caller == ctx || ·) (owns_addEndpoint fun he => hw.2 (congrArg _ he))
  | _ => rfl

lemma Unreferenced.view (hu : Unreferenced s id) : Unreferenced (s.view ctx) id := by
  constructor
  · intro ep hm
    obtain ⟨ep', hm', rfl⟩ := mem_map.1 hm
    exact hu.live ep' hm'
  · intro ep hm record hr
    obtain ⟨ep', hm', rfl⟩ := mem_map.1 hm
    exact hu.contacts ep' hm' record (mem_filter.1 hr).1
  · exact fun record hr => hu.owed record (mem_filter.1 hr).1
  · intro sel hm
    obtain ⟨sel', hm', rfl⟩ := mem_map.1 hm
    rw [select_seen_epIds]
    exact hu.watched sel' hm'
  · exact fun tid b hb => hu.waits tid b (Option.filter_eq_some_iff.1 hb).1

lemma congr_endpointCreate {grow : Bool} {owner : UInt32}
    (hc : Careful ctx s (.endpointCreate grow owner type)) :
    Same ctx (s.endpointCreate grow owner type) ((s.view ctx).endpointCreate grow owner type) := by
  have hcount : (s.view ctx).endpoints.countP (·.ownerContextId == owner) =
      s.endpoints.countP (·.ownerContextId == owner) := by
    rw [State.view, countP_map]
    rfl
  have halloc : (s.view ctx).endpointIds.alloc (fun id => (s.view ctx).endpoints.any (·.id == id))
      ((s.view ctx).endpoints.length + 1) =
      s.endpointIds.alloc (fun id => s.endpoints.any (·.id == id)) (s.endpoints.length + 1) := by
    simp only [State.view, any_map, length_map]
    rfl
  unfold State.endpointCreate
  rw [hcount, halloc]
  split
  · exact same_view s
  split
  · exact same_view s
  next id c hid =>
    have hu : Unreferenced s id := hc (id, c) hid
    rw [Same, view_addEndpoint hu, view_addEndpoint hu.view, view_view]

lemma ownsSelect_addSelect {selectIds : IdCounter} (hne : id' ≠ id) :
    ({ s with selects := s.selects ++ [⟨id, owner, endpointNone, [], 0⟩], selectIds } :
      State).ownsSelect ctx id' = s.ownsSelect ctx id' := by
  simp [State.ownsSelect, hne.symm]

lemma view_addSelect (hu : UnreferencedSelect s id) (owner : UInt32) (selectIds : IdCounter) :
    ({ s with selects := s.selects ++ [⟨id, owner, endpointNone, [], 0⟩], selectIds } :
      State).view ctx = { s.view ctx with
        selects := (s.view ctx).selects ++ [⟨id, owner, endpointNone, [], 0⟩], selectIds } := by
  show State.mk _ _ _ _ _ _ _ = State.mk _ _ _ _ _ _ _
  congr 1
  · rw [map_append]
    congr 1
    simp [SelectSet.seen]
  refine funext fun tid => filter_touches_congr (s := s) fun b hb => ?_
  have hw := hu.waits tid b hb
  obtain ⟨caller, w⟩ := b
  cases w with
  | selectLatch id' =>
    exact congrArg (caller == ctx || ·) (ownsSelect_addSelect fun he => hw.1 (congrArg _ he))
  | selectParked id' =>
    exact congrArg (caller == ctx || ·) (ownsSelect_addSelect fun he => hw.2.1 (congrArg _ he))
  | selectRelatch id' =>
    exact congrArg (caller == ctx || ·) (ownsSelect_addSelect fun he => hw.2.2 (congrArg _ he))
  | _ => rfl

lemma UnreferencedSelect.view (hu : UnreferencedSelect s id) :
    UnreferencedSelect (s.view ctx) id := by
  constructor
  · intro sel hm
    obtain ⟨sel', hm', rfl⟩ := mem_map.1 hm
    rw [select_seen_id]
    exact hu.live sel' hm'
  · intro ep hm
    obtain ⟨ep', hm', rfl⟩ := mem_map.1 hm
    exact hu.watchers ep' hm'
  · exact fun tid b hb => hu.waits tid b (Option.filter_eq_some_iff.1 hb).1

lemma congr_selectCreate {grow : Bool} {owner : UInt32}
    (hc : Careful ctx s (.selectCreate grow owner)) :
    Same ctx (s.selectCreate grow owner) ((s.view ctx).selectCreate grow owner) := by
  have hcount : (s.view ctx).selects.countP (·.ownerContextId == owner) =
      s.selects.countP (·.ownerContextId == owner) := by
    simp only [State.view, countP_map, comp_def, select_seen_owner]
  have halloc : (s.view ctx).selectIds.alloc (fun id => (s.view ctx).selects.any (·.id == id))
      ((s.view ctx).selects.length + 1) =
      s.selectIds.alloc (fun id => s.selects.any (·.id == id)) (s.selects.length + 1) := by
    simp only [State.view, any_map, length_map, comp_def, select_seen_id]
  unfold State.selectCreate
  rw [hcount, halloc]
  split
  · exact same_view s
  split
  · exact same_view s
  next id c hid =>
    have hu : UnreferencedSelect s id := hc (id, c) hid
    rw [Same, view_addSelect hu, view_addSelect hu.view, view_view]

lemma filter_filter_of_le {α : Type*} {p q : α → Bool} (hle : ∀ a, q a = true → p a = true)
    (l : List α) : (l.filter p).filter q = l.filter q := by
  rw [filter_filter]
  refine filter_congr fun a _ => ?_
  cases ha : q a with
  | false => rfl
  | true => rw [hle a ha, Bool.and_self]

lemma seen_seen_of_le {keep keep' : UInt32 → Bool} (hle : ∀ id, keep' id = true → keep id = true)
    (ep : Endpoint) : (ep.seen ctx keep).seen ctx keep' = ep.seen ctx keep' := by
  have hfilter := filter_filter_of_le (fun record => hle record.destination) ep.contacts
  by_cases ho : ep.ownerContextId = ctx <;>
    simp [seen, ho, hfilter]

lemma option_filter_filter_of_le {α : Type*} {p q : α → Bool}
    (hle : ∀ a, q a = true → p a = true) (o : Option α) : (o.filter p).filter q = o.filter q := by
  cases o with
  | none => rfl
  | some a =>
    rw [Option.filter_some, Option.filter_some]
    by_cases ha : q a = true
    · simp [ha, hle a ha]
    · simp [ha]

section Shrink

variable {u : State}

/-- A state that a section shrinks, and the view of it shrunk the same way. `u` is the view before
what it no longer shows is dropped. -/
lemma same_of_shrunk (hle : ∀ id, t.owns ctx id = true → s.owns ctx id = true)
    (hsle : ∀ id, t.ownsSelect ctx id = true → s.ownsSelect ctx id = true)
    (hep : u.endpoints = t.endpoints.map (·.seen ctx (s.owns ctx)))
    (hselects : u.selects = t.selects.map (·.seen ctx))
    (howed : ∀ p : Hangup → Bool, (∀ record, p record = true →
      s.owns ctx record.destination = true) → u.owed.filter p = t.owed.filter p)
    (hb : ∀ tid, u.blocked tid = (t.blocked tid).filter (s.touches ctx))
    (hids : u.endpointIds = t.endpointIds) (hsids : u.selectIds = t.selectIds)
    (hwatches : u.contextWatches = t.contextWatches) : Same ctx t u := by
  have howns : u.owns ctx = t.owns ctx := by
    funext id
    simp [State.owns, hep, any_map, comp_def]
  have hsel : u.ownsSelect ctx = t.ownsSelect ctx := by
    funext id
    simp [State.ownsSelect, hselects, any_map, comp_def]
  have htouch : u.touches ctx = t.touches ctx := by
    funext b
    simp only [State.touches, howns, hsel]
  have htle : ∀ b, t.touches ctx b = true → s.touches ctx b = true := by
    intro b hb
    unfold State.touches at hb ⊢
    rw [Bool.or_eq_true] at hb ⊢
    refine hb.imp_right fun hb => ?_
    split at hb <;> first | exact hle _ hb | exact hsle _ hb
  show State.mk _ _ _ _ _ _ _ = State.mk _ _ _ _ _ _ _
  congr 1
  · rw [howns, hep, map_map]
    exact map_congr_left fun ep _ => (seen_seen_of_le hle ep).symm
  · exact hids.symm
  · rw [hselects, map_map]
    exact map_congr_left fun sel _ => (select_seen_seen sel).symm
  · exact hsids.symm
  · exact hwatches.symm
  · rw [howns]
    exact (howed _ fun record => hle record.destination).symm
  · funext tid
    rw [htouch, hb, option_filter_filter_of_le htle]

end Shrink

lemma owns_endpointsReleaseOwner_le {owner id : UInt32}
    (h : (s.endpointsReleaseOwner owner).owns ctx id = true) : s.owns ctx id = true := by
  unfold State.endpointsReleaseOwner at h
  split at h
  · exact h
  simp only [State.owns, any_eq_true] at h ⊢
  obtain ⟨ep, hm, hep⟩ := h
  exact ⟨ep, (mem_filter.1 hm).1, hep⟩

lemma congr_endpointsReleaseOwner (owner : UInt32) :
    Same ctx (s.endpointsReleaseOwner owner) ((s.view ctx).endpointsReleaseOwner owner) := by
  by_cases h0 : owner = 0
  · simp only [State.endpointsReleaseOwner, if_pos h0]
    exact same_view s
  refine same_of_shrunk (fun id => owns_endpointsReleaseOwner_le) ?_ ?_ ?_ ?_ ?_
    ?_ ?_ ?_ <;> simp only [State.endpointsReleaseOwner, if_neg h0]
  · exact fun id h => h
  · simp only [State.view, filter_map]
    rfl
  · rfl
  · intro p hp
    have hcontacts : ∀ l : List Endpoint, ((l.map (·.seen ctx (s.owns ctx))).flatMap
        (·.contacts)).filter p = (l.flatMap (·.contacts)).filter p := by
      intro l
      simp only [flatMap_map, filter_flatMap]
      congr 1
      funext ep
      exact filter_filter_of_le hp ep.contacts
    simp only [State.view, filter_append, filter_map]
    congr 2
    · exact filter_filter_of_le hp s.owed
    · exact hcontacts _
  all_goals first | rfl | exact fun tid => rfl

lemma congr_selectDestroy (id owner : UInt32) :
    Same ctx (s.selectDestroy id owner) ((s.view ctx).selectDestroy id owner) := by
  unfold State.selectDestroy
  rw [selectFind_view]
  cases s.selectFind id owner with
  | error status => exact same_view s
  | ok sel =>
    simp only [Except.map, select_seen_id, select_seen_epIds]
    refine same_of_shrunk ?_ ?_ ?_ ?_ ?_ (fun tid => rfl) rfl rfl rfl
    · intro id h
      simp only [State.owns, any_map, any_eq_true, comp_apply] at h ⊢
      obtain ⟨ep, hm, hep⟩ := h
      refine ⟨ep, hm, ?_⟩
      split at hep <;> exact hep
    · intro id h
      simp only [State.ownsSelect, any_eq_true] at h ⊢
      obtain ⟨sel', hm, hsel⟩ := h
      exact ⟨sel', (mem_filter.1 hm).1, hsel⟩
    · simp only [State.view, map_map]
      refine map_congr_left fun ep _ => ?_
      simp only [comp_apply]
      by_cases hmem : ep.id ∈ sel.epIds
      · have hmem' : (ep.seen ctx (s.owns ctx)).id ∈ sel.epIds := hmem
        rw [if_pos hmem, if_pos hmem']
        rfl
      · have hmem' : (ep.seen ctx (s.owns ctx)).id ∉ sel.epIds := hmem
        rw [if_neg hmem, if_neg hmem']
    · simp only [State.view, filter_map, comp_def, select_seen_id]
    · exact fun p hp => filter_filter_of_le hp s.owed

lemma agree_selectAdd (s : State) (ctx : UInt32) (alloc : Bool) (select endpoint owner : UInt32) :
    (s.selectAdd alloc select endpoint owner).1 =
        ((s.view ctx).selectAdd alloc select endpoint owner).1 ∧
      Same ctx (s.selectAdd alloc select endpoint owner).2
        ((s.view ctx).selectAdd alloc select endpoint owner).2 := by
  unfold State.selectAdd
  rw [selectFind_view]
  cases hfind : s.selectFind select owner with
  | error status => exact ⟨rfl, same_view s⟩
  | ok sel =>
    simp only [Except.map, select_seen_epIds]
    iterate 2
      split
      · exact ⟨rfl, same_view s⟩
    cases hget : s.endpoint endpoint with
    | none =>
      rw [view_endpoint_none hget]
      exact ⟨rfl, same_view s⟩
    | some ep =>
      rw [view_endpoint_some hget]
      simp only
      split
      · exact ⟨rfl, same_view s⟩
      refine ⟨rfl, ?_⟩
      have hget' := endpoint_self hget
      have hsel : s.select sel.id = some sel := by
        have hsel := (selectFind_ok hfind).1
        rw [(select_some hsel).2.1, hsel]
      have hput : Same ctx (s.putEndpoint { ep with watchers := sel.id :: ep.watchers })
          ((s.view ctx).putEndpoint { ep.seen ctx (s.owns ctx) with
            watchers := (sel.seen ctx).id :: (ep.seen ctx (s.owns ctx)).watchers }) := by
        refine putEndpoint_congr hget' rfl rfl rfl ?_
        by_cases ho : ep.ownerContextId = ctx <;> simp [seen, ho]
      have hsel' : ((s.view ctx).putEndpoint { ep.seen ctx (s.owns ctx) with
            watchers := (sel.seen ctx).id :: (ep.seen ctx (s.owns ctx)).watchers }).select
          (sel.seen ctx).id = some (sel.seen ctx) := by
        rw [select_seen_id]
        exact view_select_some hsel
      refine putSelect_congr hput hsel hsel' rfl rfl ?_
      by_cases ho : sel.ownerContextId = ctx <;> simp [SelectSet.seen, ho]

end Ipc
