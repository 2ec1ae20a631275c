import WasmOS.Ipc.Tables

/-! # What a context can see of the IPC tables

The view of a context keeps who owns which endpoint and set, who watches whom, and the whole of what
the context owns itself. Queues, counters, latches, owed hangups and blocked threads of others are
blanked.
-/

namespace Ipc

open Forest List Function

def Endpoint.seen (ctx : UInt32) (keep : UInt32 → Bool) (ep : Endpoint) : Endpoint := { ep with
    ring := if ep.ownerContextId = ctx then ep.ring else emptyRing
    notifyCount := if ep.ownerContextId = ctx then ep.notifyCount else 0
    pending := if ep.ownerContextId = ctx then ep.pending else []
    refusedCount := 0
    lastRefusedType := 0
    lastRefusedRequestId := 0
    lastRefusedSource := 0
    contacts := ep.contacts.filter fun record => keep record.destination
    contactsOverflowed := false }

def SelectSet.seen (ctx : UInt32) (sel : SelectSet) : SelectSet :=
  if sel.ownerContextId = ctx then sel else { sel with readyEp := endpointNone, scanCursor := 0 }

namespace State

def owns (s : State) (ctx id : UInt32) : Bool :=
  s.endpoints.any fun ep => ep.id == id && ep.ownerContextId == ctx

def ownsSelect (s : State) (ctx id : UInt32) : Bool :=
  s.selects.any fun sel => sel.id == id && sel.ownerContextId == ctx

def touches (s : State) (ctx : UInt32) (b : Blocked) : Bool := b.contextId == ctx ||
    match b.wait with
    | .recv id | .readable id => s.owns ctx id
    | .selectLatch id | .selectParked id | .selectRelatch id => s.ownsSelect ctx id

def view (s : State) (ctx : UInt32) : State := { s with
    endpoints := s.endpoints.map (·.seen ctx (s.owns ctx))
    selects := s.selects.map (·.seen ctx)
    owed := s.owed.filter fun record => s.owns ctx record.destination
    blocked := fun tid => (s.blocked tid).filter (s.touches ctx) }

variable {s : State} {ctx : UInt32}

@[simp] lemma seen_id (keep : UInt32 → Bool) (ep : Endpoint) : (ep.seen ctx keep).id = ep.id := rfl

@[simp] lemma seen_owner (keep : UInt32 → Bool) (ep : Endpoint) :
    (ep.seen ctx keep).ownerContextId = ep.ownerContextId := rfl

@[simp] lemma seen_type (keep : UInt32 → Bool) (ep : Endpoint) :
    (ep.seen ctx keep).type = ep.type := rfl

@[simp] lemma seen_watchers (keep : UInt32 → Bool) (ep : Endpoint) :
    (ep.seen ctx keep).watchers = ep.watchers := rfl

@[simp] lemma seen_seen (keep : UInt32 → Bool) (ep : Endpoint) :
    (ep.seen ctx keep).seen ctx keep = ep.seen ctx keep := by
  by_cases h : ep.ownerContextId = ctx <;> simp [Endpoint.seen, h]

@[simp] lemma select_seen_id (sel : SelectSet) : (sel.seen ctx).id = sel.id := by
  unfold SelectSet.seen
  split <;> rfl

@[simp] lemma select_seen_owner (sel : SelectSet) :
    (sel.seen ctx).ownerContextId = sel.ownerContextId := by
  unfold SelectSet.seen
  split <;> rfl

@[simp] lemma select_seen_epIds (sel : SelectSet) : (sel.seen ctx).epIds = sel.epIds := by
  unfold SelectSet.seen
  split <;> rfl

@[simp] lemma select_seen_seen (sel : SelectSet) : (sel.seen ctx).seen ctx = sel.seen ctx := by
  by_cases h : sel.ownerContextId = ctx <;> simp [SelectSet.seen, h]

lemma select_seen_of_owner {sel : SelectSet} (h : sel.ownerContextId = ctx) :
    sel.seen ctx = sel := if_pos h

@[simp] lemma owns_view (s : State) : (s.view ctx).owns ctx = s.owns ctx := by
  funext id
  simp [owns, view, any_map, comp_def]

@[simp] lemma ownsSelect_view (s : State) : (s.view ctx).ownsSelect ctx = s.ownsSelect ctx := by
  funext id
  simp [ownsSelect, view, any_map, comp_def]

@[simp] lemma touches_view (s : State) : (s.view ctx).touches ctx = s.touches ctx := by
  funext b
  simp [touches]

@[simp] lemma view_view (s : State) : (s.view ctx).view ctx = s.view ctx := by
  have h₁ : (s.view ctx).owns ctx = s.owns ctx := owns_view s
  have h₂ : (s.view ctx).touches ctx = s.touches ctx := touches_view s
  unfold view at h₁ h₂ ⊢
  simp only [h₁, h₂, map_map, comp_def, seen_seen, select_seen_seen,
    filter_filter, Bool.and_self, Option.filter_filter]

lemma endpoint_view (s : State) (id : UInt32) :
    (s.view ctx).endpoint id = (s.endpoint id).map (·.seen ctx (s.owns ctx)) := by
  unfold endpoint
  split
  · rfl
  · simp only [view, find?_map]
    rfl

lemma select_view (s : State) (id : UInt32) :
    (s.view ctx).select id = (s.select id).map (·.seen ctx) := by
  unfold select
  split
  · rfl
  · simp only [view, find?_map, comp_def, select_seen_id]

lemma endpoint_some {id : UInt32} {ep : Endpoint} (h : s.endpoint id = some ep) :
    ep ∈ s.endpoints ∧ ep.id = id ∧ s.endpoints.find? (·.id == id) = some ep := by
  unfold endpoint at h
  split at h
  · cases h
  · exact ⟨mem_of_find?_eq_some h, by simpa using find?_some h, h⟩

lemma select_some {id : UInt32} {sel : SelectSet} (h : s.select id = some sel) :
    sel ∈ s.selects ∧ sel.id = id ∧ s.selects.find? (·.id == id) = some sel := by
  unfold select at h
  split at h
  · cases h
  · exact ⟨mem_of_find?_eq_some h, by simpa using find?_some h, h⟩

variable {t : State} {ep ep' ep₀ : Endpoint} {sel sel' sel₀ sel₁ : SelectSet}

def Same (ctx : UInt32) (s t : State) : Prop := s.view ctx = t.view ctx

lemma same_view (s : State) : Same ctx s (s.view ctx) := (view_view s).symm

section

variable (h : s.endpoint ep.id = some ep₀) (ho : ep.ownerContextId = ep₀.ownerContextId)
include h ho

lemma owns_putEndpoint : (s.putEndpoint ep).owns ctx = s.owns ctx := by
  obtain ⟨-, hid, hfind⟩ := endpoint_some h
  funext id
  exact any_updateFirst_const (g := fun e : Endpoint => (e.id, e.ownerContextId)) hfind
    (by simp [hid, ho]) fun x => x.1 == id && x.2 == ctx

lemma view_putEndpoint :
    (s.putEndpoint ep).view ctx = (s.view ctx).putEndpoint (ep.seen ctx (s.owns ctx)) := by
  have howns : (s.putEndpoint ep).owns ctx = s.owns ctx := owns_putEndpoint h ho
  have htouch : (s.putEndpoint ep).touches ctx = s.touches ctx := by
    funext b
    simp only [touches, howns]
    rfl
  have hmap := updateFirst_const_map (p := fun e : Endpoint => e.id == ep.id)
    (q := fun e : Endpoint => e.id == ep.id) (g := fun e => e.seen ctx (s.owns ctx))
    (s := s.endpoints) (b := ep) fun _ => rfl
  unfold view
  rw [howns, htouch]
  simp only [putEndpoint, hmap, seen_id]

lemma same_putEndpoint (hseen : ep.seen ctx (s.owns ctx) = ep₀.seen ctx (s.owns ctx)) :
    Same ctx (s.putEndpoint ep) s := by
  have hv : (s.view ctx).endpoint ep.id = some (ep₀.seen ctx (s.owns ctx)) := by
    rw [endpoint_view, h, Option.map_some]
  obtain ⟨-, hid, hfind⟩ := endpoint_some hv
  rw [Same, view_putEndpoint h ho, hseen, putEndpoint, hid, updateFirst_const_self hfind]

lemma putEndpoint_congr (hid : ep'.id = ep.id) (ho' : ep'.ownerContextId = ep.ownerContextId)
    (hseen : ep'.seen ctx (s.owns ctx) = ep.seen ctx (s.owns ctx)) :
    Same ctx (s.putEndpoint ep) ((s.view ctx).putEndpoint ep') := by
  have hv : (s.view ctx).endpoint ep'.id = some (ep₀.seen ctx (s.owns ctx)) := by
    rw [endpoint_view, hid, h, Option.map_some]
  rw [Same, view_putEndpoint h ho, view_putEndpoint hv (ho'.trans ho), view_view, owns_view, hseen]

end

section

variable (h : s.select sel.id = some sel₀) (ho : sel.ownerContextId = sel₀.ownerContextId)
include h ho

lemma ownsSelect_putSelect : (s.putSelect sel).ownsSelect ctx = s.ownsSelect ctx := by
  obtain ⟨-, hid, hfind⟩ := select_some h
  funext id
  exact any_updateFirst_const (g := fun e : SelectSet => (e.id, e.ownerContextId)) hfind
    (by simp [hid, ho]) fun x => x.1 == id && x.2 == ctx

lemma view_putSelect : (s.putSelect sel).view ctx = (s.view ctx).putSelect (sel.seen ctx) := by
  have howns : (s.putSelect sel).ownsSelect ctx = s.ownsSelect ctx := ownsSelect_putSelect h ho
  have htouch : (s.putSelect sel).touches ctx = s.touches ctx := by
    funext b
    simp only [touches, howns]
    rfl
  have hmap := updateFirst_const_map (p := fun e : SelectSet => e.id == sel.id)
    (q := fun e : SelectSet => e.id == sel.id) (g := fun e => e.seen ctx)
    (s := s.selects) (b := sel) fun a => by simp
  unfold view
  rw [htouch]
  simp only [putSelect, hmap, select_seen_id]
  rfl

lemma same_putSelect (hseen : sel.seen ctx = sel₀.seen ctx) : Same ctx (s.putSelect sel) s := by
  have hv : (s.view ctx).select sel.id = some (sel₀.seen ctx) := by
    rw [select_view, h, Option.map_some]
  obtain ⟨-, hid, hfind⟩ := select_some hv
  rw [Same, view_putSelect h ho, hseen, putSelect, hid, updateFirst_const_self hfind]

end

lemma putSelect_congr (hst : Same ctx s t) (h : s.select sel.id = some sel₀)
    (h' : t.select sel'.id = some sel₁) (ho : sel.ownerContextId = sel₀.ownerContextId)
    (ho' : sel'.ownerContextId = sel₁.ownerContextId) (hseen : sel'.seen ctx = sel.seen ctx) :
    Same ctx (s.putSelect sel) (t.putSelect sel') := by
  rw [Same, view_putSelect h ho, view_putSelect h' ho', hst, hseen]

lemma setBlocked_congr (h : Same ctx s t) (tid : ℕ) (b : Option Blocked) :
    Same ctx (s.setBlocked tid b) (t.setBlocked tid b) := by
  have hview : ∀ s : State, (s.setBlocked tid b).view ctx =
      (s.view ctx).setBlocked tid (b.filter ((s.view ctx).touches ctx)) := by
    intro s
    rw [touches_view]
    unfold view setBlocked
    congr 1
    funext tid'
    by_cases hid : tid' = tid
    · subst hid
      simp only [update_self]
      rfl
    · simp only [update_of_ne hid]
      rfl
  rw [Same, hview, hview, h]

lemma same_setBlocked (tid : ℕ) {b : Option Blocked} (hb : b.filter (s.touches ctx) = none)
    (hold : (s.blocked tid).filter (s.touches ctx) = none) : Same ctx (s.setBlocked tid b) s := by
  unfold Same view setBlocked
  congr 1
  funext tid'
  by_cases hid : tid' = tid
  · subst hid
    simp only [update_self]
    exact hb.trans hold.symm
  · simp only [update_of_ne hid]
    rfl

/-! ### Notifying the sets on an endpoint's hub -/

lemma view_pollNotify (s : State) (ep : Endpoint) : (s.pollNotify ep).view ctx =
    { s.view ctx with selects := (s.view ctx).selects.map fun sel =>
        if sel.id ∈ ep.watchers ∧ sel.ownerContextId = ctx then { sel with readyEp := ep.id }
        else sel } := by
  have hsel : (s.pollNotify ep).ownsSelect ctx = s.ownsSelect ctx := by
    funext id
    simp only [ownsSelect, pollNotify, any_map, comp_def]
    congr 1
    funext sel
    split <;> rfl
  have htouch : (s.pollNotify ep).touches ctx = s.touches ctx := by
    funext b
    simp only [touches, hsel]
    rfl
  unfold view
  rw [htouch]
  simp only [pollNotify, map_map]
  congr 1
  refine map_congr_left fun sel _ => ?_
  by_cases hw : sel.id ∈ ep.watchers <;> by_cases ho : sel.ownerContextId = ctx <;>
    simp [SelectSet.seen, hw, ho]

lemma pollNotify_congr (h : Same ctx s t) (hw : ep'.watchers = ep.watchers)
    (hid : ep'.id = ep.id) : Same ctx (s.pollNotify ep) (t.pollNotify ep') := by
  rw [Same, view_pollNotify, view_pollNotify, h, hw, hid]

def Unwatched (ctx : UInt32) (s : State) (ep : Endpoint) : Prop :=
  ∀ sel ∈ s.selects, sel.id ∈ ep.watchers → sel.ownerContextId ≠ ctx

lemma same_pollNotify (h : Unwatched ctx s ep) : Same ctx (s.pollNotify ep) s := by
  rw [Same, view_pollNotify]
  have hmap : (s.view ctx).selects.map (fun sel =>
      if sel.id ∈ ep.watchers ∧ sel.ownerContextId = ctx then { sel with readyEp := ep.id }
      else sel) = (s.view ctx).selects := by
    conv_rhs => rw [← map_id (s.view ctx).selects]
    refine map_congr_left fun sel hsel => if_neg ?_
    obtain ⟨sel', hsel', rfl⟩ := mem_map.1 hsel
    rintro ⟨hw, ho⟩
    exact h sel' hsel' (by simpa using hw) (by simpa using ho)
  rw [hmap]

lemma enqueued_congr (h : s.endpoint ep.id = some ep₀)
    (ho : ep.ownerContextId = ep₀.ownerContextId) (hid : ep'.id = ep.id)
    (hw : ep'.watchers = ep.watchers) (ho' : ep'.ownerContextId = ep.ownerContextId)
    (hseen : ep'.seen ctx (s.owns ctx) = ep.seen ctx (s.owns ctx)) :
    Same ctx (s.enqueued ep) ((s.view ctx).enqueued ep') :=
  pollNotify_congr (putEndpoint_congr h ho hid ho' hseen) hw hid

lemma same_enqueued (h : s.endpoint ep.id = some ep₀) (ho : ep.ownerContextId = ep₀.ownerContextId)
    (hseen : ep.seen ctx (s.owns ctx) = ep₀.seen ctx (s.owns ctx)) (hquiet : Unwatched ctx s ep) :
    Same ctx (s.enqueued ep) s :=
  (same_pollNotify (s := s.putEndpoint ep) hquiet).trans (same_putEndpoint h ho hseen)

/-! ### The sections under an endpoint's lock -/

structure Frame (ep ep' : Endpoint) : Prop where
  id : ep'.id = ep.id
  owner : ep'.ownerContextId = ep.ownerContextId
  type : ep'.type = ep.type
  watchers : ep'.watchers = ep.watchers
  contacts : ep'.contacts = ep.contacts

lemma Frame.seen (h : Frame ep ep') (ho : ep.ownerContextId ≠ ctx) (keep : UInt32 → Bool) :
    ep'.seen ctx keep = ep.seen ctx keep := by
  unfold Endpoint.seen
  simp only [h.id, h.owner, h.type, h.watchers, h.contacts, if_neg ho]

lemma frame_sendLocked (msg : Message) : Frame ep (ep.sendLocked msg).2 := by
  unfold Endpoint.sendLocked
  split <;> exact ⟨rfl, rfl, rfl, rfl, rfl⟩

lemma frame_recvLocked {msg : Message} (h : ep.recvLocked = some (msg, ep')) : Frame ep ep' := by
  unfold Endpoint.recvLocked Endpoint.dequeueLocked at h
  split at h
  · split at h <;> cases h <;> exact ⟨rfl, rfl, rfl, rfl, rfl⟩
  · cases h

lemma frame_hangupLocked (record : Hangup) : Frame ep (ep.hangupLocked record).2 := by
  unfold Endpoint.hangupLocked
  split <;> exact ⟨rfl, rfl, rfl, rfl, rfl⟩

section

variable (h : ep.ownerContextId = ctx) (keep : UInt32 → Bool)
include h

lemma seen_ring : (ep.seen ctx keep).ring = ep.ring := if_pos h

lemma seen_pending : (ep.seen ctx keep).pending = ep.pending := if_pos h

lemma seen_notifyCount : (ep.seen ctx keep).notifyCount = ep.notifyCount := if_pos h

lemma recvLocked_seen :
    (ep.seen ctx keep).recvLocked = ep.recvLocked.map fun x => (x.1, x.2.seen ctx keep) := by
  subst h
  unfold Endpoint.recvLocked Endpoint.dequeueLocked
  by_cases hpos : 0 < ep.ring.count
  · have hpos' : 0 < (ep.seen ep.ownerContextId keep).ring.count := by
      rwa [seen_ring rfl]
    rw [dif_pos hpos, dif_pos hpos', Option.map_some]
    cases hp : ep.pending with
    | nil => simp [Endpoint.seen, hp]
    | cons record pending => simp [Endpoint.seen, Endpoint.enqueueLocked, hp]
  · have hpos' : ¬ 0 < (ep.seen ep.ownerContextId keep).ring.count := by
      rwa [seen_ring rfl]
    rw [dif_neg hpos, dif_neg hpos', Option.map_none]

lemma sendLocked_seen (msg : Message) :
    ((ep.seen ctx keep).sendLocked msg).1 = (ep.sendLocked msg).1 ∧
      ((ep.seen ctx keep).sendLocked msg).2.seen ctx keep =
        (ep.sendLocked msg).2.seen ctx keep := by
  subst h
  unfold Endpoint.sendLocked
  by_cases hfull : queueDepth ≤ ep.ring.count
  · have hfull' : queueDepth ≤ (ep.seen ep.ownerContextId keep).ring.count := by
      rwa [seen_ring rfl]
    rw [dif_pos hfull, dif_pos hfull']
    simp [Endpoint.seen]
  have hfull' : ¬ queueDepth ≤ (ep.seen ep.ownerContextId keep).ring.count := by
    rwa [seen_ring rfl]
  rw [dif_neg hfull, dif_neg hfull']
  simp [Endpoint.seen, Endpoint.enqueueLocked]

lemma hangupLocked_seen (record : Hangup) :
    ((ep.seen ctx keep).hangupLocked record).1 = (ep.hangupLocked record).1 ∧
      ((ep.seen ctx keep).hangupLocked record).2.seen ctx keep =
        (ep.hangupLocked record).2.seen ctx keep := by
  subst h
  unfold Endpoint.hangupLocked
  by_cases hroom : ep.pending = [] ∧ ep.ring.count < queueSlots
  · have hroom' : (ep.seen ep.ownerContextId keep).pending = [] ∧
        (ep.seen ep.ownerContextId keep).ring.count < queueSlots := by
      rwa [seen_ring rfl, seen_pending rfl]
    rw [dif_pos hroom, dif_pos hroom']
    simp [Endpoint.seen, Endpoint.enqueueLocked]
  have hroom' : ¬ ((ep.seen ep.ownerContextId keep).pending = [] ∧
      (ep.seen ep.ownerContextId keep).ring.count < queueSlots) := by
    rwa [seen_ring rfl, seen_pending rfl]
  rw [dif_neg hroom, dif_neg hroom']
  simp [Endpoint.seen]

end

lemma take_congr (hget : s.endpoint ep.id = some ep) (ho : ep.ownerContextId = ctx) :
    (s.take ep).1 = ((s.view ctx).take (ep.seen ctx (s.owns ctx))).1 ∧
      Same ctx (s.take ep).2 ((s.view ctx).take (ep.seen ctx (s.owns ctx))).2 := by
  unfold take
  rw [recvLocked_seen ho, seen_pending ho]
  cases hrecv : ep.recvLocked with
  | none => exact ⟨rfl, same_view s⟩
  | some x =>
    obtain ⟨msg, ep'⟩ := x
    have hf := frame_recvLocked hrecv
    have hget' : s.endpoint ep'.id = some ep := by rw [hf.id, hget]
    refine ⟨rfl, ?_⟩
    show Same ctx (if ep.pending = [] then s.putEndpoint ep' else s.enqueued ep') _
    by_cases hp : ep.pending = []
    · simp only [Option.map_some, hp, if_true]
      exact putEndpoint_congr hget' hf.owner rfl rfl (seen_seen _ _)
    · simp only [Option.map_some, hp, if_false]
      exact enqueued_congr hget' hf.owner rfl rfl rfl (seen_seen _ _)

end State

end Ipc
