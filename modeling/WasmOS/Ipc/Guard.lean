import WasmOS.Ipc.View

/-! # What keeps a context apart from endpoints of others

The invariant isolation rests on: nothing of the context hangs on an endpoint or a set of another
one. The code does not check that a select set gets its own context's endpoints, that an id issued
again is unused, or that a contact list has room; the conditions on a section do.
-/

namespace Ipc

open State Forest List Function Endpoint

variable {s t : State} {ctx : UInt32} {ep ep' : Endpoint} {sel : SelectSet}

structure Guarded (ctx : UInt32) (s : State) : Prop where
  endpointIds : (s.endpoints.map (·.id)).Nodup
  selectIds : (s.selects.map (·.id)).Nodup
  watchers : ∀ ep ∈ s.endpoints, ∀ sel ∈ s.selects, sel.ownerContextId = ctx →
    sel.id ∈ ep.watchers → ep.ownerContextId = ctx
  watched : ∀ sel ∈ s.selects, sel.ownerContextId = ctx → ∀ ep ∈ s.endpoints,
    ep.id ∈ sel.epIds → ep.ownerContextId = ctx
  endpointWaits : ∀ tid b, s.blocked tid = some b → b.contextId = ctx → ∀ ep ∈ s.endpoints,
    b.wait = .recv ep.id ∨ b.wait = .readable ep.id → ep.ownerContextId = ctx
  selectWaits : ∀ tid b, s.blocked tid = some b → b.contextId = ctx → ∀ sel ∈ s.selects,
    b.wait = .selectLatch sel.id ∨ b.wait = .selectParked sel.id ∨ b.wait = .selectRelatch sel.id →
      sel.ownerContextId = ctx

lemma guarded_init (ctx : UInt32) : Guarded ctx .init := by
  constructor <;> simp [State.init]

def Endpoint.frame (ep : Endpoint) : UInt32 × UInt32 × List UInt32 :=
  (ep.id, ep.ownerContextId, ep.watchers)

def SelectSet.frame (sel : SelectSet) : UInt32 × UInt32 × List UInt32 :=
  (sel.id, sel.ownerContextId, sel.epIds)

lemma Guarded.mono (h : Guarded ctx s)
    (he : (t.endpoints.map (·.id)).Sublist (s.endpoints.map (·.id)))
    (hs : (t.selects.map (·.id)).Sublist (s.selects.map (·.id)))
    (hep : ∀ ep ∈ t.endpoints, ∃ ep' ∈ s.endpoints,
      ep'.id = ep.id ∧ ep'.ownerContextId = ep.ownerContextId ∧
      ∀ id ∈ ep.watchers, id ∈ ep'.watchers ∨ ∀ sel ∈ s.selects, sel.id = id →
        sel.ownerContextId = ctx → ep'.ownerContextId = ctx)
    (hsel : ∀ sel ∈ t.selects, ∃ sel' ∈ s.selects,
      sel'.id = sel.id ∧ sel'.ownerContextId = sel.ownerContextId ∧
      ∀ id ∈ sel.epIds, id ∈ sel'.epIds ∨ ∀ ep ∈ s.endpoints, ep.id = id →
        sel'.ownerContextId = ctx → ep.ownerContextId = ctx)
    (hb : ∀ tid b, t.blocked tid = some b → b.contextId = ctx → s.blocked tid = some b) :
    Guarded ctx t := by
  constructor
  · exact h.endpointIds.sublist he
  · exact h.selectIds.sublist hs
  · intro ep hm sel hsm ho hw
    obtain ⟨ep', hm', h₁, h₂, h₃⟩ := hep ep hm
    obtain ⟨sel', hsm', g₁, g₂, g₃⟩ := hsel sel hsm
    rw [← h₂]
    rcases h₃ _ hw with hw | hw
    · exact h.watchers ep' hm' sel' hsm' (g₂.trans ho) (g₁ ▸ hw)
    · exact hw sel' hsm' g₁ (g₂.trans ho)
  · intro sel hsm ho ep hm hw
    obtain ⟨ep', hm', h₁, h₂, h₃⟩ := hep ep hm
    obtain ⟨sel', hsm', g₁, g₂, g₃⟩ := hsel sel hsm
    rw [← h₂]
    rcases g₃ _ hw with hw | hw
    · exact h.watched sel' hsm' (g₂.trans ho) ep' hm' (h₁ ▸ hw)
    · exact hw ep' hm' h₁ (g₂.trans ho)
  · intro tid b hbl hc ep hm hw
    obtain ⟨ep', hm', h₁, h₂, h₃⟩ := hep ep hm
    exact h₂ ▸ h.endpointWaits tid b (hb tid b hbl hc) hc ep' hm' (h₁ ▸ hw)
  · intro tid b hbl hc sel hsm hw
    obtain ⟨sel', hsm', g₁, g₂, g₃⟩ := hsel sel hsm
    exact g₂ ▸ h.selectWaits tid b (hb tid b hbl hc) hc sel' hsm' (g₁ ▸ hw)

lemma Guarded.congr (h : Guarded ctx s)
    (he : t.endpoints.map frame = s.endpoints.map frame)
    (hs : t.selects.map SelectSet.frame = s.selects.map SelectSet.frame)
    (hb : ∀ tid b, t.blocked tid = some b → b.contextId = ctx → s.blocked tid = some b) :
    Guarded ctx t := by
  have heid := congrArg (List.map Prod.fst) he
  have hsid := congrArg (List.map Prod.fst) hs
  simp only [map_map, comp_def, frame, SelectSet.frame] at heid hsid
  refine h.mono (heid ▸ .refl _) (hsid ▸ .refl _) (fun ep hm => ?_) (fun sel hm => ?_) hb
  · have := mem_map_of_mem (f := frame) hm
    rw [he, mem_map] at this
    obtain ⟨ep', hm', hf⟩ := this
    simp only [frame, Prod.mk.injEq] at hf
    exact ⟨ep', hm', hf.1, hf.2.1, fun _ hw => .inl (hf.2.2 ▸ hw)⟩
  have := mem_map_of_mem (f := SelectSet.frame) hm
  rw [hs, mem_map] at this
  obtain ⟨sel', hm', hf⟩ := this
  simp only [SelectSet.frame, Prod.mk.injEq] at hf
  exact ⟨sel', hm', hf.1, hf.2.1, fun _ hw => .inl (hf.2.2 ▸ hw)⟩

lemma guarded_view_iff : Guarded ctx (s.view ctx) ↔ Guarded ctx s := by
  have he : (s.view ctx).endpoints.map frame = s.endpoints.map frame := by
    simp [view, frame, comp_def]
  have hs : (s.view ctx).selects.map SelectSet.frame = s.selects.map SelectSet.frame := by
    simp [view, SelectSet.frame, comp_def]
  constructor
  · refine fun h => h.congr he.symm hs.symm fun tid b hb hc => ?_
    simp [view, Option.filter, hb, touches, hc]
  · refine fun h => h.congr he hs fun tid b hb _ => ?_
    exact (Option.filter_eq_some_iff.1 hb).1

lemma Guarded.unwatched (h : Guarded ctx s) (hm : ep ∈ s.endpoints)
    (ho : ep.ownerContextId ≠ ctx) : Unwatched ctx s ep :=
  fun sel hsel hw hsel' => ho (h.watchers ep hm sel hsel hsel' hw)

lemma any_owner_eq {α : Type*} {id owner : α → UInt32} {l : List α} {a : α}
    (hn : (l.map id).Nodup) (hm : a ∈ l) :
    (l.any fun b => id b == id a && owner b == ctx) = decide (owner a = ctx) := by
  rw [Bool.eq_iff_iff, decide_eq_true_iff]
  simp only [any_eq_true, Bool.and_eq_true, beq_iff_eq]
  constructor
  · rintro ⟨b, hb, hid, ho⟩
    rwa [inj_on_of_nodup_map hn hm hb hid.symm]
  · exact fun ho => ⟨a, hm, rfl, ho⟩

lemma Guarded.owns_eq (h : Guarded ctx s) (hm : ep ∈ s.endpoints) :
    s.owns ctx ep.id = decide (ep.ownerContextId = ctx) := any_owner_eq h.endpointIds hm

lemma Guarded.ownsSelect_eq (h : Guarded ctx s) (hm : sel ∈ s.selects) :
    s.ownsSelect ctx sel.id = decide (sel.ownerContextId = ctx) := any_owner_eq h.selectIds hm

structure Unreferenced (s : State) (id : UInt32) : Prop where
  live : ∀ ep ∈ s.endpoints, ep.id ≠ id
  contacts : ∀ ep ∈ s.endpoints, ∀ record ∈ ep.contacts, record.destination ≠ id
  owed : ∀ record ∈ s.owed, record.destination ≠ id
  watched : ∀ sel ∈ s.selects, id ∉ sel.epIds
  waits : ∀ tid b, s.blocked tid = some b → b.wait ≠ .recv id ∧ b.wait ≠ .readable id

structure UnreferencedSelect (s : State) (id : UInt32) : Prop where
  live : ∀ sel ∈ s.selects, sel.id ≠ id
  watchers : ∀ ep ∈ s.endpoints, id ∉ ep.watchers
  waits : ∀ tid b, s.blocked tid = some b →
    b.wait ≠ .selectLatch id ∧ b.wait ≠ .selectParked id ∧ b.wait ≠ .selectRelatch id

def Enabled (s : State) : Event → Prop
  | .recvBlockingFor tid _ _ | .endpointWaitFor tid _ _ | .selectWait tid _ _ =>
    s.blocked tid = none
  | _ => True

def Careful (ctx : UInt32) (s : State) : Event → Prop
  | .endpointCreate _ _ _ =>
    ∀ x ∈ s.endpointIds.alloc (fun id => s.endpoints.any (·.id == id)) (s.endpoints.length + 1),
      Unreferenced s x.1
  | .selectCreate _ _ =>
    ∀ x ∈ s.selectIds.alloc (fun id => s.selects.any (·.id == id)) (s.selects.length + 1),
      UnreferencedSelect s x.1
  | .selectAdd _ select endpoint _ =>
    ∀ sel ∈ s.select select, ∀ ep ∈ s.endpoint endpoint,
      sel.ownerContextId = ctx → ep.ownerContextId = ctx
  | .noteContact _ source destination =>
    s.owns ctx destination → ∀ src ∈ s.endpoint source,
      src.contacts.any (·.destination == destination) ∨ src.contacts.length < contactsMax
  | _ => True

structure Keeps (s t : State) : Prop where
  endpoints : t.endpoints.map frame = s.endpoints.map frame
  selects : t.selects.map SelectSet.frame = s.selects.map SelectSet.frame
  blocked : t.blocked = s.blocked

lemma Keeps.refl (s : State) : Keeps s s := ⟨rfl, rfl, rfl⟩

lemma Keeps.trans {u : State} (h : Keeps s t) (h' : Keeps t u) : Keeps s u :=
  ⟨h'.endpoints.trans h.endpoints, h'.selects.trans h.selects, h'.blocked.trans h.blocked⟩

lemma Guarded.keep (h : Guarded ctx s) (hk : Keeps s t) : Guarded ctx t :=
  h.congr hk.endpoints hk.selects fun _ _ hb _ => hk.blocked ▸ hb

variable {id : UInt32}

lemma keeps_putEndpoint (hget : s.endpoint id = some ep)
    (hf : frame ep' = ep.frame) : Keeps s (s.putEndpoint ep') := by
  have hid : ep'.id = id := (congrArg Prod.fst hf).trans (endpoint_some hget).2.1
  refine ⟨?_, rfl, rfl⟩
  refine map_updateFirst_const ?_ hf
  rw [hid]
  exact (endpoint_some hget).2.2

lemma State.Frame.frame_eq (h : Frame ep ep') : ep'.frame = ep.frame := by
  unfold frame
  rw [h.id, h.owner, h.watchers]

lemma keeps_pollNotify (s : State) (ep : Endpoint) : Keeps s (s.pollNotify ep) := by
  refine ⟨rfl, ?_, rfl⟩
  simp only [State.pollNotify, map_map]
  refine map_congr_left fun sel _ => ?_
  simp only [comp_apply]
  split <;> rfl

lemma keeps_enqueued (hget : s.endpoint id = some ep)
    (hf : frame ep' = ep.frame) : Keeps s (s.enqueued ep') :=
  (keeps_putEndpoint hget hf).trans (keeps_pollNotify _ _)

lemma keeps_putSelect {sel' : SelectSet} (hget : s.select id = some sel)
    (hf : SelectSet.frame sel' = sel.frame) : Keeps s (s.putSelect sel') := by
  have hid : sel'.id = id := (congrArg Prod.fst hf).trans (select_some hget).2.1
  refine ⟨rfl, ?_, rfl⟩
  refine map_updateFirst_const ?_ hf
  rw [hid]
  exact (select_some hget).2.2

/-- What a section under the lock of an endpoint makes of the tables: nothing, or the endpoint is
put back. -/
inductive Locked (s : State) (id : UInt32) : State → Prop
  | idle : Locked s id s
  | put {ep ep' : Endpoint} (hget : s.endpoint id = some ep) (hf : Frame ep ep') :
      Locked s id (s.putEndpoint ep')
  | enqueued {ep ep' : Endpoint} (hget : s.endpoint id = some ep) (hf : Frame ep ep') :
      Locked s id (s.enqueued ep')

lemma Locked.keeps (h : Locked s id t) : Keeps s t := by
  cases h with
  | idle => exact .refl s
  | put hget hf => exact keeps_putEndpoint hget hf.frame_eq
  | enqueued hget hf => exact keeps_enqueued hget hf.frame_eq

lemma locked_take (hget : s.endpoint id = some ep) : Locked s id (s.take ep).2 := by
  unfold State.take
  split
  · exact .idle
  next msg ep' hrecv =>
    have hf := frame_recvLocked hrecv
    split
    · exact .put hget hf
    · exact .enqueued hget hf

lemma locked_sendFrom (sender endpoint : UInt32) (msg : Message) :
    Locked s endpoint (s.sendFrom sender endpoint msg).2 := by
  unfold State.sendFrom
  split
  · split
    · exact .idle
    next ep hget =>
      split
      · have hf : Frame ep (ep.sendLocked msg).2 := frame_sendLocked msg
        split
        next ep' hsend => exact .enqueued hget (by rwa [hsend] at hf)
        next status ep' _ hsend => exact .put hget (by rwa [hsend] at hf)
      · exact .idle
  · exact .idle

lemma keeps_noteContact (alloc : Bool) (source destination : UInt32) :
    Keeps s (s.noteContact alloc source destination) := by
  unfold State.noteContact
  split
  · exact .refl s
  split
  · exact .refl s
  next src hget =>
    split
    · exact .refl s
    split
    · exact .refl s
    split <;> exact keeps_putEndpoint hget rfl

lemma locked_notifyFrom (sender endpoint : UInt32) :
    Locked s endpoint (s.notifyFrom sender endpoint).2 := by
  unfold State.notifyFrom
  split
  · exact .idle
  next ep hget =>
    split
    · exact .enqueued hget ⟨rfl, rfl, rfl, rfl, rfl⟩
    · exact .idle

variable (receiver endpoint : UInt32)

lemma locked_waitFor : Locked s endpoint (s.waitFor receiver endpoint).2 := by
  unfold State.waitFor
  split
  · exact .idle
  next ep hget =>
    split
    · split
      · exact .idle
      · exact .put hget ⟨rfl, rfl, rfl, rfl, rfl⟩
    · exact .idle

lemma locked_recvFor : Locked s endpoint (s.recvFor receiver endpoint).2 := by
  unfold State.recvFor
  split
  · exact .idle
  next ep hget =>
    split
    · exact locked_take hget
    · exact .idle

lemma locked_recvResume (endpoint : UInt32) : Locked s endpoint (s.recvResume endpoint).2 := by
  unfold State.recvResume
  split
  · exact .idle
  next ep hget => exact locked_take hget

lemma locked_hangupInto (record : Hangup) : Locked s record.destination (s.hangupInto record) := by
  unfold State.hangupInto
  split
  · exact .idle
  next ep hget =>
    split
    · have hf : Frame ep (ep.hangupLocked record).2 := frame_hangupLocked record
      split
      next ep' hang => exact .enqueued hget (by rwa [hang] at hf)
      next ep' hang => exact .put hget (by rwa [hang] at hf)
    · exact .idle

lemma keeps_hangupDeliver (record : Hangup) : Keeps s (s.hangupDeliver record) := by
  unfold State.hangupDeliver
  split
  · have howed : Keeps s { s with owed := s.owed.erase record } := ⟨rfl, rfl, rfl⟩
    exact howed.trans (locked_hangupInto record).keeps
  · exact .refl s

lemma keeps_contextWatch (alloc : Bool) (contextId destination : UInt32) :
    Keeps s (s.contextWatch alloc contextId destination) := by
  unfold State.contextWatch
  split <;> exact ⟨rfl, rfl, rfl⟩

lemma Guarded.park (h : Guarded ctx s) (tid : ℕ) {caller : UInt32} {w : Wait}
    (he : caller = ctx → ∀ ep ∈ s.endpoints, w = .recv ep.id ∨ w = .readable ep.id →
      ep.ownerContextId = ctx)
    (hs : caller = ctx → ∀ sel ∈ s.selects,
      w = .selectLatch sel.id ∨ w = .selectParked sel.id ∨ w = .selectRelatch sel.id →
        sel.ownerContextId = ctx) :
    Guarded ctx (s.setBlocked tid (some ⟨caller, w⟩)) := by
  have hb : ∀ tid' b, update s.blocked tid (some ⟨caller, w⟩) tid' = some b →
      b = ⟨caller, w⟩ ∨ s.blocked tid' = some b := by
    intro tid' b hb
    rw [update_apply] at hb
    split at hb
    · exact .inl (Option.some.inj hb).symm
    · exact .inr hb
  constructor
  · exact h.endpointIds
  · exact h.selectIds
  · exact h.watchers
  · exact h.watched
  · intro tid' b hbl hc
    rcases hb tid' b hbl with rfl | hold
    · exact he hc
    · exact h.endpointWaits tid' b hold hc
  intro tid' b hbl hc
  rcases hb tid' b hbl with rfl | hold
  · exact hs hc
  · exact h.selectWaits tid' b hold hc

lemma Guarded.unpark (h : Guarded ctx s) (tid : ℕ) : Guarded ctx (s.setBlocked tid none) := by
  refine h.congr rfl rfl fun tid' b hb _ => ?_
  change update s.blocked tid none tid' = some b at hb
  rw [update_apply] at hb
  split at hb
  · cases hb
  · exact hb

lemma acquireOwned_ne_ok (hk : ctx ≠ contextKernel) (ho : ep.ownerContextId ≠ ctx)
    (type : EndpointType) : ep.acquireOwned type ctx ≠ .ok := by
  unfold acquireOwned
  split
  · simp
  · rw [if_pos ⟨hk, ho⟩]
    simp

lemma Guarded.eq_of_endpoint (h : Guarded ctx s) (hget : s.endpoint id = some ep)
    (hm : ep' ∈ s.endpoints) (hid : ep'.id = id) : ep' = ep :=
  inj_on_of_nodup_map h.endpointIds hm (endpoint_some hget).1
    (hid.trans (endpoint_some hget).2.1.symm)

lemma Guarded.eq_of_select (h : Guarded ctx s) {sel' : SelectSet}
    (hget : s.select id = some sel) (hm : sel' ∈ s.selects) (hid : sel'.id = id) : sel' = sel :=
  inj_on_of_nodup_map h.selectIds hm (select_some hget).1 (hid.trans (select_some hget).2.1.symm)

lemma selectFind_ok {id owner : UInt32} (h : s.selectFind id owner = .ok sel) :
    s.select id = some sel ∧ (owner = contextKernel ∨ sel.ownerContextId = owner) := by
  unfold State.selectFind at h
  repeat' split at h
  any_goals cases h
  next sel' hget hown =>
  refine ⟨hget, ?_⟩
  by_contra hne
  rw [not_or] at hne
  exact hown hne

lemma keeps_selectScanned (hget : s.select id = some sel) (i : ℕ) :
    Keeps s (s.selectScanned sel i) := keeps_putSelect hget rfl

lemma keeps_selectIdle (hget : s.select id = some sel) :
    Keeps s (s.selectIdle sel) := keeps_putSelect hget rfl

lemma keeps_selectTakeReady {id endpoint : UInt32} (hget : s.select id = some sel)
    (htake : s.selectTakeReady sel = some (endpoint, t)) : Keeps s t := by
  unfold State.selectTakeReady at htake
  split at htake
  · cases htake
  · cases htake
    exact keeps_putSelect hget rfl

lemma keeps_selectRelatch (id : UInt32) : Keeps s (s.selectRelatch id).2 := by
  unfold State.selectRelatch
  split
  · exact .refl s
  next sel hget =>
    split
    next htake => exact keeps_selectTakeReady hget htake
    · exact .refl s

section

variable (h : Guarded ctx s)
include h

lemma Guarded.park_select (tid : ℕ) {caller id : UInt32} {w : Wait}
    (hw : w = .selectLatch id ∨ w = .selectParked id ∨ w = .selectRelatch id)
    (hget : s.select id = some sel) (ho : caller = ctx → sel.ownerContextId = ctx) :
    Guarded ctx (s.setBlocked tid (some ⟨caller, w⟩)) := by
  refine h.park tid (fun _ ep _ hw' => ?_) fun hc sel' hm hw' => ?_
  · rcases hw with rfl | rfl | rfl <;> rcases hw' with hw' | hw' <;> cases hw'
  have hid : sel'.id = id := by
    rcases hw with rfl | rfl | rfl <;> rcases hw' with hw' | hw' | hw' <;> cases hw' <;> rfl
  obtain rfl := h.eq_of_select hget hm hid
  exact ho hc

lemma Guarded.selectLatch (tid : ℕ) {caller id : UInt32}
    (ho : caller = ctx → ∀ sel ∈ s.select id, sel.ownerContextId = ctx) :
    Guarded ctx (s.selectLatch tid id caller).2 := by
  unfold State.selectLatch
  split
  · exact h
  next sel hget =>
    split
    next htake => exact h.keep (keeps_selectTakeReady hget htake)
    · exact h.park_select tid (.inr (.inl rfl)) hget fun hc => ho hc sel hget

lemma Guarded.endpointsReleaseOwner (owner : UInt32) :
    Guarded ctx (s.endpointsReleaseOwner owner) := by
  unfold State.endpointsReleaseOwner
  split
  · exact h
  refine h.mono (filter_sublist.map _) (.refl _) (fun ep hm => ?_)
    (fun sel hm => ⟨sel, hm, rfl, rfl, fun _ => .inl⟩) fun _ _ hb _ => hb
  exact ⟨ep, (mem_filter.1 hm).1, rfl, rfl, fun _ => .inl⟩

lemma Guarded.selectDestroy (id owner : UInt32) : Guarded ctx (s.selectDestroy id owner) := by
  unfold State.selectDestroy
  split
  · exact h
  next sel _ =>
    refine h.mono ?_ (filter_sublist.map _) (fun ep hm => ?_) (fun sel hm => ?_) fun _ _ hb _ => hb
    · have hid : ∀ ep : Endpoint, (if ep.id ∈ sel.epIds then
          { ep with watchers := ep.watchers.filter (· != sel.id) } else ep).id = ep.id := by
        intro ep
        split <;> rfl
      simp only [map_map, comp_def, hid, List.Sublist.refl]
    · obtain ⟨ep', hm', rfl⟩ := mem_map.1 hm
      refine ⟨ep', hm', ?_⟩
      split
      · exact ⟨rfl, rfl, fun _ hw => .inl (mem_filter.1 hw).1⟩
      · exact ⟨rfl, rfl, fun _ => .inl⟩
    · exact ⟨sel, (mem_filter.1 hm).1, rfl, rfl, fun _ => .inl⟩

lemma Guarded.addEndpoint (hu : Unreferenced s id)
    (owner : UInt32) (type : EndpointType) (endpointIds : IdCounter) :
    Guarded ctx { s with endpoints := s.endpoints ++ [.create id owner type], endpointIds } := by
  have hnew : ∀ ep ∈ s.endpoints ++ [.create id owner type],
      ep ∈ s.endpoints ∨ ep = .create id owner type := by simp
  constructor
  · rw [map_append]
    refine h.endpointIds.append (nodup_singleton _) ?_
    rw [map_singleton, disjoint_singleton]
    rintro hm
    obtain ⟨ep, hm, hid⟩ := mem_map.1 hm
    exact hu.live ep hm hid
  · exact h.selectIds
  · intro ep hm sel hsel ho hw
    rcases hnew ep hm with hm | rfl
    · exact h.watchers ep hm sel hsel ho hw
    · cases hw
  · intro sel hsel ho ep hm hw
    rcases hnew ep hm with hm | rfl
    · exact h.watched sel hsel ho ep hm hw
    · exact absurd hw (hu.watched sel hsel)
  · intro tid b hb hc ep hm hw
    rcases hnew ep hm with hm | rfl
    · exact h.endpointWaits tid b hb hc ep hm hw
    exact absurd hw (not_or.2 (hu.waits tid b hb))
  · exact h.selectWaits

lemma Guarded.endpointCreate {grow : Bool} {owner : UInt32}
    {type : EndpointType} (hc : Careful ctx s (.endpointCreate grow owner type)) :
    Guarded ctx (s.endpointCreate grow owner type) := by
  unfold State.endpointCreate
  split
  · exact h
  split
  · exact h
  next id c halloc => exact h.addEndpoint (hc (id, c) halloc) owner type c

lemma Guarded.addSelect (hu : UnreferencedSelect s id) (owner : UInt32) (selectIds : IdCounter) :
    Guarded ctx { s with
        selects := s.selects ++ [⟨id, owner, endpointNone, [], 0⟩], selectIds } := by
  have hnew : ∀ sel ∈ s.selects ++ [(⟨id, owner, endpointNone, [], 0⟩ : SelectSet)],
      sel ∈ s.selects ∨ sel = ⟨id, owner, endpointNone, [], 0⟩ := by simp
  constructor
  · exact h.endpointIds
  · rw [map_append]
    refine h.selectIds.append (nodup_singleton _) ?_
    rw [map_singleton, disjoint_singleton]
    intro hm
    obtain ⟨sel, hm, hid⟩ := mem_map.1 hm
    exact hu.live sel hm hid
  · intro ep hm sel hsel ho hw
    rcases hnew sel hsel with hsel | rfl
    · exact h.watchers ep hm sel hsel ho hw
    · exact absurd hw (hu.watchers ep hm)
  · intro sel hsel ho ep hm hw
    rcases hnew sel hsel with hsel | rfl
    · exact h.watched sel hsel ho ep hm hw
    · cases hw
  · exact h.endpointWaits
  intro tid b hb hc sel hsel hw
  rcases hnew sel hsel with hsel | rfl
  · exact h.selectWaits tid b hb hc sel hsel hw
  have := hu.waits tid b hb
  tauto

lemma Guarded.selectCreate {grow : Bool} {owner : UInt32}
    (hc : Careful ctx s (.selectCreate grow owner)) : Guarded ctx (s.selectCreate grow owner) := by
  unfold State.selectCreate
  split
  · exact h
  split
  · exact h
  next id c halloc => exact h.addSelect (hc (id, c) halloc) owner c

lemma Guarded.addMember {select endpoint : UInt32}
    (hsel : s.select select = some sel) (hget : s.endpoint endpoint = some ep)
    (hown : sel.ownerContextId = ctx → ep.ownerContextId = ctx) :
    Guarded ctx ((s.putEndpoint { ep with watchers := sel.id :: ep.watchers }).putSelect
      { sel with epIds := sel.epIds ++ [endpoint] }) := by
  obtain ⟨hepm, hepid, hepf⟩ := endpoint_some hget
  obtain ⟨hselm, hselid, hself⟩ := select_some hsel
  refine h.mono ?_ ?_ (fun ep₁ hm => ?_) (fun sel₁ hsm => ?_) fun _ _ hb _ => hb
  · rw [← hepid] at hepf
    have hids := map_updateFirst_const (g := fun e : Endpoint => e.id)
      (b := { ep with watchers := sel.id :: ep.watchers }) hepf rfl
    exact Eq.mpr (congrArg (List.Sublist · _) hids) (.refl _)
  · rw [← hselid] at hself
    have hids := map_updateFirst_const (g := fun e : SelectSet => e.id)
      (b := { sel with epIds := sel.epIds ++ [endpoint] }) hself rfl
    exact Eq.mpr (congrArg (List.Sublist · _) hids) (.refl _)
  · rcases mem_of_mem_updateFirst hm with hm | ⟨_, _, _, rfl⟩
    · exact ⟨ep₁, hm, rfl, rfl, fun _ => .inl⟩
    refine ⟨ep, hepm, rfl, rfl, fun id hid => (mem_cons.1 hid).symm.imp_right ?_⟩
    rintro rfl sel₁ hsm hid ho
    obtain rfl := h.eq_of_select hsel hsm (hid.trans hselid)
    exact hown ho
  · rcases mem_of_mem_updateFirst hsm with hsm | ⟨_, _, _, rfl⟩
    · exact ⟨sel₁, hsm, rfl, rfl, fun _ => .inl⟩
    refine ⟨sel, hselm, rfl, rfl,
      fun id hid => (mem_append.1 hid).imp_right fun hid ep₁ hm he => ?_⟩
    obtain rfl := h.eq_of_endpoint hget hm (he.trans (mem_singleton.1 hid))
    exact hown

lemma Guarded.selectAdd {alloc : Bool} {select endpoint owner : UInt32}
    (hc : Careful ctx s (.selectAdd alloc select endpoint owner)) :
    Guarded ctx (s.selectAdd alloc select endpoint owner).2 := by
  unfold State.selectAdd
  split
  · exact h
  next sel hfind =>
    iterate 3
      split
      · exact h
    next ep hget =>
      split
      · exact h
      · have hsel := (selectFind_ok hfind).1
        exact h.addMember hsel hget (hc sel hsel ep hget)

end

section Calls

variable (hk : ctx ≠ contextKernel)
include hk

lemma Guarded.park_endpoint (h : Guarded ctx s) (tid : ℕ) {caller endpoint : UInt32} {w : Wait}
    {type : EndpointType} (hw : w = .recv endpoint ∨ w = .readable endpoint)
    (hget : s.endpoint endpoint = some ep) (hok : ep.acquireOwned type caller = .ok) :
    Guarded ctx (s.setBlocked tid (some ⟨caller, w⟩)) := by
  refine h.park tid (fun hc ep' hm hw' => ?_) fun _ sel _ hw' => ?_
  · have hid : ep'.id = endpoint := by
      rcases hw with rfl | rfl <;> rcases hw' with hw' | hw' <;> cases hw' <;> rfl
    obtain rfl := h.eq_of_endpoint hget hm hid
    by_contra ho
    exact acquireOwned_ne_ok hk ho type (hc ▸ hok)
  · rcases hw with rfl | rfl <;> rcases hw' with hw' | hw' | hw' <;> cases hw'

lemma Guarded.recvBlockingFor (h : Guarded ctx s) (tid : ℕ) (receiver endpoint : UInt32) :
    Guarded ctx (s.recvBlockingFor tid receiver endpoint).2 := by
  unfold State.recvBlockingFor
  split
  · exact h
  next ep hget =>
    split
    next hok =>
      split
      · exact h.park_endpoint hk tid (.inl rfl) hget hok
      · exact h.keep (locked_take hget).keeps
    · exact h

lemma Guarded.endpointWaitFor (h : Guarded ctx s) (tid : ℕ) (receiver endpoint : UInt32) :
    Guarded ctx (s.endpointWaitFor tid receiver endpoint).2 := by
  unfold State.endpointWaitFor
  split
  · exact h
  next ep hget =>
    split
    next hok =>
      split
      · exact h
      · exact h.park_endpoint hk tid (.inr rfl) hget hok
    · exact h

lemma selectFind_owner {id owner : UInt32} (h : s.selectFind id owner = .ok sel)
    (hc : owner = ctx) : sel.ownerContextId = ctx := by
  rcases (selectFind_ok h).2 with ho | ho
  · exact absurd (hc.symm.trans ho) hk
  · exact ho.trans hc

/-- The scan both halves of `ipc_select_wait` make. -/
def State.selectScan (s : State) (tid : ℕ) (id owner : UInt32) (fail : Status → Reply) (w : Wait) :
    Option Reply × State :=
  match s.selectFind id owner with
  | .error status => (some (fail status), s)
  | .ok sel =>
    match s.selectScanReady sel with
    | some (ep, i) => (some (.ready ep), s.selectScanned sel i)
    | none => (none, (s.selectIdle sel).setBlocked tid (some ⟨owner, w⟩))

lemma Guarded.selectScan (h : Guarded ctx s) (tid : ℕ) (owner : UInt32)
    (fail : Status → Reply) {w : Wait}
    (hw : w = .selectLatch id ∨ w = .selectParked id ∨ w = .selectRelatch id) :
    Guarded ctx (s.selectScan tid id owner fail w).2 := by
  unfold State.selectScan
  split
  · exact h
  next sel hfind =>
    have hget := (selectFind_ok hfind).1
    split
    · exact h.keep (keeps_selectScanned hget _)
    have hpark := h.park_select tid hw hget (selectFind_owner hk hfind)
    exact hpark.keep (keeps_selectIdle hget)

lemma Guarded.resume (h : Guarded ctx s) {tid : ℕ} {b : Blocked} (hb : s.blocked tid = some b) :
    Guarded ctx (s.resume tid b).2 := by
  have hun := h.unpark tid
  obtain ⟨caller, w⟩ := b
  cases w with
  | recv endpoint => exact hun.keep (locked_recvResume endpoint).keeps
  | readable endpoint => exact hun
  | selectLatch id =>
    refine hun.selectLatch tid fun hc sel hget => ?_
    have hsel := select_some hget
    exact h.selectWaits tid _ hb hc sel hsel.1 (.inl (by rw [hsel.2.1]))
  | selectParked id =>
    exact hun.selectScan hk tid caller (fun _ => .status .empty) (.inr (.inr rfl))
  | selectRelatch id => exact hun.keep (keeps_selectRelatch id)

lemma guarded_exec (h : Guarded ctx s) {e : Event} (hc : Careful ctx s e) :
    Guarded ctx (exec s e).2 := by
  cases e with
  | endpointCreate grow owner type => exact h.endpointCreate hc
  | endpointsReleaseOwner owner => exact h.endpointsReleaseOwner owner
  | hangupDeliver record => exact h.keep (keeps_hangupDeliver record)
  | contextWatch alloc contextId destination => exact h.keep (keeps_contextWatch _ _ _)
  | sendFrom sender endpoint msg => exact h.keep (locked_sendFrom _ _ _).keeps
  | noteContact alloc source destination => exact h.keep (keeps_noteContact _ _ _)
  | notifyFrom sender endpoint => exact h.keep (locked_notifyFrom _ _).keeps
  | waitFor receiver endpoint => exact h.keep (locked_waitFor _ _).keeps
  | recvFor receiver endpoint => exact h.keep (locked_recvFor _ _).keeps
  | recvBlockingFor tid receiver endpoint => exact h.recvBlockingFor hk tid receiver endpoint
  | endpointWaitFor tid receiver endpoint => exact h.endpointWaitFor hk tid receiver endpoint
  | selectCreate grow owner => exact h.selectCreate hc
  | selectAdd alloc select endpoint owner => exact h.selectAdd hc
  | selectWait tid select owner => exact h.selectScan hk tid owner .status (.inl rfl)
  | selectDestroy select owner => exact h.selectDestroy select owner
  | resume tid =>
    simp only [exec]
    split
    · exact h
    next b hb => exact h.resume hk hb

end Calls

end Ipc
