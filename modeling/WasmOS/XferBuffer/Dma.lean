import Mathlib.Algebra.Order.Ring.Int
import WasmOS.XferBuffer.Slots

/-! # DMA windows

A mapping handed out for DMA stands on a right and on the object's frames. Most calls that take
either away do not look at the marks of the slots they cascade to. `hostcall_dma_map_borrow` knows
the physical address only of the finished mapping, so two refusals take it down again.
-/

namespace XferBuffer

section

open Forest List ObjectSlot

/-- The registry with the mappings that are up. `exposed` collects those whose frames a call has
freed. -/
structure Machine where
  registry : Registry
  windows : List DmaMapping
  exposed : List DmaMapping

def Machine.boot : Machine := ⟨.empty, [], []⟩

variable (r : Registry)

def Call.mapped : Call → Option DmaMapping
  | .dmaMapOwned owner offset length dir =>
    (r.dmaMapOwned owner offset length dir).toOption.map Prod.fst
  | .dmaMapBorrow b offset length dir =>
    (r.dmaMapBorrow b offset length dir).toOption.map Prod.fst
  | _ => none

def Call.unmapped : Call → Option DmaMapping
  | .dmaUnmap mapping => (r.dmaUnmap mapping).toOption.map fun _ => mapping
  | _ => none

/-- `object_free_backing`: the frames of a transfer object are its own. -/
def ObjectSlot.ownsFrames (o : ObjectSlot) : Bool := o.kind == .transfer && o.physBase != 0

def Call.freed : Call → List ObjectSlot
  | .releaseOwned owner =>
    match r.releaseOwned owner with
    | .error _ => []
    | .ok _ => (r.objectFind owner.buffer).toList.filter (·.ownsFrames)
  | .dropContext contextId =>
    if contextId = 0 then []
    else r.objects.filter fun o => o.ownedBy contextId && o.ownsFrames
  | _ => []

namespace Machine

def kept (m : Machine) (c : Call) : List DmaMapping :=
  match c.unmapped m.registry with
  | none => m.windows
  | some mapping => m.windows.erase mapping

def after (m : Machine) (c : Call) (r' : Registry) : Machine where
  registry := r'
  windows := m.kept c ++ (c.mapped m.registry).toList
  exposed := m.exposed ++ (m.kept c).filter fun w =>
    (c.freed m.registry).any (·.bufferId == w.buffer.bufferId)

def exec (m : Machine) (e : Event) : Option Machine :=
  match e.call m.registry with
  | none => some m
  | some c => (c.exec m.registry).map (m.after c)

def run : Machine → List Event → Option Machine
  | m, [] => some m
  | m, e :: es => (m.exec e).bind (run · es)

end Machine

/-- The object with its frames, and its owner as it was or a borrow with enough rights. -/
structure Upheld (r : Registry) (w : DmaMapping) : Prop where
  memory : ∃ o ∈ r.objects, o.active = true ∧ o.buffer = w.buffer ∧
    w.deviceAddr = o.physBase + w.offset.toUInt64 ∧
    (w.attachedViaBorrow = false → o.ownerContextId = w.ownerContextId)
  borrow : w.attachedViaBorrow = true → ∃ b ∈ r.borrows, b.active = true ∧
    b.borrowId = w.borrowId ∧ b.bufferId = w.buffer.bufferId ∧
    dmaDirectionAllowed b.flags w.directionFlags = true

structure WindowsUpheld (m : Machine) : Prop where
  frames : m.exposed = []
  upheld : ∀ w ∈ m.windows, Upheld m.registry w

def SameSlot (w w' : DmaMapping) : Prop := w.attachedViaBorrow = w'.attachedViaBorrow ∧
    if w.attachedViaBorrow then w.borrowId = w'.borrowId
    else w.buffer.bufferId = w'.buffer.bufferId

instance (w w' : DmaMapping) : Decidable (SameSlot w w') := by
  unfold SameSlot
  infer_instance

def Registry.lineage (r : Registry) (borrowId : UInt32) : List BorrowSlot :=
  Forest.lineage borrowLinks r.borrows (r.borrows.length + 1) borrowId

/-- What the calls do not check: that nothing they take away has a window on it, that an unmapped
mapping is up, and that id counters have not come round. -/
def Call.Gentle (m : Machine) : Call → Prop
  | .acquire .. => FreshBufferId m.registry
  | .borrow .. => FreshBorrowId m.registry
  | .reborrow .. => FreshBorrowId m.registry
  | .releaseOwned owner =>
    ∀ o ∈ m.registry.objectFind owner.buffer, o.ownerContextId = owner.ownerContextId →
      ∀ w ∈ m.windows, w.attachedViaBorrow = true → w.buffer.bufferId ≠ o.bufferId
  | .transferOwnership owner _ =>
    ∀ o ∈ m.registry.objectFind owner.buffer, o.ownerContextId = owner.ownerContextId →
      ∀ w ∈ m.windows, w.attachedViaBorrow = false → w.buffer.bufferId ≠ o.bufferId
  | .unborrow lent =>
    ∀ w ∈ m.windows, w.attachedViaBorrow = true → w.borrowId ≠ lent.borrowId →
      ∀ b ∈ m.registry.lineage w.borrowId, b.borrowId ≠ lent.borrowId
  | .dmaUnmap mapping =>
    mapping ∈ m.windows ∨ ∀ w ∈ m.windows, ¬ SameSlot mapping w
  | .dropContext contextId =>
    ∀ w ∈ m.windows,
      (∀ o ∈ m.registry.objects, o.ownedBy contextId = true → o.bufferId ≠ w.buffer.bufferId) ∧
      (w.attachedViaBorrow = true → ∀ b ∈ m.registry.lineage w.borrowId,
        b.lenderContextId ≠ contextId ∧ b.borrowerContextId ≠ contextId)
  | _ => True

instance (m : Machine) (c : Call) : Decidable (c.Gentle m) := by
  cases c <;> unfold Call.Gentle <;> infer_instance

def GentleRun : Machine → List Event → Prop
  | _, [] => True
  | m, e :: es => (∀ c ∈ e.call m.registry, c.Gentle m) ∧ ∀ m' ∈ m.exec e, GentleRun m' es

instance decidableGentleRun : ∀ (m : Machine) (es : List Event), Decidable (GentleRun m es)
  | _, [] => isTrue trivial
  | m, e :: es =>
    have : ∀ m', Decidable (GentleRun m' es) := fun m' => decidableGentleRun m' es
    inferInstanceAs (Decidable (_ ∧ ∀ m' ∈ m.exec e, GentleRun m' es))

structure Held (r : Registry) (w : DmaMapping) : Prop where
  memory : ∃ o ∈ r.objects, o.active = true ∧ o.buffer = w.buffer ∧
    w.deviceAddr = o.physBase + w.offset.toUInt64 ∧
    (w.attachedViaBorrow = false → o.ownerContextId = w.ownerContextId ∧ o.dma.active = true)
  borrow : w.attachedViaBorrow = true → ∃ b ∈ r.borrows, b.active = true ∧
    b.borrowId = w.borrowId ∧ b.bufferId = w.buffer.bufferId ∧
    dmaDirectionAllowed b.flags w.directionFlags = true ∧ b.dma.active = true

variable {r r' : Registry} {w : DmaMapping} {u : Unit}

lemma Held.upheld (h : Held r w) : Upheld r w where
  memory := by
    obtain ⟨o, ho, ha, hb, haddr, hown⟩ := h.memory
    exact ⟨o, ho, ha, hb, haddr, fun hvia => (hown hvia).1⟩
  borrow hvia := by
    obtain ⟨b, hb, ha, hid, hbuf, hdir, -⟩ := h.borrow hvia
    exact ⟨b, hb, ha, hid, hbuf, hdir⟩

def ObjectKept (r' : Registry) (w : DmaMapping) (o : ObjectSlot) : Prop :=
  ∃ o' ∈ r'.objects, o'.active = true ∧ o'.buffer = o.buffer ∧ o'.physBase = o.physBase ∧
    (w.attachedViaBorrow = false → o.dma.active = true →
      o'.ownerContextId = o.ownerContextId ∧ o'.dma.active = true)

def BorrowKept (r' : Registry) (b : BorrowSlot) : Prop :=
  ∃ b' ∈ r'.borrows, b'.active = true ∧ b'.borrowId = b.borrowId ∧
    b'.bufferId = b.bufferId ∧ b'.flags = b.flags ∧ b'.dma.active = true

lemma ObjectKept.refl {o : ObjectSlot} (ho : o ∈ r'.objects) (ha : o.active = true) :
    ObjectKept r' w o := ⟨o, ho, ha, rfl, rfl, fun _ hdma => ⟨rfl, hdma⟩⟩

lemma BorrowKept.refl {b : BorrowSlot} (hb : b ∈ r'.borrows) (ha : b.active = true)
    (hdma : b.dma.active = true) : BorrowKept r' b := ⟨b, hb, ha, rfl, rfl, rfl, hdma⟩

lemma Held.keep (h : Held r w)
    (hobj : ∀ o ∈ r.objects, o.active = true → o.bufferId = w.buffer.bufferId → ObjectKept r' w o)
    (hbor : w.attachedViaBorrow = true → ∀ b ∈ r.borrows, b.active = true →
      b.borrowId = w.borrowId → b.bufferId = w.buffer.bufferId → b.dma.active = true →
      BorrowKept r' b) : Held r' w where
  memory := by
    obtain ⟨o, ho, ha, hb, haddr, hown⟩ := h.memory
    obtain ⟨o', ho', ha', hb', hp', hown'⟩ := hobj o ho ha (congrArg Buffer.bufferId hb)
    refine ⟨o', ho', ha', hb'.trans hb, by rw [hp']; exact haddr, fun hvia => ?_⟩
    obtain ⟨h₁, h₂⟩ := hown hvia
    exact ⟨(hown' hvia h₂).1.trans h₁, (hown' hvia h₂).2⟩
  borrow hvia := by
    obtain ⟨b, hb, ha, hid, hbuf, hdir, hdma⟩ := h.borrow hvia
    obtain ⟨b', hb', ha', hid', hbuf', hf', hdma'⟩ := hbor hvia b hb ha hid hbuf hdma
    exact ⟨b', hb', ha', hid'.trans hid, hbuf'.trans hbuf, by rw [hf']; exact hdir, hdma'⟩

section

variable (h : Held r w)
include h

variable {owner : Owner}

lemma Held.acquire {host : Host} {kind : Kind} {ctx size : UInt32}
    (hok : r.acquire host kind ctx size = .ok (owner, r')) : Held r' w := by
  obtain ⟨-, new, objects, -, -, -, hplace, rfl⟩ := acquire_ok hok
  exact h.keep (fun o ho ha _ => .refl (mem_place_of_live hplace ho ha) ha)
    fun _ b hb ha _ _ hdma => .refl hb ha hdma

lemma Held.attachBorrow {grow : Bool} {o : ObjectSlot}
    {parent lender borrower flags : UInt32} {out : Borrow}
    (hok : r.attachBorrow grow o parent lender borrower flags = .ok (out, r')) : Held r' w := by
  obtain ⟨borrows, hplace, rfl⟩ := attachBorrow_ok hok
  exact h.keep (fun o ho ha _ => .refl ho ha)
    fun _ b hb ha _ _ hdma => .refl (mem_place_of_live hplace hb ha) ha hdma

lemma Held.releaseOwned (hs : Sane r)
    (hgentle : ∀ o ∈ r.objectFind owner.buffer, o.ownerContextId = owner.ownerContextId →
      w.attachedViaBorrow = true → w.buffer.bufferId ≠ o.bufferId)
    (hok : r.releaseOwned owner = .ok (u, r')) :
    Held r' w ∧ ∀ o ∈ r.objectFind owner.buffer, o.bufferId ≠ w.buffer.bufferId := by
  obtain ⟨o, hfind, howner, hdma, rfl⟩ := releaseOwned_ok hok
  obtain ⟨ho, hactive, hid, -⟩ := objectFind_some hfind
  -- an owner's window is marked on the object, so the release would have been refused
  have hne : o.bufferId ≠ w.buffer.bufferId := by
    intro heq
    cases hvia : w.attachedViaBorrow with
    | true => exact hgentle o hfind howner hvia heq.symm
    | false =>
      obtain ⟨q, hq, ha, hb, -, hown⟩ := h.memory
      obtain rfl := hs.object_eq hq ho ha hactive ((congrArg Buffer.bufferId hb).trans heq.symm)
      cases (hown hvia).2.symm.trans hdma
  refine ⟨h.keep (fun q hq ha hqid => ?_) fun _ b hb ha hbid hbuf hbdma => ?_, ?_⟩
  · rcases mem_updateFirst hq with hq' | ⟨hq', -⟩
    · exact .refl hq' ha
    · obtain ⟨-, hqid', -⟩ := isBuffer_iff.1 hq'
      exact absurd (hid.trans (hqid'.symm.trans hqid)) hne
  · refine .refl ((mem_retireAll_iff (L := borrowLinks) ha).2 ⟨hb, ?_⟩) ha hbdma
    rw [hbuf]
    simpa using hne.symm
  · intro q hq
    cases hfind.symm.trans hq
    exact hne

lemma Held.transferOwnership {new : UInt32}
    (hgentle : ∀ o ∈ r.objectFind owner.buffer, o.ownerContextId = owner.ownerContextId →
      w.attachedViaBorrow = false → w.buffer.bufferId ≠ o.bufferId)
    (hok : r.transferOwnership owner new = .ok (u, r')) : Held r' w := by
  obtain ⟨o, hfind, howner, -, -, rfl⟩ := transferOwnership_ok hok
  obtain ⟨-, -, hid, -⟩ := objectFind_some hfind
  refine h.keep (fun q hq ha hqid => ?_) fun _ b hb ha _ _ hdma => .refl hb ha hdma
  rcases mem_updateFirst hq with hq' | ⟨hq', hmem⟩
  · exact .refl hq' ha
  refine ⟨_, hmem, ha, rfl, rfl, fun hvia _ => ?_⟩
  obtain ⟨-, hqid', -⟩ := isBuffer_iff.1 hq'
  exact absurd (hqid.symm.trans (hqid'.trans hid.symm)) (hgentle o hfind howner hvia)

lemma Held.unborrow (hs : Sane r) {lent : Borrow}
    (hgentle : w.attachedViaBorrow = true → w.borrowId ≠ lent.borrowId →
      ∀ b ∈ r.lineage w.borrowId, b.borrowId ≠ lent.borrowId)
    (hok : r.unborrow lent = some (.ok (u, r'))) : Held r' w := by
  obtain ⟨c, borrows, hfind, hidle, hrevoke, rfl⟩ := unborrow_ok hok
  obtain ⟨hc, hlc, hcid, -⟩ := borrowFind_some hfind
  refine h.keep (fun o ho ha _ => .refl ho ha) fun hvia b hb ha hbid _ hdma => ?_
  refine .refl (revokeTree_keeps _ _ _ _ hrevoke b hb ha fun hreach => ?_) ha hdma
  -- the borrow itself has no window, so the window's borrow lies properly below it
  have hne : w.borrowId ≠ lent.borrowId := by
    intro heq
    obtain rfl := hs.linked.eq_of_key hb hc ha hlc (hbid.trans (heq.trans hcid.symm))
    cases hdma.symm.trans hidle
  refine hgentle hvia hne c ?_ hcid
  rw [← hbid]
  exact mem_lineage hs.linked hs.ranked hc hlc hreach

lemma Held.dropContext (hs : Sane r) {ctx : UInt32}
    (hobj : ∀ o ∈ r.objects, o.ownedBy ctx = true → o.bufferId ≠ w.buffer.bufferId)
    (hbor : w.attachedViaBorrow = true → ∀ b ∈ r.lineage w.borrowId,
      b.lenderContextId ≠ ctx ∧ b.borrowerContextId ≠ ctx)
    (hok : r.dropContext ctx = some r') : Held r' w := by
  refine h.keep (fun o ho ha hid => ?_) fun hvia b hb ha hbid hbuf hdma => ?_
  · by_cases hctx : ctx = 0
    · rw [Registry.dropContext, if_pos hctx] at hok
      cases hok
      exact .refl ho ha
    obtain ⟨borrows, hdrop, -⟩ := dropContext_spec hs hctx
    cases hdrop.symm.trans hok
    exact .refl (mem_map.2 ⟨o, ho, if_neg fun hown => hobj o ho hown hid⟩) ha
  refine .refl (dropContext_keeps hs hb ha (fun o ho hown => ?_) (fun a ha' hla hreach => ?_) hok)
    ha hdma
  · rw [hbuf]
    exact hobj o ho hown
  refine hbor hvia a ?_
  rw [← hbid]
  exact mem_lineage hs.linked hs.ranked ha' hla hreach

lemma Held.setObjectDma {p : ObjectSlot → Bool} {f : ObjectSlot → ObjectSlot}
    (hcore : ∀ o, (f o).core = o.core)
    (hf : ∀ o ∈ r.objects, p o = true → o.bufferId = w.buffer.bufferId →
      w.attachedViaBorrow = false → o.dma.active = true → (f o).dma.active = true) :
    Held { r with objects := updateFirst p f r.objects } w := by
  refine h.keep (fun o ho ha hid => ?_) fun _ b hb ha _ _ hdma => .refl hb ha hdma
  rcases mem_updateFirst ho with ho' | ⟨hp, hmem⟩
  · exact .refl ho' ha
  have hsame := hcore o
  simp only [core, mk.injEq] at hsame
  obtain ⟨h₁, h₂, h₃, h₄, h₅, h₆, -⟩ := hsame
  refine ⟨f o, hmem, h₁.trans ha, ?_, h₆, fun hvia hdma => ⟨h₅, hf o ho hp hid hvia hdma⟩⟩
  rw [buffer, buffer, h₂, h₃, h₄]

lemma Held.setBorrowDma {p : BorrowSlot → Bool} {f : BorrowSlot → BorrowSlot}
    (hcore : ∀ b, (f b).core = b.core)
    (hf : ∀ b ∈ r.borrows, p b = true → b.borrowId = w.borrowId →
      w.attachedViaBorrow = true → b.dma.active = true → (f b).dma.active = true) :
    Held { r with borrows := updateFirst p f r.borrows } w := by
  refine h.keep (fun o ho ha _ => .refl ho ha) fun hvia b hb ha hbid _ hdma => ?_
  rcases mem_updateFirst hb with hb' | ⟨hp, hmem⟩
  · exact .refl hb' ha hdma
  have hsame := hcore b
  simp only [BorrowSlot.core, BorrowSlot.mk.injEq] at hsame
  obtain ⟨h₁, h₂, -, h₄, -, -, -, h₈, -⟩ := hsame
  exact ⟨f b, hmem, h₁.trans ha, h₂, h₄, h₈, hf b hb hp hbid hvia hdma⟩

lemma Held.dmaUnmap {mapping : DmaMapping} (hne : ¬ SameSlot mapping w)
    (hok : r.dmaUnmap mapping = .ok (u, r')) : Held r' w := by
  obtain rfl | ⟨hvia, rfl⟩ | ⟨hvia, rfl⟩ := dmaUnmap_ok hok
  · exact h
  · refine h.setBorrowDma (fun _ => rfl) fun b _ hp hid hvia' _ => absurd ?_ hne
    rw [SameSlot, hvia, hvia']
    exact ⟨rfl, (BorrowSlot.hasId_iff.1 hp).2.symm.trans hid⟩
  refine h.setObjectDma (fun _ => rfl) fun o _ hp hid hvia' _ => absurd ?_ hne
  rw [SameSlot, hvia, hvia']
  exact ⟨rfl, (hasId_iff.1 hp).2.symm.trans hid⟩

end

variable {offset length dir : UInt32} {m : DmaMapping}

lemma dmaMapOwned_held (hs : Sane r) {owner : Owner}
    (hok : r.dmaMapOwned owner offset length dir = .ok (m, r')) :
    Held r' m ∧ ∀ w, Held r w → Held r' w ∧ ¬ SameSlot w m := by
  obtain ⟨o, hfind, hidle, rfl, rfl⟩ := dmaMapOwned_ok hok
  obtain ⟨ho, ha, -⟩ := objectFind_some hfind
  refine ⟨⟨⟨_, mem_updateFirst_of_find (objectFind_eq_find hfind), ha, rfl, rfl,
    fun _ => ⟨rfl, rfl⟩⟩, fun hvia => by cases hvia⟩, fun w hw => ⟨?_, ?_⟩⟩
  · exact hw.setObjectDma (fun _ => rfl) fun _ _ _ _ _ _ => rfl
  rintro ⟨hvia, hslot⟩
  obtain ⟨q, hq, hqa, hqb, -, hown⟩ := hw.memory
  simp only [hvia, Bool.false_eq_true, if_false] at hslot
  obtain rfl := hs.object_eq hq ho hqa ha ((congrArg Buffer.bufferId hqb).trans hslot)
  cases (hown hvia).2.symm.trans hidle

lemma dmaMapBorrow_held (hs : Sane r) {lent : Borrow}
    (hok : r.dmaMapBorrow lent offset length dir = .ok (m, r')) :
    Held r' m ∧ ∀ w, Held r w → Held r' w ∧ ¬ SameSlot w m := by
  obtain ⟨b, o, hfind, hobj, hidle, -, hdir, rfl, rfl⟩ := dmaMapBorrow_ok hok
  obtain ⟨hb, ha, hid, -⟩ := borrowFind_some hfind
  obtain ⟨ho, hoa, hoid⟩ := objectFindById_some hobj
  refine ⟨⟨⟨o, ho, hoa, rfl, rfl, fun hvia => by cases hvia⟩, fun _ => ?_⟩, fun w hw => ⟨?_, ?_⟩⟩
  · exact ⟨_, mem_updateFirst_of_find (borrowFind_eq_find hfind), ha, rfl, hoid.symm, hdir, rfl⟩
  · exact hw.setBorrowDma (fun _ => rfl) fun _ _ _ _ _ _ => rfl
  rintro ⟨hvia, hslot⟩
  obtain ⟨c, hc, hca, hcid, -, -, hdma⟩ := hw.borrow hvia
  simp only [hvia, if_true] at hslot
  obtain rfl := hs.linked.eq_of_key hc hb hca ha (hcid.trans hslot)
  cases hdma.symm.trans hidle

namespace Machine

variable {m : Machine} {c : Call}

structure Sound (m : Machine) : Prop where
  sane : Sane m.registry
  frames : m.exposed = []
  held : ∀ w ∈ m.windows, Held m.registry w
  apart : m.windows.Pairwise fun w w' => ¬ SameSlot w w'

lemma sound_boot : Sound .boot := ⟨sane_empty, rfl, forall_mem_nil _, List.Pairwise.nil⟩

lemma kept_sublist (m : Machine) (c : Call) : (m.kept c).Sublist m.windows := by
  unfold kept
  split
  · exact List.Sublist.refl _
  · exact erase_sublist

namespace Sound

variable (h : m.Sound)
include h

lemma after (hs : Sane r') (hheld : ∀ w ∈ m.kept c, Held r' w)
    (hfreed : ∀ w ∈ m.kept c, ∀ o ∈ c.freed m.registry, o.bufferId ≠ w.buffer.bufferId)
    (hnew : ∀ w ∈ c.mapped m.registry, Held r' w ∧ ∀ w' ∈ m.kept c, ¬ SameSlot w' w) :
    (m.after c r').Sound where
  sane := hs
  frames := by
    have hnone : (m.kept c).filter (fun w =>
        (c.freed m.registry).any (·.bufferId == w.buffer.bufferId)) = [] := by
      rw [filter_eq_nil_iff]
      intro w hw hany
      obtain ⟨o, ho, hid⟩ := any_eq_true.1 hany
      exact hfreed w hw o ho (by simpa using hid)
    rw [Machine.after, h.frames, hnone, append_nil]
  held w hw := by
    rcases mem_append.1 hw with hw | hw
    · exact hheld w hw
    · exact (hnew w (Option.mem_toList.1 hw)).1
  apart := by
    refine pairwise_append.2 ⟨h.apart.sublist (m.kept_sublist c), ?_, fun w hw w' hw' => ?_⟩
    · cases c.mapped m.registry with
      | none => exact List.Pairwise.nil
      | some w => exact pairwise_singleton _ _
    · exact (hnew w' (Option.mem_toList.1 hw')).2 w hw

lemma after_quiet (hm : c.mapped m.registry = none)
    (hu : c.unmapped m.registry = none) (hs : Sane r') (hheld : ∀ w ∈ m.windows, Held r' w)
    (hfreed : ∀ w ∈ m.windows, ∀ o ∈ c.freed m.registry, o.bufferId ≠ w.buffer.bufferId) :
    (m.after c r').Sound := by
  have hkept : m.kept c = m.windows := by rw [kept, hu]
  refine h.after hs (hkept ▸ hheld) (hkept ▸ hfreed) fun w hw => ?_
  cases hm.symm.trans hw

lemma after_error (hm : c.mapped m.registry = none)
    (hu : c.unmapped m.registry = none) (hf : c.freed m.registry = []) :
    (m.after c m.registry).Sound :=
  h.after_quiet hm hu h.sane h.held fun _ _ o ho => by rw [hf] at ho; cases ho

lemma after_result {α : Type} {out : Except Err (α × Registry)}
    (hm : c.mapped m.registry = none) (hu : c.unmapped m.registry = none)
    (hf : c.freed m.registry = [])
    (hok : ∀ a r', out = .ok (a, r') → Sane r' ∧ ∀ w ∈ m.windows, Held r' w) :
    (m.after c (m.registry.after out)).Sound := by
  refine after_of_ok (P := fun r' => (m.after c r').Sound) (h.after_error hm hu hf) ?_
  intro a r' hout
  obtain ⟨hs, hheld⟩ := hok a r' hout
  exact h.after_quiet hm hu hs hheld fun _ _ o ho => by rw [hf] at ho; cases ho

lemma after_map {out : Except Err (DmaMapping × Registry)}
    (hm : c.mapped m.registry = out.toOption.map Prod.fst) (hu : c.unmapped m.registry = none)
    (hf : c.freed m.registry = []) (hok : ∀ w r', out = .ok (w, r') →
      Sane r' ∧ Held r' w ∧ ∀ w', Held m.registry w' → Held r' w' ∧ ¬ SameSlot w' w) :
    (m.after c (m.registry.after out)).Sound := by
  cases out with
  | error e => exact h.after_error hm hu hf
  | ok p =>
    obtain ⟨hs, hnew, hold⟩ := hok p.1 p.2 rfl
    have hkept : m.kept c = m.windows := by rw [kept, hu]
    refine h.after hs (fun w hw => (hold w (h.held w (hkept ▸ hw))).1)
      (fun _ _ o ho => by rw [hf] at ho; cases ho) fun w hw => ?_
    cases hm.symm.trans hw
    exact ⟨hnew, fun w hw => (hold w (h.held w (hkept ▸ hw))).2⟩

lemma unmap {mapping : DmaMapping}
    (hg : mapping ∈ m.windows ∨ ∀ w ∈ m.windows, ¬ SameSlot mapping w) :
    ∀ w ∈ m.windows.erase mapping, ¬ SameSlot mapping w := by
  have hsymm : ∀ w w', ¬ SameSlot w w' → ¬ SameSlot w' w := by
    rintro w w' hne ⟨hvia, hslot⟩
    rw [hvia] at hslot
    refine hne ⟨hvia.symm, ?_⟩
    split at hslot
    next hv => rw [if_pos hv]; exact hslot.symm
    next hv => rw [if_neg hv]; exact hslot.symm
  rcases hg with hmem | hnone
  · have := (perm_cons_erase hmem).pairwise_iff (hsymm _ _) |>.1 h.apart
    exact (pairwise_cons.1 this).1
  · exact fun w hw => hnone w (mem_of_mem_erase hw)

end Sound

lemma exec_call_sound (h : m.Sound) (hg : c.Gentle m) :
    ∃ r', c.exec m.registry = some r' ∧ (m.after c r').Sound := by
  cases c with
  | acquire host kind ctx size =>
    refine ⟨_, rfl, h.after_result rfl rfl rfl fun _ _ hok => ?_⟩
    exact ⟨acquire_sane h.sane hg hok, fun w hw => (h.held w hw).acquire hok⟩
  | releaseOwned owner =>
    refine ⟨_, rfl, ?_⟩
    cases hok : m.registry.releaseOwned owner with
    | error e => exact h.after_error rfl rfl (by simp only [Call.freed, hok])
    | ok p =>
      have hall := fun w hw => (h.held w hw).releaseOwned h.sane
        (fun o ho howner hvia => hg o ho howner w hw hvia) hok
      refine h.after_quiet rfl rfl (releaseOwned_sane h.sane hok) (fun w hw => (hall w hw).1)
        fun w hw o ho => ?_
      simp only [Call.freed, hok] at ho
      exact (hall w hw).2 o (Option.mem_toList.1 (mem_filter.1 ho).1)
  | transferOwnership owner new =>
    refine ⟨_, rfl, h.after_result rfl rfl rfl fun _ _ hok => ?_⟩
    exact ⟨transferOwnership_sane h.sane hok, fun w hw => (h.held w hw).transferOwnership
      (fun o ho howner hvia => hg o ho howner w hw hvia) hok⟩
  | borrow grow owner borrower flags =>
    refine ⟨_, rfl, h.after_result rfl rfl rfl fun _ _ hok => ?_⟩
    obtain ⟨o, -, -, -, -, hattach⟩ := borrow_ok hok
    exact ⟨borrow_sane h.sane hg hok, fun w hw => (h.held w hw).attachBorrow hattach⟩
  | reborrow grow up borrower flags =>
    refine ⟨_, rfl, h.after_result rfl rfl rfl fun _ _ hok => ?_⟩
    obtain ⟨_, o, -, -, -, -, -, hattach⟩ := reborrow_ok hok
    exact ⟨reborrow_sane h.sane hg hok, fun w hw => (h.held w hw).attachBorrow hattach⟩
  | unborrow lent =>
    obtain ⟨out, hout, hsane⟩ := unborrow_sane h.sane lent
    refine ⟨m.registry.after out, by rw [Call.exec, hout, Option.map_some],
      h.after_result rfl rfl rfl ?_⟩
    rintro a r' rfl
    exact ⟨hsane, fun w hw => (h.held w hw).unborrow h.sane (hg w hw) hout⟩
  | dmaMapOwned owner offset length dir =>
    refine ⟨_, rfl, h.after_map rfl rfl rfl fun _ _ hok => ?_⟩
    exact ⟨h.sane.of_core_eq (dmaMapOwned_core hok), dmaMapOwned_held h.sane hok⟩
  | dmaMapBorrow lent offset length dir =>
    refine ⟨_, rfl, h.after_map rfl rfl rfl fun _ _ hok => ?_⟩
    exact ⟨h.sane.of_core_eq (dmaMapBorrow_core hok), dmaMapBorrow_held h.sane hok⟩
  | dmaUnmap mapping =>
    refine ⟨_, rfl, ?_⟩
    cases hok : m.registry.dmaUnmap mapping with
    | error e => exact h.after_error rfl (by rw [Call.unmapped, hok]; rfl) rfl
    | ok p =>
      have hkept : m.kept (.dmaUnmap mapping) = m.windows.erase mapping := by
        rw [kept, Call.unmapped, hok]
        rfl
      refine h.after (h.sane.of_core_eq (dmaUnmap_core hok)) (fun w hw => ?_)
        (fun _ _ o ho => by cases ho) fun _ hw => by cases hw
      rw [hkept] at hw
      exact (h.held w (mem_of_mem_erase hw)).dmaUnmap (h.unmap hg w hw) hok
  | dropContext ctx =>
    obtain ⟨r', hok, hsane⟩ := dropContext_sane h.sane ctx
    refine ⟨r', hok, h.after_quiet rfl rfl hsane (fun w hw => ?_) fun w hw o ho => ?_⟩
    · exact (h.held w hw).dropContext h.sane (hg w hw).1 (hg w hw).2 hok
    simp only [Call.freed] at ho
    split at ho
    · cases ho
    obtain ⟨hmem, hown⟩ := mem_filter.1 ho
    simp only [Bool.and_eq_true] at hown
    exact (hg w hw).1 o hmem hown.1

lemma exec_sound (h : m.Sound) (e : Event) (hg : ∀ c ∈ e.call m.registry, c.Gentle m) :
    ∃ m', m.exec e = some m' ∧ m'.Sound := by
  unfold exec
  cases hc : e.call m.registry with
  | none => exact ⟨m, rfl, h⟩
  | some c =>
    obtain ⟨r', hr', hsound⟩ := exec_call_sound h (hg c hc)
    exact ⟨m.after c r', by simp [hr'], hsound⟩

lemma run_sound (es : List Event) : ∀ {m : Machine}, m.Sound → GentleRun m es →
    ∃ m', m.run es = some m' ∧ m'.Sound := by
  induction es with
  | nil => exact fun h _ => ⟨_, rfl, h⟩
  | cons e es ih =>
    intro m h hgentle
    obtain ⟨m₁, h₁, hsound₁⟩ := exec_sound h e hgentle.1
    obtain ⟨m₂, h₂, hsound₂⟩ := ih hsound₁ (hgentle.2 m₁ h₁)
    exact ⟨m₂, by rw [run, h₁, Option.bind_some, h₂], hsound₂⟩

lemma Sound.windowsUpheld (h : m.Sound) : WindowsUpheld m :=
  ⟨h.frames, fun w hw => (h.held w hw).upheld⟩

end Machine

/-- A run of gentle calls returns from all of them, and each window still stands on its right and
its frames. -/
theorem windows_upheld (es : List Event) (hgentle : GentleRun .boot es) :
    ∃ m, Machine.run .boot es = some m ∧ WindowsUpheld m := by
  obtain ⟨m, hm, hsound⟩ := Machine.run_sound es Machine.sound_boot hgentle
  exact ⟨m, hm, hsound.windowsUpheld⟩

def pagesAtMega : Host := ⟨none, fun _ => 0x100000, true⟩

def anyDma : DmaPolicy := ⟨true, fun _ => true, 4096⟩

def lendForDma : List Event :=
  [.host (.acquire pagesAtMega (some 1) .transfer 4096),
   .host (.borrow true (some 1) .transfer (some 2) 1 3),
   .host (.dmaMapBorrow (some 2) anyDma 1 0 512 1)]

def unmapThenRelease : List Event := lendForDma ++ [.host (.dmaUnmapBorrow (some 2) anyDma 1),
   .host (.unborrow (some 1) 1), .host (.release (some 1) .transfer 1)]

theorem windows_upheld_unmapThenRelease : GentleRun .boot unmapThenRelease ∧
      ∃ m, Machine.run .boot unmapThenRelease = some m ∧ WindowsUpheld m :=
  ⟨by decide +kernel, windows_upheld unmapThenRelease (by decide +kernel)⟩

def releaseUnderDma : List Event := lendForDma ++ [.host (.release (some 1) .transfer 1)]

/-- `release_owned` looks at the owner's own attachment only. -/
theorem releaseUnderDma_not_upheld :
    ∃ m, Machine.run .boot releaseUnderDma = some m ∧ ¬ WindowsUpheld m := by
  have hrun : ∃ m, Machine.run .boot releaseUnderDma = some m ∧ m.exposed ≠ [] := by
    decide +kernel
  obtain ⟨m, hm, hexposed⟩ := hrun
  exact ⟨m, hm, fun h => hexposed h.frames⟩

end

open Forest Registry

structure DmaWindow where
  base : UInt64
  length : UInt64

/-- The fields of `capability_context_state_t` that DMA depends on. -/
structure CapabilityState where
  contextId : UInt32
  spawnProfileConfigured : Bool
  dmaDirectionFlags : UInt32
  dmaMaxBytes : UInt32
  dmaWindowCount : UInt32
  dmaWindows : List DmaWindow
  mask : UInt32

/-- `g_cap_ctx` -/
abbrev Capabilities := List CapabilityState

def dmaWindowLimit : UInt32 := 16

def capDmaBuffer : UInt32 := 8

def DmaWindow.contains (w : DmaWindow) (base last : UInt64) : Bool :=
  if w.length = 0 ∨ w.base + w.length < w.base then false
  else base ≥ w.base && last ≤ w.base + w.length

namespace Capabilities

variable (caps : Capabilities) (contextId : UInt32)

def stateForContext : Option CapabilityState := List.find? (·.contextId == contextId) caps

/-- `capability_has` for `CAP_DMA_BUFFER` -/
def hasDmaBuffer : Bool :=
  (caps.stateForContext contextId).any fun c => c.mask &&& capDmaBuffer != 0

def dmaProfile : Option CapabilityState := (caps.stateForContext contextId).filter fun c =>
    c.spawnProfileConfigured && c.mask &&& capDmaBuffer != 0

def dmaDirectionAllowed (contextId directionFlags : UInt32) : Bool :=
  if directionFlags = 0 then false
  else (caps.dmaProfile contextId).any fun c =>
    c.dmaDirectionFlags &&& directionFlags == directionFlags

def dmaRangeAllowed (base length : UInt64) : Bool :=
  if length = 0 then false
  else (caps.dmaProfile contextId).any fun c =>
    if c.dmaWindowCount = 0 ∨ c.dmaWindowCount > dmaWindowLimit then false
    else if base + length < base then false
    else (c.dmaWindows.take c.dmaWindowCount.toNat).any (·.contains base (base + length))

def dmaMaxBytes (caps : Capabilities) (contextId : UInt32) : UInt32 :=
  match caps.dmaProfile contextId with
  | none => 0
  | some c => c.dmaMaxBytes

end Capabilities

/-- `hostcall_dma_map_borrow`, with the context of the calling process if there is one. -/
def hostcallDmaMapBorrow (caps : Capabilities) (caller : Option UInt32) (r : Registry)
    (borrowId offset length directionFlags : Int32) : Except Err Int32 × Registry :=
  if borrowId ≤ 0 ∨ offset < 0 ∨ length ≤ 0 ∨ directionFlags ≤ 0 then (.error .dmaInvalid, r)
  else
    match caller with
    | none => (.error .dmaDeny, r)
    | some ctx =>
      if !caps.hasDmaBuffer ctx then (.error .dmaDeny, r)
      else
        match r.getBorrowed borrowId.toUInt32 ctx with
        | .error _ => (.error .dmaDeny, r)
        | .ok (held, _) =>
          if !caps.dmaDirectionAllowed ctx directionFlags.toUInt32 then (.error .dmaDeny, r)
          else if caps.dmaMaxBytes ctx = 0 ∨ length.toUInt32 > caps.dmaMaxBytes ctx then
            (.error .dmaRange, r)
          else
            match r.dmaMapBorrow held offset.toUInt32 length.toUInt32 directionFlags.toUInt32 with
            | .error _ => (.error .dmaDeny, r)
            | .ok (mapping, mapped) =>
              if !caps.dmaRangeAllowed ctx mapping.deviceAddr length.toUInt32.toUInt64 then
                (.error .dmaRange, mapped.after (mapped.dmaUnmap mapping))
              else if mapping.deviceAddr > 0x7FFFFFFF then
                (.error .dmaAddrTooLarge, mapped.after (mapped.dmaUnmap mapping))
              else (.ok mapping.deviceAddr.toUInt32.toInt32, mapped)

structure WithinLimits (caps : Capabilities) (ctx : UInt32) (r : Registry)
    (borrowId offset length directionFlags addr : Int32) (b : BorrowSlot) (o : ObjectSlot)
    (c : CapabilityState) : Prop where
  held : b ∈ r.borrows ∧ b.active = true ∧ b.borrowId.toNat = borrowId.toInt ∧
    b.borrowerContextId = ctx
  object : o ∈ r.objects ∧ o.active = true ∧ o.bufferId = b.bufferId
  inside : 0 ≤ offset.toInt ∧ 0 < length.toInt ∧ offset.toInt + length.toInt ≤ o.sizeBytes.toNat
  profile : c ∈ caps ∧ c.contextId = ctx ∧ c.spawnProfileConfigured = true ∧
    c.mask &&& capDmaBuffer ≠ 0
  window : ∃ w ∈ c.dmaWindows.take c.dmaWindowCount.toNat, (w.base.toNat : ℤ) ≤ addr.toInt ∧
    addr.toInt + length.toInt ≤ w.base.toNat + w.length.toNat
  address : addr.toInt = (o.physBase.toNat + offset.toInt) % 2 ^ 64
  rights : (directionFlags.toUInt32 &&& dmaToDevice ≠ 0 → b.flags &&& borrowRead ≠ 0) ∧
    (directionFlags.toUInt32 &&& dmaFromDevice ≠ 0 → b.flags &&& borrowWrite ≠ 0)
  direction : c.dmaDirectionFlags &&& directionFlags.toUInt32 = directionFlags.toUInt32
  budget : length.toInt ≤ c.dmaMaxBytes.toNat

/-- A device address comes with every limit met; an error comes with no new mapping. -/
def Bounded (caps : Capabilities) (caller : Option UInt32) (r : Registry)
    (borrowId offset length directionFlags : Int32) : Except Err Int32 × Registry → Prop
  | (.ok addr, _) => ∃ ctx b o c, caller = some ctx ∧
    WithinLimits caps ctx r borrowId offset length directionFlags addr b o c
  | (.error _, r') => ∀ b ∈ r'.borrows, b.dma.active = true → b ∈ r.borrows

lemma undo_dmaMapBorrow {r mapped : Registry} {held : Borrow} {offset length dir : UInt32}
    {m : DmaMapping} (hok : r.dmaMapBorrow held offset length dir = .ok (m, mapped)) :
    ∀ b ∈ (mapped.after (mapped.dmaUnmap m)).borrows, b.dma.active = true → b ∈ r.borrows := by
  obtain ⟨b, o, hfind, -, -, -, -, rfl, rfl⟩ := dmaMapBorrow_ok hok
  obtain ⟨-, -, hid, hne⟩ := borrowFind_some hfind
  have hkeeps : ∀ dma (a : BorrowSlot), a.hasId held.borrowId = true →
      BorrowSlot.hasId held.borrowId { a with dma } = true := fun _ _ h => h
  intro a ham hdma
  -- the slot just written is the one the unmapping finds
  simp only [dmaUnmap, borrowFind, hid, if_neg hne,
    find?_updateFirst (hkeeps _), borrowFind_eq_find hfind, Option.map_some, Bool.not_true,
    Bool.false_eq_true, if_false, if_true, after,
    updateFirst_updateFirst (hkeeps _)] at ham
  rcases mem_of_mem_updateFirst ham with ham | ⟨q, -, -, rfl⟩
  · exact ham
  · cases hdma

lemma getBorrowed_ok {r : Registry} {borrowId ctx : UInt32} {held : Borrow} {m : DmaMapping}
    (hok : r.getBorrowed borrowId ctx = .ok (held, m)) :
    ∃ b, r.borrowFind borrowId = some b ∧ b.borrowerContextId = ctx ∧
      held.borrowId = b.borrowId := by
  unfold getBorrowed at hok
  repeat' split at hok
  any_goals cases hok
  next b hb hctx _ _ _ =>
  exact ⟨b, hb, by simpa using hctx, rfl⟩

lemma rangeWithin_iff {size offset length : UInt32} : rangeWithin size offset length = true ↔
    0 < length.toNat ∧ offset.toNat + length.toNat ≤ size.toNat := by
  unfold rangeWithin
  split
  next h =>
    have : length.toNat = 0 ∨ size.toNat < offset.toNat := h.imp (fun h => by simp [h]) id
    simp only [Bool.false_eq_true, false_iff]
    omega
  next h =>
    obtain ⟨hl, ho⟩ := not_or.1 h
    have hle : offset.toNat ≤ size.toNat := by simpa [UInt32.lt_iff_toNat_lt] using ho
    have hpos : length.toNat ≠ 0 := fun h0 => hl (UInt32.toNat_inj.1 h0)
    rw [decide_eq_true_iff, UInt32.le_iff_toNat_le, UInt32.toNat_sub_of_le _ _ hle]
    omega

lemma dmaDirectionAllowed_rights {flags dir : UInt32} (h : dmaDirectionAllowed flags dir = true) :
    (dir &&& dmaToDevice ≠ 0 → flags &&& borrowRead ≠ 0) ∧
      (dir &&& dmaFromDevice ≠ 0 → flags &&& borrowWrite ≠ 0) := by
  simp only [dmaDirectionAllowed] at h
  repeat' split at h
  any_goals cases h
  next hread _ =>
  next hwrite => exact ⟨fun hd hf => hread ⟨hd, hf⟩, fun hd hf => hwrite ⟨hd, hf⟩⟩

variable {base length : UInt64}

lemma DmaWindow.contains_toNat {w : DmaWindow}
    (hwrap : ¬ base + length < base) (h : w.contains base (base + length) = true) :
    w.base.toNat ≤ base.toNat ∧ base.toNat + length.toNat ≤ w.base.toNat + w.length.toNat := by
  unfold DmaWindow.contains at h
  split at h
  · cases h
  next hw =>
  simp only [Bool.and_eq_true, decide_eq_true_eq, ge_iff_le, UInt64.le_iff_toNat_le,
    UInt64.toNat_add] at h
  simp only [not_or, UInt64.lt_iff_toNat_lt, UInt64.toNat_add] at hw hwrap
  have := w.base.toNat_lt
  have := w.length.toNat_lt
  have := base.toNat_lt
  have := length.toNat_lt
  omega

variable {caps : Capabilities}

lemma dmaRangeAllowed_window {ctx : UInt32}
    {c : CapabilityState} (hc : caps.dmaProfile ctx = some c)
    (h : caps.dmaRangeAllowed ctx base length = true) :
    ∃ w ∈ c.dmaWindows.take c.dmaWindowCount.toNat, w.base.toNat ≤ base.toNat ∧
      base.toNat + length.toNat ≤ w.base.toNat + w.length.toNat := by
  unfold Capabilities.dmaRangeAllowed at h
  split at h
  · cases h
  rw [hc, Option.any_some] at h
  repeat' split at h
  any_goals cases h
  next hwrap =>
  obtain ⟨w, hw, hin⟩ := List.any_eq_true.1 h
  exact ⟨w, hw, w.contains_toNat hwrap hin⟩

lemma dmaDirectionAllowed_profile {ctx dir : UInt32}
    (h : caps.dmaDirectionAllowed ctx dir = true) : ∃ c, caps.dmaProfile ctx = some c ∧
      c ∈ caps ∧ c.contextId = ctx ∧ c.spawnProfileConfigured = true ∧
      c.mask &&& capDmaBuffer ≠ 0 ∧ c.dmaDirectionFlags &&& dir = dir := by
  unfold Capabilities.dmaDirectionAllowed at h
  split at h
  · cases h
  obtain ⟨c, hc, hdir⟩ := (Option.any_eq_true _ _).1 h
  obtain ⟨hfind, hprofile⟩ := Option.filter_eq_some_iff.1 hc
  simp only [Bool.and_eq_true, bne_iff_ne] at hprofile
  exact ⟨c, hc, List.mem_of_find?_eq_some hfind, by simpa using List.find?_some hfind, hprofile.1,
    hprofile.2, by simpa using hdir⟩

lemma toNat_toUInt32_eq_toInt {x : Int32} (h : 0 ≤ x) : (x.toUInt32.toNat : ℤ) = x.toInt := by
  rw [Int32.toNat_toUInt32_of_le h, Int32.toInt_eq_toNatClampNeg h]

/-- `hostcall_value_check` keeps the address from changing on its way to the guest. -/
lemma toInt_toInt32_toUInt32 {a : UInt64} (h : a.toNat ≤ 0x7FFFFFFF) :
    a.toUInt32.toInt32.toInt = a.toNat := by
  have hsame : a.toUInt32.toBitVec.toNat = a.toNat := by
    rw [UInt32.toNat_toBitVec, UInt64.toNat_toUInt32, Nat.mod_eq_of_lt (by omega)]
  have hsmall : 2 * a.toUInt32.toBitVec.toNat < 2 ^ 32 := by rw [hsame]; omega
  exact (BitVec.toInt_eq_toNat_of_lt hsmall).trans (by rw [hsame])

/-- A device address is returned only within every limit, and a refusal leaves no new mapping. -/
theorem dma_grant_bounded (caps : Capabilities) (caller : Option UInt32) (r : Registry)
    (borrowId offset length directionFlags : Int32) :
    Bounded caps caller r borrowId offset length directionFlags
      (hostcallDmaMapBorrow caps caller r borrowId offset length directionFlags) := by
  unfold hostcallDmaMapBorrow
  split
  · exact fun b hb _ => hb
  next hargs =>
  split
  · exact fun b hb _ => hb
  next ctx =>
  split
  · exact fun b hb _ => hb
  split
  · exact fun b hb _ => hb
  next held _ hheld =>
  split
  · exact fun b hb _ => hb
  next hdir =>
  split
  · exact fun b hb _ => hb
  next hbytes =>
  split
  · exact fun b hb _ => hb
  next m mapped hmap =>
  split
  · exact undo_dmaMapBorrow hmap
  next hrange =>
  split
  · exact undo_dmaMapBorrow hmap
  next hsmall =>
  obtain ⟨hid₀, hoffset, hlength, -⟩ := by
    simpa using hargs
  have hoffset := toNat_toUInt32_eq_toInt hoffset
  have hlength₀ := toNat_toUInt32_eq_toInt (Int32.le_of_lt hlength)
  obtain ⟨b, hfind, hctx, hsame⟩ := getBorrowed_ok hheld
  obtain ⟨b', o, hfind', hobj, -, hwithin, hrights, hm, -⟩ := dmaMapBorrow_ok hmap
  have hdevice : m.deviceAddr = o.physBase + offset.toUInt32.toUInt64 := by rw [hm]
  obtain ⟨hb, ha, hid, -⟩ := borrowFind_some hfind
  rw [hsame, hid, hfind] at hfind'
  cases hfind'
  obtain ⟨ho, hoa, hoid⟩ := objectFindById_some hobj
  obtain ⟨c, hc, hmem, hcctx, hconf, hmask, hflags⟩ := dmaDirectionAllowed_profile
    (by simpa using hdir : caps.dmaDirectionAllowed ctx directionFlags.toUInt32 = true)
  have := rangeWithin_iff.1 hwithin
  obtain ⟨w, hw, hlow, hhigh⟩ := dmaRangeAllowed_window hc (by simpa using hrange)
  have haddr := toInt_toInt32_toUInt32 (UInt64.le_iff_toNat_le.1 (UInt64.not_lt.1 hsmall))
  refine ⟨ctx, b, o, c, rfl, ?_⟩
  constructor
  · exact ⟨hb, ha, by rw [hid, toNat_toUInt32_eq_toInt (Int32.le_of_lt hid₀)], hctx⟩
  · exact ⟨ho, hoa, hoid⟩
  · omega
  · exact ⟨hmem, hcctx, hconf, hmask⟩
  · refine ⟨w, hw, ?_⟩
    rw [haddr]
    rw [UInt32.toNat_toUInt64] at hhigh
    omega
  · rw [haddr, hdevice, UInt64.toNat_add, UInt32.toNat_toUInt64, ← hoffset]
    norm_cast
  · exact dmaDirectionAllowed_rights hrights
  · exact hflags
  have hmax : caps.dmaMaxBytes ctx = c.dmaMaxBytes := by rw [Capabilities.dmaMaxBytes, hc]
  have hle := UInt32.le_iff_toNat_le.1 (UInt32.not_lt.1 (not_or.1 hbytes).2)
  rw [hmax] at hle
  omega

example : (hostcallDmaMapBorrow [⟨2, true, 1, 4096, 1, [⟨0, 0x200000⟩], 8⟩] (some 2)
    ⟨[⟨true, .transfer, 1, 4096, 1, 0x100000, {}⟩],
      [⟨true, 1, 0, 1, .transfer, 1, 2, 1, {}⟩], 2, 2⟩ 1 512 512 1).1.toOption =
    some 0x100200 := by decide +kernel

end XferBuffer
