import WasmOS.XferBuffer.Registry

/-! # The slots of the registry

What each successful call does to the slots. Between calls, ids of active slots are unique, every
active borrow is of an active object and hangs from an active borrow, and the borrows form a forest,
whoever lends to whom.
-/

namespace XferBuffer

open Forest List Registry

section Find

variable {r : Registry} {o : ObjectSlot} {b : BorrowSlot} {buffer : Buffer} {id ctx : UInt32}

lemma ObjectSlot.isBuffer_iff : o.isBuffer buffer = true ↔
    o.active = true ∧ o.bufferId = buffer.bufferId ∧ o.kind = buffer.kind := by
  simp [ObjectSlot.isBuffer, and_assoc]

lemma ObjectSlot.hasId_iff : o.hasId id = true ↔ o.active = true ∧ o.bufferId = id := by
  simp [ObjectSlot.hasId]

lemma BorrowSlot.hasId_iff : b.hasId id = true ↔ b.active = true ∧ b.borrowId = id := by
  simp [BorrowSlot.hasId]

lemma BorrowSlot.isFor_iff : b.isFor id ctx = true ↔
    b.active = true ∧ b.bufferId = id ∧ b.borrowerContextId = ctx := by
  simp [BorrowSlot.isFor, and_assoc]

lemma BorrowSlot.isOf_iff : b.isOf id = true ↔ b.active = true ∧ b.bufferId = id := by
  simp [BorrowSlot.isOf]

lemma objectFind_some (h : r.objectFind buffer = some o) :
    o ∈ r.objects ∧ o.active = true ∧ o.bufferId = buffer.bufferId ∧ o.kind = buffer.kind := by
  unfold objectFind at h
  split at h
  · cases h
  · exact ⟨mem_of_find?_eq_some h, ObjectSlot.isBuffer_iff.1 (find?_some h)⟩

lemma objectFind_eq_find (h : r.objectFind buffer = some o) :
    r.objects.find? (·.isBuffer buffer) = some o := by
  unfold objectFind at h
  split at h
  · cases h
  · exact h

lemma borrowFind_eq_find (h : r.borrowFind id = some b) :
    r.borrows.find? (·.hasId id) = some b := by
  unfold borrowFind at h
  split at h
  · cases h
  · exact h

lemma objectFindById_some (h : r.objectFindById id = some o) :
    o ∈ r.objects ∧ o.active = true ∧ o.bufferId = id := by
  unfold objectFindById at h
  split at h
  · cases h
  · exact ⟨mem_of_find?_eq_some h, ObjectSlot.hasId_iff.1 (find?_some h)⟩

lemma borrowFind_some (h : r.borrowFind id = some b) :
    b ∈ r.borrows ∧ b.active = true ∧ b.borrowId = id ∧ id ≠ 0 := by
  unfold borrowFind at h
  split at h
  · cases h
  next hid =>
    obtain ⟨ha, hb⟩ := BorrowSlot.hasId_iff.1 (find?_some h)
    exact ⟨mem_of_find?_eq_some h, ha, hb, hid⟩

lemma borrowFindFor_some (h : r.borrowFindFor id ctx = some b) :
    b ∈ r.borrows ∧ b.active = true ∧ b.bufferId = id ∧ b.borrowerContextId = ctx :=
  ⟨mem_of_find?_eq_some h, BorrowSlot.isFor_iff.1 (find?_some h)⟩

lemma borrowFindFor_none (h : (r.borrowFindFor id ctx).isSome = false) (hb : b ∈ r.borrows)
    (ha : b.active = true) : ¬ (b.bufferId = id ∧ b.borrowerContextId = ctx) := by
  rintro ⟨rfl, rfl⟩
  rw [Option.isSome_eq_false_iff, Option.isNone_iff_eq_none, borrowFindFor, find?_eq_none] at h
  exact h b hb (BorrowSlot.isFor_iff.2 ⟨ha, rfl, rfl⟩)

lemma borrowFind_none (h : r.borrowFind id = none) (hid : id ≠ 0) (hb : b ∈ r.borrows)
    (ha : b.active = true) : b.borrowId ≠ id := by
  rw [borrowFind, if_neg hid, find?_eq_none] at h
  exact fun hk => h b hb (BorrowSlot.hasId_iff.2 ⟨ha, hk⟩)

lemma objectFindById_none (h : r.objectFindById id = none) (hid : id ≠ 0) (ho : o ∈ r.objects)
    (ha : o.active = true) : o.bufferId ≠ id := by
  rw [objectFindById, if_neg hid, find?_eq_none] at h
  exact fun hk => h o ho (ObjectSlot.hasId_iff.2 ⟨ha, hk⟩)

end Find

variable {r r' : Registry} {u : Unit}

/-- The counter has not come round to an id that is still in use. -/
@[mk_iff]
structure FreshBorrowId (r : Registry) : Prop where
  ne_zero : r.nextBorrowId ≠ 0
  unused : r.borrowFind r.nextBorrowId = none

@[mk_iff]
structure FreshBufferId (r : Registry) : Prop where
  ne_zero : r.nextBufferId ≠ 0
  unused : r.objectFindById r.nextBufferId = none

instance (r : Registry) : Decidable (FreshBorrowId r) := decidable_of_iff' _ (freshBorrowId_iff r)

instance (r : Registry) : Decidable (FreshBufferId r) := decidable_of_iff' _ (freshBufferId_iff r)

section Ok

variable {host : Host} {kind : Kind} {ctx size borrower flags offset length dir new parent lender
  : UInt32} {owner : Owner} {lent out upstream : Borrow} {m : DmaMapping} {grow : Bool}
  {o : ObjectSlot}

lemma acquire_ok (hok : r.acquire host kind ctx size = .ok (owner, r')) :
    ctx ≠ 0 ∧ ∃ o objects, o.active = true ∧ o.bufferId = r.nextBufferId ∧
      o.ownerContextId = ctx ∧ place ObjectSlot.active host.grow o r.objects = some objects ∧
      r' = { r with objects, nextBufferId := r.nextBufferId + 1 } := by
  simp only [acquire] at hok
  repeat' split at hok
  any_goals cases hok
  next hctx _ _ _ _ _ _ objects hplace =>
  exact ⟨hctx, _, objects, rfl, rfl, rfl, hplace, rfl⟩

lemma releaseOwned_ok (hok : r.releaseOwned owner = .ok (u, r')) :
    ∃ o, r.objectFind owner.buffer = some o ∧ o.ownerContextId = owner.ownerContextId ∧
      o.dma.active = false ∧ r' = { r with
        borrows := objectRevokeAllBorrows o.bufferId r.borrows
        objects := updateFirst (·.isBuffer owner.buffer) ({ · with active := false })
          r.objects } := by
  simp only [releaseOwned] at hok
  repeat' split at hok
  any_goals cases hok
  next o hfind howner hdma =>
  exact ⟨o, hfind, by simpa using howner, by simpa using hdma, rfl⟩

lemma transferOwnership_ok (hok : r.transferOwnership owner new = .ok (u, r')) :
    ∃ o, r.objectFind owner.buffer = some o ∧ o.ownerContextId = owner.ownerContextId ∧ new ≠ 0 ∧
      r.objectHasActiveBorrow o.bufferId = false ∧ r' = { r with
        objects := updateFirst (·.isBuffer owner.buffer) ({ · with ownerContextId := new })
          r.objects } := by
  simp only [transferOwnership] at hok
  repeat' split at hok
  any_goals cases hok
  next o hfind howner hnew _ _ hidle =>
  exact ⟨o, hfind, by simpa using howner, hnew, by simpa using hidle, rfl⟩

lemma attachBorrow_ok (hok : r.attachBorrow grow o parent lender borrower flags = .ok (out, r')) :
    ∃ borrows, place BorrowSlot.active grow ⟨true, r.nextBorrowId, parent, o.bufferId, o.kind,
        lender, borrower, flags, {}⟩ r.borrows = some borrows ∧
      r' = { r with borrows, nextBorrowId := r.nextBorrowId + 1 } := by
  simp only [attachBorrow] at hok
  split at hok
  · cases hok
  next borrows hplace =>
  cases hok
  exact ⟨borrows, hplace, rfl⟩

lemma borrow_ok (hok : r.borrow grow owner borrower flags = .ok (out, r')) :
    ∃ o, r.objectFind owner.buffer = some o ∧ borrower ≠ 0 ∧
      (o.kind = .transfer → borrower ≠ o.ownerContextId) ∧
      (r.borrowFindFor o.bufferId borrower).isSome = false ∧
      r.attachBorrow grow o 0 o.ownerContextId borrower flags = .ok (out, r') := by
  simp only [borrow] at hok
  repeat' split at hok
  any_goals cases hok
  next hborrower _ _ o hfind _ _ hself hone =>
  refine ⟨o, hfind, hborrower, fun hkind hb => ?_, by simpa using hone, hok⟩
  exact hself ⟨by rw [hkind]; decide, hb⟩

lemma reborrow_ok (hok : r.reborrow grow upstream borrower flags = .ok (out, r')) :
    ∃ up o, r.borrowFind upstream.borrowId = some up ∧ r.objectFindById up.bufferId = some o ∧
      borrower ≠ 0 ∧ flags &&& up.flags = flags ∧
      (r.borrowFindFor up.bufferId borrower).isSome = false ∧
      r.attachBorrow grow o up.borrowId up.borrowerContextId borrower flags = .ok (out, r') := by
  simp only [reborrow] at hok
  repeat' split at hok
  any_goals cases hok
  next hborrower _ _ up hup hrights _ _ o ho hone =>
  exact ⟨up, o, hup, ho, hborrower, by simpa using hrights, by simpa using hone, hok⟩

lemma unborrow_ok (hok : r.unborrow lent = some (.ok (u, r'))) :
    ∃ b borrows, r.borrowFind lent.borrowId = some b ∧ b.dma.active = false ∧
      borrowRevokeTree b.borrowId r.borrows = some borrows ∧ r' = { r with borrows } := by
  unfold unborrow at hok
  repeat' split at hok
  any_goals cases hok
  next b hfind hdma =>
  obtain ⟨borrows, hb, heq⟩ := Option.map_eq_some_iff.1 hok
  cases heq
  exact ⟨b, borrows, hfind, by simpa using hdma, hb, rfl⟩

lemma dmaMapOwned_ok (hok : r.dmaMapOwned owner offset length dir = .ok (m, r')) :
    ∃ o, r.objectFind owner.buffer = some o ∧ o.dma.active = false ∧
      m = ⟨o.buffer, o.ownerContextId, 0, offset, length, dir,
        o.physBase + offset.toUInt64, false, true⟩ ∧ r' = { r with
        objects := updateFirst (·.isBuffer owner.buffer)
          ({ · with dma := ⟨true, offset, length, dir⟩ }) r.objects } := by
  simp only [dmaMapOwned] at hok
  repeat' split at hok
  any_goals cases hok
  next o hfind _ _ _ hdma =>
  exact ⟨o, hfind, by simpa using hdma, rfl, rfl⟩

lemma dmaMapBorrow_ok (hok : r.dmaMapBorrow lent offset length dir = .ok (m, r')) :
    ∃ b o, r.borrowFind lent.borrowId = some b ∧ r.objectFindById b.bufferId = some o ∧
      b.dma.active = false ∧ rangeWithin o.sizeBytes offset length = true ∧
      dmaDirectionAllowed b.flags dir = true ∧ m = ⟨o.buffer, 0, b.borrowId, offset, length, dir,
        o.physBase + offset.toUInt64, true, true⟩ ∧ r' = { r with
        borrows := updateFirst (·.hasId lent.borrowId)
          ({ · with dma := ⟨true, offset, length, dir⟩ }) r.borrows } := by
  simp only [dmaMapBorrow] at hok
  repeat' split at hok
  any_goals cases hok
  next b hb _ o ho hrange hdir hdma =>
  exact ⟨b, o, hb, ho, by simpa using hdma, by simpa using hrange, by simpa using hdir, rfl, rfl⟩

lemma dmaUnmap_ok (hok : r.dmaUnmap m = .ok (u, r')) :
    r' = r ∨ (m.attachedViaBorrow = true ∧ r' = { r with
      borrows := updateFirst (·.hasId m.borrowId)
        (fun b => { b with dma := { b.dma with active := false } }) r.borrows }) ∨
    (m.attachedViaBorrow = false ∧ r' = { r with
      objects := updateFirst (·.hasId m.buffer.bufferId)
        (fun o => { o with dma := { o.dma with active := false } }) r.objects }) := by
  simp only [dmaUnmap] at hok
  split at hok
  · cases hok
  split at hok
  next hvia =>
    split at hok
    · cases hok; exact .inl rfl
    · cases hok; exact .inr (.inl ⟨hvia, rfl⟩)
  next hvia =>
    split at hok
    · cases hok; exact .inl rfl
    · cases hok; exact .inr (.inr ⟨by simpa using hvia, rfl⟩)

end Ok

structure Grants (p b : BorrowSlot) : Prop where
  active : p.active = true
  borrowId : p.borrowId = b.parentBorrowId
  bufferId : p.bufferId = b.bufferId
  lender : p.borrowerContextId = b.lenderContextId
  flags : b.flags &&& p.flags = b.flags

structure Stands (o : ObjectSlot) (b : BorrowSlot) : Prop where
  active : o.active = true
  bufferId : o.bufferId = b.bufferId
  lender : b.lenderContextId ≠ 0
  borrower : b.borrowerContextId ≠ 0

@[mk_iff]
structure Sane (r : Registry) : Prop where
  objectIds : r.objects.Pairwise fun a b =>
    a.active = true → b.active = true → a.bufferId ≠ b.bufferId
  objectNamed : ∀ o ∈ r.objects, o.active = true → o.bufferId ≠ 0 ∧ o.ownerContextId ≠ 0
  linked : Linked borrowLinks r.borrows
  ranked : ∃ f, Ranked borrowLinks f r.borrows
  standing : ∀ b ∈ r.borrows, b.active = true → ∃ o ∈ r.objects, Stands o b
  granted : ∀ b ∈ r.borrows, b.active = true → b.parentBorrowId ≠ 0 → ∃ p ∈ r.borrows, Grants p b
  single : r.borrows.Pairwise fun a b => a.active = true → b.active = true →
    ¬ (a.bufferId = b.bufferId ∧ a.borrowerContextId = b.borrowerContextId)

lemma sane_empty : Sane .empty := by
  constructor <;> simp [empty]
  · constructor <;> simp
  · exact ⟨fun _ => 0, fun a ha => by cases ha⟩

variable {p : BorrowSlot → Bool}

namespace Sane

variable (h : Sane r)
include h

lemma object_eq {o o' : ObjectSlot} (ho : o ∈ r.objects) (ho' : o' ∈ r.objects)
    (ha : o.active = true) (ha' : o'.active = true) (hid : o.bufferId = o'.bufferId) : o = o' := by
  have : Std.Symm fun a b : ObjectSlot =>
      a.active = true → b.active = true → a.bufferId ≠ b.bufferId :=
    ⟨fun _ _ h hb ha => (h ha hb).symm⟩
  by_contra hne
  exact h.objectIds.forall ho ho' hne ha ha' hid

lemma thin {borrows : List BorrowSlot} (ht : Thins borrowLinks r.borrows borrows)
    (hl : Linked borrowLinks borrows) : Sane { r with borrows } where
  objectIds := h.objectIds
  objectNamed := h.objectNamed
  linked := hl
  ranked := h.ranked.imp fun _ hf => ht.ranked hf
  standing b hb ha := h.standing b (ht.mem hb ha) ha
  granted b hb ha hp := by
    obtain ⟨p, hpm, hpg⟩ := h.granted b (ht.mem hb ha) ha hp
    obtain ⟨q, hq, hql, hqk⟩ := hl.closed b hb ha hp
    -- the parent that is still there is the one the borrow was derived from
    have hpq : p = q := h.linked.eq_of_key hpm (ht.mem hq hql) hpg.active hql
      (hpg.borrowId.trans hqk.symm)
    exact ⟨q, hq, hpq ▸ hpg⟩
  single := ht.pairwise h.single

lemma revokeTree {id : UInt32} (hid : id ≠ 0) :
    ∃ borrows, borrowRevokeTree id r.borrows = some borrows ∧
      Thins borrowLinks r.borrows borrows ∧ Linked borrowLinks borrows ∧
      ∀ b ∈ borrows, b.active = true → b.borrowId ≠ id := by
  obtain ⟨f, hf⟩ := h.ranked
  exact revokeTree_spec _ id r.borrows hid h.linked hf (above_lt_length_succ f id r.borrows)

lemma revokeWhere (hp : ∀ b, p b = true → b.active = true) :
    ∃ borrows, XferBuffer.revokeWhere p r.borrows = some borrows ∧
      Thins borrowLinks r.borrows borrows ∧ Sane { r with borrows } ∧
      ∀ b ∈ borrows, p b = false := by
  have hvisit : ∀ (s : List BorrowSlot) (a : BorrowSlot), Sane { r with borrows := s } → a ∈ s →
      p a = true → ∃ t, borrowRevokeTree (borrowLinks.key a) s = some t ∧
        Thins borrowLinks s t ∧ Sane { r with borrows := t } ∧
        ∀ b ∈ t, borrowLinks.live b = true → borrowLinks.key b ≠ borrowLinks.key a := by
    intro s a hs ha hpa
    obtain ⟨t, ht, hthin, hl, hgone⟩ := hs.revokeTree (hs.linked.keyed a ha (hp a hpa))
    exact ⟨t, ht, hthin, hs.thin hthin hl, hgone⟩
  exact sweep_all_spec hp hvisit h

lemma bufferId_eq_of_reaches {a b : BorrowSlot} (ha : a ∈ r.borrows)
    (hla : a.active = true) (hb : b ∈ r.borrows) (hlb : b.active = true)
    (hreach : Reaches borrowLinks r.borrows a.borrowId b.borrowId) : a.bufferId = b.bufferId := by
  generalize hj : b.borrowId = j at hreach
  induction hreach generalizing b with
  | here => rw [h.linked.eq_of_key ha hb hla hlb hj.symm]
  | @up c hc hlc hreach ih =>
    obtain rfl := h.linked.eq_of_key hb hc hlb hlc hj
    have hroot := hreach.ne_root h.linked ha hla
    obtain ⟨p, hp, hg⟩ := h.granted b hb hlb hroot
    exact (ih hp hg.active hg.borrowId).trans hg.bufferId

end Sane

variable {owner : Owner}

lemma acquire_sane (h : Sane r) (hfresh : FreshBufferId r) {host : Host} {kind : Kind}
    {ctx size : UInt32} (hok : r.acquire host kind ctx size = .ok (owner, r')) :
    Sane r' := by
  obtain ⟨hctx, o, objects, -, hid, rfl, hplace, rfl⟩ := acquire_ok hok
  have hunused : ∀ o ∈ r.objects, o.active = true → o.bufferId ≠ r.nextBufferId := fun o ho =>
    objectFindById_none hfresh.unused hfresh.ne_zero ho
  constructor
  · exact pairwise_place (fun a b h hb ha => (h ha hb).symm) hplace h.objectIds
      fun a ho _ ha => hid ▸ (hunused a ho ha).symm
  · intro a ho ha
    rcases mem_of_mem_place hplace ho with rfl | ho
    · exact ⟨hid ▸ hfresh.ne_zero, hctx⟩
    · exact h.objectNamed a ho ha
  · exact h.linked
  · exact h.ranked
  · intro b hb ha
    obtain ⟨o, ho, hg⟩ := h.standing b hb ha
    exact ⟨o, mem_place_of_live hplace ho hg.active, hg⟩
  · exact h.granted
  · exact h.single

variable {out : Borrow} {grow : Bool} {o : ObjectSlot}

lemma attachBorrow_sane (h : Sane r) (hfresh : FreshBorrowId r)
    {parent lender borrower flags : UInt32} (ho : o ∈ r.objects)
    (hactive : o.active = true) (hlender : lender ≠ 0) (hborrower : borrower ≠ 0)
    (hone : (r.borrowFindFor o.bufferId borrower).isSome = false)
    (hparent : parent ≠ 0 → ∃ p ∈ r.borrows, p.active = true ∧ p.borrowId = parent ∧
      p.bufferId = o.bufferId ∧ p.borrowerContextId = lender ∧ flags &&& p.flags = flags)
    (hok : r.attachBorrow grow o parent lender borrower flags = .ok (out, r')) : Sane r' := by
  obtain ⟨borrows, hplace, rfl⟩ := attachBorrow_ok hok
  have hunused : ∀ b ∈ r.borrows, b.active = true → b.borrowId ≠ r.nextBorrowId := fun b hb =>
    borrowFind_none hfresh.unused hfresh.ne_zero hb
  have hlive : parent ≠ 0 → ∃ p ∈ r.borrows, p.active = true ∧ p.borrowId = parent := fun hp => by
    obtain ⟨p, hpm, hpa, hpk, -⟩ := hparent hp
    exact ⟨p, hpm, hpa, hpk⟩
  constructor
  · exact h.objectIds
  · exact h.objectNamed
  · exact h.linked.place hplace hunused hlive hfresh.ne_zero
  · obtain ⟨f, hf⟩ := h.ranked
    exact exists_ranked_place h.linked hplace hunused hlive hf
  · intro b hb ha
    rcases mem_of_mem_place hplace hb with rfl | hb
    · exact ⟨o, ho, hactive, rfl, hlender, hborrower⟩
    · exact h.standing b hb ha
  · intro b hb ha hp
    rcases mem_of_mem_place hplace hb with rfl | hb
    · obtain ⟨p, hpm, hpa, hpk, hpb, hpl, hpf⟩ := hparent hp
      exact ⟨p, mem_place_of_live hplace hpm hpa, hpa, hpk, hpb, hpl, hpf⟩
    · obtain ⟨p, hpm, hpg⟩ := h.granted b hb ha hp
      exact ⟨p, mem_place_of_live hplace hpm hpg.active, hpg⟩
  · exact pairwise_place (fun a b h hb ha hab => h ha hb ⟨hab.1.symm, hab.2.symm⟩) hplace h.single
      fun b hb _ ha hab => borrowFindFor_none hone hb ha ⟨hab.1.symm, hab.2.symm⟩

variable {borrower flags : UInt32}

lemma borrow_sane (h : Sane r) (hfresh : FreshBorrowId r)
        (hok : r.borrow grow owner borrower flags = .ok (out, r')) : Sane r' := by
  obtain ⟨o, hfind, hborrower, -, hone, hattach⟩ := borrow_ok hok
  obtain ⟨ho, hactive, -⟩ := objectFind_some hfind
  exact attachBorrow_sane h hfresh ho hactive (h.objectNamed o ho hactive).2 hborrower hone
    (fun hp => absurd rfl hp) hattach

lemma reborrow_sane (h : Sane r) (hfresh : FreshBorrowId r) {upstream : Borrow}
        (hok : r.reborrow grow upstream borrower flags = .ok (out, r')) : Sane r' := by
  obtain ⟨up, o, hup, ho, hborrower, hrights, hone, hattach⟩ := reborrow_ok hok
  obtain ⟨hom, hactive, hid⟩ := objectFindById_some ho
  obtain ⟨hupm, hupa, -⟩ := borrowFind_some hup
  obtain ⟨_, -, hstands⟩ := h.standing up hupm hupa
  refine attachBorrow_sane h hfresh hom hactive hstands.borrower hborrower
    (by rw [hid]; exact hone) (fun _ => ?_) hattach
  exact ⟨up, hupm, hupa, rfl, hid.symm, rfl, hrights⟩

lemma Sane.linked_revokeAll (h : Sane r) (id : UInt32) :
    Linked borrowLinks (objectRevokeAllBorrows id r.borrows) := by
  refine h.linked.retireAll fun a ha q hq hla hlq hkey hpq => ?_
  have hroot : borrowLinks.parent a ≠ 0 := hkey ▸ h.linked.keyed q hq hlq
  obtain ⟨p, hp, hg⟩ := h.granted a ha hla hroot
  have hpq' : p = q := h.linked.eq_of_key hp hq hg.active hlq (hg.borrowId.trans hkey.symm)
  rw [← hpq', beq_iff_eq, hg.bufferId] at hpq
  exact beq_iff_eq.2 hpq

lemma releaseOwned_sane (h : Sane r) (hok : r.releaseOwned owner = .ok (u, r')) : Sane r' := by
  obtain ⟨o, hfind, -, -, rfl⟩ := releaseOwned_ok hok
  obtain ⟨ho, hactive, hid, hkind⟩ := objectFind_some hfind
  have hrest := h.thin (thins_retireAll (L := borrowLinks) (fun b => b.bufferId == o.bufferId)
    r.borrows) (h.linked_revokeAll o.bufferId)
  have hsub : ∀ a ∈ updateFirst (·.isBuffer owner.buffer) ({ · with active := false }) r.objects,
      a.active = true → a ∈ r.objects := by
    intro a ha hact
    rcases mem_of_mem_updateFirst ha with ha | ⟨b, -, -, rfl⟩
    · exact ha
    · cases hact
  constructor
  · exact pairwise_updateFirst (fun a b _ _ h => by cases h) (fun a b _ _ _ h => by cases h)
      h.objectIds
  · exact fun a ha hact => h.objectNamed a (hsub a ha hact) hact
  · exact hrest.linked
  · exact hrest.ranked
  · intro b hb ha
    obtain ⟨hbm, hne⟩ := (mem_retireAll_iff ha).1 hb
    obtain ⟨q, hq, hg⟩ := h.standing b hbm ha
    rcases mem_updateFirst hq with hq' | ⟨hq', -⟩
    · exact ⟨q, hq', hg⟩
    -- the object that goes is not the one this borrow stands on
    obtain ⟨-, hqid, -⟩ := ObjectSlot.isBuffer_iff.1 hq'
    rw [← hg.bufferId, hqid, ← hid] at hne
    simp at hne
  · exact hrest.granted
  · exact hrest.single

lemma unborrow_sane (h : Sane r) (lent : Borrow) :
    ∃ out, r.unborrow lent = some out ∧ Sane (r.after out) := by
  unfold unborrow
  split
  · exact ⟨_, rfl, h⟩
  next b hfind =>
  split
  · exact ⟨_, rfl, h⟩
  obtain ⟨-, -, hid, hne⟩ := borrowFind_some hfind
  obtain ⟨borrows, hrevoke, hthin, hlinked, -⟩ := h.revokeTree (hid ▸ hne : b.borrowId ≠ 0)
  rw [hrevoke]
  exact ⟨_, rfl, h.thin hthin hlinked⟩

def ObjectSlot.ownedBy (ctx : UInt32) (o : ObjectSlot) : Bool := o.active && o.ownerContextId == ctx

lemma dropObjects_sane (ctx : UInt32) : ∀ (objects : List ObjectSlot) (borrows : List BorrowSlot),
    Sane { r with borrows } →
    ∃ borrows', dropObjects ctx objects borrows = some (objects.map fun o =>
        if o.ownedBy ctx then { o with active := false } else o, borrows') ∧
      Thins borrowLinks borrows borrows' ∧ Sane { r with borrows := borrows' } ∧
      ∀ o ∈ objects, o.ownedBy ctx = true →
        ∀ b ∈ borrows', b.active = true → b.bufferId ≠ o.bufferId
  | [], borrows, h => ⟨borrows, rfl, Thins.refl _, h, by simp⟩
  | o :: objects, borrows, h => by
    unfold dropObjects
    split
    next ho =>
      have hown' : o.ownedBy ctx = true := ho
      obtain ⟨borrows₁, h₁, hthin₁, hsane₁, hdone₁⟩ :=
        h.revokeWhere (p := (·.isOf o.bufferId)) fun b hb => (BorrowSlot.isOf_iff.1 hb).1
      obtain ⟨borrows₂, h₂, hthin₂, hsane₂, hdone₂⟩ := dropObjects_sane ctx objects borrows₁ hsane₁
      refine ⟨borrows₂, ?_, hthin₁.trans hthin₂, hsane₂, ?_⟩
      · simp only at h₁
        simp only [h₁, h₂, Option.bind_eq_bind, Option.bind_some, Option.pure_def, map_cons,
          if_pos hown']
      intro a ha hown b hb hba hid
      rcases mem_cons.1 ha with rfl | ha
      · have := hdone₁ b (hthin₂.mem hb hba)
        rw [Bool.eq_false_iff] at this
        exact this (BorrowSlot.isOf_iff.2 ⟨hba, hid⟩)
      · exact hdone₂ a ha hown b hb hba hid
    next ho =>
      have hown' : ¬ o.ownedBy ctx = true := ho
      obtain ⟨borrows₂, h₂, hthin₂, hsane₂, hdone₂⟩ := dropObjects_sane ctx objects borrows h
      refine ⟨borrows₂, ?_, hthin₂, hsane₂, ?_⟩
      · simp only [h₂, Option.bind_eq_bind, Option.bind_some, Option.pure_def, map_cons,
          if_neg hown']
      intro a ha hown
      rcases mem_cons.1 ha with rfl | ha
      · exact absurd hown ho
      · exact hdone₂ a ha hown

variable {ctx : UInt32}

lemma dropContext_spec (h : Sane r) (hctx : ctx ≠ 0) : ∃ borrows, r.dropContext ctx = some { r with
        objects := r.objects.map fun o => if o.ownedBy ctx then { o with active := false } else o
        borrows } ∧ Thins borrowLinks r.borrows borrows ∧ Sane { r with borrows } ∧
      (∀ o ∈ r.objects, o.ownedBy ctx = true →
        ∀ b ∈ borrows, b.active = true → b.bufferId ≠ o.bufferId) ∧
      ∀ b ∈ borrows, b.active = true → b.lenderContextId ≠ ctx ∧ b.borrowerContextId ≠ ctx := by
  obtain ⟨borrows₁, h₁, hthin₁, hsane₁, hdone₁⟩ := h.revokeWhere
    (p := fun b => b.active && (b.lenderContextId == ctx || b.borrowerContextId == ctx))
    fun b hb => by simp only [Bool.and_eq_true] at hb; exact hb.1
  obtain ⟨borrows₂, h₂, hthin₂, hsane, hdone⟩ := dropObjects_sane ctx r.objects borrows₁ hsane₁
  refine ⟨borrows₂, ?_, hthin₁.trans hthin₂, hsane, hdone, fun b hb ha => ?_⟩
  · unfold dropContext
    rw [if_neg hctx]
    simp [h₁, h₂]
  · simpa [ha] using hdone₁ b (hthin₂.mem hb ha)

lemma dropContext_sane (h : Sane r) (ctx : UInt32) :
    ∃ r', r.dropContext ctx = some r' ∧ Sane r' := by
  by_cases hctx : ctx = 0
  · exact ⟨r, by rw [dropContext, if_pos hctx], h⟩
  obtain ⟨borrows, hdrop, -, hsane, hdone, -⟩ := dropContext_spec h hctx
  refine ⟨_, hdrop, ?_⟩
  constructor
  · refine pairwise_map.2 (h.objectIds.imp fun {a b} hab => ?_)
    split <;> split <;> simp_all
  · intro o ho ha
    obtain ⟨o', ho', rfl⟩ := mem_map.1 ho
    split at ha
    · cases ha
    next hne =>
      rw [if_neg hne]
      exact h.objectNamed o' ho' ha
  · exact hsane.linked
  · exact hsane.ranked
  · intro b hb ha
    obtain ⟨o, ho, hg⟩ := hsane.standing b hb ha
    refine ⟨o, mem_map.2 ⟨o, ho, if_neg fun hown => ?_⟩, hg⟩
    exact hdone o ho hown b hb ha hg.bufferId.symm
  · exact hsane.granted
  · exact hsane.single

variable {b : BorrowSlot}

lemma revokeWhere_keeps {borrows borrows' : List BorrowSlot}
    (hlive : ∀ a, p a = true → a.active = true) (hb : b ∈ borrows)
    (hl : b.active = true)
    (hp : ∀ a ∈ borrows, a.active = true →
      Reaches borrowLinks borrows a.borrowId b.borrowId → p a = false)
    (hok : revokeWhere p borrows = some borrows') : b ∈ borrows' :=
  sweep_revokeTree_keeps hlive hb hl hp hok

lemma dropObjects_keeps (hl : b.active = true) :
    ∀ (objects objects' : List ObjectSlot) (borrows borrows' : List BorrowSlot),
      Sane { r with borrows } → b ∈ borrows →
      (∀ o ∈ objects, o.ownedBy ctx = true → o.bufferId ≠ b.bufferId) →
      dropObjects ctx objects borrows = some (objects', borrows') → b ∈ borrows'
  | [], _, borrows, _, _, hb, _, hok => by
    cases hok
    exact hb
  | o :: objects, objects', borrows, borrows', h, hb, hown, hok => by
    have hrest := fun q hq => hown q (.tail _ hq)
    unfold dropObjects at hok
    split at hok
    next ho =>
      obtain ⟨borrows₁, h₁, -, hsane₁, -⟩ :=
        h.revokeWhere fun b hb => (BorrowSlot.isOf_iff.1 hb).1
      obtain ⟨_, h₁', hok⟩ := Option.bind_eq_some_iff.1 hok
      obtain ⟨⟨objects₂, borrows₂⟩, h₂, hok⟩ := Option.bind_eq_some_iff.1 hok
      cases hok
      cases h₁.symm.trans h₁'
      refine dropObjects_keeps hl objects objects₂ borrows₁ borrows' hsane₁ ?_ hrest h₂
      refine revokeWhere_keeps (fun a ha => (BorrowSlot.isOf_iff.1 ha).1) hb hl ?_ h₁
      intro a ha hla hreach
      rw [Bool.eq_false_iff]
      intro hof
      have heq := h.bufferId_eq_of_reaches ha hla hb hl hreach
      exact hown o (.head _) ho ((BorrowSlot.isOf_iff.1 hof).2.symm.trans heq)
    next =>
      obtain ⟨⟨objects₂, borrows₂⟩, h₂, hok⟩ := Option.bind_eq_some_iff.1 hok
      cases hok
      exact dropObjects_keeps hl objects objects₂ borrows borrows' h hb hrest h₂

lemma dropContext_keeps (h : Sane r) (hb : b ∈ r.borrows) (hl : b.active = true)
    (hown : ∀ o ∈ r.objects, o.ownedBy ctx = true → o.bufferId ≠ b.bufferId)
    (habove : ∀ a ∈ r.borrows, a.active = true →
      Reaches borrowLinks r.borrows a.borrowId b.borrowId →
      a.lenderContextId ≠ ctx ∧ a.borrowerContextId ≠ ctx)
    (hok : r.dropContext ctx = some r') : b ∈ r'.borrows := by
  unfold dropContext at hok
  split at hok
  · cases hok
    exact hb
  obtain ⟨borrows₁, h₁, -, hsane₁, -⟩ := h.revokeWhere
    (p := fun b => b.active && (b.lenderContextId == ctx || b.borrowerContextId == ctx))
    fun b hb => by simp only [Bool.and_eq_true] at hb; exact hb.1
  obtain ⟨_, h₁', hok⟩ := Option.bind_eq_some_iff.1 hok
  obtain ⟨⟨objects₂, borrows₂⟩, h₂, hok⟩ := Option.bind_eq_some_iff.1 hok
  cases hok
  cases h₁.symm.trans h₁'
  refine dropObjects_keeps hl r.objects objects₂ borrows₁ borrows₂ hsane₁ ?_ hown h₂
  refine revokeWhere_keeps (fun a ha => ?_) hb hl (fun a ha hla hreach => ?_) h₁
  · simp only [Bool.and_eq_true] at ha
    exact ha.1
  · obtain ⟨h₁, h₂⟩ := habove a ha hla hreach
    simp [h₁, h₂]

/-! ### The calls that change a slot in place -/

def ObjectSlot.core (o : ObjectSlot) : ObjectSlot := { o with dma := {} }

def BorrowSlot.core (b : BorrowSlot) : BorrowSlot := { b with dma := {} }

def Registry.core (r : Registry) : Registry :=
  { r with objects := r.objects.map ObjectSlot.core, borrows := r.borrows.map BorrowSlot.core }

lemma stands_core_iff : Stands o.core b.core ↔ Stands o b :=
  ⟨fun ⟨h₁, h₂, h₃, h₄⟩ => ⟨h₁, h₂, h₃, h₄⟩, fun ⟨h₁, h₂, h₃, h₄⟩ => ⟨h₁, h₂, h₃, h₄⟩⟩

lemma grants_core_iff {p b : BorrowSlot} : Grants p.core b.core ↔ Grants p b :=
  ⟨fun ⟨h₁, h₂, h₃, h₄, h₅⟩ => ⟨h₁, h₂, h₃, h₄, h₅⟩,
    fun ⟨h₁, h₂, h₃, h₄, h₅⟩ => ⟨h₁, h₂, h₃, h₄, h₅⟩⟩

lemma sane_core_iff : Sane r.core ↔ Sane r := by
  have hlinked := linked_map_iff (L := borrowLinks) (g := BorrowSlot.core) (s := r.borrows)
    (fun _ => rfl) (fun _ => rfl) fun _ => rfl
  have hranked := fun f => ranked_map_iff (L := borrowLinks) (g := BorrowSlot.core) (f := f)
    (s := r.borrows) (fun _ => rfl) (fun _ => rfl) fun _ => rfl
  simp only [sane_iff, core, pairwise_map, mem_map, exists_exists_and_eq_and, forall_exists_index,
    and_imp, forall_apply_eq_imp_iff₂, stands_core_iff, grants_core_iff, hlinked, hranked]
  rfl

lemma Sane.of_core_eq (h : Sane r) (hc : r'.core = r.core) : Sane r' :=
  sane_core_iff.1 (hc ▸ sane_core_iff.2 h)

lemma core_updateObject {p : ObjectSlot → Bool} {f : ObjectSlot → ObjectSlot}
    (hf : ∀ o, (f o).core = o.core) :
    core { r with objects := updateFirst p f r.objects } = r.core := by
  simp only [core, map_updateFirst hf]

lemma core_updateBorrow {f : BorrowSlot → BorrowSlot} (hf : ∀ b, (f b).core = b.core) :
    core { r with borrows := updateFirst p f r.borrows } = r.core := by
  simp only [core, map_updateFirst hf]

variable {m : DmaMapping} {offset length dir : UInt32}

lemma dmaMapOwned_core
    (hok : r.dmaMapOwned owner offset length dir = .ok (m, r')) : r'.core = r.core := by
  obtain ⟨o, -, -, -, rfl⟩ := dmaMapOwned_ok hok
  exact core_updateObject fun _ => rfl

lemma dmaMapBorrow_core {lent : Borrow}
    (hok : r.dmaMapBorrow lent offset length dir = .ok (m, r')) : r'.core = r.core := by
  obtain ⟨b, o, -, -, -, -, -, -, rfl⟩ := dmaMapBorrow_ok hok
  exact core_updateBorrow fun _ => rfl

lemma dmaUnmap_core (hok : r.dmaUnmap m = .ok (u, r')) : r'.core = r.core := by
  obtain rfl | ⟨-, rfl⟩ | ⟨-, rfl⟩ := dmaUnmap_ok hok
  · rfl
  · exact core_updateBorrow fun _ => rfl
  · exact core_updateObject fun _ => rfl

lemma transferOwnership_sane (h : Sane r) {new : UInt32}
    (hok : r.transferOwnership owner new = .ok (u, r')) : Sane r' := by
  obtain ⟨o, hfind, -, hnew, hidle, rfl⟩ := transferOwnership_ok hok
  constructor
  · exact pairwise_updateFirst (fun a b _ h => h) (fun a b _ h => h) h.objectIds
  · intro a ha hact
    rcases mem_of_mem_updateFirst ha with ha | ⟨b, hb, -, rfl⟩
    · exact h.objectNamed a ha hact
    · exact ⟨(h.objectNamed b hb hact).1, hnew⟩
  · exact h.linked
  · exact h.ranked
  · intro b hb ha
    obtain ⟨q, hq, hg⟩ := h.standing b hb ha
    rcases mem_updateFirst hq with hq' | ⟨-, hq'⟩
    · exact ⟨q, hq', hg⟩
    · exact ⟨_, hq', hg.active, hg.bufferId, hg.lender, hg.borrower⟩
  · exact h.granted
  · exact h.single

end XferBuffer
