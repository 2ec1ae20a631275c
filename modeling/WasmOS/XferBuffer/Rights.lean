import WasmOS.XferBuffer.Slots

/-! # The chain of rights behind every access

Between any two calls each active borrow stands on an active object, hangs from an active borrow its
lender holds, and carries no right its parent lacks. A reborrow may name any grantee, the owner too,
and an id is new only while its last holder is gone.
-/

namespace XferBuffer

open Forest List Registry ObjectSlot

structure Grounds (o : ObjectSlot) (b : BorrowSlot) : Prop where
  active : o.active = true
  bufferId : o.bufferId = b.bufferId
  lender : b.lenderContextId ≠ 0
  borrower : b.borrowerContextId ≠ 0
  notOwner : o.kind = .transfer → b.borrowerContextId ≠ o.ownerContextId

structure Inv (r : Registry) : Prop where
  objectIds : r.objects.Pairwise fun a b =>
    a.active = true → b.active = true → a.bufferId ≠ b.bufferId
  objectNamed : ∀ o ∈ r.objects, o.active = true → o.bufferId ≠ 0 ∧ o.ownerContextId ≠ 0
  linked : Linked borrowLinks r.borrows
  ranked : ∃ f, Ranked borrowLinks f r.borrows
  grounded : ∀ b ∈ r.borrows, b.active = true → ∃ o ∈ r.objects, Grounds o b
  granted : ∀ b ∈ r.borrows, b.active = true → b.parentBorrowId ≠ 0 → ∃ p ∈ r.borrows, Grants p b
  single : r.borrows.Pairwise fun a b => a.active = true → b.active = true →
    ¬ (a.bufferId = b.bufferId ∧ a.borrowerContextId = b.borrowerContextId)

def NoSelfBorrow (r : Registry) : Prop :=
  ∀ o ∈ r.objects, o.active = true → o.kind = .transfer → ∀ b ∈ r.borrows, b.active = true →
    b.bufferId = o.bufferId → b.borrowerContextId ≠ o.ownerContextId

variable {r r' : Registry}

lemma Inv.sane (h : Inv r) : Sane r := { h with
    standing b hb ha := by
      obtain ⟨o, ho, hg⟩ := h.grounded b hb ha
      exact ⟨o, ho, hg.active, hg.bufferId, hg.lender, hg.borrower⟩ }

lemma Inv.noSelfBorrow (h : Inv r) : NoSelfBorrow r := by
  intro o ho ha hkind b hb hba hid
  obtain ⟨o', ho', hg⟩ := h.grounded b hb hba
  obtain rfl := h.sane.object_eq ho ho' ha hg.active (hid.symm.trans hg.bufferId.symm)
  exact hg.notOwner hkind

lemma Sane.inv (h : Sane r) (hself : NoSelfBorrow r) : Inv r := { h with
    grounded b hb ha := by
      obtain ⟨o, ho, hg⟩ := h.standing b hb ha
      exact ⟨o, ho, hg.active, hg.bufferId, hg.lender, hg.borrower,
        fun hkind => hself o ho hg.active hkind b hb ha hg.bufferId.symm⟩ }

lemma NoSelfBorrow.mono (h : NoSelfBorrow r)
    (ho : ∀ o ∈ r'.objects, o.active = true → ∃ o' ∈ r.objects, o'.active = true ∧
      o'.kind = o.kind ∧ o'.bufferId = o.bufferId ∧ o'.ownerContextId = o.ownerContextId)
    (hb : ∀ b ∈ r'.borrows, b.active = true → ∃ b' ∈ r.borrows, b'.active = true ∧
      b'.bufferId = b.bufferId ∧ b'.borrowerContextId = b.borrowerContextId) :
    NoSelfBorrow r' := by
  intro o hom ha hkind b hbm hba hid
  obtain ⟨o', ho', ha', hk', hid', hown'⟩ := ho o hom ha
  obtain ⟨b', hb', hba', hbid', hbor'⟩ := hb b hbm hba
  rw [← hbor', ← hown']
  exact h o' ho' ha' (hk'.trans hkind) b' hb' hba' (hbid'.trans (hid.trans hid'.symm))

lemma inv_empty : Inv .empty := sane_empty.inv (by intro o ho; cases ho)

lemma Inv.borrow_eq (h : Inv r) {a b : BorrowSlot} (ha : a ∈ r.borrows) (hb : b ∈ r.borrows)
    (hla : a.active = true) (hlb : b.active = true) (hbuf : a.bufferId = b.bufferId)
    (hctx : a.borrowerContextId = b.borrowerContextId) : a = b := by
  have : Std.Symm fun a b : BorrowSlot => a.active = true → b.active = true →
      ¬ (a.bufferId = b.bufferId ∧ a.borrowerContextId = b.borrowerContextId) :=
    ⟨fun _ _ h hb ha hab => h ha hb ⟨hab.1.symm, hab.2.symm⟩⟩
  by_contra hne
  exact h.single.forall ha hb hne hla hlb ⟨hbuf, hctx⟩

/-- The owner of the object a borrow binding is of, if binding and object are active. -/
def Registry.upstreamOwner (r : Registry) (upstream : Borrow) : Option UInt32 :=
  (r.borrowFind upstream.borrowId).bind fun up =>
    (r.objectFindById up.bufferId).map ownerContextId

variable {owner : Owner}

lemma acquire_inv (h : Inv r) (hfresh : FreshBufferId r) {host : Host} {kind : Kind}
    {ctx size : UInt32} (hok : r.acquire host kind ctx size = .ok (owner, r')) :
    Inv r' := by
  refine (acquire_sane h.sane hfresh hok).inv ?_
  obtain ⟨-, new, objects, -, hid, -, hplace, rfl⟩ := acquire_ok hok
  intro o ho ha hkind b hb hba hbid
  rcases mem_of_mem_place hplace ho with rfl | ho
  · -- nobody has borrowed the new object yet
    obtain ⟨q, hq, hg⟩ := h.grounded b hb hba
    exact absurd (hg.bufferId.trans (hbid.trans hid))
      (objectFindById_none hfresh.unused hfresh.ne_zero hq hg.active)
  · exact h.noSelfBorrow o ho ha hkind b hb hba hbid

variable {out : Borrow} {grow : Bool}

lemma attachBorrow_noSelfBorrow (h : Inv r) {o : ObjectSlot}
    {parent lender borrower flags : UInt32} (ho : o ∈ r.objects)
    (hactive : o.active = true) (hown : o.kind = .transfer → borrower ≠ o.ownerContextId)
    (hok : r.attachBorrow grow o parent lender borrower flags = .ok (out, r')) :
    NoSelfBorrow r' := by
  obtain ⟨borrows, hplace, rfl⟩ := attachBorrow_ok hok
  intro q hq ha hkind b hb hba hid
  rcases mem_of_mem_place hplace hb with rfl | hb
  · obtain rfl := h.sane.object_eq hq ho ha hactive hid.symm
    exact hown hkind
  · exact h.noSelfBorrow q hq ha hkind b hb hba hid

variable {borrower flags : UInt32}

lemma borrow_inv (h : Inv r) (hfresh : FreshBorrowId r)
        (hok : r.borrow grow owner borrower flags = .ok (out, r')) : Inv r' := by
  refine (borrow_sane h.sane hfresh hok).inv ?_
  obtain ⟨o, hfind, -, hown, -, hattach⟩ := borrow_ok hok
  obtain ⟨ho, hactive, -⟩ := objectFind_some hfind
  exact attachBorrow_noSelfBorrow h ho hactive hown hattach

lemma reborrow_inv (h : Inv r) (hfresh : FreshBorrowId r) {upstream : Borrow}
        (howner : r.upstreamOwner upstream ≠ some borrower)
    (hok : r.reborrow grow upstream borrower flags = .ok (out, r')) : Inv r' := by
  refine (reborrow_sane h.sane hfresh hok).inv ?_
  obtain ⟨up, o, hup, ho, -, -, -, hattach⟩ := reborrow_ok hok
  obtain ⟨hom, hactive, -⟩ := objectFindById_some ho
  refine attachBorrow_noSelfBorrow h hom hactive (fun _ => ?_) hattach
  rintro rfl
  exact howner (by rw [upstreamOwner, hup, Option.bind_some, ho, Option.map_some])

variable {u : Unit}

lemma releaseOwned_inv (h : Inv r) (hok : r.releaseOwned owner = .ok (u, r')) : Inv r' := by
  refine (releaseOwned_sane h.sane hok).inv (h.noSelfBorrow.mono ?_ ?_)
  · obtain ⟨o, -, -, -, rfl⟩ := releaseOwned_ok hok
    intro a ha hact
    rcases mem_of_mem_updateFirst ha with ha | ⟨b, -, -, rfl⟩
    · exact ⟨a, ha, hact, rfl, rfl, rfl⟩
    · cases hact
  · obtain ⟨o, -, -, -, rfl⟩ := releaseOwned_ok hok
    intro b hb hba
    exact ⟨b, (thins_retireAll _ _).mem hb hba, hba, rfl, rfl⟩

lemma NoSelfBorrow.thin {borrows : List BorrowSlot} (h : NoSelfBorrow r)
    (ht : Thins borrowLinks r.borrows borrows) : NoSelfBorrow { r with borrows } :=
  h.mono (fun o ho ha => ⟨o, ho, ha, rfl, rfl, rfl⟩)
    fun b hb hba => ⟨b, ht.mem hb hba, hba, rfl, rfl⟩

lemma unborrow_inv (h : Inv r) (lent : Borrow) :
    ∃ out, r.unborrow lent = some out ∧ Inv (r.after out) := by
  obtain ⟨out, hout, hsane⟩ := unborrow_sane h.sane lent
  refine ⟨out, hout, hsane.inv ?_⟩
  match out, hout with
  | .error _, _ => exact h.noSelfBorrow
  | .ok (_, r'), hout =>
    obtain ⟨b, borrows, -, -, hrevoke, rfl⟩ := unborrow_ok hout
    exact h.noSelfBorrow.thin (revokeTree_thins _ _ _ _ hrevoke)

lemma dropContext_inv (h : Inv r) (ctx : UInt32) : ∃ r', r.dropContext ctx = some r' ∧ Inv r' := by
  obtain ⟨r', hdrop, hsane⟩ := dropContext_sane h.sane ctx
  refine ⟨r', hdrop, hsane.inv ?_⟩
  by_cases hctx : ctx = 0
  · rw [dropContext, if_pos hctx] at hdrop
    cases hdrop
    exact h.noSelfBorrow
  obtain ⟨borrows, hspec, hthin, -⟩ := dropContext_spec h.sane hctx
  cases hspec.symm.trans hdrop
  refine (h.noSelfBorrow.thin hthin).mono (fun o ho ha => ?_) fun b hb hba => ⟨b, hb, hba, rfl, rfl⟩
  obtain ⟨o', ho', rfl⟩ := mem_map.1 ho
  split at ha
  · cases ha
  next hne =>
    rw [if_neg hne]
    exact ⟨o', ho', ha, rfl, rfl, rfl⟩

/-! ### The calls that change a slot in place -/

lemma Inv.of_core_eq (h : Inv r) (hc : r'.core = r.core) : Inv r' := by
  have hobj : r'.objects.map ObjectSlot.core = r.objects.map ObjectSlot.core :=
    congrArg objects hc
  have hbor : r'.borrows.map BorrowSlot.core = r.borrows.map BorrowSlot.core :=
    congrArg borrows hc
  refine (h.sane.of_core_eq hc).inv (h.noSelfBorrow.mono (fun o ho ha => ?_) fun b hb hba => ?_)
  · obtain ⟨o', ho', heq⟩ := mem_map.1 (hobj ▸ mem_map_of_mem ho)
    have hfields := fun {β : Type} (f : ObjectSlot → β) => congrArg f heq
    exact ⟨o', ho', (hfields (·.active)).trans ha, hfields (·.kind), hfields (·.bufferId),
      hfields (·.ownerContextId)⟩
  obtain ⟨b', hb', heq⟩ := mem_map.1 (hbor ▸ mem_map_of_mem hb)
  have hfields := fun {β : Type} (f : BorrowSlot → β) => congrArg f heq
  exact ⟨b', hb', (hfields (·.active)).trans hba, hfields (·.bufferId),
    hfields (·.borrowerContextId)⟩

variable {m : DmaMapping} {offset length dir : UInt32}

lemma dmaMapOwned_inv (h : Inv r)
    (hok : r.dmaMapOwned owner offset length dir = .ok (m, r')) : Inv r' :=
  h.of_core_eq (dmaMapOwned_core hok)

lemma dmaMapBorrow_inv (h : Inv r) {lent : Borrow}
    (hok : r.dmaMapBorrow lent offset length dir = .ok (m, r')) : Inv r' :=
  h.of_core_eq (dmaMapBorrow_core hok)

lemma dmaUnmap_inv (h : Inv r)
    (hok : r.dmaUnmap m = .ok (u, r')) : Inv r' := h.of_core_eq (dmaUnmap_core hok)

lemma transferOwnership_inv (h : Inv r) {new : UInt32}
    (hok : r.transferOwnership owner new = .ok (u, r')) : Inv r' := by
  refine (transferOwnership_sane h.sane hok).inv ?_
  obtain ⟨o, hfind, -, -, hidle, rfl⟩ := transferOwnership_ok hok
  obtain ⟨-, -, hid, -⟩ := objectFind_some hfind
  intro q hq ha hkind b hb hba hbid
  rcases mem_of_mem_updateFirst hq with hq | ⟨q', hq', hbuf, rfl⟩
  · exact h.noSelfBorrow q hq ha hkind b hb hba hbid
  obtain ⟨-, hqid, -⟩ := isBuffer_iff.1 hbuf
  have : r.objectHasActiveBorrow o.bufferId = true :=
    any_eq_true.2 ⟨b, hb, BorrowSlot.isOf_iff.2 ⟨hba, hbid.trans (hqid.trans hid.symm)⟩⟩
  rw [this] at hidle
  cases hidle

/-- A reborrow's grantee is not the owner of the object, and the id counter has not come round to an
id in use. -/
def Call.Careful (r : Registry) : Call → Prop
  | .acquire .. => FreshBufferId r
  | .borrow .. => FreshBorrowId r
  | .reborrow _ upstream borrower _ => FreshBorrowId r ∧ r.upstreamOwner upstream ≠ some borrower
  | _ => True

instance (r : Registry) : (c : Call) → Decidable (c.Careful r)
  | .acquire .. => inferInstanceAs (Decidable (FreshBufferId r))
  | .borrow .. => inferInstanceAs (Decidable (FreshBorrowId r))
  | .reborrow _ upstream borrower _ =>
    inferInstanceAs (Decidable (FreshBorrowId r ∧ r.upstreamOwner upstream ≠ some borrower))
  | .releaseOwned _ | .transferOwnership .. | .unborrow _ | .dmaMapOwned .. | .dmaMapBorrow .. |
    .dmaUnmap _ | .dropContext _ => .isTrue trivial

lemma call_inv (h : Inv r) (c : Call) (hc : c.Careful r) : ∃ r', c.exec r = some r' ∧ Inv r' := by
  cases c with
  | acquire host kind ctx size => exact ⟨_, rfl, after_of_ok h fun _ _ => acquire_inv h hc⟩
  | releaseOwned owner => exact ⟨_, rfl, after_of_ok h fun _ _ => releaseOwned_inv h⟩
  | transferOwnership owner new =>
    exact ⟨_, rfl, after_of_ok h fun _ _ => transferOwnership_inv h⟩
  | borrow grow owner borrower flags => exact ⟨_, rfl, after_of_ok h fun _ _ => borrow_inv h hc⟩
  | reborrow grow up borrower flags =>
    exact ⟨_, rfl, after_of_ok h fun _ _ => reborrow_inv h hc.1 hc.2⟩
  | unborrow lent =>
    obtain ⟨out, hout, hinv⟩ := unborrow_inv h lent
    exact ⟨_, by rw [Call.exec, hout, Option.map_some], hinv⟩
  | dmaMapOwned owner offset length dir =>
    exact ⟨_, rfl, after_of_ok h fun _ _ => dmaMapOwned_inv h⟩
  | dmaMapBorrow lent offset length dir =>
    exact ⟨_, rfl, after_of_ok h fun _ _ => dmaMapBorrow_inv h⟩
  | dmaUnmap m => exact ⟨_, rfl, after_of_ok h fun _ _ => dmaUnmap_inv h⟩
  | dropContext ctx => exact dropContext_inv h ctx

def CarefulRun : Registry → List Event → Prop
  | _, [] => True
  | r, e :: es => (∀ c ∈ e.call r, c.Careful r) ∧ ∀ r' ∈ exec r e, CarefulRun r' es

instance decidableCarefulRun : ∀ (r : Registry) (es : List Event), Decidable (CarefulRun r es)
  | _, [] => isTrue trivial
  | r, e :: es =>
    have : ∀ r', Decidable (CarefulRun r' es) := fun r' => decidableCarefulRun r' es
    inferInstanceAs (Decidable (_ ∧ ∀ r' ∈ exec r e, CarefulRun r' es))

lemma exec_inv (h : Inv r) (e : Event) (he : ∀ c ∈ e.call r, c.Careful r) :
    ∃ r', exec r e = some r' ∧ Inv r' := by
  unfold exec
  split
  · exact ⟨r, rfl, h⟩
  next c hc => exact call_inv h c (he c hc)

lemma run_inv (es : List Event) : ∀ {r : Registry}, Inv r → CarefulRun r es →
    ∃ r', run r es = some r' ∧ Inv r' := by
  induction es with
  | nil => exact fun h _ => ⟨_, rfl, h⟩
  | cons e es ih =>
    intro r h hcare
    obtain ⟨r₁, h₁, hinv₁⟩ := exec_inv h e hcare.1
    obtain ⟨r₂, h₂, hinv₂⟩ := ih hinv₁ (hcare.2 r₁ h₁)
    exact ⟨r₂, by rw [run, h₁, Option.bind_some, h₂], hinv₂⟩

structure ChainOfRights (r : Registry) : Prop where
  object : ∀ b ∈ r.borrows, b.active = true →
    ∃ o ∈ r.objects, o.active = true ∧ o.bufferId = b.bufferId
  parent : ∀ b ∈ r.borrows, b.active = true → b.parentBorrowId ≠ 0 →
    ∃ p ∈ r.borrows, p.active = true ∧ p.borrowId = b.parentBorrowId ∧
      p.bufferId = b.bufferId ∧ p.borrowerContextId = b.lenderContextId ∧
      b.flags &&& p.flags = b.flags
  owner : ∀ o ∈ r.objects, o.active = true → o.kind = .transfer → ∀ b ∈ r.borrows,
    b.active = true → b.bufferId = o.bufferId → b.borrowerContextId ≠ o.ownerContextId
  single : r.borrows.Pairwise fun a b => a.active = true → b.active = true →
    ¬ (a.bufferId = b.bufferId ∧ a.borrowerContextId = b.borrowerContextId)
  access : ∀ (buffer : Buffer) (ctx rights : UInt32), validFlags rights = true →
    (r.canAccess buffer ctx rights = true ↔
      ∃ o ∈ r.objects, o.active = true ∧ o.bufferId = buffer.bufferId ∧ o.kind = buffer.kind ∧
        (o.ownerContextId = ctx ∨ ∃ b ∈ r.borrows, b.active = true ∧ b.bufferId = o.bufferId ∧
          b.borrowerContextId = ctx ∧ b.flags &&& rights = rights))

namespace Inv

lemma objectFind_eq (h : Inv r) {o : ObjectSlot} {buffer : Buffer} (ho : o ∈ r.objects)
    (ha : o.active = true) (hid : o.bufferId = buffer.bufferId) (hkind : o.kind = buffer.kind) :
    r.objectFind buffer = some o := by
  cases hfind : r.objectFind buffer with
  | none =>
    rw [objectFind, if_neg (hid ▸ (h.objectNamed o ho ha).1), find?_eq_none] at hfind
    exact absurd (isBuffer_iff.2 ⟨ha, hid, hkind⟩) (hfind o ho)
  | some o' =>
    obtain ⟨ho', ha', hid', -⟩ := objectFind_some hfind
    rw [h.sane.object_eq ho ho' ha ha' (hid.trans hid'.symm)]

lemma borrowFindFor_eq (h : Inv r) {b : BorrowSlot} (hb : b ∈ r.borrows) (ha : b.active = true) :
    r.borrowFindFor b.bufferId b.borrowerContextId = some b := by
  cases hfind : r.borrowFindFor b.bufferId b.borrowerContextId with
  | none => exact absurd ⟨rfl, rfl⟩ (borrowFindFor_none (by rw [hfind]; rfl) hb ha)
  | some b' =>
    obtain ⟨hb', ha', hid, hctx⟩ := borrowFindFor_some hfind
    rw [h.borrow_eq hb hb' ha ha' hid.symm hctx.symm]

lemma canAccess_iff (h : Inv r) (buffer : Buffer) (ctx rights : UInt32)
    (hr : validFlags rights = true) : r.canAccess buffer ctx rights = true ↔
      ∃ o ∈ r.objects, o.active = true ∧ o.bufferId = buffer.bufferId ∧ o.kind = buffer.kind ∧
        (o.ownerContextId = ctx ∨ ∃ b ∈ r.borrows, b.active = true ∧ b.bufferId = o.bufferId ∧
          b.borrowerContextId = ctx ∧ b.flags &&& rights = rights) := by
  constructor
  · intro hacc
    unfold canAccess at hacc
    split at hacc
    · cases hacc
    next o hfind =>
    obtain ⟨ho, ha, hid, hkind⟩ := objectFind_some hfind
    refine ⟨o, ho, ha, hid, hkind, ?_⟩
    split at hacc
    · cases hacc
    split at hacc
    next hown => exact .inl hown
    split at hacc
    · cases hacc
    next b hb =>
    obtain ⟨hbm, hba, hbid, hbctx⟩ := borrowFindFor_some hb
    exact .inr ⟨b, hbm, hba, hbid, hbctx, by simpa using hacc⟩
  · rintro ⟨o, ho, ha, hid, hkind, hgrant⟩
    have hctx : ctx ≠ 0 := by
      rcases hgrant with rfl | ⟨b, hb, hba, -, rfl, -⟩
      · exact (h.objectNamed o ho ha).2
      · obtain ⟨_, -, hg⟩ := h.grounded b hb hba
        exact hg.borrower
    simp only [canAccess, h.objectFind_eq ho ha hid hkind]
    rw [if_neg (by simp [hctx, hr])]
    split
    · rfl
    next hown =>
      rcases hgrant with hown' | ⟨b, hb, hba, hbid, rfl, hf⟩
      · exact absurd hown' hown
      · rw [← hbid, h.borrowFindFor_eq hb hba]
        simpa using hf

lemma chainOfRights (h : Inv r) : ChainOfRights r where
  object b hb ha := by
    obtain ⟨o, ho, hg⟩ := h.grounded b hb ha
    exact ⟨o, ho, hg.active, hg.bufferId⟩
  parent b hb ha hp := by
    obtain ⟨p, hpm, hg⟩ := h.granted b hb ha hp
    exact ⟨p, hpm, hg.active, hg.borrowId, hg.bufferId, hg.lender, hg.flags⟩
  owner := h.noSelfBorrow
  single := h.single
  access := h.canAccess_iff

end Inv

/-- Every careful run returns from all its calls and leaves access backed by an unbroken chain of
rights. -/
theorem chain_of_rights (es : List Event) (hcare : CarefulRun .empty es) :
    ∃ r, run .empty es = some r ∧ ChainOfRights r := by
  obtain ⟨r, hr, hinv⟩ := run_inv es inv_empty hcare
  exact ⟨r, hr, hinv.chainOfRights⟩

/-- Context 1 lends a buffer to context 2, which passes the read right on to context 3;
then context 1 takes the loan back. -/
def lendAndRecall : List Event :=
  [.host (.acquire freePages (some 1) .transfer 100),
   .host (.borrow true (some 1) .transfer (some 2) 1 3),
   .host (.reborrow true (some 2) .transfer (some 3) 1 1), .host (.unborrow (some 1) 1)]

theorem chain_of_rights_lendAndRecall :
    CarefulRun .empty lendAndRecall ∧ ∃ r, run .empty lendAndRecall = some r ∧ ChainOfRights r :=
  ⟨by decide +kernel, chain_of_rights lendAndRecall (by decide +kernel)⟩

def lendBackToOwner : List Event :=
  [.host (.acquire freePages (some 1) .transfer 100),
   .host (.borrow true (some 1) .transfer (some 2) 1 3),
   .host (.reborrow true (some 2) .transfer (some 1) 1 1)]

/-- `reborrow` does not make the check for the owner that `borrow` makes. -/
theorem lendBackToOwner_not_chain :
    ∃ r, run .empty lendBackToOwner = some r ∧ ¬ ChainOfRights r := by
  have hrun : ∃ r, run .empty lendBackToOwner = some r ∧ ∃ o ∈ r.objects, o.active = true ∧
      o.kind = .transfer ∧ ∃ b ∈ r.borrows, b.active = true ∧ b.bufferId = o.bufferId ∧
        b.borrowerContextId = o.ownerContextId := by
    decide +kernel
  obtain ⟨r, hr, o, ho, ha, hkind, b, hb, hba, hid, hctx⟩ := hrun
  exact ⟨r, hr, fun h => h.owner o ho ha hkind b hb hba hid hctx⟩

end XferBuffer
