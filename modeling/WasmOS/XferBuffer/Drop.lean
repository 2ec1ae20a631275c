import Mathlib.Algebra.Order.Ring.Nat
import WasmOS.XferBuffer.Slots

/-! # Dropping a context

The drop of a context walks the borrow list while the cascades it starts retire slots of that list.
Over the registry it found, it takes the objects of the context, and every borrow that derives from
one the context lent or holds or from one of its objects. An id names one slot as long as the
counter it comes from has not come round.
-/

namespace XferBuffer

open Forest List Registry Option UInt32

def ObjectSlot.backing (o : ObjectSlot) : UInt64 × UInt64 :=
  (o.physBase, (o.sizeBytes.toUInt64 + pageSize.toUInt64 - 1) / pageSize.toUInt64)

def objectFreeBacking (o : ObjectSlot) : List (UInt64 × UInt64) :=
  if o.kind = .transfer ∧ o.physBase ≠ 0 then [o.backing] else []

namespace Registry

def dropObjectsFreeing (contextId : UInt32) : List ObjectSlot → List BorrowSlot →
    Option (List ObjectSlot × List BorrowSlot × List (UInt64 × UInt64))
  | [], borrows => some ([], borrows, [])
  | o :: objects, borrows =>
    if o.active && o.ownerContextId == contextId then do
      let borrows ← revokeWhere (·.isOf o.bufferId) borrows
      let (objects, borrows, freed) ← dropObjectsFreeing contextId objects borrows
      pure ({ o with active := false } :: objects, borrows, objectFreeBacking o ++ freed)
    else do
      let (objects, borrows, freed) ← dropObjectsFreeing contextId objects borrows
      pure (o :: objects, borrows, freed)

def dropContextFreeing (r : Registry) (contextId : UInt32) :
    Option (Registry × List (UInt64 × UInt64)) :=
  if contextId = 0 then some (r, [])
  else do
    let borrows ← revokeWhere (fun b => b.active &&
      (b.lenderContextId == contextId || b.borrowerContextId == contextId)) r.borrows
    let (objects, borrows, freed) ← dropObjectsFreeing contextId r.objects borrows
    pure ({ r with objects, borrows }, freed)

end Registry

def backings (ctx : UInt32) (objects : List ObjectSlot) : List (UInt64 × UInt64) :=
  (objects.filter fun o => o.ownedBy ctx && (o.kind == .transfer && o.physBase != 0)).map
    ObjectSlot.backing

lemma dropObjectsFreeing_eq (ctx : UInt32) (objects : List ObjectSlot) :
    ∀ borrows, dropObjectsFreeing ctx objects borrows =
      (dropObjects ctx objects borrows).map fun p => (p.1, p.2, backings ctx objects) := by
  induction objects with
  | nil => exact fun _ => rfl
  | cons o objects ih =>
    intro borrows
    have hown : o.ownedBy ctx = (o.active && o.ownerContextId == ctx) := rfl
    unfold dropObjectsFreeing dropObjects
    split
    next ho =>
      have hfree : backings ctx (o :: objects) = objectFreeBacking o ++ backings ctx objects := by
        by_cases hframes : o.kind = .transfer ∧ o.physBase ≠ 0
        · simp [backings, objectFreeBacking, hown ▸ ho, hframes]
        · simp only [backings, objectFreeBacking, if_neg hframes, nil_append]
          rw [filter_cons_of_neg (by simpa [hown ▸ ho] using hframes)]
      cases revokeWhere (·.isOf o.bufferId) borrows with
      | none => rfl
      | some borrows =>
        simp only [bind_eq_bind, bind_some, ih, hfree]
        cases dropObjects ctx objects borrows <;> rfl
    next ho =>
      have hfree : backings ctx (o :: objects) = backings ctx objects := by
        simp [backings, hown ▸ ho]
      simp only [bind_eq_bind, ih, hfree]
      cases dropObjects ctx objects borrows <;> rfl

lemma dropContextFreeing_eq (r : Registry) {ctx : UInt32} (hctx : ctx ≠ 0) :
    r.dropContextFreeing ctx = (r.dropContext ctx).map fun r' => (r', backings ctx r.objects) := by
  unfold dropContextFreeing dropContext
  rw [if_neg hctx, if_neg hctx]
  cases revokeWhere _ r.borrows with
  | none => rfl
  | some borrows =>
    simp only [bind_eq_bind, bind_some, dropObjectsFreeing_eq]
    cases dropObjects ctx r.objects borrows <;> rfl

/-- The id counters have not come round to 0 or to an id still in use. -/
def Call.Fresh (r : Registry) : Call → Prop
  | .acquire .. => FreshBufferId r
  | .borrow .. | .reborrow .. => FreshBorrowId r
  | _ => True

instance (r : Registry) : (c : Call) → Decidable (c.Fresh r)
  | .acquire .. => inferInstanceAs (Decidable (FreshBufferId r))
  | .borrow .. | .reborrow .. => inferInstanceAs (Decidable (FreshBorrowId r))
  | .releaseOwned _ | .transferOwnership .. | .unborrow _ | .dmaMapOwned .. | .dmaMapBorrow .. |
    .dmaUnmap _ | .dropContext _ => .isTrue trivial

def FreshRun : Registry → List Event → Prop
  | _, [] => True
  | r, e :: es => (∀ c ∈ e.call r, c.Fresh r) ∧ ∀ r' ∈ exec r e, FreshRun r' es

instance decidableFreshRun : ∀ (r : Registry) (es : List Event), Decidable (FreshRun r es)
  | _, [] => isTrue trivial
  | r, e :: es =>
    have : ∀ r', Decidable (FreshRun r' es) := fun r' => decidableFreshRun r' es
    inferInstanceAs (Decidable (_ ∧ ∀ r' ∈ exec r e, FreshRun r' es))

variable {r r' : Registry} {ctx : UInt32}

lemma call_sane (h : Sane r) (c : Call) (hc : c.Fresh r) : ∃ r', c.exec r = some r' ∧ Sane r' := by
  cases c with
  | acquire => exact ⟨_, rfl, after_of_ok h fun _ _ => acquire_sane h hc⟩
  | releaseOwned => exact ⟨_, rfl, after_of_ok h fun _ _ => releaseOwned_sane h⟩
  | transferOwnership => exact ⟨_, rfl, after_of_ok h fun _ _ => transferOwnership_sane h⟩
  | borrow => exact ⟨_, rfl, after_of_ok h fun _ _ => borrow_sane h hc⟩
  | reborrow => exact ⟨_, rfl, after_of_ok h fun _ _ => reborrow_sane h hc⟩
  | unborrow lent =>
    obtain ⟨out, hout, hsane⟩ := unborrow_sane h lent
    exact ⟨_, by rw [Call.exec, hout, map_some], hsane⟩
  | dmaMapOwned =>
    exact ⟨_, rfl, after_of_ok h fun _ _ hok => h.of_core_eq (dmaMapOwned_core hok)⟩
  | dmaMapBorrow =>
    exact ⟨_, rfl, after_of_ok h fun _ _ hok => h.of_core_eq (dmaMapBorrow_core hok)⟩
  | dmaUnmap => exact ⟨_, rfl, after_of_ok h fun _ _ hok => h.of_core_eq (dmaUnmap_core hok)⟩
  | dropContext ctx => exact dropContext_sane h ctx

lemma run_sane (es : List Event) : ∀ {r : Registry}, Sane r → FreshRun r es →
    ∃ r', run r es = some r' ∧ Sane r' := by
  induction es with
  | nil => exact fun h _ => ⟨_, rfl, h⟩
  | cons e es ih =>
    intro r h hfresh
    have hexec : ∃ r₁, exec r e = some r₁ ∧ Sane r₁ := by
      unfold exec
      split
      · exact ⟨r, rfl, h⟩
      next c hc => exact call_sane h c (hfresh.1 c hc)
    obtain ⟨r₁, h₁, hsane₁⟩ := hexec
    obtain ⟨r₂, h₂, hsane₂⟩ := ih hsane₁ (hfresh.2 r₁ h₁)
    exact ⟨r₂, by rw [run, h₁, bind_some, h₂], hsane₂⟩

/-- The borrow derives from one that the context lent or holds, or that is of an object of the
context. -/
def Falls (r : Registry) (ctx : UInt32) (b : BorrowSlot) : Prop :=
  ∃ a ∈ r.borrows, a.active = true ∧ Reaches borrowLinks r.borrows a.borrowId b.borrowId ∧
    (a.lenderContextId = ctx ∨ a.borrowerContextId = ctx ∨
      ∃ o ∈ r.objects, o.ownedBy ctx = true ∧ o.bufferId = a.bufferId)

/-- The drop took the context's objects, freeing the pages of each once, and the borrows that fall
with it; every other slot is as it was. -/
structure DroppedExactly (r : Registry) (ctx : UInt32) (r' : Registry)
    (freed : List (UInt64 × UInt64)) : Prop where
  unowned : ∀ o ∈ r'.objects, o.ownedBy ctx = false
  fallen : ∀ b ∈ r'.borrows, b.active = true → ¬ Falls r' ctx b
  objects : r'.objects = r.objects.map fun o =>
    if o.ownedBy ctx then { o with active := false } else o
  borrows : ∀ (i : ℕ) (b : BorrowSlot), b.active = true →
    (r'.borrows[i]? = some b ↔ r.borrows[i]? = some b ∧ ¬ Falls r ctx b)
  frames : freed = backings ctx r.objects
  counters : r'.nextBufferId = r.nextBufferId ∧ r'.nextBorrowId = r.nextBorrowId

lemma DroppedExactly.of_mem (h : Sane r) {borrows : List BorrowSlot}
    (hthin : Thins borrowLinks r.borrows borrows)
    (hmem : ∀ b ∈ r.borrows, b.active = true → (b ∈ borrows ↔ ¬ Falls r ctx b)) :
    DroppedExactly r ctx { r with
      objects := r.objects.map fun o => if o.ownedBy ctx then { o with active := false } else o
      borrows } (backings ctx r.objects) := by
  have hunowned : ∀ o ∈ r.objects.map fun o => if o.ownedBy ctx then { o with active := false }
      else o, o.ownedBy ctx = false := by
    intro o ho
    obtain ⟨q, -, rfl⟩ := mem_map.1 ho
    split
    · rfl
    next hne => simpa using hne
  refine ⟨hunowned, ?_, rfl, fun i b ha => ⟨fun hb => ?_, fun hb => ?_⟩, rfl, rfl, rfl⟩
  · rintro b - - ⟨a, ham, haa, -, hwhy⟩
    refine (hmem a (hthin.mem ham haa) haa).1 ham ⟨a, hthin.mem ham haa, haa, .here, ?_⟩
    obtain hl | hb | ⟨o, ho, hown, -⟩ := hwhy
    · exact .inl hl
    · exact .inr (.inl hb)
    · rw [hunowned o ho] at hown
      cases hown
  · have hold := hthin.kept i b hb ha
    exact ⟨hold, (hmem b (mem_of_getElem? hold) ha).1 (mem_of_getElem? hb)⟩
  -- the slot is still somewhere, and ids are unique, so it is where it was
  obtain ⟨j, hj⟩ := mem_iff_getElem?.1 ((hmem b (mem_of_getElem? hb.1) ha).2 hb.2)
  have hji := hthin.kept j b hj ha
  obtain ⟨hilt, hi⟩ := List.getElem?_eq_some_iff.1 hb.1
  obtain ⟨hjlt, hj'⟩ := List.getElem?_eq_some_iff.1 hji
  have hunique := List.pairwise_iff_getElem.1 h.linked.unique
  rcases lt_trichotomy i j with hlt | rfl | hlt
  · have := hunique i j hilt hjlt hlt
    rw [hi, hj'] at this
    exact absurd rfl (this ha ha)
  · exact hj
  have := hunique j i hjlt hilt hlt
  rw [hi, hj'] at this
  exact absurd rfl (this ha ha)

lemma not_ownedBy_zero (h : Sane r) {o : ObjectSlot} (ho : o ∈ r.objects) :
    o.ownedBy 0 = false := by
  rw [Bool.eq_false_iff]
  intro hown
  simp only [ObjectSlot.ownedBy, Bool.and_eq_true, beq_iff_eq] at hown
  exact (h.objectNamed o ho hown.1).2 hown.2

lemma not_falls_zero (h : Sane r) (b : BorrowSlot) : ¬ Falls r 0 b := by
  rintro ⟨a, ha, hla, -, hwhy⟩
  obtain ⟨_, -, hstands⟩ := h.standing a ha hla
  obtain hlend | hhold | ⟨o, ho, hown, -⟩ := hwhy
  · exact hstands.lender hlend
  · exact hstands.borrower hhold
  · rw [not_ownedBy_zero h ho] at hown
    cases hown

lemma Sane.droppedExactly (h : Sane r) (ctx : UInt32) :
    ∃ r' freed, r.dropContextFreeing ctx = some (r', freed) ∧ DroppedExactly r ctx r' freed := by
  by_cases hctx : ctx = 0
  · subst hctx
    have hspec := DroppedExactly.of_mem h (Thins.refl r.borrows)
      fun b hb _ => iff_of_true hb (not_falls_zero h b)
    have hmap : (r.objects.map fun o => if o.ownedBy 0 then { o with active := false } else o) =
        r.objects := by
      refine (map_congr_left fun o ho => if_neg ?_).trans (map_id' _)
      simp [not_ownedBy_zero h ho]
    have hfree : backings 0 r.objects = [] := by
      rw [backings, filter_eq_nil_iff.2, map_nil]
      intro o ho
      simp [not_ownedBy_zero h ho]
    rw [hmap, hfree] at hspec
    exact ⟨r, [], rfl, hspec⟩
  · obtain ⟨borrows, hdrop, hthin, hsane, hobj, hlent⟩ := dropContext_spec h hctx
    refine ⟨_, backings ctx r.objects, by rw [dropContextFreeing_eq r hctx, hdrop]; rfl, ?_⟩
    refine DroppedExactly.of_mem h hthin fun b hb hl => ⟨?_, fun hkeep => ?_⟩
    · rintro hbm ⟨a, ha, hla, hreach, hwhy⟩
      have ham := hthin.mem_of_reaches h.linked hsane.linked ha hla hbm hl hreach
      obtain hlend | hhold | ⟨o, ho, hown, hid⟩ := hwhy
      · exact (hlent a ham hla).1 hlend
      · exact (hlent a ham hla).2 hhold
      · exact hobj o ho hown a ham hla hid.symm
    have := dropContext_keeps h hb hl
      (fun o ho hown hid => hkeep ⟨b, hb, hl, .here, .inr (.inr ⟨o, ho, hown, hid⟩)⟩)
      (fun a ha hla hreach => ⟨fun heq => hkeep ⟨a, ha, hla, hreach, .inl heq⟩,
        fun heq => hkeep ⟨a, ha, hla, hreach, .inr (.inl heq)⟩⟩) hdrop
    exact this

/-- After any run of calls whose id counters were fresh, the drop of any context returns and takes
exactly what is the context's. -/
theorem drop_exact (es : List Event) (hfresh : FreshRun .empty es) (ctx : UInt32) :
    ∃ r r' freed, run .empty es = some r ∧ r.dropContextFreeing ctx = some (r', freed) ∧
      DroppedExactly r ctx r' freed := by
  obtain ⟨r, hr, hsane⟩ := run_sane es sane_empty hfresh
  obtain ⟨r', freed, hdrop, hexact⟩ := hsane.droppedExactly ctx
  exact ⟨r, r', freed, hr, hdrop, hexact⟩

def lendOn : List Event :=
  [.host (.acquire freePages (some 1) .transfer 100),
   .host (.borrow true (some 1) .transfer (some 2) 1 3),
   .host (.reborrow true (some 2) .transfer (some 3) 1 1)]

theorem drop_exact_lendOn : FreshRun .empty lendOn ∧
    ∃ r r' freed, run .empty lendOn = some r ∧ r.dropContextFreeing 2 = some (r', freed) ∧
      DroppedExactly r 2 r' freed := ⟨by decide +kernel, drop_exact lendOn (by decide +kernel) 2⟩

/-- One buffer of context 1 that was lent to context 2 as borrow `id`, still or no longer. -/
def lentOnce (live : Bool) (id : UInt32) : Registry :=
  ⟨[⟨true, .transfer, 1, 4096, 1, 0x10000, {}⟩],
    [⟨live, id, 0, 1, .transfer, 1, 2, 1, {}⟩], 2, id + 1⟩

def lendTwo : Event := .kernel (.borrow true ⟨⟨.transfer, 1, 4096⟩, 1⟩ 2 1)

def takeBack (id : UInt32) : Event := .kernel (.unborrow ⟨⟨.transfer, 1, 4096⟩, 1, 2, 1, id⟩)

lemma exec_lendTwo (id : UInt32) :
    exec (lentOnce false id) lendTwo = some (lentOnce true (id + 1)) := rfl

lemma exec_takeBack {id : UInt32} (hid : id ≠ 0) :
    exec (lentOnce true id) (takeBack id) = some (lentOnce false id) := by
  simp [exec, takeBack, Event.call, Call.exec, Registry.unborrow, Registry.borrowFind, lentOnce,
    hid, BorrowSlot.hasId, borrowRevokeTree, revokeTree, sweep, Links.hangs, borrowLinks,
    updateFirst, Links.named, Registry.after, hid.symm]

lemma run_lendings : ∀ n < 2 ^ 32 - 1, run (lentOnce false 1)
        ((List.range n).flatMap fun i => [lendTwo, takeBack (ofNat (i + 2))]) =
      some (lentOnce false (ofNat (n + 1))) := by
  intro n hn
  induction n with
  | zero => rfl
  | succ n ih =>
    have hnext : ofNat (n + 1) + 1 = ofNat (n + 2) := (ofNat_add _ 1).symm
    have hne : ofNat (n + 2) ≠ 0 := by
      intro h
      have := congrArg toNat h
      rw [toNat_ofNat_of_lt' (show n + 2 < 2 ^ 32 by omega)] at this
      cases this
    rw [range_succ, flatMap_append, run_append, ih (by omega), bind_some,
      flatMap_singleton, run, exec_lendTwo, bind_some, hnext, run, exec_takeBack hne]
    rfl

lemma run_wrapped : ∃ es, run .empty es = some (lentOnce true 0) := by
  have hstart : run .empty [.kernel (.acquire freePages .transfer 1 4096), lendTwo, takeBack 1] =
      some (lentOnce false 1) := by decide +kernel
  refine ⟨[.kernel (.acquire freePages .transfer 1 4096), lendTwo, takeBack 1] ++
    ((List.range (2 ^ 32 - 2)).flatMap fun i => [lendTwo, takeBack (ofNat (i + 2))]) ++
    [lendTwo], ?_⟩
  rw [run_append, run_append, hstart, bind_some, run_lendings _ (by decide),
    bind_some, run, exec_lendTwo]
  rfl

/-- The borrow with id 0 hangs from itself: the cascade that revokes it never ends. -/
theorem drop_wrapped_not_exact : ∃ es r, run .empty es = some r ∧
    ¬ ∃ r' freed, r.dropContextFreeing 2 = some (r', freed) ∧ DroppedExactly r 2 r' freed := by
  obtain ⟨es, hrun⟩ := run_wrapped
  have hstuck : (lentOnce true 0).dropContextFreeing 2 = none := by decide +kernel
  refine ⟨es, _, hrun, ?_⟩
  rintro ⟨r', freed, hdrop, -⟩
  cases hstuck.symm.trans hdrop

open Forest

/-- The ids of the active slots tell them apart, and revoking a borrow takes only that borrow and
those derived from it. -/
structure Identified (r : Registry) : Prop where
  objects : r.objects.Pairwise fun o p =>
    o.active = true → p.active = true → o.bufferId ≠ p.bufferId
  borrows : r.borrows.Pairwise fun b c =>
    b.active = true → c.active = true → b.borrowId ≠ c.borrowId
  buffer_ne_zero : ∀ o ∈ r.objects, o.active = true → o.bufferId ≠ 0
  borrow_ne_zero : ∀ b ∈ r.borrows, b.active = true → b.borrowId ≠ 0
  revokes : ∀ b ∈ r.borrows, b.active = true →
    ∃ left, borrowRevokeTree b.borrowId r.borrows = some left ∧ ∀ c ∈ r.borrows, c.active = true →
        ¬ Reaches borrowLinks r.borrows b.borrowId c.borrowId → c ∈ left

lemma Sane.identified {r : Registry} (h : Sane r) : Identified r where
  objects := h.objectIds
  borrows := h.linked.unique
  buffer_ne_zero o ho ha := (h.objectNamed o ho ha).1
  borrow_ne_zero := h.linked.keyed
  revokes b hb ha := by
    obtain ⟨left, hleft, -⟩ := h.revokeTree (h.linked.keyed b hb ha)
    exact ⟨left, hleft, revokeTree_keeps _ _ _ _ hleft⟩

/-- In every run that takes its ids from fresh counters, ids identify. -/
theorem ids_identify (es : List Event) (hfresh : FreshRun .empty es) :
    ∃ r, run .empty es = some r ∧ Identified r := by
  obtain ⟨r, hr, hsane⟩ := run_sane es sane_empty hfresh
  exact ⟨r, hr, hsane.identified⟩

theorem ids_identify_lendOn : FreshRun .empty lendOn ∧
    ∃ r, run .empty lendOn = some r ∧ Identified r :=
  ⟨by decide +kernel, ids_identify lendOn (by decide +kernel)⟩

/-- Once the borrow counter has come round, a borrow is active under the id 0. -/
theorem borrow_zero_issued : ∃ es r, run .empty es = some r ∧ ¬ Identified r := by
  obtain ⟨es, hrun⟩ := run_wrapped
  refine ⟨es, _, hrun, fun h => ?_⟩
  exact h.borrow_ne_zero _ (List.mem_singleton.2 rfl) rfl rfl

end XferBuffer
