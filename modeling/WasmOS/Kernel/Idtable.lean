import Mathlib.Data.List.ReduceOption
import Mathlib.Order.Interval.Finset.Nat

/-! # Id tables

`idtable.c` over the chunked store of `list_array_chunk.c`. Before the id counter wraps, every id
it gives is new; from then on each is looked for among the live elements.
-/

open List

namespace Idtable

/-- `IDTABLE_ID_NONE`. -/
def idNone : ℕ := 0xFFFFFFFF

structure Header where
  id : ℕ
  owner : ℕ
  deriving DecidableEq

inductive Status | full | noEnt
  deriving DecidableEq

/-- The slots of all chunks, the newest chunk first. -/
abbrev Store := List (Option Header)

namespace Store

def live (slots : Store) : List Header := slots.reduceOption

/-- Whether `list_alloc` finds a slot; `room` is the answer to its request for a new chunk. -/
def hasRoom (slots : Store) (capacity : ℕ) (room : Bool) : Bool :=
  capacity ≠ 0 && (none ∈ slots || room)

/-- The slot `list_alloc` finds, filled. -/
def alloc (slots : Store) (capacity : ℕ) (e : Header) : Store :=
  if none ∈ slots then slots.replace none (some e)
  else some e :: replicate (capacity - 1) none ++ slots

/-- `list_remove` of the first element with `p`. -/
def remove (p : Header → Bool) : Store → Store
  | [] => []
  | none :: slots => none :: remove p slots
  | some e :: slots => if p e then none :: slots else some e :: remove p slots

lemma live_remove (p : Header → Bool) (slots : Store) :
    live (remove p slots) = (live slots).eraseP p := by
  induction slots with
  | nil => rfl
  | cons x slots ih =>
    cases x with
    | none => exact ih
    | some e => by_cases hp : p e <;> simp_all [remove, live]

/-- The loop of `idtable_release_owner`: the elements the callback runs on, and the rest. -/
def releaseAll (p : Header → Bool) (slots : Store) : List Header × Store :=
  match _h : (live slots).find? p with
  | none => ([], slots)
  | some e =>
    let r := releaseAll p (remove p slots)
    (e :: r.1, r.2)
termination_by (live slots).length
decreasing_by
  have hlen := length_eraseP_of_mem (mem_of_find?_eq_some _h) (find?_some _h)
  have hpos := length_pos_of_mem (mem_of_find?_eq_some _h)
  rw [live_remove]
  omega

lemma releaseAll_spec (p : Header → Bool) (slots : Store) :
    (releaseAll p slots).1 = (live slots).filter p ∧
      live (releaseAll p slots).2 = (live slots).filter (!p ·) := by
  fun_induction releaseAll p slots with
  | case1 slots hnone =>
    rw [find?_eq_none] at hnone
    exact ⟨(filter_eq_nil_iff.2 hnone).symm, (filter_eq_self.2 (by simpa using hnone)).symm⟩
  | case2 slots e hfind r ih =>
    obtain ⟨hpe, as, bs, heq, has⟩ := find?_eq_some_iff_append.1 hfind
    rw [live_remove, heq, eraseP_append_right _ (by simpa using has)] at ih
    have has' : as.filter p = [] := filter_eq_nil_iff.2 (by simpa using has)
    rw [heq, filter_append, filter_append, filter_cons_of_pos hpe, has',
      filter_cons_of_neg (by simpa)]
    rw [eraseP_cons_of_pos hpe, filter_append, filter_append, has'] at ih
    exact ⟨congrArg (e :: ·) ih.1, ih.2⟩

lemma live_alloc (slots : Store) (capacity : ℕ) (e : Header) :
    live (slots.alloc capacity e) ~ e :: live slots := by
  rw [Store.alloc]
  split_ifs with hnone
  · induction slots with
    | nil => cases hnone
    | cons x slots ih =>
      cases x with
      | none => simp [live]
      | some y =>
        have hswap := ((ih (by simpa using hnone)).cons y).trans (.swap e y _)
        simpa [live, replace_cons] using hswap
  · simp [live, reduceOption_append]

end Store

structure Table where
  store : Store
  nextId : ℕ
  wrapped : Bool
  perOwnerMax : ℕ
  chunkCapacity : ℕ

/-- The counter after `id`, and whether it has wrapped. -/
def advance (id : ℕ) (wrapped : Bool) : ℕ × Bool :=
  if (id + 1) % 2 ^ 32 = idNone then (1, true) else ((id + 1) % 2 ^ 32, wrapped)

/-- `idtable_alloc_id` from `id` on; none if `fuel` rounds do not end it. -/
def allocId (taken : ℕ → Bool) : (fuel id : ℕ) → (wrapped : Bool) → Option (ℕ × ℕ × Bool)
  | 0, _, _ => none
  | fuel + 1, id, wrapped =>
    let next := advance id wrapped
    if id = 0 ∨ id = idNone then allocId taken fuel next.1 next.2
    else if !next.2 || !taken id then some (id, next)
    else allocId taken fuel next.1 next.2

namespace Table

variable (t : Table)

abbrev live : List Header := t.store.live

def idTaken (id : ℕ) : Bool := t.live.any (·.id == id)

def countForOwner (owner : ℕ) : ℕ := t.live.countP (·.owner == owner) % 2 ^ 32

/-- `idtable_alloc`; none if `fuel` rounds do not find an id. -/
def alloc (fuel owner : ℕ) (room : Bool) : Option (Table × Except Status ℕ) :=
  if t.perOwnerMax ≠ 0 ∧ t.perOwnerMax ≤ t.countForOwner owner then some (t, .error .full)
  else if !t.store.hasRoom t.chunkCapacity room then some (t, .error .full)
  else
    (allocId t.idTaken fuel t.nextId t.wrapped).map fun (id, next, wrapped) =>
      ({ t with
          store := t.store.alloc t.chunkCapacity ⟨id, owner⟩
          nextId := next
          wrapped := wrapped }, .ok id)

def get (id : ℕ) : Option Header :=
  if id = 0 ∨ id = idNone then none else t.live.find? (·.id == id)

def free (id : ℕ) : Table × Except Status Unit :=
  match t.get id with
  | none => (t, .error .noEnt)
  | some _ => ({ t with store := t.store.remove (·.id == id) }, .ok ())

def releaseOwner (owner : ℕ) : List Header × Table :=
  let r := t.store.releaseAll (·.owner == owner)
  (r.1, { t with store := r.2 })

end Table

inductive Reaches (perOwnerMax capacity : ℕ) : Table → Prop
  | init : Reaches perOwnerMax capacity ⟨[], 1, false, perOwnerMax, capacity⟩
  | alloc {t : Table} {r : Table × Except Status ℕ} (fuel owner : ℕ) (room : Bool) :
    Reaches perOwnerMax capacity t → t.alloc fuel owner room = some r →
      Reaches perOwnerMax capacity r.1
  | free {t : Table} (id : ℕ) :
    Reaches perOwnerMax capacity t → Reaches perOwnerMax capacity (t.free id).1
  | release {t : Table} (owner : ℕ) :
    Reaches perOwnerMax capacity t → Reaches perOwnerMax capacity (t.releaseOwner owner).2

abbrev IsId (id : ℕ) : Prop := 0 < id ∧ id < idNone

structure Valid (t : Table) : Prop where
  next : IsId t.nextId
  ids : ∀ e ∈ t.live, IsId e.id
  nodup : (t.live.map Header.id).Nodup
  fresh : t.wrapped = false → ∀ e ∈ t.live, e.id < t.nextId
  quota : ∀ owner, t.perOwnerMax ≠ 0 → t.live.countP (·.owner == owner) ≤ t.perOwnerMax

lemma IsId.advance {n : ℕ} (hn : IsId n) (w : Bool) :
    advance n w = (1, true) ∧ n + 1 = idNone ∨ advance n w = (n + 1, w) ∧ n + 1 < idNone := by
  obtain ⟨hpos, hlt⟩ := hn
  rw [Idtable.advance, Nat.mod_eq_of_lt (by unfold idNone at hlt; omega)]
  split_ifs with hwrap
  · exact .inl ⟨rfl, hwrap⟩
  · exact .inr ⟨rfl, by omega⟩

variable {taken : ℕ → Bool} {fuel n : ℕ}

lemma allocId_succ {w : Bool} (hn : IsId n) : allocId taken (fuel + 1) n w =
      if !(advance n w).2 || !taken n then some (n, advance n w)
      else allocId taken fuel (advance n w).1 (advance n w).2 := by
  have hid : ¬ (n = 0 ∨ n = idNone) := by
    have := hn.2
    have := hn.1
    omega
  rw [allocId, if_neg hid]

lemma allocId_some {w : Bool} {r : ℕ × ℕ × Bool} (hn : IsId n)
    (h : allocId taken fuel n w = some r) : IsId r.1 ∧ IsId r.2.1 ∧
      (r.2.2 = true ∧ taken r.1 = false ∨ w = false ∧ r = (n, n + 1, false)) := by
  have hone : IsId 1 := by decide
  induction fuel generalizing n w with
  | zero => cases h
  | succ fuel ih =>
    have hrec : ∀ m, IsId m → allocId taken fuel m true = some r →
        IsId r.1 ∧ IsId r.2.1 ∧ r.2.2 = true ∧ taken r.1 = false := fun m hm hr => by
      simpa using ih hm hr
    rw [allocId_succ hn] at h
    obtain ⟨hnext, hend⟩ | ⟨hnext, hend⟩ := hn.advance w <;> rw [hnext] at h <;>
      split_ifs at h with hret
    · cases h
      exact ⟨hn, hone, .inl ⟨rfl, by simpa using hret⟩⟩
    · exact (hrec 1 hone h).imp_right (And.imp_right .inl)
    · cases h
      cases w with
      | false => exact ⟨hn, ⟨Nat.succ_pos n, hend⟩, .inr ⟨rfl, rfl⟩⟩
      | true => exact ⟨hn, ⟨Nat.succ_pos n, hend⟩, .inl ⟨rfl, by simpa using hret⟩⟩
    · obtain rfl : w = true := by
        cases w <;> simp_all
      exact (hrec _ ⟨Nat.succ_pos n, hend⟩ h).imp_right (And.imp_right .inl)

lemma allocId_returns {j : ℕ} (hj : IsId j) (hfree : taken j = false)
    {d n : ℕ} (hn : IsId n) (hd : n + d = j ∨ n + d + 1 = j + idNone) {fuel : ℕ} (hfuel : d < fuel)
    (w : Bool) : (allocId taken fuel n w).isSome := by
  have hend := hj.2
  induction d generalizing n w fuel with
  | zero =>
    obtain ⟨fuel, rfl⟩ := Nat.exists_eq_add_one.2 hfuel
    obtain rfl : n = j := by
      have := hn.2
      have := hj.1
      omega
    simp [allocId_succ hn, hfree]
  | succ d ih =>
    obtain ⟨fuel, rfl⟩ := Nat.exists_eq_add_one.2 (Nat.zero_lt_of_lt hfuel)
    rw [allocId_succ hn]
    split_ifs
    · rfl
    obtain ⟨hnext, hlast⟩ | ⟨hnext, hlast⟩ := hn.advance w <;> rw [hnext]
    · exact ih (by decide) (by omega) (by omega) true
    · exact ih ⟨Nat.succ_pos n, hlast⟩ (by omega) (by omega) w

/-- Distinct ids leave one free while fewer than 2³² − 2 elements live. -/
lemma exists_free (ids : List ℕ) (h : ids.length < idNone - 1) : ∃ j, IsId j ∧ j ∉ ids := by
  by_contra hall
  push Not at hall
  have hsub : Finset.Ico 1 idNone ⊆ ids.toFinset := fun j hj =>
    mem_toFinset.2 (hall j (Finset.mem_Ico.1 hj))
  have hcard := (Finset.card_le_card hsub).trans (toFinset_card_le ids)
  rw [Nat.card_Ico] at hcard
  omega

lemma length_lt_of_ids {ids : List ℕ} (hnodup : ids.Nodup) (h : ∀ i ∈ ids, IsId i) :
    ids.length < idNone := by
  have hsub : ids.toFinset ⊆ Finset.Ico 1 idNone := fun j hj =>
    Finset.mem_Ico.2 (h j (mem_toFinset.1 hj))
  have hcard := Finset.card_le_card hsub
  rw [toFinset_card_of_nodup hnodup, Nat.card_Ico] at hcard
  exact lt_of_le_of_lt hcard (by decide)

variable {t : Table}

lemma Valid.count (h : Valid t) (owner : ℕ) :
    t.countForOwner owner = t.live.countP (·.owner == owner) := by
  have hlen := length_lt_of_ids h.nodup (by simpa using h.ids)
  rw [length_map] at hlen
  have := t.live.countP_le_length (p := (·.owner == owner))
  exact Nat.mod_eq_of_lt (by unfold idNone at hlen; omega)

lemma Valid.sublist (h : Valid t) {store : Store} (hsub : store.live <+ t.live) :
    Valid { t with store } where
  next := h.next
  ids e he := h.ids e (hsub.subset he)
  nodup := (hsub.map _).nodup h.nodup
  fresh hw e he := h.fresh hw e (hsub.subset he)
  quota owner hmax := hsub.countP_le.trans (h.quota owner hmax)

lemma Valid.id_fresh (h : Valid t) {fuel id next : ℕ} {w : Bool}
    (hid : allocId t.idTaken fuel t.nextId t.wrapped = some (id, next, w)) :
    ∀ e ∈ t.live, e.id ≠ id := by
  intro e he heq
  obtain ⟨-, -, hnew⟩ := allocId_some h.next hid
  rcases hnew with ⟨-, htaken⟩ | ⟨hw, hr⟩
  · simp [Table.idTaken] at htaken
    exact htaken e he heq
  · cases hr
    exact ne_of_lt (h.fresh hw e he) heq

lemma Valid.alloc (h : Valid t) {fuel owner : ℕ} {room : Bool} {r : Table × Except Status ℕ}
    (hr : t.alloc fuel owner room = some r) : Valid r.1 := by
  rw [Table.alloc] at hr
  split_ifs at hr with hfull hroom
  · cases hr
    exact h
  · cases hr
    exact h
  obtain ⟨⟨id, next, w⟩, hid, rfl⟩ := Option.map_eq_some_iff.1 hr
  obtain ⟨hisId, hnext, hnew⟩ := allocId_some h.next hid
  have hperm := t.store.live_alloc t.chunkCapacity ⟨id, owner⟩
  have hnot := h.id_fresh hid
  refine ⟨hnext, fun e he => ?_, ?_, fun hw e he => ?_, fun o hmax => ?_⟩
  · rcases mem_cons.1 (hperm.mem_iff.1 he) with rfl | he
    · exact hisId
    · exact h.ids e he
  · rw [(hperm.map _).nodup_iff, map_cons, nodup_cons]
    exact ⟨by simpa using hnot, h.nodup⟩
  · obtain ⟨hw', -⟩ | ⟨hw', hr⟩ := hnew
    · cases hw.symm.trans hw'
    cases hr
    rcases mem_cons.1 (hperm.mem_iff.1 he) with rfl | he
    · exact Nat.lt_succ_self _
    · exact Nat.lt_succ_of_lt (h.fresh hw' e he)
  rw [hperm.countP_eq, countP_cons]
  have hle := h.quota o hmax
  rw [h.count] at hfull
  split_ifs with ho
  · obtain rfl : owner = o := by simpa using ho
    exact Nat.succ_le_of_lt (Nat.lt_of_not_le fun hle => hfull ⟨hmax, hle⟩)
  · exact hle

lemma Reaches.valid {quota capacity : ℕ} (h : Reaches quota capacity t) : Valid t := by
  induction h with
  | init => constructor <;> simp [Store.live, IsId, idNone]
  | alloc _ _ _ _ hr ih => exact ih.alloc hr
  | free id _ ih =>
    rw [Table.free]
    split
    · exact ih
    · exact ih.sublist (by rw [Store.live_remove]; exact eraseP_sublist)
  | release owner _ ih =>
    exact ih.sublist (by rw [(Store.releaseAll_spec _ _).2]; exact filter_sublist)

lemma Valid.get_iff (h : Valid t) {id : ℕ} {e : Header} :
    t.get id = some e ↔ e ∈ t.live ∧ e.id = id := by
  rw [Table.get]
  constructor
  · intro hget
    split_ifs at hget
    exact ⟨mem_of_find?_eq_some hget, by simpa using find?_some hget⟩
  rintro ⟨he, rfl⟩
  have := h.ids e he
  rw [if_neg (by omega)]
  cases hfind : t.live.find? (·.id == e.id) with
  | none => exact absurd (beq_self_eq_true e.id) (find?_eq_none.1 hfind e he)
  | some e' =>
    rw [inj_on_of_nodup_map h.nodup (mem_of_find?_eq_some hfind) he
      (by simpa using find?_some hfind)]

lemma Valid.alloc_ok (h : Valid t) {t' : Table} {fuel owner id : ℕ} {room : Bool}
    (hr : t.alloc fuel owner room = some (t', .ok id)) :
    (∀ e ∈ t.live, e.id ≠ id) ∧ t'.live ~ ⟨id, owner⟩ :: t.live := by
  rw [Table.alloc] at hr
  split_ifs at hr
  · cases hr
  · cases hr
  obtain ⟨⟨id', next, w⟩, hid, heq⟩ := Option.map_eq_some_iff.1 hr
  cases heq
  exact ⟨h.id_fresh hid, Store.live_alloc ..⟩

lemma eraseP_id {es : List Header} (h : (es.map Header.id).Nodup) (id : ℕ) :
    es.eraseP (·.id == id) = es.filter (·.id != id) := by
  induction es with
  | nil => rfl
  | cons e es ih =>
    rw [map_cons, nodup_cons] at h
    by_cases he : e.id = id
    · have hrest : ∀ x ∈ es, (x.id != id) = true := by
        intro x hx
        rw [bne_iff_ne, ← he]
        exact fun heq => h.1 (mem_map.2 ⟨x, hx, heq⟩)
      rw [eraseP_cons_of_pos (by simpa using he), filter_cons_of_neg (by simpa using he),
        filter_eq_self.2 hrest]
    · rw [eraseP_cons_of_neg (by simpa using he), filter_cons_of_pos (by simpa using he), ih h.2]

lemma Valid.live_free (h : Valid t) (id : ℕ) : (t.free id).1.live = t.live.filter (·.id != id) := by
  rw [Table.free]
  split
  next hnone =>
    refine (filter_eq_self.2 fun e he => ?_).symm
    rw [bne_iff_ne]
    rintro rfl
    cases hnone.symm.trans (h.get_iff.2 ⟨he, rfl⟩)
  next => exact (Store.live_remove _ _).trans (eraseP_id h.nodup id)

/-- The elements in the table have ids of their own, by which they are found; an allocation adds one
under an id that none has, and a free removes the one of its id. -/
theorem idtable_names_live_elements {perOwnerMax capacity : ℕ}
    (h : Reaches perOwnerMax capacity t) :
    (t.live.map Header.id).Nodup ∧ (∀ e ∈ t.live, e.id ≠ 0 ∧ e.id ≠ idNone) ∧
      (∀ id e, t.get id = some e ↔ e ∈ t.live ∧ e.id = id) ∧
      (∀ fuel owner room t' id, t.alloc fuel owner room = some (t', .ok id) →
        (∀ e ∈ t.live, e.id ≠ id) ∧ t'.live ~ ⟨id, owner⟩ :: t.live ∧
          t'.get id = some ⟨id, owner⟩) ∧
      (∀ id, (t.free id).1.live = t.live.filter (·.id != id)) ∧
      (∀ owner, t.perOwnerMax ≠ 0 → t.live.countP (·.owner == owner) ≤ t.perOwnerMax) ∧
      (∀ owner, (t.releaseOwner owner).1 = t.live.filter (·.owner == owner) ∧
        (t.releaseOwner owner).2.live = t.live.filter (·.owner != owner)) ∧
      (t.live.length < idNone - 1 → ∀ owner room, ∀ fuel ≥ idNone,
        (t.alloc fuel owner room).isSome) := by
  have hv := h.valid
  refine ⟨hv.nodup, fun e he => ?_, fun _ _ => hv.get_iff, fun fuel owner room t' id hr => ?_,
    hv.live_free, hv.quota, fun owner => Store.releaseAll_spec _ _,
    fun hlen owner room fuel hfuel => ?_⟩
  · obtain ⟨hpos, hlt⟩ := hv.ids e he
    omega
  · obtain ⟨hfresh, hperm⟩ := hv.alloc_ok hr
    exact ⟨hfresh, hperm, (hv.alloc hr).get_iff.2 ⟨hperm.mem_iff.2 (.head _), rfl⟩⟩
  · obtain ⟨j, hj, hfree⟩ := exists_free (t.live.map Header.id) (by simpa using hlen)
    rw [Table.alloc]
    split_ifs
    · rfl
    · rfl
    have htaken : t.idTaken j = false := by simpa [Table.idTaken] using hfree
    have hnext := hv.next
    rw [Option.isSome_map]
    rcases le_total t.nextId j with hle | hle
    · exact allocId_returns hj htaken hnext (d := j - t.nextId) (by omega) (by omega) _
    · exact allocId_returns hj htaken hnext (d := j + idNone - 1 - t.nextId) (by omega) (by omega) _

theorem idtable_names_live_elements_reused : ∃ t, Reaches 4 2 t ∧ t.get 1 = none ∧
    t.get 2 = some ⟨2, 8⟩ ∧ t.get 3 = some ⟨3, 7⟩ ∧ (t.releaseOwner 7).1 = [⟨3, 7⟩] := by
  have hone : Reaches 4 2 ⟨[some ⟨1, 7⟩, none], 2, false, 4, 2⟩ :=
    .alloc (r := (_, .ok 1)) 1 7 true .init rfl
  have htwo : Reaches 4 2 ⟨[some ⟨1, 7⟩, some ⟨2, 8⟩], 3, false, 4, 2⟩ :=
    .alloc (r := (_, .ok 2)) 1 8 true hone rfl
  have hfree : Reaches 4 2 ⟨[none, some ⟨2, 8⟩], 3, false, 4, 2⟩ := htwo.free 1
  have h : Reaches 4 2 ⟨[some ⟨3, 7⟩, some ⟨2, 8⟩], 4, false, 4, 2⟩ :=
    .alloc (r := (_, .ok 3)) 1 7 true hfree rfl
  obtain ⟨-, -, hget, -, -, -, hrelease, -⟩ := idtable_names_live_elements h
  exact ⟨_, h, by decide, (hget 2 ⟨2, 8⟩).2 (by decide), (hget 3 ⟨3, 7⟩).2 (by decide),
    (hrelease 7).1⟩

end Idtable
