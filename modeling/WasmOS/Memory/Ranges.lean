import WasmOS.Memory.Backing

/-! # User ranges

Regions and page tables stay in step as long as regions begin and end at pages, grow without a gap
and keep their pages mapped past their backing. Then an accepted range lies in regions that permit
the access, and a page mapped to serve it gets a frame of its region.
-/

open List Function Option

namespace Memory

open Root Region

section UpdateFirst

variable {p : Region → Bool} {f : Region → Region} {rs : List Region} {r x : Region}

lemma mem_eraseP_or_find (h : r ∈ rs) : r ∈ rs.eraseP p ∨ rs.find? p = some r := by
  induction rs with
  | nil => cases h
  | cons y ys ih =>
    by_cases hy : p y = true
    · rw [eraseP_cons_of_pos hy, find?_cons_of_pos hy]
      rcases mem_cons.1 h with rfl | h
      · exact .inr rfl
      · exact .inl h
    rw [eraseP_cons_of_neg hy, find?_cons_of_neg hy]
    rcases mem_cons.1 h with rfl | h
    · exact .inl (.head _)
    · exact (ih h).imp_left (mem_cons_of_mem y)

lemma mem_eraseP_append (h : r ∈ (rs ++ [x]).eraseP p) : r ∈ rs.eraseP p ∨ r = x := by
  induction rs with
  | nil => exact .inr (mem_singleton.1 (mem_of_mem_eraseP h))
  | cons y ys ih =>
    by_cases hy : p y = true
    · rw [cons_append, eraseP_cons_of_pos hy] at h
      rw [eraseP_cons_of_pos hy]
      simpa using h
    rw [cons_append, eraseP_cons_of_neg hy] at h
    rw [eraseP_cons_of_neg hy]
    rcases mem_cons.1 h with rfl | h
    · exact .inl (.head _)
    · exact (ih h).imp_left (mem_cons_of_mem y)

lemma find_updateFirst (hf : ∀ r, p (f r) = p r) :
    (updateFirst p f rs).find? p = (rs.find? p).map f := by
  induction rs with
  | nil => rfl
  | cons y ys ih =>
    by_cases hy : p y = true
    · simp [updateFirst, hy, hf y]
    · simp [updateFirst, hy, ih]

lemma eraseP_updateFirst (hf : ∀ r, p (f r) = p r) :
    (updateFirst p f rs).eraseP p = rs.eraseP p := by
  induction rs with
  | nil => rfl
  | cons y ys ih =>
    by_cases hy : p y = true
    · rw [updateFirst, if_pos hy, eraseP_cons_of_pos (by rw [hf y, hy]), eraseP_cons_of_pos hy]
    · rw [updateFirst, if_neg hy, eraseP_cons_of_neg hy, eraseP_cons_of_neg hy, ih]

end UpdateFirst

namespace Root

variable {root root' : Root} {virt phys i : ℕ} {flags : Flags} {room : Bool}

structure Live (root : Root) (i : ℕ) : Prop where
  mapped : ∃ frame, root.leaf i = some frame ∧ frame % 2 ^ 52 ≠ 0
  table : root.table (i / 512) = true
  user : i / 2 ^ 27 = 1

def Keeps (root root' : Root) : Prop := ∀ i, root.Live i → root'.Live i

lemma map_ok (h : root.map virt phys flags room = some root') : isUserSlot virt = flags.user ∧
      root'.leaf = update root.leaf (pageIndex virt) (some (pageBase phys)) ∧
      root'.table = update root.table (pageIndex virt / 512) true := by
  unfold map at h
  repeat' split at h
  any_goals cases h
  next hslot _ _ =>
  exact ⟨not_not.1 hslot, rfl, rfl⟩

lemma exists_map (htable : root.table (pageIndex virt / 512) = true)
    (hslot : pageIndex virt / 2 ^ 27 = 1) (huser : flags.user = true)
    (hvalid : flags.valid = true) (phys : ℕ) (room : Bool) :
    ∃ root', root.map virt phys flags room = some root' := by
  have hwx : (flags.user && flags.write && flags.exec) = false := by
    rwa [Flags.valid, Bool.not_eq_true'] at hvalid
  have hwhich : isUserSlot virt = true := by simpa [isUserSlot] using hslot
  rw [map, if_neg (by simp [hwhich, huser]), hwx, if_neg nofun, if_neg (by simp [htable])]
  exact ⟨_, rfl⟩

lemma Live.update (h : root.Live i) (hne : i ≠ pageIndex virt)
    (hleaf : root'.leaf = update root.leaf (pageIndex virt) (some phys))
    (htable : root'.table = update root.table (pageIndex virt / 512) true) :
    root'.Live i where
  mapped := by
    rw [hleaf, update_of_ne hne]
    exact h.mapped
  table := by
    rw [htable, update_apply]
    split
    · rfl
    · exact h.table
  user := h.user

lemma map_live (h : root.map virt phys flags room = some root') (huser : flags.user = true)
    (hphys : pageBase phys % 2 ^ 52 ≠ 0) : root'.Live (pageIndex virt) := by
  obtain ⟨hslot, hleaf, htable⟩ := map_ok h
  refine ⟨⟨pageBase phys, by rw [hleaf, update_self], hphys⟩, ?_, ?_⟩
  · rw [htable, update_self]
  · rw [huser] at hslot
    simpa [isUserSlot] using hslot

lemma virtToPhys_eq_zero (hvirt : virt % 4096 = 0) (h : root.virtToPhys virt = 0) :
    ¬ root.Live (pageIndex virt) := by
  intro hlive
  obtain ⟨frame, hframe, hne⟩ := hlive.mapped
  rw [virtToPhys, hframe] at h
  exact hne (by simpa [hvirt] using h)

lemma map_keeps (h : root.map virt phys flags room = some root')
    (hfree : ¬ root.Live (pageIndex virt)) : root.Keeps root' := by
  intro i hlive
  obtain ⟨-, hleaf, htable⟩ := map_ok h
  exact hlive.update (fun heq => hfree (heq ▸ hlive)) hleaf htable

section Overlay

variable {frame : ℕ → Option ℕ} {rooms : ℕ → Bool} {count p : ℕ}

variable (huser : flags.user = true) (hvalid : flags.valid = true)
  (hframe : ∀ k, p ≤ k → k < p + count → ∀ phys, frame k = some phys → pageBase phys % 2 ^ 52 ≠ 0)
include huser hvalid hframe

lemma overlay_keeps : root.Keeps (overlay virt frame flags rooms count p root).2 := by
  induction count generalizing p root with
  | zero => exact fun i h => h
  | succ count ih =>
    intro i hlive
    rw [overlay]
    cases hp : frame p with
    | none => exact hlive
    | some phys =>
      dsimp only
      generalize haddr : wrap (virt + wrap (p * 4096)) = addr
      have hphys := hframe p le_rfl (by omega) phys hp
      have hother (hne : i ≠ pageIndex addr) : (root.unmap addr).Live i :=
        ⟨by simpa [unmap, update_of_ne hne] using hlive.mapped, hlive.table, hlive.user⟩
      cases hmap : (root.unmap addr).map addr phys flags (rooms p) with
      | none =>
        refine hother fun heq => ?_
        -- the table of a live page exists, so the page can be mapped again
        subst heq
        have htable : (root.unmap addr).table (pageIndex addr / 512) = true := hlive.table
        obtain ⟨root', hroot'⟩ := exists_map htable hlive.user huser hvalid phys (rooms p)
        rw [hmap] at hroot'
        cases hroot'
      | some root' =>
        refine ih (fun k hk hlt => hframe k (by omega) (by omega)) i ?_
        by_cases heq : i = pageIndex addr
        · exact heq ▸ map_live hmap huser hphys
        · obtain ⟨-, hleaf, htable⟩ := map_ok hmap
          exact (hother heq).update heq hleaf htable

lemma overlay_live (h : (overlay virt frame flags rooms count p root).1 = true) {k : ℕ} (hk : p ≤ k)
    (hlt : k < p + count) :
    (overlay virt frame flags rooms count p root).2.Live
      (pageIndex (wrap (virt + wrap (k * 4096)))) := by
  induction count generalizing p root with
  | zero => omega
  | succ count ih =>
    rw [overlay] at h ⊢
    cases hp : frame p with
    | none => simp [hp] at h
    | some phys =>
      rw [hp] at h
      dsimp only at h ⊢
      have hphys := hframe p le_rfl (by omega) phys hp
      have hrest : ∀ k, p + 1 ≤ k → k < p + 1 + count → ∀ phys, frame k = some phys →
          pageBase phys % 2 ^ 52 ≠ 0 := fun k hk hlt => hframe k (by omega) (by omega)
      cases hmap : (root.unmap (wrap (virt + wrap (p * 4096)))).map
          (wrap (virt + wrap (p * 4096))) phys flags (rooms p) with
      | none => simp [hmap] at h
      | some root' =>
        rw [hmap] at h
        rcases eq_or_lt_of_le hk with rfl | hk
        · exact overlay_keeps huser hvalid hrest _ (map_live hmap huser hphys)
        · exact ih hrest h hk (by omega)

end Overlay

end Root

/-- The region begins and ends at pages of the user slot, and its frames exist. -/
structure Region.Placed (r : Region) : Prop where
  base : r.base % 4096 = 0
  size : r.size % 4096 = 0
  start : 2 ^ 39 ≤ r.base
  stop : r.base + r.size ≤ 2 ^ 40
  phys : r.physBase % 4096 = 0
  frames : r.physBase + r.frames * 4096 ≤ 2 ^ 52

def Region.Contains (r : Region) (addr : ℕ) : Prop := r.base ≤ addr ∧ addr < r.base + r.size

/-- The frame is one of the region's own, at its place behind the page of the address. -/
def Region.Owns (r : Region) (addr frame : ℕ) : Prop :=
  ∃ i < r.frames, r.base + i * 4096 = pageBase addr ∧ frame = r.physBase + i * 4096

namespace Region.Placed

variable {r : Region} {addr : ℕ}

lemma contains_iff (h : r.Placed) :
    r.base ≤ addr ∧ addr < wrap (r.base + r.size) ↔ r.Contains addr := by
  have := h.stop
  rw [wrap, Nat.mod_eq_of_lt (by omega), Region.Contains]

lemma contains_page (h : r.Placed) (hin : r.Contains addr) {b : ℕ}
    (hb : pageBase b = pageBase addr) : r.Contains b := by
  have := h.base
  have := h.size
  simp only [Region.Contains, pageBase] at hin hb ⊢
  omega

lemma exists_page (h : r.Placed) (hin : r.Contains addr) :
    ∃ i, r.base + i * 4096 = pageBase addr ∧ i * 4096 < r.size := by
  have := h.base
  refine ⟨(pageBase addr - r.base) / 4096, ?_, ?_⟩ <;>
    · simp only [Region.Contains, pageBase] at hin ⊢
      omega

lemma frame_eq (h : r.Placed) {i : ℕ} (hi : i < r.frames) (hpage : r.base + i * 4096 = addr) :
    pageBase (wrap (r.physBase + sub addr r.base)) = r.physBase + i * 4096 := by
  have := h.phys
  have := h.frames
  have := h.stop
  have hsub : sub addr r.base = i * 4096 := by
    simp only [sub, wrap]
    omega
  rw [hsub, wrap, Nat.mod_eq_of_lt (by omega), pageBase]
  omega

end Region.Placed

lemma pageBase_mod (addr : ℕ) : pageBase addr % 4096 = 0 := by
  rw [pageBase]
  omega

lemma pageIndex_pageBase (addr : ℕ) : pageIndex (pageBase addr) = pageIndex addr := by
  simp only [pageIndex, pageBase]
  omega

lemma pageIndex_eq {addr : ℕ} (h : addr < 2 ^ 48) : pageIndex addr = addr / 4096 := by
  rw [pageIndex]
  omega

namespace Context

structure Inv (c : Context) : Prop where
  placed : ∀ r ∈ c.regions, r.flags.user = true → r.Placed
  /-- Only the first linear memory is larger than its backing. -/
  backed : ∀ r ∈ c.regions.eraseP isLinear, r.flags.user = true → r.size ≤ r.frames * 4096
  /-- What it is larger is mapped. -/
  live : ∀ r, c.regions.find? isLinear = some r → r.flags.user = true →
    ∀ i, r.frames ≤ i → i * 4096 < r.size → c.root.Live (pageIndex (r.base + i * 4096))

variable {c c' : Context}

lemma inv_init : init.Inv := by
  constructor <;> simp [init]

lemma Inv.owned_or_live (h : c.Inv) {r : Region} (hr : r ∈ c.regions)
    (huser : r.flags.user = true) {i : ℕ} (hi : i * 4096 < r.size) :
    i < r.frames ∨ c.root.Live (pageIndex (r.base + i * 4096)) := by
  rcases mem_eraseP_or_find hr with herase | hfind
  · have := h.backed r herase huser
    exact .inl (by omega)
  by_cases hlt : i < r.frames
  · exact .inl hlt
  · exact .inr (h.live r hfind huser i (Nat.le_of_not_lt hlt) hi)

lemma Inv.of_root (h : c.Inv) {root : Root} (hkeep : c.root.Keeps root) :
    ({ c with root := root } : Context).Inv :=
  ⟨h.placed, h.backed, fun r hr huser i hi hlt => hkeep _ (h.live r hr huser i hi hlt)⟩

lemma Inv.append (h : c.Inv) {x : Region}
    (hx : x.flags.user = true → x.Placed ∧ x.size ≤ x.frames * 4096) :
    ({ c with regions := c.regions ++ [x] } : Context).Inv where
  placed r hr huser := by
    rcases mem_append.1 hr with hr | hr
    · exact h.placed r hr huser
    · obtain rfl := mem_singleton.1 hr
      exact (hx huser).1
  backed r hr huser := by
    rcases mem_eraseP_append hr with hr | rfl
    · exact h.backed r hr huser
    · exact (hx huser).2
  live r hr huser i hi hlt := by
    rw [find?_append, or_eq_some_iff] at hr
    rcases hr with hr | ⟨-, hr⟩
    · exact h.live r hr huser i hi hlt
    obtain rfl := mem_singleton.1 (mem_of_find?_eq_some hr)
    have := (hx huser).2
    omega

lemma Inv.updateLinear (h : c.Inv) {f : Region → Region} {root : Root} {r : Region}
    (hfind : c.regions.find? isLinear = some r) (htype : ∀ r, (f r).type = r.type)
    (hflags : ∀ r, (f r).flags.user = r.flags.user)
    (hplaced : r.flags.user = true → (f r).Placed)
    (hlive : r.flags.user = true → ∀ i, (f r).frames ≤ i → i * 4096 < (f r).size →
      root.Live (pageIndex ((f r).base + i * 4096))) :
    ({ regions := updateFirst isLinear f c.regions, root := root } : Context).Inv := by
  have hlinear (r : Region) : (f r).isLinear = r.isLinear := by
    simp only [isLinear, htype r]
  have hfind' : (updateFirst isLinear f c.regions).find? isLinear = some (f r) := by
    rw [find_updateFirst hlinear, hfind, map_some]
  refine ⟨fun x hx huser => ?_, fun x hx huser => ?_, fun x hx huser i hi hlt => ?_⟩
  · rcases mem_eraseP_or_find hx with hx | hx
    · rw [eraseP_updateFirst hlinear] at hx
      exact h.placed x (mem_of_mem_eraseP hx) huser
    · obtain rfl : f r = x := some.inj (hfind'.symm.trans hx)
      exact hplaced (hflags r ▸ huser)
  · rw [eraseP_updateFirst hlinear] at hx
    exact h.backed x hx huser
  · obtain rfl : f r = x := some.inj (hfind'.symm.trans hx)
    exact hlive (hflags r ▸ huser) i hi hlt

end Context

/-- Regions of the user have a backing, begin and end at pages of the user slot and grow without a
gap; overlays of their pages are for the user, and a fault is reported as not present for a page
that is not mapped. Frames that are given exist. -/
def Call.Careful (c : Context) : Call → Prop
  | .addRegion _ _ flags _ => flags.user = false
  | .allocRegion pages _ type phys =>
    virtualBase type + pages * 4096 ≤ 2 ^ 40 ∧ phys % 4096 = 0 ∧ phys + pages * 4096 ≤ 2 ^ 52
  | .rebind phys size => size % 4096 = 0 ∧ phys + size ≤ 2 ^ 52 ∧
    ∀ r ∈ c.regions.find? isLinear, r.base + size ≤ 2 ^ 40
  | .bind _ fromPage toPage _ => ∀ r ∈ c.regions.find? isLinear,
    fromPage * 4096 ≤ r.size ∧ r.base + toPage * 4096 ≤ 2 ^ 40
  | .mapPhysical _ phys size flags _ => flags.user = true ∧ phys + size ≤ 2 ^ 52
  | .ensure .. => True
  | .fault addr code _ => code.present = false → c.root.virtToPhys (pageBase addr) = 0

instance (c : Context) (call : Call) : Decidable (call.Careful c) := by
  cases call <;> unfold Call.Careful <;> infer_instance

def Context.CarefulRun : Context → List Call → Prop
  | _, [] => True
  | c, call :: calls => call.Careful c ∧ ∀ c' ∈ c.exec call, CarefulRun c' calls

instance Context.decidableCarefulRun : (c : Context) → (calls : List Call) →
    Decidable (c.CarefulRun calls)
  | _, [] => .isTrue trivial
  | c, call :: calls =>
    haveI : ∀ c', Decidable (CarefulRun c' calls) := fun c' => decidableCarefulRun c' calls
    inferInstanceAs (Decidable (_ ∧ ∀ c' ∈ c.exec call, CarefulRun c' calls))

namespace Context

variable {c c' : Context} {type : RegionType} {flags : Flags}

lemma Inv.addRegion (h : c.Inv) {base size : ℕ}
    (hcare : flags.user = false) : (c.addRegion base size flags type).Inv := by
  unfold Context.addRegion
  split
  · refine h.append fun huser => ?_
    cases hcare.symm.trans huser
  · exact h

lemma virtualBase_spec (h : virtualBase type ≠ 0) :
    virtualBase type % 4096 = 0 ∧ 2 ^ 39 ≤ virtualBase type := by
  cases type <;> first | exact absurd rfl h | decide

lemma Inv.allocRegion (h : c.Inv) {pages : ℕ} {phys : ℕ}
    (hcare : (Call.allocRegion pages flags type phys).Careful c) :
    (c.allocRegion pages flags type phys).Inv := by
  obtain ⟨hstop, haligned, hphys⟩ := hcare
  unfold Context.allocRegion
  split
  · exact h
  next hargs =>
    simp only [not_or] at hargs
    obtain ⟨hbase, hstart⟩ := virtualBase_spec hargs.2.2
    have hsize : wrap (pages * 4096) = pages * 4096 := Nat.mod_eq_of_lt (by omega)
    split
    · rw [hsize]
      exact h.append fun _ => ⟨⟨hbase, by simp, hstart, hstop, haligned, hphys⟩, le_rfl⟩
    · exact h

lemma Inv.rebindWasmLinear (h : c.Inv) {phys size : ℕ}
    (hcare : (Call.rebind phys size).Careful c) : (c.rebindWasmLinear phys size).Inv := by
  obtain ⟨hsize, hphys, hbase⟩ := hcare
  unfold Context.rebindWasmLinear
  split
  · exact h
  next hargs =>
    split
    · exact h
    next r hfind =>
      split
      · exact h
      refine h.updateLinear hfind (fun _ => rfl) (fun _ => rfl) (fun huser => ?_)
        fun _ i hi hlt => ?_
      · have hold := h.placed r (mem_of_find?_eq_some hfind) huser
        have hstop := hbase r hfind
        refine ⟨hold.base, hsize, hold.start, hstop, ?_, ?_⟩ <;> dsimp only <;> omega
      · dsimp only at hi hlt
        omega

variable {room : ℕ → Bool}

lemma Inv.bindWasmLinearScattered (h : c.Inv) {slot : ℕ → ℕ} {fromPage toPage : ℕ}
    (hcare : (Call.bind slot fromPage toPage room).Careful c) :
    (c.bindWasmLinearScattered slot fromPage toPage room).Inv := by
  unfold Context.bindWasmLinearScattered
  split
  · exact h
  next hpages =>
    split
    · exact h
    next r hfind =>
      have := hcare r hfind
      have hsize : wrap (toPage * 4096) = toPage * 4096 := Nat.mod_eq_of_lt (by omega)
      dsimp only
      generalize hframe : (fun p => if pageBase (slot p % 2 ^ 52) = 0 then none
        else some (pageBase (slot p % 2 ^ 52))) = frame
      have hframes : ∀ k, fromPage ≤ k → k < fromPage + (toPage - fromPage) → ∀ phys,
          frame k = some phys → pageBase phys % 2 ^ 52 ≠ 0 := by
        intro k _ _ phys hphys
        rw [← hframe] at hphys
        dsimp only at hphys
        split at hphys
        · cases hphys
        cases hphys
        simp only [pageBase] at *
        omega
      have hkeep : c.root.Keeps (overlay r.base frame linearFlags room (toPage - fromPage)
          fromPage c.root).2 := overlay_keeps rfl rfl hframes
      split
      next hok =>
        refine h.updateLinear hfind (fun _ => rfl) (fun _ => rfl) (fun huser => ?_)
          fun huser i hi hlt => ?_
        · have hold := h.placed r (mem_of_find?_eq_some hfind) huser
          have := hold.size
          have := hold.stop
          refine ⟨hold.base, ?_, hold.start, ?_, hold.phys, hold.frames⟩ <;> dsimp only <;> omega
        dsimp only at hi hlt ⊢
        by_cases hold : i * 4096 < r.size
        · exact hkeep _ (h.live r hfind huser i hi hold)
        -- a page behind the old end is one of those just mapped
        have hlive := overlay_live rfl rfl hframes hok (k := i) (by omega) (by omega)
        have hoff : wrap (i * 4096) = i * 4096 := Nat.mod_eq_of_lt (by omega)
        rwa [hoff, wrap, Nat.mod_eq_of_lt (by omega)] at hlive
      · exact h.of_root hkeep

lemma Inv.mapPhysical (h : c.Inv) {virt phys size : ℕ}
    (hcare : (Call.mapPhysical virt phys size flags room).Careful c) :
    (c.mapPhysical virt phys size flags room).Inv := by
  obtain ⟨huser, hphys⟩ := hcare
  unfold Context.mapPhysical
  iterate 3
    split
    · exact h
  next hzero haligned hvalid =>
    split
    · exact h
    split
    · exact h
    refine h.of_root (overlay_keeps huser (by simpa using hvalid) fun k _ hk frame hframe => ?_)
    cases hframe
    simp only [wrap, pageBase]
    omega

variable {allowed : Region → Bool} {visit : Context → Region → ℕ → Option Context} {r : Region}
  {cur stop : ℕ}

structure Visits (c c' : Context) (r : Region) (cur : ℕ) : Prop where
  regions : c'.regions = c.regions
  inv : c'.Inv
  other : ∀ j, j ≠ pageIndex cur → c'.root.leaf j = c.root.leaf j
  page : c'.root.leaf (pageIndex cur) = c.root.leaf (pageIndex cur) ∨
    ∃ frame, c'.root.leaf (pageIndex cur) = some frame ∧ r.Owns cur frame

lemma findRegion_mem (h : findRegion c.regions cur = some r) : r ∈ c.regions :=
  mem_of_find?_eq_some h

section

variable (hc : c.Inv) (h : findRegion c.regions cur = some r) (huser : r.flags.user = true)
include hc h huser

lemma Inv.contains : r.Placed ∧ r.Contains cur := by
  have hplaced := hc.placed r (findRegion_mem h) huser
  exact ⟨hplaced, hplaced.contains_iff.1 (by simpa using find?_some h)⟩

lemma Inv.map_page (hfree : c.root.virtToPhys (pageBase cur) = 0) {room : Bool}
    {root : Root} (hmap : c.root.map (pageBase cur) (wrap (r.physBase + sub (pageBase cur) r.base))
      r.flags room = some root) :
    Visits c { c with root := root } r cur ∧
      ∃ frame, root.leaf (pageIndex cur) = some frame ∧ r.Owns cur frame := by
  obtain ⟨hplaced, hin⟩ := hc.contains h huser
  have hdead := virtToPhys_eq_zero (pageBase_mod cur) hfree
  obtain ⟨i, hi, hlt⟩ := hplaced.exists_page hin
  have hframes : i < r.frames := by
    refine (hc.owned_or_live (findRegion_mem h) huser hlt).resolve_right ?_
    rwa [hi]
  obtain ⟨-, hleaf, -⟩ := map_ok hmap
  rw [pageIndex_pageBase, hplaced.frame_eq hframes hi] at hleaf
  have hown : ∃ frame, root.leaf (pageIndex cur) = some frame ∧ r.Owns cur frame :=
    ⟨r.physBase + i * 4096, by rw [hleaf, update_self], i, hframes, hi, rfl⟩
  refine ⟨⟨rfl, hc.of_root (map_keeps hmap hdead), fun j hj => ?_, .inr hown⟩, hown⟩
  rw [hleaf, update_of_ne hj]

lemma ensurePage_visits (hvisit : ensurePage room c r (pageBase cur) = some c') :
    Visits c c' r cur := by
  unfold ensurePage at hvisit
  split at hvisit
  · cases hvisit
    exact ⟨rfl, hc, fun _ _ => rfl, .inl rfl⟩
  next hfree =>
    obtain ⟨root, hmap, rfl⟩ := map_eq_some_iff.1 hvisit
    exact (hc.map_page h huser (not_not.1 hfree) hmap).1

end

/-- The bytes from `cur` on that a walk has accepted, with what it has mapped for them. -/
def Accepts (allowed : Region → Bool) (c c' : Context) (b : ℕ) : Prop :=
  ∃ r ∈ c.regions, r.Contains b ∧ allowed r = true ∧
    (c'.root.leaf (pageIndex b) ≠ c.root.leaf (pageIndex b) →
      ∃ frame, c'.root.leaf (pageIndex b) = some frame ∧ r.Owns b frame)

section

variable {addr size : ℕ} {ok : Bool} (huser : ∀ r, allowed r = true → r.flags.user = true)
  (hvisit : ∀ c r cur c', c.Inv → findRegion c.regions cur = some r → allowed r = true →
    visit c r (pageBase cur) = some c' → Visits c c' r cur)
include huser hvisit

/-- A walk keeps the invariant and does not touch the pages before it; what it accepts is in
regions that allow it. -/
lemma walk_spec :
    ∀ (fuel cur : ℕ) (c : Context) (ok : Bool) (c' : Context), c.Inv →
      walk allowed visit stop fuel cur c = some (ok, c') →
      c'.Inv ∧ (∀ j < cur / 4096, c'.root.leaf j = c.root.leaf j) ∧
        (ok = true → ∀ b, cur ≤ b → b < stop → Accepts allowed c c' b)
  | 0, _, _, _, _, _, h => by cases h
  | fuel + 1, cur, c, ok, c', hc, h => by
    rw [walk] at h
    split at h
    · cases hfind : findRegion c.regions cur with
      | none =>
        rw [hfind] at h
        cases h
        exact ⟨hc, fun _ _ => rfl, nofun⟩
      | some r =>
        rw [hfind] at h
        dsimp only at h
        split at h
        next hallowed =>
          cases hstep : visit c r (pageBase cur) with
          | none =>
            rw [hstep] at h
            cases h
            exact ⟨hc, fun _ _ => rfl, nofun⟩
          | some c₁ =>
            rw [hstep] at h
            dsimp only at h
            obtain ⟨hregions, hc₁, hother, hpage⟩ := hvisit c r cur c₁ hc hfind hallowed hstep
            obtain ⟨hplaced, hin⟩ := hc.contains hfind (huser r hallowed)
            have hcur : cur < 2 ^ 48 := by
              have := hplaced.stop
              have := hin.2
              omega
            have hnext : wrap (pageBase cur + 4096) = pageBase cur + 4096 := by
              simp only [wrap, pageBase]
              omega
            have hdiv : (pageBase cur + 4096) / 4096 = cur / 4096 + 1 := by
              simp only [pageBase]
              omega
            rw [hnext] at h
            obtain ⟨hc', hbefore, hafter⟩ := walk_spec fuel _ c₁ ok c' hc₁ h
            have hindex := pageIndex_eq hcur
            refine ⟨hc', fun j hj => ?_, fun hok b hb hlt => ?_⟩
            · rw [hbefore j (by omega), hother j (by omega)]
            by_cases hbpage : b < pageBase cur + 4096
            · -- the byte is in the page of `cur`
              have hsame : pageBase b = pageBase cur := by
                simp only [pageBase] at hbpage ⊢
                omega
              have hbindex : pageIndex b = pageIndex cur := by
                rw [← pageIndex_pageBase b, hsame, pageIndex_pageBase]
              refine ⟨r, findRegion_mem hfind, hplaced.contains_page hin hsame, hallowed, ?_⟩
              rw [hbindex, hbefore _ (by omega)]
              intro hne
              obtain ⟨frame, hframe, i, hi, hbase, hphys⟩ := hpage.resolve_left hne
              exact ⟨frame, hframe, i, hi, hbase.trans hsame.symm, hphys⟩
            · obtain ⟨r', hr', hin', hallowed', hleaf⟩ :=
                hafter hok b (Nat.le_of_not_lt hbpage) hlt
              refine ⟨r', hregions ▸ hr', hin', hallowed', ?_⟩
              have hplaced' := hc₁.placed r' hr' (huser r' hallowed')
              have hbindex : pageIndex b ≠ pageIndex cur := by
                have := hplaced'.stop
                have := hin'.2
                rw [hindex, pageIndex_eq (by omega)]
                omega
              rwa [hother _ hbindex] at hleaf
        · cases h
          exact ⟨hc, fun _ _ => rfl, nofun⟩
    · cases h
      exact ⟨hc, fun _ _ => rfl, fun _ b hb hlt => by omega⟩

lemma walkRange_spec (hc : c.Inv)
    (h : c.walkRange allowed visit addr size = some (ok, c')) :
    c'.Inv ∧ (ok = true → addr < 2 ^ 64 → size < 2 ^ 64 → ∀ b, addr ≤ b → b < addr + size →
      Accepts allowed c c' b) := by
  unfold walkRange at h
  split at h
  · cases h
    exact ⟨hc, nofun⟩
  next hargs =>
    obtain ⟨hc', -, hafter⟩ := walk_spec huser hvisit _ _ c ok c' hc h
    refine ⟨hc', fun hok haddr hsize b hb hlt => hafter hok b hb ?_⟩
    -- the sum does not wrap, or the range would have been refused
    simp only [wrap, not_or, not_lt] at hargs ⊢
    omega

end

variable {needed : Flags}

lemma user_of_copyAllowed (h : copyAllowed needed r = true) : r.flags.user = true := by
  simp only [copyAllowed, Bool.and_eq_true] at h
  exact h.1.1

lemma user_of_rangeAllowed (h : rangeAllowed needed r = true) : r.flags.user = true := by
  simp only [rangeAllowed, Bool.and_eq_true] at h
  exact h.1.1.1

variable {addr size : ℕ} {ok : Bool}

lemma Inv.ensure (hc : c.Inv) (h : c.ensureUserRangeMapped addr size needed room = some (ok, c')) :
    c'.Inv ∧ (ok = true → addr < 2 ^ 64 → size < 2 ^ 64 → ∀ b, addr ≤ b → b < addr + size →
      Accepts (copyAllowed needed) c c' b) := walkRange_spec (fun _ => user_of_copyAllowed)
    (fun _ _ _ _ hc hfind hallowed => ensurePage_visits hc hfind (user_of_copyAllowed hallowed))
        hc h

lemma Inv.permitted (hc : c.Inv)
    (h : c.userRangePermitted addr size needed = some true) (haddr : addr < 2 ^ 64)
    (hsize : size < 2 ^ 64) {b : ℕ} (hb : addr ≤ b) (hlt : b < addr + size) :
    ∃ r ∈ c.regions, r.Contains b ∧ rangeAllowed needed r = true := by
  obtain ⟨⟨ok, c'⟩, hwalk, rfl⟩ := map_eq_some_iff.1 h
  have hspec := walkRange_spec (fun _ => user_of_rangeAllowed)
    (fun c r cur c' hc hfind hallowed hvisit => by
      cases hvisit
      exact ⟨rfl, hc, fun _ _ => rfl, .inl rfl⟩) hc hwalk
  obtain ⟨r, hr, hin, hallowed, -⟩ := hspec.2 rfl haddr hsize b hb hlt
  exact ⟨r, hr, hin, hallowed⟩

variable {code : FaultCode} {room : Bool} {addr : ℕ}

lemma handlePageFault_ok (h : c.handlePageFault addr code room = some c') :
    code.present = false ∧ ∃ r root, findRegion c.regions addr = some r ∧
      c.root.map (pageBase addr) (wrap (r.physBase + sub (pageBase addr) r.base)) r.flags room =
        some root ∧ c' = { c with root := root } := by
  unfold handlePageFault at h
  split at h
  · cases h
  next hpresent =>
    refine ⟨by simpa using hpresent, ?_⟩
    repeat' split at h
    any_goals cases h
    next r hfind _ _ _ =>
    obtain ⟨root, hmap, rfl⟩ := map_eq_some_iff.1 h
    exact ⟨r, root, hfind, hmap, rfl⟩

lemma Inv.handlePageFault (hc : c.Inv) (hcare : (Call.fault addr code room).Careful c)
    (h : c.handlePageFault addr code room = some c') : c'.Inv := by
  obtain ⟨hpresent, r, root, -, hmap, rfl⟩ := handlePageFault_ok h
  exact hc.of_root (map_keeps hmap
    (virtToPhys_eq_zero (pageBase_mod addr) (hcare hpresent)))

lemma Inv.fault_owns (hc : c.Inv) {r : Region}
    (hr : r ∈ c.regions) (huser : r.flags.user = true) (hin : r.Contains addr)
    (hcare : (Call.fault addr code room).Careful c)
    (h : c.handlePageFault addr code room = some c') :
    ∃ r ∈ c.regions, r.Contains addr ∧ r.flags.user = true ∧
      ∃ frame, c'.root.leaf (pageIndex addr) = some frame ∧ r.Owns addr frame := by
  obtain ⟨hpresent, r', root, hfind, hmap, rfl⟩ := handlePageFault_ok h
  have hplaced := hc.placed r hr huser
  -- the page is in the user slot, so it is not mapped for a region of the kernel
  have huser' : r'.flags.user = true := by
    obtain ⟨hslot, -⟩ := map_ok hmap
    have := hplaced.start
    have := hplaced.stop
    obtain ⟨hlow, hhigh⟩ := hin
    rw [← hslot, isUserSlot, pageIndex_pageBase, pageIndex_eq (by omega), decide_eq_true_eq]
    omega
  obtain ⟨-, hown⟩ := hc.map_page hfind huser' (hcare hpresent) hmap
  exact ⟨r', findRegion_mem hfind, (hc.contains hfind huser').2, huser', hown⟩

lemma Inv.exec (hc : c.Inv) {call : Call} (hcare : call.Careful c)
    (h : c.exec call = some c') : c'.Inv := by
  cases call with
  | addRegion base size flags type =>
    cases h
    exact hc.addRegion hcare
  | allocRegion pages flags type phys =>
    cases h
    exact hc.allocRegion hcare
  | rebind phys size =>
    cases h
    exact hc.rebindWasmLinear hcare
  | bind slot fromPage toPage room =>
    cases h
    exact hc.bindWasmLinearScattered hcare
  | mapPhysical virt phys size flags room =>
    cases h
    exact hc.mapPhysical hcare
  | ensure addr size needed room =>
    obtain ⟨⟨ok, c₁⟩, hwalk, rfl⟩ := map_eq_some_iff.1 h
    exact (hc.ensure hwalk).1
  | fault addr code room =>
    cases h
    cases hfault : c.handlePageFault addr code room with
    | none => exact hc
    | some c₁ => exact hc.handlePageFault hcare hfault

lemma Inv.run {calls : List Call} (hc : c.Inv) (hcare : c.CarefulRun calls)
    (h : c.run calls = some c') : c'.Inv := by
  induction calls generalizing c with
  | nil =>
    cases h
    exact hc
  | cons call calls ih =>
    obtain ⟨hcall, hrest⟩ := hcare
    obtain ⟨c₁, hexec, hrun⟩ := bind_eq_some_iff.1 h
    exact ih (hc.exec hcall hexec) (hrest c₁ hexec) hrun

/-- The byte is in a region with the given flags, which owns the frame its page is mapped to. -/
structure Serves (c c' : Context) (allowed : Region → Bool) (b : ℕ) : Prop where
  accepts : Accepts allowed c c' b
  fault : ∀ code room c'', (Call.fault b code room).Careful c →
    c.handlePageFault b code room = some c'' → ∃ r ∈ c.regions, r.Contains b ∧ r.flags.user = true ∧
      ∃ frame, c''.root.leaf (pageIndex b) = some frame ∧ r.Owns b frame

/-- In every context that careful calls build, the ranges that are accepted are covered byte by
byte. -/
theorem user_range_covered {calls : List Call} (hcare : init.CarefulRun calls)
    (hrun : init.run calls = some c) {addr size : ℕ} (haddr : addr < 2 ^ 64)
    (hsize : size < 2 ^ 64) (needed : Flags) :
    (∀ room c', c.ensureUserRangeMapped addr size needed room = some (true, c') →
      ∀ b, addr ≤ b → b < addr + size → Serves c c' (copyAllowed needed) b) ∧
    (c.userRangePermitted addr size needed = some true →
      ∀ b, addr ≤ b → b < addr + size → Serves c c (rangeAllowed needed) b) := by
  have hc := inv_init.run hcare hrun
  constructor
  · intro room c' h b hb hlt
    have haccepts := (hc.ensure h).2 rfl haddr hsize b hb hlt
    refine ⟨haccepts, fun code room c'' hfault h' => ?_⟩
    obtain ⟨r, hr, hin, hallowed, -⟩ := haccepts
    exact hc.fault_owns hr (user_of_copyAllowed hallowed) hin hfault h'
  · intro h b hb hlt
    obtain ⟨r, hr, hin, hallowed⟩ := hc.permitted h haddr hsize hb hlt
    exact ⟨⟨r, hr, hin, hallowed, fun hne => absurd rfl hne⟩, fun code room c'' hfault h' =>
      hc.fault_owns hr (user_of_rangeAllowed hallowed) hin hfault h'⟩

def grownLinear : List Call :=
  [.allocRegion 2 linearFlags .wasmLinear 0x100000,
    .bind (fun p => 0x200000 + p * 8192) 0 2 fun _ => true,
    .bind (fun p => 0x200000 + p * 8192) 2 4 fun _ => true]

theorem user_range_covered_grownLinear : ∃ c, init.run grownLinear = some c ∧
      (∃ r, c.ensureUserRangeMapped 0x8000000010 0x3000 linearFlags (fun _ => true) = some r ∧
        r.1 = true) ∧ ((∀ room c', c.ensureUserRangeMapped 0x8000000010 0x3000 linearFlags room =
          some (true, c') → ∀ b, 0x8000000010 ≤ b → b < 0x8000000010 + 0x3000 →
          Serves c c' (copyAllowed linearFlags) b) ∧
      (c.userRangePermitted 0x8000000010 0x3000 linearFlags = some true →
        ∀ b, 0x8000000010 ≤ b → b < 0x8000000010 + 0x3000 →
          Serves c c (rangeAllowed linearFlags) b)) := by
  have haccepted : ∃ c, init.run grownLinear = some c ∧
      ∃ r, c.ensureUserRangeMapped 0x8000000010 0x3000 linearFlags (fun _ => true) = some r ∧
        r.1 = true := by
    decide +kernel
  obtain ⟨c, hrun, hok⟩ := haccepted
  exact ⟨c, hrun, hok, user_range_covered (by decide +kernel) hrun (by decide) (by decide) _⟩

/-- A linear memory of 100 bytes: a check of a whole page is accepted. One of 2 pages that grows
from page 4 to page 5: a check of page 3 maps the frame behind its own two. A region without a
backing: a check maps it to frame zero. -/
theorem partialPage_and_gap_accepted :
    (∃ c, init.run [.allocRegion 2 linearFlags .wasmLinear 0x100000, .rebind 0x200000 100] =
        some c ∧
      (∃ r, c.ensureUserRangeMapped 0x8000000000 4096 linearFlags (fun _ => true) = some r ∧
        r.1 = true) ∧ c.userRangePermitted 0x8000000000 4096 linearFlags = some true ∧
      ∀ r ∈ c.regions, ¬ r.Contains (0x8000000000 + 100)) ∧
    (∃ c, init.run [.allocRegion 2 linearFlags .wasmLinear 0x100000,
        .bind (fun p => 0x200000 + p * 8192) 4 5 fun _ => true] = some c ∧
      ∃ r, c.ensureUserRangeMapped 0x8000003000 4096 linearFlags (fun _ => true) = some r ∧
        r.1 = true ∧ r.2.root.leaf (pageIndex 0x8000003000) = some 0x103000 ∧
        ∀ r ∈ c.regions, r.physBase + r.frames * 4096 ≤ 0x103000) ∧
    ∃ c, init.run [.addRegion 0x8000000000 4096 linearFlags .wasmLinear] = some c ∧
      ∃ r, c.ensureUserRangeMapped 0x8000000000 4096 linearFlags (fun _ => true) = some r ∧
        r.1 = true ∧ r.2.root.leaf (pageIndex 0x8000000000) = some 0 ∧
        ∀ r ∈ c.regions, r.frames = 0 := by
  simp only [Region.Contains]
  refine ⟨by decide +kernel, by decide +kernel, by decide +kernel⟩

end Context

end Memory
