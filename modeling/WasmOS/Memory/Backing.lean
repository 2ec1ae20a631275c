import Mathlib.Algebra.Order.Ring.Nat
import Mathlib.Data.Multiset.AddSub

/-! # Memory contexts and the frames of their regions

`memory.c`: the regions and page tables of one context, and what they take from the frame allocator.
A rebind returns as many frames as the region has pages, its own as long as it has not grown.
-/

open Function List

namespace Memory

def wrap (x : ℕ) : ℕ := x % 2 ^ 64

def sub (x y : ℕ) : ℕ := wrap (x + (2 ^ 64 - y))

def pageBase (addr : ℕ) : ℕ := addr / 4096 * 4096

def pageAlignUp (size : ℕ) : ℕ := if size = 0 then 0 else pageBase (wrap (size + 4095))

/-- `MEM_REGION_FLAG_*`. -/
structure Flags where
  read : Bool
  write : Bool
  exec : Bool
  user : Bool
  physExternal : Bool
  deriving DecidableEq, Repr

inductive RegionType
  | wasmLinear
  | stack
  | heap
  | ipc
  | device
  | code
  deriving DecidableEq, Repr

structure Region where
  base : ℕ
  physBase : ℕ
  size : ℕ
  flags : Flags
  type : RegionType
  /-- How many frames from `physBase` on the region was given. The code does not keep this number
  once the region has been bound again or has grown. -/
  frames : ℕ

def pageIndex (virt : ℕ) : ℕ := virt / 4096 % 2 ^ 36

/-- The leaf entries, and which of the last-level tables exist. -/
structure Root where
  leaf : ℕ → Option ℕ
  table : ℕ → Bool

namespace Root

def isUserSlot (virt : ℕ) : Bool := pageIndex virt / 2 ^ 27 = 1

variable (root : Root)

/-- `paging_map_4k_in_root`; `room` says whether a frame for a missing table is free. -/
def map (virt phys : ℕ) (flags : Flags) (room : Bool) : Option Root :=
  if isUserSlot virt ≠ flags.user then none
  else if flags.user && flags.write && flags.exec then none
  else if !root.table (pageIndex virt / 512) && !room then none
  else
    some {
      leaf := update root.leaf (pageIndex virt) (some (pageBase phys))
      table := update root.table (pageIndex virt / 512) true }

def unmap (virt : ℕ) : Root := { root with leaf := update root.leaf (pageIndex virt) none }

/-- `paging_virt_to_phys_in_root`: zero also for a mapping to frame zero. -/
def virtToPhys (virt : ℕ) : ℕ :=
  match root.leaf (pageIndex virt) with
  | none => 0
  | some frame => frame % 2 ^ 52 + virt % 4096

/-- Replace the mappings of pages `p, p + 1, …` behind an address, up to the first that cannot be.
-/
def overlay (virt : ℕ) (frame : ℕ → Option ℕ) (flags : Flags) (room : ℕ → Bool) :
    (count p : ℕ) → Root → Bool × Root
  | 0, _, root => (true, root)
  | count + 1, p, root =>
    match frame p with
    | none => (false, root)
    | some phys =>
      let addr := wrap (virt + wrap (p * 4096))
      match (root.unmap addr).map addr phys flags (room p) with
      | none => (false, root.unmap addr)
      | some root' => overlay virt frame flags room count (p + 1) root'

end Root

structure Context where
  regions : List Region
  root : Root

def findRegion (regions : List Region) (addr : ℕ) : Option Region :=
  regions.find? fun r => r.base ≤ addr ∧ addr < wrap (r.base + r.size)

def Flags.valid (flags : Flags) : Bool := !(flags.user && flags.write && flags.exec)

def virtualBase : RegionType → ℕ
  | .wasmLinear => 0x8000000000
  | .stack => 0x8100000000
  | .heap => 0x8200000000
  | .ipc => 0x8300000000
  | .device => 0x8400000000
  | .code => 0

def Region.isLinear (r : Region) : Bool := r.type = .wasmLinear

def updateFirst (p : Region → Bool) (f : Region → Region) : List Region → List Region
  | [] => []
  | r :: rs => if p r then f r :: rs else r :: updateFirst p f rs

namespace Context

variable (c : Context)

def addRegion (base size : ℕ) (flags : Flags) (type : RegionType) : Context :=
  if flags.valid then { c with regions := c.regions ++ [⟨base, 0, size, flags, type, 0⟩] } else c

/-- `mm_context_alloc_region`, with the run of frames that the allocator finds, zero for
none. -/
def allocRegion (pages : ℕ) (flags : Flags) (type : RegionType) (phys : ℕ) : Context :=
  if pages = 0 ∨ phys = 0 ∨ virtualBase type = 0 then c
  else if flags.valid then
    { c with
      regions :=
        c.regions ++ [⟨virtualBase type, phys, wrap (pages * 4096), flags, type, pages⟩] }
  else c

/-- `mm_context_rebind_wasm_linear` to a backing of `size` bytes that the caller owns. -/
def rebindWasmLinear (phys size : ℕ) : Context :=
  if phys = 0 ∨ size = 0 ∨ phys % 4096 ≠ 0 then c
  else
    match c.regions.find? Region.isLinear with
    | none => c
    | some r =>
      if r.physBase = phys ∧ r.size = size ∧ r.flags.physExternal then c
      else
        let bytes := max (pageAlignUp r.size) (pageAlignUp size)
        { regions :=
            updateFirst Region.isLinear (fun r => { r with
                physBase := phys, size := size, frames := size / 4096
                flags := { r.flags with physExternal := true } }) c.regions
          root :=
            (List.range (bytes / 4096)).foldl
              (fun root i => root.unmap (wrap (r.base + i * 4096))) c.root }

def linearFlags : Flags := ⟨true, true, false, true, false⟩

/-- `mm_context_bind_wasm_linear_scattered`; `slot p` is where page `p` is, or zero. -/
def bindWasmLinearScattered (slot : ℕ → ℕ) (fromPage toPage : ℕ) (room : ℕ → Bool) : Context :=
  if toPage ≤ fromPage then c
  else
    match c.regions.find? Region.isLinear with
    | none => c
    | some r =>
      let frame := fun p =>
        let phys := pageBase (slot p % 2 ^ 52)
        if phys = 0 then none else some phys
      let (ok, root) := Root.overlay r.base frame linearFlags room
          (toPage - fromPage) fromPage c.root
      let newSize := wrap (toPage * 4096)
      if ok then
        { regions :=
            updateFirst Region.isLinear (fun r => { r with size := max r.size newSize }) c.regions
          root := root }
      else { c with root := root }

def mapPhysical (virt phys size : ℕ) (flags : Flags) (room : ℕ → Bool) : Context :=
  if virt = 0 ∨ phys = 0 ∨ size = 0 then c
  else if virt % 4096 ≠ 0 ∨ phys % 4096 ≠ 0 ∨ size % 4096 ≠ 0 then c
  else if !flags.valid then c
  else
    match c.regions.find? Region.isLinear with
    | none => c
    | some r =>
      if virt < r.base ∨ wrap (r.base + r.size) < wrap (virt + size) then c
      else
        let frame := fun i => some (wrap (phys + i * 4096))
        { c with root := (Root.overlay virt frame flags room (size / 4096) 0 c.root).2 }

/-- The loop of the range checks: `visit` is done on every page whose region is `allowed`. None if
the loop does not end. -/
def walk (allowed : Region → Bool) (visit : Context → Region → ℕ → Option Context) (stop : ℕ) :
    (fuel cur : ℕ) → Context → Option (Bool × Context)
  | 0, _, _ => none
  | fuel + 1, cur, c =>
    if cur < stop then
      match findRegion c.regions cur with
      | none => some (false, c)
      | some r =>
        if allowed r then
          match visit c r (pageBase cur) with
          | none => some (false, c)
          | some c' => walk allowed visit stop fuel (wrap (pageBase cur + 4096)) c'
        else some (false, c)
    else some (true, c)

def walkRange (allowed : Region → Bool)
    (visit : Context → Region → ℕ → Option Context) (addr size : ℕ) : Option (Bool × Context) :=
  if addr = 0 ∨ size = 0 ∨ wrap (addr + size) < addr then some (false, c)
  else walk allowed visit (wrap (addr + size)) (2 ^ 52 + 1) addr c

def copyAllowed (needed : Flags) (r : Region) : Bool :=
  r.flags.user && r.flags.read && (!needed.write || r.flags.write)

def ensurePage (room : ℕ → Bool) (c : Context) (r : Region) (page : ℕ) : Option Context :=
  if c.root.virtToPhys page ≠ 0 then some c
  else
    (c.root.map page (wrap (r.physBase + sub page r.base)) r.flags (room page)).map
      fun root => { c with root := root }

def ensureUserRangeMapped (addr size : ℕ) (needed : Flags) (room : ℕ → Bool) :
    Option (Bool × Context) :=
  c.walkRange (copyAllowed needed) (ensurePage room) addr size

def rangeAllowed (needed : Flags) (r : Region) : Bool :=
  r.flags.user && (!needed.read || r.flags.read) && (!needed.write || r.flags.write) &&
    (!needed.exec || r.flags.exec)

def userRangePermitted (addr size : ℕ) (needed : Flags) : Option Bool :=
  (c.walkRange (rangeAllowed needed) (fun c _ _ => some c) addr size).map Prod.fst

structure FaultCode where
  present : Bool
  write : Bool
  user : Bool
  instr : Bool
  deriving DecidableEq, Repr

/-- `mm_handle_page_fault`; none if the fault is refused. -/
def handlePageFault (addr : ℕ) (code : FaultCode) (room : Bool) : Option Context :=
  if code.present then none
  else
    match findRegion c.regions addr with
    | none => none
    | some r =>
      if code.user && !r.flags.user then none
      else if code.write && !r.flags.write then none
      else if code.instr && !r.flags.exec then none
      else
        let page := pageBase addr
        (c.root.map page (wrap (r.physBase + sub page r.base)) r.flags room).map
          fun root => { c with root := root }

def init : Context := ⟨[], ⟨fun _ => none, fun _ => false⟩⟩

end Context

inductive Call
  | addRegion (base size : ℕ) (flags : Flags) (type : RegionType)
  | allocRegion (pages : ℕ) (flags : Flags) (type : RegionType) (phys : ℕ)
  | rebind (phys size : ℕ)
  | bind (slot : ℕ → ℕ) (fromPage toPage : ℕ) (room : ℕ → Bool)
  | mapPhysical (virt phys size : ℕ) (flags : Flags) (room : ℕ → Bool)
  | ensure (addr size : ℕ) (needed : Flags) (room : ℕ → Bool)
  | fault (addr : ℕ) (code : Context.FaultCode) (room : Bool)

def Context.exec (c : Context) : Call → Option Context
  | .addRegion base size flags type => some (c.addRegion base size flags type)
  | .allocRegion pages flags type phys => some (c.allocRegion pages flags type phys)
  | .rebind phys size => some (c.rebindWasmLinear phys size)
  | .bind slot fromPage toPage room => some (c.bindWasmLinearScattered slot fromPage toPage room)
  | .mapPhysical virt phys size flags room => some (c.mapPhysical virt phys size flags room)
  | .ensure addr size needed room => (c.ensureUserRangeMapped addr size needed room).map Prod.snd
  | .fault addr code room => some ((c.handlePageFault addr code room).getD c)

def Context.run : Context → List Call → Option Context
  | c, [] => some c
  | c, call :: calls => (c.exec call).bind fun c' => run c' calls

open Region

structure Run where
  phys : ℕ
  pages : ℕ
  deriving DecidableEq

inductive Note
  | took (run : Run)
  | freed (run : Run)

/-- The runs held after the notes; none if one is freed that is not held. -/
def settle : Multiset Run → List Note → Option (Multiset Run)
  | held, [] => some held
  | held, .took run :: ns => settle (run ::ₘ held) ns
  | held, .freed run :: ns => if run ∈ held then settle (held.erase run) ns else none

lemma settle_append (held : Multiset Run) (ns ms : List Note) :
    settle held (ns ++ ms) = (settle held ns).bind (settle · ms) := by
  fun_induction settle held ns <;> simp_all [settle]

namespace Region

variable (r : Region)

/-- The frames the region owns; `frames` is `backing_pages` unless they are external. -/
def run? : Option Run :=
  if r.physBase ≠ 0 ∧ !r.flags.physExternal then some ⟨r.physBase, r.frames⟩ else none

def Backed : Prop := r.run?.isSome → r.frames ≠ 0 ∧ r.size ≠ 0

/-- What `mm_context_release_regions` frees for the region. -/
def release : List Note :=
  if r.physBase ≠ 0 ∧ r.size ≠ 0 then
    if !r.flags.physExternal ∧ r.frames ≠ 0 then [.freed ⟨r.physBase, r.frames⟩] else []
  else []

def oldPages : ℕ := wrap (r.size + 4095) / 4096

end Region

namespace Context

variable (c : Context)

def owned : Multiset Run := (c.regions.filterMap run? : List Run)

def releaseRegions : List Note := c.regions.flatMap release

/-- What a call takes and frees. -/
def notes : Call → List Note
  | .allocRegion pages flags type phys =>
    if pages = 0 ∨ phys = 0 then []
    else if virtualBase type = 0 ∨ !flags.valid then [.took ⟨phys, pages⟩, .freed ⟨phys, pages⟩]
    else [.took ⟨phys, pages⟩]
  | .rebind phys size =>
    if phys = 0 ∨ size = 0 ∨ phys % 4096 ≠ 0 then []
    else
      match c.regions.find? isLinear with
      | none => []
      | some r =>
        if r.run?.isSome ∧ r.physBase ≠ phys ∧ r.oldPages ≠ 0 then
          [.freed ⟨r.physBase, r.oldPages⟩]
        else []
  | _ => []

/-- An allocation is not external, and a rebind finds the linear memory as large as its own frames.
-/
def thrifty : Call → Prop
  | .allocRegion pages flags _ _ => flags.physExternal = false ∧ pages < 2 ^ 52
  | .rebind phys _ => ∀ r, c.regions.find? isLinear = some r → r.run?.isSome →
    r.physBase ≠ phys ∧ r.oldPages = r.frames
  | _ => True

/-- Runs of calls that are `ok`, with their notes. `full` is an allocation without room for a
region. -/
inductive Traced (ok : Context → Call → Prop) : Context → List Note → Prop
  | init : Traced ok init []
  | call {c c' : Context} {ns : List Note} (call : Call) : Traced ok c ns → ok c call →
    c.exec call = some c' → Traced ok c' (ns ++ c.notes call)
  | full {c : Context} {ns : List Note} (run : Run) : Traced ok c ns →
    Traced ok c (ns ++ [.took run, .freed run])

section Regions

variable {p : Region → Bool} {f : Region → Region} {rs : List Region} {r : Region}

lemma settle_release (h : ∀ r ∈ rs, r.Backed) :
    settle (rs.filterMap run?) (rs.flatMap release) = some 0 := by
  induction rs with
  | nil => rfl
  | cons r rs ih =>
    have hrest := ih fun x hx => h x (mem_cons_of_mem r hx)
    have hr := h r (.head _)
    by_cases hown : r.physBase ≠ 0 ∧ r.flags.physExternal = false
    · simp [Region.Backed, run?, hown] at hr
      simpa [run?, release, hown, hr, settle] using hrest
    have hnone : r.run? = none ∧ r.release = [] := by
      grind [run?, release]
    simpa [hnone] using hrest

lemma forall_updateFirst {P : Region → Prop} (h : ∀ r ∈ rs, P r) (hf : ∀ r, P r → P (f r)) :
    ∀ r ∈ updateFirst p f rs, P r := by
  induction rs with
  | nil => nofun
  | cons y rs ih =>
    rw [updateFirst]
    split_ifs <;> grind

/-- An update of the first region with `p` exchanges its run. -/
lemma filterMap_updateFirst (h : rs.find? p = some r) :
    r.run?.toList ++ (updateFirst p f rs).filterMap run? ~
      (f r).run?.toList ++ rs.filterMap run? := by
  induction rs with
  | nil => cases h
  | cons x rs ih =>
    by_cases hx : p x
    · obtain rfl : x = r := by simpa [hx] using h
      cases hx' : x.run? <;> cases hf : (f x).run? <;>
        simp [updateFirst, hx, hx', hf, Perm.swap]
    have hperm := ih (by simpa [hx] using h)
    simp only [updateFirst, hx, filterMap_cons, Bool.false_eq_true, if_false]
    cases x.run? with
    | none => exact hperm
    | some run => exact (perm_middle.trans (hperm.cons run)).trans perm_middle.symm

end Regions

lemma walk_regions {allowed : Region → Bool} {visit : Context → Region → ℕ → Option Context}
    (hvisit : ∀ c r page c', visit c r page = some c' → c'.regions = c.regions) {stop fuel cur : ℕ}
    {c : Context} {x : Bool × Context} (h : walk allowed visit stop fuel cur c = some x) :
    x.2.regions = c.regions := by
  fun_induction walk allowed visit stop fuel cur c <;> grind

variable {c} {c' : Context}

lemma regions_of_map {o : Option Root} (h : (o.map fun root => { c with root }) = some c') :
    c'.regions = c.regions := by
  obtain ⟨root, -, rfl⟩ := Option.map_eq_some_iff.1 h
  rfl

lemma settled_of_exec (h : ∀ r ∈ c.regions, r.Backed) {call : Call} (hok : c.thrifty call)
    (hexec : c.exec call = some c') :
    (∀ r ∈ c'.regions, r.Backed) ∧ settle c.owned (c.notes call) = some c'.owned := by
  have hsame : ∀ {d : Context}, d.regions = c.regions → (∀ r ∈ d.regions, r.Backed) ∧
      settle c.owned [] = some d.owned := fun hd => by
    simpa [owned, settle, hd] using h
  cases call with
  | addRegion base size flags type =>
    cases hexec
    unfold addRegion
    split_ifs
    · refine ⟨forall_mem_append.2 ⟨h, ?_⟩, ?_⟩
      · simp [Region.Backed, run?]
      · simp [owned, notes, settle, run?]
    · exact hsame rfl
  | allocRegion pages flags type phys =>
    obtain ⟨hext, hpages⟩ := hok
    cases hexec
    unfold allocRegion
    simp only [notes]
    split_ifs with hzero
    -- left are a type without a place, the success and flags that are refused
    any_goals first | exact hsame rfl | grind
    · exact ⟨h, by simp [settle]⟩
    · push Not at hzero
      have hsize : wrap (pages * 4096) ≠ 0 := by
        unfold wrap
        omega
      refine ⟨forall_mem_append.2 ⟨h, by simp [Region.Backed, hzero, hsize]⟩, ?_⟩
      simpa [settle, owned, run?, hext, hzero] using (perm_append_singleton _ _).symm
    · exact ⟨h, by simp [settle]⟩
  | rebind phys size =>
    cases hexec
    unfold rebindWasmLinear
    simp only [notes]
    split_ifs with hzero
    · exact hsame rfl
    cases hfind : c.regions.find? isLinear with
    | none => exact hsame rfl
    | some r =>
      have hexch := filterMap_updateFirst (f := fun r => { r with
        physBase := phys, size := size, frames := size / 4096
        flags := { r.flags with physExternal := true } }) hfind
      simp only [run?, Bool.not_true, Bool.false_eq_true, and_false, if_false,
        Option.toList_none, nil_append] at hexch
      dsimp only
      by_cases hown : r.physBase ≠ 0 ∧ !r.flags.physExternal
      · have hrun : r.run?.isSome := by simp [run?, hown]
        obtain ⟨hphys, hpages⟩ := hok r hfind hrun
        obtain ⟨hframes, -⟩ := h r (mem_of_find?_eq_some hfind) hrun
        rw [if_neg (by grind), if_pos ⟨hrun, hphys, by rwa [hpages]⟩]
        refine ⟨forall_updateFirst h (by simp [Region.Backed, run?]), ?_⟩
        rw [if_pos hown] at hexch
        rw [hpages, owned, ← Multiset.coe_eq_coe.2 hexch]
        simp [settle, owned]
      have hrun : ¬ r.run?.isSome := by simpa [run?] using hown
      rw [if_neg (c := r.run?.isSome ∧ _) (by tauto)]
      split_ifs
      · exact hsame rfl
      refine ⟨forall_updateFirst h (by simp [Region.Backed, run?]), ?_⟩
      rw [if_neg hown] at hexch
      exact congrArg some (Multiset.coe_eq_coe.2 hexch.symm)
  | bind slot fromPage toPage room =>
    cases hexec
    unfold bindWasmLinearScattered
    split_ifs
    · exact hsame rfl
    cases hfind : c.regions.find? isLinear with
    | none => exact hsame rfl
    | some r =>
      dsimp only
      split_ifs
      · refine ⟨forall_updateFirst h fun r hr hrun => ?_, congrArg some (Multiset.coe_eq_coe.2
          ((perm_append_left_iff _).1 (filterMap_updateFirst hfind)).symm)⟩
        obtain ⟨hframes, hsize⟩ := hr hrun
        exact ⟨hframes, by dsimp only; omega⟩
      · exact hsame rfl
  | mapPhysical virt phys size flags room =>
    cases hexec
    refine hsame ?_
    unfold mapPhysical
    repeat' split
    all_goals rfl
  | ensure addr size needed room =>
    obtain ⟨x, hx, rfl⟩ := Option.map_eq_some_iff.1 hexec
    refine hsame ?_
    unfold ensureUserRangeMapped walkRange at hx
    split_ifs at hx
    · cases hx
      rfl
    refine walk_regions (fun c r page c' hvisit => ?_) hx
    unfold ensurePage at hvisit
    split_ifs at hvisit
    · cases hvisit
      rfl
    · exact regions_of_map hvisit
  | fault addr code room =>
    cases hexec
    refine hsame ?_
    cases hfault : c.handlePageFault addr code room with
    | none => rfl
    | some d =>
      unfold handlePageFault at hfault
      repeat' split at hfault
      any_goals cases hfault
      exact regions_of_map hfault

lemma Traced.settled {ns : List Note} (h : Traced thrifty c ns) :
    (∀ r ∈ c.regions, r.Backed) ∧ settle 0 ns = some c.owned := by
  induction h with
  | init => exact ⟨nofun, rfl⟩
  | call call _ hok hexec ih =>
    rw [settle_append, ih.2]
    exact settled_of_exec ih.1 hok hexec
  | full run _ ih =>
    rw [settle_append, ih.2]
    exact ⟨ih.1, by simp [settle]⟩

/-- In every run of thrifty calls only held frames are freed, and the release frees what is left. -/
theorem frames_freed_once {ns : List Note} (h : Traced thrifty c ns) :
    ∃ held, settle 0 ns = some held ∧ settle held c.releaseRegions = some 0 :=
  ⟨_, h.settled.2, settle_release h.settled.1⟩

def smallLinear : Call := .allocRegion 1 linearFlags .wasmLinear 0x10000

theorem frames_freed_once_rebound :
    ∃ held, settle 0 [.took ⟨0x10000, 1⟩, .freed ⟨0x10000, 1⟩] = some held ∧
      settle held ((init.allocRegion 1 linearFlags .wasmLinear 0x10000).rebindWasmLinear
        0x40000 4096).releaseRegions = some 0 := by
  refine frames_freed_once (.call (.rebind 0x40000 4096)
    (.call smallLinear .init (by simp [thrifty, smallLinear, linearFlags]) rfl) ?_ rfl)
  rintro r hr -
  cases hr
  decide

/-- A linear memory of one frame that has grown to two pages frees two frames when it is bound
again. -/
theorem rebind_frees_by_size : ∃ c ns, Traced (fun _ _ => True) c ns ∧ settle 0 ns = none := by
  refine ⟨_, _, .call (.rebind 0x40000 4096) (.call (.bind (fun _ => 0x20000) 0 2 fun _ => true)
    (.call smallLinear .init trivial rfl) trivial rfl) trivial rfl, ?_⟩
  decide +kernel

end Context

end Memory
