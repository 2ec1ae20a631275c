import Mathlib.Data.Int.Notation
import Mathlib.Data.Nat.Notation
import Mathlib.Logic.Function.Basic
import Mathlib.Tactic.SplitIfs
import WasmOS.Procedure.Basic

/-! # The in-memory file system

The requests of `fs_tmpfs.zig` that name paths, over `fs_tmpfs_store.zig`: nodes and descriptors are
slots of two tables, and a file is a chain of blocks of a pool. A refused request changes nothing,
unless an open finds no descriptor after it has created or truncated its file.
-/

open List Function

namespace Tmpfs

open Procedure

abbrev Bytes := List UInt8

def maxNodes : ℕ := 192
def maxFds : ℕ := 32
def fdBase : ℤ := 3
def nameMax : ℕ := 255
def root : ℕ := 0

structure Node where
  inUse : Bool := false
  isDir : Bool := false
  parent : ℕ := 0
  first : ℕ := 0
  size : ℕ := 0
  name : Bytes := []

structure Fd where
  inUse : Bool := false
  node : ℕ := 0
  flags : UInt32 := 0
  offset : ℕ := 0

/-- The two tables, and the blocks of the pool with their bytes. -/
structure State where
  nodes : ℕ → Node
  fds : ℕ → Fd
  next : ℕ → ℕ
  used : ℕ → Bool
  data : ℕ → ℕ → UInt8

/-- The codes of the replies; `hangs` is none, when `isAncestor` does not return. -/
inductive Err
  | badArgs | pathTooLong | buffer | notFound | noSpace | isDir | noFd | nameExists | nodeOpen
  | notDir | notEmpty | busy | hangs
  deriving DecidableEq

abbrev Task := Procedure State Err

namespace State

variable (s : State)

def lookup (dir : ℕ) (name : Bytes) : Option ℕ := (List.range maxNodes).find? fun i =>
  (s.nodes i).inUse && (s.nodes i).parent == dir && i != root && (s.nodes i).name == name

def lookupAny (dir : ℕ) : Option ℕ := (List.range maxNodes).find? fun i =>
  (s.nodes i).inUse && i != root && (s.nodes i).parent == dir

def isAncestor (a : ℕ) : (fuel cur : ℕ) → Option Bool
  | 0, _ => none
  | fuel + 1, cur =>
    if cur = a then some true
    else if cur = root then some false
    else isAncestor a fuel (s.nodes cur).parent

def dot : Bytes := [46]
def dotDot : Bytes := [46, 46]

def components (path : Bytes) : List Bytes := (path.splitOn 47).filter (· ≠ [])

/-- One component of `resolve`. -/
def enter (cur : ℕ) (seg : Bytes) : Option ℕ :=
  if seg = dot then some cur
  else if seg = dotDot then some (s.nodes cur).parent
  else if !(s.nodes cur).isDir then none
  else s.lookup cur seg

def walk (cur : ℕ) (segs : List Bytes) : Option ℕ := segs.foldlM s.enter cur

/-- `resolve` from the root, which every request is resolved from. -/
def resolve (path : Bytes) : Option ℕ := s.walk root (components path)

def splitPath (path : Bytes) : Option (ℕ × Bytes) := do
  let name ← (components path).getLast?
  if nameMax < name.length ∨ name = dot ∨ name = dotDot then none
  else do
    let parent ← s.walk root (components path).dropLast
    if (s.nodes parent).isDir then some (parent, name) else none

/-- The blocks from `b` on; no chain is longer than there are block numbers. -/
def chain : (fuel b : ℕ) → List ℕ
  | 0, _ => []
  | fuel + 1, b => if b = 0 then [] else b :: chain fuel (s.next b)

def blocks (n : ℕ) : List ℕ := s.chain 65536 (s.nodes n).first

def modifyNode (n : ℕ) (f : Node → Node) : State :=
  { s with nodes := update s.nodes n (f (s.nodes n)) }

def releaseBlock (s : State) (b : ℕ) : State :=
  { s with used := update s.used b false, next := update s.next b 0 }

def truncateBlocks (n keep : ℕ) : State :=
  let kept := (s.blocks n).take keep
  let t := match kept.getLast? with
    | none => s.modifyNode n fun x => { x with first := 0 }
    | some prev => { s with next := update s.next prev 0 }
  ((s.blocks n).drop keep).foldl releaseBlock t

def nodeFree (n : ℕ) : State := (s.truncateBlocks n 0).modifyNode n fun _ => {}

def nodeIsOpen (n : ℕ) : Bool :=
  (List.range maxFds).any fun i => (s.fds i).inUse && (s.fds i).node == n

def modifyFd (i : ℕ) (f : Fd → Fd) : State := { s with fds := update s.fds i (f (s.fds i)) }

end State

def oAccessMask : UInt32 := 3
def oAppend : UInt32 := 0x0008
def oCreat : UInt32 := 0x0040
def oTrunc : UInt32 := 0x0200
def oKnownMask : UInt32 := oAccessMask ||| oAppend ||| oCreat ||| oTrunc

/-- `nodeAlloc`; both callers answer a null with the same code. -/
def nodeAlloc (parent : ℕ) (name : Bytes) (isDir : Bool) : Task ℕ := do
  let s ← get
  require (name ≠ [] ∧ name.length ≤ nameMax) .noSpace
  match (range' 1 (maxNodes - 1)).find? fun i => !(s.nodes i).inUse with
  | none => fail .noSpace
  | some i => do
    modify fun s => s.modifyNode i fun _ => { inUse := true, isDir, parent, name }
    pure i

def create (path : Bytes) : Task ℕ := do
  let s ← get
  match s.splitPath path with
  | none => fail .notFound
  | some (parent, name) => nodeAlloc parent name false

def openNode (path : Bytes) (flags : UInt32) : Task ℕ := do
  let s ← get
  match s.resolve path with
  | some n => pure n
  | none => if flags &&& oCreat = 0 then fail .notFound else create path

def takeFd (n : ℕ) (flags : UInt32) : Task ℤ := do
  let s ← get
  match (List.range maxFds).find? fun i => !(s.fds i).inUse with
  | none => fail .noFd
  | some i => do
    let offset := if flags &&& oAppend = 0 then 0 else (s.nodes n).size
    modify fun s => s.modifyFd i fun _ => ⟨true, n, flags, offset⟩
    pure (fdBase + i)

def handleOpen (path : Except Err Bytes) (flags : UInt32) : Task ℤ := do
  let path ← ofExcept path
  require (flags &&& ~~~oKnownMask = 0 ∧ flags &&& oAccessMask ≠ oAccessMask) .badArgs
  require (flags &&& oAccessMask ≠ 0 ∨ flags &&& (oAppend ||| oTrunc) = 0) .badArgs
  let n ← openNode path flags
  let s ← get
  require ((s.nodes n).isDir = false) .isDir
  if flags &&& oTrunc ≠ 0 ∧ (s.nodes n).size ≠ 0 then
    modify fun s => (s.truncateBlocks n 0).modifyNode n fun x => { x with size := 0 }
  else pure ()
  takeFd n flags

def mkdir (parent : ℕ) (name : Bytes) : Option ℕ → Task ℤ
  | some _ => fail .nameExists
  | none => do
    let _ ← nodeAlloc parent name true
    pure 0

def unlink : Option ℕ → Task ℤ
  | none => fail .notFound
  | some n => do
    let s ← get
    require ((s.nodes n).isDir = false) .isDir
    require (s.nodeIsOpen n = false) .nodeOpen
    modify fun s => s.nodeFree n
    pure 0

def rmdir : Option ℕ → Task ℤ
  | none => fail .notFound
  | some n => do
    let s ← get
    require ((s.nodes n).isDir = true) .notDir
    require (s.lookupAny n = none) .notEmpty
    modify fun s => s.nodeFree n
    pure 0

/-- `handleNamespace`, which its three requests share. -/
def handleNamespace (path : Except Err Bytes) (op : ℕ → Bytes → Option ℕ → Task ℤ) : Task ℤ := do
  let path ← ofExcept path
  let s ← get
  match s.splitPath path with
  | none => fail .notFound
  | some (parent, name) => op parent name (s.lookup parent name)

def relink (src parent : ℕ) (name : Bytes) : Task ℤ := do
  modify fun s => s.modifyNode src fun x => { x with parent, name }
  pure 0

def replace (src parent : ℕ) (name : Bytes) : Option ℕ → Task ℤ
  | none => relink src parent name
  | some victim =>
    if victim = src then pure 0
    else do
      let s ← get
      require ((s.nodes victim).isDir = false) .isDir
      require (s.nodeIsOpen victim = false) .busy
      modify fun s => s.nodeFree victim
      relink src parent name

/-- `handleRename` from the resolved paths on. -/
def renameTo (src parent : ℕ) (name : Bytes) : Task ℤ := do
  let s ← get
  require (s.nodeIsOpen src = false) .busy
  let above := if (s.nodes src).isDir then s.isAncestor src (maxNodes + 1) parent else some false
  require (above ≠ none) .hangs
  require (above = some false) .badArgs
  replace src parent name (s.lookup parent name)

def handleRename (src dst : Except Err Bytes) : Task ℤ := do
  let src ← ofExcept src
  let dst ← ofExcept dst
  let s ← get
  match s.resolve src with
  | none => fail .notFound
  | some n => do
    require (n ≠ root) .badArgs
    match s.splitPath dst with
    | none => fail .notFound
    | some (parent, name) => renameTo n parent name

/-- A path is what `takePath` makes of the client's buffer: any bytes, or its error. -/
inductive Request
  | open (path : Except Err Bytes) (flags : UInt32)
  | mkdir (path : Except Err Bytes)
  | unlink (path : Except Err Bytes)
  | rmdir (path : Except Err Bytes)
  | rename (src dst : Except Err Bytes)

def serve : Request → Task ℤ
  | .open path flags => handleOpen path flags
  | .mkdir path => handleNamespace path Tmpfs.mkdir
  | .unlink path => handleNamespace path fun _ _ => Tmpfs.unlink
  | .rmdir path => handleNamespace path fun _ _ => Tmpfs.rmdir
  | .rename src dst => handleRename src dst

def State.HasFd (s : State) : Prop := ∃ i < maxFds, (s.fds i).inUse = false

/-- An open with these flags passes the checks of `handleOpen`. -/
def FlagsOk (flags : UInt32) : Prop :=
  (flags &&& ~~~oKnownMask = 0 ∧ flags &&& oAccessMask ≠ oAccessMask) ∧
    (flags &&& oAccessMask ≠ 0 ∨ flags &&& (oAppend ||| oTrunc) = 0)

/-- An open of the path discards the content of its file, or makes its file in a free node. -/
def Acts (s : State) (path : Bytes) (flags : UInt32) : Prop :=
  match s.resolve path with
  | some n => (s.nodes n).isDir = false ∧ flags &&& oTrunc ≠ 0 ∧ (s.nodes n).size ≠ 0
  | none => flags &&& oCreat ≠ 0 ∧ s.splitPath path ≠ none ∧
      ∃ i ∈ range' 1 (maxNodes - 1), (s.nodes i).inUse = false

/-- An open that discards or makes something finds a descriptor. -/
def Spared (s : State) : Request → Prop
  | .open (.ok path) flags => FlagsOk flags → Acts s path flags → s.HasFd
  | _ => True

/-- From `s` the task succeeds, or leaves `s` as it is. -/
def Keeps {α : Type} (s : State) (m : Task α) : Prop := wp m (fun _ _ => True) (· = s) s

variable {s t : State} {path : Bytes} {flags : UInt32} {n parent : ℕ} {name : Bytes}
  {found : Option ℕ}

lemma nodeAlloc_spec {isDir : Bool} : wp (nodeAlloc parent name isDir)
    (fun n t => t.fds = s.fds ∧ (∃ i ∈ range' 1 (maxNodes - 1), (s.nodes i).inUse = false) ∧
      t ≠ s ∧ (t.nodes n).isDir = isDir ∧ (t.nodes n).size = 0)
    (fun t => t = s ∧ (name ≠ [] ∧ name.length ≤ nameMax →
      ¬ ∃ i ∈ range' 1 (maxNodes - 1), (s.nodes i).inUse = false)) s := by
  simp only [nodeAlloc, wp_bind, wp_get, wp_require]
  split_ifs with hname
  · split
    · next hnone =>
      refine ⟨rfl, fun _ hany => ?_⟩
      obtain ⟨i, hi, hfree⟩ := hany
      simpa [hfree] using find?_eq_none.mp hnone i hi
    · next i hi =>
      have hfree : (s.nodes i).inUse = false := by simpa using find?_some hi
      refine ⟨rfl, ⟨i, mem_of_find?_eq_some hi, hfree⟩, fun heq => ?_, ?_⟩
      · have := congrArg (fun t : State => (t.nodes i).inUse) heq
        simp [State.modifyNode, hfree] at this
      · simp [State.modifyNode]
  · exact ⟨trivial, fun h => absurd h hname⟩

lemma splitPath_some (h : s.splitPath path = some (parent, name)) :
    name ≠ [] ∧ name.length ≤ nameMax := by
  simp only [State.splitPath, Option.bind_eq_bind, Option.bind_eq_some_iff] at h
  obtain ⟨last, hlast, h⟩ := h
  split_ifs at h with hbad
  obtain ⟨dir, -, h⟩ := Option.bind_eq_some_iff.mp h
  split_ifs at h
  cases h
  exact ⟨by simpa using (mem_filter.mp (mem_of_getLast? hlast)).2, by omega⟩

lemma openNode_spec : wp (openNode path flags) (fun n t => t.fds = s.fds ∧
    (s.resolve path = some n ∧ t = s ∨
      Acts s path flags ∧ t ≠ s ∧ (t.nodes n).isDir = false ∧ (t.nodes n).size = 0))
    (fun t => t = s ∧ ¬ Acts s path flags) s := by
  simp only [openNode, create, wp_bind, wp_get]
  split
  · next hsome => exact ⟨rfl, .inl ⟨hsome, rfl⟩⟩
  next hnone =>
  simp only [Acts, hnone]
  split_ifs with hcreat
  · exact ⟨rfl, fun h => h.1 hcreat⟩
  simp only [wp_bind, wp_get]
  split
  · next hsplit => exact ⟨rfl, fun h => h.2.1 hsplit⟩
  · next hsplit =>
    refine wp_mono nodeAlloc_spec (fun n t h => ⟨h.1, .inr ⟨⟨hcreat, ?_, h.2.1⟩, h.2.2⟩⟩)
      fun t h => ⟨h.1, fun ha => h.2 (splitPath_some hsplit) ha.2.2⟩
    rw [hsplit]
    exact Option.some_ne_none _

lemma takeFd_hasFd (h : t.HasFd) : wp (takeFd n flags) (fun _ _ => True) (· = s) t := by
  simp only [takeFd, wp_bind, wp_get]
  split
  · next hnone =>
    obtain ⟨i, hi, hfree⟩ := h
    simpa [hfree] using find?_eq_none.1 hnone i (mem_range.2 hi)
  · trivial

lemma takeFd_noFd (h : ¬ t.HasFd) : wp (takeFd n flags) (fun _ _ => False) (· = t) t := by
  simp only [takeFd, wp_bind, wp_get]
  split
  · rfl
  · next i hi =>
    exact h ⟨i, mem_range.1 (mem_of_find?_eq_some hi), by simpa using find?_some hi⟩

lemma hasFd_congr (h : t.fds = s.fds) : t.HasFd ↔ s.HasFd := by
  rw [State.HasFd, State.HasFd, h]

lemma fds_truncateBlocks {keep : ℕ} : (s.truncateBlocks n keep).fds = s.fds := by
  have hrelease : ∀ bs t, (foldl State.releaseBlock t bs).fds = t.fds := by
    intro bs
    induction bs with
    | nil => exact fun _ => rfl
    | cons b bs ih => exact fun t => ih _
  unfold State.truncateBlocks
  rw [hrelease]
  split <;> rfl

lemma keeps_ofExcept {α β : Type} {r : Except Err α} {f : α → Task β}
    (h : ∀ a, r = .ok a → Keeps s (f a)) : Keeps s (ofExcept r >>= f) := by
  cases r with
  | error e => rfl
  | ok a => exact h a rfl

lemma handleOpen_hasFd (h : s.HasFd) : Keeps s (handleOpen (.ok path) flags) := by
  simp only [Keeps, handleOpen, wp_bind, wp_ofExcept, wp_require]
  split_ifs
  refine wp_mono openNode_spec (fun n t hopen => ?_) fun _ h => h.1
  obtain ⟨hfds, hn⟩ := hopen
  simp only [wp_get]
  split_ifs with hdir
  · exact takeFd_hasFd ((hasFd_congr fds_truncateBlocks).mpr ((hasFd_congr hfds).mpr h))
  · exact takeFd_hasFd ((hasFd_congr hfds).mpr h)
  · rcases hn with ⟨-, rfl⟩ | ⟨-, -, hfile, -⟩
    · rfl
    · exact absurd hfile hdir

/-- Without a descriptor an open is refused, and what it did stays. -/
lemma handleOpen_noFd (path : Bytes) (flags : UInt32) (h : ¬ s.HasFd) :
    wp (handleOpen (.ok path) flags) (fun _ _ => False)
      (fun t => t = s ↔ ¬ (FlagsOk flags ∧ Acts s path flags)) s := by
  simp only [handleOpen, wp_bind, wp_ofExcept, wp_require]
  split_ifs with hknown haccess
  · have hflags : FlagsOk flags := ⟨hknown, haccess⟩
    refine wp_mono openNode_spec (fun n t hopen => ?_) fun t ht =>
      iff_of_true ht.1 fun ha => ht.2 ha.2
    obtain ⟨hfds, hn⟩ := hopen
    simp only [wp_get]
    rcases hn with ⟨hn, rfl⟩ | ⟨hacts, hne, hfile, hsize⟩
    · have hacts : Acts t path flags ↔
          (t.nodes n).isDir = false ∧ flags &&& oTrunc ≠ 0 ∧ (t.nodes n).size ≠ 0 := by
        simp only [Acts, hn]
      split_ifs with hfile htrunc
      · refine wp_mono (takeFd_noFd (mt (hasFd_congr fds_truncateBlocks).mp h)) (fun _ _ => id) ?_
        rintro u rfl
        refine iff_of_false (fun heq => htrunc.2 ?_)
          (not_not.mpr ⟨hflags, hacts.mpr ⟨hfile, htrunc⟩⟩)
        rw [← heq]
        simp [State.modifyNode]
      · refine wp_mono (takeFd_noFd h) (fun _ _ => id) fun u hu => ?_
        exact iff_of_true hu fun ha => htrunc (hacts.mp ha.2).2
      · exact iff_of_true rfl fun ha => hfile (hacts.mp ha.2).1
    · rw [if_pos hfile, if_neg fun ht => ht.2 hsize]
      refine wp_mono (takeFd_noFd (mt (hasFd_congr hfds).mp h)) (fun _ _ => id) ?_
      rintro u rfl
      exact iff_of_false hne (not_not.mpr ⟨hflags, hacts⟩)
  · exact iff_of_true trivial fun ha => haccess ha.1.2
  · exact iff_of_true trivial fun ha => hknown ha.1.1

variable {path : Except Err Bytes}

lemma keeps_handleNamespace {op : ℕ → Bytes → Option ℕ → Task ℤ}
    (h : ∀ parent name, Keeps s (op parent name (s.lookup parent name))) :
    Keeps s (handleNamespace path op) := by
  refine keeps_ofExcept fun path _ => ?_
  simp only [Keeps, wp_bind, wp_get]
  split
  · rfl
  · exact h _ _

lemma keeps_mkdir : Keeps s (mkdir parent name found) := by
  cases found with
  | some n => rfl
  | none => exact wp_seq nodeAlloc_spec (fun _ _ _ => trivial) fun _ h => h.1

lemma keeps_unlink : Keeps s (unlink found) := by cases found <;> simp [Keeps, unlink]

lemma keeps_rmdir : Keeps s (rmdir found) := by cases found <;> simp [Keeps, rmdir]

lemma keeps_replace : Keeps s (replace n parent name found) := by
  cases found with
  | none => trivial
  | some victim =>
    by_cases hsrc : victim = n <;> simp [Keeps, replace, relink, hsrc]

lemma keeps_renameTo : Keeps s (renameTo n parent name) := by
  simp only [Keeps, renameTo, wp_bind, wp_get, wp_require]
  split_ifs
  all_goals exact keeps_replace

lemma keeps_handleRename {src dst : Except Err Bytes} : Keeps s (handleRename src dst) := by
  refine keeps_ofExcept fun src _ => keeps_ofExcept fun dst _ => ?_
  simp only [Keeps, wp_bind, wp_get]
  split
  · rfl
  simp only [wp_bind, wp_require]
  split_ifs
  split
  · rfl
  · exact keeps_renameTo

/-- A request that is answered with an error leaves the tables and the pool as they were, except an
open that creates or truncates its file and finds no descriptor. -/
theorem refused_changes_nothing (s : State) (r : Request) :
    (∀ e t, serve r s = (.error e, t) → t = s) ↔ Spared s r := by
  have hkeeps : Keeps s (serve r) → ∀ e t, serve r s = (.error e, t) → t = s := by
    intro hr e t he
    rwa [Keeps, wp, he] at hr
  cases r with
  | mkdir path => exact iff_of_true (hkeeps (keeps_handleNamespace fun _ _ => keeps_mkdir)) trivial
  | unlink path =>
    exact iff_of_true (hkeeps (keeps_handleNamespace fun _ _ => keeps_unlink)) trivial
  | rmdir path => exact iff_of_true (hkeeps (keeps_handleNamespace fun _ _ => keeps_rmdir)) trivial
  | rename src dst => exact iff_of_true (hkeeps keeps_handleRename) trivial
  | «open» path flags =>
    cases path with
    | error e => exact iff_of_true (hkeeps rfl) trivial
    | ok path =>
      by_cases hfd : s.HasFd
      · exact iff_of_true (hkeeps (handleOpen_hasFd hfd)) fun _ _ => hfd
      · have hopen := handleOpen_noFd path flags hfd
        simp only [wp] at hopen
        simp only [serve, Spared, hfd, imp_false, ← not_and]
        generalize handleOpen (.ok path) flags s = result at hopen ⊢
        obtain ⟨⟨e⟩ | ⟨a⟩, t⟩ := result
        · refine Iff.trans ⟨fun h => h e t rfl, ?_⟩ hopen
          rintro rfl _ _ ⟨⟩
          rfl
        · exact hopen.elim

/-- A root directory with one file of one block, and all descriptors on it in use or not. -/
def oneFile (open' : Bool) : State where
  nodes i :=
  if i = 0 then { inUse := true, isDir := true }
    else if i = 1 then { inUse := true, first := 1, size := 1, name := [102] } else {}
  fds _ := { inUse := open', node := 1 }
  next _ := 0
  used b := b == 1
  data _ _ := 7

/-- With all descriptors taken, an open with `O_TRUNC` is refused after the file's content is gone,
and one with `O_CREAT` after the file was made. -/
theorem refused_open_truncates_and_creates :
    (∃ t, serve (.open (.ok [102]) 0x202) (oneFile true) = (.error .noFd, t) ∧
      (t.nodes 1).size = 0 ∧ t.used 1 = false) ∧
    ∃ t, serve (.open (.ok [103]) 0x42) (oneFile true) = (.error .noFd, t) ∧
      (t.nodes 2).inUse = true := by
  refine ⟨⟨_, rfl, ?_⟩, _, rfl, ?_⟩
  · decide +kernel
  · decide +kernel

end Tmpfs
