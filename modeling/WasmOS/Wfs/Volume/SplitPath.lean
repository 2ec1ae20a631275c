import Mathlib.Data.List.DropRight
import WasmOS.Wfs.Volume.ExtentMap

/-! # Splitting a path and walking it

`wfs_dirent_split_path` cuts the last name off a path, `wfs_path_task` takes names off from the
start. A walk is a walk to the parent and one step more, which also reads the record it finds.
-/

open List

namespace Wfs

def pathMax : ℕ := 512
def slash : UInt8 := 47

/-- A stride a scan follows: long enough for a record, aligned, and within the block. -/
def strideOk (usable off length : ℕ) : Bool :=
  decide (16 ≤ length) && length % 8 == 0 && decide (off + length ≤ usable)

def Dirent.live (r : Dirent) : Bool := r.object != 0 && r.name != []

def Dirent.wanted (want : Name) (r : Dirent) : Bool := r.live && (want == [] || r.name == want)

def scanRecords (usable : ℕ) (want : Name) : List Dirent → (off : ℕ) →
    Except Err (Option (Dirent × ℕ))
  | [], off => if off + 12 ≤ usable then .error .corrupt else .ok none
  | r :: rs, off =>
    if off + 12 ≤ usable then
      if !strideOk usable off r.length then .error .corrupt
      else if r.length - 12 < r.name.length then .error .corrupt
      else if r.wanted want then .ok (some (r, off + r.length))
      else scanRecords usable want rs (off + r.length)
    else .ok none

/-- The records from an offset on; off a record's start there is nothing to stride by. -/
def recordsAt : List Dirent → (off : ℕ) → List Dirent
  | rs, 0 => rs
  | [], _ + 1 => []
  | r :: rs, off + 1 => if r.length ≤ off + 1 then recordsAt rs (off + 1 - r.length) else []

variable (d : Dims) (V : Volume)

def dirLoop (o : Object) (want : Name) : (left logical off : ℕ) →
    Except Err (Option (Dirent × ℕ × ℕ))
  | 0, _, _ => .ok none
  | left + 1, logical, off => do
    match ← extentLookup d V o logical with
    | none => .error .corrupt
    | some physical =>
      match V.block physical with
      | .dir records =>
        match ← scanRecords (dirUsableBytes d.blockSize) want (recordsAt records off) off with
        | some (r, next) => .ok (some (r, logical, next))
        | none => dirLoop o want left (logical + 1) 0
      | _ => .error .checksum

variable (o : Object)

/-- `wfs_dir_task` from a cursor. -/
def dirTask (want : Name) (logical off : ℕ) :
    Except Err (Option (Dirent × ℕ × ℕ)) :=
  if o.type ≠ .dir then .error .notDir
  else if nameMax < want.length then .error .name
  else if o.size = 0 ∨ o.size % d.blockSize ≠ 0 then .error .corrupt
  else dirLoop d V o want (o.size / d.blockSize - logical) logical off

def dirLookup (name : Name) : Except Err (Option ℕ) := do
  let found ← dirTask d V o name 0 0
  .ok (found.map fun f => f.1.object)

variable (totalObjects : ℕ)

/-- `wfs_object_task`: the record of an object, checked for what a reader relies on. -/
def objectTask (id : ℕ) : Except Err Object :=
  if id = 0 ∨ totalObjects ≤ id then .error .notFound
  else
    match V.object id with
    | none => .error .checksum
    | some o =>
      if o.inlineFlag then
        if inlineDataMax < o.size ∨ o.extentCount ≠ 0 ∨ o.treeBlock ≠ 0 then .error .corrupt
        else .ok o
      else if inlineExtents < o.extentCount ∧ o.treeBlock = 0 then .error .corrupt
      else .ok o

/-- The next component of a path and what follows it. Separators before it are skipped. -/
def nextComponent (path : List UInt8) : Name × List UInt8 :=
  let rest := path.dropWhile (· == slash)
  (rest.takeWhile (· != slash), rest.dropWhile (· != slash))

def pathLoop : (fuel : ℕ) → (path : List UInt8) → (id : ℕ) → Except Err (Option (ℕ × Object))
  | 0, _, _ => .error .corrupt
  | fuel + 1, path, id => do
    let o ← objectTask V totalObjects id
    let (name, rest) := nextComponent path
    if name = [] then .ok (some (id, o))
    else if o.type ≠ .dir then .error .notDir
    else
      match ← dirLookup d V o name with
      | none => .ok none
      | some child => pathLoop fuel rest child

/-- `wfs_path_task` as `wfs_path_init_from` sets it up: a leading separator is the root. -/
def pathFrom (start : ℕ) (path : List UInt8) : Except Err (Option (ℕ × Object)) :=
  if pathMax ≤ path.length then .error .pathTooLong
  else
    pathLoop d V totalObjects (path.length + 1) path
      (if path.head? = some slash then objectRoot else start)

def scanBack (p : UInt8 → Bool) (path : List UInt8) : ℕ → ℕ
  | 0 => 0
  | n + 1 => if path[n]?.any p then scanBack p path n else n + 1

variable (path : List UInt8)

/-- `wfs_dirent_split_path`: the length of the parent, and the name. -/
def splitPath : Except Err (ℕ × Name) :=
  let stop := scanBack (· == slash) path path.length
  if stop = 0 then .error .name
  else
    let start := scanBack (· != slash) path stop
    if stop - start = 0 ∨ nameMax < stop - start then .error .name
    else .ok (if 1 < start then start - 1 else start, (path.drop start).take (stop - start))

def lastComponent : Name := (path.rdropWhile (· == slash)).rtakeWhile (· != slash)

def beforeLast : List UInt8 := (path.rdropWhile (· == slash)).rdropWhile (· != slash)

lemma scanBack_eq (p : UInt8 → Bool) (path : List UInt8) {n : ℕ} (h : n ≤ path.length) :
    scanBack p path n = ((path.take n).rdropWhile p).length := by
  induction n with
  | zero => rfl
  | succ n ih =>
    have hn : path[n]? = some path[n] := getElem?_eq_getElem (by omega)
    rw [scanBack, take_add_one, hn, Option.toList_some, rdropWhile_concat, Option.any_some]
    split
    · exact ih (by omega)
    · rw [length_append, length_take, min_eq_left (by omega)]
      rfl

lemma beforeLast_append_lastComponent :
    beforeLast path ++ lastComponent path = path.rdropWhile (· == slash) :=
  rdropWhile_append_rtakeWhile ..

lemma path_eq : ∃ tail, (∀ c ∈ tail, c = slash) ∧
    path = beforeLast path ++ (lastComponent path ++ tail) := by
  refine ⟨path.rtakeWhile (· == slash), fun c hc => by simpa using mem_rtakeWhile_imp hc, ?_⟩
  rw [← append_assoc, beforeLast_append_lastComponent, rdropWhile_append_rtakeWhile]

lemma slash_notMem_lastComponent : slash ∉ lastComponent path :=
  fun h => by simpa using mem_rtakeWhile_imp h

lemma beforeLast_cases : beforeLast path = [] ∨ ∃ front, beforeLast path = front ++ [slash] := by
  by_cases h : beforeLast path = []
  · exact .inl h
  have hlast : (beforeLast path).getLast h = slash := by
    simpa [beforeLast] using rdropWhile_last_not (· != slash) _ h
  exact .inr ⟨(beforeLast path).dropLast, by rw [← hlast, dropLast_append_getLast]⟩

lemma splitPath_eq {path : List UInt8} (hpos : lastComponent path ≠ [])
    (hmax : (lastComponent path).length ≤ nameMax) :
    splitPath path = .ok (if 1 < (beforeLast path).length then (beforeLast path).length - 1
      else (beforeLast path).length, lastComponent path) := by
  have hcut := beforeLast_append_lastComponent path
  have hlen : (beforeLast path).length + (lastComponent path).length
      = (path.rdropWhile (· == slash)).length := by rw [← hcut, length_append]
  have hpre := rdropWhile_prefix (· == slash) path
  have htake : path.take ((beforeLast path).length + (lastComponent path).length)
      = path.rdropWhile (· == slash) := by rw [hlen, ← prefix_iff_eq_take.1 hpre]
  have hstop : scanBack (· == slash) path path.length
      = (beforeLast path).length + (lastComponent path).length := by
    rw [scanBack_eq _ _ le_rfl, take_length, hlen]
  have hstart : scanBack (· != slash) path
      ((beforeLast path).length + (lastComponent path).length) = (beforeLast path).length := by
    rw [scanBack_eq _ _ (hlen ▸ hpre.length_le), htake]
    rfl
  have hname : (path.drop (beforeLast path).length).take (lastComponent path).length
      = lastComponent path := by
    rw [take_drop, htake, ← hcut, drop_left]
  have hlast := length_pos_of_ne_nil hpos
  rw [splitPath]
  simp only [hstop, hstart, Nat.add_sub_cancel_left, hname]
  rw [if_neg (by omega), if_neg (by omega)]

section Walk

variable {name tail : List UInt8} (front rest : List UInt8)

lemma takeWhile_append_slash :
    (front ++ slash :: rest).takeWhile (· != slash) = front.takeWhile (· != slash) := by
  induction front with
  | nil => simp
  | cons c front ih => simp only [cons_append, takeWhile_cons, ih]

lemma dropWhile_append_slash : (front ++ slash :: rest).dropWhile (· != slash)
      = front.dropWhile (· != slash) ++ slash :: rest := by
  induction front with
  | nil => simp
  | cons c front ih =>
    simp only [cons_append, dropWhile_cons, ih]
    split <;> rfl

lemma nextComponent_slashes (htail : ∀ c ∈ tail, c = slash) : nextComponent tail = ([], []) := by
  have h : tail.dropWhile (· == slash) = [] :=
    dropWhile_eq_nil_iff.2 fun c hc => by simp [htail c hc]
  simp [nextComponent, h]

variable {front : List UInt8}

lemma nextComponent_name (hname : name ≠ []) (hslash : slash ∉ name)
    (htail : ∀ c ∈ tail, c = slash) (hfront : ∀ c ∈ front, c = slash) :
    nextComponent (front ++ (name ++ tail)) = (name, tail) := by
  have hskip : (front ++ (name ++ tail)).dropWhile (· == slash) = name ++ tail := by
    rw [dropWhile_append_of_pos fun c hc => by simp [hfront c hc]]
    cases name with
    | nil => exact absurd rfl hname
    | cons c name => simp [(ne_of_not_mem_cons hslash).symm]
  have hin : ∀ c ∈ name, (c != slash) = true := fun c hc => by
    simpa using ne_of_mem_of_not_mem hc hslash
  have hout : tail.takeWhile (· != slash) = [] ∧ tail.dropWhile (· != slash) = tail := by
    cases tail with
    | nil => exact ⟨rfl, rfl⟩
    | cons c tail => simp [htail c]
  simp only [nextComponent, hskip, takeWhile_append_of_pos hin,
    dropWhile_append_of_pos hin, hout, append_nil]

lemma nextComponent_append (h : ¬ ∀ c ∈ front, c = slash)
    (rest : List UInt8) : nextComponent (front ++ slash :: rest)
      = ((nextComponent front).1, (nextComponent front).2 ++ slash :: rest) := by
  have hne : front.dropWhile (· == slash) ≠ [] := by simpa using h
  have hskip : (front ++ slash :: rest).dropWhile (· == slash)
      = front.dropWhile (· == slash) ++ slash :: rest := by
    rw [List.dropWhile_append, if_neg (by simpa [List.isEmpty_iff] using hne)]
  simp only [nextComponent, hskip, takeWhile_append_slash, dropWhile_append_slash]

lemma nextComponent_lt (h : ¬ ∀ c ∈ front, c = slash) :
    (nextComponent front).1 ≠ [] ∧ (nextComponent front).2.length < front.length := by
  have hne : front.dropWhile (· == slash) ≠ [] := by simpa using h
  have hle := (dropWhile_suffix (· == slash) (l := front)).length_le
  simp only [nextComponent]
  cases hd : front.dropWhile (· == slash) with
  | nil => exact absurd hd hne
  | cons c rest =>
    have hc : (c != slash) = true := by
      have := head_dropWhile_not (· == slash) hne
      simpa [hd] using this
    have := (dropWhile_suffix (· != slash) (l := rest)).length_le
    rw [hd, length_cons] at hle
    simp only [takeWhile_cons, dropWhile_cons, hc, if_true]
    exact ⟨cons_ne_nil _ _, by omega⟩

variable (d : Dims) (V : Volume) (totalObjects : ℕ)

def stepInto (name : Name) : Option (ℕ × Object) → Except Err (Option (ℕ × Object))
  | none => .ok none
  | some (_, dir) =>
    if dir.type ≠ .dir then .error .notDir
    else do
      match ← dirLookup d V dir name with
      | none => .ok none
      | some child => do
        let o ← objectTask V totalObjects child
        .ok (some (child, o))

lemma stepInto_ok {found : Option (ℕ × Object)} {o : ℕ} {record : Object}
    (h : stepInto d V totalObjects name found = .ok (some (o, record))) :
    ∃ parent dir, found = some (parent, dir) ∧ dir.type = .dir ∧
      dirLookup d V dir name = .ok (some o) ∧ objectTask V totalObjects o = .ok record := by
  obtain _ | ⟨parent, dir⟩ := found
  · cases h
  simp only [stepInto, ne_eq, ite_not, bind, Except.bind] at h
  split at h
  · rename_i hdir
    split at h
    · cases h
    rename_i child hlookup
    cases child with
    | none => cases h
    | some child =>
      cases hrecord : objectTask V totalObjects child with
      | error => simp [hrecord] at h
      | ok found =>
        obtain ⟨rfl, rfl⟩ : child = o ∧ found = record := by simpa [hrecord] using h
        exact ⟨parent, dir, rfl, hdir, hlookup, hrecord⟩
  · cases h

lemma pathLoop_last (hname : name ≠ []) (hslash : slash ∉ name)
    (htail : ∀ c ∈ tail, c = slash) {front parent : List UInt8}
    (hfront : ∀ c ∈ front, c = slash) (hparent : ∀ c ∈ parent, c = slash) (f g id : ℕ) :
    pathLoop d V totalObjects (f + 2) (front ++ (name ++ tail)) id
      = pathLoop d V totalObjects (g + 1) parent id >>= stepInto d V totalObjects name := by
  rw [pathLoop, pathLoop, nextComponent_name hname hslash htail hfront,
    nextComponent_slashes hparent]
  cases objectTask V totalObjects id with
  | error e => rfl
  | ok o =>
    simp only [bind, Except.bind, hname, if_false, if_true, stepInto]
    split
    · rfl
    cases dirLookup d V o name with
    | error e => rfl
    | ok child =>
      cases child with
      | none => rfl
      | some child => simp [pathLoop, nextComponent_slashes htail, bind, Except.bind]

lemma pathLoop_append (hname : name ≠ []) (hslash : slash ∉ name)
    (htail : ∀ c ∈ tail, c = slash) : ∀ (g f : ℕ) (front : List UInt8) (id : ℕ),
    front.length < g → (front ++ slash :: (name ++ tail)).length < f →
      pathLoop d V totalObjects f (front ++ slash :: (name ++ tail)) id
        = pathLoop d V totalObjects g front id >>= stepInto d V totalObjects name := by
  intro g
  induction g with
  | zero => exact fun _ _ _ hg _ => absurd hg (Nat.not_lt_zero _)
  | succ g ih =>
    intro f front id hg hf
    by_cases hall : ∀ c ∈ front, c = slash
    · obtain ⟨f, rfl⟩ : ∃ f', f = f' + 2 := ⟨f - 2, by simp at hf; omega⟩
      have hfront : ∀ c ∈ front ++ [slash], c = slash := by simpa [or_imp, forall_and] using hall
      have := pathLoop_last d V totalObjects hname hslash htail hfront hall f g id
      rwa [append_assoc, singleton_append] at this
    -- both walks take the same name off and go on behind it
    obtain ⟨f, rfl⟩ : ∃ f', f = f' + 1 := ⟨f - 1, by omega⟩
    obtain ⟨hfst, hsnd⟩ := nextComponent_lt hall
    rw [pathLoop, pathLoop, nextComponent_append hall]
    cases objectTask V totalObjects id with
    | error e => rfl
    | ok o =>
      simp only [bind, Except.bind, hfst, if_false]
      split
      · rfl
      cases dirLookup d V o (nextComponent front).1 with
      | error e => rfl
      | ok child =>
        cases child with
        | none => rfl
        | some child =>
          refine ih f _ child (by omega) ?_
          simp only [length_append] at hf ⊢
          omega

lemma pathFrom_eq (start : ℕ) {path : List UInt8} (hlen : path.length < pathMax)
    (hpos : lastComponent path ≠ []) :
    pathFrom d V totalObjects start path
      = pathFrom d V totalObjects start (path.take (if 1 < (beforeLast path).length then
          (beforeLast path).length - 1 else (beforeLast path).length))
        >>= stepInto d V totalObjects (lastComponent path) := by
  have hslash := slash_notMem_lastComponent path
  obtain ⟨tail, htail, hpath⟩ := path_eq path
  generalize lastComponent path = name at *
  have hshort : ∀ n, (path.take n).length < pathMax := fun n =>
    lt_of_le_of_lt (length_take_le' ..) hlen
  rw [pathFrom, pathFrom, if_neg (by omega), if_neg (not_le.2 (hshort _))]
  obtain hnil | ⟨front, hfront⟩ := beforeLast_cases path
  · -- no separator: the parent is where the walk starts
    rw [hnil] at hpath ⊢
    have hhead : path.head? ≠ some slash := by
      cases name with
      | nil => exact absurd rfl hpos
      | cons c name => simp [hpath, ne_of_not_mem_cons hslash |>.symm]
    have hname := length_pos_of_ne_nil hpos
    have hpathLen : path.length = name.length + tail.length := by simp [hpath]
    obtain ⟨f, hf⟩ : ∃ f, path.length + 1 = f + 2 := ⟨path.length - 1, by omega⟩
    rw [if_neg hhead, hf, hpath]
    exact pathLoop_last d V totalObjects hpos hslash htail (by simp) (by simp) f 0 start
  · rw [hfront] at hpath ⊢
    cases front with
    | nil =>
      -- the separator of a name at the root is the parent
      have hall : ∀ c ∈ [slash], c = slash := by simp
      have := pathLoop_last d V totalObjects hpos hslash htail hall hall (name ++ tail).length 1
        objectRoot
      rw [hpath]
      simpa using this
    | cons c front =>
      have htake : path.take (c :: front).length = c :: front := by
        rw [hpath, append_assoc, take_left]
      have := pathLoop_append d V totalObjects hpos hslash htail _ (path.length + 1) (c :: front)
        (if c = slash then objectRoot else start) (Nat.lt_succ_self _)
      simp only [hpath] at this ⊢
      simpa [htake] using this

/-- A walk finds an object where the walk to the parent, a lookup there and a read of the record
find it. -/
theorem walk_iff_split_lookup (start o : ℕ) {path : List UInt8} (hlen : path.length < pathMax)
    (hpos : lastComponent path ≠ []) (hmax : (lastComponent path).length ≤ nameMax) :
    (∃ record, pathFrom d V totalObjects start path = .ok (some (o, record))) ↔
      ∃ parentLen name parent dir, splitPath path = .ok (parentLen, name) ∧
        pathFrom d V totalObjects start (path.take parentLen) = .ok (some (parent, dir)) ∧
        dir.type = .dir ∧ dirLookup d V dir name = .ok (some o) ∧
        ∃ record, objectTask V totalObjects o = .ok record := by
  rw [pathFrom_eq d V totalObjects start hlen hpos, splitPath_eq hpos hmax]
  constructor
  · rintro ⟨record, h⟩
    generalize hwalk : pathFrom d V totalObjects start _ = walk at h
    cases walk with
    | error => cases h
    | ok found =>
      obtain ⟨parent, dir, rfl, hdir, hlookup, hrecord⟩ := stepInto_ok d V totalObjects h
      exact ⟨_, _, parent, dir, rfl, hwalk, hdir, hlookup, record, hrecord⟩
  · rintro ⟨_, _, parent, dir, hsplit, hwalk, hdir, hlookup, record, hrecord⟩
    obtain ⟨rfl, rfl⟩ : _ ∧ _ := by simpa using hsplit
    exact ⟨record, by simp [hwalk, stepInto, hdir, hlookup, hrecord, bind, Except.bind]⟩

end Walk

def oneBlockDir : Object :=
  { type := .dir, inlineFlag := false, size := 4096, linkCount := 2, extentCount := 1,
    treeBlock := 0, extents := [⟨0, 9, 1⟩], inlineData := fun _ => 0 }

def oneEntry (target : ℕ) : Volume where
  blockUsed _ := true
  objectUsed _ := true
  freeBlocks _ := 0
  freeObjects _ := 0
  object id := if id = objectRoot then some oneBlockDir else none
  block _ := .dir [⟨target, 4080, [120]⟩]

theorem walk_iff_split_lookup_slashes :
    ∃ parentLen name parent dir, splitPath [47, 47, 120, 47] = .ok (parentLen, name) ∧
      pathFrom ⟨4096, 64⟩ (oneEntry 1) 64 objectRoot ([47, 47, 120, 47].take parentLen)
        = .ok (some (parent, dir)) ∧
      dir.type = .dir ∧ dirLookup ⟨4096, 64⟩ (oneEntry 1) dir name = .ok (some 1) ∧
      ∃ record, objectTask (oneEntry 1) 64 1 = .ok record :=
  (walk_iff_split_lookup ⟨4096, 64⟩ (oneEntry 1) 64 objectRoot 1 (by decide) (by decide)
    (by decide)).1 ⟨oneBlockDir, rfl⟩

/-- The lookup finds what the directory names; the walk then fails to read its record. -/
theorem walk_of_unreadable_record :
    ¬ ((∃ record, pathFrom ⟨4096, 64⟩ (oneEntry 16) 64 objectRoot [47, 120]
        = .ok (some (16, record))) ↔
      ∃ parentLen name parent dir, splitPath [47, 120] = .ok (parentLen, name) ∧
        pathFrom ⟨4096, 64⟩ (oneEntry 16) 64 objectRoot ([47, 120].take parentLen)
          = .ok (some (parent, dir)) ∧
        dir.type = .dir ∧ dirLookup ⟨4096, 64⟩ (oneEntry 16) dir name = .ok (some 16)) := by
  intro h
  obtain ⟨record, hwalk⟩ := h.2 ⟨1, [120], 1, oneBlockDir, rfl, rfl, rfl, rfl⟩
  have hread : pathFrom ⟨4096, 64⟩ (oneEntry 16) 64 objectRoot [47, 120] = .error .checksum := rfl
  cases hread.symm.trans hwalk

end Wfs
