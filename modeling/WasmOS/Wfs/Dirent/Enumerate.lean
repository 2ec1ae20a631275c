import WasmOS.ByteImage.Fields
import WasmOS.Wfs.Volume.Session

/-! # Directory blocks, byte by byte

Room is a record that names nothing, or what a stride has beyond its name. `Tiles block off stop rs`
says that the records `rs` cover the bytes from `off` up to `stop`. A valid block has such records,
and every scan walks them.
-/

namespace Wfs.DirBlock

section

open ByteImage Function List

def header : ℕ := 12

def recordMin : ℕ := 16

def tailSize : ℕ := 16

def tailType : UInt8 := 255

variable (block : Bytes) (off : ℕ)

def rd16 : ℕ := field block off 2
def rd64 : ℕ := field block off 8
def wr16 (off v : ℕ) : Bytes := put block off 2 v
def wr32 (off v : ℕ) : Bytes := put block off 4 v
def wr64 (off v : ℕ) : Bytes := put block off 8 v

def nameLength : ℕ := (block (off + 10)).toNat

/-- `record_used`: the bytes of a stride that are taken, none when the record is free. -/
def recordUsed : ℕ :=
  if rd64 block off = 0 ∨ nameLength block off = 0 then 0
  else dirRecordLength (nameLength block off)

def badStride (usable off len : ℕ) : Bool :=
  decide (len < recordMin) || decide (len % 8 ≠ 0) || decide (usable < off + len)

def putHeader (off id len : ℕ) (nameLen type : UInt8) : Bytes :=
  update (update (wr16 (wr64 block off id) (off + 8) len) (off + 10) nameLen) (off + 11) type

/-- The loop of `wfs_dirent_validate`. A stride it follows is not zero, so the fuel lasts. -/
def validateFrom (block : Bytes) (usable : ℕ) : (fuel off : ℕ) → Except Err Unit
  | 0, _ => .error .corrupt
  | fuel + 1, off =>
    if off + header ≤ usable then
      let len := rd16 block (off + 8)
      if badStride usable off len then .error .corrupt
      else if len - header < nameLength block off then .error .corrupt
      else validateFrom block usable fuel (off + len)
    else if off = usable then .ok ()
    else .error .corrupt

def direntValidate (blockSize : ℕ) : Except Err Unit :=
  if blockSize ≤ tailSize then .error .badArgs
  else validateFrom block (dirUsableBytes blockSize) (dirUsableBytes blockSize + 1) 0

def findFrom (block : Bytes) (usable : ℕ) (name : Name) : (fuel off : ℕ) → Option ℕ
  | 0, _ => none
  | fuel + 1, off =>
    if off + header ≤ usable then
      let len := rd16 block (off + 8)
      if badStride usable off len then none
      else if rd64 block off ≠ 0 ∧ nameLength block off = name.length ∧
          bytes block (off + header) name.length = name then some off
      else findFrom block usable name fuel (off + len)
    else none

def direntFind (blockSize : ℕ) (name : Name) : Option ℕ :=
  if name = [] ∨ blockSize ≤ tailSize then none
  else findFrom block (dirUsableBytes blockSize) name (dirUsableBytes blockSize + 1) 0

/-- `wfs_checksum_struct` over a block whose checksum field is zero, at its location. -/
abbrev Checksum := Bytes → ℕ

variable (crc : Checksum)

def direntSeal (block : Bytes) (blockSize : ℕ) : Bytes :=
  let off := dirUsableBytes blockSize + header
  let block := wr32 block off 0
  wr32 block off (crc block)

def direntInitBlock (block : Bytes) (blockSize : ℕ) : Bytes :=
  if blockSize ≤ tailSize then block
  else
    let usable := dirUsableBytes blockSize
    let block := zeroFill block 0 blockSize
    let block := wr16 block 8 usable
    let block := wr16 block (usable + 8) tailSize
    let block := update block (usable + 11) tailType
    direntSeal crc block blockSize

def putRecordAt (off take : ℕ) (name : Name) (objectId : UInt32) (type : UInt8) :
    Bytes :=
  let block := putHeader block off objectId.toNat take (UInt8.ofNat name.length) type
  let block := putBytes block (off + header) name
  zeroFill block (off + header + name.length) (off + take)

/-- The entry goes to `need` bytes after the `used` ones of the stride at `off`. The rest becomes a
free record when one fits, and padding otherwise. -/
def insertAt (off used avail need : ℕ) (name : Name) (objectId : UInt32)
    (type : UInt8) : Bytes :=
  let pos := off + used
  let split := decide (recordMin ≤ avail - need)
  let take := if split then need else avail
  let block := if split then putHeader block (pos + take) 0 (avail - need) 0 0 else block
  let block := if used ≠ 0 then wr16 block (off + 8) used else block
  putRecordAt block pos take name objectId type

def insertFrom (block : Bytes) (usable need : ℕ) (name : Name) (objectId : UInt32)
    (type : UInt8) : (fuel off : ℕ) → Option Bytes
  | 0, _ => none
  | fuel + 1, off =>
    if off + header ≤ usable then
      let len := rd16 block (off + 8)
      let used := recordUsed block off
      let avail := len - used
      if need ≤ avail then some (insertAt block off used avail need name objectId type)
      else insertFrom block usable need name objectId type fuel (off + len)
    else none

/-- `wfs_dirent_insert`: its result and the block it leaves. -/
def direntInsert (block : Bytes) (blockSize : ℕ) (name : Name) (objectId : UInt32)
    (type : UInt8) : Except Err Unit × Bytes :=
  if blockSize ≤ tailSize then (.error .badArgs, block)
  else if name.length = 0 ∨ nameMax < name.length then (.error .name, block)
  else if objectId = 0 then (.error .badArgs, block)
  else
    match direntValidate block blockSize with
    | .error e => (.error e, block)
    | .ok () =>
      if (direntFind block blockSize name).isSome then (.error .exists, block)
      else
        match insertFrom block (dirUsableBytes blockSize) (dirRecordLength name.length) name
          objectId type (dirUsableBytes blockSize + 1) 0 with
        | some block' => (.ok (), direntSeal crc block' blockSize)
        | none => (.error .noSpace, block)

/-- The inner loop of `merge_free`: the length of a free record with those from `next` on absorbed.
-/
def absorb (block : Bytes) (usable : ℕ) : (fuel len next : ℕ) → ℕ
  | 0, len, _ => len
  | fuel + 1, len, next =>
    if next + header ≤ usable ∧ recordUsed block next = 0 then
      let nlen := rd16 block (next + 8)
      if badStride usable next nlen then len
      else absorb block usable fuel (len + nlen) (next + nlen)
    else len

def mergeFree (usable : ℕ) : (fuel : ℕ) → Bytes → (off : ℕ) → Bytes
  | 0, block, _ => block
  | fuel + 1, block, off =>
    if off + header ≤ usable then
      let len := rd16 block (off + 8)
      if recordUsed block off = 0 then
        let len := absorb block usable (usable + 1) len (off + len)
        mergeFree usable fuel (putHeader block off 0 len 0 0) (off + len)
      else mergeFree usable fuel block (off + len)
    else block

/-- `wfs_dirent_remove`: its result and the block it leaves. -/
def direntRemove (block : Bytes) (blockSize : ℕ) (name : Name) :
    Except Err Unit × Bytes :=
  if blockSize ≤ tailSize then (.error .badArgs, block)
  else
    match direntValidate block blockSize with
    | .error e => (.error e, block)
    | .ok () =>
      match direntFind block blockSize name with
      | none => (.error .notFound, block)
      | some off =>
        let usable := dirUsableBytes blockSize
        let block := wr64 block off 0
        let block := update (update block (off + 10) 0) (off + 11) 0
        (.ok (), direntSeal crc (mergeFree usable (usable + 1) block 0) blockSize)

structure Record where
  id : ℕ
  length : ℕ
  type : UInt8
  name : Name
  deriving DecidableEq

structure Entry where
  name : Name
  id : ℕ
  type : UInt8

namespace Record

variable (r : Record)

def Free : Prop := r.id = 0 ∨ r.name = []

instance (r : Record) : Decidable r.Free := inferInstanceAs (Decidable (_ ∨ _))

def used : ℕ := if r.Free then 0 else dirRecordLength r.name.length

def slack : ℕ := r.length - r.used

def entry : Option Entry := if r.Free then none else some ⟨r.name, r.id, r.type⟩

end Record

variable (block : Bytes)

def recordAt (off : ℕ) : Record where
  id := rd64 block off
  length := rd16 block (off + 8)
  type := block (off + 11)
  name := bytes block (off + header) (nameLength block off)

def recordsFrom (block : Bytes) (usable : ℕ) : (fuel off : ℕ) → List Record
  | 0, _ => []
  | fuel + 1, off =>
    if off + header ≤ usable then
      recordAt block off :: recordsFrom block usable fuel (off + rd16 block (off + 8))
    else []

def records (blockSize : ℕ) : List Record :=
  recordsFrom block (dirUsableBytes blockSize) (dirUsableBytes blockSize + 1) 0

def entries (blockSize : ℕ) : List Entry := (records block blockSize).filterMap Record.entry

structure Record.Sound (r : Record) : Prop where
  min : recordMin ≤ r.length
  align : r.length % 8 = 0
  name_le : header + r.name.length ≤ r.length

inductive Tiles (block : Bytes) : ℕ → ℕ → List Record → Prop
  | nil {off : ℕ} : Tiles block off off []
  | cons {off stop : ℕ} {r : Record} {rs : List Record} (hr : recordAt block off = r)
      (hs : r.Sound) (h : Tiles block (off + r.length) stop rs) : Tiles block off stop (r :: rs)

variable {block block' : Bytes} {off mid stop usable : ℕ} {r : Record} {rs pre post : List Record}

@[simp] lemma length_name_recordAt : (recordAt block off).name.length = nameLength block off :=
  length_bytes

lemma recordAt_congr (hr : recordAt block off = r)
    (h : AgreeOn off (off + header + r.name.length) block block') : recordAt block' off = r := by
  have hnl : nameLength block off = r.name.length := by rw [← hr, length_name_recordAt]
  unfold header at h
  have hlen : nameLength block' off = nameLength block off := by
    rw [nameLength, nameLength, h (off + 10) (by omega) (by omega)]
  rw [← hnl] at h
  subst hr
  simp only [recordAt, Record.mk.injEq, hlen]
  refine ⟨?_, ?_, ?_, ?_⟩
  · exact field_congr (h.symm.mono le_rfl (by omega))
  · exact field_congr (h.symm.mono (by omega) (by omega))
  · exact (h _ (by omega) (by omega)).symm
  · exact bytes_congr (h.symm.mono (by unfold header; omega) le_rfl)

namespace Tiles

lemma le (h : Tiles block off stop rs) : off ≤ stop := by
  induction h with
  | nil => exact le_rfl
  | cons _ _ _ ih => omega

lemma congr (h : Tiles block off stop rs) (hb : AgreeOn off stop block block') :
    Tiles block' off stop rs := by
  induction h with
  | nil => exact .nil
  | cons hr hs h ih =>
    have hle := h.le
    have hname := hs.name_le
    refine .cons (recordAt_congr hr (hb.mono le_rfl ?_)) hs (ih (hb.mono ?_ le_rfl)) <;> omega

lemma append (h : Tiles block off mid pre) (h' : Tiles block mid stop post) :
    Tiles block off stop (pre ++ post) := by
  induction h with
  | nil => exact h'
  | cons hr hs _ ih => exact .cons hr hs (ih h')

lemma singleton (hr : recordAt block off = r) (hs : r.Sound) :
    Tiles block off (off + r.length) [r] := .cons hr hs .nil

lemma nil_iff (h : Tiles block off stop rs) : rs = [] ↔ ¬ off + header ≤ stop := by
  cases h with
  | nil => simp [header]
  | cons _ hs h =>
    have := h.le
    have := hs.min
    unfold recordMin at this
    simp only [reduceCtorEq, false_iff, not_not, header]
    omega

end Tiles

lemma badStride_iff {len : ℕ} : badStride usable off len = false ↔
    recordMin ≤ len ∧ len % 8 = 0 ∧ off + len ≤ usable := by
  simp only [badStride, Bool.or_eq_false_iff, decide_eq_false_iff_not, not_lt, ne_eq, not_not,
    and_assoc]

lemma Tiles.stride (h : Tiles block off usable (r :: rs)) :
    recordAt block off = r ∧ r.Sound ∧ off + header ≤ usable ∧
      badStride usable off (rd16 block (off + 8)) = false ∧
      Tiles block (off + rd16 block (off + 8)) usable rs := by
  cases h with
  | cons hr hs h =>
    have hle := h.le
    have hlen : rd16 block (off + 8) = r.length := by rw [← hr]; rfl
    have hmin := hs.min
    refine ⟨hr, hs, ?_, ?_, ?_⟩
    · unfold recordMin at hmin
      unfold header
      omega
    · rw [hlen]
      exact badStride_iff.mpr ⟨hs.min, hs.align, hle⟩
    · rwa [hlen]

lemma exists_tiles_iff (hoff : off + header ≤ usable) :
    (∃ rs, Tiles block off usable rs) ↔ badStride usable off (rd16 block (off + 8)) = false ∧
      header + nameLength block off ≤ rd16 block (off + 8) ∧
      ∃ rs, Tiles block (off + rd16 block (off + 8)) usable rs := by
  constructor
  · rintro ⟨_ | ⟨r, rs⟩, h⟩
    · exact absurd hoff (h.nil_iff.mp rfl)
    obtain ⟨rfl, hs, -, hbad, hrest⟩ := h.stride
    have hname := hs.name_le
    rw [length_name_recordAt] at hname
    exact ⟨hbad, hname, rs, hrest⟩
  · rintro ⟨hbad, hname, rs, h⟩
    obtain ⟨hmin, halign, -⟩ := badStride_iff.mp hbad
    exact ⟨_, .cons rfl ⟨hmin, halign, by rwa [length_name_recordAt]⟩ h⟩

lemma validateFrom_iff {fuel : ℕ} (hfuel : usable < off + fuel) :
    validateFrom block usable fuel off = .ok () ↔ ∃ rs, Tiles block off usable rs := by
  induction fuel generalizing off with
  | zero =>
    simp only [validateFrom, reduceCtorEq, false_iff, not_exists]
    intro rs h
    have := h.le
    omega
  | succ fuel ih =>
    rw [validateFrom]
    split
    · next hoff =>
      rw [exists_tiles_iff hoff]
      dsimp only
      split_ifs with hbad hname
      · simp [hbad]
      · simp only [false_iff]
        rintro ⟨-, h, -⟩
        unfold header at *
        omega
      · rw [Bool.not_eq_true] at hbad
        have hmin := (badStride_iff.mp hbad).1
        unfold recordMin at hmin
        rw [ih (by omega), hbad]
        have h : header + nameLength block off ≤ rd16 block (off + 8) := by
          unfold header at *
          omega
        simp only [h, true_and]
    · next hoff =>
      split
      · next heq =>
        subst heq
        simp only [true_iff]
        exact ⟨[], .nil⟩
      next hne =>
      simp only [reduceCtorEq, false_iff, not_exists]
      intro rs h
      have hnil := h.nil_iff.mpr hoff
      subst hnil
      cases h
      exact hne rfl

lemma Tiles.recordsFrom_eq {fuel : ℕ} (h : Tiles block off usable rs)
    (hfuel : usable < off + fuel) : recordsFrom block usable fuel off = rs := by
  induction fuel generalizing off rs with
  | zero =>
    have := h.le
    omega
  | succ fuel ih =>
    rw [recordsFrom]
    cases rs with
    | nil => rw [if_neg (h.nil_iff.mp rfl)]
    | cons r rs =>
      obtain ⟨hr, -, hoff, hbad, hrest⟩ := h.stride
      have hmin := (badStride_iff.mp hbad).1
      unfold recordMin at hmin
      rw [if_pos hoff, hr, ih hrest (by omega)]

lemma recordUsed_eq (hr : recordAt block off = r) : recordUsed block off = r.used := by
  subst hr
  have hnil : (recordAt block off).name = [] ↔ nameLength block off = 0 := by
    rw [← length_eq_zero_iff, length_name_recordAt]
  simp only [recordUsed, Record.used, Record.Free, hnil, length_name_recordAt]
  rfl

lemma Record.Sound.used_le (hs : r.Sound) : r.used ≤ r.length ∧ r.used % 8 = 0 := by
  have hname := hs.name_le
  have halign := hs.align
  unfold Record.used dirRecordLength
  unfold header at hname
  split <;> omega

def Record.Holds (name : Name) (r : Record) : Prop := r.id ≠ 0 ∧ r.name = name

lemma holds_iff {name : Name} (hr : recordAt block off = r) :
    r.Holds name ↔ rd64 block off ≠ 0 ∧ nameLength block off = name.length ∧
      bytes block (off + header) name.length = name := by
  subst hr
  constructor
  · rintro ⟨hid, hname⟩
    have hlen : nameLength block off = name.length := by rw [← hname, length_name_recordAt]
    refine ⟨hid, hlen, ?_⟩
    rwa [← hlen]
  · rintro ⟨hid, hlen, hname⟩
    refine ⟨hid, ?_⟩
    rwa [← hlen] at hname

variable {α : Type} {Q : Record → Prop} {g : ℕ → α}

/-- What a scan of the records `rs` for one with `Q` comes to: `g` of its place. -/
def Scans (block : Bytes) (off usable : ℕ) (rs : List Record) (Q : Record → Prop) (g : ℕ → α)
    (found : Option α) : Prop :=
  (found = none ∧ ∀ r ∈ rs, ¬ Q r) ∨ ∃ pos pre r post, found = some (g pos) ∧
    rs = pre ++ r :: post ∧ Tiles block off pos pre ∧ Tiles block pos usable (r :: post) ∧ Q r ∧
    ∀ r ∈ pre, ¬ Q r

lemma Tiles.scans {f : (fuel off : ℕ) → Option α}
    (hend : ∀ fuel off, ¬ off + header ≤ usable → f (fuel + 1) off = none)
    (hstep : ∀ fuel off, off + header ≤ usable →
      badStride usable off (rd16 block (off + 8)) = false →
      (Q (recordAt block off) → f (fuel + 1) off = some (g off)) ∧
      (¬ Q (recordAt block off) → f (fuel + 1) off = f fuel (off + rd16 block (off + 8))))
    (fuel : ℕ) (h : Tiles block off usable rs) (hfuel : usable < off + fuel) :
    Scans block off usable rs Q g (f fuel off) := by
  induction fuel generalizing off rs with
  | zero =>
    have := h.le
    omega
  | succ fuel ih =>
    cases rs with
    | nil => exact .inl ⟨hend _ _ (h.nil_iff.mp rfl), by simp⟩
    | cons r rs =>
      obtain ⟨rfl, hs, hoff, hbad, hrest⟩ := h.stride
      have hmin := (badStride_iff.mp hbad).1
      unfold recordMin at hmin
      obtain ⟨hhit, hmiss⟩ := hstep fuel off hoff hbad
      by_cases hQ : Q (recordAt block off)
      · exact .inr ⟨off, [], _, rs, hhit hQ, rfl, .nil, h, hQ, by simp⟩
      rcases hmiss hQ ▸ ih hrest (by omega) with
        ⟨hnone, hall⟩ | ⟨pos, pre, r', post, hsome, hrs, hpre, hrest', hQ', hall⟩
      · exact .inl ⟨hnone, forall_mem_cons.mpr ⟨hQ, hall⟩⟩
      · exact .inr ⟨pos, _ :: pre, r', post, hsome, by rw [hrs, cons_append],
          .cons rfl hs hpre, hrest', hQ', forall_mem_cons.mpr ⟨hQ, hall⟩⟩

lemma Tiles.findFrom_scans (name : Name) (fuel : ℕ) (h : Tiles block off usable rs)
    (hfuel : usable < off + fuel) :
    Scans block off usable rs (·.Holds name) id (findFrom block usable name fuel off) := by
  refine h.scans (fun _ _ hoff => if_neg hoff) (fun fuel off hoff hbad => ?_) fuel
    hfuel
  simp only [findFrom, if_pos hoff, hbad, Bool.false_eq_true, if_false]
  exact ⟨fun hQ => if_pos ((holds_iff rfl).mp hQ), fun hQ => if_neg (mt (holds_iff rfl).mpr hQ)⟩

end

open ByteImage List

/-- What a scan reads: the object, the answers of `wfs_extent_task`, the blocks and the checksums.
-/
structure Dir where
  isDir : Bool
  size : ℕ
  blockSize : ℕ
  extent : ℕ → Except Err (Option ℕ)
  block : ℕ → Bytes
  crc : ℕ → Checksum

namespace Dir

variable (D : Dir)

def blocks : ℕ := D.size / D.blockSize

def usable : ℕ := dirUsableBytes D.blockSize

def tailOk (p : ℕ) : Bool := field (D.block p) (D.usable + header) 4 ==
    D.crc p (wr32 (D.block p) (D.usable + header) 0)

end Dir

def entryAt (block : Bytes) (off : ℕ) : Option Entry :=
  let r := recordAt block off
  { r with id := r.id % 2 ^ 32 }.entry

inductive Pc | map | scan

structure Cursor where
  pc : Pc
  logical : ℕ
  offset : ℕ
  physical : ℕ

/-- `WFS_DIR_PC_START`, from `wfs_dir_lookup_init`. -/
def dirStart (D : Dir) (want : Name) : Except Err Cursor :=
  if !D.isDir then .error .notDir
  else if nameMax < want.length then .error .name
  else if D.size = 0 ∨ D.size % D.blockSize ≠ 0 then .error .corrupt
  else .ok ⟨.map, 0, 0, 0⟩

/-- What a pass of `wfs_dir_task` comes to. -/
inductive Pass
  | fail (e : Err)
  | exhausted
  | skip (past : Cursor)
  | entry (x : Entry) (past : Cursor)

/-- One pass, in a block one record. The tail may be checked before each record. -/
def pass (D : Dir) (c : Cursor) : Pass :=
  match c.pc with
  | .map =>
    if D.blocks ≤ c.logical then .exhausted
    else
      match D.extent c.logical with
      | .error e => .fail e
      | .ok none => .fail .corrupt
      | .ok (some p) => .skip { c with pc := .scan, physical := p }
  | .scan =>
    let block := D.block c.physical
    if !D.tailOk c.physical then .fail .checksum
    else if c.offset + header ≤ D.usable then
      let len := rd16 block (c.offset + 8)
      if badStride D.usable c.offset len then .fail .corrupt
      else if len - header < nameLength block c.offset then .fail .corrupt
      else
        match entryAt block c.offset with
        | none => .skip { c with offset := c.offset + len }
        | some x => .entry x { c with offset := c.offset + len }
    else .skip { c with pc := .map, logical := c.logical + 1, offset := 0 }

/-- A run from a cursor: the cursor it leaves and what it reports, or its error. -/
inductive Completes (D : Dir) (want : Name) : Cursor → Except Err (Cursor × Option Entry) → Prop
  | fail {c e} (h : pass D c = .fail e) : Completes D want c (.error e)
  | exhausted {c} (h : pass D c = .exhausted) : Completes D want c (.ok (c, none))
  | skip {c c' out} (h : pass D c = .skip c') (h' : Completes D want c' out) :
      Completes D want c out
  | take {c c' x} (h : pass D c = .entry x c') (hw : want = [] ∨ x.name = want) :
      Completes D want c (.ok (c', some x))
  | leave {c c' x out} (h : pass D c = .entry x c') (hw : ¬ (want = [] ∨ x.name = want))
      (h' : Completes D want c' out) : Completes D want c out

/-- The runs of a listing: the entries reported and the error that ended them. -/
inductive Enumerates (D : Dir) : Cursor → List Entry → Option Err → Prop
  | done {c c'} (h : Completes D [] c (.ok (c', none))) : Enumerates D c [] none
  | failed {c e} (h : Completes D [] c (.error e)) : Enumerates D c [] (some e)
  | entry {c c' x xs err} (h : Completes D [] c (.ok (c', some x)))
      (rest : Enumerates D { c' with pc := .scan } xs err) : Enumerates D c (x :: xs) err

def LooksUp (D : Dir) (name : Name) (out : Except Err (Cursor × Option Entry)) : Prop :=
  match dirStart D name with
  | .error e => out = .error e
  | .ok c => Completes D name c out

def Lists (D : Dir) (entries : List Entry) (err : Option Err) : Prop :=
  match dirStart D [] with
  | .error e => entries = [] ∧ err = some e
  | .ok c => Enumerates D c entries err

def reported : Except Err (Cursor × Option Entry) → Option Entry
  | .error _ => none
  | .ok (_, found) => found

/-- The id that a report has room for. -/
def Entry.cut (x : Entry) : Entry := { x with id := x.id % 2 ^ 32 }

/-- What the task makes of a live record: one whose id is cut to zero is free space to it. -/
def Entry.narrow (x : Entry) : Option Entry := if x.cut.id = 0 then none else some x.cut

/-- From `off` on the strides can be followed, and the live records are `xs`. -/
inductive WellFormed (block : Bytes) (usable : ℕ) : ℕ → List Entry → Prop
  | done {off} (h : usable < off + header) : WellFormed block usable off []
  | record {off xs} (h : off + header ≤ usable)
      (hstride : badStride usable off (rd16 block (off + 8)) = false)
      (hname : nameLength block off ≤ rd16 block (off + 8) - header)
      (rest : WellFormed block usable (off + rd16 block (off + 8)) xs) :
      WellFormed block usable off ((recordAt block off).entry.toList ++ xs)

structure Dir.Holds (D : Dir) (live : ℕ → List Entry) : Prop where
  isDir : D.isDir = true
  size : D.size ≠ 0 ∧ D.size % D.blockSize = 0
  block : ∀ k < D.blocks, ∃ p, D.extent k = .ok (some p) ∧ D.tailOk p = true ∧
    WellFormed (D.block p) D.usable 0 (live k)

def Ahead (D : Dir) (live : ℕ → List Entry) (c : Cursor) (rest : List Entry) : Prop :=
  match c.pc with
  | .map => c.offset = 0 ∧
      rest = ((List.range' c.logical (D.blocks - c.logical)).flatMap live).filterMap Entry.narrow
  | .scan => ∃ xs, D.tailOk c.physical = true ∧
      WellFormed (D.block c.physical) D.usable c.offset xs ∧
      rest = (xs ++ (List.range' (c.logical + 1) (D.blocks - (c.logical + 1))).flatMap
        live).filterMap Entry.narrow

def Cursor.rank (D : Dir) (c : Cursor) : ℕ :=
  match c.pc with
  | .map => (D.blocks - c.logical) * (D.usable + 3)
  | .scan => (D.blocks - (c.logical + 1)) * (D.usable + 3) + (D.usable + 1 - c.offset) + 1

def Pass.Fits (D : Dir) (c : Cursor) : Pass → Prop
  | .fail _ => ∀ live rest, D.Holds live → ¬ Ahead D live c rest
  | .exhausted => ∀ live rest, Ahead D live c rest → rest = []
  | .skip c' => c'.rank D < c.rank D ∧
      ∀ live rest, D.Holds live → Ahead D live c rest → Ahead D live c' rest
  | .entry x c' => c'.rank D < c.rank D ∧ c'.pc = .scan ∧ x.name.length ≤ nameMax ∧
      ∀ live rest, Ahead D live c rest → ∃ rest', rest = x :: rest' ∧ Ahead D live c' rest'

variable {D : Dir} {c : Cursor}

lemma length_name_entryAt {block : Bytes} {off : ℕ} {x : Entry}
    (h : entryAt block off = some x) : x.name.length ≤ nameMax := by
  simp only [entryAt, Record.entry] at h
  split at h
  · cases h
  cases h
  rw [length_name_recordAt]
  exact Nat.le_of_lt_succ (block (off + 10)).toNat_lt

lemma entryAt_toList (block : Bytes) (off : ℕ) : (entryAt block off).toList =
    (recordAt block off).entry.toList.filterMap Entry.narrow := by
  obtain ⟨id, length, type, name, hr⟩ : ∃ id length type name, recordAt block off =
      ⟨id, length, type, name⟩ := ⟨_, _, _, _, rfl⟩
  have hzero : id = 0 → id % 2 ^ 32 = 0 := by rintro rfl; rfl
  simp only [entryAt, hr, Record.entry, Record.Free]
  by_cases hfree : id = 0 ∨ name = []
  · rw [if_pos hfree, if_pos (hfree.imp_left hzero)]
    rfl
  · rw [if_neg hfree, Option.toList_some, filterMap_cons, Entry.narrow, Entry.cut]
    by_cases hcut : id % 2 ^ 32 = 0
    · rw [if_pos (.inl hcut), if_pos hcut]
      rfl
    · rw [if_neg (not_or.mpr ⟨hcut, (not_or.mp hfree).2⟩), if_neg hcut]
      rfl

lemma filterMap_narrow_eq_iff {xs : List Entry} :
    xs.filterMap Entry.narrow = xs.map Entry.cut ↔ ∀ x ∈ xs, x.id % 2 ^ 32 ≠ 0 := by
  have hsome : ∀ x : Entry, x.narrow.isSome = true ↔ x.id % 2 ^ 32 ≠ 0 := by
    intro x
    unfold Entry.narrow Entry.cut
    split <;> simp_all
  constructor
  · intro h x hx
    refine (hsome x).mp (filterMap_length_eq_length.mp ?_ x hx)
    rw [h, length_map]
  · intro h
    rw [← filterMap_eq_map']
    refine filterMap_congr fun x hx => ?_
    simp [Entry.narrow, show x.cut.id ≠ 0 from h x hx]

lemma pass_map_fits (k off p : ℕ) : (pass D ⟨.map, k, off, p⟩).Fits D ⟨.map, k, off, p⟩ := by
  simp only [pass]
  by_cases hend : D.blocks ≤ k
  · rw [if_pos hend]
    rintro live rest ⟨-, rfl⟩
    simp only [Nat.sub_eq_zero_of_le hend]
    rfl
  rw [if_neg hend]
  have hk : k < D.blocks := not_le.1 hend
  split <;> rename_i p hx
  iterate 2
    · intro live rest hl _
      obtain ⟨q, hq, -⟩ := hl.block k hk
      cases hx.symm.trans hq
  obtain ⟨n, hn⟩ : ∃ n, D.blocks - k = n + 1 := ⟨_, (Nat.sub_add_cancel (by omega)).symm⟩
  have hn' : D.blocks - (k + 1) = n := by omega
  constructor
  · simp only [Cursor.rank, hn, hn', Nat.succ_mul]
    omega
  rintro live rest hl ⟨rfl, rfl⟩
  obtain ⟨q, hq, htail, hwf⟩ := hl.block k hk
  obtain rfl : p = q := by simpa using hx.symm.trans hq
  exact ⟨live k, htail, hwf, by simp only [hn, hn']; rfl⟩

lemma pass_scan_fits (k off p : ℕ) : (pass D ⟨.scan, k, off, p⟩).Fits D ⟨.scan, k, off, p⟩ := by
  simp only [pass]
  split
  · rename_i htail
    rintro live rest - ⟨xs, h, -⟩
    simp [h] at htail
  split
  swap
  · rename_i hroom
    constructor
    · simp only [Cursor.rank]
      omega
    rintro live rest - ⟨xs, -, hwf, rfl⟩
    cases hwf with
    | done => exact ⟨rfl, rfl⟩
    | record h => exact absurd h hroom
  rename_i hroom
  -- what a well-formed block has at the cursor
  have hahead : ∀ live rest, Ahead D live ⟨.scan, k, off, p⟩ rest →
      badStride D.usable off (rd16 (D.block p) (off + 8)) = false ∧
      nameLength (D.block p) off ≤ rd16 (D.block p) (off + 8) - header ∧
      ∃ rest', rest = (entryAt (D.block p) off).toList ++ rest' ∧
        Ahead D live ⟨.scan, k, off + rd16 (D.block p) (off + 8), p⟩ rest' := by
    rintro live rest ⟨xs, htail, hwf, rfl⟩
    cases hwf with
    | done h => exact absurd hroom (not_le.2 h)
    | record h hstride hname hrest =>
      refine ⟨hstride, hname, _, ?_, _, htail, hrest, rfl⟩
      rw [entryAt_toList, append_assoc, filterMap_append]
  generalize rd16 (D.block p) (off + 8) = len at hahead ⊢
  split
  · rename_i hstride
    intro live rest _ ha
    cases (hahead live rest ha).1.symm.trans hstride
  rename_i hstride
  split
  · rename_i hname
    exact fun live rest _ ha => absurd (hahead live rest ha).2.1 (not_le.2 hname)
  have hlt : Cursor.rank D ⟨.scan, k, off + len, p⟩ < Cursor.rank D ⟨.scan, k, off, p⟩ := by
    obtain ⟨hmin, -, hle⟩ := badStride_iff.1 (Bool.not_eq_true _ ▸ hstride)
    unfold recordMin at hmin
    simp only [Cursor.rank]
    omega
  split
  · rename_i hentry
    refine ⟨hlt, fun live rest _ ha => ?_⟩
    obtain ⟨rest', hrest, ha'⟩ := (hahead live rest ha).2.2
    rw [hentry] at hrest
    rwa [hrest]
  · rename_i x hentry
    refine ⟨hlt, rfl, length_name_entryAt hentry, fun live rest ha => ?_⟩
    have hrest := (hahead live rest ha).2.2
    rwa [hentry] at hrest

lemma pass_fits (D : Dir) : ∀ c, (pass D c).Fits D c
  | ⟨.map, k, off, p⟩ => pass_map_fits k off p
  | ⟨.scan, k, off, p⟩ => pass_scan_fits k off p

/-- A listing from a cursor, and how lookups and well-formed blocks compare with it. -/
structure Listing (D : Dir) (c : Cursor) (entries : List Entry) (err : Option Err) : Prop where
  enumerated : Enumerates D c entries err
  names : ∀ x ∈ entries, x.name.length ≤ nameMax
  found : ∀ name, name ≠ [] → ∃ out, Completes D name c out ∧
    reported out = entries.find? (·.name == name)
  complete : ∀ live rest, D.Holds live → Ahead D live c rest → err = none ∧ entries = rest

lemma Enumerates.skip {c' : Cursor} {xs : List Entry} {err : Option Err}
    (h : pass D c = .skip c') (h' : Enumerates D c' xs err) : Enumerates D c xs err := by
  cases h' with
  | done hc => exact .done (.skip h hc)
  | failed hc => exact .failed (.skip h hc)
  | entry hc rest => exact .entry (.skip h hc) rest

lemma exists_listing (D : Dir) (c : Cursor) : ∃ entries err, Listing D c entries err := by
  induction hr : c.rank D using Nat.strong_induction_on generalizing c with
  | _ n ih =>
    subst hr
    have hfits := pass_fits D c
    cases hp : pass D c with
    | fail e =>
      rw [hp] at hfits
      exact ⟨[], some e, .failed (.fail hp), by simp, fun _ _ => ⟨_, .fail hp, rfl⟩,
        fun live rest hl ha => absurd ha (hfits live rest hl)⟩
    | exhausted =>
      rw [hp] at hfits
      exact ⟨[], none, .done (.exhausted hp), by simp, fun _ _ => ⟨_, .exhausted hp, rfl⟩,
        fun live rest _ ha => ⟨rfl, (hfits live rest ha).symm⟩⟩
    | skip c' =>
      rw [hp] at hfits
      obtain ⟨entries, err, h⟩ := ih _ hfits.1 c' rfl
      refine ⟨entries, err, h.enumerated.skip hp, h.names, ?_, fun live rest hl ha =>
        h.complete live rest hl (hfits.2 live rest hl ha)⟩
      intro name hname
      obtain ⟨out, hout, hfound⟩ := h.found name hname
      exact ⟨out, .skip hp hout, hfound⟩
    | entry x c' =>
      rw [hp] at hfits
      obtain ⟨hlt, hpc, hx, hahead⟩ := hfits
      obtain ⟨entries, err, h⟩ := ih _ hlt c' rfl
      have hc' : { c' with pc := .scan } = c' := by rw [← hpc]
      refine ⟨x :: entries, err, .entry (.take hp (.inl rfl)) (hc'.symm ▸ h.enumerated),
        forall_mem_cons.2 ⟨hx, h.names⟩, ?_, ?_⟩
      · intro name hname
        by_cases heq : x.name = name
        · refine ⟨_, .take hp (.inr heq), ?_⟩
          rw [find?_cons_of_pos (by simpa using heq)]
          rfl
        obtain ⟨out, hout, hfound⟩ := h.found name hname
        refine ⟨out, .leave hp (not_or.2 ⟨hname, heq⟩) hout, ?_⟩
        rw [hfound, find?_cons_of_neg (by simpa using heq)]
      · intro live rest hl ha
        obtain ⟨rest', rfl, ha'⟩ := hahead live rest ha
        obtain ⟨herr, rfl⟩ := h.complete live rest' hl ha'
        exact ⟨herr, rfl⟩

/-- A listing ends, and a lookup reports the first entry of its name in it. When no block is
malformed it reports the live records in order exactly if no id of them is cut to zero. -/
theorem listing_ends_complete (D : Dir) : ∃ entries err, Lists D entries err ∧
    (∀ live, D.Holds live → err = none ∧
      (entries = ((List.range D.blocks).flatMap live).map Entry.cut ↔
        ∀ k < D.blocks, ∀ x ∈ live k, x.id % 2 ^ 32 ≠ 0)) ∧
    ∀ name, name ≠ [] → ∃ out, LooksUp D name out ∧
      reported out = entries.find? (·.name == name) := by
  by_cases hok : D.isDir = true ∧ D.size ≠ 0 ∧ D.size % D.blockSize = 0
  · have hstart : ∀ want : Name, want.length ≤ nameMax →
        dirStart D want = .ok ⟨.map, 0, 0, 0⟩ := fun want hw => by
      simp [dirStart, hok, not_lt.2 hw]
    obtain ⟨entries, err, h⟩ := exists_listing D ⟨.map, 0, 0, 0⟩
    refine ⟨entries, err, by simpa [Lists, hstart] using h.enumerated, ?_, ?_⟩
    · intro live hl
      obtain ⟨herr, rfl⟩ := h.complete live _ hl ⟨rfl, rfl⟩
      refine ⟨herr, ?_⟩
      rw [Nat.sub_zero, ← range_eq_range', filterMap_narrow_eq_iff]
      simp only [mem_flatMap, mem_range, forall_exists_index, and_imp]
      exact forall_comm.trans (forall_congr' fun k => forall_comm)
    intro name hname
    by_cases hw : name.length ≤ nameMax
    · obtain ⟨out, hout, hfound⟩ := h.found name hname
      exact ⟨out, by simpa [LooksUp, hstart name hw] using hout, hfound⟩
    refine ⟨.error .name, by simp [LooksUp, dirStart, hok, not_le.1 hw], ?_⟩
    refine (find?_eq_none.2 fun x hx heq => hw ?_).symm
    rw [← (by simpa using heq : x.name = name)]
    exact h.names x hx
  · -- the task refuses what is not a directory of whole blocks
    have hstart : ∀ want, ∃ e, dirStart D want = .error e := by
      intro want
      simp only [dirStart]
      split_ifs with h₁ h₂ h₃
      any_goals exact ⟨_, rfl⟩
      exact absurd ⟨by simpa using h₁, not_or.1 h₃ |>.imp_right not_not.1⟩ hok
    obtain ⟨e, he⟩ := hstart []
    refine ⟨[], some e, by simp [Lists, he], fun live hl => absurd ⟨hl.isDir, hl.size⟩ hok, ?_⟩
    intro name _
    obtain ⟨e, he⟩ := hstart name
    exact ⟨.error e, by simp [LooksUp, he], rfl⟩

/-- A directory of one block, with one record that has all of it: the name `a` with the id `2 ^ 32`.
-/
def farObject : Dir where
  blockSize := 4096
  isDir := true
  size := 4096
  extent _ := .ok (some 100)
  block _ i := if i = 8 then 0xF0 else if i = 9 then 0x0F else if i = 12 then 97
    else if i = 4 ∨ i = 10 ∨ i = 11 then 1 else 0
  crc _ _ := 0

/-- The block is valid and the record is found in it, but the listing does not report it. -/
theorem farObject_not_listed :
    farObject.Holds (fun _ => [⟨[97], 2 ^ 32, 1⟩]) ∧ Lists farObject [] none ∧
      direntValidate (farObject.block 100) 4096 = .ok () ∧
      direntFind (farObject.block 100) 4096 [97] = some 0 := by
  refine ⟨⟨rfl, by decide, fun k hk => ⟨100, rfl, by decide, ?_⟩⟩, ?_, by decide, by decide⟩
  · exact .record (by decide) (by decide) (by decide) (.done (by decide))
  · exact .done (.skip rfl (.skip rfl (.skip rfl (.exhausted rfl))))

end Wfs.DirBlock
