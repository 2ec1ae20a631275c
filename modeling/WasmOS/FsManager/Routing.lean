import Mathlib.Data.List.GetD
import Mathlib.Data.List.Infix
import WasmOS.FsManager.Path

/-! # The mount table and the requests it routes

How a report enters the table, and the listing of fixed size that `fsmgr_emit_mounts` formats. A
path is resolved against the client's working directory and goes to the backend that serves it.
-/

namespace FsManager

section

open List Char

inductive Err
  | backendIpc | badArgs | badFd | buffer | busy | mountBusy | mountExists | mountFstype
  | noBackend | noClientSlot | noFd | notAbsolute | notAuthorized | notDir | notFound | notReady
  | pathTooLong | reborrow | replySend | translate
  deriving DecidableEq

/-- `FS_TYPE_*`. -/
inductive FsType | fat | wfs | initfs | tmpfs | other (code : ℕ)
  deriving DecidableEq

def FsType.name : FsType → Text
  | .fat => "fs-fat".toList
  | .wfs => "fs-wfs".toList
  | .initfs => "fs-init".toList
  | .tmpfs => "fs-tmpfs".toList
  | .other _ => "fs".toList

structure Backend where
  kind : ℕ
  endpoint : ℤ
  fsType : FsType
  sourceId : Text
  mountPath : Text
  deriving DecidableEq

def backendCap : ℕ := 16
def mountPathMax : ℕ := 64

abbrev Table := List (Option Backend)

namespace Table

def empty : Table := List.replicate backendCap none

variable (t : Table)

def mounted : List Backend := t.filterMap id

/-- `backend_register`: the slot of the endpoint, or the first free one, if any. -/
def register (b : Backend) : Table :=
  match t.findIdx? (fun s => s.any fun c => c.endpoint == b.endpoint) with
  | some i => t.set i (some b)
  | none =>
    match t.findIdx? Option.isNone with
    | some i => t.set i (some b)
    | none => t

/-- The removal of `fsmgr_backend_remove`. -/
def remove (endpoint : ℤ) : Table := t.map fun s => s.filter fun b => b.endpoint != endpoint

end Table

def reportedStep (cap : ℕ) (out : Text) (c : Char) : Option Text :=
  if c = '/' ∧ out.getLast? = some '/' then some out
  else if cap ≤ out.length + 1 then none
  else some (out ++ [c.toLower])

def mountPathFromReported (reported : Text) (cap : ℕ) : Option Text :=
  if cap < 3 then none
  else
    match (reported.dropWhile (· = '/')).foldlM (reportedStep cap) ['/'] with
    | none => none
    | some out =>
      let out := trimSlashes out
      if reported = [] then none
      else if (out.splitOn '/').any fun seg => seg == ['.'] || seg == ['.', '.'] then none
      else some out

/-- What a backend answers to `FSMGR_IPC_BACKEND_INFO_REQ`. -/
structure Info where
  kind : ℕ
  fsType : FsType
  mount : Text
  source : Text

def cstr (bytes : Text) : Text := bytes.takeWhile (· ≠ Char.ofNat 0)

def applyBackendInfo (t : Table) (endpoint : ℤ) (info : Info) : Table :=
  match mountPathFromReported (cstr info.mount) mountPathMax with
  | none => t
  | some mount => t.register ⟨info.kind, endpoint, info.fsType, cstr info.source, mount⟩

def mountsSize : ℕ := 768

/-- The memory from `mounts` on, which does not end with the array. -/
abbrev Memory := ℕ → Char

variable (mem : Memory)

def poke (pos : ℕ) (text : Text) : Memory := fun i =>
  if pos ≤ i ∧ i < pos + text.length then text.getD (i - pos) 'x' else mem i

def snprintf (pos size : ℕ) (text : Text) : Memory :=
  if size = 0 then mem else poke mem pos (text.take (size - 1) ++ [ofNat 0])

variable (b : Backend)

def Backend.served : Text := b.mountPath ++ " -> ".toList ++ b.fsType.name

def Backend.on (b : Backend) : Text := " on ".toList ++ b.sourceId

def emitFields (pos : ℕ) (b : Backend) : Memory × ℕ :=
  let n := b.served.length
  let mem := snprintf mem pos (mountsSize - pos) b.served
  if 0 < n ∧ n < mountsSize - pos ∧ b.sourceId ≠ [] then
    (snprintf mem (pos + n) (mountsSize - (pos + n)) b.on, n + b.on.length)
  else (mem, n)

def emitNewline (pos n : ℕ) : Memory × ℕ :=
  if 0 < n ∧ pos + n + 1 < mountsSize then
    (poke mem (pos + n) ['\n', ofNat 0], n + 1)
  else (mem, n)

def emitLoop : Memory → ℕ → List Backend → Memory × ℕ
  | mem, pos, [] => (mem, pos)
  | mem, pos, b :: bs =>
    let (mem, n) := emitFields mem pos b
    let (mem, n) := emitNewline mem pos n
    if n = 0 then emitLoop mem pos bs
    else if mountsSize ≤ pos + n + 1 then (mem, pos + n)
    else emitLoop mem (pos + n) bs

def header : Text := "mounts:\n".toList

def emitMounts (t : Table) (bufferId : ℤ) (room : ℕ) : Except Err Text :=
  let mem := poke mem 0 (header ++ [ofNat 0])
  let (mem, pos) := emitLoop mem header.length t.mounted
  if bufferId ≤ 0 then .error .badArgs
  else if room < pos then .error .buffer
  else .ok ((List.range pos).map mem)

def mountedOn (listing id : Text) : Bool := id != [] && listing.tails.any fun rest =>
    rest.take 4 == " on ".toList && (rest.drop 4).takeWhile (fun c => c != '\n' && c != '\r') == id

def Backend.line : Text := b.served ++ if b.sourceId = [] then [] else b.on

def Table.listing (t : Table) : Text := header ++ t.mounted.flatMap fun b => b.line ++ ['\n']

def Starts (text : Text) : Prop := ∀ i (h : i < text.length), mem i = text[i]

variable {mem : Memory} {done text : Text} {b : Backend}

lemma Starts.left {rest : Text} (h : Starts mem (text ++ rest)) : Starts mem text := by
  intro i hi
  rw [h i (by rw [length_append]; omega), getElem_append_left hi]

lemma Starts.poke (h : Starts mem done) (text : Text) :
    Starts (poke mem done.length text) (done ++ text) := by
  intro i hi
  rw [length_append] at hi
  unfold FsManager.poke
  by_cases hd : i < done.length
  · rw [if_neg (by omega), h i hd, getElem_append_left hd]
  · rw [if_pos (by omega), getElem_append_right (by omega)]
    exact getD_eq_getElem _ _ (by omega)

lemma Starts.snprintf (h : Starts mem done) (hroom : done.length + text.length < mountsSize) :
    Starts (snprintf mem done.length (mountsSize - done.length) text) (done ++ text) := by
  unfold FsManager.snprintf
  rw [if_neg (by omega), take_of_length_le (by omega)]
  have hpoke := h.poke (text ++ [ofNat 0])
  rw [← append_assoc] at hpoke
  exact hpoke.left

lemma served_pos : 0 < b.served.length := by
  simp only [Backend.served, length_append]
  have : 0 < " -> ".toList.length := by decide
  omega

lemma emitFields_fits (h : Starts mem done) (hroom : done.length + b.line.length < mountsSize) :
    Starts (emitFields mem done.length b).1 (done ++ b.line) ∧
      (emitFields mem done.length b).2 = b.line.length := by
  have hpos : 0 < b.served.length := served_pos
  unfold emitFields Backend.line at *
  rw [length_append] at hroom
  have hserved : Starts (snprintf mem done.length (mountsSize - done.length) b.served)
      (done ++ b.served) := h.snprintf (by omega)
  by_cases hs : b.sourceId = []
  · rw [if_neg (by simp [hs]), if_pos hs, append_nil]
    exact ⟨hserved, rfl⟩
  rw [if_neg hs] at hroom ⊢
  rw [if_pos ⟨hpos, by omega, hs⟩]
  have hlen : (done ++ b.served).length = done.length + b.served.length := length_append
  have hon : Starts (snprintf _ (done ++ b.served).length
      (mountsSize - (done ++ b.served).length) b.on) (done ++ b.served ++ b.on) :=
    hserved.snprintf (by omega)
  rw [hlen, append_assoc] at hon
  exact ⟨hon, length_append.symm⟩

lemma emitLoop_fits (bs : List Backend) (h : Starts mem done)
    (hroom : (done ++ bs.flatMap fun b => b.line ++ ['\n']).length < mountsSize) :
    Starts (emitLoop mem done.length bs).1 (done ++ bs.flatMap fun b => b.line ++ ['\n']) ∧
      (emitLoop mem done.length bs).2 = (done ++ bs.flatMap fun b => b.line ++ ['\n']).length := by
  induction bs generalizing mem done with
  | nil => simpa [emitLoop] using h
  | cons b bs ih =>
    simp only [flatMap_cons, length_append, length_singleton] at hroom
    obtain ⟨hmem, hn⟩ := emitFields_fits h (b := b) (by omega)
    have hpos : 0 < b.line.length := by
      have : 0 < b.served.length := served_pos
      rw [Backend.line, length_append]
      omega
    have hend := hmem.poke ['\n', ofNat 0]
    rw [length_append] at hend
    have hline : Starts (poke (emitFields mem done.length b).1 (done.length + b.line.length)
        ['\n', ofNat 0]) (done ++ (b.line ++ ['\n'])) := by
      have hsplit : done ++ b.line ++ ['\n', ofNat 0] =
          done ++ (b.line ++ ['\n']) ++ [ofNat 0] := by simp
      rw [hsplit] at hend
      exact hend.left
    have hlen : (done ++ (b.line ++ ['\n'])).length = done.length + (b.line.length + 1) := by simp
    rw [flatMap_cons, ← append_assoc]
    have hnewline : emitNewline (emitFields mem done.length b).1 done.length b.line.length =
        (poke (emitFields mem done.length b).1 (done.length + b.line.length) ['\n', ofNat 0],
          b.line.length + 1) := if_pos ⟨hpos, by omega⟩
    unfold emitLoop
    dsimp only
    rw [hn, hnewline, if_neg (Nat.succ_ne_zero _)]
    dsimp only
    by_cases hlast : mountsSize ≤ done.length + (b.line.length + 1) + 1
    · -- the line ends where the buffer does, so nothing follows it
      have hbs : bs.flatMap (fun b => b.line ++ ['\n']) = [] := by
        apply eq_nil_of_length_eq_zero
        omega
      rw [if_pos hlast, hbs, append_nil]
      exact ⟨hline, hlen.symm⟩
    · rw [if_neg hlast, ← hlen]
      exact ih hline (by simp only [length_append, length_singleton]; omega)

lemma emitFields_length (mem : Memory) (pos : ℕ) (b : Backend) :
    (emitFields mem pos b).2 = b.line.length ∨
      mountsSize - pos ≤ (emitFields mem pos b).2 ∧ (emitFields mem pos b).2 ≤ b.line.length := by
  have hpos : 0 < b.served.length := served_pos
  unfold emitFields Backend.line
  dsimp only
  split_ifs with hfits hs
  · exact absurd hs hfits.2.2
  · exact .inl length_append.symm
  · exact .inl (by rw [append_nil])
  · rw [length_append]
    exact .inr ⟨not_lt.mp fun h => hfits ⟨hpos, h, ‹_›⟩, by omega⟩

/-- A listing that does not fit is cut off. -/
lemma emitLoop_short (mem : Memory) (pos : ℕ) (bs : List Backend) (hpos : pos < mountsSize)
    (h : mountsSize ≤ pos + (bs.flatMap fun b => b.line ++ ['\n']).length) :
    (emitLoop mem pos bs).2 < pos + (bs.flatMap fun b => b.line ++ ['\n']).length := by
  induction bs generalizing mem pos with
  | nil => exact absurd h (by simpa using hpos)
  | cons b bs ih =>
    have hserved : 0 < b.served.length := served_pos
    have hline : b.served.length ≤ b.line.length := by
      rw [Backend.line, length_append]
      omega
    simp only [flatMap_cons, length_append, length_singleton] at h ⊢
    have hn := emitFields_length mem pos b
    unfold emitLoop emitNewline
    dsimp only
    generalize emitFields mem pos b = fields at hn ⊢
    obtain ⟨mem', n⟩ := fields
    dsimp only at hn ⊢
    split_ifs with hroom hzero hstop hzero hstop
    any_goals dsimp only at *
    any_goals omega
    have := ih (poke mem' (pos + n) ['\n', ofNat 0]) (pos + (n + 1)) (by omega) (by omega)
    omega

lemma range_map_of_starts (h : Starts mem text) : (List.range text.length).map mem = text := by
  apply ext_getElem
  · simp
  intro i hi _
  simp only [length_map, length_range] at hi
  simp [h i hi]

variable {t : Table}

lemma emitMounts_eq_iff {bufferId : ℤ} {room : ℕ} {out : Text}
    (h : emitMounts mem t bufferId room = .ok out) :
    out = t.listing ↔ t.listing.length < mountsSize := by
  have hstart : Starts (poke mem 0 (header ++ [ofNat 0])) header := by
    have hnil : Starts mem [] := nofun
    have hpoke := hnil.poke (header ++ [ofNat 0])
    rw [nil_append] at hpoke
    exact hpoke.left
  unfold emitMounts at h
  dsimp only at h
  split_ifs at h
  cases h
  constructor
  · intro heq
    by_contra hlong
    have hlen := congrArg List.length heq
    rw [Table.listing, length_append] at hlong hlen
    have := emitLoop_short (poke mem 0 (header ++ [ofNat 0])) header.length t.mounted
      (by decide) (not_lt.mp hlong)
    rw [length_map, length_range] at hlen
    omega
  · intro hfit
    obtain ⟨hmem, hpos⟩ := emitLoop_fits t.mounted hstart hfit
    rw [hpos]
    exact range_map_of_starts hmem

def OneLine (text : Text) : Prop := '\n' ∉ text ∧ '\r' ∉ text

lemma mountedOn_of_suffix {listing id rest : Text} (hne : id ≠ []) (hid : OneLine id)
    (h : " on ".toList ++ id ++ '\n' :: rest <:+ listing) : mountedOn listing id = true := by
  have htake : (id ++ '\n' :: rest).takeWhile (fun c => c != '\n' && c != '\r') = id := by
    rw [takeWhile_append_of_pos]
    · simp
    intro c hc
    simp only [Bool.and_eq_true, bne_iff_ne, ne_eq]
    exact ⟨fun he => hid.1 (he ▸ hc), fun he => hid.2 (he ▸ hc)⟩
  simp only [mountedOn, Bool.and_eq_true, bne_iff_ne, ne_eq, any_eq_true, mem_tails, beq_iff_eq]
  refine ⟨hne, _, h, ?_, ?_⟩
  · rfl
  · rwa [append_assoc]

lemma mountedOn_listing (hb : b ∈ t.mounted) (hne : b.sourceId ≠ [])
    (hid : OneLine b.sourceId) : mountedOn t.listing b.sourceId = true := by
  obtain ⟨pre, post, hsplit⟩ := append_of_mem hb
  have hsuffix : " on ".toList ++ b.sourceId ++ '\n' :: post.flatMap (fun b => b.line ++ ['\n']) <:+
      t.listing := by
    refine ⟨header ++ (pre.flatMap fun b => b.line ++ ['\n']) ++ b.served, ?_⟩
    simp [Table.listing, hsplit, Backend.line, Backend.on, hne]
  exact mountedOn_of_suffix hne hid hsuffix

/-- A reader who stops at line ends takes no text with one in it for an id. -/
lemma oneLine_of_mountedOn {listing id : Text} (h : mountedOn listing id = true) : OneLine id := by
  simp only [mountedOn, Bool.and_eq_true, any_eq_true, beq_iff_eq] at h
  obtain ⟨-, rest, -, -, hid⟩ := h
  have hstop : ∀ c ∈ id, (c != '\n' && c != '\r') = true := by
    intro c hc
    rw [← hid] at hc
    have hc := mem_takeWhile_imp hc
    exact hc
  exact ⟨fun hc => absurd (hstop _ hc) (by decide), fun hc => absurd (hstop _ hc) (by decide)⟩

def Backend.Plain : Prop := '\n' ∉ b.mountPath ∧ OneLine b.sourceId

instance (text : Text) : Decidable (OneLine text) := inferInstanceAs (Decidable (_ ∧ _))

instance (b : Backend) : Decidable b.Plain := inferInstanceAs (Decidable (_ ∧ _))

lemma newline_notMem_line : '\n' ∉ b.line ↔ '\n' ∉ b.mountPath ∧ '\n' ∉ b.sourceId := by
  have hname : ∀ t : FsType, '\n' ∉ t.name := by
    intro t
    cases t with
    | other code =>
      have hfs : '\n' ∉ "fs".toList := by decide
      exact hfs
    | _ => decide
  have harrow : '\n' ∉ " -> ".toList := by decide
  have hon : '\n' ∉ " on ".toList := by decide
  unfold Backend.line Backend.served Backend.on
  split
  · next hs => simp only [mem_append, harrow, hname, hs, not_mem_nil, or_false, not_false_eq_true,
      and_true]
  · simp only [mem_append, harrow, hname, hon, or_false, false_or, not_or]

lemma notMem_of_mem_splitOn {c : Char} {seg : Text} (h : seg ∈ text.splitOn c) : c ∉ seg := by
  induction text generalizing seg with
  | nil =>
    obtain rfl : seg = [] := by simpa using h
    exact not_mem_nil
  | cons d text ih =>
    obtain ⟨first, others, hs⟩ := exists_cons_of_ne_nil (splitOn_ne_nil c text)
    rw [splitOn_cons_eq_if_modifyHead] at h
    split_ifs at h with hd
    · rcases mem_cons.mp h with rfl | h
      · exact not_mem_nil
      · exact ih h
    rw [hs, modifyHead_cons] at h
    rcases mem_cons.mp h with rfl | h
    · rw [mem_cons, not_or]
      exact ⟨fun hc => hd (by simp [hc]), ih (hs ▸ mem_cons_self)⟩
    · exact ih (hs ▸ mem_cons_of_mem _ h)

lemma splitOn_lines {bs : List Backend} (h : ∀ b ∈ bs, '\n' ∉ b.line) :
    (bs.flatMap fun b => b.line ++ ['\n']).splitOn '\n' = bs.map Backend.line ++ [[]] := by
  induction bs with
  | nil => rfl
  | cons b bs ih =>
    rw [flatMap_cons, append_assoc, singleton_append, splitOn_append_cons_self,
      splitOn_eq_singleton (h b (.head _)), ih fun c hc => h c (.tail _ hc)]
    rfl

lemma intercalate_lines (bs : List Backend) : ['\n'].intercalate (bs.map Backend.line ++ [[]]) =
    bs.flatMap fun b => b.line ++ ['\n'] := by
  induction bs with
  | nil => rfl
  | cons b bs ih =>
    rw [map_cons, cons_append, intercalate_cons_of_ne_nil (by simp), ih, flatMap_cons]

/-- A text is split into the heading and the lines exactly if it is the listing and no line has an
end within. -/
lemma splitOn_eq_iff : text.splitOn '\n' =
    "mounts:".toList :: (t.mounted.map Backend.line ++ [[]]) ↔
    text = t.listing ∧ ∀ b ∈ t.mounted, '\n' ∉ b.line := by
  have hheader : header = "mounts:".toList ++ ['\n'] := by decide
  constructor
  · intro h
    have hjoin : ['\n'].intercalate (text.splitOn '\n') = text := intercalate_splitOn '\n'
    refine ⟨?_, fun b hb => ?_⟩
    · rw [← hjoin, h, intercalate_cons_of_ne_nil (by simp), intercalate_lines, Table.listing,
        hheader]
    · have hline : b.line ∈ text.splitOn '\n' := by
        rw [h]
        exact mem_cons_of_mem _ (mem_append_left _ (mem_map_of_mem hb))
      exact notMem_of_mem_splitOn hline
  · rintro ⟨rfl, h⟩
    rw [Table.listing, hheader, append_assoc, singleton_append, splitOn_append_cons_self,
      splitOn_eq_singleton (by decide), splitOn_lines h]
    rfl

/-- A reply to a mount query has a whole line for every mounted backend, and every device in use is
found in it, exactly if the listing fits its buffer and no text of a backend ends its line. -/
theorem emitMounts_complete {t : Table} {bufferId : ℤ} {room : ℕ} {out : Text}
    (h : emitMounts mem t bufferId room = .ok out) :
    (out.splitOn '\n' = "mounts:".toList :: (t.mounted.map Backend.line ++ [[]]) ∧
      ∀ b ∈ t.mounted, b.sourceId ≠ [] → mountedOn out b.sourceId = true) ↔
    t.listing.length < mountsSize ∧ ∀ b ∈ t.mounted, b.Plain := by
  rw [splitOn_eq_iff, emitMounts_eq_iff h]
  constructor
  · rintro ⟨⟨hfit, hlines⟩, hfound⟩
    refine ⟨hfit, fun b hb => ⟨(newline_notMem_line.mp (hlines b hb)).1, ?_⟩⟩
    by_cases hs : b.sourceId = []
    · rw [hs]
      exact ⟨not_mem_nil, not_mem_nil⟩
    · exact oneLine_of_mountedOn (hfound b hb hs)
  · rintro ⟨hfit, hplain⟩
    refine ⟨⟨hfit, fun b hb => newline_notMem_line.mpr ⟨(hplain b hb).1, (hplain b hb).2.1⟩⟩, ?_⟩
    intro b hb hne
    rw [(emitMounts_eq_iff h).mpr hfit]
    exact mountedOn_listing hb hne (hplain b hb).2

def bootTable : Table := applyBackendInfo
    (applyBackendInfo Table.empty 10 ⟨0, .fat, "boot".toList, "block:ata:0p1".toList⟩)
    11 ⟨1, .tmpfs, "/tmp".toList, []⟩

theorem emitMounts_complete_bootTable :
    ∃ out, emitMounts (fun _ => 'x') bootTable 1 1024 = .ok out ∧
      (out.splitOn '\n' = "mounts:".toList :: (bootTable.mounted.map Backend.line ++ [[]]) ∧
        ∀ b ∈ bootTable.mounted, b.sourceId ≠ [] → mountedOn out b.sourceId = true) := by
  have hout : emitMounts (fun _ => 'x') bootTable 1 1024 = .ok bootTable.listing := by
    decide +kernel
  exact ⟨bootTable.listing, hout, (emitMounts_complete hout).mpr (by decide +kernel)⟩

def longReport (i : ℕ) : Info :=
  ⟨0, .wfs, List.replicate 59 'd' ++ [Nat.digitChar i], "block:ata:0p".toList ++ [Nat.digitChar i]⟩

def crowdedTable : Table :=
  (List.range 9).foldl (fun t i => applyBackendInfo t (Int.ofNat (10 + i)) (longReport i))
    Table.empty

/-- The listing of nine mounts is longer than the buffer: the reply carries what stands behind it,
and the disk of the last mount passes for free. -/
theorem crowdedTable_incomplete :
    crowdedTable.mounted.length = 9 ∧ (∀ b ∈ crowdedTable.mounted, b.Plain) ∧
      ∃ out, emitMounts (fun _ => '?') crowdedTable 1 1024 = .ok out ∧ mountsSize < out.length ∧
        mountedOn out "block:ata:0p8".toList = false ∧
        "block:ata:0p8".toList ∈ crowdedTable.mounted.map Backend.sourceId := by
  refine ⟨by decide +kernel, by decide +kernel, ?_⟩
  refine ⟨(emitMounts (fun _ => '?') crowdedTable 1 1024).toOption.getD [], ?_⟩
  decide +kernel

end

open List Option

open Backend VPath

def cwdMax : ℕ := 128

structure ClientFd where
  backendEndpoint : ℤ
  backendFd : ℤ
  deriving DecidableEq

/-- `fs_client_state_t`. A negative endpoint is an unset cache. -/
structure Client where
  contextId : ℤ
  backendEndpoint : ℤ
  cwd : Text
  fds : List (Option ClientFd)
  deriving DecidableEq

/-- A client's transfer buffer as the manager may use it. -/
structure Buffer where
  id : ℤ
  bytes : Text
  granted : Bool
  deriving DecidableEq

namespace Buffer

variable (buf : Buffer)

def read (n offset : ℕ) : Option Text :=
  if buf.granted && decide (offset + n ≤ buf.bytes.length) then
    some ((buf.bytes.drop offset).take n)
  else none

def write (text : Text) (offset : ℕ) : Option Buffer :=
  if buf.granted && decide (offset + text.length ≤ buf.bytes.length) then
    some { buf with
      bytes := buf.bytes.take offset ++ text ++ buf.bytes.drop (offset + text.length) }
  else none

end Buffer

def routePathToBackend (t : Table) (path : Text) (cap : ℕ) : Option (ℤ × Text) :=
  match routePathForMounts path (t.mounted.map mountPath) cap with
  | none => none
  | some (i, tail) => (t.mounted[i]?).map fun b => (b.endpoint, tail)

def routeAbsolutePath (t : Table) (path : Text) (cap : ℕ) : Option (ℤ × Text) :=
  (routePathToBackend t path cap).filter fun r => 0 ≤ r.1

def resolveBackendForState (t : Table) (c : Client) : ℤ :=
  if 0 ≤ c.backendEndpoint then c.backendEndpoint
  else ((routeAbsolutePath t c.cwd cwdMax).map Prod.fst).getD (-1)

structure Routed where
  backend : ℤ
  arg0 : ℤ
  arg1 : ℤ
  buffer : Buffer

/-- `route_root_path_request`, on a request that would go to `r.backend`. Nothing is done without a
buffer. -/
def routeRootPathRequest (xferSize : ℤ) (t : Table) (c : Client) (r : Routed) : Option Routed :=
  if r.buffer.id ≤ 0 then some r
  else if r.arg0 ≤ 0 ∨ xferSize ≤ r.arg0 ∨ 255 ≤ r.arg0 then none
  else do
    let bytes ← r.buffer.read r.arg0.toNat 0
    let path ← cwdJoin c.cwd (cstr bytes) (cwdMax + 256)
    if path.length = 1 then none
    else do
      let (backend, tail) ← routeAbsolutePath t path 256
      let buffer ← r.buffer.write tail 0
      some ⟨backend, tail.length, r.arg1, buffer⟩

/-- One path of a rename: where it goes and the text for the backend. The root, and a path no mount
owns, stay as written. -/
def routeRenamePath (t : Table) (backend : ℤ) (bytes path : Text) : ℤ × Text :=
  if path.length = 1 then (backend, bytes)
  else (routePathToBackend t path 256).getD (backend, bytes)

def routeRenameRequest (xferSize : ℤ) (t : Table) (c : Client) (r : Routed) : Option Routed :=
  if r.buffer.id ≤ 0 then some r
  else if r.arg0 ≤ 0 ∨ r.arg1 ≤ 0 ∨ 255 ≤ r.arg0 ∨ 255 ≤ r.arg1 ∨
      xferSize < r.arg0 + r.arg1 + 2 then
    none
  else do
    let oldBytes ← r.buffer.read r.arg0.toNat 0
    let newBytes ← r.buffer.read r.arg1.toNat (r.arg0.toNat + 1)
    let oldPath ← cwdJoin c.cwd (cstr oldBytes) (cwdMax + 256)
    let newPath ← cwdJoin c.cwd (cstr newBytes) (cwdMax + 256)
    let old := routeRenamePath t r.backend oldBytes oldPath
    let new := routeRenamePath t r.backend newBytes newPath
    if old.1 ≠ new.1 then none
    else do
      let buffer ← r.buffer.write (old.2 ++ [Char.ofNat 0]) 0
      let buffer ← buffer.write (new.2 ++ [Char.ofNat 0]) (old.2.length + 1)
      some ⟨old.1, old.2.length, new.2.length, buffer⟩

/-- The requests that name paths. `FS_IPC_OPEN_REQ`, `STAT`, `UNLINK`, `MKDIR` and `RMDIR` are
served alike. -/
inductive PathOp | path | readPath | chdir | rename
  deriving DecidableEq

/-- A request of a client; `reborrows` is whether the buffer can be lent to the backend. -/
structure PathRequest where
  op : PathOp
  arg0 : ℤ
  arg1 : ℤ
  buffer : Buffer
  reborrows : Bool
  deriving DecidableEq

structure Forward where
  backend : ℤ
  paths : List Text
  deriving DecidableEq

def forwardRouted (q : PathRequest) (r : Routed) (paths : List Text) :
    Except Err (Option Forward) :=
  if !q.reborrows then .error .reborrow
  else if r.backend < 0 then .error .backendIpc
  else .ok (some ⟨r.backend, paths⟩)

def Routed.path (r : Routed) : Text := r.buffer.bytes.take r.arg0.toNat

def Routed.newPath (r : Routed) : Text := (r.buffer.bytes.drop (r.arg0.toNat + 1)).take r.arg1.toNat

/-- `handle_read_path_req` up to the open it sends. -/
def serveReadPath (xferSize : ℤ) (t : Table) (c : Client) (q : PathRequest) :
    Except Err (Option Forward) :=
  if q.buffer.id ≤ 0 ∨ q.arg0 ≤ 0 then .error .badArgs
  else if xferSize ≤ q.arg0 ∨ 255 ≤ q.arg0 then .error .pathTooLong
  else
    match q.buffer.read q.arg0.toNat 0 with
    | none => .error .buffer
    | some bytes =>
      match cwdJoin c.cwd (cstr bytes) (cwdMax + 256) with
      | none => .error .pathTooLong
      | some path =>
        match routeAbsolutePath t path 256 with
        | none => .error .notFound
        | some (backend, tail) =>
          match q.buffer.write tail 0 with
          | none => .error .buffer
          | some buffer =>
            let r : Routed := ⟨backend, tail.length, 0, buffer⟩
            forwardRouted q r [r.path]

/-- `handle_chdir_mount` up to the stat it sends in a buffer of its own; a root that nothing is
mounted at needs none. -/
def serveChdir (xferSize : ℤ) (t : Table) (c : Client) (q : PathRequest) :
    Except Err (Option Forward) :=
  if q.buffer.id ≤ 0 ∨ q.arg0 < 0 ∨ 128 ≤ q.arg0 ∨ xferSize ≤ q.arg0 then .error .pathTooLong
  else
    match if q.arg0 = 0 then some ['/'] else q.buffer.read q.arg0.toNat 0 with
    | none => .error .buffer
    | some bytes =>
      match cwdJoin c.cwd (cstr bytes) cwdMax with
      | none => .error .pathTooLong
      | some target =>
        match routeAbsolutePath t target cwdMax with
        | none => if target.length = 1 then .ok none else .error .notFound
        | some (backend, tail) =>
          if !q.reborrows then .error .reborrow else .ok (some ⟨backend, [tail]⟩)

def servePaths (xferSize : ℤ) (t : Table) (c : Client) (q : PathRequest) :
    Except Err (Option Forward) :=
  let r : Routed := ⟨resolveBackendForState t c, q.arg0, q.arg1, q.buffer⟩
  match q.op with
  | .path =>
    match routeRootPathRequest xferSize t c r with
    | none => .error .translate
    | some r => forwardRouted q r [r.path]
  | .rename =>
    match routeRenameRequest xferSize t c r with
    | none => .error .translate
    | some r => forwardRouted q r [r.path, r.newPath]
  | .readPath => serveReadPath xferSize t c q
  | .chdir => serveChdir xferSize t c q

def PathRequest.names (q : PathRequest) : List Text :=
  let first := cstr (q.buffer.bytes.take q.arg0.toNat)
  match q.op with
  | .rename => [first, cstr ((q.buffer.bytes.drop (q.arg0.toNat + 1)).take q.arg1.toNat)]
  | .chdir => [if q.arg0 = 0 then ['/'] else first]
  | _ => [first]

/-- A path goes to the backend of the mount that owns it, as a path in that mount. -/
def Delivered (t : Table) (ms : List VPath) (p : VPath) (backend : ℤ) (tail : Text) : Prop :=
  ∃ i m b, VPath.IsOwner ms p i m ∧ t.mounted[i]? = some b ∧ backend = b.endpoint ∧
    tail = text (p.drop m.length)

def Routable (ms : List VPath) (p : VPath) : Prop :=
  ∃ i m, VPath.IsOwner ms p i m ∧ (text (p.drop m.length)).length < 256

/-- The texts of a rename. -/
def PathRequest.texts (q : PathRequest) : List Text :=
  [q.buffer.bytes.take q.arg0.toNat, (q.buffer.bytes.drop (q.arg0.toNat + 1)).take q.arg1.toNat]

/-- One path of a rename: the root, whose text stays, has to be right as it is. -/
def Resolves (t : Table) (ms : List VPath) (backend : ℤ) (p : VPath) (bytes : Text) : Prop :=
  if p = [] then Delivered t ms p backend bytes else Routable ms p

/-- Without a buffer id the texts stay as they are, and have to be right for the backend of the
working directory. -/
def Careful (t : Table) (ms : List VPath) (c : Client) (cwd : VPath) (q : PathRequest) : Prop :=
  let backend := resolveBackendForState t c
  match q.op with
  | .path => q.buffer.id ≤ 0 → Delivered t ms
      (cwd.resolve (cstr (q.buffer.bytes.take q.arg0.toNat))) backend
      (q.buffer.bytes.take q.arg0.toNat)
  | .rename => ∀ bytes ∈ q.texts,
      if q.buffer.id ≤ 0 then Delivered t ms (cwd.resolve (cstr bytes)) backend bytes
      else Resolves t ms backend (cwd.resolve (cstr bytes)) bytes
  | _ => True

section Delivery

variable {t : Table} {ms : List VPath} {cwd p : VPath} {cap : ℕ} {e : ℤ} {tail : Text}

variable (hms : t.mounted.map mountPath = ms.map text)
include hms

lemma routePathToBackend_delivered
    (h : routePathToBackend t p.text cap = some (e, tail)) : Delivered t ms p e tail := by
  unfold routePathToBackend at h
  rw [hms] at h
  split at h
  · cases h
  next i tail' hroute =>
  obtain ⟨m, howner, rfl, -⟩ := routePathForMounts_text hroute
  rw [map_eq_some_iff] at h
  obtain ⟨b, hb, heq⟩ := h
  cases heq
  exact ⟨i, m, b, howner, hb, rfl, rfl⟩

lemma routeAbsolutePath_delivered
    (h : routeAbsolutePath t p.text cap = some (e, tail)) : Delivered t ms p e tail :=
  routePathToBackend_delivered hms (filter_eq_some_iff.mp h).1

lemma routePathToBackend_ne_none (hp : Routable ms p) : routePathToBackend t p.text 256 ≠ none := by
  obtain ⟨i, m, howner, hcap⟩ := hp
  intro hroute
  have hsome := routePathForMounts_ne_none howner hcap
  unfold routePathToBackend at hroute
  rw [hms] at hroute
  split at hroute
  · exact absurd ‹_› hsome
  next j tail hj =>
  obtain ⟨k, hk, -⟩ := routePathForMounts_text hj
  have hlt : j < t.mounted.length := by
    have hj := (List.getElem?_eq_some_iff.mp hk.mount).1
    have hlens := congrArg List.length hms
    simp only [List.length_map] at hlens
    omega
  rw [getElem?_eq_getElem hlt] at hroute
  cases hroute

lemma routeRenamePath_delivered_iff (backend : ℤ) {bytes : Text} (hlen : bytes.length < 256) :
    Delivered t ms p (routeRenamePath t backend bytes p.text).1
      (routeRenamePath t backend bytes p.text).2 ↔ Resolves t ms backend p bytes := by
  unfold routeRenamePath Resolves
  by_cases hp : p = []
  · subst hp
    exact Iff.rfl
  have hlong := one_lt_length_text.mpr hp
  rw [if_neg (by omega), if_neg hp]
  cases hroute : routePathToBackend t p.text 256 with
  | none =>
    refine iff_of_false ?_ fun hr => routePathToBackend_ne_none hms hr hroute
    -- a text that is the tail of an owned path is short enough to be routed
    rintro ⟨i, m, b, howner, -, -, htail⟩
    exact routePathToBackend_ne_none hms ⟨i, m, howner, htail ▸ hlen⟩ hroute
  | some r =>
    refine iff_of_true (routePathToBackend_delivered hms hroute) ?_
    unfold routePathToBackend at hroute
    rw [hms] at hroute
    split at hroute
    · cases hroute
    next j tail hj =>
    obtain ⟨m, howner, rfl, hcap⟩ := routePathForMounts_text hj
    exact ⟨j, m, howner, hcap⟩

end Delivery

namespace Buffer

variable {buf buf' : Buffer} {text : Text} {n offset : ℕ}

lemma read_eq (h : buf.read n offset = some text) :
    text = (buf.bytes.drop offset).take n ∧ text.length = n := by
  unfold read at h
  split at h
  · next hc =>
    cases h
    simp only [Bool.and_eq_true, decide_eq_true_eq] at hc
    exact ⟨rfl, by rw [length_take, length_drop]; omega⟩
  · cases h

lemma write_eq (h : buf.write text offset = some buf') :
    buf'.bytes = buf.bytes.take offset ++ text ++ buf.bytes.drop (offset + text.length) ∧
      (buf.bytes.take offset).length = offset := by
  unfold write at h
  split at h
  · next hc =>
    cases h
    simp only [Bool.and_eq_true, decide_eq_true_eq] at hc
    exact ⟨rfl, by rw [length_take]; omega⟩
  · cases h

lemma take_write (h : buf.write text 0 = some buf') : buf'.bytes.take text.length = text := by
  rw [(write_eq h).1, take_zero, nil_append, take_left]

lemma take_write_pair {buf'' : Buffer} {other : Text} {c : Char}
    (h : buf.write (text ++ [c]) 0 = some buf')
    (h' : buf'.write (other ++ [c]) (text.length + 1) = some buf'') :
    buf''.bytes.take text.length = text ∧
      (buf''.bytes.drop (text.length + 1)).take other.length = other := by
  have hfirst := take_write h
  obtain ⟨hbytes, hlen⟩ := write_eq h'
  rw [length_append, length_singleton] at hfirst
  rw [hfirst] at hbytes hlen
  constructor
  · rw [hbytes, append_assoc, append_assoc, take_left]
  · rw [hbytes, append_assoc, ← hlen, drop_left, append_assoc, take_left]

end Buffer

section Requests

variable {xferSize : ℤ} {t : Table} {ms : List VPath} {c : Client} {cwd : VPath} {q : PathRequest}
  {r r' : Routed} {f : Forward}

section

variable (hms : t.mounted.map mountPath = ms.map text) (hcwd : c.cwd = cwd.text)
  (hid : 0 < r.buffer.id)
include hms hcwd hid

lemma routeRootPathRequest_delivered (h : routeRootPathRequest xferSize t c r = some r') :
    Delivered t ms (cwd.resolve (cstr (r.buffer.bytes.take r.arg0.toNat))) r'.backend r'.path := by
  unfold routeRootPathRequest at h
  rw [if_neg (by omega)] at h
  split at h
  · cases h
  simp only [bind_eq_bind, bind_eq_some_iff] at h
  obtain ⟨bytes, hread, path, hjoin, h⟩ := h
  rw [(Buffer.read_eq hread).1, drop_zero, hcwd] at hjoin
  obtain ⟨rfl, -⟩ := cwdJoin_text hjoin
  split at h
  · cases h
  simp only [bind_eq_some_iff] at h
  obtain ⟨⟨backend, tail⟩, hroute, buffer, hwrite, h⟩ := h
  cases h
  have hpath : (⟨backend, tail.length, r.arg1, buffer⟩ : Routed).path = tail :=
    Buffer.take_write hwrite
  rw [hpath]
  exact routeAbsolutePath_delivered hms hroute

lemma routeRenameRequest_delivered_iff (h : routeRenameRequest xferSize t c r = some r') :
    let old := r.buffer.bytes.take r.arg0.toNat
    let new := (r.buffer.bytes.drop (r.arg0.toNat + 1)).take r.arg1.toNat
    Delivered t ms (cwd.resolve (cstr old)) r'.backend r'.path ∧
        Delivered t ms (cwd.resolve (cstr new)) r'.backend r'.newPath ↔
      Resolves t ms r.backend (cwd.resolve (cstr old)) old ∧
        Resolves t ms r.backend (cwd.resolve (cstr new)) new := by
  unfold routeRenameRequest at h
  rw [if_neg (by omega)] at h
  split at h
  · cases h
  next hargs =>
  simp only [bind_eq_bind, bind_eq_some_iff] at h
  obtain ⟨oldBytes, hreadOld, newBytes, hreadNew, oldPath, hjoinOld, newPath, hjoinNew, h⟩ := h
  obtain ⟨rfl, hlenOld⟩ := Buffer.read_eq hreadOld
  obtain ⟨rfl, hlenNew⟩ := Buffer.read_eq hreadNew
  rw [drop_zero] at hjoinOld hlenOld h
  rw [hcwd] at hjoinOld hjoinNew
  obtain ⟨rfl, -⟩ := cwdJoin_text hjoinOld
  obtain ⟨rfl, -⟩ := cwdJoin_text hjoinNew
  dsimp only
  rw [← routeRenamePath_delivered_iff hms r.backend (by omega),
    ← routeRenamePath_delivered_iff hms r.backend (by omega)]
  generalize routeRenamePath t r.backend (take r.arg0.toNat _) _ = old at h ⊢
  generalize routeRenamePath t r.backend (take r.arg1.toNat _) _ = new at h ⊢
  split at h
  · cases h
  next hsame =>
  simp only [bind_eq_some_iff] at h
  obtain ⟨buffer, hwrite, buffer', hwrite', h⟩ := h
  cases h
  obtain ⟨hp, hn⟩ := Buffer.take_write_pair hwrite hwrite'
  have hpath : (⟨old.1, old.2.length, new.2.length, buffer'⟩ : Routed).path = old.2 := hp
  have hnewPath : (⟨old.1, old.2.length, new.2.length, buffer'⟩ : Routed).newPath = new.2 := hn
  rw [hpath, hnewPath, ← not_not.mp hsame]

end

lemma forwardRouted_ok {paths : List Text} (h : forwardRouted q r paths = .ok (some f)) :
    f = ⟨r.backend, paths⟩ := by
  unfold forwardRouted at h
  split_ifs at h
  cases h
  rfl

section

variable (hms : t.mounted.map mountPath = ms.map text) (hcwd : c.cwd = cwd.text)
include hms hcwd

lemma serveReadPath_delivered (h : serveReadPath xferSize t c q = .ok (some f)) :
    ∃ tail, f.paths = [tail] ∧
      Delivered t ms (cwd.resolve (cstr (q.buffer.bytes.take q.arg0.toNat))) f.backend tail := by
  unfold serveReadPath at h
  split_ifs at h
  split at h
  · cases h
  next bytes hread =>
  split at h
  · cases h
  next path hjoin =>
  rw [(Buffer.read_eq hread).1, drop_zero, hcwd] at hjoin
  obtain ⟨rfl, -⟩ := cwdJoin_text hjoin
  repeat' split at h
  any_goals cases h
  next backend tail hroute _ buffer hwrite =>
  rw [forwardRouted_ok h]
  have hpath : (⟨backend, tail.length, 0, buffer⟩ : Routed).path = tail := Buffer.take_write hwrite
  exact ⟨tail, by rw [hpath], routeAbsolutePath_delivered hms hroute⟩

lemma serveChdir_delivered (h : serveChdir xferSize t c q = .ok (some f)) :
    ∃ tail, f.paths = [tail] ∧ Delivered t ms (cwd.resolve
        (if q.arg0 = 0 then ['/'] else cstr (q.buffer.bytes.take q.arg0.toNat)))
          f.backend tail := by
  have hrequested : ∀ bytes,
      (if q.arg0 = 0 then some ['/'] else q.buffer.read q.arg0.toNat 0) = some bytes →
      cstr bytes = if q.arg0 = 0 then ['/'] else cstr (q.buffer.bytes.take q.arg0.toNat) := by
    intro bytes hb
    split at hb
    · cases hb
      rw [if_pos ‹_›]
      decide
    · rw [if_neg ‹_›, (Buffer.read_eq hb).1, drop_zero]
  unfold serveChdir at h
  generalize (if q.arg0 = 0 then some ['/'] else q.buffer.read q.arg0.toNat 0) = requested
    at h hrequested
  split at h
  · cases h
  split at h
  · cases h
  next bytes =>
  rw [hrequested bytes rfl, hcwd] at h
  generalize (if q.arg0 = 0 then ['/'] else cstr (q.buffer.bytes.take q.arg0.toNat)) = name at h ⊢
  split at h
  · cases h
  next target hjoin =>
  obtain ⟨rfl, -⟩ := cwdJoin_text hjoin
  split at h
  · split at h <;> cases h
  next backend tail hroute =>
  split at h
  · cases h
  · cases h
    exact ⟨tail, rfl, routeAbsolutePath_delivered hms hroute⟩

end

/-- What a request sends to a backend is every path the client named, in the mount that owns it,
exactly if the texts that stay as they are were right. -/
theorem requests_routed (hms : t.mounted.map mountPath = ms.map text)
    (hcwd : c.cwd = cwd.text) (h : servePaths xferSize t c q = .ok (some f)) :
    (List.Forall₂ (fun name tail => Delivered t ms (cwd.resolve name) f.backend tail)
        q.names f.paths ↔ Careful t ms c cwd q) ∧
      ∀ m p : VPath, pathIsWithin m.text p.text = true ↔ m.Owns p := by
  refine ⟨?_, pathIsWithin_iff⟩
  unfold servePaths at h
  unfold PathRequest.names Careful
  cases hop : q.op with
  | path =>
    rw [hop] at h
    dsimp only at h ⊢
    split at h
    · cases h
    next r hroute =>
    rw [forwardRouted_ok h, forall₂_cons, and_iff_left .nil]
    by_cases hid : q.buffer.id ≤ 0
    · rw [routeRootPathRequest, if_pos hid] at hroute
      cases hroute
      exact ⟨fun hd _ => hd, fun hd => hd hid⟩
    · exact iff_of_true (routeRootPathRequest_delivered hms hcwd (Int.not_le.mp hid) hroute)
        fun h => absurd h hid
  | rename =>
    rw [hop] at h
    dsimp only at h ⊢
    split at h
    · cases h
    next r hroute =>
    rw [forwardRouted_ok h, forall₂_cons, forall₂_cons, PathRequest.texts, forall_mem_cons,
      forall_mem_singleton]
    refine (and_congr_right' (and_iff_left .nil)).trans ?_
    by_cases hid : q.buffer.id ≤ 0
    · rw [routeRenameRequest, if_pos hid] at hroute
      cases hroute
      rw [if_pos hid, if_pos hid]
      exact Iff.rfl
    · rw [if_neg hid, if_neg hid]
      exact routeRenameRequest_delivered_iff hms hcwd (Int.not_le.mp hid) hroute
  | readPath =>
    rw [hop] at h
    obtain ⟨tail, hpaths, hd⟩ := serveReadPath_delivered hms hcwd h
    rw [hpaths]
    exact iff_of_true (.cons hd .nil) trivial
  | chdir =>
    rw [hop] at h
    obtain ⟨tail, hpaths, hd⟩ := serveChdir_delivered hms hcwd h
    rw [hpaths]
    exact iff_of_true (.cons hd .nil) trivial

end Requests

def boot : VPath := [⟨"boot".toList, by decide, by decide, by decide, by decide⟩]

def bootOnly : Table := applyBackendInfo Table.empty 10 ⟨0, .fat, "boot".toList, []⟩

def bootClient : Client := ⟨5, 10, boot.text, []⟩

def renameRequest (old new : Text) : PathRequest where
  op := .rename
  arg0 := old.length
  arg1 := new.length
  buffer := ⟨1, old ++ [Char.ofNat 0] ++ new ++ List.replicate 64 (Char.ofNat 0), true⟩
  reborrows := true

lemma bootOnly_mounts : bootOnly.mounted.map mountPath = [boot].map text := by
  decide +kernel

lemma not_delivered_of_not_owns {t : Table} {ms : List VPath} {p : VPath} {e : ℤ} {tail : Text}
    (h : ∀ m ∈ ms, ¬ m.Owns p) : ¬ Delivered t ms p e tail := by
  rintro ⟨i, m, b, howner, -⟩
  exact h m (mem_of_getElem? howner.mount) howner.owns

/-- A rename of paths that no mount owns goes as it is to the backend of the working directory. -/
theorem unowned_rename_forwarded :
    bootOnly.mounted.map mountPath = [boot].map text ∧ bootClient.cwd = boot.text ∧
      servePaths 4096 bootOnly bootClient (renameRequest "/a".toList "/b".toList) =
        .ok (some ⟨10, ["/a".toList, "/b".toList]⟩) ∧
      ¬ Delivered bootOnly [boot] (boot.resolve "/a".toList) 10 "/a".toList := by
  refine ⟨bootOnly_mounts, rfl, by decide +kernel, not_delivered_of_not_owns ?_⟩
  decide +kernel

lemma isOwner_boot {p : VPath} (h : boot.Owns p) : VPath.IsOwner [boot] p 0 boot where
  mount := rfl
  owns := h
  longest j k hj _ := by
    obtain rfl : k = boot := by simpa using mem_of_getElem? hj
    exact le_rfl
  first j k hlt := absurd hlt (Nat.not_lt_zero j)

theorem requests_routed_bootRename :
    bootOnly.mounted.map mountPath = [boot].map text ∧ bootClient.cwd = boot.text ∧
      servePaths 4096 bootOnly bootClient (renameRequest "a".toList "../BOOT/b".toList) =
        .ok (some ⟨10, ["/a".toList, "/b".toList]⟩) ∧
      List.Forall₂ (fun name tail => Delivered bootOnly [boot] (boot.resolve name) 10 tail)
        (renameRequest "a".toList "../BOOT/b".toList).names ["/a".toList, "/b".toList] := by
  have hserve : servePaths 4096 bootOnly bootClient (renameRequest "a".toList "../BOOT/b".toList) =
      .ok (some ⟨10, ["/a".toList, "/b".toList]⟩) := by decide +kernel
  refine ⟨bootOnly_mounts, rfl, hserve, (requests_routed bootOnly_mounts rfl hserve).1.mpr ?_⟩
  intro bytes hbytes
  rw [if_neg (by decide), Resolves]
  rcases mem_cons.mp hbytes with rfl | hbytes
  · rw [if_neg (by decide +kernel)]
    exact ⟨0, boot, isOwner_boot (by decide +kernel), by decide +kernel⟩
  · rw [mem_singleton.mp hbytes, if_neg (by decide +kernel)]
    exact ⟨0, boot, isOwner_boot (by decide +kernel), by decide +kernel⟩

end FsManager
