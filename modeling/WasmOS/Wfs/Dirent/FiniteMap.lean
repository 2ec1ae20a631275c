import WasmOS.Wfs.Dirent.Enumerate

/-! # A directory block as a finite map

An insertion rewrites one stride into up to three: what was in it, the new record and a free
remainder. A removal frees a record and merges free neighbours. The strides still cover the block,
and the live entries are the old ones with one more or one less.
-/

namespace Wfs.DirBlock

open ByteImage List Function Record

variable {block block' : Bytes} {off pos lo hi len used avail need usable : ℕ} {r : Record}
  {rs pre post : List Record} {name : Name} {objectId : UInt32} {type nameLen : UInt8} {id : ℕ}

lemma agreeOn_putHeader (h : hi ≤ off ∨ off + header ≤ lo) :
    AgreeOn lo hi (putHeader block off id len nameLen type) block := by
  unfold header at h
  refine (agreeOn_update (by omega)).trans ((agreeOn_update (by omega)).trans ?_)
  exact (agreeOn_put (by omega)).trans (agreeOn_put (by omega))

structure Headed (block : Bytes) (off id len nl : ℕ) (type : UInt8) : Prop where
  id_eq : rd64 block off = id
  length_eq : rd16 block (off + 8) = len
  name_eq : nameLength block off = nl
  type_eq : block (off + 11) = type

namespace Headed

variable {nl : ℕ}

lemma congr (h : Headed block off id len nl type)
    (hb : AgreeOn off (off + header) block block') : Headed block' off id len nl type := by
  unfold header at hb
  have hb := hb.symm
  constructor
  · rw [← h.id_eq]
    exact field_congr (hb.mono le_rfl (by omega))
  · rw [← h.length_eq]
    exact field_congr (hb.mono (by omega) (by omega))
  · rw [← h.name_eq, nameLength, nameLength, hb _ (by omega) (by omega)]
  · rw [← h.type_eq]
    exact hb _ (by omega) (by omega)

lemma recordAt_eq (h : Headed block off id len nl type) :
    recordAt block off = ⟨id, len, type, bytes block (off + header) nl⟩ := by
  simp only [recordAt, h.id_eq, h.length_eq, h.name_eq, h.type_eq]

end Headed

lemma headed_putHeader (hid : id < 256 ^ 8) (hlen : len < 256 ^ 2) :
    Headed (putHeader block off id len nameLen type) off id len nameLen.toNat type := by
  constructor
  · have hagree : AgreeOn off (off + 8) (putHeader block off id len nameLen type)
        (wr64 block off id) :=
      (agreeOn_update (by omega)).trans ((agreeOn_update (by omega)).trans (agreeOn_put (by omega)))
    rw [rd64, field_congr hagree, wr64, field_put, Nat.mod_eq_of_lt hid]
  · have hagree : AgreeOn (off + 8) (off + 8 + 2) (putHeader block off id len nameLen type)
        (wr16 (wr64 block off id) (off + 8) len) :=
      (agreeOn_update (by omega)).trans (agreeOn_update (by omega))
    rw [rd16, field_congr hagree, wr16, field_put, Nat.mod_eq_of_lt hlen]
  · rw [nameLength, putHeader, update_of_ne (by omega), update_self]
  · rw [putHeader, update_self]

def room (len : ℕ) : Record := ⟨0, len, 0, []⟩

lemma recordAt_room (hlen : len < 256 ^ 2)
    (h : AgreeOn off (off + header) (putHeader block off 0 len 0 0) block') :
    recordAt block' off = room len := by
  have hh : Headed block' off 0 len 0 0 := (headed_putHeader (by decide) hlen).congr h
  exact hh.recordAt_eq

lemma room_sound (hmin : recordMin ≤ len) (halign : len % 8 = 0) : (room len).Sound := by
  refine ⟨hmin, halign, ?_⟩
  unfold recordMin at hmin
  simp only [room, length_nil, header]
  omega

lemma recordAt_wr16 (hlen : len < 256 ^ 2) :
    recordAt (wr16 block (off + 8) len) off = { recordAt block off with length := len } := by
  have hlo : AgreeOn off (off + 8) (wr16 block (off + 8) len) block := agreeOn_put (by omega)
  have hhi : ∀ n, AgreeOn (off + 10) n (wr16 block (off + 8) len) block :=
    fun n => agreeOn_put (by omega)
  have hnl : nameLength (wr16 block (off + 8) len) off = nameLength block off := by
    rw [nameLength, nameLength, hhi (off + 11) _ le_rfl (by omega)]
  simp only [recordAt, hnl, mk.injEq]
  refine ⟨field_congr hlo, ?_, hhi (off + 12) _ (by omega) (by omega), bytes_congr ?_⟩
  · rw [rd16, wr16, field_put, Nat.mod_eq_of_lt hlen]
  · exact (hhi _).mono (by unfold header; omega) le_rfl

variable {take : ℕ}

lemma agreeOn_putRecordAt (hroom : header + name.length ≤ take) (h : hi ≤ off ∨ off + take ≤ lo) :
    AgreeOn lo hi (putRecordAt block off take name objectId type) block := by
  refine (agreeOn_zeroFill (by omega)).trans ((agreeOn_putBytes (by omega)).trans ?_)
  exact agreeOn_putHeader (by omega)

lemma recordAt_putRecordAt (hname : name.length ≤ nameMax) (htake : take < 256 ^ 2) :
    recordAt (putRecordAt block off take name objectId type) off =
      ⟨objectId.toNat, take, type, name⟩ := by
  have hid : objectId.toNat < 256 ^ 8 := objectId.toNat_lt.trans (by decide)
  have hnl : (UInt8.ofNat name.length).toNat = name.length := by
    unfold nameMax at hname
    rw [UInt8.toNat_ofNat', Nat.mod_eq_of_lt (by omega)]
  have hh : Headed (putRecordAt block off take name objectId type) off objectId.toNat take
      name.length type := by
    have h : Headed (putHeader block off objectId.toNat take (UInt8.ofNat name.length) type) _ _ _
        (UInt8.ofNat name.length).toNat _ := headed_putHeader hid htake
    rw [hnl] at h
    apply h.congr
    exact ((agreeOn_zeroFill (by omega)).trans (agreeOn_putBytes (by omega))).symm
  have hbytes : bytes (putRecordAt block off take name objectId type) (off + header) name.length =
      name := by
    exact (bytes_congr (agreeOn_zeroFill (by omega))).trans bytes_putBytes
  rw [hh.recordAt_eq, hbytes]

def Record.splice (r : Record) (need : ℕ) (new : Entry) : List Record :=
  let split := decide (recordMin ≤ r.slack - need)
  (if r.Free then [] else [{ r with length := r.used }]) ++
    ⟨new.id, if split then need else r.slack, new.type, new.name⟩ ::
      (if split then [room (r.slack - need)] else [])

lemma dirRecordLength_bounds (n : ℕ) :
    header + n ≤ dirRecordLength n ∧ dirRecordLength n % 8 = 0 := by
  unfold dirRecordLength header
  omega

lemma Record.used_ne_zero : r.used ≠ 0 ↔ ¬ r.Free := by
  have := dirRecordLength_bounds r.name.length
  unfold header at this
  unfold used
  split
  · simp [*]
  · simp only [*, not_false_eq_true, iff_true]
    omega

lemma putRecordAt_tiles (objectId : UInt32) (type : UInt8) {tail : List Record}
    (hr : recordAt block off = r) (hs : r.Sound) (hlen : r.length < 256 ^ 2)
    (hname : name.length ≤ nameMax) (hroom : header + name.length ≤ take)
    (hmin : recordMin ≤ take) (halign : take % 8 = 0)
    (hfit : r.used + take ≤ r.length)
    (hb : ∀ lo hi, hi ≤ off + r.used + take ∨ off + r.length ≤ lo → AgreeOn lo hi block' block)
    (htail : Tiles block' (off + r.used + take) (off + r.length) tail) :
    Tiles (putRecordAt (if r.used ≠ 0 then wr16 block' (off + 8) r.used else block')
        (off + r.used) take name objectId type) off (off + r.length)
        ((if r.Free then [] else [{ r with length := r.used }]) ++
          ⟨objectId.toNat, take, type, name⟩ :: tail) ∧
      ∀ lo hi, hi ≤ off ∨ off + r.length ≤ lo → AgreeOn lo hi
        (putRecordAt (if r.used ≠ 0 then wr16 block' (off + 8) r.used else block')
          (off + r.used) take name objectId type) block := by
  obtain ⟨-, hused8⟩ := hs.used_le
  have hnew : (⟨objectId.toNat, take, type, name⟩ : Record).Sound := ⟨hmin, halign, hroom⟩
  have hmid : Tiles (putRecordAt (if r.used ≠ 0 then wr16 block' (off + 8) r.used else block')
      (off + r.used) take name objectId type) (off + r.used) (off + r.used + take)
      [⟨objectId.toNat, take, type, name⟩] :=
    .singleton (recordAt_putRecordAt hname (by omega)) hnew
  by_cases hfree : r.Free
  · have h0 : r.used = 0 := by
      by_contra h
      exact used_ne_zero.mp h hfree
    simp only [h0, ne_eq, not_true_eq_false, if_false, if_pos hfree, add_zero, nil_append]
      at hmid hb htail ⊢
    refine ⟨hmid.append (htail.congr ?_), fun lo hi h => ?_⟩
    · exact (agreeOn_putRecordAt hroom (by omega)).symm
    · exact (agreeOn_putRecordAt hroom (by omega)).trans (hb lo hi (by omega))
  have h0 : r.used ≠ 0 := used_ne_zero.mpr hfree
  have hr' : r.used = dirRecordLength r.name.length := if_neg hfree
  obtain ⟨hold, -⟩ := dirRecordLength_bounds r.name.length
  rw [← hr'] at hold
  unfold header at hold hroom
  simp only [if_pos h0, if_neg hfree] at hmid ⊢
  have hold' : recordAt (putRecordAt (wr16 block' (off + 8) r.used) (off + r.used) take name
      objectId type) off = { r with length := r.used } := by
    have h₁ : recordAt block' off = r := recordAt_congr hr (hb _ _ (by unfold header; omega)).symm
    have h₂ : recordAt (wr16 block' (off + 8) r.used) off = { r with length := r.used } := by
      rw [recordAt_wr16 (by omega), h₁]
    refine recordAt_congr h₂ (agreeOn_putRecordAt hroom (.inl ?_)).symm
    unfold header
    dsimp only
    omega
  have hsound : ({ r with length := r.used } : Record).Sound := by
    refine ⟨?_, hused8, by unfold header; exact hold⟩
    unfold recordMin
    dsimp only
    omega
  refine ⟨(Tiles.singleton hold' hsound).append (hmid.append (htail.congr ?_)), fun lo hi h => ?_⟩
  · exact ((agreeOn_putRecordAt hroom (by omega)).trans (agreeOn_put (by omega))).symm
  · refine (agreeOn_putRecordAt hroom (by omega)).trans ?_
    exact (agreeOn_put (by omega)).trans (hb lo hi (by omega))

lemma insertAt_tiles (objectId : UInt32) (type : UInt8) (hr : recordAt block off = r)
    (hs : r.Sound) (hlen : r.length < 256 ^ 2) (hname : name.length ≤ nameMax)
    (hfit : dirRecordLength name.length ≤ r.slack) :
    Tiles (insertAt block off r.used r.slack (dirRecordLength name.length) name objectId type) off
        (off + r.length) (r.splice (dirRecordLength name.length) ⟨name, objectId.toNat, type⟩) ∧
      ∀ lo hi, hi ≤ off ∨ off + r.length ≤ lo → AgreeOn lo hi (insertAt block off r.used r.slack
        (dirRecordLength name.length) name objectId type) block := by
  obtain ⟨hroom, halign⟩ := dirRecordLength_bounds name.length
  have := hs.used_le
  have hlen8 := hs.align
  have hslack : r.used + r.slack = r.length := by
    unfold slack
    omega
  unfold header at hroom
  generalize dirRecordLength name.length = need at *
  have hmin : recordMin ≤ need := by
    unfold recordMin
    omega
  by_cases hsplit : recordMin ≤ r.slack - need
  · have hb : ∀ lo hi, hi ≤ off + r.used + need ∨ off + r.length ≤ lo → AgreeOn lo hi
        (putHeader block (off + r.used + need) 0 (r.slack - need) 0 0) block := by
      intro lo hi h
      unfold recordMin at hsplit
      exact agreeOn_putHeader (by unfold header; omega)
    have htail : Tiles (putHeader block (off + r.used + need) 0 (r.slack - need) 0 0)
        (off + r.used + need) (off + r.length) [room (r.slack - need)] := by
      have hrec : recordAt (putHeader block (off + r.used + need) 0 (r.slack - need) 0 0)
          (off + r.used + need) = room (r.slack - need) := recordAt_room (by omega) .refl
      have hend : off + r.length = off + r.used + need + (room (r.slack - need)).length := by
        simp only [room]
        omega
      rw [hend]
      exact .singleton hrec (room_sound hsplit (by omega))
    have := putRecordAt_tiles objectId type hr hs hlen hname hroom hmin halign (by omega) hb htail
    simpa [insertAt, splice, hsplit] using this
  · have hb : ∀ lo hi, hi ≤ off + r.used + r.slack ∨ off + r.length ≤ lo →
        AgreeOn lo hi block block := fun _ _ _ => .refl
    have htail : Tiles block (off + r.used + r.slack) (off + r.length) [] := by
      rw [add_assoc, hslack]
      exact .nil
    have := putRecordAt_tiles objectId type hr hs hlen hname (hroom.trans hfit) (hmin.trans hfit)
      (by omega) (by omega) hb htail
    simpa [insertAt, splice, hsplit] using this

lemma Tiles.insertFrom_scans (need : ℕ) (name : Name) (objectId : UInt32) (type : UInt8)
    (fuel : ℕ) (h : Tiles block off usable rs) (hfuel : usable < off + fuel) :
    Scans block off usable rs (need ≤ ·.slack) (fun pos => insertAt block pos
        (recordAt block pos).used (recordAt block pos).slack need name objectId type)
      (insertFrom block usable need name objectId type fuel off) := by
  refine h.scans (fun _ _ hoff => if_neg hoff) (fun fuel off hoff _ => ?_) fuel hfuel
  simp only [insertFrom, if_pos hoff, recordUsed_eq rfl]
  exact ⟨fun hfit => if_pos hfit, fun hfit => if_neg hfit⟩

lemma entry_room (len : ℕ) : (room len).entry = none := if_pos (.inl rfl)

lemma entries_splice {need : ℕ} {new : Entry} (hid : new.id ≠ 0) (hname : new.name ≠ []) :
    (r.splice need new).filterMap entry = r.entry.toList ++ [new] := by
  have hnew : ∀ n, entry ⟨new.id, n, new.type, new.name⟩ = some new := by
    intro n
    exact if_neg (by simp [Record.Free, hid, hname])
  have htail : List.filterMap entry (if decide (recordMin ≤ r.slack - need) = true then
      [room (r.slack - need)] else []) = [] := by
    split
    · rw [filterMap_cons_none (entry_room _), filterMap_nil]
    · rfl
  rw [splice, filterMap_append, filterMap_cons_some (hnew _), htail]
  congr 1
  by_cases hfree : r.Free
  · rw [if_pos hfree, entry, if_pos hfree]
    rfl
  have hold : entry { r with length := r.used } = r.entry := rfl
  rw [if_neg hfree, filterMap_cons, hold, entry, if_neg hfree]
  rfl

lemma Tiles.absorb_spec (fuel len : ℕ) {next : ℕ} (h : Tiles block next usable rs)
    (hfuel : usable < next + fuel) :
    ∃ pre post d, rs = pre ++ post ∧ (∀ r ∈ pre, r.Free) ∧ Tiles block (next + d) usable post ∧
      absorb block usable fuel len next = len + d ∧ d % 8 = 0 := by
  induction fuel generalizing next rs len with
  | zero =>
    have := h.le
    omega
  | succ fuel ih =>
    rw [absorb]
    cases rs with
    | nil =>
      rw [if_neg fun hc => h.nil_iff.mp rfl hc.1]
      exact ⟨[], [], 0, rfl, by simp, h, rfl, rfl⟩
    | cons r rs =>
      obtain ⟨hr, hs, hoff, hbad, hrest⟩ := h.stride
      obtain ⟨hmin, halign, -⟩ := badStride_iff.mp hbad
      unfold recordMin at hmin
      rw [recordUsed_eq hr]
      by_cases hfree : r.Free
      · have h0 : r.used = 0 := if_pos hfree
        simp only [hoff, h0, and_self, if_true, hbad, Bool.false_eq_true, if_false]
        obtain ⟨pre, post, d, rfl, hpre, hpost, hlen, hd⟩ := ih
          (len + rd16 block (next + 8)) hrest (by omega)
        refine ⟨r :: pre, post, rd16 block (next + 8) + d, rfl,
          forall_mem_cons.mpr ⟨hfree, hpre⟩, ?_, ?_, by omega⟩
        · rwa [← add_assoc]
        · rw [hlen, add_assoc]
      · rw [if_neg fun hc => used_ne_zero.mpr hfree hc.2]
        exact ⟨[], r :: rs, 0, rfl, by simp, h, rfl, rfl⟩

lemma entries_free (h : ∀ r ∈ rs, r.Free) : rs.filterMap entry = [] := by
  rw [filterMap_eq_nil_iff]
  exact fun r hr => if_pos (h r hr)

lemma Tiles.mergeFree_spec (fuel : ℕ) (h : Tiles block off usable rs)
    (husable : usable < 256 ^ 2) (hfuel : usable < off + fuel) :
    ∃ rs', Tiles (mergeFree usable fuel block off) off usable rs' ∧
      rs'.filterMap entry = rs.filterMap entry ∧
      ∀ lo hi, hi ≤ off ∨ usable ≤ lo → AgreeOn lo hi (mergeFree usable fuel block off) block := by
  induction fuel generalizing block off rs with
  | zero =>
    have := h.le
    omega
  | succ fuel ih =>
    rw [mergeFree]
    cases rs with
    | nil =>
      rw [if_neg (h.nil_iff.mp rfl)]
      exact ⟨[], h, rfl, fun _ _ _ => .refl⟩
    | cons r rs =>
      obtain ⟨hr, hs, hoff, hbad, hrest⟩ := h.stride
      obtain ⟨hmin, halign, -⟩ := badStride_iff.mp hbad
      unfold recordMin at hmin
      have hlen : rd16 block (off + 8) = r.length := by rw [← hr]; rfl
      simp only [if_pos hoff, recordUsed_eq hr]
      by_cases hfree : r.Free
      · have h0 : r.used = 0 := if_pos hfree
        obtain ⟨pre, post, d, rfl, hpre, hpost, hd, hd8⟩ :=
          hrest.absorb_spec (usable + 1) (rd16 block (off + 8)) (by omega)
        simp only [if_pos h0, hd]
        rw [add_assoc] at hpost
        generalize hn : rd16 block (off + 8) + d = n at *
        have hle := hpost.le
        have hpost' : Tiles (putHeader block off 0 n 0 0) (off + n) usable post :=
          hpost.congr (agreeOn_putHeader (by unfold header; omega)).symm
        obtain ⟨rs', htiles, hentries, hframe⟩ := ih hpost' (by omega)
        have hroom : recordAt (mergeFree usable fuel (putHeader block off 0 n 0 0) (off + n)) off =
            room n := recordAt_room (by omega) (hframe _ _ (by unfold header; omega)).symm
        refine ⟨room n :: rs', .cons hroom (room_sound ?_ (by omega)) htiles, ?_, ?_⟩
        · unfold recordMin
          omega
        · have hr0 : r.entry = none := if_pos hfree
          rw [filterMap_cons_none (entry_room n), filterMap_cons_none hr0,
            filterMap_append, entries_free hpre, nil_append, hentries]
        · intro lo hi h
          exact (hframe lo hi (by omega)).trans (agreeOn_putHeader (by unfold header; omega))
      · have h0 : r.used ≠ 0 := used_ne_zero.mpr hfree
        obtain ⟨rs', htiles, hentries, hframe⟩ := ih hrest (by omega)
        have hname := hs.name_le
        rw [if_neg h0]
        have hr' : recordAt (mergeFree usable fuel block (off + rd16 block (off + 8))) off = r :=
          recordAt_congr hr (hframe _ _ (by omega)).symm
        refine ⟨r :: rs', .cons hr' hs (by rwa [← hlen]), ?_, fun lo hi h => ?_⟩
        · rw [filterMap_cons, filterMap_cons, hentries]
        · exact hframe lo hi (by omega)

def freeAt (block : Bytes) (off : ℕ) : Bytes :=
  update (update (wr64 block off 0) (off + 10) 0) (off + 11) 0

lemma agreeOn_freeAt (h : hi ≤ off ∨ off + header ≤ lo) :
    AgreeOn lo hi (freeAt block off) block := by
  unfold header at h
  exact (agreeOn_update (by omega)).trans
    ((agreeOn_update (by omega)).trans (agreeOn_put (by omega)))

lemma recordAt_freeAt (hr : recordAt block off = r) :
    recordAt (freeAt block off) off = room r.length := by
  have hh : Headed (freeAt block off) off 0 r.length 0 0 := by
    constructor
    · have hagree : AgreeOn off (off + 8) (freeAt block off) (wr64 block off 0) :=
        (agreeOn_update (by omega)).trans (agreeOn_update (by omega))
      rw [rd64, field_congr hagree, wr64, field_put, Nat.zero_mod]
    · have hagree : AgreeOn (off + 8) (off + 8 + 2) (freeAt block off) block :=
        (agreeOn_update (by omega)).trans
          ((agreeOn_update (by omega)).trans (agreeOn_put (by omega)))
      rw [rd16, field_congr hagree, ← hr]
      rfl
    · rw [nameLength, freeAt, update_of_ne (by omega), update_self]
      rfl
    · rw [freeAt, update_self]
  exact hh.recordAt_eq

lemma Tiles.freeAt (hpre : Tiles block off pos pre) (h : Tiles block pos usable (r :: post)) :
    Tiles (freeAt block pos) off usable (pre ++ room r.length :: post) := by
  obtain ⟨hr, hs, -⟩ := h.stride
  cases h with
  | cons _ _ hpost =>
    have hmin := hs.min
    unfold recordMin at hmin
    have hmid := Tiles.singleton (recordAt_freeAt hr) (room_sound hs.min hs.align)
    have hpost' : Tiles (DirBlock.freeAt block pos) (pos + (room r.length).length) usable post :=
      hpost.congr (agreeOn_freeAt (by unfold header; omega)).symm
    exact (hpre.congr (agreeOn_freeAt (.inl le_rfl)).symm).append (hmid.append hpost')

variable {crc : Checksum} {blockSize : ℕ}

def BlockSize (n : ℕ) : Prop := n = 4096 ∨ n = 8192 ∨ n = 16384

lemma BlockSize.bounds (h : BlockSize blockSize) :
    ¬ blockSize ≤ tailSize ∧ recordMin ≤ dirUsableBytes blockSize ∧
      dirUsableBytes blockSize % 8 = 0 ∧ dirUsableBytes blockSize < 256 ^ 2 ∧
      dirUsableBytes blockSize + tailSize = blockSize := by
  rcases h with rfl | rfl | rfl <;> decide

lemma validate_iff (h : BlockSize blockSize) : direntValidate block blockSize = .ok () ↔
    ∃ rs, Tiles block 0 (dirUsableBytes blockSize) rs := by
  rw [direntValidate, if_neg h.bounds.1]
  exact validateFrom_iff (by omega)

lemma records_eq (h : Tiles block 0 (dirUsableBytes blockSize) rs) :
    records block blockSize = rs := h.recordsFrom_eq (by omega)

lemma entries_eq (h : Tiles block 0 (dirUsableBytes blockSize) rs) :
    entries block blockSize = rs.filterMap entry := by
  rw [entries, records_eq h]

lemma agreeOn_direntSeal (crc : Checksum) : AgreeOn 0 (dirUsableBytes blockSize)
    (direntSeal crc block blockSize) block :=
  (agreeOn_put (by omega)).trans (agreeOn_put (by omega))

lemma holds_iff_entry {r : Record} (hname : name ≠ []) :
    r.Holds name ↔ ∃ e, r.entry = some e ∧ e.name = name := by
  unfold Record.Holds entry
  constructor
  · rintro ⟨hid, rfl⟩
    exact ⟨_, if_neg (by simp [Record.Free, hid, hname]), rfl⟩
  rintro ⟨e, he, rfl⟩
  by_cases hfree : r.Free
  · rw [if_pos hfree] at he
    cases he
  rw [if_neg hfree] at he
  cases he
  exact ⟨fun h => hfree (.inl h), rfl⟩

lemma find_isSome_iff (hbs : BlockSize blockSize) (hname : name ≠ [])
    (h : Tiles block 0 (dirUsableBytes blockSize) rs) :
    (direntFind block blockSize name).isSome ↔ ∃ e ∈ entries block blockSize, e.name = name := by
  have hentry : (∃ e ∈ entries block blockSize, e.name = name) ↔ ∃ r ∈ rs, r.Holds name := by
    simp only [entries_eq h, mem_filterMap, holds_iff_entry hname]
    constructor
    · rintro ⟨e, ⟨r, hr, he⟩, hn⟩
      exact ⟨r, hr, e, he, hn⟩
    · rintro ⟨r, hr, e, he, hn⟩
      exact ⟨e, ⟨r, hr, he⟩, hn⟩
  rw [hentry, direntFind, if_neg (by simp [hname, hbs.bounds.1])]
  rcases h.findFrom_scans name (dirUsableBytes blockSize + 1) (by omega) with
    ⟨hnone, hall⟩ | ⟨pos, pre, r, post, hsome, rfl, -, -, hh, -⟩
  · rw [hnone]
    simp only [Option.isSome_none, Bool.false_eq_true, false_iff]
    rintro ⟨r, hr, hh⟩
    exact hall r hr hh
  · rw [hsome]
    simp only [Option.isSome_some, true_iff]
    exact ⟨r, by simp, hh⟩

/-- An insertion of `new`: what it reports in `res.1`, and the block it leaves in `res.2`. -/
structure Inserts (block : Bytes) (blockSize : ℕ) (new : Entry) (res : Except Err Unit × Bytes) :
    Prop where
  outcome : res.1 = .ok () ∨ res.1 = .error .exists ∨ res.1 = .error .noSpace
  adds : res.1 = .ok () → direntValidate res.2 blockSize = .ok () ∧
    (entries res.2 blockSize).Perm (new :: entries block blockSize)
  unchanged : res.1 ≠ .ok () → res.2 = block
  exists_iff : res.1 = .error .exists ↔ (direntFind block blockSize new.name).isSome
  noSpace_iff : res.1 = .error .noSpace ↔ (direntFind block blockSize new.name).isNone ∧
    ∀ r ∈ records block blockSize, r.slack < dirRecordLength new.name.length

structure Removes (block : Bytes) (blockSize : ℕ) (name : Name) (res : Except Err Unit × Bytes) :
    Prop where
  outcome : res.1 = .ok () ∨ res.1 = .error .notFound
  takes : res.1 = .ok () → direntValidate res.2 blockSize = .ok () ∧
    ∃ pre e post, entries block blockSize = pre ++ e :: post ∧ e.name = name ∧
      (∀ x ∈ pre, x.name ≠ name) ∧ entries res.2 blockSize = pre ++ post
  unchanged : res.1 ≠ .ok () → res.2 = block
  notFound_iff : res.1 = .error .notFound ↔ (direntFind block blockSize name).isNone

lemma insert_tiles (objectId : UInt32) (type : UInt8) {pos : ℕ} {pre post : List Record}
    {r : Record} (hbs : BlockSize blockSize) (hname : name.length ≤ nameMax) (hne : name ≠ [])
    (hid : objectId ≠ 0) (hpre : Tiles block 0 pos pre)
    (h : Tiles block pos (dirUsableBytes blockSize) (r :: post))
    (hfit : dirRecordLength name.length ≤ r.slack) :
    ∃ rs', Tiles (insertAt block pos r.used r.slack (dirRecordLength name.length) name objectId
        type) 0 (dirUsableBytes blockSize) rs' ∧ (rs'.filterMap entry).Perm
        (⟨name, objectId.toNat, type⟩ :: (pre ++ r :: post).filterMap entry) := by
  have := hbs.bounds
  cases h with
  | cons hr hs hpost =>
    have hle := hpost.le
    obtain ⟨hmid, hframe⟩ := insertAt_tiles objectId type hr hs (by omega) hname hfit
    have hpre' := hpre.congr (hframe 0 pos (.inl le_rfl)).symm
    have hpost' := hpost.congr (hframe _ _ (.inr le_rfl)).symm
    refine ⟨_, hpre'.append (hmid.append hpost'), ?_⟩
    have hid' : objectId.toNat ≠ 0 := fun h => hid (UInt32.toNat_inj.mp h)
    have hr : (r :: post).filterMap entry = r.entry.toList ++ post.filterMap entry := by
      cases hentry : r.entry with
      | none => rw [filterMap_cons_none hentry]; rfl
      | some e => rw [filterMap_cons_some hentry]; rfl
    rw [filterMap_append, filterMap_append, filterMap_append, hr, entries_splice hid' hne]
    simp only [append_assoc, singleton_append]
    rw [← append_assoc, ← append_assoc]
    exact perm_middle

lemma direntInsert_spec (hbs : BlockSize blockSize)
    (hv : direntValidate block blockSize = .ok ()) (hne : name ≠ []) (hname : name.length ≤ nameMax)
    (hid : objectId ≠ 0) :
    Inserts block blockSize ⟨name, objectId.toNat, type⟩
      (direntInsert crc block blockSize name objectId type) := by
  obtain ⟨rs, h⟩ := (validate_iff hbs).mp hv
  have hlen : ¬ (name.length = 0 ∨ nameMax < name.length) := by
    rintro (h | h)
    · exact hne (length_eq_zero_iff.mp h)
    · omega
  rewrite [direntInsert, if_neg hbs.bounds.1, if_neg hlen, if_neg hid, hv]
  cases hfind : direntFind block blockSize name with
  | some pos =>
    simp only [Option.isSome_some, if_true]
    constructor <;> simp [hfind]
  | none =>
    simp only [Option.isSome_none, Bool.false_eq_true, if_false]
    rcases h.insertFrom_scans (dirRecordLength name.length) name objectId type
      (dirUsableBytes blockSize + 1) (by omega) with
      ⟨hnone, hall⟩ | ⟨pos, pre, r, post, hsome, rfl, hpre, hpost, hfit, -⟩
    · rw [hnone]
      constructor <;> simp [hfind]
      simpa [records_eq h] using hall
    simp only [hsome, hpost.stride.1]
    obtain ⟨rs', htiles, hperm⟩ := insert_tiles objectId type hbs hname hne hid hpre hpost hfit
    have htiles' := htiles.congr (agreeOn_direntSeal crc).symm
    constructor
    · exact .inl rfl
    · intro _
      refine ⟨(validate_iff hbs).mpr ⟨_, htiles'⟩, ?_⟩
      rwa [entries_eq htiles', entries_eq h]
    · simp
    · simp [hfind]
    · simp only [reduceCtorEq, hfind, Option.isNone_none, true_and, false_iff, records_eq h]
      intro hall
      exact (not_lt.mpr hfit) (hall r (by simp))

lemma direntRemove_spec (hbs : BlockSize blockSize)
    (hv : direntValidate block blockSize = .ok ()) (hne : name ≠ []) :
    Removes block blockSize name (direntRemove crc block blockSize name) := by
  obtain ⟨rs, h⟩ := (validate_iff hbs).mp hv
  obtain ⟨hbig, -, -, hsmall, -⟩ := hbs.bounds
  have hfindFrom : direntFind block blockSize name = findFrom block (dirUsableBytes blockSize) name
      (dirUsableBytes blockSize + 1) 0 := by
    rw [direntFind, if_neg (by simp [hne, hbig])]
  rw [direntRemove, if_neg hbig, hv]
  rcases h.findFrom_scans name (dirUsableBytes blockSize + 1) (by omega) with
    ⟨hnone, -⟩ | ⟨pos, pre, r, post, hsome, rfl, hpre, hpost, hh, hall⟩
  · rw [← hfindFrom] at hnone
    simp only [hnone]
    constructor <;> simp [hnone]
  rw [← hfindFrom] at hsome
  simp only [hsome]
  obtain ⟨rs', htiles, hentries, -⟩ := (hpre.freeAt hpost).mergeFree_spec
    (dirUsableBytes blockSize + 1) hsmall (by omega)
  have htiles' := htiles.congr (agreeOn_direntSeal crc).symm
  obtain ⟨e, he, hname⟩ := (holds_iff_entry hne).mp hh
  constructor
  · exact .inl rfl
  · intro _
    refine ⟨(validate_iff hbs).mpr ⟨_, htiles'⟩, pre.filterMap entry, e,
      post.filterMap entry, ?_, hname, ?_, ?_⟩
    · rw [entries_eq h, filterMap_append, filterMap_cons_some he]
    · intro x hx hxn
      obtain ⟨r', hr', hx⟩ := mem_filterMap.mp hx
      exact hall r' hr' ((holds_iff_entry hne).mpr ⟨x, hx, hxn⟩)
    · refine (entries_eq htiles').trans ?_
      rw [hentries, filterMap_append, filterMap_cons_none (entry_room _)]
  · simp
  · simp [hsome]

lemma direntInitBlock_tiles (crc : Checksum) (block : Bytes) (hbs : BlockSize blockSize) :
    Tiles (direntInitBlock crc block blockSize) 0 (dirUsableBytes blockSize)
      [room (dirUsableBytes blockSize)] := by
  obtain ⟨hbig, hmin, halign, hsmall, hsum⟩ := hbs.bounds
  unfold recordMin at hmin
  unfold tailSize at hsum
  generalize hu : dirUsableBytes blockSize = usable at *
  -- what a scan sees: zeroes but for the stride
  have hzero : AgreeOn 0 usable (direntInitBlock crc block blockSize)
      (wr16 (zeroFill block 0 blockSize) 8 usable) := by
    rw [direntInitBlock, if_neg hbig, hu]
    refine ((hu ▸ agreeOn_direntSeal crc).trans ?_)
    exact (agreeOn_update (by omega)).trans (agreeOn_put (by omega))
  have hbyte : ∀ i, i < usable → (i < 8 ∨ 10 ≤ i) → direntInitBlock crc block blockSize i = 0 := by
    intro i hi hne
    rw [hzero i (Nat.zero_le i) hi, wr16, put_apply (by omega)]
    exact if_pos (by omega)
  have hh : Headed (direntInitBlock crc block blockSize) 0 0 usable 0 0 := by
    constructor
    · rw [rd64, field_eq_zero]
      intro i _ hi
      exact hbyte i (by omega) (by omega)
    · rw [rd16, field_congr (hzero.mono (Nat.zero_le _) (by omega)), wr16, field_put,
        Nat.mod_eq_of_lt hsmall]
    · rw [nameLength, hbyte _ (by omega) (by omega)]
      rfl
    · exact hbyte _ (by omega) (by omega)
  have := Tiles.singleton hh.recordAt_eq (room_sound hmin halign)
  rwa [zero_add] at this

/-- Every directory block that validates is a finite map from names. -/
theorem dirent_block_is_finite_map (crc : Checksum) (hbs : BlockSize blockSize) :
    (∀ block, direntValidate (direntInitBlock crc block blockSize) blockSize = .ok () ∧
      entries (direntInitBlock crc block blockSize) blockSize = []) ∧
    ∀ block, direntValidate block blockSize = .ok () →
      ∀ name : Name, name ≠ [] → name.length ≤ nameMax → ((direntFind block blockSize name).isSome ↔
          ∃ e ∈ entries block blockSize, e.name = name) ∧
        (∀ objectId : UInt32, objectId ≠ 0 → ∀ type,
          Inserts block blockSize ⟨name, objectId.toNat, type⟩
            (direntInsert crc block blockSize name objectId type)) ∧
        Removes block blockSize name (direntRemove crc block blockSize name) := by
  constructor
  · intro block
    have h := direntInitBlock_tiles crc block hbs
    exact ⟨(validate_iff hbs).mpr ⟨_, h⟩, by rw [entries_eq h]; rfl⟩
  intro block hv name hne hname
  obtain ⟨rs, h⟩ := (validate_iff hbs).mp hv
  refine ⟨find_isSome_iff hbs hne h, fun objectId hid type => ?_, ?_⟩
  · exact direntInsert_spec hbs hv hne hname hid
  · exact direntRemove_spec hbs hv hne

theorem dirent_block_is_finite_map_laid_out :
    let block := direntInitBlock (fun _ => 7) (fun _ => 0) 4096
    let one := (direntInsert (fun _ => 7) block 4096 [97] 16 1).2
    let two := direntInsert (fun _ => 7) one 4096 [98] 17 2
    two.1 = .ok () ∧ (entries two.2 4096).Perm [⟨[98], 17, 2⟩, ⟨[97], 16, 1⟩] ∧
      Removes two.2 4096 [97] (direntRemove (fun _ => 7) two.2 4096 [97]) := by
  intro block one two
  have hbs : BlockSize 4096 := .inl rfl
  obtain ⟨hinit, hmap⟩ := dirent_block_is_finite_map (fun _ => 7) hbs
  obtain ⟨hv, hempty⟩ := hinit fun _ => 0
  have hok : (direntInsert (fun _ => 7) block 4096 [97] 16 1).1 = .ok () := by decide +kernel
  have hok' : two.1 = .ok () := by decide +kernel
  obtain ⟨hv₁, hone⟩ := ((hmap block hv [97] (by decide) (by decide)).2.1 16 (by decide) 1).adds hok
  obtain ⟨hv₂, htwo⟩ := ((hmap one hv₁ [98] (by decide) (by decide)).2.1 17 (by decide) 2).adds hok'
  rw [hempty] at hone
  exact ⟨hok', htwo.trans (hone.cons _), (hmap two.2 hv₂ [97] (by decide) (by decide)).2.2⟩

def fullBlock : Bytes := fun i =>
  match i % 16 with
  | 0 => 16
  | 8 => 16
  | 10 => 1
  | 11 => 1
  | 12 => UInt8.ofNat (i / 16)
  | _ => 0

/-- With no room left an insertion of a name that is there still reports that it is there. -/
theorem insert_of_present_name_in_full_block :
    direntValidate fullBlock 4096 = .ok () ∧ (direntFind fullBlock 4096 [3]).isSome ∧
    (∀ r ∈ records fullBlock 4096, r.slack < dirRecordLength 1) ∧
    (direntInsert (fun _ => 7) fullBlock 4096 [3] 20 1).1 = .error .exists := by
  refine ⟨?_, ?_, ?_, ?_⟩ <;> decide +kernel

end Wfs.DirBlock
