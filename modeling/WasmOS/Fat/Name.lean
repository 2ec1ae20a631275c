import Mathlib.Algebra.Order.Ring.Nat
import Mathlib.Data.List.TakeWhile

/-! # Names in FAT directories

A directory entry carries a short name of eight and three characters. A name that does not
fit one is spread as UTF-16 over long-name slots that stand before the short entry, thirteen
units a slot and the last part first.
-/

open List Function Char

namespace Fat

abbrev Text := List Char

/-- `fat_name_eq`: names are equal up to ASCII case. -/
def nameEq (a b : Text) : Bool := a.map toLower = b.map toLower

/-- A slot of 32 bytes, told apart by its first byte and its attributes. -/
inductive Slot /-- Nothing was ever written from here on. -/
  | free
  | deleted
  /-- A part of a long name; `last` marks the part that stands first. -/
  | lfn (ordinal : ℕ) (last : Bool) (units : List ℕ)
  | short (name : Text) (attr : UInt8) (cluster size : ℕ)
  deriving DecidableEq

def utf16 (c : Char) : List ℕ :=
  if c.toNat < 0x10000 then [c.toNat]
  else [0xD800 + (c.toNat - 0x10000) / 1024, 0xDC00 + (c.toNat - 0x10000) % 1024]

def decode16 : List ℕ → Option Text
  | [] => some []
  | u :: us =>
    if 0xD800 ≤ u ∧ u ≤ 0xDBFF then
      match us with
      | [] => none
      | low :: us =>
        if 0xDC00 ≤ low ∧ low ≤ 0xDFFF then
          (decode16 us).map (ofNat (0x10000 + ((u - 0xD800) * 1024 + (low - 0xDC00))) :: ·)
        else none
    else if 0xDC00 ≤ u ∧ u ≤ 0xDFFF then none
    else (decode16 us).map (ofNat u :: ·)

def forbidden : List ℕ := [0x22, 0x2A, 0x2F, 0x3A, 0x3C, 0x3E, 0x3F, 0x5C, 0x7C]

def lfnMax : ℕ := 255

variable (name : Text)

def utf8ToUtf16 : Option (List ℕ) :=
  if name = [] ∨ name.any fun c => c.toNat < 0x20 ∨ c.toNat ∈ forbidden then none
  else
    let units := name.flatMap utf16
    if lfnMax < units.length then none else some units

def shortChar (c : Char) : Bool := c.isAlphanum || c == '_' || c == '-'

def padTo (n : ℕ) (t : Text) : Text := t ++ List.replicate (n - t.length) ' '

def encodeShortName : Option Text :=
  let base := name.takeWhile (· ≠ '.')
  let ext := (name.dropWhile (· ≠ '.')).tail
  if base = [] ∨ 8 < base.length ∨ 3 < ext.length then none
  else if ¬ base.all shortChar ∨ ¬ ext.all shortChar then none
  else if base.length < name.length ∧ ext = [] then none
  else some (padTo 8 (base.map toUpper) ++ padTo 3 (ext.map toUpper))

/-- Every byte of a character that a short name cannot hold becomes an underscore. -/
def aliasChars (t : Text) : Text := (t.filter fun c => c ≠ ' ' ∧ c ≠ '.').flatMap fun c =>
    if shortChar c then [c.toUpper] else List.replicate c.utf8Size '_'

def buildShortAlias (ordinal : ℕ) : Text :=
  let dotted := name.any (· == '.')
  let base := if dotted then (name.reverse.dropWhile (· ≠ '.')).tail.reverse else name
  let ext := if dotted then (name.reverse.takeWhile (· ≠ '.')).reverse else []
  let head := (aliasChars base).take 6
  let head := if head = [] then ['F'] else head
  padTo 8 (head ++ ['~', Nat.digitChar ordinal]) ++ padTo 3 ((aliasChars ext).take 3)

def shortText (short : Text) : Text :=
  let ext := short.drop 8
  (short.take 8).filter (· ≠ ' ') ++ if ext.headD ' ' = ' ' then [] else '.' :: ext.filter (· ≠ ' ')

/-- `fat_lfn_t`, without the buffer its text is written to. -/
structure Lfn where
  units : ℕ → ℕ
  unitCount : ℕ
  total : ℕ
  seen : ℕ
  valid : Bool

namespace Lfn

def empty : Lfn := ⟨fun _ => 0, 0, 0, 0, false⟩

variable (l : Lfn)

def reset : Lfn := { l with unitCount := 0, total := 0, seen := 0, valid := false }

def storeChar (pos ch : ℕ) : Lfn :=
  if lfnMax ≤ pos then l
  else if ch = 0 ∨ ch = 0xFFFF then
    { l with
      units := update l.units pos 0
      unitCount := if pos < l.unitCount then pos else l.unitCount }
  else
    { l with
      units := update l.units pos ch
      unitCount := if l.unitCount < pos + 1 then pos + 1 else l.unitCount }

def storeRun (l : Lfn) (pos : ℕ) : List ℕ → Lfn
  | [] => l
  | ch :: chs => storeRun (l.storeChar pos ch) (pos + 1) chs

def collect (ordinal : ℕ) (last : Bool) (units : List ℕ) : Lfn :=
  if ordinal = 0 then l.reset
  else
    let l := if last then { l.reset with valid := true, total := ordinal } else l
    if ¬ l.valid then l
    else if l.total < ordinal then l.reset
    else
      let l := l.storeRun ((ordinal - 1) * 13) units
      { l with seen := l.seen + 1 }

/-- `fat_lfn_finalize`: the text of the units, if it is well formed and fits the buffer. -/
def finalize : Option Text :=
  match decode16 ((List.range l.unitCount).map l.units) with
  | none => none
  | some t => if lfnMax < (t.map utf8Size).sum then none else some (t.takeWhile (·.toNat ≠ 0))

def name? : Option Text :=
  if l.valid ∧ l.seen = l.total ∧ 0 < l.unitCount then l.finalize.filter (· ≠ []) else none

end Lfn

def entryName (l : Lfn) (short : Text) : Text := l.name?.getD (shortText short)

def fillLfnUnits (units : List ℕ) (ordinal : ℕ) : List ℕ :=
  ((units.drop ((ordinal - 1) * 13)).take 13 ++ 0 :: List.replicate 13 0xFFFF).take 13

def lfnSlots (units : List ℕ) (total : ℕ) : ℕ → List Slot
  | 0 => []
  | n + 1 => .lfn (n + 1) (n + 1 = total) (fillLfnUnits units (n + 1)) :: lfnSlots units total n

def lfnCount (units : List ℕ) : ℕ := (units.length + 12) / 13

def Lfn.take (l : Lfn) : Slot → Lfn
  | .lfn ordinal last units => l.collect ordinal last units
  | _ => l.reset

lemma nameEq_iff {a b : Text} : nameEq a b = true ↔ a.map toLower = b.map toLower := by
  simp [nameEq]

lemma nameEq_trans {a b c : Text} (h : nameEq a b = true) : nameEq a c = nameEq b c := by
  rw [nameEq_iff] at h
  simp [nameEq, h]

section Utf16

variable {c : Char} {us : List ℕ}

lemma decode16_utf16_append (c : Char) (us : List ℕ) :
    decode16 (utf16 c ++ us) = (decode16 us).map (c :: ·) := by
  have hvalid : c.toNat < 0xD800 ∨ 0xDFFF < c.toNat ∧ c.toNat < 0x110000 := c.valid
  have hof : ofNat c.toNat = c := ofNat_toNat c
  unfold utf16
  split
  · next hlt =>
    rw [singleton_append, decode16.eq_def]
    dsimp only
    rw [if_neg (by omega), if_neg (by omega), hof]
  next hge =>
  simp only [cons_append, nil_append]
  rw [decode16, if_pos (by omega), if_pos (by omega)]
  have hsum : 0x10000 + ((0xD800 + (c.toNat - 0x10000) / 1024 - 0xD800) * 1024 +
      (0xDC00 + (c.toNat - 0x10000) % 1024 - 0xDC00)) = c.toNat := by omega
  rw [hsum, hof]

lemma decode16_flatMap (name : Text) : decode16 (name.flatMap utf16) = some name := by
  induction name with
  | nil => rfl
  | cons c name ih => rw [flatMap_cons, decode16_utf16_append, ih]; rfl

end Utf16

namespace Lfn

variable {l : Lfn} {pos : ℕ} {chs pads : List ℕ}

@[simp] lemma reset_name? (l : Lfn) : l.reset.name? = none := by
  simp [name?, reset]

lemma storeRun_append : l.storeRun pos (chs ++ pads) =
    (l.storeRun pos chs).storeRun (pos + chs.length) pads := by
  induction chs generalizing l pos with
  | nil => rfl
  | cons ch chs ih =>
    rw [cons_append, storeRun, ih, storeRun, length_cons, add_right_comm]
    rfl

lemma storeRun_frame (l : Lfn) (pos : ℕ) (chs : List ℕ) :
    (l.storeRun pos chs).valid = l.valid ∧ (l.storeRun pos chs).total = l.total ∧
      (l.storeRun pos chs).seen = l.seen := by
  induction chs generalizing l pos with
  | nil => exact ⟨rfl, rfl, rfl⟩
  | cons ch chs ih =>
    have hstep : (l.storeChar pos ch).valid = l.valid ∧ (l.storeChar pos ch).total = l.total ∧
        (l.storeChar pos ch).seen = l.seen := by
      unfold storeChar
      split
      · exact ⟨rfl, rfl, rfl⟩
      · split <;> exact ⟨rfl, rfl, rfl⟩
    obtain ⟨hv, ht, hs⟩ := ih (l.storeChar pos ch) (pos + 1)
    exact ⟨hv.trans hstep.1, ht.trans hstep.2.1, hs.trans hstep.2.2⟩

lemma storeChar_units_of_ne {ch i : ℕ} (hi : i ≠ pos) :
    (l.storeChar pos ch).units i = l.units i := by
  unfold storeChar
  split
  · rfl
  · split <;> exact update_of_ne hi _ _

lemma storeChar_unit {ch : ℕ} (hch : ch ≠ 0 ∧ ch ≠ 0xFFFF) (hpos : pos < lfnMax) :
    (l.storeChar pos ch).unitCount = max l.unitCount (pos + 1) ∧
      (l.storeChar pos ch).units pos = ch := by
  unfold storeChar
  rw [if_neg (by omega), if_neg (by omega)]
  refine ⟨?_, update_self ..⟩
  dsimp only
  split <;> omega

lemma storeRun_units_of_outside {i : ℕ} (hi : i < pos ∨ pos + chs.length ≤ i) :
    (l.storeRun pos chs).units i = l.units i := by
  induction chs generalizing l pos with
  | nil => rfl
  | cons ch chs ih =>
    rw [length_cons] at hi
    rw [storeRun, ih (by omega), storeChar_units_of_ne (by omega)]

lemma storeRun_units (hchs : ∀ ch ∈ chs, ch ≠ 0 ∧ ch ≠ 0xFFFF) (hmax : pos + chs.length ≤ lfnMax)
    {i : ℕ} (hi : i < chs.length) : (l.storeRun pos chs).units (pos + i) = chs[i] := by
  induction chs generalizing l pos i with
  | nil => exact absurd hi (Nat.not_lt_zero i)
  | cons ch chs ih =>
    rw [length_cons] at hmax hi
    rw [storeRun]
    cases i with
    | zero =>
      rw [storeRun_units_of_outside (by omega), add_zero]
      exact (storeChar_unit (hchs ch (.head _)) (by omega)).2
    | succ i =>
      rw [show pos + (i + 1) = pos + 1 + i by omega, getElem_cons_succ]
      exact ih (fun ch hch => hchs ch (.tail _ hch)) (by omega) (by omega)

lemma storeRun_unitCount (hchs : ∀ ch ∈ chs, ch ≠ 0 ∧ ch ≠ 0xFFFF)
    (hmax : pos + chs.length ≤ lfnMax) (hne : chs ≠ []) :
    (l.storeRun pos chs).unitCount = max l.unitCount (pos + chs.length) := by
  induction chs generalizing l pos with
  | nil => exact absurd rfl hne
  | cons ch chs ih =>
    rw [length_cons] at hmax ⊢
    rw [storeRun]
    have hch : (l.storeChar pos ch).unitCount = max l.unitCount (pos + 1) :=
      (storeChar_unit (hchs ch (.head _)) (by omega)).1
    rcases eq_or_ne chs [] with rfl | hchs'
    · exact hch
    · rw [ih (fun ch hch => hchs ch (.tail _ hch)) (by omega) hchs', hch]
      omega

lemma storeRun_pads (hpads : ∀ ch ∈ pads, ch = 0 ∨ ch = 0xFFFF) (hpos : l.unitCount ≤ pos) :
    (l.storeRun pos pads).unitCount = l.unitCount := by
  induction pads generalizing l pos with
  | nil => rfl
  | cons ch pads ih =>
    have hstep : (l.storeChar pos ch).unitCount = l.unitCount := by
      unfold storeChar
      split
      · rfl
      · rw [if_pos (hpads ch (.head _))]
        exact if_neg (by omega)
    rw [storeRun, ih (fun ch hch => hpads ch (.tail _ hch)) (by omega), hstep]

structure Holds (l : Lfn) (us : List ℕ) (start : ℕ) : Prop where
  count : l.unitCount = us.length
  units : ∀ i (h : i < us.length), start ≤ i → l.units i = us[i]

def Plain (us : List ℕ) : Prop := ∀ u ∈ us, u ≠ 0 ∧ u ≠ 0xFFFF

variable {us : List ℕ} {n total : ℕ}

lemma fillLfnUnits_eq (us : List ℕ) (n : ℕ) : ∃ pads : List ℕ,
    fillLfnUnits us (n + 1) = (us.drop (n * 13)).take 13 ++ pads ∧
      (∀ ch ∈ pads, ch = 0 ∨ ch = 0xFFFF) ∧ (pads ≠ [] → us.length < n * 13 + 13) := by
  refine ⟨(0 :: List.replicate 13 0xFFFF).take (13 - ((us.drop (n * 13)).take 13).length),
    ?_, ?_, ?_⟩
  · unfold fillLfnUnits
    rw [Nat.add_sub_cancel, take_append, take_take, min_self]
  · intro ch hch
    have hmem := mem_of_mem_take hch
    simp only [mem_cons, mem_replicate] at hmem
    omega
  intro hne
  by_contra hlen
  apply hne
  rw [length_take, length_drop, show 13 - min 13 (us.length - n * 13) = 0 by omega]
  rfl

lemma holds_storeRun (hus : Plain us) (hmax : us.length ≤ lfnMax) (hn : n * 13 < us.length)
    (h : l.unitCount = 0 ∧ us.length ≤ n * 13 + 13 ∨ l.Holds us (n * 13 + 13)) :
    (l.storeRun (n * 13) (fillLfnUnits us (n + 1))).Holds us (n * 13) := by
  obtain ⟨pads, hfill, hpads, hlast⟩ := fillLfnUnits_eq us n
  have hlen : ((us.drop (n * 13)).take 13).length = min 13 (us.length - n * 13) := by
    rw [length_take, length_drop]
  have hplain : ∀ ch ∈ (us.drop (n * 13)).take 13, ch ≠ 0 ∧ ch ≠ 0xFFFF :=
    fun ch hch => hus ch (mem_of_mem_drop (mem_of_mem_take hch))
  have hcount : (l.storeRun (n * 13) ((us.drop (n * 13)).take 13)).unitCount = us.length := by
    rw [storeRun_unitCount hplain (by omega) (by rw [← length_pos_iff]; omega), hlen]
    rcases h with ⟨hz, hle⟩ | hh
    · omega
    · have := hh.count
      omega
  rw [hfill, storeRun_append]
  constructor
  · rcases eq_or_ne pads [] with rfl | hne
    · exact hcount
    · have := hlast hne
      rw [storeRun_pads hpads (by rw [hcount, hlen]; omega), hcount]
  intro i hi hstart
  by_cases hin : i < n * 13 + 13
  · rw [storeRun_units_of_outside (by omega)]
    have hget : (l.storeRun (n * 13) _).units (n * 13 + (i - n * 13)) = _ :=
      storeRun_units hplain (by omega) (by omega)
    rw [show n * 13 + (i - n * 13) = i by omega] at hget
    rw [hget, getElem_take, getElem_drop]
    congr 1
    omega
  rcases h with ⟨-, hle⟩ | hh
  · omega
  have hnil : pads = [] := by
    by_contra hne
    have := hlast hne
    omega
  rw [hnil, storeRun, storeRun_units_of_outside (by omega)]
  exact hh.units i hi (by omega)

lemma collect_next {units : List ℕ} (hvalid : l.valid = true) (hn : n + 1 ≤ l.total) :
    l.collect (n + 1) false units = { l.storeRun (n * 13) units with seen := l.seen + 1 } := by
  unfold collect
  simp only [Nat.succ_ne_zero, if_false, Bool.false_eq_true, hvalid, not_true_eq_false,
    not_lt.mpr hn, Nat.add_sub_cancel, (storeRun_frame l (n * 13) units).2.2]

lemma collect_first {units : List ℕ} (l : Lfn) (n : ℕ) : l.collect (n + 1) true units =
      { { l.reset with valid := true, total := n + 1 }.storeRun (n * 13) units with
        seen := 1 } := by
  unfold collect
  simp only [Nat.succ_ne_zero, if_false, if_true, not_true_eq_false, lt_irrefl,
    Nat.add_sub_cancel, (storeRun_frame _ (n * 13) units).2.2]
  rfl

lemma holds_foldl (hus : Plain us) (hmax : us.length ≤ lfnMax) (hn : n ≤ total)
    (hvalid : l.valid = true) (htotal : l.total = total) (hseen : l.seen + n = total)
    (hparts : n * 13 < us.length + 13)
    (hlast : n < total ∨ n = 0)
    (h : l.Holds us (n * 13)) :
    ((lfnSlots us total n).foldl Lfn.take l).Holds us 0 ∧
      ((lfnSlots us total n).foldl Lfn.take l).valid = true ∧
      ((lfnSlots us total n).foldl Lfn.take l).total = total ∧
      ((lfnSlots us total n).foldl Lfn.take l).seen = total := by
  induction n generalizing l with
  | zero =>
    exact ⟨h, hvalid, htotal, hseen⟩
  | succ n ih =>
    have hstep : l.take (.lfn (n + 1) (n + 1 = total) (fillLfnUnits us (n + 1))) =
        { l.storeRun (n * 13) (fillLfnUnits us (n + 1)) with seen := l.seen + 1 } := by
      rw [Lfn.take, decide_eq_false (by omega)]
      exact collect_next hvalid (by omega)
    obtain ⟨hv, ht, -⟩ := storeRun_frame l (n * 13) (fillLfnUnits us (n + 1))
    have hholds : (l.storeRun (n * 13) (fillLfnUnits us (n + 1))).Holds us (n * 13) :=
      holds_storeRun hus hmax (by omega) (.inr (by rwa [Nat.succ_mul] at h))
    rw [lfnSlots, foldl_cons, hstep]
    exact ih (by omega) (hv.trans hvalid) (ht.trans htotal) (by dsimp only; omega) (by omega)
      (by omega) ⟨hholds.count, hholds.units⟩

lemma holds_lfnSlots (hus : Plain us) (hmax : us.length ≤ lfnMax) (hne : us ≠ []) (l : Lfn) :
    ((lfnSlots us (lfnCount us) (lfnCount us)).foldl Lfn.take l).Holds us 0 ∧
      ((lfnSlots us (lfnCount us) (lfnCount us)).foldl Lfn.take l).valid = true ∧
      ((lfnSlots us (lfnCount us) (lfnCount us)).foldl Lfn.take l).total = lfnCount us ∧
      ((lfnSlots us (lfnCount us) (lfnCount us)).foldl Lfn.take l).seen = lfnCount us := by
  have hpos : 0 < us.length := length_pos_iff.mpr hne
  obtain ⟨n, hn⟩ : ∃ n, lfnCount us = n + 1 :=
    ⟨(us.length + 12) / 13 - 1, by unfold lfnCount; omega⟩
  have hbounds : n * 13 < us.length ∧ us.length ≤ n * 13 + 13 := by
    unfold lfnCount at hn
    omega
  rw [hn, lfnSlots, foldl_cons]
  obtain ⟨hv, ht, -⟩ := storeRun_frame { l.reset with valid := true, total := n + 1 } (n * 13)
    (fillLfnUnits us (n + 1))
  have hholds := holds_storeRun (l := { l.reset with valid := true, total := n + 1 }) hus hmax
    hbounds.1 (.inl ⟨rfl, hbounds.2⟩)
  rw [Lfn.take, decide_eq_true rfl, collect_first]
  exact holds_foldl hus hmax (by omega) hv ht (by dsimp only; omega) (by omega) (by omega)
    ⟨hholds.count, hholds.units⟩

end Lfn

/-- A name as the last part of a path, that fits the buffer it is copied to. -/
structure Component where
  text : Text
  ne_nil : text ≠ []
  no_slash : '/' ∉ text
  no_nul : ∀ c ∈ text, c.toNat ≠ 0
  fits : (text.map utf8Size).sum ≤ 127

/-- The name holds no U+FFFF, the unit that pads the parts of long names. -/
def Storable (name : Text) : Prop := ∀ c ∈ name, c.toNat ≠ 0xFFFF

instance (name : Text) : Decidable (Storable name) := List.decidableBAll _ name

variable {name : Text} {us : List ℕ}

lemma utf8ToUtf16_eq_some (h : utf8ToUtf16 name = some us) :
    us = name.flatMap utf16 ∧ us.length ≤ lfnMax ∧ name ≠ [] ∧ ∀ c ∈ name, 0x20 ≤ c.toNat := by
  unfold utf8ToUtf16 at h
  split at h
  · cases h
  next hok =>
  rw [not_or, any_eq_true, not_exists] at hok
  dsimp only at h
  split at h
  · cases h
  next hlen =>
  cases h
  refine ⟨rfl, not_lt.mp hlen, hok.1, fun c hc => ?_⟩
  have := hok.2 c
  simp only [hc, true_and, decide_eq_true_eq, not_or] at this
  omega

lemma plain_utf16 (h : Storable name) (hlo : ∀ c ∈ name, 0x20 ≤ c.toNat) :
    Lfn.Plain (name.flatMap utf16) := by
  intro u hu
  obtain ⟨c, hc, hu⟩ := mem_flatMap.mp hu
  have hne := h c hc
  have hc0 := hlo c hc
  unfold utf16 at hu
  split at hu
  · simp only [mem_singleton] at hu
    omega
  have hvalid : c.toNat < 0x110000 := by
    rcases c.valid with hv | hv
    · have : c.toNat < 0xD800 := hv
      omega
    · exact hv.2
  simp only [mem_cons, not_mem_nil, or_false] at hu
  omega

lemma flatMap_utf16_ne_nil (h : name ≠ []) : name.flatMap utf16 ≠ [] := by
  obtain ⟨c, cs, rfl⟩ := exists_cons_of_ne_nil h
  intro hnil
  have hc : utf16 c = [] := (append_eq_nil_iff.mp hnil).1
  unfold utf16 at hc
  split at hc <;> cases hc

lemma name?_lfnSlots (h : utf8ToUtf16 name = some us)
    (hs : Storable name) (hfit : (name.map utf8Size).sum ≤ lfnMax) (l : Lfn) :
    ((lfnSlots us (lfnCount us) (lfnCount us)).foldl Lfn.take l).name? = some name := by
  obtain ⟨rfl, hmax, hne, hlo⟩ := utf8ToUtf16_eq_some h
  have hus := flatMap_utf16_ne_nil hne
  obtain ⟨hholds, hvalid, htotal, hseen⟩ := Lfn.holds_lfnSlots (plain_utf16 hs hlo) hmax hus l
  generalize (lfnSlots (name.flatMap utf16) _ _).foldl Lfn.take l = l' at hholds hvalid htotal hseen
  have hunits : (List.range l'.unitCount).map l'.units = name.flatMap utf16 := by
    apply ext_getElem
    · simp [hholds.count]
    intro i hi hi'
    rw [getElem_map, getElem_range]
    exact hholds.units i hi' (Nat.zero_le i)
  have hcut : name.takeWhile (fun c => decide (c.toNat ≠ 0)) = name := by
    apply takeWhile_eq_self_iff.mpr
    intro c hc
    have := hlo c hc
    simp
    omega
  have hfinal : l'.finalize = some name := by
    unfold Lfn.finalize
    rw [hunits, decode16_flatMap]
    dsimp only
    rw [if_neg (not_lt.mpr hfit), hcut]
  unfold Lfn.name?
  rw [if_pos ⟨hvalid, by rw [hseen, htotal], by rw [hholds.count]; exact length_pos_iff.mpr hus⟩,
    hfinal, Option.filter_some, if_pos (by simpa using hne)]

lemma shortChar_lt {c : Char} (h : shortChar c = true) : c.toNat < 128 := by
  delta shortChar isAlphanum isAlpha isUpper isLower isDigit at h
  simp only [Bool.or_eq_true, Bool.and_eq_true, decide_eq_true_eq, beq_iff_eq, ge_iff_le,
    UInt32.le_iff_toNat_le] at h
  rcases h with (((h | h) | h) | rfl) | rfl
  · have : c.toNat ≤ 90 := h.2
    omega
  · have : c.toNat ≤ 122 := h.2
    omega
  · have : c.toNat ≤ 57 := h.2
    omega
  · decide
  · decide

lemma shortChar_toUpper {c : Char} (h : shortChar c = true) :
    c.toUpper ≠ ' ' ∧ c.toUpper.toLower = c.toLower := by
  have hall : ∀ n : Fin 128, shortChar (ofNat n) = true →
      (ofNat n).toUpper ≠ ' ' ∧ (ofNat n).toUpper.toLower = (ofNat n).toLower := by
    decide +kernel
  have hc := hall ⟨c.toNat, shortChar_lt h⟩
  rw [ofNat_toNat] at hc
  exact hc h

section Short

variable {name short t : Text} {n : ℕ}

lemma length_padTo (h : t.length ≤ n) : (padTo n t).length = n := by
  simp [padTo]
  omega

lemma filter_padTo (h : ∀ c ∈ t, c ≠ ' ') : (padTo n t).filter (· ≠ ' ') = t := by
  unfold padTo
  rw [filter_append, filter_eq_self.mpr (by simpa using h)]
  simp

lemma mem_upper (h : t.all shortChar = true) : ∀ c ∈ t.map toUpper, c ≠ ' ' := by
  intro c hc
  obtain ⟨d, hd, rfl⟩ := mem_map.mp hc
  exact (shortChar_toUpper (all_eq_true.mp h d hd)).1

lemma lower_upper (h : t.all shortChar = true) :
    (t.map toUpper).map toLower = t.map toLower := by
  rw [map_map]
  exact map_congr_left fun c hc => (shortChar_toUpper (all_eq_true.mp h c hc)).2

lemma encodeShortName_eq_some (h : encodeShortName name = some short) :
    ∃ base ext : Text, base ≠ [] ∧ base.length ≤ 8 ∧ ext.length ≤ 3 ∧ base.all shortChar = true ∧
      ext.all shortChar = true ∧ name = base ++ (if ext = [] then [] else '.' :: ext) ∧
      short = padTo 8 (base.map toUpper) ++ padTo 3 (ext.map toUpper) := by
  unfold encodeShortName at h
  dsimp only at h
  split at h
  · cases h
  next hlen =>
  split at h
  · cases h
  next hchars =>
  split at h
  · cases h
  next hdot =>
  rw [not_or, not_or] at hlen
  rw [not_or, not_not, not_not] at hchars
  cases h
  refine ⟨_, _, hlen.1, not_lt.mp hlen.2.1, not_lt.mp hlen.2.2, hchars.1, hchars.2, ?_, rfl⟩
  have hsplit : name.takeWhile (fun c => decide (c ≠ '.')) ++
      name.dropWhile (fun c => decide (c ≠ '.')) = name := takeWhile_append_dropWhile
  rcases hd : name.dropWhile (fun c => decide (c ≠ '.')) with _ | ⟨c, rest⟩
  · rw [hd, append_nil] at hsplit
    rw [tail_nil, if_pos rfl, append_nil, hsplit]
  have hc : decide (c ≠ '.') = false := by
    have hne : name.dropWhile (fun c => decide (c ≠ '.')) ≠ [] := by rw [hd]; simp
    have hhead := head_dropWhile_not (fun c : Char => decide (c ≠ '.')) hne
    rwa [head_eq_iff_head?_eq_some hne |>.mpr (by rw [hd]; rfl)] at hhead
  obtain rfl : c = '.' := by simpa using hc
  have hlt : (name.takeWhile (fun c => decide (c ≠ '.'))).length < name.length := by
    have hlen := congrArg List.length hsplit
    rw [hd, length_append, length_cons] at hlen
    omega
  rw [hd] at hsplit hdot
  rw [tail_cons] at hdot ⊢
  rw [if_neg fun hnil => hdot ⟨hlt, hnil⟩, hsplit]

lemma shortText_encode (h : encodeShortName name = some short) :
    nameEq (shortText short) name = true := by
  obtain ⟨base, ext, -, hbase, hext, hbc, hec, rfl, rfl⟩ := encodeShortName_eq_some h
  have hb : (padTo 8 (base.map toUpper)).length = 8 := length_padTo (by simpa using hbase)
  unfold shortText
  dsimp only
  rw [take_left' hb, drop_left' hb, filter_padTo (mem_upper hbc),
    filter_padTo (mem_upper hec), nameEq_iff]
  cases ext with
  | nil => simp [padTo, lower_upper hbc]
  | cons c ext =>
    have hc : c.toUpper ≠ ' ' := mem_upper hec _ (by simp)
    have hlow := lower_upper hec
    rw [if_neg (by simpa [padTo] using hc), if_neg (cons_ne_nil c ext), map_append,
      map_append, lower_upper hbc]
    simp only [map_cons] at hlow ⊢
    rw [hlow]

lemma entryName_reset (l : Lfn) (short : Text) : entryName l.reset short = shortText short := by
  simp [entryName]

end Short

end Fat
