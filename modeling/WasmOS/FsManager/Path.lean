import WasmOS.SlashPath.Basic

/-! # Paths of the file system manager

`fs_manager_path.c`: joining a client's path to its working directory, and finding the mount that
owns the result. A C string is the list of its characters; the functions are shown to compute on
canonical paths, lists of names.
-/

open List SlashPath Char

namespace FsManager

abbrev Text := List Char

def asciiCaseEqual (a b : Text) (n : ℕ) : Bool :=
  n != 0 && (a.take n).map toLower == (b.take n).map toLower

def trimSlashes : Text → Text
  | [] => []
  | c :: cs => c :: cs.rdropWhile (· = '/')

def pathIsWithin (mount path : Text) : Bool :=
  let mlen := (trimSlashes mount).length
  if mount.head? ≠ some '/' ∨ path.head? ≠ some '/' then false
  else if mlen = 1 then true
  else if path.length < mlen || !asciiCaseEqual mount path mlen then false
  else path.length == mlen || path[mlen]? == some '/'

def popSegment : Text → Text
  | [] => []
  | c :: cs => c :: (cs.rdropWhile (· ≠ '/')).rdropWhile (· = '/')

def joinSegment (cap : ℕ) (out : Text) (seg : Text) : Option Text :=
  if seg = [] ∨ seg = ['.'] then some out
  else if seg = ['.', '.'] then some (popSegment out)
  else if 1 < out.length ∧ cap ≤ out.length + 1 then none
  else
    let out := if 1 < out.length then out ++ ['/'] else out
    if cap ≤ out.length + seg.length then none else some (out ++ seg)

def cwdJoin (cwd arg : Text) (cap : ℕ) : Option Text :=
  if cap < 2 then none
  else if cwd.head? ≠ some '/' then none
  else if arg.head? = some '/' then (arg.tail.splitOn '/').foldlM (joinSegment cap) ['/']
  else if cap ≤ cwd.length then none
  else (arg.splitOn '/').foldlM (joinSegment cap) (trimSlashes cwd)

def mountPathLen (mount : Text) : ℕ :=
  if mount.head? ≠ some '/' then 0 else (trimSlashes mount).length

structure Best where
  index : ℕ
  ranked : ℕ
  consume : ℕ

def consumes (path mount : Text) : Option ℕ :=
  let mlen := mountPathLen mount
  if mlen = 0 then none
  else if mlen = 1 then some 0
  else if path.length < mlen || !asciiCaseEqual mount path mlen then none
  else if mlen < path.length ∧ path[mlen]? ≠ some '/' then none
  else some mlen

def betterMount (path : Text) (best : Option Best) (m : Text × ℕ) : Option Best :=
  match consumes path m.1 with
  | none => best
  | some consume =>
    if (best.elim 0 Best.ranked) < mountPathLen m.1 then some ⟨m.2, mountPathLen m.1, consume⟩
    else best

/-- `fsmgr_route_path_for_mounts`: the index of the mount and the path its backend sees. -/
def routePathForMounts (path : Text) (mounts : List Text) (cap : ℕ) : Option (ℕ × Text) :=
  if mounts = [] ∨ cap < 2 then none
  else if path.head? ≠ some '/' then none
  else
    match mounts.zipIdx.foldl (betterMount path) none with
    | none => none
    | some best =>
      if path.length ≤ best.consume then some (best.index, ['/'])
      else if cap ≤ path.length - best.consume then none
      else some (best.index, path.drop best.consume)

structure Name where
  chars : Text
  nonempty : chars ≠ []
  noSlash : '/' ∉ chars
  notDot : chars ≠ ['.']
  notDotDot : chars ≠ ['.', '.']

abbrev VPath := List Name

namespace VPath

def text (p : VPath) : Text := render '/' (p.map Name.chars)

def fold (p : VPath) : List Text := p.map fun n => n.chars.map toLower

def Owns (m p : VPath) : Prop := m.fold <+: p.fold

instance (m p : VPath) : Decidable (Owns m p) := inferInstanceAs (Decidable (_ <+: _))

def step (p : VPath) (seg : Text) : VPath :=
  if h : seg = [] ∨ '/' ∈ seg ∨ seg = ['.'] ∨ seg = ['.', '.'] then
    if seg = ['.', '.'] then p.dropLast else p
  else
    p ++ [⟨seg, fun he => h (.inl he), fun hs => h (.inr (.inl hs)),
      fun hd => h (.inr (.inr (.inl hd))), fun hd => h (.inr (.inr (.inr hd)))⟩]

def resolve (cwd : VPath) (arg : Text) : VPath :=
  if arg.head? = some '/' then (arg.tail.splitOn '/').foldl step []
  else (arg.splitOn '/').foldl step cwd

variable {p m k : VPath} {seg out arg : Text} {cap : ℕ}

lemma forall_name (p : VPath) : ∀ n ∈ p.map Name.chars, n ≠ [] ∧ '/' ∉ n := by
  intro n hn
  obtain ⟨k, -, rfl⟩ := mem_map.mp hn
  exact ⟨k.nonempty, k.noSlash⟩

lemma text_eq (p : VPath) : p.text = '/' :: (body '/' (p.map Name.chars)).tail := by
  cases p <;> rfl

lemma text_of_ne_nil (h : p ≠ []) : p.text = body '/' (p.map Name.chars) :=
  render_of_ne_nil (by simpa using h)

lemma head_text (p : VPath) : p.text.head? = some '/' := render_head _

lemma length_text_pos (p : VPath) : 0 < p.text.length := by simp [text_eq]

lemma one_lt_length_text : 1 < p.text.length ↔ p ≠ [] := by
  cases p with
  | nil => decide
  | cons n p =>
    have hn : 0 < n.chars.length := length_pos_iff.mpr n.nonempty
    simp only [text_eq, map_cons, body_cons, tail_cons, length_cons,
      length_append, ne_eq, reduceCtorEq, not_false_eq_true, iff_true]
    omega

lemma trimSlashes_text (p : VPath) : trimSlashes p.text = p.text := by
  rw [text_eq, trimSlashes, rdropWhile_sep (forall_name p)]

lemma popSegment_text (p : VPath) : popSegment p.text = VPath.text p.dropLast := by
  induction p using List.reverseRecOn with
  | nil => rfl
  | append_singleton p n _ =>
    rw [dropLast_concat, text_eq, popSegment, map_append]
    exact (congrArg _ (rdropWhile_last (forall_name p) n.noSlash)).trans (text_eq p).symm

lemma length_text_dropLast (p : VPath) : (VPath.text p.dropLast).length ≤ p.text.length := by
  induction p using List.reverseRecOn with
  | nil => exact le_rfl
  | append_singleton p n _ =>
    rw [dropLast_concat, text_eq, text_eq]
    simp
    omega

lemma text_concat (p : VPath) (n : Name) :
    text (p ++ [n]) = (if 1 < p.text.length then p.text ++ ['/'] else p.text) ++ n.chars := by
  by_cases hp : p = []
  · subst hp
    simp [text, render]
  · rw [if_pos (one_lt_length_text.mpr hp), text_of_ne_nil hp, text_of_ne_nil (by simp)]
    simp

lemma joinSegment_text (hseg : '/' ∉ seg) (hp : p.text.length < cap)
    (h : joinSegment cap p.text seg = some out) :
    out = VPath.text (p.step seg) ∧ out.length < cap := by
  unfold joinSegment at h
  unfold step
  by_cases hskip : seg = [] ∨ seg = ['.']
  · rw [if_pos hskip] at h
    cases h
    rw [dif_pos (by tauto), if_neg]
    · exact ⟨rfl, hp⟩
    · rcases hskip with rfl | rfl <;> decide
  rw [if_neg hskip] at h
  by_cases hdots : seg = ['.', '.']
  · rw [if_pos hdots] at h
    cases h
    rw [dif_pos (by tauto), if_pos hdots, popSegment_text]
    exact ⟨rfl, lt_of_le_of_lt (length_text_dropLast p) hp⟩
  rw [if_neg hdots] at h
  rw [dif_neg (by tauto), text_concat]
  generalize (if 1 < p.text.length then p.text ++ ['/'] else p.text) = pre at h ⊢
  split at h
  · cases h
  dsimp only at h
  split at h
  · cases h
  next hlong =>
  cases h
  exact ⟨rfl, by rw [length_append]; omega⟩

lemma foldlM_joinSegment {segs : List Text} (hsegs : ∀ seg ∈ segs, '/' ∉ seg)
    (hp : p.text.length < cap) (h : segs.foldlM (joinSegment cap) p.text = some out) :
    out = VPath.text (segs.foldl step p) ∧ out.length < cap := by
  induction segs generalizing p with
  | nil =>
    cases h
    exact ⟨rfl, hp⟩
  | cons seg segs ih =>
    rw [foldlM_cons, Option.bind_eq_bind, Option.bind_eq_some_iff] at h
    obtain ⟨mid, hmid, h⟩ := h
    obtain ⟨rfl, hlen⟩ := joinSegment_text (hsegs seg (.head _)) hp hmid
    exact ih (fun k hk => hsegs k (.tail _ hk)) hlen h

lemma cwdJoin_text (h : cwdJoin p.text arg cap = some out) :
    out = VPath.text (p.resolve arg) ∧ out.length < cap := by
  unfold cwdJoin at h
  unfold resolve
  split_ifs at h with hcap hcwd habs hlong
  · rw [if_pos habs]
    exact foldlM_joinSegment (fun _ => not_mem_of_mem_splitOn) (not_lt.mp hcap) h
  rw [if_neg habs]
  rw [trimSlashes_text] at h
  exact foldlM_joinSegment (fun _ => not_mem_of_mem_splitOn) (not_le.mp hlong) h

lemma toLower_eq_slash {c : Char} : c.toLower = '/' ↔ c = '/' := by
  constructor
  · intro h
    unfold toLower at h
    split at h
    · next hc =>
      have hv := congrArg (fun d : Char => d.val.toNat) h
      have h1 : 65 ≤ c.val.toNat := UInt32.le_iff_toNat_le.mp hc.1
      have h2 : c.val.toNat ≤ 90 := UInt32.le_iff_toNat_le.mp hc.2
      have h3 : (c.val + 32).toNat = 47 := hv
      rw [UInt32.toNat_add] at h3
      have h4 : (32 : UInt32).toNat = 32 := rfl
      omega
    · exact h
  · rintro rfl
    rfl

lemma length_fold (p : VPath) : p.fold.length = p.length := length_map _

lemma forall_fold (p : VPath) : ∀ n ∈ p.fold, '/' ∉ n := by
  intro n hn
  obtain ⟨k, -, rfl⟩ := mem_map.mp hn
  intro hs
  obtain ⟨c, hc, he⟩ := mem_map.mp hs
  exact k.noSlash (toLower_eq_slash.mp he ▸ hc)

lemma map_toLower_body (p : VPath) :
    (body '/' (p.map Name.chars)).map toLower = body '/' p.fold := by
  rw [body_map rfl, map_map]
  rfl

/-- The comparison the code makes, on canonical paths: a mount that is not the root owns a path
when its text is a prefix up to a boundary. -/
lemma owns_iff (hm : m ≠ []) :
    m.Owns p ↔ m.text.length ≤ p.text.length ∧ asciiCaseEqual m.text p.text m.text.length = true ∧
      (p.text.length = m.text.length ∨ p.text[m.text.length]? = some '/') := by
  have hlen := one_lt_length_text.mpr hm
  by_cases hp : p = []
  · subst hp
    constructor
    · intro h
      have hle := h.length_le
      rw [length_fold, length_fold] at hle
      exact absurd (length_eq_zero_iff.mp (Nat.le_zero.mp hle)) hm
    · rintro ⟨hle, -⟩
      have hroot : (text []).length = 1 := rfl
      omega
  have hmt : m.text.map toLower = body '/' m.fold := by
    rw [text_of_ne_nil hm, map_toLower_body]
  have hpt : p.text.map toLower = body '/' p.fold := by
    rw [text_of_ne_nil hp, map_toLower_body]
  have hcase : asciiCaseEqual m.text p.text m.text.length = true ↔
      m.text.map toLower = (p.text.map toLower).take m.text.length := by
    simp only [asciiCaseEqual, take_length, ← map_take, Bool.and_eq_true, bne_iff_ne,
      beq_iff_eq, and_iff_right_iff_imp]
    omega
  rw [hcase]
  constructor
  · rintro ⟨q, hq⟩
    have happ : p.text.map toLower = m.text.map toLower ++ body '/' q := by
      rw [hpt, hmt, ← hq, body_append]
    have hlens := congrArg List.length happ
    simp only [length_map, length_append] at hlens
    have hmlen : (m.text.map toLower).length = m.text.length := length_map _
    refine ⟨by omega, ?_, ?_⟩
    · rw [happ, ← hmlen, take_left]
    have hbound : SlashPath.Boundary '/' (body '/' q) := boundary_body q
    rcases hbound with hb | hb
    · left
      simp [hb] at hlens
      exact hlens
    right
    have hget : (p.text.map toLower)[m.text.length]? = some '/' := by
      rwa [happ, ← hmlen, getElem?_append_right le_rfl, Nat.sub_self, ← head?_eq_getElem?]
    rw [getElem?_map, Option.map_eq_some_iff] at hget
    obtain ⟨c, hc, hlow⟩ := hget
    rw [hc, toLower_eq_slash.mp hlow]
  · rintro ⟨hle, heq, hb⟩
    have happ : body '/' m.fold ++ (p.text.map toLower).drop m.text.length = body '/' p.fold := by
      rw [← hmt, heq, take_append_drop, hpt]
    have hcut : SlashPath.Boundary '/' ((p.text.map toLower).drop m.text.length) := by
      rcases hb with hb | hb
      · left
        rw [drop_eq_nil_iff, length_map, hb]
      right
      rw [head?_drop, getElem?_map, hb]
      rfl
    obtain ⟨q, hq, -⟩ := body_split (forall_fold m) (forall_fold p) hcut happ
    exact ⟨q, hq.symm⟩

lemma root_owns (p : VPath) : Owns [] p := nil_prefix

lemma pathIsWithin_iff (m p : VPath) : pathIsWithin m.text p.text = true ↔ m.Owns p := by
  unfold pathIsWithin
  rw [if_neg (by simp [head_text]), trimSlashes_text]
  by_cases hm : m = []
  · subst hm
    exact iff_of_true rfl (root_owns p)
  have hlen := one_lt_length_text.mpr hm
  rw [if_neg (by omega), owns_iff hm]
  split_ifs with hc
  · simp only [Bool.or_eq_true, decide_eq_true_eq, Bool.not_eq_true'] at hc
    simp only [false_iff]
    rintro ⟨hle, heq, -⟩
    rcases hc with hc | hc
    · omega
    · cases heq.symm.trans hc
  · simp only [Bool.or_eq_true, decide_eq_true_eq, Bool.not_eq_true', not_or, not_lt,
      Bool.not_eq_false] at hc
    simp [hc.1, hc.2]

lemma mountPathLen_text (m : VPath) : mountPathLen m.text = m.text.length := by
  rw [mountPathLen, if_neg (by simp [head_text]), trimSlashes_text]

def taken (m : VPath) : ℕ := (body '/' (m.map Name.chars)).length

lemma taken_of_ne_nil (hm : m ≠ []) : m.taken = m.text.length := by
  rw [taken, text_of_ne_nil hm]

lemma consumes_text (m p : VPath) :
    consumes p.text m.text = if m.Owns p then some m.taken else none := by
  have hpos := length_text_pos m
  unfold consumes
  rw [mountPathLen_text, if_neg (by omega)]
  by_cases hm : m = []
  · subst hm
    rfl
  have hlen := one_lt_length_text.mpr hm
  rw [if_neg (by omega), taken_of_ne_nil hm]
  by_cases howns : m.Owns p
  · obtain ⟨hle, heq, hcut⟩ := (owns_iff hm).mp howns
    rw [if_pos howns, if_neg (by simp [heq, hle]), if_neg]
    rintro ⟨hlt, hne⟩
    rcases hcut with hcut | hcut
    · omega
    · exact hne hcut
  split
  · rfl
  next hc =>
  simp only [Bool.or_eq_true, decide_eq_true_eq, Bool.not_eq_true', not_or, not_lt,
    Bool.not_eq_false] at hc
  rw [if_pos]
  by_contra hcut
  apply howns
  refine (owns_iff hm).mpr ⟨hc.1, hc.2, ?_⟩
  by_contra hout
  rw [not_or] at hout
  exact hcut ⟨by omega, hout.2⟩

lemma taken_eq (m : VPath) : m.taken = (body '/' m.fold).length := by
  rw [taken, ← map_toLower_body, length_map]

lemma fold_take (h : m.Owns p) : m.fold = VPath.fold (p.take m.length) := by
  have htake := prefix_iff_eq_take.mp h
  rw [length_fold] at htake
  rw [htake, fold, fold, map_take]

lemma Owns.taken_eq (h : m.Owns p) : m.taken = taken (p.take m.length) := by
  rw [VPath.taken_eq, VPath.taken_eq, fold_take h]

lemma Owns.length_le (h : m.Owns p) : m.length ≤ p.length := by
  have := List.IsPrefix.length_le h
  rwa [length_fold, length_fold] at this

lemma text_split (hp : p ≠ []) (n : ℕ) : p.text = body '/' ((p.take n).map Name.chars) ++
      body '/' ((p.drop n).map Name.chars) := by
  rw [text_of_ne_nil hp, ← body_append, ← map_append, take_append_drop]

lemma drop_taken (h : m.Owns p) (ht : m.taken < p.text.length) :
    p.text.drop m.taken = VPath.text (p.drop m.length) := by
  rw [h.taken_eq] at ht ⊢
  by_cases hp : p = []
  · subst hp
    rw [take_nil, drop_nil]
    rfl
  have hne : p.drop m.length ≠ [] := by
    intro he
    rw [text_split hp m.length, he, map_nil, body_nil, append_nil] at ht
    exact (lt_irrefl _) ht
  rw [text_split hp m.length, text_of_ne_nil hne]
  exact drop_left

lemma drop_of_taken (h : m.Owns p) (ht : p.text.length ≤ m.taken) : p.drop m.length = [] := by
  by_cases hp : p = []
  · rw [hp, drop_nil]
  rw [h.taken_eq, text_split hp m.length, length_append, taken] at ht
  cases hd : p.drop m.length with
  | nil => rfl
  | cons n q =>
    rw [hd, map_cons, body_cons, length_cons] at ht
    omega

lemma length_text_lt (hk : k.Owns p) (hm : m.Owns p) (h : k.length < m.length) :
    k.text.length < m.text.length := by
  have hne : m ≠ [] := length_pos_iff.mp (Nat.zero_lt_of_lt h)
  by_cases hk0 : k = []
  · rw [hk0]
    exact one_lt_length_text.mpr hne
  rw [← taken_of_ne_nil hk0, ← taken_of_ne_nil hne, hk.taken_eq, hm.taken_eq, taken, taken]
  have htake : p.take m.length =
      p.take k.length ++ (p.drop k.length).take (m.length - k.length) := by
    rw [← take_add, Nat.add_sub_cancel' h.le]
  rw [htake, map_append]
  apply body_length_lt
  have := hm.length_le
  rw [ne_eq, ← length_eq_zero_iff, length_map, length_take, length_drop]
  omega

lemma length_text_lt_iff (hk : k.Owns p) (hm : m.Owns p) :
    k.text.length < m.text.length ↔ k.length < m.length := by
  constructor
  · intro h
    by_contra hle
    rcases lt_or_eq_of_le (not_lt.mp hle) with hlt | heq
    · exact absurd (length_text_lt hm hk hlt) (by omega)
    have htaken : k.taken = m.taken := by rw [hk.taken_eq, hm.taken_eq, heq]
    by_cases hk0 : k = []
    · have hm0 : m = [] := length_eq_zero_iff.mp (by rw [heq, hk0]; rfl)
      rw [hk0, hm0] at h
      exact (lt_irrefl _) h
    have hm0 : m ≠ [] := by
      rintro rfl
      exact hk0 (length_eq_zero_iff.mp heq.symm)
    rw [taken_of_ne_nil hk0, taken_of_ne_nil hm0] at htaken
    omega
  · exact length_text_lt hk hm

/-- The mount at `i` owns `p`, no mount that owns it has more names, and none registered before it
has as many. -/
structure IsOwner (mounts : List VPath) (p : VPath) (i : ℕ) (m : VPath) : Prop where
  mount : mounts[i]? = some m
  owns : m.Owns p
  longest : ∀ (j : ℕ) (k : VPath), mounts[j]? = some k → k.Owns p → k.length ≤ m.length
  first : ∀ (j : ℕ) (k : VPath), j < i → mounts[j]? = some k → k.Owns p → k.length < m.length

inductive Scanned (mounts : List VPath) (p : VPath) : Option Best → Prop
  | nothing : (∀ m ∈ mounts, ¬ m.Owns p) → Scanned mounts p none
  | owner {i : ℕ} {m : VPath} :
      IsOwner mounts p i m → Scanned mounts p (some ⟨i, m.text.length, m.taken⟩)

variable {mounts : List VPath}

lemma getElem?_concat {j : ℕ} (h : (mounts ++ [m])[j]? = some k) :
    mounts[j]? = some k ∨ j = mounts.length ∧ k = m := by
  rcases lt_trichotomy j mounts.length with hlt | rfl | hgt
  · rw [getElem?_append_left hlt] at h
    exact .inl h
  · simp only [getElem?_append_right le_rfl, Nat.sub_self, getElem?_cons_zero,
      Option.some.injEq] at h
    exact Or.inr ⟨rfl, h.symm⟩
  · rw [getElem?_eq_none (by simp; omega)] at h
    cases h

lemma IsOwner.concat {i : ℕ} (h : IsOwner mounts p i m)
    (hk : k.Owns p → k.length ≤ m.length) : IsOwner (mounts ++ [k]) p i m := by
  have hi : i < mounts.length := (List.getElem?_eq_some_iff.mp h.mount).1
  constructor
  · rw [List.getElem?_append_left hi]
    exact h.mount
  · exact h.owns
  · intro j n hj hn
    rcases getElem?_concat hj with hj | ⟨-, rfl⟩
    · exact h.longest j n hj hn
    · exact hk hn
  intro j n hlt hj hn
  rcases getElem?_concat hj with hj | ⟨rfl, -⟩
  · exact h.first j n hlt hj hn
  · omega

lemma isOwner_last (hm : m.Owns p)
    (h : ∀ (j : ℕ) (k : VPath), mounts[j]? = some k → k.Owns p → k.length < m.length) :
    IsOwner (mounts ++ [m]) p mounts.length m := by
  constructor
  · simp
  · exact hm
  · intro j k hj hk
    rcases getElem?_concat hj with hj | ⟨-, rfl⟩
    · exact (h j k hj hk).le
    · exact le_rfl
  intro j k hlt hj hk
  rcases getElem?_concat hj with hj | ⟨rfl, -⟩
  · exact h j k hj hk
  · omega

lemma scan_mounts (mounts : List VPath) (p : VPath) :
    Scanned mounts p ((mounts.map text).zipIdx.foldl (betterMount p.text) none) := by
  induction mounts using List.reverseRecOn with
  | nil => exact .nothing nofun
  | append_singleton mounts m ih =>
    rw [map_append, zipIdx_append, foldl_append]
    simp only [map_cons, map_nil, zipIdx_cons, zipIdx_nil, foldl_cons,
      foldl_nil, length_map, Nat.zero_add]
    generalize (mounts.map text).zipIdx.foldl (betterMount p.text) none = best at ih ⊢
    unfold betterMount
    rw [consumes_text, mountPathLen_text]
    by_cases hm : m.Owns p
    · rw [if_pos hm]
      cases ih with
      | nothing hnone =>
        dsimp only
        rw [if_pos (show Option.elim none 0 Best.ranked < m.text.length from length_text_pos m)]
        refine .owner (isOwner_last hm fun j k hj hk => ?_)
        exact absurd hk (hnone k (mem_of_getElem? hj))
      | owner ho =>
        have hmore := length_text_lt_iff ho.owns hm
        dsimp only
        split
        · next hlt =>
          have hlt := hmore.mp hlt
          exact .owner (isOwner_last hm fun j k hj hk => lt_of_le_of_lt (ho.longest j k hj hk) hlt)
        next hlt =>
        have hlt := fun h => hlt (hmore.mpr h)
        exact .owner (ho.concat fun _ => not_lt.mp hlt)
    · rw [if_neg hm]
      cases ih with
      | nothing hnone =>
        refine .nothing fun k hk => ?_
        rcases mem_append.mp hk with hk | hk
        · exact hnone k hk
        · rwa [mem_singleton.mp hk]
      | owner ho => exact .owner (ho.concat fun h => absurd h hm)

lemma routePathForMounts_text {i : ℕ}
    (h : routePathForMounts p.text (mounts.map text) cap = some (i, out)) :
    ∃ m, IsOwner mounts p i m ∧ out = VPath.text (p.drop m.length) ∧ out.length < cap := by
  unfold routePathForMounts at h
  have hscan := scan_mounts mounts p
  generalize (mounts.map text).zipIdx.foldl (betterMount p.text) none = best at h hscan
  split_ifs at h with hargs habs
  cases hscan with
  | nothing => cases h
  | @owner i m ho =>
    refine ⟨m, ?_⟩
    dsimp only at h
    split_ifs at h with htaken hroom
    · obtain ⟨rfl, rfl⟩ := h
      rw [drop_of_taken ho.owns htaken]
      exact ⟨ho, rfl, by simp at hargs ⊢; omega⟩
    obtain ⟨rfl, rfl⟩ := h
    refine ⟨ho, drop_taken ho.owns (not_le.mp htaken), ?_⟩
    rw [length_drop]
    omega

lemma routePathForMounts_ne_none {i : ℕ} (h : IsOwner mounts p i m)
    (hcap : (VPath.text (p.drop m.length)).length < cap) :
    routePathForMounts p.text (mounts.map text) cap ≠ none := by
  have hpos := length_text_pos (p.drop m.length)
  have hmem : m ∈ mounts := mem_of_getElem? h.mount
  have hscan := scan_mounts mounts p
  unfold routePathForMounts
  generalize (mounts.map text).zipIdx.foldl (betterMount p.text) none = best at hscan ⊢
  rw [if_neg, if_neg (by simp [head_text])]
  · cases hscan with
    | nothing hnone => exact absurd h.owns (hnone m hmem)
    | @owner j k ho =>
      have hlen : k.length = m.length := by
        apply le_antisymm
        · exact h.longest j k ho.mount ho.owns
        · exact ho.longest i m h.mount h.owns
      dsimp only
      split_ifs with htaken hroom
      · simp
      · rw [← hlen, ← drop_taken ho.owns (not_le.mp htaken), length_drop] at hcap
        omega
      · simp
  · rw [not_or, map_eq_nil_iff]
    exact ⟨ne_nil_of_mem hmem, by omega⟩

end VPath

end FsManager
