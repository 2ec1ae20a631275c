import WasmOS.Wfs.Journal.System

/-! # What survives power loss

The states of the log seen through what its blocks surely hold: idle at a sequence, replayable under
a tail that names it, and retiring while the advanced tail may still be lost. From each of them
recovery succeeds, and every point at which it is interrupted is again recoverable.
-/

namespace Wfs.Journal

open BlockDevice BlockDevice.Device BlockDevice.Prog List

variable {β : Type} (F : Format β)

def Home (b : ℕ) : Prop := b ≠ 0 ∧ (b < F.journalStart ∨ F.journalStart + F.journalBlocks ≤ b)

def RecordOk (c : ℕ) : Record → Prop
  | .descriptor records => c = 1 ∧ ∃ ts, parseDescriptor F.toGeometry records = .ok ts
  | .revoke blocks => c ≠ 1 ∧ parseRevoke F.toGeometry blocks = .ok blocks
  | .commit _ => False
  | .unknown _ => False

def LogOld (n c : ℕ) (v : Block β) : Prop :=
  ∀ q r, v.recordIsLive (F.journalStart + c) q = some r → q ≤ n

def LogOk (n c : ℕ) (v : Block β) : Prop :=
  ∀ q r, v.recordIsLive (F.journalStart + c) q = some r → q ≤ n ∧ (q = n → RecordOk F c r)

def IsPrimary (P : State → Prop) (v : Block β) : Prop :=
  ∃ s, v = .super s ∧ s.location = 0 ∧ P s.state

variable (content : ℕ → Option (Block β)) (d : Disk β)

def HomeHolds : Prop := ∀ b v, Home F b → content b = some v → d.Surely b fun w => Agrees F b w v

/-- Nothing to replay: the tail names `n` and no COMMIT of `n` is in the log. -/
structure Idle (n : ℕ) (content : ℕ → Option (Block β)) (d : Disk β) : Prop where
  tail : d.Surely F.journalStart (· = journalSuper F n)
  log : ∀ c, 1 ≤ c → c < F.journalBlocks → d.Surely (F.journalStart + c) (LogOk F n c)
  home : HomeHolds F content d
  primary : d.Surely 0 (IsPrimary (· ≠ .error))

def commitAt (ts : List TxnTarget) (rs : List ℕ) : ℕ :=
  2 + ts.length + (if rs.length = 0 then 0 else 1)

/-- The log holds the images, descriptor and revokes of transaction `t` under sequence `n`. -/
structure Sealed (n : ℕ) (t : Txn β) (ts : List TxnTarget) (rs : List ℕ) (d : Disk β) : Prop where
  targets_len : ts.length ≤ txnMaxTargets
  targets_legal : ∀ u ∈ ts, F.targetIsLegal u.target = true
  revokes_len : rs.length ≤ txnMaxRevokes
  revokes_legal : ∀ b ∈ rs, F.targetIsLegal b = true
  covers : ∀ b v, t.image b = some v → ∃ u ∈ ts, u.target = b
  revoked : ∀ b, b ∈ rs ↔ b ∈ t.revoked
  descriptor : d.Surely (F.journalStart + 1)
    (· = sealRecord (F.journalStart + 1) n (.descriptor (descriptorRecords ts)))
  image : ∀ i u, ts[i]? = some u → d.Surely (F.journalStart + (2 + i))
    fun v => t.image u.target = some v ∧ F.crc32c v = u.checksum
  revoke : rs.length ≠ 0 → d.Surely (F.journalStart + (2 + ts.length))
    (· = sealRecord (F.journalStart + (2 + ts.length)) n (.revoke rs))

/-- A committed transaction whose replay, or whose checkpoint, leads to `content`. -/
structure Replayable (n : ℕ) (t : Txn β) (ts : List TxnTarget) (rs : List ℕ)
    (content : ℕ → Option (Block β)) (d : Disk β) : Prop
    extends Sealed F n t ts rs d where
  commit : d.Surely (F.journalStart + commitAt ts rs)
    (· = sealRecord (F.journalStart + commitAt ts rs) n (.commit ts.length))
  log : ∀ c, 1 ≤ c → c < F.journalBlocks → d.Surely (F.journalStart + c) (LogOld F n c)
  rest : ∀ b v, Home F b → t.image b = none → content b = some v →
    d.Surely b fun w => Agrees F b w v
  resolved : ∀ b v w, t.image b = some v → content b = some w → w = v ∧ b ∉ rs
  primary : d.Surely 0 (IsPrimary (· = .dirty))

/-- A replayable transaction that the tail still names. -/
structure Pending (n : ℕ) (t : Txn β) (ts : List TxnTarget) (rs : List ℕ)
    (content : ℕ → Option (Block β)) (d : Disk β) : Prop
    extends Replayable F n t ts rs content d where
  tail : d.Surely F.journalStart (· = journalSuper F n)

/-- A checkpointed transaction whose advanced tail may still be lost. -/
structure Retiring (n : ℕ) (t : Txn β) (ts : List TxnTarget) (rs : List ℕ)
    (content : ℕ → Option (Block β)) (d : Disk β) : Prop
    extends Replayable F n t ts rs content d where
  home : HomeHolds F content d
  tail : d.Surely F.journalStart fun v => v = journalSuper F n ∨ v = journalSuper F (n + 1)
  tail_read : d.read F.journalStart = journalSuper F (n + 1)

def Recoverable : Prop := (∃ n, Idle F n content d) ∨ ∃ n t ts rs, Pending F n t ts rs content d

def Ready (n : ℕ) (content : ℕ → Option (Block β)) (d : Disk β) : Prop :=
  Idle F n content d ∨ ∃ m t ts rs, n = m + 1 ∧ Retiring F m t ts rs content d

def Safe (contents : Set (ℕ → Option (Block β))) (d : Disk β) : Prop :=
  ∀ writeThrough keep, ∃ c ∈ contents, Recoverable F c (fresh writeThrough (d.crash keep))

variable {F} {n : ℕ} {t : Txn β} {ts : List TxnTarget} {rs : List ℕ}
  {content : ℕ → Option (Block β)} {d : Disk β} {b : ℕ} {v : Block β}

lemma Home.of_legal (h : F.targetIsLegal b = true) : Home F b := by
  rw [Geometry.targetIsLegal_iff] at h
  exact ⟨h.1, h.2.2⟩

variable {c : ℕ}

lemma Home.ne_log (h : Home F b) (hc : c < F.journalBlocks) : F.journalStart + c ≠ b := by
  obtain ⟨-, h⟩ := h; omega

lemma agrees_refl (F : Format β) (b : ℕ) (v : Block β) : Agrees F b v v := by
  unfold Agrees; split <;> rfl

lemma LogOk.old (h : LogOk F n c v) : LogOld F n c v := fun q r hr => (h q r hr).1

lemma LogOld.next (h : LogOld F n c v) : LogOk F (n + 1) c v := by
  intro q r hr
  have := h q r hr
  exact ⟨by omega, fun he => absurd he (by omega)⟩

lemma logOk_of_not_log (h : ∀ l, v ≠ .log l) : LogOk F n c v := by
  intro q r hr
  rw [Block.recordIsLive_eq_some] at hr
  exact absurd hr (h _)

lemma logOk_sealRecord {r : Record} (h : RecordOk F c r) :
    LogOk F n c (sealRecord (F.journalStart + c) n r) := by
  intro q r' hr
  rw [Block.recordIsLive_eq_some] at hr
  cases hr
  exact ⟨le_rfl, fun _ => h⟩

lemma logOld_sealRecord {r : Record} : LogOld F n c (sealRecord (F.journalStart + c) n r) := by
  intro q r' hr
  rw [Block.recordIsLive_eq_some] at hr
  cases hr
  exact le_rfl

lemma commitAt_lt (hs : ts.length ≤ txnMaxTargets) : commitAt ts rs < F.journalBlocks := by
  have := F.journalBlocks_ge
  unfold commitAt txnMaxTargets at *
  split <;> omega

lemma HomeHolds.crash (h : HomeHolds F content d) (w : Bool) (keep : List Bool) :
    HomeHolds F content (fresh w (d.crash keep)) := fun b v hb hv => (h b v hb hv).crash keep w

lemma Idle.crash (h : Idle F n content d) (w : Bool) (keep : List Bool) :
    Idle F n content (fresh w (d.crash keep)) where
  tail := h.tail.crash keep w
  log c h1 hc := (h.log c h1 hc).crash keep w
  home := h.home.crash w keep
  primary := h.primary.crash keep w

variable {e : Disk β}

variable (F d e) in
/-- What a record of the log surely holds on `d`, it surely holds on `e`. -/
def LogKept : Prop := ∀ c P, 1 ≤ c → c < F.journalBlocks →
  d.Surely (F.journalStart + c) P → e.Surely (F.journalStart + c) P

lemma logKept_crash (w : Bool) (keep : List Bool) : LogKept F d (fresh w (d.crash keep)) :=
  fun _ _ _ _ h => h.crash keep w

lemma logKept_flush : LogKept F d d.flush := fun _ _ _ _ h => h.flush

lemma logKept_write (hb : ∀ c, c < F.journalBlocks → 1 ≤ c → F.journalStart + c ≠ b) :
    LogKept F d (d.write b v) := fun c _ h1 hc h => h.write_of_ne (hb c hc h1)

lemma Sealed.kept (h : Sealed F n t ts rs d) (hk : LogKept F d e) : Sealed F n t ts rs e := by
  have hroom := F.journalBlocks_ge
  have hlen : ts.length ≤ 24 := h.targets_len
  refine { h with
    descriptor := hk 1 _ le_rfl (by omega) h.descriptor
    image := fun i u hu => hk _ _ (by omega) ?_ (h.image i u hu)
    revoke := fun hr => hk _ _ (by omega) (by omega) (h.revoke hr) }
  have hi : i < ts.length := (List.getElem?_eq_some_iff.mp hu).1
  omega

lemma Replayable.kept (h : Replayable F n t ts rs content d) (hk : LogKept F d e)
    (hrest : ∀ b v, Home F b → t.image b = none → content b = some v → e.Surely b (Agrees F b · v))
    (hprimary : e.Surely 0 (IsPrimary (· = .dirty))) : Replayable F n t ts rs content e where
  toSealed := h.toSealed.kept hk
  commit := hk _ _ (by unfold commitAt; omega) (commitAt_lt h.targets_len) h.commit
  log c h1 hc := hk c _ h1 hc (h.log c h1 hc)
  rest := hrest
  resolved := h.resolved
  primary := hprimary

lemma Replayable.crash (h : Replayable F n t ts rs content d) (w : Bool) (keep : List Bool) :
    Replayable F n t ts rs content (fresh w (d.crash keep)) :=
  h.kept (logKept_crash w keep) (fun b v hb hi hv => (h.rest b v hb hi hv).crash keep w)
    (h.primary.crash keep w)

variable {contents : Set (ℕ → Option (Block β))}

lemma Idle.safe (h : Idle F n content d) (hm : content ∈ contents) : Safe F contents d :=
  fun w keep => ⟨content, hm, .inl ⟨n, h.crash w keep⟩⟩

lemma Pending.safe (h : Pending F n t ts rs content d)
    (hm : content ∈ contents) : Safe F contents d :=
  fun w keep => ⟨content, hm, .inr ⟨n, t, ts, rs, h.toReplayable.crash w keep, h.tail.crash keep w⟩⟩

lemma Replayable.idle (h : Replayable F n t ts rs content d) (hh : HomeHolds F content d)
    (ht : d.Surely F.journalStart (· = journalSuper F (n + 1))) : Idle F (n + 1) content d where
  tail := ht
  log c h1 hc := (h.log c h1 hc).mono fun _ hv => hv.next
  home := hh
  primary := h.primary.mono fun _ ⟨s, hv, hl, hs⟩ => ⟨s, hv, hl, by simp [hs]⟩

lemma Retiring.safe (h : Retiring F n t ts rs content d)
    (hm : content ∈ contents) : Safe F contents d := by
  intro w keep
  have hr := h.toReplayable.crash w keep
  have ht := h.tail.crash keep w
  refine ⟨content, hm, ?_⟩
  -- the tail block kept one of its two values
  rcases ht _ (may_fresh_iff.mpr rfl) with he | he
  · exact .inr ⟨n, t, ts, rs, hr, fun v hv => (may_fresh_iff.mp hv).trans he⟩
  · exact .inl ⟨n + 1, hr.idle (h.home.crash w keep) fun v hv => (may_fresh_iff.mp hv).trans he⟩

lemma Ready.safe (h : Ready F n content d) (hm : content ∈ contents) : Safe F contents d := by
  rcases h with h | ⟨m, t, ts, rs, -, h⟩
  · exact h.safe hm
  · exact h.safe hm

lemma Ready.idle_of_settled (h : Ready F n content d) (hs : d.Settled F.journalStart) :
    Idle F n content d := by
  rcases h with h | ⟨m, t, ts, rs, rfl, h⟩
  · exact h
  · exact h.toReplayable.idle h.home (hs.surely h.tail_read)

lemma HomeHolds.flush (h : HomeHolds F content d) : HomeHolds F content d.flush :=
  fun b v hb hv => (h b v hb hv).flush

lemma Idle.flush (h : Idle F n content d) : Idle F n content d.flush where
  tail := h.tail.flush
  log c h1 hc := (h.log c h1 hc).flush
  home := h.home.flush
  primary := h.primary.flush

lemma Replayable.flush (h : Replayable F n t ts rs content d) :
    Replayable F n t ts rs content d.flush :=
  h.kept logKept_flush (fun b v hb hi hv => (h.rest b v hb hi hv).flush) h.primary.flush

lemma Pending.flush (h : Pending F n t ts rs content d) : Pending F n t ts rs content d.flush where
  toReplayable := h.toReplayable.flush
  tail := h.tail.flush

lemma Ready.flush (h : Ready F n content d) : Idle F n content d.flush := by
  rcases h with h | ⟨m, t, ts, rs, rfl, h⟩
  · exact h.flush
  · exact h.toReplayable.flush.idle h.home.flush (surely_flush h.tail_read)

lemma Pending.write_target (h : Pending F n t ts rs content d)
    (hl : F.targetIsLegal b = true) (hi : t.image b = some v) :
    Pending F n t ts rs content (d.write b v) := by
  have hlog : ∀ c, c < F.journalBlocks → F.journalStart + c ≠ b := fun c hc =>
    (Home.of_legal hl).ne_log hc
  have hroom := F.journalBlocks_ge
  have h0 : 0 ≠ b := fun he => (Home.of_legal hl).1 he.symm
  refine ⟨h.kept (logKept_write fun c hc _ => hlog c hc) ?_ (h.primary.write_of_ne h0), ?_⟩
  · intro b' v' hb' hi' hv'
    refine (h.rest b' v' hb' hi' hv').write_of_ne ?_
    rintro rfl
    rw [hi] at hi'; cases hi'
  · exact h.tail.write_of_ne (by simpa using hlog 0 (by omega))

lemma Idle.write_log (h : Idle F n content d) (h1 : 1 ≤ c) (hc : c < F.journalBlocks)
    (hv : LogOk F n c v) : Idle F n content (d.write (F.journalStart + c) v) where
  tail := h.tail.write_of_ne (by omega)
  log c' h1' hc' := (h.log c' h1' hc').write fun he => by
    have : c' = c := by omega
    exact this ▸ hv
  home b w hb hw := (h.home b w hb hw).write_of_ne (hb.ne_log hc).symm
  primary := h.primary.write_of_ne (by have := F.journalStart_pos; omega)

lemma Pending.home_flush (h : Pending F n t ts rs content d)
    (hdone : ∀ u ∈ ts, u.target ∉ rs → t.image u.target = some (d.read u.target)) :
    HomeHolds F content d.flush := by
  intro b v hb hv
  refine surely_flush ?_
  rcases hi : t.image b with _ | w
  · exact (h.rest b v hb hi hv).read
  obtain ⟨rfl, hnr⟩ := h.resolved b w v hi hv
  obtain ⟨u, hu, rfl⟩ := h.covers b _ hi
  have := hdone u hu hnr
  rw [hi, Option.some.injEq] at this
  exact this ▸ agrees_refl F _ _

lemma Pending.advance (h : Pending F n t ts rs content d) (hh : HomeHolds F content d) :
    Retiring F n t ts rs content (d.write F.journalStart (journalSuper F (n + 1))) := by
  have hroom := F.journalBlocks_ge
  have hhome : ∀ b, Home F b → b ≠ F.journalStart := fun b hb =>
    fun he => hb.ne_log (c := 0) (by omega) (by omega)
  refine ⟨h.kept (logKept_write (by omega)) ?_ ?_, ?_, ?_, ?_⟩
  · exact fun b v hb hi hv => (h.rest b v hb hi hv).write_of_ne (hhome b hb)
  · exact h.primary.write_of_ne (by have := F.journalStart_pos; omega)
  · exact fun b v hb hv => (hh b v hb hv).write_of_ne (hhome b hb)
  · exact (h.tail.mono fun _ hv => .inl hv).write fun _ => .inr rfl
  · simp [read_write]

structure Loaded (F : Format β) (n : ℕ) (j : Log) : Prop where
  loaded : j.loaded = true
  start : j.start = F.journalStart
  blocks : j.blocks = F.journalBlocks
  next : j.nextSequence = n

variable {j : Log}

lemma redirect_of_closed (h : j.isOpen = false) (b : ℕ) : j.redirect b = b := by
  simp [Log.redirect, h]

lemma parseTargets_records (hlegal : ∀ u ∈ ts, F.targetIsLegal u.target = true) :
    ∀ acc : List (ℕ × ℕ), acc.length + ts.length ≤ txnMaxTargets →
      parseTargets F.toGeometry acc (descriptorRecords ts) =
        .ok (acc ++ ts.map fun u => (u.target, u.checksum)) := by
  have hbs := F.blockSize_ge
  have hne : ∀ u ∈ ts, u.target ≠ 0 := fun u hu => (Home.of_legal (hlegal u hu)).1
  induction ts using descriptorRecords.induct with
  | case1 =>
    intro acc hlen
    have : ¬ F.blockSize < 24 + acc.length * 16 + 16 := by
      unfold txnMaxTargets at hlen; simp at hlen; omega
    simp [descriptorRecords, parseTargets, this]
  | case2 u =>
    intro acc hlen
    unfold txnMaxTargets at hlen
    simp only [length_singleton] at hlen
    have h1 : ¬ F.blockSize < 24 + acc.length * 16 + 16 := by omega
    have h2 : ¬ txnMaxTargets ≤ acc.length := by unfold txnMaxTargets; omega
    simp [descriptorRecords, parseTargets, h1, h2, hne u (by simp), hlegal u (by simp)]
  | case3 u us hus ih =>
    intro acc hlen
    unfold txnMaxTargets at hlen
    simp only [length_cons] at hlen
    have h1 : ¬ F.blockSize < 24 + acc.length * 16 + 16 := by omega
    have h2 : ¬ txnMaxTargets ≤ acc.length := by unfold txnMaxTargets; omega
    have hrec := ih (fun w hw => hlegal w (by simp [hw])) (fun w hw => hne w (by simp [hw]))
      (acc ++ [(u.target, u.checksum)]) (by simp [txnMaxTargets]; omega)
    rw [descriptorRecords.eq_3 u us hus]
    simp [parseTargets, h1, h2, hne u (by simp), hlegal u (by simp), hrec]

lemma parseDescriptor_records (hlegal : ∀ u ∈ ts, F.targetIsLegal u.target = true)
    (hlen : ts.length ≤ txnMaxTargets) :
    parseDescriptor F.toGeometry (descriptorRecords ts) =
      .ok (ts.map fun u => (u.target, u.checksum)) := by
  simpa [parseDescriptor] using parseTargets_records hlegal [] (by simpa using hlen)

lemma parseRevoke_ok (hlegal : ∀ b ∈ rs, F.targetIsLegal b = true)
    (hlen : rs.length ≤ txnMaxRevokes) : parseRevoke F.toGeometry rs = .ok rs := by
  have hbs := F.blockSize_ge
  unfold txnMaxRevokes at hlen
  have h1 : ¬ (txnMaxRevokes < rs.length ∨ F.blockSize < 32 + rs.length * 8) := by
    unfold txnMaxRevokes; omega
  rw [parseRevoke, if_neg h1, if_pos (all_eq_true.mpr hlegal)]

variable {C : Disk β → Prop} {Q : Except Err (Option (List ℕ)) → Disk β → Prop}

lemma scanCommit_idle {k : ℕ}
    (hj : Loaded F n j) (hi : Idle F n content d) (hC : C d) (hQ : Q (.ok none) d) :
    ∀ left cursor revokes, 2 ≤ cursor → cursor + left ≤ F.journalBlocks →
      (scanCommit F.toGeometry j k left cursor revokes).wp C Q d := by
  intro left
  induction left with
  | zero => intro cursor revokes _ _; exact ⟨hC, hQ⟩
  | succ left ih =>
    intro cursor revokes h2 hle
    have hok := (hi.log cursor (by omega) (by omega)).read
    simp only [scanCommit, wp_bind, wp_readBlock, hj.start, hj.next]
    refine ⟨hC, ?_⟩
    rcases hr : (d.read (F.journalStart + cursor)).recordIsLive (F.journalStart + cursor) n
      with _ | r
    · exact ⟨hC, hQ⟩
    have hrec := (hok n r hr).2 rfl
    cases r with
    | descriptor records => exact absurd hrec.1 (by omega)
    | commit | unknown => exact hrec.elim
    | revoke blocks =>
      simp only [hrec.2]
      exact ih _ _ (by omega) (by omega)

lemma recordIsLive_sealRecord (block q : ℕ) (r : Record) :
    (sealRecord block q r : Block β).recordIsLive block q = some r := by
  simp [sealRecord, Block.recordIsLive]

lemma scanCommit_pending (hj : Loaded F n j) (hp : Pending F n t ts rs content d) (hC : C d)
    (hQ : Q (.ok (some rs)) d) :
    (scanCommit F.toGeometry j ts.length (F.journalBlocks - (2 + ts.length)) (2 + ts.length)
      []).wp C Q d := by
  have hroom := F.journalBlocks_ge
  have hlen : ts.length ≤ 24 := hp.targets_len
  obtain ⟨left, hleft⟩ : ∃ left, F.journalBlocks - (2 + ts.length) = left + 2 :=
    ⟨F.journalBlocks - (2 + ts.length) - 2, by omega⟩
  have hcommit := hp.commit.read
  rw [hleft]
  simp only [scanCommit, wp_bind, wp_readBlock, hj.start, hj.next]
  refine ⟨hC, ?_⟩
  by_cases hrs : rs.length = 0
  · have hat : commitAt ts rs = 2 + ts.length := by simp [commitAt, hrs]
    obtain rfl : rs = [] := length_eq_zero_iff.mp hrs
    rw [hat] at hcommit
    rw [hcommit, recordIsLive_sealRecord]
    simpa using ⟨hC, hQ⟩
  have hat : commitAt ts rs = 2 + ts.length + 1 := by simp [commitAt, hrs]
  rw [hat] at hcommit
  rw [(hp.revoke hrs).read, recordIsLive_sealRecord]
  simp only [parseRevoke_ok hp.revokes_legal hp.revokes_len, wp_bind, wp_readBlock]
  refine ⟨hC, ?_⟩
  rw [hcommit, recordIsLive_sealRecord]
  simpa using ⟨hC, hQ⟩

lemma replayImages_pending (hj : Loaded F n j) (hC : ∀ e, Pending F n t ts rs content e → C e) :
    ∀ us pre applied (d : Disk β), ts = pre ++ us → Pending F n t ts rs content d →
      (∀ u ∈ pre, u.target ∉ rs → t.image u.target = some (d.read u.target)) →
      (replayImages F j rs pre.length applied (us.map fun u => (u.target, u.checksum))).wp C
        (fun r e => (∃ k, r = .ok k) ∧ Pending F n t ts rs content e ∧
          ∀ u ∈ ts, u.target ∉ rs → t.image u.target = some (e.read u.target)) d := by
  intro us
  induction us with
  | nil =>
    intro pre applied d hts hp hdone
    obtain rfl : pre = ts := by simpa using hts.symm
    exact ⟨hC d hp, ⟨applied, rfl⟩, hp, hdone⟩
  | cons u us ih =>
    intro pre applied d hts hp hdone
    have hts' : ts = (pre ++ [u]) ++ us := by simp [hts]
    have hlen : (pre ++ [u]).length = pre.length + 1 := by simp
    simp only [map_cons, replayImages]
    split
    · rename_i hrev
      rw [← hlen]
      refine ih (pre ++ [u]) applied d hts' hp ?_
      intro w hw hnr
      rcases mem_append.mp hw with hw | hw
      · exact hdone w hw hnr
      · rw [mem_singleton.mp hw] at hnr
        exact absurd hrev hnr
    have hget : ts[pre.length]? = some u := by rw [hts]; simp
    have himg := (hp.image pre.length u hget).read
    have hblock : j.imageBlock pre.length = F.journalStart + (2 + pre.length) := by
      rw [Log.imageBlock, hj.start]; omega
    simp only [wp_bind, wp_readBlock, hblock]
    refine ⟨hC d hp, ?_⟩
    rw [if_neg (by simpa using himg.2)]
    simp only [wp_bind, wp_writeBlock]
    have hu : u ∈ ts := by simp [hts]
    have hp' := hp.write_target (hp.targets_legal u hu) himg.1
    refine ⟨hC d hp, hC _ hp', ?_⟩
    rw [← hlen]
    refine ih (pre ++ [u]) (applied + 1) _ hts' hp' ?_
    intro w hw hnr
    rw [read_write]
    split
    · rename_i he; rw [he]; exact himg.1
    rename_i hne
    rcases mem_append.mp hw with hw | hw
    · exact hdone w hw hnr
    · exact absurd (by rw [mem_singleton.mp hw]) hne

variable {vol : Volume}

lemma journalLoad_ok {Q : Except Err Volume → Disk β → Prop}
    (hopen : vol.journal.isOpen = false) (htail : d.read F.journalStart = journalSuper F n)
    (hC : C d)
    (hQ : Q (.ok { vol with
      journal := vol.journal.load F.journalStart
        ⟨F.journalStart, F.blockSize, F.journalBlocks, n, 1⟩ }) d) :
    (journalLoad F vol).wp C Q d := by
  have hroom := F.journal_room
  have hpos : F.journalBlocks ≠ 0 := by have := F.journalBlocks_ge; omega
  simp only [journalLoad, if_neg hpos, readThrough, redirect_of_closed hopen, wp_bind, wp_readBlock]
  refine ⟨hC, ?_⟩
  rw [htail]
  simp only [journalSuper, ne_eq, not_true_eq_false, if_false, if_neg (not_lt.mpr hroom)]
  exact ⟨hC, hQ⟩

lemma journalReplay_recoverable (hj : Loaded F n vol.journal)
    (hd : Idle F n content d ∨ ∃ t ts rs, Pending F n t ts rs content d) :
    (journalReplay F vol).wp (Safe F {content})
      (fun r e => ∃ m k, r = .ok (vol.atSequence m, k) ∧ Ready F m content e) d := by
  have hdesc : vol.journal.descriptorBlock = F.journalStart + 1 := by
    rw [Log.descriptorBlock, hj.start]
  have hroom := F.journalBlocks_ge
  simp only [journalReplay, wp_bind, wp_readBlock, hdesc, hj.next]
  rcases hd with hi | ⟨t, ts, rs, hp⟩
  · have hsafe : Safe F {content} d := hi.safe rfl
    have hdone : ∃ m k, (Except.ok (vol, 0) : Except Err (Volume × ℕ)) =
        .ok (vol.atSequence m, k) ∧ Ready F m content d := ⟨n, 0, by rw [← hj.next]; rfl, .inl hi⟩
    refine ⟨hsafe, ?_⟩
    rcases hr : (d.read (F.journalStart + 1)).recordIsLive (F.journalStart + 1) n with _ | r
    · exact ⟨hsafe, hdone⟩
    have hrec := ((hi.log 1 le_rfl (by omega)).read n r hr).2 rfl
    cases r with
    | commit | unknown => exact hrec.elim
    | revoke blocks => exact absurd rfl hrec.1
    | descriptor records =>
      obtain ⟨targets, hparse⟩ := hrec.2
      simp only [hparse, wp_bind, hj.blocks]
      by_cases hle : 2 + targets.length ≤ F.journalBlocks
      · exact scanCommit_idle hj hi hsafe ⟨hsafe, hdone⟩ _ _ _ (by omega) (by omega)
      · rw [Nat.sub_eq_zero_of_le (by omega)]
        exact ⟨hsafe, hsafe, hdone⟩
  · have hsafe : Safe F {content} d := hp.safe rfl
    refine ⟨hsafe, ?_⟩
    rw [hp.descriptor.read, recordIsLive_sealRecord]
    simp only [parseDescriptor_records hp.targets_legal hp.targets_len, length_map, wp_bind,
      hj.blocks]
    refine scanCommit_pending hj hp hsafe ?_
    simp only [wp_bind]
    have himages := replayImages_pending (C := Safe F {content}) hj
      (fun e he => he.safe rfl) ts [] 0 d rfl hp (by simp)
    refine wp_mono himages (fun _ h => h) ?_
    rintro r e ⟨⟨k, rfl⟩, hpe, hdone⟩
    have hflush := hpe.flush
    have hret := hflush.advance (hpe.home_flush hdone)
    simp only [replayRetire, wp_bind, wp_flushBlocks, wp_writeBlock, wp_pure, hj.start, hj.next]
    exact ⟨hpe.safe rfl, hflush.safe rfl, hflush.safe rfl, hret.safe rfl, hret.safe rfl,
      n + 1, k, rfl, .inr ⟨n, t, ts, rs, rfl, hret⟩⟩

lemma Recoverable.cases (h : Recoverable F content d) :
    ∃ n, d.read F.journalStart = journalSuper F n ∧
      (Idle F n content d ∨ ∃ t ts rs, Pending F n t ts rs content d) := by
  rcases h with ⟨n, h⟩ | ⟨n, t, ts, rs, h⟩
  · exact ⟨n, h.tail.read, .inl h⟩
  · exact ⟨n, h.tail.read, .inr ⟨t, ts, rs, h⟩⟩

lemma Recoverable.safe (h : Recoverable F content d) : Safe F {content} d := by
  rcases h with ⟨n, h⟩ | ⟨n, t, ts, rs, h⟩
  · exact h.safe rfl
  · exact h.safe rfl

lemma loadAndReplay_recoverable (hopen : vol.journal.isOpen = false)
    (hd : Recoverable F content d) :
    (loadAndReplay F vol).wp (Safe F {content})
      (fun r e => ∃ vol' k, r = .ok (vol', k) ∧ Ready F vol'.journal.nextSequence content e) d := by
  obtain ⟨n, htail, hcases⟩ := hd.cases
  simp only [loadAndReplay, wp_bind]
  refine journalLoad_ok hopen htail hd.safe ?_
  refine wp_mono (journalReplay_recoverable ⟨rfl, rfl, rfl, rfl⟩ hcases) (fun _ h => h) ?_
  rintro r e ⟨m, k, rfl, hready⟩
  exact ⟨_, k, rfl, hready⟩

end Wfs.Journal
