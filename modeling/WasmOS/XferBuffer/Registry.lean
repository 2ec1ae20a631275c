import WasmOS.Forest.Cascade

/-! # The transfer-buffer registry

Objects with one owner each, and borrows of them linked into a forest by borrow ids, in slot lists
whose dead slots are reused. A call that fails leaves the registry as it was, so the calls return it
only on success. A host call resolves its handle into a binding of the caller's own; the kernel's
own callers pass bindings they kept, which may be stale.
-/

namespace XferBuffer

open Forest

/-- `BUFFER_KIND_*`; any other code is `unknown`. -/
inductive Kind where
  | transfer
  | framebuffer
  | unknown
  deriving DecidableEq, Repr

/-- `WASMOS_ERR_XFER_BUFFER_*`, and the `WASMOS_ERR_DMA_*` codes of the DMA host calls. -/
inductive Err where
  | invalidKind
  | invalidContext
  | invalidSize
  | invalidFlags
  | capacityExceeded
  | noBacking
  | internal
  | notFound
  | notOwner
  | noAccess
  | sameOwner
  | kindNotTransferable
  | kindNotBorrowable
  | selfBorrow
  | alreadyBorrowed
  | activeBorrows
  | inactiveBorrow
  | rightsAmplification
  | notReborrowable
  | range
  | direction
  | dmaActive
  | dmaMapped
  | inactiveMapping
  | dmaInvalid
  | dmaDeny
  | dmaRange
  | dmaAddrTooLarge
  deriving DecidableEq, Repr

def borrowRead : UInt32 := 1
def borrowWrite : UInt32 := 2
def dmaToDevice : UInt32 := 1
def dmaFromDevice : UInt32 := 2
def transferMaxSize : UInt32 := 16 * 1024 * 1024
def pageSize : UInt32 := 4096

structure Dma where
  active : Bool := false
  offset : UInt32 := 0
  length : UInt32 := 0
  directionFlags : UInt32 := 0
  deriving DecidableEq, Repr

structure ObjectSlot where
  active : Bool
  kind : Kind
  bufferId : UInt32
  sizeBytes : UInt32
  ownerContextId : UInt32
  physBase : UInt64
  dma : Dma
  deriving DecidableEq, Repr

structure BorrowSlot where
  active : Bool
  borrowId : UInt32
  parentBorrowId : UInt32
  bufferId : UInt32
  kind : Kind
  lenderContextId : UInt32
  borrowerContextId : UInt32
  flags : UInt32
  dma : Dma
  deriving DecidableEq, Repr

structure Buffer where
  kind : Kind
  bufferId : UInt32
  sizeBytes : UInt32
  deriving DecidableEq, Repr

structure Owner where
  buffer : Buffer
  ownerContextId : UInt32

structure Borrow where
  buffer : Buffer
  lenderContextId : UInt32
  borrowerContextId : UInt32
  flags : UInt32
  borrowId : UInt32

structure DmaMapping where
  buffer : Buffer
  ownerContextId : UInt32
  borrowId : UInt32
  offset : UInt32
  length : UInt32
  directionFlags : UInt32
  deviceAddr : UInt64
  attachedViaBorrow : Bool
  active : Bool
  deriving DecidableEq, Repr

structure Registry where
  objects : List ObjectSlot
  borrows : List BorrowSlot
  nextBufferId : UInt32
  nextBorrowId : UInt32
  deriving DecidableEq, Repr

def Registry.empty : Registry := ⟨[], [], 1, 1⟩

/-- The recorded framebuffer, the page allocator, and whether a slot list can still grow. -/
structure Host where
  framebuffer : Option (UInt64 × UInt64)
  allocPages : UInt64 → UInt64
  grow : Bool

def validFlags (flags : UInt32) : Bool :=
  flags != 0 && flags &&& (borrowRead ||| borrowWrite) == flags

/-- The borrows form a forest: borrow ids are issued from 1, so parent 0 is the owner. -/
def borrowLinks : Forest.Links BorrowSlot UInt32 where
  live b := b.active
  key b := b.borrowId
  parent b := b.parentBorrowId
  root := 0
  retire b := { b with active := false, dma := { b.dma with active := false } }
  live_retire _ := rfl

def ObjectSlot.isBuffer (buffer : Buffer) (o : ObjectSlot) : Bool :=
  o.active && o.bufferId == buffer.bufferId && o.kind == buffer.kind

def ObjectSlot.hasId (bufferId : UInt32) (o : ObjectSlot) : Bool :=
  o.active && o.bufferId == bufferId

def ObjectSlot.buffer (o : ObjectSlot) : Buffer := ⟨o.kind, o.bufferId, o.sizeBytes⟩

def BorrowSlot.hasId (borrowId : UInt32) (b : BorrowSlot) : Bool :=
  b.active && b.borrowId == borrowId

def BorrowSlot.isFor (bufferId borrowerContextId : UInt32) (b : BorrowSlot) : Bool :=
  b.active && b.bufferId == bufferId && b.borrowerContextId == borrowerContextId

def BorrowSlot.isOf (bufferId : UInt32) (b : BorrowSlot) : Bool :=
  b.active && b.bufferId == bufferId

namespace Registry

variable (r : Registry)

def objectFind (buffer : Buffer) : Option ObjectSlot :=
  if buffer.bufferId = 0 then none else r.objects.find? (·.isBuffer buffer)

def objectFindById (bufferId : UInt32) : Option ObjectSlot :=
  if bufferId = 0 then none else r.objects.find? (·.hasId bufferId)

def borrowFind (borrowId : UInt32) : Option BorrowSlot :=
  if borrowId = 0 then none else r.borrows.find? (·.hasId borrowId)

def borrowFindFor (bufferId borrowerContextId : UInt32) : Option BorrowSlot :=
  r.borrows.find? (·.isFor bufferId borrowerContextId)

def objectHasActiveBorrow (bufferId : UInt32) : Bool := r.borrows.any (·.isOf bufferId)

end Registry

def objectRevokeAllBorrows (bufferId : UInt32) (borrows : List BorrowSlot) : List BorrowSlot :=
  retireAll borrowLinks (·.bufferId == bufferId) borrows

/-- `none` is a recursion deeper than there are slots. -/
def borrowRevokeTree (borrowId : UInt32) (borrows : List BorrowSlot) : Option (List BorrowSlot) :=
  revokeTree borrowLinks (borrows.length + 1) borrowId borrows

def revokeWhere (p : BorrowSlot → Bool) (borrows : List BorrowSlot) : Option (List BorrowSlot) :=
  sweep borrowLinks p borrowRevokeTree (List.range borrows.length) borrows

def framebufferCapacity (host : Host) : UInt32 :=
  match host.framebuffer with
  | none => 0
  | some (_, size) => if size > 0xFFFFFFFF then 0xFFFFFFFF else size.toUInt32

def objectAllocBacking (host : Host) (kind : Kind) (sizeBytes : UInt32) : UInt64 :=
  match kind with
  | .transfer =>
    host.allocPages ((sizeBytes.toUInt64 + pageSize.toUInt64 - 1) / pageSize.toUInt64)
  | .framebuffer =>
    match host.framebuffer with
    | none => 0
    | some (base, _) => base
  | .unknown => 0

def rangeWithin (size offset length : UInt32) : Bool :=
  if length = 0 ∨ offset > size then false else length ≤ size - offset

def dmaDirectionAllowed (flags directionFlags : UInt32) : Bool :=
  if directionFlags = 0 then false
  else if directionFlags &&& dmaToDevice ≠ 0 ∧ flags &&& borrowRead = 0 then false
  else if directionFlags &&& dmaFromDevice ≠ 0 ∧ flags &&& borrowWrite = 0 then false
  else true

namespace Registry

/-- The object a new acquisition gets: whole framebuffer, or the request in whole pages. -/
def acquireSize (host : Host) (kind : Kind) (minimumSize : UInt32) : Except Err UInt32 :=
  match kind with
  | .framebuffer =>
    let size := framebufferCapacity host
    if size = 0 then .error .noBacking
    else if minimumSize > size then .error .capacityExceeded
    else .ok size
  | _ =>
    if minimumSize > transferMaxSize then .error .capacityExceeded
    else .ok ((minimumSize + (pageSize - 1)) &&& ~~~(pageSize - 1))

variable (r : Registry)

def acquire (host : Host) (kind : Kind) (ownerContextId minimumSize : UInt32) :
    Except Err (Owner × Registry) :=
  if kind = .unknown then .error .invalidKind
  else if ownerContextId = 0 then .error .invalidContext
  else if minimumSize = 0 then .error .invalidSize
  else
    match acquireSize host kind minimumSize with
    | .error e => .error e
    | .ok size =>
      let physBase := objectAllocBacking host kind size
      if physBase = 0 ∨ physBase &&& (pageSize.toUInt64 - 1) ≠ 0 then .error .noBacking
      else
        match place ObjectSlot.active host.grow
          ⟨true, kind, r.nextBufferId, size, ownerContextId, physBase, {}⟩ r.objects with
        | none => .error .internal
        | some objects =>
          .ok (⟨⟨kind, r.nextBufferId, size⟩, ownerContextId⟩,
            { r with objects, nextBufferId := r.nextBufferId + 1 })

def getOwned (buffer : Buffer) (contextId : UInt32) : Except Err Owner :=
  if contextId = 0 then .error .invalidContext
  else
    match r.objectFind buffer with
    | none => .error .notFound
    | some o =>
      if o.ownerContextId ≠ contextId then .error .notOwner
      else .ok ⟨o.buffer, contextId⟩

def releaseOwned (owner : Owner) : Except Err (Unit × Registry) :=
  match r.objectFind owner.buffer with
  | none => .error .notFound
  | some o =>
    if o.ownerContextId ≠ owner.ownerContextId then .error .notOwner
    else if o.dma.active then .error .dmaMapped
    else .ok ((), { r with
      borrows := objectRevokeAllBorrows o.bufferId r.borrows
      objects := updateFirst (·.isBuffer owner.buffer) ({ · with active := false })
        r.objects })

def transferOwnership (currentOwner : Owner) (newOwnerContextId : UInt32) :
    Except Err (Unit × Registry) :=
  match r.objectFind currentOwner.buffer with
  | none => .error .notFound
  | some o =>
    if o.ownerContextId ≠ currentOwner.ownerContextId then .error .notOwner
    else if newOwnerContextId = 0 then .error .invalidContext
    else if newOwnerContextId = currentOwner.ownerContextId then .error .sameOwner
    else if o.kind ≠ .transfer then .error .kindNotTransferable
    else if r.objectHasActiveBorrow o.bufferId then .error .activeBorrows
    else .ok ((), { r with
      objects := updateFirst (·.isBuffer currentOwner.buffer)
        ({ · with ownerContextId := newOwnerContextId }) r.objects })

variable (grow : Bool)

def attachBorrow (object : ObjectSlot)
    (parentBorrowId lenderContextId borrowerContextId flags : UInt32) :
    Except Err (Borrow × Registry) :=
  match place BorrowSlot.active grow
    ⟨true, r.nextBorrowId, parentBorrowId, object.bufferId, object.kind, lenderContextId,
      borrowerContextId, flags, {}⟩ r.borrows with
  | none => .error .internal
  | some borrows =>
    .ok (⟨object.buffer, lenderContextId, borrowerContextId, flags, r.nextBorrowId⟩,
      { r with borrows, nextBorrowId := r.nextBorrowId + 1 })

def borrow (owner : Owner) (borrowerContextId flags : UInt32) :
    Except Err (Borrow × Registry) :=
  if borrowerContextId = 0 then .error .invalidContext
  else if !validFlags flags then .error .invalidFlags
  else
    match r.objectFind owner.buffer with
    | none => .error .notFound
    | some o =>
      if o.ownerContextId ≠ owner.ownerContextId then .error .notOwner
      else if o.kind = .framebuffer ∧ borrowerContextId ≠ o.ownerContextId then
        .error .kindNotBorrowable
      else if o.kind ≠ .framebuffer ∧ borrowerContextId = o.ownerContextId then
        .error .selfBorrow
      else if (r.borrowFindFor o.bufferId borrowerContextId).isSome then .error .alreadyBorrowed
      else r.attachBorrow grow o 0 o.ownerContextId borrowerContextId flags

def reborrow (upstream : Borrow) (borrowerContextId flags : UInt32) :
    Except Err (Borrow × Registry) :=
  if borrowerContextId = 0 then .error .invalidContext
  else if !validFlags flags then .error .invalidFlags
  else
    match r.borrowFind upstream.borrowId with
    | none => .error .inactiveBorrow
    | some up =>
      if flags &&& up.flags ≠ flags then .error .rightsAmplification
      else if up.kind = .framebuffer then .error .notReborrowable
      else
        match r.objectFindById up.bufferId with
        | none => .error .notFound
        | some object =>
          if (r.borrowFindFor up.bufferId borrowerContextId).isSome then .error .alreadyBorrowed
          else r.attachBorrow grow object up.borrowId up.borrowerContextId borrowerContextId flags

def unborrow (borrow : Borrow) : Option (Except Err (Unit × Registry)) :=
  match r.borrowFind borrow.borrowId with
  | none => some (.error .inactiveBorrow)
  | some b =>
    if b.dma.active then some (.error .dmaMapped)
    else (borrowRevokeTree b.borrowId r.borrows).map fun borrows =>
      .ok ((), { r with borrows })

/-- The mapping `xfer_buffer_get_borrowed` reports for a borrow: the active one, or
all zeroes. -/
def borrowMapping (b : BorrowSlot) (o : ObjectSlot) : DmaMapping :=
  if b.dma.active then
    ⟨o.buffer, 0, b.borrowId, b.dma.offset, b.dma.length, b.dma.directionFlags,
      o.physBase + b.dma.offset.toUInt64, true, true⟩
  else ⟨⟨.unknown, 0, 0⟩, 0, 0, 0, 0, 0, 0, false, false⟩

def getBorrowed (borrowId contextId : UInt32) : Except Err (Borrow × DmaMapping) :=
  if contextId = 0 then .error .invalidContext
  else
    match r.borrowFind borrowId with
    | none => .error .inactiveBorrow
    | some b =>
      if b.borrowerContextId ≠ contextId then .error .noAccess
      else
        match r.objectFindById b.bufferId with
        | none => .error .notFound
        | some o =>
          .ok (⟨⟨b.kind, b.bufferId, o.sizeBytes⟩, b.lenderContextId, b.borrowerContextId,
            b.flags, b.borrowId⟩, borrowMapping b o)

def getLent (borrowId lenderContextId : UInt32) : Except Err Borrow :=
  if lenderContextId = 0 then .error .invalidContext
  else
    match r.borrowFind borrowId with
    | none => .error .inactiveBorrow
    | some b =>
      if b.lenderContextId ≠ lenderContextId then .error .noAccess
      else
        match r.objectFindById b.bufferId with
        | none => .error .notFound
        | some o =>
          .ok ⟨⟨b.kind, b.bufferId, o.sizeBytes⟩, b.lenderContextId, b.borrowerContextId,
            b.flags, b.borrowId⟩

def canAccess (buffer : Buffer) (accessorContextId requestedFlags : UInt32) : Bool :=
  match r.objectFind buffer with
  | none => false
  | some o =>
    if accessorContextId = 0 || !validFlags requestedFlags then false
    else if o.ownerContextId = accessorContextId then true
    else
      match r.borrowFindFor o.bufferId accessorContextId with
      | none => false
      | some b => b.flags &&& requestedFlags == requestedFlags

def dmaMapOwned (owner : Owner) (offset length directionFlags : UInt32) :
    Except Err (DmaMapping × Registry) :=
  match r.objectFind owner.buffer with
  | none => .error .notFound
  | some o =>
    if o.ownerContextId ≠ owner.ownerContextId then .error .notOwner
    else if !rangeWithin o.sizeBytes offset length then .error .range
    else if directionFlags = 0 then .error .direction
    else if o.dma.active then .error .dmaActive
    else .ok (⟨o.buffer, o.ownerContextId, 0, offset, length, directionFlags,
        o.physBase + offset.toUInt64, false, true⟩, { r with
        objects := updateFirst (·.isBuffer owner.buffer)
          ({ · with dma := ⟨true, offset, length, directionFlags⟩ }) r.objects })

def dmaMapBorrow (borrow : Borrow) (offset length directionFlags : UInt32) :
    Except Err (DmaMapping × Registry) :=
  match r.borrowFind borrow.borrowId with
  | none => .error .inactiveBorrow
  | some b =>
    match r.objectFindById b.bufferId with
    | none => .error .notFound
    | some o =>
      if !rangeWithin o.sizeBytes offset length then .error .range
      else if !dmaDirectionAllowed b.flags directionFlags then .error .direction
      else if b.dma.active then .error .dmaActive
      else .ok (⟨o.buffer, 0, b.borrowId, offset, length, directionFlags,
          o.physBase + offset.toUInt64, true, true⟩, { r with
          borrows := updateFirst (·.hasId borrow.borrowId)
            ({ · with dma := ⟨true, offset, length, directionFlags⟩ }) r.borrows })

def dmaUnmap (mapping : DmaMapping) : Except Err (Unit × Registry) :=
  if !mapping.active then .error .inactiveMapping
  else if mapping.attachedViaBorrow then
    match r.borrowFind mapping.borrowId with
    | none => .ok ((), r)
    | some _ => .ok ((), { r with
        borrows := updateFirst (·.hasId mapping.borrowId)
          (fun b => { b with dma := { b.dma with active := false } }) r.borrows })
  else
    match r.objectFindById mapping.buffer.bufferId with
    | none => .ok ((), r)
    | some _ => .ok ((), { r with
        objects := updateFirst (·.hasId mapping.buffer.bufferId)
          (fun o => { o with dma := { o.dma with active := false } }) r.objects })

/-- The second pass of `xfer_buffer_drop_context`. -/
def dropObjects (contextId : UInt32) :
    List ObjectSlot → List BorrowSlot → Option (List ObjectSlot × List BorrowSlot)
  | [], borrows => some ([], borrows)
  | o :: objects, borrows =>
    if o.active && o.ownerContextId == contextId then do
      let borrows ← revokeWhere (·.isOf o.bufferId) borrows
      let (objects, borrows) ← dropObjects contextId objects borrows
      pure ({ o with active := false } :: objects, borrows)
    else do
      let (objects, borrows) ← dropObjects contextId objects borrows
      pure (o :: objects, borrows)

def dropContext (contextId : UInt32) : Option Registry :=
  if contextId = 0 then some r
  else do
    let borrows ← revokeWhere (fun b => b.active &&
      (b.lenderContextId == contextId || b.borrowerContextId == contextId)) r.borrows
    let (objects, borrows) ← dropObjects contextId r.objects borrows
    pure { r with objects, borrows }

end Registry

inductive Call where
  | acquire (host : Host) (kind : Kind) (ownerContextId minimumSize : UInt32)
  | releaseOwned (owner : Owner)
  | transferOwnership (currentOwner : Owner) (newOwnerContextId : UInt32)
  | borrow (grow : Bool) (owner : Owner) (borrowerContextId flags : UInt32)
  | reborrow (grow : Bool) (upstream : Borrow) (borrowerContextId flags : UInt32)
  | unborrow (borrow : Borrow)
  | dmaMapOwned (owner : Owner) (offset length directionFlags : UInt32)
  | dmaMapBorrow (borrow : Borrow) (offset length directionFlags : UInt32)
  | dmaUnmap (mapping : DmaMapping)
  | dropContext (contextId : UInt32)

variable (r : Registry)

def Registry.after {α : Type} : Except Err (α × Registry) → Registry
  | .error _ => r
  | .ok (_, r') => r'

lemma after_of_ok {α : Type} {P : Registry → Prop} {r : Registry}
    {out : Except Err (α × Registry)} (h : P r) (hok : ∀ a r', out = .ok (a, r') → P r') :
    P (r.after out) := by
  cases out with
  | error => exact h
  | ok p => exact hok p.1 p.2 rfl

def Call.exec : Call → Option Registry
  | .acquire host kind owner size => some (r.after (r.acquire host kind owner size))
  | .releaseOwned owner => some (r.after (r.releaseOwned owner))
  | .transferOwnership owner new => some (r.after (r.transferOwnership owner new))
  | .borrow grow owner borrower flags => some (r.after (r.borrow grow owner borrower flags))
  | .reborrow grow up borrower flags => some (r.after (r.reborrow grow up borrower flags))
  | .unborrow lent => (r.unborrow lent).map r.after
  | .dmaMapOwned owner offset length dir => some (r.after (r.dmaMapOwned owner offset length dir))
  | .dmaMapBorrow b offset length dir => some (r.after (r.dmaMapBorrow b offset length dir))
  | .dmaUnmap mapping => some (r.after (r.dmaUnmap mapping))
  | .dropContext contextId => r.dropContext contextId

structure DmaPolicy where
  allows : Bool
  direction : UInt32 → Bool
  maxBytes : UInt32

/-- The host calls, with the caller's context and the answer of `ipc_endpoint_owner` for a grantee.
-/
inductive HostCall where
  | acquire (host : Host) (contextId : Option UInt32) (kind : Kind) (minimumSize : Int32)
  | borrow (grow : Bool) (contextId : Option UInt32) (kind : Kind) (grantee : Option UInt32)
      (bufferId flags : Int32)
  | reborrow (grow : Bool) (contextId : Option UInt32) (kind : Kind) (grantee : Option UInt32)
      (borrowId flags : Int32)
  | release (contextId : Option UInt32) (kind : Kind) (bufferId : Int32)
  | unborrow (contextId : Option UInt32) (borrowId : Int32)
  | dmaMapBorrow (contextId : Option UInt32) (policy : DmaPolicy)
      (borrowId offset length directionFlags : Int32)
  | dmaUnmapBorrow (contextId : Option UInt32) (policy : DmaPolicy) (borrowId : Int32)

/-- `current_process_context` -/
def callerContext : Option UInt32 → Except Err UInt32
  | none => .error .invalidContext
  | some contextId => .ok contextId

def granteeContext : Option UInt32 → Except Err UInt32
  | none => .error .invalidContext
  | some contextId => if contextId = 0 then .error .invalidContext else .ok contextId

def checkTransferKind (kind : Kind) : Except Err Unit :=
  if kind ≠ .transfer then .error .invalidKind else .ok ()

def checkGuestFlags (flags : Int32) : Except Err Unit :=
  if flags ≤ 0 ∨ flags &&& ~~~0x3 ≠ 0 then .error .invalidFlags else .ok ()

def HostCall.resolve : HostCall → Except Err Call
  | .acquire host contextId kind minimumSize => do
    checkTransferKind kind
    if minimumSize ≤ 0 then .error .invalidSize
    let contextId ← callerContext contextId
    .ok (.acquire host kind contextId minimumSize.toUInt32)
  | .borrow grow contextId kind grantee bufferId flags => do
    checkTransferKind kind
    if bufferId ≤ 0 then .error .notFound
    checkGuestFlags flags
    let contextId ← callerContext contextId
    let grantee ← granteeContext grantee
    let owner ← r.getOwned ⟨kind, bufferId.toUInt32, 0⟩ contextId
    .ok (.borrow grow owner grantee flags.toUInt32)
  | .reborrow grow contextId kind grantee borrowId flags => do
    checkTransferKind kind
    if borrowId ≤ 0 then .error .inactiveBorrow
    checkGuestFlags flags
    let contextId ← callerContext contextId
    let grantee ← granteeContext grantee
    let (upstream, _) ← r.getBorrowed borrowId.toUInt32 contextId
    .ok (.reborrow grow upstream grantee flags.toUInt32)
  | .release contextId kind bufferId => do
    checkTransferKind kind
    if bufferId ≤ 0 then .error .notFound
    let contextId ← callerContext contextId
    let owner ← r.getOwned ⟨kind, bufferId.toUInt32, 0⟩ contextId
    .ok (.releaseOwned owner)
  | .unborrow contextId borrowId => do
    if borrowId ≤ 0 then .error .inactiveBorrow
    let contextId ← callerContext contextId
    let lent ← r.getLent borrowId.toUInt32 contextId
    .ok (.unborrow lent)
  | .dmaMapBorrow contextId policy borrowId offset length directionFlags => do
    if borrowId ≤ 0 ∨ offset < 0 ∨ length ≤ 0 ∨ directionFlags ≤ 0 then .error .dmaInvalid
    match contextId with
    | none => .error .dmaDeny
    | some contextId =>
      if !policy.allows then .error .dmaDeny
      else
        match r.getBorrowed borrowId.toUInt32 contextId with
        | .error _ => .error .dmaDeny
        | .ok (held, _) =>
          if !policy.direction directionFlags.toUInt32 then .error .dmaDeny
          else if policy.maxBytes = 0 ∨ length.toUInt32 > policy.maxBytes then .error .dmaRange
          else .ok (.dmaMapBorrow held offset.toUInt32 length.toUInt32 directionFlags.toUInt32)
  | .dmaUnmapBorrow contextId policy borrowId => do
    if borrowId ≤ 0 then .error .dmaInvalid
    match contextId with
    | none => .error .dmaDeny
    | some contextId =>
      if !policy.allows then .error .dmaDeny
      else
        match r.getBorrowed borrowId.toUInt32 contextId with
        | .error _ => .error .dmaDeny
        | .ok (_, mapping) => .ok (.dmaUnmap mapping)

/-- A host call whose handle check and registry call see the same state, or a registry call with a
binding resolved earlier. -/
inductive Event where
  | host (call : HostCall)
  | kernel (call : Call)

def Event.call (r : Registry) : Event → Option Call
  | .host call => (call.resolve r).toOption
  | .kernel call => some call

def exec (r : Registry) (e : Event) : Option Registry :=
  match e.call r with
  | none => some r
  | some call => call.exec r

def run : Registry → List Event → Option Registry
  | r, [] => some r
  | r, e :: es => (exec r e).bind (run · es)

lemma run_append (es fs : List Event) : ∀ r, run r (es ++ fs) = (run r es).bind (run · fs) := by
  induction es with
  | nil => exact fun _ => rfl
  | cons e es ih =>
    intro r
    rw [List.cons_append, run, run]
    cases exec r e with
    | none => rfl
    | some r' => exact ih r'

def freePages : Host := ⟨none, fun _ => 0x10000, true⟩

end XferBuffer
