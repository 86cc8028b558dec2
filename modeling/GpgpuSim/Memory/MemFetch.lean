import Mathlib.Algebra.Group.Nat.Defs
import Mathlib.Logic.Function.Basic

/-! Memory requests. A request object is shared by every queue and table that
holds a pointer to it, so queues hold identities and the objects live in a pool. -/
namespace GpgpuSim.Memory

/-- `mem_access_type`. -/
inductive MemAccessType
  | globalAccR
  | localAccR
  | constAccR
  | textureAccR
  | globalAccW
  | localAccW
  | l1WrbkAcc
  | l2WrbkAcc
  | instAccR
  | l1WrAllocR
  | l2WrAllocR
  deriving DecidableEq, Repr, Inhabited

namespace MemAccessType

/-- The `wr` argument every access of the type is built with. -/
def isWrite : MemAccessType → Bool
  | globalAccW | localAccW | l1WrbkAcc | l2WrbkAcc => true
  | _ => false

/-- `GLOBAL_ACC_R` or `L2_WR_ALLOC_R`: what is sampled, translated and decompressed. -/
def isLineRead : MemAccessType → Bool
  | globalAccR | l2WrAllocR => true
  | _ => false

/-- `L1_WRBK_ACC` or `L2_WRBK_ACC`: what ends in `set_done`. -/
def isWriteBack : MemAccessType → Bool
  | l1WrbkAcc | l2WrbkAcc => true
  | _ => false

theorem not_isWriteBack_of_isLineRead {type : MemAccessType} (read : type.isLineRead = true) :
    type.isWriteBack = false := by
  cases type <;> simp_all [isLineRead, isWriteBack]

end MemAccessType

/-- The address of a request object: one that travels by itself, or the whole
request that a sub partition has split into sector requests. -/
inductive MfId
  | request (serial : Nat)
  | original (serial : Nat)
  deriving DecidableEq, Repr

namespace MfId

def serial : MfId → Nat
  | request serial | original serial => serial

end MfId

/-- `mem_fetch`, with the fields that decide where a request goes and what it
asks for. -/
structure MemFetch where
  accessType : MemAccessType
  addr : Nat
  dataSize : Nat
  subPartitionId : Nat
  chip : Nat
  sectorMask : BitVec 4 := 0
  byteMask : BitVec 128 := 0
  warpMask : BitVec 32 := 0
  isAtomic : Bool := false
  instUid : Nat := 0
  originalMf : Option Nat := none
  compressed : Bool := false
  originalAddr : Nat := 0
  metadataAddr : Nat := 0
  originalSize : Nat := 0
  isMetaDataRequest : Bool := false
  deriving DecidableEq, Repr, Inhabited

namespace MemFetch

def isWrite (mf : MemFetch) : Bool := mf.accessType.isWrite

def isLineRead (mf : MemFetch) : Bool := mf.accessType.isLineRead

def isWriteBack (mf : MemFetch) : Bool := mf.accessType.isWriteBack

def setAddr (addr : Nat) (mf : MemFetch) : MemFetch := { mf with addr }

def setDataSize (dataSize : Nat) (mf : MemFetch) : MemFetch := { mf with dataSize }

/-- What the constructor leaves of the compression fields. -/
def Fresh (mf : MemFetch) : Prop := mf.compressed = false ∧ mf.isMetaDataRequest = false

/-- What no stage of the partition changes. -/
structure SameRequest (mf before : MemFetch) : Prop where
  accessType : mf.accessType = before.accessType
  subPartitionId : mf.subPartitionId = before.subPartitionId
  isAtomic : mf.isAtomic = before.isAtomic

theorem SameRequest.refl (mf : MemFetch) : SameRequest mf mf := ⟨rfl, rfl, rfl⟩

theorem SameRequest.trans {a b c : MemFetch} (ab : SameRequest a b) (bc : SameRequest b c) :
    SameRequest a c :=
  ⟨ab.accessType.trans bc.accessType, ab.subPartitionId.trans bc.subPartitionId,
    ab.isAtomic.trans bc.isAtomic⟩

theorem SameRequest.symm {a b : MemFetch} (same : SameRequest a b) : SameRequest b a :=
  ⟨same.accessType.symm, same.subPartitionId.symm, same.isAtomic.symm⟩

theorem SameRequest.isLineRead {mf before : MemFetch} (same : SameRequest mf before) :
    mf.isLineRead = before.isLineRead := by
  unfold MemFetch.isLineRead
  rw [same.accessType]

theorem SameRequest.isWriteBack {mf before : MemFetch} (same : SameRequest mf before) :
    mf.isWriteBack = before.isWriteBack := by
  unfold MemFetch.isWriteBack
  rw [same.accessType]

end MemFetch

/-- The request objects; serial numbers from `nextSerial` on are not in use. -/
structure MfPool where
  get : MfId → MemFetch
  nextSerial : Nat

namespace MfPool

def modify (pool : MfPool) (mf : MfId) (change : MemFetch → MemFetch) : MfPool :=
  { pool with get := Function.update pool.get mf (change (pool.get mf)) }

def alloc (pool : MfPool) (fields : MemFetch) : MfId × MfPool :=
  (.request pool.nextSerial,
    { get := Function.update pool.get (.request pool.nextSerial) fields
      nextSerial := pool.nextSerial + 1 })

@[simp] theorem get_modify_self (pool : MfPool) (mf : MfId) (change : MemFetch → MemFetch) :
    (pool.modify mf change).get mf = change (pool.get mf) := by
  simp [modify]

theorem get_modify_of_ne (pool : MfPool) {mf other : MfId} (change : MemFetch → MemFetch)
    (apart : other ≠ mf) : (pool.modify mf change).get other = pool.get other := by
  simp [modify, apart]

@[simp] theorem nextSerial_modify (pool : MfPool) (mf : MfId) (change : MemFetch → MemFetch) :
    (pool.modify mf change).nextSerial = pool.nextSerial := rfl

@[simp] theorem get_alloc_self (pool : MfPool) (fields : MemFetch) :
    (pool.alloc fields).2.get (pool.alloc fields).1 = fields := by
  simp [alloc]

theorem get_alloc_of_ne (pool : MfPool) {other : MfId} (fields : MemFetch)
    (apart : other ≠ .request pool.nextSerial) :
    (pool.alloc fields).2.get other = pool.get other := by
  simp [alloc, apart]

@[simp] theorem fst_alloc (pool : MfPool) (fields : MemFetch) :
    (pool.alloc fields).1 = .request pool.nextSerial := rfl

@[simp] theorem nextSerial_alloc (pool : MfPool) (fields : MemFetch) :
    (pool.alloc fields).2.nextSerial = pool.nextSerial + 1 := rfl

/-- The sectors that a request asks for are never changed. -/
structure Extends (pool before : MfPool) : Prop where
  nextSerial : before.nextSerial ≤ pool.nextSerial
  sectorMask : ∀ mf, mf.serial < before.nextSerial → (pool.get mf).sectorMask = (before.get mf).sectorMask

theorem Extends.refl (pool : MfPool) : Extends pool pool := ⟨Nat.le_refl _, fun _ _ => rfl⟩

theorem Extends.trans {a b c : MfPool} (ab : Extends a b) (bc : Extends b c) : Extends a c where
  nextSerial := Nat.le_trans bc.nextSerial ab.nextSerial
  sectorMask mf old :=
    (ab.sectorMask mf (Nat.lt_of_lt_of_le old bc.nextSerial)).trans (bc.sectorMask mf old)

theorem Extends.modify (pool : MfPool) (mf : MfId) {change : MemFetch → MemFetch}
    (keeps : ∀ request, (change request).sectorMask = request.sectorMask) :
    Extends (pool.modify mf change) pool where
  nextSerial := Nat.le_refl _
  sectorMask other _ := by
    by_cases same : other = mf
    · rw [same, get_modify_self, keeps]
    · rw [get_modify_of_ne pool change same]

theorem Extends.alloc (pool : MfPool) (fields : MemFetch) : Extends (pool.alloc fields).2 pool where
  nextSerial := Nat.le_succ _
  sectorMask other old := by
    rw [get_alloc_of_ne]
    rintro rfl
    exact Nat.lt_irrefl _ old

end MfPool

end GpgpuSim.Memory
