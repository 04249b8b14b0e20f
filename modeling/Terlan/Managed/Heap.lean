/-
  The managed heap of one actor, as far as byte sequences and bitstrings go: objects are only
  ever added, at offsets that grow, and a reference names its heap and an offset.
-/
import Mathlib.Data.List.Lookmap
import Terlan.Lib.Bits
import Terlan.Lib.Method

namespace Terlan.Managed

open Terlan.Lib List

/-- A native word, read as an `i64`, a `u64` or a reference. -/
abbrev Word := BitVec 64

inductive ManagedMemoryError where
  | invalidLayoutSize
  | allocationLimitExceeded
  | crossActorReference
  | staleReference
  | unknownReference
  | invalidUtf8
  | invalidSequenceLength
  | invalidBitRange
  | managedTypeMismatch
  | invalidAggregateArity
  | invalidAggregateField
  | invalidManagedOperation
  | invalidManagedScalar
deriving DecidableEq

/-! ## Objects -/

/-- An object by its payload; what has another semantic type only takes up space. -/
inductive ManagedObject where
  | bytes (value : List UInt8)
  | binary (storage : Word) (bitOffset bitLength : Nat)
  | other (size : Nat)

def managedSequenceHeaderBytes : Nat := 8

def binaryPayloadBytes : Nat := 24

def maxManagedObjectBytes : Nat := 16 * 1024 * 1024

def ManagedObject.size : ManagedObject → Nat
  | .bytes value => managedSequenceHeaderBytes + value.length
  | .binary _ _ _ => binaryPayloadBytes
  | .other size => size

def offsetMask : Nat := 2 ^ 32 - 1

def usizeLimit : Nat := 2 ^ 64

def usizeAdd (a b : Nat) : Option Nat := if a + b < usizeLimit then some (a + b) else none

def usizeMul (a b : Nat) : Option Nat := if a * b < usizeLimit then some (a * b) else none

/-- The objects by their offsets, in the order of allocation. -/
structure ActorHeap where
  token : BitVec 32
  retiredTokens : List (BitVec 32)
  hardBytes : Nat
  space : Nat
  objects : List (Nat × ManagedObject)
  placed : ∀ entry ∈ objects, entry.1 + entry.2.size ≤ space ∧ 0 < entry.2.size
  bounded : space ≤ offsetMask

namespace ActorHeap

def alignUp (value alignment : Nat) : Nat := (value + (alignment - 1)) / alignment * alignment

/-- `(token << TOKEN_SHIFT) | (offset + 1)`. -/
def referenceWithToken (token : BitVec 32) (offset : Nat) : Word :=
  token ++ BitVec.ofNat 32 (offset + 1)

theorem le_alignUp (value : Nat) : value ≤ alignUp value 8 := by
  unfold alignUp
  omega

theorem placed_append {heap : ActorHeap} {object : ManagedObject} (fits : object.size ≠ 0) :
    ∀ entry ∈ heap.objects ++ [(alignUp heap.space 8, object)],
      entry.1 + entry.2.size ≤ alignUp heap.space 8 + object.size ∧ 0 < entry.2.size := by
  intro entry mem
  rcases mem_append.mp mem with old | new
  · have := heap.placed entry old
    have := le_alignUp heap.space
    omega
  · obtain rfl := mem_singleton.mp new
    exact ⟨Nat.le_refl _, Nat.pos_of_ne_zero fits⟩

/-- The descriptor is validated, then the object is put after the others. -/
def allocate (object : ManagedObject) : Method ManagedMemoryError ActorHeap Word :=
  .ofCall fun heap =>
    if sized : object.size = 0 ∨ object.size > maxManagedObjectBytes then
      (heap, .error .invalidLayoutSize)
    else
      let offset := alignUp heap.space 8
      if fits : offset + object.size > heap.hardBytes ∨ offset + object.size > offsetMask then
        (heap, .error .allocationLimitExceeded)
      else
        ({ heap with
            space := offset + object.size
            objects := heap.objects ++ [(offset, object)]
            placed := placed_append fun none => sized (.inl none)
            bounded := Nat.le_of_not_lt fun past => fits (.inr past) },
          .ok (referenceWithToken heap.token offset))

/-- Foreign and stale references are told apart by the token. -/
def resolveEncoded (heap : ActorHeap) (encoded : Word) : Except ManagedMemoryError Nat :=
  let token := encoded.extractLsb' 32 32
  if token ≠ heap.token then
    if heap.retiredTokens.contains token then .error .staleReference
    else .error .crossActorReference
  else
    match (encoded.setWidth 32).toNat with
    | 0 => .error .unknownReference
    | offset + 1 =>
      if (heap.objects.lookup offset).isSome then .ok offset else .error .unknownReference

/-- `descriptor` and `read`. -/
def read (heap : ActorHeap) (reference : Word) : Except ManagedMemoryError ManagedObject := do
  let offset ← heap.resolveEncoded reference
  match heap.objects.lookup offset with
  | some object => pure object
  | none => throw .unknownReference

def readBytes (heap : ActorHeap) (value : Word) : Except ManagedMemoryError (List UInt8) := do
  match ← heap.read value with
  | .bytes value => pure value
  | _ => throw .managedTypeMismatch

def allocateBytes (value : List UInt8) : Method ManagedMemoryError ActorHeap Word :=
  match usizeAdd managedSequenceHeaderBytes value.length with
  | none => throw .invalidSequenceLength
  | some _ => allocate (.bytes value)

def validateBitRange (byteLength bitOffset bitLength : Nat) : Except ManagedMemoryError Unit :=
  match usizeMul byteLength 8, usizeAdd bitOffset bitLength with
  | some available, some last =>
    if last > available then .error .invalidBitRange else .ok ()
  | _, _ => .error .invalidBitRange

def allocateBinary (storage : Word) (bitOffset bitLength : Nat) :
    Method ManagedMemoryError ActorHeap Word := do
  let heap ← get
  let bytes ← heap.readBytes storage
  validateBitRange bytes.length bitOffset bitLength
  allocate (.binary storage bitOffset bitLength)

end ActorHeap

/-! ## Views -/

theorem ActorHeap.validateBitRange_ok_iff {byteLength bitOffset bitLength : Nat} :
    validateBitRange byteLength bitOffset bitLength = .ok () ↔
      byteLength * 8 < usizeLimit ∧ bitOffset + bitLength ≤ byteLength * 8 := by
  unfold validateBitRange usizeMul usizeAdd
  by_cases small : byteLength * 8 < usizeLimit
  · by_cases short : bitOffset + bitLength < usizeLimit
    · simp only [small, short, if_true, true_and]
      by_cases past : bitOffset + bitLength > byteLength * 8
      · simp [past]
      · simp [past, Nat.le_of_not_lt past]
    · simp only [small, short, if_true, if_false, true_and]
      exact iff_of_false (by simp) (by omega)
  · simp [small]

/-- A bit range that has been checked against its bytes. -/
structure ManagedBinaryView where
  storage : List UInt8
  bitOffset : Nat
  bitLength : Nat
  checked : ActorHeap.validateBitRange storage.length bitOffset bitLength = .ok ()

namespace ManagedBinaryView

def isByteAligned (view : ManagedBinaryView) : Bool :=
  view.bitOffset % 8 == 0 && view.bitLength % 8 == 0

/-- One bit, the most significant of a byte first. -/
def bit (view : ManagedBinaryView) (index : Nat) : Option Bool :=
  if index ≥ view.bitLength then none
  else do
    let absolute ← usizeAdd view.bitOffset index
    let byte ← view.storage[absolute / 8]?
    pure (byte.toNat.testBit (7 - absolute % 8))

/-- All the bits in order. -/
def bits (view : ManagedBinaryView) : List Bool :=
  (List.range view.bitLength).map fun index => bitAt view.storage (view.bitOffset + index)

@[simp] theorem length_bits (view : ManagedBinaryView) : view.bits.length = view.bitLength := by
  simp [bits]

theorem bit_eq (view : ManagedBinaryView) (index : Nat) : view.bit index = view.bits[index]? := by
  obtain ⟨small, inside⟩ := ActorHeap.validateBitRange_ok_iff.mp view.checked
  unfold bit
  by_cases past : index ≥ view.bitLength
  · rw [if_pos past, getElem?_eq_none (by simpa using past)]
  have listed : (view.bitOffset + index) / 8 < view.storage.length := by omega
  have short : view.bitOffset + index < usizeLimit := by omega
  rw [if_neg past, usizeAdd, if_pos short, getElem?_eq_getElem (by simpa using past)]
  simp [bits, bitAt, getElem?_eq_getElem listed]

end ManagedBinaryView

def ActorHeap.readBinary (heap : ActorHeap) (value : Word) :
    Except ManagedMemoryError ManagedBinaryView := do
  match ← heap.read value with
  | .binary storage bitOffset bitLength =>
    let bytes ← heap.readBytes storage
    match checked : ActorHeap.validateBitRange bytes.length bitOffset bitLength with
    | .ok () => pure ⟨bytes, bitOffset, bitLength, checked⟩
    | .error e => throw e
  | _ => throw .managedTypeMismatch

/-! ## What allocation leaves alone -/

/-- Every object of the one heap is one of the other. -/
def Extends (heap heap' : ActorHeap) : Prop :=
  ∀ ⦃reference object⦄, heap.read reference = .ok object → heap'.read reference = .ok object

theorem Extends.refl (heap : ActorHeap) : Extends heap heap := fun _ _ found => found

theorem Extends.trans {a b c : ActorHeap} (first : Extends a b) (second : Extends b c) :
    Extends a c := fun _ _ found => second (first found)

namespace ActorHeap

variable {heap : ActorHeap}

theorem read_eq_ok_iff {reference : Word} {object : ManagedObject} :
    heap.read reference = .ok object ↔ reference.extractLsb' 32 32 = heap.token ∧
      ∃ offset, (reference.setWidth 32).toNat = offset + 1 ∧
        heap.objects.lookup offset = some object := by
  unfold read resolveEncoded
  rw [except_bind_ok_iff]
  dsimp only
  by_cases own : reference.extractLsb' 32 32 = heap.token
  · rw [if_neg (not_not_intro own)]
    cases low : (reference.setWidth 32).toNat with
    | zero => simp [own]
    | succ offset =>
      cases found : heap.objects.lookup offset with
      | none => simp [own, found]
      | some other =>
        simp only [own, found, Option.isSome_some, if_true, true_and, Except.ok.injEq]
        constructor
        · rintro ⟨_, rfl, run⟩
          rw [found] at run
          cases run
          exact ⟨offset, rfl, found⟩
        · rintro ⟨_, same, listed⟩
          cases same
          cases found.symm.trans listed
          exact ⟨offset, rfl, by rw [found]; rfl⟩
  · rw [if_pos own]
    constructor
    · rintro ⟨_, run, _⟩
      split at run <;> cases run
    · rintro ⟨same, _⟩
      exact absurd same own

theorem extends_append {heap' : ActorHeap} {entries : List (Nat × ManagedObject)}
    (token : heap'.token = heap.token) (objects : heap'.objects = heap.objects ++ entries) :
    Extends heap heap' := by
  intro reference object found
  obtain ⟨own, offset, low, listed⟩ := read_eq_ok_iff.mp found
  refine read_eq_ok_iff.mpr ⟨token ▸ own, offset, low, ?_⟩
  rw [objects, lookup_append, listed]
  rfl

theorem lookup_past {offset : Nat} (past : heap.space ≤ offset) :
    heap.objects.lookup offset = none := by
  refine lookup_eq_none_iff.mpr fun entry mem => ?_
  have := heap.placed entry mem
  simp only [bne_iff_ne, ne_eq]
  omega

theorem bytes_small {reference : Word} {bytes : List UInt8}
    (found : heap.read reference = .ok (.bytes bytes)) : bytes.length < 2 ^ 32 := by
  obtain ⟨_, offset, _, listed⟩ := read_eq_ok_iff.mp found
  obtain ⟨before, after, same, _⟩ := lookup_eq_some_iff.mp listed
  have placed := heap.placed (offset, .bytes bytes) (by rw [same]; simp)
  have bounded := heap.bounded
  simp only [ManagedObject.size] at placed
  unfold offsetMask at bounded
  omega

end ActorHeap

/-- There is no room for an object. -/
def NoRoom (e : ManagedMemoryError) : Prop :=
  e = .invalidLayoutSize ∨ e = .allocationLimitExceeded

/-- The call leaves every object where it is, and fails only for want of room. -/
def Yields {α : Type} (method : Method ManagedMemoryError ActorHeap α) (heap : ActorHeap)
    (Q : ActorHeap → α → Prop) : Prop :=
  Extends heap (method.call heap).1 ∧
    match (method.call heap).2 with
    | .error e => NoRoom e
    | .ok a => Q (method.call heap).1 a

section Yields

variable {α β : Type} {heap : ActorHeap}

theorem yields_pure {a : α} {Q : ActorHeap → α → Prop} (h : Q heap a) :
    Yields (pure a) heap Q := ⟨.refl heap, h⟩

variable {method : Method ManagedMemoryError ActorHeap α}

theorem Yields.mono {Q R : ActorHeap → α → Prop} (first : Yields method heap Q)
    (weaker : ∀ heap' a, Extends heap heap' → Q heap' a → R heap' a) : Yields method heap R := by
  obtain ⟨kept, result⟩ := first
  refine ⟨kept, ?_⟩
  revert result
  cases (method.call heap).2 with
  | error e => exact id
  | ok a => exact weaker _ a kept

variable {R : ActorHeap → β → Prop}

theorem Yields.bind {next : α → Method ManagedMemoryError ActorHeap β} {Q : ActorHeap → α → Prop}
    (first : Yields method heap Q)
    (second : ∀ heap' a, Extends heap heap' → Q heap' a → Yields (next a) heap' R) :
    Yields (method >>= next) heap R := by
  obtain ⟨kept, result⟩ := first
  unfold Yields
  rw [call_bind]
  rcases run : method.call heap with ⟨heap', e | a⟩
  · rw [run] at kept result
    exact ⟨kept, result⟩
  · rw [run] at kept result
    obtain ⟨kept', result'⟩ := second heap' a kept result
    exact ⟨kept.trans kept', result'⟩

theorem Yields.map {f : α → β} (first : Yields method heap fun heap' a => R heap' (f a)) :
    Yields (f <$> method) heap R := by
  obtain ⟨kept, result⟩ := first
  unfold Yields
  rw [call_map]
  refine ⟨kept, ?_⟩
  revert result
  cases (method.call heap).2 with
  | error | ok => exact id

theorem yields_get_bind {next : ActorHeap → Method ManagedMemoryError ActorHeap β}
    (rest : Yields (next heap) heap R) : Yields (get >>= next) heap R := rest

/-- A step that reads, and the rest. -/
theorem yields_check_bind {x : Except ManagedMemoryError α} {a : α}
    {next : α → Method ManagedMemoryError ActorHeap β}
    (ok : x = .ok a) (rest : Yields (next a) heap R) : Yields (liftM x >>= next) heap R := by
  subst ok
  exact rest

theorem yields_allocate (object : ManagedObject) :
    Yields (ActorHeap.allocate object) heap fun heap' reference =>
      heap'.read reference = .ok object := by
  unfold Yields ActorHeap.allocate
  rw [call_ofCall]
  split
  · exact ⟨.refl heap, .inl rfl⟩
  dsimp only
  split
  · exact ⟨.refl heap, .inr rfl⟩
  rename_i sized fits
  refine ⟨ActorHeap.extends_append rfl rfl, ActorHeap.read_eq_ok_iff.mpr ⟨?_, ?_⟩⟩
  · exact BitVec.extractLsb'_append_eq_left
  · refine ⟨ActorHeap.alignUp heap.space 8, ?_, ?_⟩
    · have small : ActorHeap.alignUp heap.space 8 + 1 < 2 ^ 32 := by
        unfold offsetMask at fits
        omega
      unfold ActorHeap.referenceWithToken
      rw [BitVec.setWidth_append, dif_pos (Nat.le_refl 32), BitVec.setWidth_eq,
        BitVec.toNat_ofNat, Nat.mod_eq_of_lt small]
    · rw [lookup_append, ActorHeap.lookup_past (ActorHeap.le_alignUp heap.space)]
      simp

/-! ## The bits of a binary -/

/-- The word names bytes. -/
def HasBytes (heap : ActorHeap) (value : Word) (bytes : List UInt8) : Prop :=
  heap.readBytes value = .ok bytes

/-- The word names a binary with these bits. -/
def HasBits (heap : ActorHeap) (value : Word) (bits : List Bool) : Prop :=
  ∃ view, heap.readBinary value = .ok view ∧ view.bits = bits

variable {value : Word} {bytes : List UInt8}

theorem hasBytes_iff : HasBytes heap value bytes ↔ heap.read value = .ok (.bytes bytes) := by
  unfold HasBytes ActorHeap.readBytes
  rw [except_bind_ok_iff]
  constructor
  · rintro ⟨object, found, same⟩
    cases object with
    | bytes value => cases same; exact found
    | binary | other => cases same
  · intro found
    exact ⟨_, found, rfl⟩

theorem readBinary_eq_ok_iff {view : ManagedBinaryView} :
    heap.readBinary value = .ok view ↔ ∃ storage,
      heap.read value = .ok (.binary storage view.bitOffset view.bitLength) ∧
        HasBytes heap storage view.storage := by
  unfold ActorHeap.readBinary
  rw [except_bind_ok_iff]
  constructor
  · rintro ⟨object, found, same⟩
    cases object with
    | bytes | other => cases same
    | binary storage bitOffset bitLength =>
      obtain ⟨bytes, read, same⟩ := except_bind_ok_iff.mp same
      split at same
      · cases same
        exact ⟨storage, found, read⟩
      · cases same
  · rintro ⟨storage, found, read⟩
    refine ⟨_, found, except_bind_ok_iff.mpr ⟨view.storage, read, ?_⟩⟩
    split
    · rfl
    · rename_i e failed
      rw [view.checked] at failed
      cases failed

theorem HasBytes.extend {heap' : ActorHeap} (extends' : Extends heap heap')
    (has : HasBytes heap value bytes) : HasBytes heap' value bytes :=
  hasBytes_iff.mpr (extends' (hasBytes_iff.mp has))

theorem HasBits.extend {heap' : ActorHeap} (extends' : Extends heap heap')
    {bits : List Bool} (has : HasBits heap value bits) : HasBits heap' value bits := by
  obtain ⟨view, read, same⟩ := has
  obtain ⟨storage, found, bytes⟩ := readBinary_eq_ok_iff.mp read
  exact ⟨view, readBinary_eq_ok_iff.mpr ⟨storage, extends' found, bytes.extend extends'⟩, same⟩

theorem HasBytes.small (has : HasBytes heap value bytes) : bytes.length < 2 ^ 32 :=
  ActorHeap.bytes_small (hasBytes_iff.mp has)

theorem HasBits.small {bits : List Bool} (has : HasBits heap value bits) :
    bits.length < 2 ^ 35 := by
  obtain ⟨view, read, rfl⟩ := has
  obtain ⟨storage, _, bytes⟩ := readBinary_eq_ok_iff.mp read
  have := bytes.small
  obtain ⟨_, inside⟩ := ActorHeap.validateBitRange_ok_iff.mp view.checked
  rw [ManagedBinaryView.length_bits]
  omega

theorem yields_allocateBytes (bytes : List UInt8) (small : bytes.length < 2 ^ 60) :
    Yields (ActorHeap.allocateBytes bytes) heap fun heap' value => HasBytes heap' value bytes := by
  have fits : managedSequenceHeaderBytes + bytes.length < usizeLimit := by
    unfold managedSequenceHeaderBytes usizeLimit
    omega
  unfold ActorHeap.allocateBytes usizeAdd
  rw [if_pos fits]
  exact (yields_allocate (.bytes bytes)).mono fun _ _ _ found => hasBytes_iff.mpr found

theorem yields_allocateBinary {storage : Word} {bitOffset bitLength : Nat}
    (has : HasBytes heap storage bytes) (inside : bitOffset + bitLength ≤ bytes.length * 8) :
    Yields (ActorHeap.allocateBinary storage bitOffset bitLength) heap fun heap' value =>
      HasBits heap' value (((bitsOf bytes).drop bitOffset).take bitLength) := by
  have small : bytes.length * 8 < usizeLimit := by
    have := has.small
    unfold usizeLimit
    omega
  have checked := ActorHeap.validateBitRange_ok_iff.mpr ⟨small, inside⟩
  unfold ActorHeap.allocateBinary
  refine yields_get_bind (yields_check_bind has (yields_check_bind checked ?_))
  refine Yields.mono (yields_allocate _) fun heap' value extended found => ?_
  refine ⟨⟨bytes, bitOffset, bitLength, checked⟩,
    readBinary_eq_ok_iff.mpr ⟨storage, found, has.extend extended⟩, ?_⟩
  refine ext_getElem (by simp; omega) fun j _ _ => ?_
  simp [ManagedBinaryView.bits, bitsOf]

end Yields

end Terlan.Managed
