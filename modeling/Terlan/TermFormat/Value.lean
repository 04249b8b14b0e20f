/-
  The values of the virtual machine, as far as the term format and the state tables see them.
  A bitstring carries the canonical form of its storage as fields. `ReplValue.induction` is the
  induction over a value and everything nested in it, and equality of values is decidable.
-/
import Mathlib.Algebra.Ring.Nat

namespace Terlan.TermFormat

open List

abbrev Bytes := List UInt8

/-- `usize::MAX` on the 64-bit hosts of the virtual machine. -/
def usizeMax : Nat := 2 ^ 64 - 1

/-! ## Bitstrings -/

/-- Clears the bits of the last byte behind the first `bitLen` bits. -/
def maskUnusedTrailingBits (bytes : Bytes) (bitLen : Nat) : Bytes :=
  if bitLen % 8 = 0 then bytes
  else
    match bytes.getLast? with
    | none => bytes
    | some last => bytes.dropLast ++ [last &&& (0xFF <<< UInt8.ofNat (8 - bitLen % 8))]

/-- Bits in network order; the storage is as short as the length allows and its unused bits
are zero. -/
structure VmBitString where
  bytes : Bytes
  bitLen : Nat
  storage : bytes.length = (bitLen + 7) / 8
  masked : maskUnusedTrailingBits bytes bitLen = bytes
deriving DecidableEq

theorem length_maskUnusedTrailingBits (bytes : Bytes) (bitLen : Nat) :
    (maskUnusedTrailingBits bytes bitLen).length = bytes.length := by
  unfold maskUnusedTrailingBits
  split
  · rfl
  cases h : bytes.getLast? with
  | none => rfl
  | some last =>
    obtain ⟨front, rfl⟩ := getLast?_eq_some_iff.mp h
    simp

/-- Masking twice clears nothing more. -/
theorem mask_idempotent (bytes : Bytes) (bitLen : Nat) :
    maskUnusedTrailingBits (maskUnusedTrailingBits bytes bitLen) bitLen =
      maskUnusedTrailingBits bytes bitLen := by
  unfold maskUnusedTrailingBits
  by_cases aligned : bitLen % 8 = 0
  · simp only [if_pos aligned]
  simp only [if_neg aligned]
  cases h : bytes.getLast? with
  | none => simp only [h]
  | some last =>
    simp only [getLast?_append, getLast?_singleton, Option.some_or,
      dropLast_concat, UInt8.and_assoc, UInt8.and_self]

inductive VmBitStringError where
  | bitLengthOverflow
  | bitLengthExceedsStorage (bitLen availableBits : Nat)

def VmBitStringError.message : VmBitStringError → String
  | .bitLengthOverflow => "bit length exceeds host limits"
  | .bitLengthExceedsStorage bitLen availableBits =>
    s!"bit length {bitLen} exceeds available storage of {availableBits} bits"

def VmBitString.fromBytes (bytes : Bytes) (bitLen : Nat) : Except VmBitStringError VmBitString :=
  if bytes.length * 8 > usizeMax then .error .bitLengthOverflow
  else if h : bitLen > bytes.length * 8 then
    .error (.bitLengthExceedsStorage bitLen (bytes.length * 8))
  else if bitLen + 7 > usizeMax then .error .bitLengthOverflow
  else
    .ok
      { bytes := maskUnusedTrailingBits (bytes.take ((bitLen + 7) / 8)) bitLen
        bitLen := bitLen
        storage := by
          rw [length_maskUnusedTrailingBits, length_take]
          omega
        masked := mask_idempotent _ _ }

/-! ## Values -/

/-- The variants built outside of tests. A closure counts the types in its descriptor: those
of its parameters, results and captures. -/
inductive ReplValue where
  | unit
  | int (value : Int64)
  | float (text : String)
  | string (text : String)
  | stringBytes (bytes : Bytes)
  | bytes (bytes : Bytes)
  | bitString (value : VmBitString)
  | atom (name : String)
  | bool (value : Bool)
  | closure (callableId descriptorTypes : Nat) (captures : List ReplValue)
  | tuple (items : List ReplValue)
  | record (name : String) (fields : List (String × ReplValue))
  | list (items : List ReplValue)
  | map (entries : List (ReplValue × ReplValue))
  | set (items : List ReplValue)

/-- Induction over a value: what holds of everything directly inside a value holds of it. -/
theorem ReplValue.induction {P : ReplValue → Prop} (unit : P .unit) (int : ∀ value, P (.int value))
    (float : ∀ text, P (.float text)) (string : ∀ text, P (.string text))
    (stringBytes : ∀ bytes, P (.stringBytes bytes)) (bytes : ∀ bytes, P (.bytes bytes))
    (bitString : ∀ value, P (.bitString value)) (atom : ∀ name, P (.atom name))
    (bool : ∀ value, P (.bool value)) (closure : ∀ id types captures, P (.closure id types captures))
    (tuple : ∀ items, (∀ item ∈ items, P item) → P (.tuple items))
    (record : ∀ name fields, (∀ field ∈ fields, P field.2) → P (.record name fields))
    (list : ∀ items, (∀ item ∈ items, P item) → P (.list items))
    (map : ∀ entries, (∀ entry ∈ entries, P entry.1 ∧ P entry.2) → P (.map entries))
    (set : ∀ items, (∀ item ∈ items, P item) → P (.set items)) (value : ReplValue) : P value :=
  @ReplValue.rec P (fun items => ∀ item ∈ items, P item) (fun fields => ∀ field ∈ fields, P field.2)
    (fun entries => ∀ entry ∈ entries, P entry.1 ∧ P entry.2) (fun field => P field.2)
    (fun entry => P entry.1 ∧ P entry.2)
    unit int float string stringBytes bytes bitString atom bool (fun id types captures _ => closure id types captures)
    tuple record list map set
    (fun _ h => by cases h)
    (fun _ _ head tail => forall_mem_cons.mpr ⟨head, tail⟩)
    (fun _ h => by cases h)
    (fun _ _ head tail => forall_mem_cons.mpr ⟨head, tail⟩)
    (fun _ h => by cases h)
    (fun _ _ head tail => forall_mem_cons.mpr ⟨head, tail⟩)
    (fun _ _ h => h) (fun _ _ h h' => ⟨h, h'⟩) value

/-! ## Equality -/

mutual

/-- The derived `PartialEq`: the same variant with equal contents. -/
def ReplValue.beq : ReplValue → ReplValue → Bool
  | .unit, other => match other with | .unit => true | _ => false
  | .int a, other => match other with | .int b => a == b | _ => false
  | .float a, other => match other with | .float b => a == b | _ => false
  | .string a, other => match other with | .string b => a == b | _ => false
  | .stringBytes a, other => match other with | .stringBytes b => a == b | _ => false
  | .bytes a, other => match other with | .bytes b => a == b | _ => false
  | .bitString a, other => match other with | .bitString b => a == b | _ => false
  | .atom a, other => match other with | .atom b => a == b | _ => false
  | .bool a, other => match other with | .bool b => a == b | _ => false
  | .closure id types captures, other =>
    match other with
    | .closure id' types' captures' => id == id' && types == types' && beqItems captures captures'
    | _ => false
  | .tuple a, other => match other with | .tuple b => beqItems a b | _ => false
  | .record name a, other =>
    match other with | .record name' b => name == name' && beqFields a b | _ => false
  | .list a, other => match other with | .list b => beqItems a b | _ => false
  | .map a, other => match other with | .map b => beqEntries a b | _ => false
  | .set a, other => match other with | .set b => beqItems a b | _ => false

def beqItems : List ReplValue → List ReplValue → Bool
  | [], other => other.isEmpty
  | a :: as, other => match other with | b :: bs => a.beq b && beqItems as bs | [] => false

def beqFields : List (String × ReplValue) → List (String × ReplValue) → Bool
  | [], other => other.isEmpty
  | (name, a) :: as, other =>
    match other with
    | (name', b) :: bs => name == name' && a.beq b && beqFields as bs
    | [] => false

def beqEntries : List (ReplValue × ReplValue) → List (ReplValue × ReplValue) → Bool
  | [], other => other.isEmpty
  | (key, a) :: as, other =>
    match other with
    | (key', b) :: bs => key.beq key' && a.beq b && beqEntries as bs
    | [] => false

end

mutual

theorem ReplValue.beq_iff : ∀ a b : ReplValue, a.beq b = true ↔ a = b
  | .unit, b => by cases b <;> simp [ReplValue.beq]
  | .int _, b => by cases b <;> simp [ReplValue.beq]
  | .float _, b => by cases b <;> simp [ReplValue.beq]
  | .string _, b => by cases b <;> simp [ReplValue.beq]
  | .stringBytes _, b => by cases b <;> simp [ReplValue.beq]
  | .bytes _, b => by cases b <;> simp [ReplValue.beq]
  | .bitString _, b => by cases b <;> simp [ReplValue.beq]
  | .atom _, b => by cases b <;> simp [ReplValue.beq]
  | .bool _, b => by cases b <;> simp [ReplValue.beq]
  | .closure _ _ captures, b => by
    cases b <;> simp [ReplValue.beq, beqItems_iff captures, and_assoc]
  | .tuple items, b => by cases b <;> simp [ReplValue.beq, beqItems_iff items]
  | .record _ fields, b => by cases b <;> simp [ReplValue.beq, beqFields_iff fields]
  | .list items, b => by cases b <;> simp [ReplValue.beq, beqItems_iff items]
  | .map entries, b => by cases b <;> simp [ReplValue.beq, beqEntries_iff entries]
  | .set items, b => by cases b <;> simp [ReplValue.beq, beqItems_iff items]

theorem beqItems_iff : ∀ as bs : List ReplValue, beqItems as bs = true ↔ as = bs
  | [], bs => by cases bs <;> simp [beqItems]
  | a :: as, [] => by simp [beqItems]
  | a :: as, b :: bs => by simp [beqItems, ReplValue.beq_iff a b, beqItems_iff as bs]

theorem beqFields_iff :
    ∀ as bs : List (String × ReplValue), beqFields as bs = true ↔ as = bs
  | [], bs => by cases bs <;> simp [beqFields]
  | (name, a) :: as, [] => by simp [beqFields]
  | (name, a) :: as, (name', b) :: bs => by
    simp [beqFields, ReplValue.beq_iff a b, beqFields_iff as bs]

theorem beqEntries_iff :
    ∀ as bs : List (ReplValue × ReplValue), beqEntries as bs = true ↔ as = bs
  | [], bs => by cases bs <;> simp [beqEntries]
  | (key, a) :: as, [] => by simp [beqEntries]
  | (key, a) :: as, (key', b) :: bs => by
    simp [beqEntries, ReplValue.beq_iff key key', ReplValue.beq_iff a b, beqEntries_iff as bs]

end

instance : DecidableEq ReplValue := fun a b => decidable_of_iff _ (ReplValue.beq_iff a b)

end Terlan.TermFormat
