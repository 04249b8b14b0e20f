/-
  The length of a packet, from the bytes of its header. The answer is 0 where more bytes are
  needed and -1 where the header is malformed or the packet too large.

  Reading out of range is a panic, and a panic is `none`: `answers_fixedPacketLength` says that
  there is none, and that an answer other than 0 is the answer for every longer buffer.

  Word sizes do not matter here: the sums of the source are of words small enough for their
  type, and `remaining` compares the one that is not.
-/
import Mathlib.Data.Finset.Basic
import Terlan.Lib.Bytes

namespace Terlan.Packet

open Terlan.Lib List

/-! ## Reading -/

/-- `&bytes[start..]`. -/
def sliceFrom (bytes : List UInt8) (start : Nat) : Option (List UInt8) :=
  if start ≤ bytes.length then some (bytes.drop start) else none

/-- `&bytes[start..stop]`. -/
def slice (bytes : List UInt8) (start stop : Nat) : Option (List UInt8) :=
  if start ≤ stop ∧ stop ≤ bytes.length then some ((bytes.take stop).drop start) else none

/-- `a - b` of words. -/
def checkedSub (a b : Nat) : Option Nat := if b ≤ a then some (a - b) else none

/-- `read_be_u16`, `read_be_u24` and `read_be_u32`. -/
def readBe (width : Nat) (bytes : List UInt8) : Option Nat :=
  if width ≤ bytes.length then some (ofBeBytes (bytes.take width)) else none

/-! ## Lengths -/

/-- The packet modes `TCP_PB_RAW` to `TCP_PB_SSL_TLS`, and every other number. -/
inductive PacketType where
  | raw
  | pb1
  | pb2
  | pb4
  | asn1
  | rm
  | cdr
  | fcgi
  | tpkt
  | sslTls
  | other (htype : Int)

def cdrHeaderLen : Nat := 12
def fcgiHeaderLen : Nat := 8
def tpktHeaderLen : Nat := 4
def sslTlsHeaderLen : Nat := 5

/-- `GIOP`. -/
def cdrMagic : List UInt8 := [0x47, 0x49, 0x4f, 0x50]

def fcgiVersion1 : UInt8 := 1
def tpktVersion : UInt8 := 3

/-- `i32::MAX`. -/
def i32Max : Nat := 2 ^ 31 - 1

def remaining (hlen plen maxPlen : Nat) : Int :=
  if maxPlen ≠ 0 ∧ plen > maxPlen then -1
  else
    let total := hlen + plen
    if total > i32Max then -1 else total

def fixedRemaining (hlen : Nat) (plen : Option Nat) (maxPlen : Nat) : Int :=
  match plen with
  | some plen => remaining hlen plen maxPlen
  | none => 0

/-- How many bytes of a long tag come before its last one. -/
def skipTag : List UInt8 → Nat
  | [] => 0
  | byte :: bytes => if byte &&& 0x80 = 0x80 then skipTag bytes + 1 else 0

/-- Where the length byte stands, or that more bytes are needed. -/
def asn1LengthAt (bytes : List UInt8) : Option (Option Nat) := do
  let tag ← bytes[0]?
  if tag &&& 0x1f = 0x1f then
    let pos := 1 + skipTag (bytes.drop 1)
    let left ← checkedSub bytes.length pos
    return if left < 2 then none else some (pos + 1)
  else return some 1

/-- The length in its long form; more than four bytes of it are not supported. -/
def asn1LongLength (lengthLen : Nat) (bytes : List UInt8) : Option (Option Nat) :=
  match lengthLen with
  | 0 => some (some 0)
  | 1 => (bytes[0]?).map fun byte => some byte.toNat
  | 2 => (readBe 2 bytes).map some
  | 3 => (readBe 3 bytes).map some
  | 4 => (readBe 4 bytes).map some
  | _ => some none

/-- The length of the packet whose length byte stands at `pos`. -/
def asn1LengthFrom (bytes : List UInt8) (pos maxPlen : Nat) : Option Int := do
  let lengthByte ← bytes[pos]?
  let pos := pos + 1
  if lengthByte &&& 0x80 = 0x80 then
    let lengthLen := (lengthByte &&& 0x7f).toNat
    let left ← checkedSub bytes.length pos
    if left < lengthLen then return 0
    else
      match ← asn1LongLength lengthLen (← sliceFrom bytes pos) with
      | none => return -1
      | some plen => return remaining (pos + lengthLen) plen maxPlen
  else return remaining pos (lengthByte &&& 0x7f).toNat maxPlen

def asn1Length (bytes : List UInt8) (maxPlen : Nat) : Option Int :=
  if bytes.length < 2 then some 0
  else do
    match ← asn1LengthAt bytes with
    | none => return 0
    | some pos => asn1LengthFrom bytes pos maxPlen

def cdrLength (bytes : List UInt8) (maxPlen : Nat) : Option Int :=
  if bytes.length < cdrHeaderLen then some 0
  else do
    if (← slice bytes 0 4) ≠ cdrMagic then return -1
    else if (← bytes[6]?) &&& 1 ≠ 0 then
      let word := [← bytes[8]?, ← bytes[9]?, ← bytes[10]?, ← bytes[11]?]
      return remaining cdrHeaderLen (ofBeBytes word.reverse) maxPlen
    else
      let plen ← readBe 4 (← sliceFrom bytes 8)
      return remaining cdrHeaderLen plen maxPlen

def fcgiLength (bytes : List UInt8) (maxPlen : Nat) : Option Int :=
  if bytes.length < fcgiHeaderLen then some 0
  else do
    if (← bytes[0]?) ≠ fcgiVersion1 then return -1
    else
      let contentLen ← readBe 2 (← sliceFrom bytes 4)
      let paddingLen := (← bytes[6]?).toNat
      return remaining fcgiHeaderLen (contentLen + paddingLen) maxPlen

def tpktLength (bytes : List UInt8) (maxPlen : Nat) : Option Int :=
  if bytes.length < tpktHeaderLen then some 0
  else do
    if (← bytes[0]?) ≠ tpktVersion then return -1
    else
      let total ← readBe 2 (← sliceFrom bytes 2)
      if total < tpktHeaderLen then return -1
      else return remaining tpktHeaderLen (total - tpktHeaderLen) maxPlen

def sslTlsLength (bytes : List UInt8) (maxPlen : Nat) : Option Int :=
  if bytes.length < sslTlsHeaderLen then some 0
  else do
    if (← bytes[0]?) &&& 0x80 ≠ 0 ∧ (← bytes[2]?) = 1 then
      let total := (← readBe 2 bytes) &&& 0x7fff
      if total < 3 then return -1
      else return remaining sslTlsHeaderLen (total - 3) maxPlen
    else
      let plen ← readBe 2 (← sliceFrom bytes 3)
      return remaining sslTlsHeaderLen plen maxPlen

/-- The inner `none` is a type that has no length. -/
def fixedPacketLength (htype : PacketType) (bytes : List UInt8) (maxPlen : Nat) :
    Option (Option Int) :=
  match htype with
  | .raw => some (some (if bytes = [] then 0 else Int.bmod bytes.length (2 ^ 32)))
  | .pb1 => some (some (fixedRemaining 1 ((bytes.head?).map UInt8.toNat) maxPlen))
  | .pb2 => some (some (fixedRemaining 2 (readBe 2 bytes) maxPlen))
  | .pb4 => some (some (fixedRemaining 4 (readBe 4 bytes) maxPlen))
  | .rm => some (some (fixedRemaining 4 ((readBe 4 bytes).map (· &&& 0x7fffffff)) maxPlen))
  | .asn1 => (asn1Length bytes maxPlen).map some
  | .cdr => (cdrLength bytes maxPlen).map some
  | .fcgi => (fcgiLength bytes maxPlen).map some
  | .tpkt => (tpktLength bytes maxPlen).map some
  | .sslTls => (sslTlsLength bytes maxPlen).map some
  | .other _ => some none

/-! ## What an answer says of longer buffers -/

/-- The length is answered: more bytes are needed, or the answer is final and covers at least
`hlen` bytes. -/
def Answers (hlen : Nat) (length : List UInt8 → Option Int) (bytes : List UInt8) : Prop :=
  ∃ total, length bytes = some total ∧
    (total = 0 ∨
      (∀ rest, length (bytes ++ rest) = some total) ∧ (total = -1 ∨ (hlen : Int) ≤ total))

theorem remaining_cases (hlen plen maxPlen : Nat) :
    remaining hlen plen maxPlen = -1 ∨ (hlen : Int) ≤ remaining hlen plen maxPlen := by
  unfold remaining
  split
  · exact .inl rfl
  dsimp only
  split
  next => exact .inl rfl
  next => right; omega

variable {bytes : List UInt8}

theorem answers_zero {hlen : Nat} {length : List UInt8 → Option Int}
    (more : length bytes = some 0) : Answers hlen length bytes :=
  ⟨0, more, .inl rfl⟩

theorem answers_final {hlen : Nat} {length : List UInt8 → Option Int}
    {total : Int} (now : length bytes = some total)
    (later : ∀ rest, length (bytes ++ rest) = some total)
    (covers : total = -1 ∨ (hlen : Int) ≤ total) : Answers hlen length bytes :=
  ⟨total, now, .inr ⟨later, covers⟩⟩

theorem getElem?_append_of_eq_some {i : Nat} {byte : UInt8}
    (h : bytes[i]? = some byte) (rest : List UInt8) : (bytes ++ rest)[i]? = some byte := by
  obtain ⟨within, -⟩ := List.getElem?_eq_some_iff.mp h
  rw [getElem?_append_left within, h]

theorem readBe_append {width : Nat} {value : Nat}
    (h : readBe width bytes = some value) (rest : List UInt8) :
    readBe width (bytes ++ rest) = some value := by
  unfold readBe at h ⊢
  split at h
  next within =>
    rw [if_pos (by rw [length_append]; omega), take_append_of_le_length within]
    exact h
  next => cases h

theorem readBe_of_le {width : Nat} (h : width ≤ bytes.length) :
    ∃ value, readBe width bytes = some value :=
  ⟨_, if_pos h⟩

/-- A length that the whole header is read for. -/
theorem answers_fixedRemaining (hlen : Nat) (plen : List UInt8 → Option Nat)
    (grows : ∀ value, plen bytes = some value → ∀ rest, plen (bytes ++ rest) = some value)
    (maxPlen : Nat) :
    Answers hlen (fun bytes => some (fixedRemaining hlen (plen bytes) maxPlen)) bytes := by
  cases known : plen bytes with
  | none => exact answers_zero (by rw [known]; rfl)
  | some value =>
    refine answers_final (by rw [known]; rfl) (fun rest => ?_) (remaining_cases hlen value maxPlen)
    rw [grows value known rest]
    rfl

section Header

variable {hlen : Nat} {length : List UInt8 → Option Int}

/-- A length that a header of fixed size says. -/
theorem answers_of_header
    (short : ∀ bytes : List UInt8, bytes.length < hlen → length bytes = some 0)
    (long : ∀ header rest : List UInt8, header.length = hlen →
      ∃ total, length (header ++ rest) = some total ∧ length header = some total ∧
        (total = -1 ∨ (hlen : Int) ≤ total)) (bytes : List UInt8) : Answers hlen length bytes := by
  by_cases cut : bytes.length < hlen
  · exact answers_zero (short bytes cut)
  have taken : (bytes.take hlen).length = hlen := by rw [length_take]; omega
  obtain ⟨total, now, header, covers⟩ := long (bytes.take hlen) (bytes.drop hlen) taken
  rw [take_append_drop] at now
  refine answers_final now (fun rest => ?_) covers
  obtain ⟨total', later, header', -⟩ := long (bytes.take hlen) (bytes.drop hlen ++ rest) taken
  rw [header] at header'
  rw [← append_assoc, take_append_drop] at later
  rw [later, header']

end Header

variable (maxPlen : Nat)

theorem answers_fcgiLength (bytes : List UInt8) :
    Answers fcgiHeaderLen (fcgiLength · maxPlen) bytes := by
  refine answers_of_header (fun bytes cut => if_pos cut) ?_ bytes
  rintro header rest len
  match header, len with
  | [b0, b1, b2, b3, b4, b5, b6, b7], _ =>
    by_cases version : b0 = fcgiVersion1
    · refine ⟨remaining fcgiHeaderLen (ofBeBytes [b4, b5] + b6.toNat) maxPlen, ?_, ?_,
        remaining_cases _ _ _⟩
      · simp [fcgiHeaderLen, version, sliceFrom, readBe]
      · simp [fcgiHeaderLen, version, sliceFrom, readBe]
    · refine ⟨-1, ?_, ?_, .inl rfl⟩
      · simp [fcgiHeaderLen, version]
      · simp [fcgiHeaderLen, version]

theorem answers_tpktLength (bytes : List UInt8) :
    Answers tpktHeaderLen (tpktLength · maxPlen) bytes := by
  refine answers_of_header (fun bytes cut => if_pos cut) ?_ bytes
  rintro header rest len
  match header, len with
  | [b0, b1, b2, b3], _ =>
    by_cases version : b0 = tpktVersion
    · by_cases small : ofBeBytes [b2, b3] < 4
      · refine ⟨-1, ?_, ?_, .inl rfl⟩
        · simp [tpktHeaderLen, version, sliceFrom, readBe, small]
        · simp [tpktHeaderLen, version, sliceFrom, readBe, small]
      · refine ⟨remaining tpktHeaderLen (ofBeBytes [b2, b3] - tpktHeaderLen) maxPlen, ?_, ?_,
          remaining_cases _ _ _⟩
        · simp [tpktHeaderLen, version, sliceFrom, readBe, small]
        · simp [tpktHeaderLen, version, sliceFrom, readBe, small]
    · refine ⟨-1, ?_, ?_, .inl rfl⟩
      · simp [tpktHeaderLen, version]
      · simp [tpktHeaderLen, version]

theorem answers_sslTlsLength (bytes : List UInt8) :
    Answers sslTlsHeaderLen (sslTlsLength · maxPlen) bytes := by
  refine answers_of_header (fun bytes cut => if_pos cut) ?_ bytes
  rintro header rest len
  match header, len with
  | [b0, b1, b2, b3, b4], _ =>
    by_cases hello : b0 &&& 0x80 ≠ 0 ∧ b2 = 1
    · by_cases small : ofBeBytes [b0, b1] &&& 0x7fff < 3
      · refine ⟨-1, ?_, ?_, .inl rfl⟩
        · simp [sslTlsHeaderLen, hello, small, readBe]
        · simp [sslTlsHeaderLen, hello, small, readBe]
      · refine ⟨remaining sslTlsHeaderLen ((ofBeBytes [b0, b1] &&& 0x7fff) - 3) maxPlen, ?_, ?_,
          remaining_cases _ _ _⟩
        · simp [sslTlsHeaderLen, hello, small, readBe]
        · simp [sslTlsHeaderLen, hello, small, readBe]
    · refine ⟨remaining sslTlsHeaderLen (ofBeBytes [b3, b4]) maxPlen, ?_, ?_,
        remaining_cases _ _ _⟩
      · simp [sslTlsHeaderLen, hello, sliceFrom, readBe]
      · simp [sslTlsHeaderLen, hello, sliceFrom, readBe]

theorem answers_cdrLength (bytes : List UInt8) :
    Answers cdrHeaderLen (cdrLength · maxPlen) bytes := by
  refine answers_of_header (fun bytes cut => if_pos cut) ?_ bytes
  rintro header rest len
  match header, len with
  | [b0, b1, b2, b3, b4, b5, b6, b7, b8, b9, b10, b11], _ =>
    by_cases magic : [b0, b1, b2, b3] = cdrMagic
    · by_cases little : b6 &&& 1 = 0
      · refine ⟨remaining cdrHeaderLen (ofBeBytes [b8, b9, b10, b11]) maxPlen, ?_, ?_,
          remaining_cases _ _ _⟩
        · simp [cdrHeaderLen, magic, little, slice, sliceFrom, readBe]
        · simp [cdrHeaderLen, magic, little, slice, sliceFrom, readBe]
      · refine ⟨remaining cdrHeaderLen (ofBeBytes [b11, b10, b9, b8]) maxPlen, ?_, ?_,
          remaining_cases _ _ _⟩
        · simp [cdrHeaderLen, magic, little, slice]
        · simp [cdrHeaderLen, magic, little, slice]
    · refine ⟨-1, ?_, ?_, .inl rfl⟩
      · simp [cdrHeaderLen, magic, slice]
      · simp [cdrHeaderLen, magic, slice]

/-! ## ASN.1 -/

theorem skipTag_le (bytes : List UInt8) : skipTag bytes ≤ bytes.length := by
  induction bytes with
  | nil => exact Nat.le_refl 0
  | cons byte bytes ih =>
    rw [skipTag, length_cons]
    split <;> omega

theorem skipTag_append (ended : skipTag bytes < bytes.length)
    (rest : List UInt8) : skipTag (bytes ++ rest) = skipTag bytes := by
  induction bytes with
  | nil => cases ended
  | cons byte bytes ih =>
    rw [skipTag, length_cons] at ended
    rw [cons_append, skipTag, skipTag]
    split at ended
    next long => rw [if_pos long, if_pos long, ih (by omega)]
    next last => rw [if_neg last, if_neg last]

theorem asn1LengthAt_long {tag : UInt8} (first : bytes[0]? = some tag)
    (long : tag &&& 0x1f = 0x1f) :
    asn1LengthAt bytes =
      some (if bytes.length - (1 + skipTag (bytes.drop 1)) < 2 then none
        else some (1 + skipTag (bytes.drop 1) + 1)) := by
  obtain ⟨nonempty, -⟩ := List.getElem?_eq_some_iff.mp first
  have le := skipTag_le (bytes.drop 1)
  rw [length_drop] at le
  have fits : 1 + skipTag (bytes.drop 1) ≤ bytes.length := by omega
  simp [asn1LengthAt, first, long, checkedSub, fits, -drop_one]

theorem asn1LengthAt_short {tag : UInt8} (first : bytes[0]? = some tag)
    (short : tag &&& 0x1f ≠ 0x1f) : asn1LengthAt bytes = some (some 1) := by
  simp [asn1LengthAt, first, short]

/-- The place of the length byte does not move, and the byte is there. -/
theorem asn1LengthAt_spec (two : 2 ≤ bytes.length) : asn1LengthAt bytes = some none ∨
      ∃ pos, pos < bytes.length ∧ ∀ rest, asn1LengthAt (bytes ++ rest) = some (some pos) := by
  obtain ⟨tag, first⟩ : ∃ tag, bytes[0]? = some tag := ⟨bytes[0], getElem?_eq_getElem _⟩
  by_cases long : tag &&& 0x1f = 0x1f
  · by_cases cut : bytes.length - (1 + skipTag (bytes.drop 1)) < 2
    · left
      rw [asn1LengthAt_long first long, if_pos cut]
    · right
      refine ⟨1 + skipTag (bytes.drop 1) + 1, by omega, fun rest => ?_⟩
      have ended : skipTag (bytes.drop 1) < (bytes.drop 1).length := by
        rw [length_drop]
        omega
      have same : skipTag ((bytes ++ rest).drop 1) = skipTag (bytes.drop 1) := by
        rw [drop_append_of_le_length (by omega), skipTag_append ended]
      rw [asn1LengthAt_long (getElem?_append_of_eq_some first rest) long, same,
        if_neg (by rw [length_append]; omega)]
  · right
    refine ⟨1, by omega, fun rest => ?_⟩
    exact asn1LengthAt_short (getElem?_append_of_eq_some first rest) long

theorem asn1LongLength_append {lengthLen : Nat} (there : lengthLen ≤ bytes.length) :
    ∃ plen, ∀ rest, asn1LongLength lengthLen (bytes ++ rest) = some plen := by
  match lengthLen, there with
  | 0, _ => exact ⟨some 0, fun _ => rfl⟩
  | 1, there =>
    have first : bytes[0]? = some bytes[0] := getElem?_eq_getElem _
    refine ⟨some bytes[0].toNat, fun rest => ?_⟩
    rw [asn1LongLength, getElem?_append_of_eq_some first]
    rfl
  | 2, there =>
    obtain ⟨value, read⟩ := readBe_of_le there
    exact ⟨some value, fun rest => by rw [asn1LongLength, readBe_append read]; rfl⟩
  | 3, there =>
    obtain ⟨value, read⟩ := readBe_of_le there
    exact ⟨some value, fun rest => by rw [asn1LongLength, readBe_append read]; rfl⟩
  | 4, there =>
    obtain ⟨value, read⟩ := readBe_of_le there
    exact ⟨some value, fun rest => by rw [asn1LongLength, readBe_append read]; rfl⟩
  | _ + 5, _ => exact ⟨none, fun _ => rfl⟩

section LengthByte

variable {bytes : List UInt8} {pos : Nat} {lengthByte : UInt8}

theorem asn1LengthFrom_short (found : bytes[pos]? = some lengthByte)
    (short : lengthByte &&& 0x80 ≠ 0x80) (maxPlen : Nat) : asn1LengthFrom bytes pos maxPlen =
      some (remaining (pos + 1) (lengthByte &&& 0x7f).toNat maxPlen) := by
  simp [asn1LengthFrom, found, short]

theorem asn1LengthFrom_cut (found : bytes[pos]? = some lengthByte)
    (long : lengthByte &&& 0x80 = 0x80)
    (cut : bytes.length - (pos + 1) < (lengthByte &&& 0x7f).toNat) (maxPlen : Nat) :
    asn1LengthFrom bytes pos maxPlen = some 0 := by
  obtain ⟨within, -⟩ := List.getElem?_eq_some_iff.mp found
  have fits : pos + 1 ≤ bytes.length := within
  simp [asn1LengthFrom, found, long, checkedSub, fits, cut, -UInt8.toNat_and]

theorem asn1LengthFrom_long (found : bytes[pos]? = some lengthByte)
    (long : lengthByte &&& 0x80 = 0x80)
    (there : ¬ bytes.length - (pos + 1) < (lengthByte &&& 0x7f).toNat) {plen : Option Nat}
    (read : asn1LongLength (lengthByte &&& 0x7f).toNat (bytes.drop (pos + 1)) = some plen)
    (maxPlen : Nat) : asn1LengthFrom bytes pos maxPlen =
      some (plen.elim (-1) (remaining (pos + 1 + (lengthByte &&& 0x7f).toNat) · maxPlen)) := by
  obtain ⟨within, -⟩ := List.getElem?_eq_some_iff.mp found
  have fits : pos + 1 ≤ bytes.length := within
  cases plen <;>
    simp [asn1LengthFrom, found, long, checkedSub, fits, there, sliceFrom, read, -UInt8.toNat_and]

theorem answers_asn1LengthFrom (within : pos < bytes.length) (maxPlen : Nat) :
    Answers 1 (asn1LengthFrom · pos maxPlen) bytes := by
  have found : bytes[pos]? = some bytes[pos] := getElem?_eq_getElem _
  have later (rest : List UInt8) := getElem?_append_of_eq_some found rest
  by_cases long : bytes[pos] &&& 0x80 = 0x80
  · by_cases cut : bytes.length - (pos + 1) < (bytes[pos] &&& 0x7f).toNat
    · exact answers_zero (asn1LengthFrom_cut found long cut maxPlen)
    · have there : (bytes[pos] &&& 0x7f).toNat ≤ (bytes.drop (pos + 1)).length := by
        rw [length_drop]
        omega
      obtain ⟨plen, read⟩ := asn1LongLength_append there
      have now : asn1LongLength (bytes[pos] &&& 0x7f).toNat (bytes.drop (pos + 1)) = some plen := by
        simpa using read []
      refine answers_final (asn1LengthFrom_long found long cut now maxPlen) (fun rest => ?_) ?_
      · refine asn1LengthFrom_long (later rest) long (by rw [length_append]; omega) ?_ maxPlen
        rw [drop_append_of_le_length (by omega)]
        exact read rest
      · cases plen with
        | none => exact .inl rfl
        | some plen =>
          refine (remaining_cases _ plen maxPlen).imp id fun covers => ?_
          rw [Option.elim_some]
          omega
  · refine answers_final (asn1LengthFrom_short found long maxPlen)
      (fun rest => asn1LengthFrom_short (later rest) long maxPlen) ?_
    refine (remaining_cases _ _ maxPlen).imp id fun covers => ?_
    omega

end LengthByte

theorem answers_asn1Length (bytes : List UInt8) : Answers 1 (asn1Length · maxPlen) bytes := by
  by_cases cut : bytes.length < 2
  · exact answers_zero (if_pos cut)
  have enough (rest : List UInt8) : ¬ (bytes ++ rest).length < 2 := by
    rw [length_append]
    omega
  rcases asn1LengthAt_spec (Nat.not_lt.mp cut) with more | ⟨pos, within, found⟩
  · refine answers_zero ?_
    rw [asn1Length, if_neg cut, more]
    rfl
  have step (rest : List UInt8) :
      asn1Length (bytes ++ rest) maxPlen = asn1LengthFrom (bytes ++ rest) pos maxPlen := by
    rw [asn1Length, if_neg (enough rest), found rest]
    rfl
  obtain ⟨total, now, answer⟩ := answers_asn1LengthFrom within maxPlen
  have first := step []
  rw [append_nil] at first
  refine ⟨total, first.trans now, answer.imp id fun final => ?_⟩
  exact ⟨fun rest => (step rest).trans (final.1 rest), final.2⟩

/-! ## All types -/

/-- The bytes that the header of a type takes at least. -/
def PacketType.headerLen : PacketType → Nat
  | .pb1 | .asn1 | .raw | .other _ => 1
  | .pb2 => 2
  | .pb4 | .rm => 4
  | .cdr => cdrHeaderLen
  | .fcgi => fcgiHeaderLen
  | .tpkt => tpktHeaderLen
  | .sslTls => sslTlsHeaderLen

/-- Every type with a length answers it, without a panic, and for good. -/
theorem answers_fixedPacketLength {htype : PacketType} (notRaw : htype ≠ .raw)
    (known : ∀ number, htype ≠ .other number) (maxPlen : Nat) (bytes : List UInt8) :
    ∃ total, fixedPacketLength htype bytes maxPlen = some (some total) ∧ (total = 0 ∨
        (∀ rest, fixedPacketLength htype (bytes ++ rest) maxPlen = some (some total)) ∧
          (total = -1 ∨ (htype.headerLen : Int) ≤ total)) := by
  have fixed {hlen : Nat} {length : List UInt8 → Option Int} (answers : Answers hlen length bytes) :
      ∃ total, (length bytes).map some = some (some total) ∧
        (total = 0 ∨
          (∀ rest, (length (bytes ++ rest)).map some = some (some total)) ∧
            (total = -1 ∨ (hlen : Int) ≤ total)) := by
    obtain ⟨total, now, answer⟩ := answers
    refine ⟨total, by rw [now]; rfl, answer.imp id fun final => ⟨fun rest => ?_, final.2⟩⟩
    rw [final.1 rest]
    rfl
  cases htype with
  | raw => exact absurd rfl notRaw
  | other number => exact absurd rfl (known number)
  | pb1 =>
    refine fixed (answers_fixedRemaining 1 (fun bytes => (bytes.head?).map UInt8.toNat)
      (fun value first rest => ?_) maxPlen)
    obtain ⟨byte, head, rfl⟩ := Option.map_eq_some_iff.mp first
    cases bytes with
    | nil => cases head
    | cons first more => cases head; rfl
  | pb2 => exact fixed (answers_fixedRemaining 2 (readBe 2) (fun value read => readBe_append read)
        maxPlen)
  | pb4 => exact fixed (answers_fixedRemaining 4 (readBe 4) (fun value read => readBe_append read)
        maxPlen)
  | rm =>
    refine fixed (answers_fixedRemaining 4
      (fun bytes => (readBe 4 bytes).map (· &&& 0x7fffffff))
      (fun value masked rest => ?_) maxPlen)
    obtain ⟨word, read, rfl⟩ := Option.map_eq_some_iff.mp masked
    rw [readBe_append read]
    rfl
  | asn1 => exact fixed (answers_asn1Length maxPlen bytes)
  | cdr => exact fixed (answers_cdrLength maxPlen bytes)
  | fcgi => exact fixed (answers_fcgiLength maxPlen bytes)
  | tpkt => exact fixed (answers_tpktLength maxPlen bytes)
  | sslTls => exact fixed (answers_sslTlsLength maxPlen bytes)

end Terlan.Packet
