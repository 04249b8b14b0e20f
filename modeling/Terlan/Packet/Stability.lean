/-
  What more bytes do to the answer of the packet decoder.

  `Stable` says of a buffer and what follows it that the answer stands: a packet or an error is
  answered again, and a packet of known length is waited for until it is there. It holds unless
  the buffer is one whole header of HTTP and what follows begins with a blank
  (`GoesOn`): `decodePacket_stable_iff`. A stream that is never cut there is decoded in one way
  however it is cut, which is the second part of that theorem.
-/
import Terlan.Packet.Lines

namespace Terlan.Packet

open Terlan.Lib List

/-! ## Slices -/

variable {bytes : List UInt8}

theorem slice_eq_some {start stop : Nat} (order : start ≤ stop)
    (within : stop ≤ bytes.length) : slice bytes start stop = some ((bytes.take stop).drop start) :=
  if_pos ⟨order, within⟩

theorem slice_append {stop : Nat} (within : stop ≤ bytes.length) (start : Nat) (rest : List UInt8) :
    slice (bytes ++ rest) start stop = slice bytes start stop := by
  unfold slice
  rw [take_append_of_le_length within, length_append]
  have same : (start ≤ stop ∧ stop ≤ bytes.length + rest.length) ↔
      (start ≤ stop ∧ stop ≤ bytes.length) := by omega
  simp only [same]

/-! ## Answers that stand -/

/-- What the later answer has to be, for `now` bytes first and `longer` bytes later. -/
def Keeps (outcome later : VmPacketDecodeOutcome) (now longer : Nat) : Prop :=
  match outcome with
  | .complete _ consumed => consumed ≤ now ∧ later = outcome
  | .more (some total) => longer < total → (∃ wait, later = .more wait) ∨ later = .invalid
  | .more none => True
  | .invalid => later = .invalid

/-- The decoder answers `bytes`, and `bytes ++ rest` accordingly, and reads nothing that is not
there. -/
def Stable (decode : List UInt8 → Option VmPacketDecodeOutcome) (bytes rest : List UInt8) : Prop :=
  ∃ outcome later, decode bytes = some outcome ∧ decode (bytes ++ rest) = some later ∧
    Keeps outcome later bytes.length (bytes ++ rest).length

/-- There is an answer, and a packet takes what is there. -/
def Sound (decode : List UInt8 → Option VmPacketDecodeOutcome) (bytes : List UInt8) : Prop :=
  ∃ outcome, decode bytes = some outcome ∧
    ∀ packet consumed, outcome = .complete packet consumed →
      0 < consumed ∧ consumed ≤ bytes.length

section Answers

variable {decode : List UInt8 → Option VmPacketDecodeOutcome} {bytes rest : List UInt8}

theorem sound_complete {packet : VmDecodedPacket} {consumed : Nat}
    (answer : decode bytes = some (.complete packet consumed)) (positive : 0 < consumed)
    (within : consumed ≤ bytes.length) : Sound decode bytes := by
  refine ⟨_, answer, fun packet' consumed' same => ?_⟩
  cases same
  exact ⟨positive, within⟩

theorem sound_more {total : Option Nat} (answer : decode bytes = some (.more total)) :
    Sound decode bytes :=
  ⟨_, answer, fun _ _ same => nomatch same⟩

theorem sound_invalid (answer : decode bytes = some .invalid) : Sound decode bytes :=
  ⟨_, answer, fun _ _ same => nomatch same⟩

theorem stable_complete {packet : VmDecodedPacket} {consumed : Nat}
    (answer : decode bytes = some (.complete packet consumed)) (within : consumed ≤ bytes.length)
    (later : decode (bytes ++ rest) = some (.complete packet consumed)) :
    Stable decode bytes rest :=
  ⟨_, _, answer, later, within, rfl⟩

theorem stable_invalid (answer : decode bytes = some .invalid)
    (later : decode (bytes ++ rest) = some .invalid) : Stable decode bytes rest :=
  ⟨_, _, answer, later, rfl⟩

theorem stable_more (answer : decode bytes = some (.more none))
    (sound : Sound decode (bytes ++ rest)) : Stable decode bytes rest := by
  obtain ⟨later, run, -⟩ := sound
  exact ⟨_, later, answer, run, trivial⟩

end Answers

/-! ## Packets that say their length -/

theorem fcgi_padding {maxPlen : Nat} {total : Int}
    (answer : fcgiLength bytes maxPlen = some total) (positive : 0 < total) :
    ∃ padding, bytes[6]? = some padding ∧ padding.toNat ≤ total.toNat := by
  by_cases cut : bytes.length < fcgiHeaderLen
  · rw [fcgiLength, if_pos cut] at answer
    cases answer
    omega
  match bytes, Nat.not_lt.mp cut with
  | b0 :: b1 :: b2 :: b3 :: b4 :: b5 :: b6 :: b7 :: rest, _ =>
    refine ⟨b6, rfl, ?_⟩
    rw [fcgiLength, if_neg cut] at answer
    by_cases version : b0 = fcgiVersion1
    · simp [version, sliceFrom, readBe] at answer
      subst answer
      rw [remaining] at positive ⊢
      split
      next large => rw [if_pos large] at positive; omega
      next small =>
        rw [if_neg small] at positive
        dsimp only at positive ⊢
        split
        next exceeds => rw [if_pos exceeds] at positive; omega
        next => omega
    · simp [version] at answer
      omega

/-- The packet at the front of a buffer that holds all of it. -/
theorem extract_spec {mode : VmPacketMode} {htype : PacketType}
    (known : mode.packetType = some htype) {maxPlen : Nat} {total : Int}
    (answer : fixedPacketLength htype bytes maxPlen = some (some total))
    (covers : (htype.headerLen : Int) ≤ total) (there : total.toNat ≤ bytes.length) :
    ∃ outcome, (outcome = .invalid ∨ ∃ packet, outcome = .complete packet total.toNat) ∧
      ∀ rest, extract mode (bytes ++ rest) total.toNat = some outcome := by
  have taken {start : Nat} (order : start ≤ total.toNat) (rest : List UInt8) :
      slice (bytes ++ rest) start total.toNat = some ((bytes.take total.toNat).drop start) := by
    rw [slice_append there, slice_eq_some order there]
  have whole (start : Nat) (order : start ≤ total.toNat)
      (same : ∀ bytes, extract mode bytes total.toNat =
        (slice bytes start total.toNat).map (completeBytes · total.toNat)) :
      ∃ outcome, (outcome = .invalid ∨ ∃ packet, outcome = .complete packet total.toNat) ∧
        ∀ rest, extract mode (bytes ++ rest) total.toNat = some outcome := by
    refine ⟨completeBytes ((bytes.take total.toNat).drop start) total.toNat, .inr ⟨_, rfl⟩,
      fun rest => ?_⟩
    rw [same, taken order rest]
    rfl
  cases mode with
  | line | http | httpHeader => cases known
  | length1 =>
    cases known
    exact whole 1 (by simp [PacketType.headerLen] at covers; omega) fun _ => rfl
  | length2 =>
    cases known
    exact whole 2 (by simp [PacketType.headerLen] at covers; omega) fun _ => rfl
  | length4 =>
    cases known
    exact whole 4 (by simp [PacketType.headerLen] at covers; omega) fun _ => rfl
  | asn1 | sunRm | cdr | tpkt => exact whole 0 (Nat.zero_le _) fun _ => rfl
  | fastCgi =>
    cases known
    have positive : 0 < total := by
      simp [PacketType.headerLen, fcgiHeaderLen] at covers
      omega
    obtain ⟨length, run, same⟩ := Option.map_eq_some_iff.mp answer
    cases same
    obtain ⟨padding, found, le⟩ := fcgi_padding run positive
    have sub : checkedSub total.toNat padding.toNat = some (total.toNat - padding.toNat) :=
      if_pos le
    have inside : total.toNat - padding.toNat ≤ bytes.length := by omega
    refine ⟨completeBytes (bytes.take (total.toNat - padding.toNat)) total.toNat,
      .inr ⟨_, rfl⟩, fun rest => ?_⟩
    simp [extract, getElem?_append_of_eq_some found rest, sub, slice_append inside,
      slice_eq_some (Nat.zero_le _) inside]
  | sslTls =>
    cases known
    have five : 5 ≤ total.toNat := by
      simp [PacketType.headerLen, sslTlsHeaderLen] at covers
      omega
    have long : 5 ≤ bytes.length := five.trans there
    have taken3 (rest : List UInt8) :
        slice (bytes ++ rest) 3 5 = some ((bytes.take 5).drop 3) := by
      rw [slice_append long, slice_eq_some (by decide) long]
    obtain ⟨b0, b1, b2, b3, b4, more, rfl⟩ :
        ∃ b0 b1 b2 b3 b4 more, bytes = b0 :: b1 :: b2 :: b3 :: b4 :: more := by
      rcases bytes with _ | ⟨b0, _ | ⟨b1, _ | ⟨b2, _ | ⟨b3, _ | ⟨b4, more⟩⟩⟩⟩⟩
      iterate 5 exact absurd long (by simp)
      exact ⟨b0, b1, b2, b3, b4, more, rfl⟩
    have body (rest : List UInt8) :
        slice (b0 :: b1 :: b2 :: b3 :: b4 :: (more ++ rest)) 5 total.toNat = _ := taken five rest
    have version (rest : List UInt8) :
        slice (b0 :: b1 :: b2 :: b3 :: b4 :: (more ++ rest)) 3 5 = _ := taken3 rest
    obtain ⟨data, isData⟩ : ∃ data,
        ((b0 :: b1 :: b2 :: b3 :: b4 :: more).take total.toNat).drop 5 = data := ⟨_, rfl⟩
    rw [isData] at body
    by_cases hello : b0 &&& 0x80 ≠ 0 ∧ b2 = 1
    · obtain ⟨high, rfl⟩ := hello
      by_cases large : data.length + 2 > 0x00ffffff
      · refine ⟨.invalid, .inl rfl, fun rest => ?_⟩
        simp [extract, decodeSslTls, high, body, large]
      refine ⟨.complete (.sslTls 22 (b3, b4) ([1, .ofNat ((data.length + 2) >>> 16),
        .ofNat ((data.length + 2) >>> 8), .ofNat (data.length + 2)] ++ [b3, b4] ++ data))
          total.toNat, .inr ⟨_, rfl⟩, fun rest => ?_⟩
      simp [extract, decodeSslTls, high, body, version, large]
    · refine ⟨.complete (.sslTls b0 (b1, b2) data) total.toNat, .inr ⟨_, rfl⟩, fun rest => ?_⟩
      simp [extract, decodeSslTls, hello, body]

section Fixed

variable {mode : VmPacketMode} {htype : PacketType} (known : mode.packetType = some htype)
  (options : VmPacketOptions) (bytes : List UInt8)

include known

/-- The length of every mode that has one is answered for good. -/
theorem length_answer :
    ∃ total, fixedPacketLength htype bytes options.packetSize = some (some total) ∧ (total = 0 ∨
        (∀ rest, fixedPacketLength htype (bytes ++ rest) options.packetSize = some (some total)) ∧
          (total = -1 ∨ (htype.headerLen : Int) ≤ total)) := by
  refine answers_fixedPacketLength ?_ ?_ options.packetSize bytes
  · rintro rfl
    cases mode <;> cases known
  · rintro number rfl
    cases mode <;> cases known

theorem headerLen_pos : (0 : Int) < htype.headerLen := by
  cases mode <;> cases known <;> decide

/-- What is answered for a length. -/
theorem decodeFixed_of_length {total : Int}
    (length : fixedPacketLength htype bytes options.packetSize = some (some total)) :
    decodeFixed mode bytes options =
      if total < 0 then some .invalid
      else if total = 0 then some (.more none)
      else if bytes.length < total.toNat then some (.more (some total.toNat))
      else extract mode bytes total.toNat := by
  rw [decodeFixed, known]
  simp only [length, Option.bind_eq_bind, Option.bind_some]
  rfl

theorem decodeFixed_spec : Sound (decodeFixed mode · options) bytes ∧
      ∀ rest, Sound (decodeFixed mode · options) (bytes ++ rest) →
        Stable (decodeFixed mode · options) bytes rest := by
  obtain ⟨total, length, zero | ⟨final, minus | covers⟩⟩ := length_answer known options bytes
  · subst zero
    have answer := decodeFixed_of_length known options bytes length
    rw [if_neg (by decide), if_pos rfl] at answer
    exact ⟨sound_more answer, fun rest => stable_more answer⟩
  · subst minus
    have answer (rest : List UInt8) :=
      decodeFixed_of_length known options (bytes ++ rest) (final rest)
    simp only [Int.reduceNeg, Int.reduceLT, if_true] at answer
    have now := answer []
    rw [append_nil] at now
    exact ⟨sound_invalid now, fun rest _ => stable_invalid now (answer rest)⟩
  · have positive := Int.lt_of_lt_of_le (headerLen_pos known) covers
    have answer (rest : List UInt8) :=
      decodeFixed_of_length known options (bytes ++ rest) (final rest)
    simp only [if_neg (Int.not_lt.mpr positive.le), if_neg positive.ne'] at answer
    have now := answer []
    rw [append_nil] at now
    by_cases wait : bytes.length < total.toNat
    · rw [if_pos wait] at now
      refine ⟨sound_more now, fun rest sound => ?_⟩
      obtain ⟨later, run, -⟩ := sound
      refine ⟨_, later, now, run, fun still => .inl ⟨some total.toNat, ?_⟩⟩
      dsimp only at run
      rw [answer rest, if_pos still] at run
      exact (Option.some_inj.mp run).symm
    · have there := Nat.not_lt.mp wait
      obtain ⟨outcome, kind, extracted⟩ := extract_spec known length covers there
      have later (rest : List UInt8) :
          decodeFixed mode (bytes ++ rest) options = some outcome := by
        rw [answer rest, if_neg (by rw [length_append]; omega), extracted rest]
      have first := later []
      rw [append_nil] at first
      rcases kind with rfl | ⟨packet, rfl⟩
      · exact ⟨sound_invalid first, fun rest _ => stable_invalid first (later rest)⟩
      · exact ⟨sound_complete first (by omega) there,
          fun rest _ => stable_complete first there (later rest)⟩

end Fixed

/-! ## Lines -/

theorem exceedsLimit_iff {length limit : Nat} :
    exceedsLimit length limit = true ↔ limit ≠ 0 ∧ length > limit := decide_eq_true_iff

section Line

variable (options : VmPacketOptions) {bytes rest : List UInt8}

theorem newline_append {i : Nat} (found : bytes.findIdx? (· = 10) = some i) :
    (bytes ++ rest).findIdx? (· = 10) = some i := by
  rw [findIdx?_append, found]
  rfl

theorem newline_beyond {i : Nat} (none : bytes.findIdx? (· = 10) = none)
    (found : (bytes ++ rest).findIdx? (· = 10) = some i) : bytes.length ≤ i := by
  rw [findIdx?_append, none, Option.none_or] at found
  obtain ⟨j, -, rfl⟩ := Option.map_eq_some_iff.mp found
  exact Nat.le_add_left _ _

theorem newline_within {i : Nat} (found : bytes.findIdx? (· = 10) = some i) : i < bytes.length :=
  (findIdx?_eq_some_iff_findIdx_eq.mp found).1

variable {consumed : Nat}

section

variable (ok : lineConsumed bytes options = .ok consumed)
include ok

/-- A line takes something that is there. -/
theorem lineConsumed_bounds :
    0 < consumed ∧ consumed ≤ bytes.length := by
  unfold lineConsumed at ok
  cases found : bytes.findIdx? (· = 10) with
  | some i =>
    have within := newline_within found
    simp only [found, Option.map_some] at ok
    split at ok
    next cut => cases ok; omega
    next => cases ok; omega
  | none =>
    simp only [found, Option.map_none] at ok
    split at ok
    next cut => cases ok; omega
    next =>
      split at ok
      next => cases ok
      next => cases ok

theorem lineConsumed_append :
    lineConsumed (bytes ++ rest) options = .ok consumed := by
  unfold lineConsumed at ok ⊢
  cases found : bytes.findIdx? (· = 10) with
  | some i =>
    simp only [found, Option.map_some] at ok
    simp only [newline_append found, Option.map_some]
    exact ok
  | none =>
    simp only [found, Option.map_none] at ok
    split at ok
    next long =>
      cases later : (bytes ++ rest).findIdx? (· = 10) with
      | none =>
        simp only [Option.map_none]
        rw [if_pos ⟨long.1, by rw [length_append]; omega⟩]
        exact ok
      | some i =>
        have beyond := newline_beyond found later
        simp only [Option.map_some]
        rw [if_pos ⟨long.1, by omega⟩]
        exact ok
    next =>
      split at ok
      next => cases ok
      next => cases ok

theorem decodeLine_of_ok :
    decodeLine bytes options =
      some (if exceedsLimit consumed options.packetSize then .invalid
        else completeBytes (bytes.take consumed) consumed) := by
  have bounds := lineConsumed_bounds options ok
  rw [decodeLine, ok]
  dsimp only
  split
  next => rfl
  next => rw [slice_eq_some (Nat.zero_le _) bounds.2]; rfl

end

theorem decodeLine_of_error {outcome : VmPacketDecodeOutcome}
    (error : lineConsumed bytes options = .error outcome) :
    decodeLine bytes options = some outcome := by
  rw [decodeLine, error]

/-- What has no line: it waits for one, or it is too long already. -/
theorem lineConsumed_error {outcome : VmPacketDecodeOutcome}
    (error : lineConsumed bytes options = .error outcome) : outcome = .more none ∨
      outcome = .invalid ∧ bytes.findIdx? (· = 10) = none ∧ options.packetSize ≠ 0 ∧
        options.packetSize ≤ bytes.length ∧
          ¬ (options.lineLength ≠ 0 ∧ bytes.length ≥ options.lineLength) := by
  unfold lineConsumed at error
  cases found : bytes.findIdx? (· = 10) with
  | some i =>
    simp only [found, Option.map_some] at error
    split at error <;> cases error
  | none =>
    simp only [found, Option.map_none] at error
    split at error
    next => cases error
    next short =>
      split at error
      next full =>
        cases error
        exact .inr ⟨rfl, rfl, full.1, full.2, short⟩
      next =>
        cases error
        exact .inl rfl

theorem decodeLine_sound (bytes : List UInt8) : Sound (decodeLine · options) bytes := by
  cases line : lineConsumed bytes options with
  | ok consumed =>
    have answer := decodeLine_of_ok options line
    have bounds := lineConsumed_bounds options line
    by_cases exceeds : exceedsLimit consumed options.packetSize = true
    · rw [if_pos exceeds] at answer
      exact sound_invalid answer
    · rw [if_neg exceeds] at answer
      exact sound_complete answer bounds.1 bounds.2
  | error outcome =>
    have answer := decodeLine_of_error options line
    rcases lineConsumed_error options line with rfl | ⟨rfl, -⟩
    · exact sound_more answer
    · exact sound_invalid answer

/-- A buffer that is too long without a line end is too long with one. -/
theorem decodeLine_invalid_append (error : lineConsumed bytes options = .error .invalid) :
    decodeLine (bytes ++ rest) options = some .invalid := by
  obtain ⟨-, none, limited, full, short⟩ :=
    (lineConsumed_error options error).resolve_left (by simp)
  cases later : lineConsumed (bytes ++ rest) options with
  | error outcome =>
    rw [decodeLine_of_error options later]
    rcases lineConsumed_error options later with rfl | ⟨rfl, -⟩
    · -- The longer buffer waits only if it is not full.
      unfold lineConsumed at later
      cases found : (bytes ++ rest).findIdx? (· = 10) with
      | some i =>
        simp only [found, Option.map_some] at later
        split at later <;> cases later
      | none =>
        simp only [found, Option.map_none] at later
        split at later
        · cases later
        rw [if_pos ⟨limited, by rw [length_append]; omega⟩] at later
        cases later
    · rfl
  | ok consumed =>
    have exceeds : exceedsLimit consumed options.packetSize = true := by
      rw [exceedsLimit_iff]
      refine ⟨limited, ?_⟩
      unfold lineConsumed at later
      cases found : (bytes ++ rest).findIdx? (· = 10) with
      | some i =>
        have beyond := newline_beyond none found
        simp only [found, Option.map_some] at later
        split at later
        next => cases later; omega
        next => cases later; omega
      | none =>
        simp only [found, Option.map_none] at later
        split at later
        · cases later; omega
        split at later
        next => cases later
        next => cases later
    rw [decodeLine_of_ok options later, if_pos exceeds]

theorem decodeLine_stable (bytes rest : List UInt8) : Stable (decodeLine · options) bytes rest := by
  cases line : lineConsumed bytes options with
  | ok consumed =>
    have bounds := lineConsumed_bounds options line
    have answer := decodeLine_of_ok options line
    have longer : lineConsumed (bytes ++ rest) options = .ok consumed :=
      lineConsumed_append options line
    have later := decodeLine_of_ok options longer
    rw [take_append_of_le_length bounds.2] at later
    by_cases exceeds : exceedsLimit consumed options.packetSize = true
    · rw [if_pos exceeds] at answer later
      exact stable_invalid answer later
    · rw [if_neg exceeds] at answer later
      exact stable_complete answer bounds.2 later
  | error outcome =>
    have answer := decodeLine_of_error options line
    rcases lineConsumed_error options line with rfl | ⟨rfl, -⟩
    · exact stable_more answer (decodeLine_sound options _)
    · exact stable_invalid answer (decodeLine_invalid_append options line)

end Line

/-! ## Start lines of HTTP -/

theorem incompleteText_cases (bytes : List UInt8) (packetSize : Nat) :
    incompleteText bytes packetSize = .more none ∨
      incompleteText bytes packetSize = .invalid ∧ packetSize ≠ 0 ∧ packetSize < bytes.length := by
  unfold incompleteText
  split
  next full => exact .inr ⟨rfl, full⟩
  next => exact .inl rfl

theorem incompleteText_append {packetSize : Nat} (limited : packetSize ≠ 0)
    (full : packetSize < bytes.length) (rest : List UInt8) :
    incompleteText (bytes ++ rest) packetSize = .invalid :=
  if_pos ⟨limited, by rw [length_append]; omega⟩

section Start

variable (options : VmPacketOptions) {bytes rest : List UInt8}

theorem decodeHttpStart_of_line {lineEnd : Nat} (found : findCrlf bytes = some lineEnd) :
    decodeHttpStart bytes options =
      some (if exceedsLimit (lineEnd + 2) options.packetSize then .invalid
        else completeHttp (startPacket (bytes.take lineEnd) (bytes.take (lineEnd + 2)))
          (lineEnd + 2)) := by
  have within := (crlfAt_of_findCrlf found).1.within
  rw [decodeHttpStart, found]
  dsimp only
  split
  · rfl
  rw [slice_eq_some (Nat.zero_le _) (by omega), slice_eq_some (Nat.zero_le _) within]
  rfl

theorem decodeHttpStart_of_none (none : findCrlf bytes = none) :
    decodeHttpStart bytes options = some (incompleteText bytes options.packetSize) := by
  rw [decodeHttpStart, none]

theorem decodeHttpStart_sound (bytes : List UInt8) : Sound (decodeHttpStart · options) bytes := by
  cases found : findCrlf bytes with
  | some lineEnd =>
    have within := (crlfAt_of_findCrlf found).1.within
    have answer := decodeHttpStart_of_line options found
    by_cases exceeds : exceedsLimit (lineEnd + 2) options.packetSize = true
    · rw [if_pos exceeds] at answer
      exact sound_invalid answer
    · rw [if_neg exceeds] at answer
      exact sound_complete answer (by omega) within
  | none =>
    have answer := decodeHttpStart_of_none options found
    rcases incompleteText_cases bytes options.packetSize with more | ⟨invalid, -⟩
    · exact sound_more (more ▸ answer)
    · exact sound_invalid (invalid ▸ answer)

theorem decodeHttpStart_stable (bytes rest : List UInt8) :
    Stable (decodeHttpStart · options) bytes rest := by
  cases found : findCrlf bytes with
  | some lineEnd =>
    have within := (crlfAt_of_findCrlf found).1.within
    have answer := decodeHttpStart_of_line options found
    have later := decodeHttpStart_of_line options (findCrlf_append found rest)
    rw [take_append_of_le_length within, take_append_of_le_length (by omega)] at later
    by_cases exceeds : exceedsLimit (lineEnd + 2) options.packetSize = true
    · rw [if_pos exceeds] at answer later
      exact stable_invalid answer later
    · rw [if_neg exceeds] at answer later
      exact stable_complete answer within later
  | none =>
    have answer := decodeHttpStart_of_none options found
    rcases incompleteText_cases bytes options.packetSize with more | ⟨invalid, limited, full⟩
    · exact stable_more (more ▸ answer) (decodeHttpStart_sound options _)
    refine stable_invalid (invalid ▸ answer) ?_
    cases later : findCrlf (bytes ++ rest) with
    | some lineEnd =>
      have beyond := lt_of_findCrlf_append found later
      have exceeds : exceedsLimit (lineEnd + 2) options.packetSize = true :=
        exceedsLimit_iff.mpr ⟨limited, by omega⟩
      have answer := decodeHttpStart_of_line options later
      rwa [if_pos exceeds] at answer
    | none =>
      have answer := decodeHttpStart_of_none options later
      rwa [incompleteText_append limited full] at answer

end Start

/-! ## Headers of HTTP -/

section Header

variable (options : VmPacketOptions) {bytes rest : List UInt8}

theorem isPrefixOf_iff_crlfAt (bytes : List UInt8) :
    [13, 10].isPrefixOf bytes = true ↔ CrlfAt bytes 0 := by
  match bytes with
  | [] => simp [CrlfAt, List.isPrefixOf]
  | [_] => simp [CrlfAt, List.isPrefixOf]
  | first :: second :: more =>
    simp only [List.isPrefixOf, Bool.and_true, Bool.and_eq_true, beq_iff_eq, CrlfAt,
      getElem?_cons_zero, getElem?_cons_succ, Nat.zero_add, Option.some_inj]
    exact and_congr eq_comm eq_comm

/-- Where the header at the front of the buffer ends; nothing, if it has not ended. -/
def headerStop (bytes : List UInt8) : Option Nat :=
  (findCrlf bytes).bind fun firstEnd => (headerEnd bytes (firstEnd + 2)).join

variable {stop : Nat}

theorem headerStop_bounds (ends : headerStop bytes = some stop) :
    2 ≤ stop ∧ stop ≤ bytes.length := by
  obtain ⟨firstEnd, found, join⟩ := Option.bind_eq_some_iff.mp ends
  obtain ⟨answer, run, bounds⟩ := headerEnd_total bytes (firstEnd + 2)
    (crlfAt_of_findCrlf found).1.within
  rw [run] at join
  have bound := bounds stop join
  omega

theorem decodeHttpHeader_empty (empty : CrlfAt bytes 0) :
    decodeHttpHeader bytes options = some (completeHttp .endOfHeaders 2) := by
  rw [decodeHttpHeader, if_pos ((isPrefixOf_iff_crlfAt bytes).mpr empty)]

theorem decodeHttpHeader_of_stop (notEmpty : ¬ CrlfAt bytes 0)
    (ends : headerStop bytes = some stop) :
    decodeHttpHeader bytes options =
      some (if exceedsLimit stop options.packetSize then .invalid
        else completeHttp (headerPacket (bytes.take (stop - 2)) (bytes.take stop)) stop) := by
  have bounds := headerStop_bounds ends
  obtain ⟨firstEnd, found, join⟩ := Option.bind_eq_some_iff.mp ends
  have run : headerEnd bytes (firstEnd + 2) = some (some stop) := by
    cases answer : headerEnd bytes (firstEnd + 2) with
    | none => rw [answer] at join; cases join
    | some stopped => rw [answer] at join; rw [← join]; rfl
  rw [decodeHttpHeader, if_neg (mt (isPrefixOf_iff_crlfAt bytes).mp notEmpty), found]
  simp only [run, Option.bind_eq_bind, Option.bind_some]
  split
  · rfl
  have sub : checkedSub stop 2 = some (stop - 2) := if_pos bounds.1
  rw [sub, Option.bind_some, slice_eq_some (Nat.zero_le _) (by omega),
    slice_eq_some (Nat.zero_le _) bounds.2]
  rfl

theorem decodeHttpHeader_of_open (notEmpty : ¬ CrlfAt bytes 0) (opened : headerStop bytes = none) :
    decodeHttpHeader bytes options = some (incompleteText bytes options.packetSize) := by
  rw [decodeHttpHeader, if_neg (mt (isPrefixOf_iff_crlfAt bytes).mp notEmpty)]
  cases found : findCrlf bytes with
  | none => rfl
  | some firstEnd =>
    obtain ⟨answer, run, -⟩ := headerEnd_total bytes (firstEnd + 2)
      (crlfAt_of_findCrlf found).1.within
    have none : answer = none := by
      rw [headerStop, found, Option.bind_some, run] at opened
      exact opened
    simp only [run, none, Option.bind_eq_bind, Option.bind_some]
    rfl

theorem headerStop_append (ends : headerStop bytes = some stop)
    (settled : stop < bytes.length ∨ ¬ Continues rest) :
    headerStop (bytes ++ rest) = some stop := by
  obtain ⟨firstEnd, found, join⟩ := Option.bind_eq_some_iff.mp ends
  have within := (crlfAt_of_findCrlf found).1.within
  have run : headerEnd bytes (firstEnd + 2) = some (some stop) := by
    cases answer : headerEnd bytes (firstEnd + 2) with
    | none => rw [answer] at join; cases join
    | some stopped => rw [answer] at join; rw [← join]; rfl
  rw [headerStop, findCrlf_append found, Option.bind_some, headerEnd_append within run settled]
  rfl

/-- A header that has not ended, or that goes on, ends beyond the buffer. -/
theorem headerStop_beyond (opened : headerStop bytes = none ∨
      headerStop bytes = some bytes.length ∧ Continues rest)
    (ends : headerStop (bytes ++ rest) = some stop) : bytes.length < stop := by
  obtain ⟨firstEnd, found, join⟩ := Option.bind_eq_some_iff.mp ends
  have inLonger := (crlfAt_of_findCrlf found).1.within
  obtain ⟨answer, run, bounds⟩ := headerEnd_total (bytes ++ rest) (firstEnd + 2) inLonger
  rw [run] at join
  change answer = some stop at join
  rw [join] at run
  cases first : findCrlf bytes with
  | none =>
    have beyond := lt_of_findCrlf_append first found
    have bound := bounds stop join
    omega
  | some firstEnd' =>
    rw [findCrlf_append first] at found
    cases found
    have within := (crlfAt_of_findCrlf first).1.within
    refine headerEnd_beyond within ?_ run
    obtain ⟨answer', run', -⟩ := headerEnd_total bytes (firstEnd + 2) within
    rw [headerStop, first, Option.bind_some, run'] at opened
    rw [run']
    rcases opened with isOpen | ⟨same, goes⟩
    · left
      change answer' = none at isOpen
      rw [isOpen]
    · right
      change answer' = some bytes.length at same
      rw [same]
      exact ⟨rfl, goes⟩

theorem decodeHttpHeader_sound (bytes : List UInt8) : Sound (decodeHttpHeader · options) bytes := by
  by_cases empty : CrlfAt bytes 0
  · exact sound_complete (decodeHttpHeader_empty options empty) (by decide) empty.within
  cases ends : headerStop bytes with
  | some stop =>
    have bounds := headerStop_bounds ends
    have answer := decodeHttpHeader_of_stop options empty ends
    by_cases exceeds : exceedsLimit stop options.packetSize = true
    · rw [if_pos exceeds] at answer
      exact sound_invalid answer
    · rw [if_neg exceeds] at answer
      exact sound_complete answer (by omega) bounds.2
  | none =>
    have answer := decodeHttpHeader_of_open options empty ends
    rcases incompleteText_cases bytes options.packetSize with more | ⟨invalid, -⟩
    · exact sound_more (more ▸ answer)
    · exact sound_invalid (invalid ▸ answer)

/-- A buffer of two bytes or more begins with a line end, or not, for good. -/
theorem crlfAt_zero_append (two : 2 ≤ bytes.length) : CrlfAt (bytes ++ rest) 0 ↔ CrlfAt bytes 0 :=
  crlfAt_append two rest

/-- What is too long before its end is too long with it. -/
theorem decodeHttpHeader_full (notEmpty : ¬ CrlfAt bytes 0) (limited : options.packetSize ≠ 0)
    (full : options.packetSize < bytes.length)
    (opened : headerStop bytes = none ∨ headerStop bytes = some bytes.length ∧ Continues rest) :
    decodeHttpHeader (bytes ++ rest) options = some .invalid := by
  have two : 2 ≤ bytes.length := by omega
  have notEmptyLater : ¬ CrlfAt (bytes ++ rest) 0 := mt (crlfAt_zero_append two).mp notEmpty
  cases later : headerStop (bytes ++ rest) with
  | some stop =>
    have beyond := headerStop_beyond opened later
    have exceeds : exceedsLimit stop options.packetSize = true :=
      exceedsLimit_iff.mpr ⟨limited, by omega⟩
    rw [decodeHttpHeader_of_stop options notEmptyLater later, if_pos exceeds]
  | none =>
    rw [decodeHttpHeader_of_open options notEmptyLater later, incompleteText_append limited full]

/-- The buffer is a whole header within the limit, and what follows goes on with it. -/
def GoesOn (options : VmPacketOptions) (bytes rest : List UInt8) : Prop :=
  WholeHeader bytes ∧ (options.packetSize = 0 ∨ bytes.length ≤ options.packetSize) ∧
    Continues rest

theorem headerStop_eq_length_iff (notEmpty : ¬ CrlfAt bytes 0) :
    headerStop bytes = some bytes.length ↔ WholeHeader bytes := by
  rw [wholeHeader_iff, headerStop, Option.bind_eq_some_iff]
  constructor
  · rintro ⟨firstEnd, found, join⟩
    refine ⟨notEmpty, firstEnd, found, ?_⟩
    cases answer : headerEnd bytes (firstEnd + 2) with
    | none => rw [answer] at join; cases join
    | some stopped => rw [answer] at join; rw [← join]; rfl
  · rintro ⟨-, firstEnd, found, ends⟩
    exact ⟨firstEnd, found, by rw [ends]; rfl⟩

theorem decodeHttpHeader_stable_iff (bytes rest : List UInt8) :
    Stable (decodeHttpHeader · options) bytes rest ↔ ¬ GoesOn options bytes rest := by
  by_cases empty : CrlfAt bytes 0
  · have later := (crlfAt_append empty.within rest).mpr empty
    refine iff_of_true ?_ fun goes => goes.1.notEmpty empty
    exact stable_complete (decodeHttpHeader_empty options empty) empty.within
      (decodeHttpHeader_empty options later)
  · cases ends : headerStop bytes with
    | none =>
      refine iff_of_true ?_ fun goes => ?_
      · have answer := decodeHttpHeader_of_open options empty ends
        rcases incompleteText_cases bytes options.packetSize with more | ⟨invalid, limited, full⟩
        · exact stable_more (more ▸ answer) (decodeHttpHeader_sound options _)
        · exact stable_invalid (invalid ▸ answer)
            (decodeHttpHeader_full options empty limited full (.inl ends))
      · have whole := (headerStop_eq_length_iff empty).mpr goes.1
        rw [ends] at whole
        cases whole
    | some stop =>
      have bounds := headerStop_bounds ends
      have answer := decodeHttpHeader_of_stop options empty ends
      have two : 2 ≤ bytes.length := by omega
      have notEmptyLater : ¬ CrlfAt (bytes ++ rest) 0 := mt (crlfAt_zero_append two).mp empty
      by_cases settled : stop < bytes.length ∨ ¬ Continues rest
      · have later := decodeHttpHeader_of_stop options notEmptyLater
          (headerStop_append ends settled)
        rw [take_append_of_le_length bounds.2,
          take_append_of_le_length (by omega)] at later
        refine iff_of_true ?_ fun goes => ?_
        · by_cases exceeds : exceedsLimit stop options.packetSize = true
          · rw [if_pos exceeds] at answer later
            exact stable_invalid answer later
          · rw [if_neg exceeds] at answer later
            exact stable_complete answer bounds.2 later
        · have whole := (headerStop_eq_length_iff empty).mpr goes.1
          rw [ends] at whole
          cases whole
          exact settled.elim (Nat.lt_irrefl _) fun stops => stops goes.2.2
      · obtain ⟨notBefore, goes⟩ := not_or.mp settled
        have continues := not_not.mp goes
        have same : stop = bytes.length := Nat.le_antisymm bounds.2 (Nat.not_lt.mp notBefore)
        subst same
        have whole := (headerStop_eq_length_iff empty).mp ends
        by_cases exceeds : exceedsLimit bytes.length options.packetSize = true
        · obtain ⟨limited, full⟩ := exceedsLimit_iff.mp exceeds
          rw [if_pos exceeds] at answer
          refine iff_of_true (stable_invalid answer ?_) fun goes => ?_
          · exact decodeHttpHeader_full options empty limited full (.inr ⟨ends, continues⟩)
          · rcases goes.2.1 with free | within
            · exact limited free
            · omega
        · rw [if_neg exceeds] at answer
          have within : options.packetSize = 0 ∨ bytes.length ≤ options.packetSize := by
            rw [exceedsLimit_iff] at exceeds
            omega
          refine iff_of_false ?_ (not_not.mpr ⟨whole, within, continues⟩)
          rintro ⟨outcome, later, now, run, keeps⟩
          dsimp only at now run
          rw [answer] at now
          cases now
          obtain ⟨-, rfl⟩ := keeps
          -- The packet of the longer buffer does not end where this one does.
          cases stops : headerStop (bytes ++ rest) with
          | some stop =>
            have beyond := headerStop_beyond (.inr ⟨ends, continues⟩) stops
            rw [decodeHttpHeader_of_stop options notEmptyLater stops] at run
            split at run
            · cases run
            injection run with packets
            injection packets with _ lengths
            omega
          | none =>
            rw [decodeHttpHeader_of_open options notEmptyLater stops] at run
            rcases incompleteText_cases (bytes ++ rest) options.packetSize with
              more | ⟨invalid, -⟩
            · rw [more] at run; cases run
            · rw [invalid] at run; cases run

end Header

/-! ## All modes, and streams -/

section Modes

variable (mode : VmPacketMode) (options : VmPacketOptions)

theorem decodePacket_of_type {htype : PacketType} (known : mode.packetType = some htype) :
    decodePacket mode options = (decodeFixed mode · options) := by
  cases mode <;> first | rfl | cases known

theorem decodePacket_sound (bytes : List UInt8) : Sound (decodePacket mode options) bytes := by
  cases known : mode.packetType with
  | some htype =>
    rw [decodePacket_of_type mode options known]
    exact (decodeFixed_spec known options bytes).1
  | none =>
    cases mode with
    | line => exact decodeLine_sound options bytes
    | http => exact decodeHttpStart_sound options bytes
    | httpHeader => exact decodeHttpHeader_sound options bytes
    | length1 | length2 | length4 | asn1 | sunRm | cdr | fastCgi | tpkt | sslTls => cases known

theorem stable_of_ne (notHeader : mode ≠ .httpHeader) (bytes rest : List UInt8) :
    Stable (decodePacket mode options) bytes rest := by
  cases known : mode.packetType with
  | some htype =>
    have sound := decodePacket_sound mode options (bytes ++ rest)
    rw [decodePacket_of_type mode options known] at sound ⊢
    exact (decodeFixed_spec known options bytes).2 rest sound
  | none =>
    cases mode with
    | line => exact decodeLine_stable options bytes rest
    | http => exact decodeHttpStart_stable options bytes rest
    | httpHeader => exact absurd rfl notHeader
    | length1 | length2 | length4 | asn1 | sunRm | cdr | fastCgi | tpkt | sslTls => cases known

/-- Why a stream is not decoded on. -/
inductive PacketStop where
  | invalid
  | panicked

/-- The decoder as a reader of streams calls it. -/
def progress (bytes : List UInt8) : Progress VmDecodedPacket PacketStop :=
  match decodePacket mode options bytes with
  | some (.complete packet consumed) => .done packet consumed
  | some (.more _) => .more
  | some .invalid => .failed .invalid
  | none => .failed .panicked

theorem staysDecided_of_stable {bytes rest : List UInt8}
    (stable : Stable (decodePacket mode options) bytes rest) :
    Incremental.StaysDecided (progress mode options) bytes rest := by
  obtain ⟨outcome, later, now, run, keeps⟩ := stable
  unfold Incremental.StaysDecided progress
  rw [now, run]
  cases outcome with
  | more => exact .inl rfl
  | complete packet consumed =>
    obtain ⟨-, rfl⟩ := keeps
    exact .inr rfl
  | invalid =>
    obtain rfl : later = .invalid := keeps
    exact .inr rfl

theorem decodePacket_nil : decodePacket mode options [] = some (.more none) := by
  cases known : mode.packetType with
  | some htype =>
    have length : fixedPacketLength htype [] options.packetSize = some (some 0) := by
      cases mode <;> cases known <;> rfl
    rw [decodePacket_of_type mode options known]
    dsimp only
    rw [decodeFixed_of_length known options [] length]
    rfl
  | none =>
    have free : ¬ (options.packetSize ≠ 0 ∧ 0 ≥ options.packetSize) := by omega
    have wide : ¬ (options.lineLength ≠ 0 ∧ 0 ≥ options.lineLength) := by omega
    have incomplete : incompleteText [] options.packetSize = .more none :=
      if_neg fun full => absurd full.2 (Nat.not_lt_zero _)
    cases mode with
    | line =>
      refine decodeLine_of_error options ?_
      simp only [lineConsumed, findIdx?_nil, Option.map_none, length_nil, if_neg wide,
        if_neg free]
    | http => exact (decodeHttpStart_of_none options rfl).trans (by rw [incomplete])
    | httpHeader =>
      have notEmpty : ¬ CrlfAt [] 0 := fun empty => by simpa using empty.within
      exact (decodeHttpHeader_of_open options notEmpty rfl).trans (by rw [incomplete])
    | length1 | length2 | length4 | asn1 | sunRm | cdr | fastCgi | tpkt | sslTls => cases known

theorem progress_productive : Incremental.Productive (progress mode options) where
  consumes := by
    intro bytes packet consumed done
    obtain ⟨outcome, run, bounds⟩ := decodePacket_sound mode options bytes
    unfold progress at done
    rw [run] at done
    cases outcome with
    | complete packet' consumed' =>
      injection done with samePacket same
      rw [← same]
      exact bounds packet' consumed' rfl
    | more | invalid => cases done
  waits := by
    unfold progress
    rw [decodePacket_nil]

/-- The answer for a buffer stands whatever follows, except where the buffer is a whole header
and what follows goes on with it. A stream that is not cut there gives the same packets and
the same end however it is cut. -/
theorem decodePacket_stable_iff : (∀ bytes rest, Stable (decodePacket mode options) bytes rest ↔
      ¬ (mode = .httpHeader ∧ GoesOn options bytes rest)) ∧ ∀ reads : List (List UInt8),
      (∀ look ∈ Incremental.looks (progress mode options) (.pending []) reads,
        ¬ (mode = .httpHeader ∧ GoesOn options look.1 look.2)) →
      Incremental.feedAll (progress mode options) reads =
        Incremental.drain (progress mode options) reads.flatten := by
  have stable (bytes rest : List UInt8) : Stable (decodePacket mode options) bytes rest ↔
      ¬ (mode = .httpHeader ∧ GoesOn options bytes rest) := by
    by_cases isHeader : mode = .httpHeader
    · subst isHeader
      exact (decodeHttpHeader_stable_iff options bytes rest).trans
        (not_congr (and_iff_right rfl).symm)
    · exact iff_of_true (stable_of_ne mode options isHeader bytes rest) fun goes => isHeader goes.1
  refine ⟨stable, fun reads uncut => ?_⟩
  refine Incremental.feedAll_eq_drain (progress_productive mode options) reads fun look mem => ?_
  exact staysDecided_of_stable mode options ((stable look.1 look.2).mpr (uncut look mem))

end Modes

/-- The blank of the second read comes too late: the header has been answered without it. -/
theorem folded_header_cut :
    ¬ Stable (decodePacket .httpHeader ⟨0, 0⟩) [65, 58, 98, 13, 10] [32, 99, 13, 10] := by
  have whole : WholeHeader [65, 58, 98, 13, 10] := {
    notEmpty := by simp [CrlfAt]
    ends := ⟨3, by simp [CrlfAt], rfl⟩
    goesOn := by
      intro i isEnd inner
      rcases i with _ | _ | _ | i
      · simp [CrlfAt] at isEnd
      · simp [CrlfAt] at isEnd
      · simp [CrlfAt] at isEnd
      · have length : i + 3 + 2 < 5 := inner
        omega }
  intro stable
  refine (decodeHttpHeader_stable_iff ⟨0, 0⟩ _ _).mp stable ⟨whole, .inl rfl, 32, rfl, rfl⟩

/-- The empty line at the end of the headers may be cut. -/
theorem decodePacket_stable_iff_end_of_headers :
    Incremental.feedAll (progress .httpHeader ⟨0, 0⟩) [[13], [10]] =
      Incremental.drain (progress .httpHeader ⟨0, 0⟩) [[13], [10]].flatten := by
  refine (decodePacket_stable_iff .httpHeader ⟨0, 0⟩).2 [[13], [10]] fun look mem => ?_
  rintro ⟨-, -, -, byte, first, blank⟩
  -- Neither what follows the first read nor what follows the second is a blank.
  have follows : look.2 = [10] ∨ look.2 = [] := by
    rw [Incremental.looks, mem_append] at mem
    rcases mem with mem | mem
    · obtain ⟨visited, -, rfl⟩ := mem_map.mp mem
      exact .inl rfl
    unfold Incremental.looks at mem
    split at mem
    next same => cases same
    next => cases mem
    next same =>
      cases same
      rw [mem_append] at mem
      rcases mem with mem | mem
      · obtain ⟨visited, -, rfl⟩ := mem_map.mp mem
        exact .inr rfl
      · unfold Incremental.looks at mem
        cases mem
  rcases follows with same | same
  · rw [same] at first
    cases first
    exact absurd blank (by decide)
  · rw [same] at first
    cases first

end Terlan.Packet
