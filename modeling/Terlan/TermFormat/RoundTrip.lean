/-
  Round trips of the three envelope profiles. For each profile, the encoder succeeds exactly
  on what the profile can carry and writes its encoding, and the decoder accepts exactly the
  encodings of canonical values; `round_trips` puts the two together.
-/
import Terlan.TermFormat.EncodeSpec
import Terlan.TermFormat.DecodeSpec

namespace Terlan.TermFormat

open Terlan.Lib Terlan.DistributedState List

/-! ## What a round trip is -/

/-- An encoder with a byte limit and a decoder agree: what is encoded decodes to its canonical
form, and what is accepted, within the limit, encodes to the same bytes again. -/
structure RoundTrips {α : Type} (limit : Nat) (encode : α → Except String Bytes)
    (decode : Bytes → Except String α) (canonicalForm : α → α) : Prop where
  decodes : ∀ a bytes, encode a = .ok bytes → decode bytes = .ok (canonicalForm a)
  encodes : ∀ bytes a, decode bytes = .ok a → bytes.length ≤ limit → encode a = .ok bytes
  host : ∀ bytes a, decode bytes = .ok a → bytes.length ≤ usizeMax
  unique : ∀ bytes bytes' a, decode bytes = .ok a → decode bytes' = .ok a → bytes = bytes'

/-- Round trips from what the two sides accept: the encoder writes `out` of valid data within
its limit, the decoder reads `out` of valid canonical data, and `cap` bounds both. -/
theorem roundTrips_of {α : Type} {limit cap : Nat} {encode : α → Except String Bytes}
    {decode : Bytes → Except String α} {canonicalForm : α → α} {valid : α → Prop}
    {out : α → Bytes} (host : cap ≤ usizeMax)
    (encode_ok : ∀ a bytes, encode a = .ok bytes ↔
      valid a ∧ bytes = out a ∧ bytes.length ≤ limit ∧ bytes.length ≤ cap)
    (decode_ok : ∀ bytes a, decode bytes = .ok a ↔
      (valid a ∧ canonicalForm a = a) ∧ bytes = out a ∧ bytes.length ≤ cap)
    (keeps : ∀ a, valid a → valid (canonicalForm a) ∧
      canonicalForm (canonicalForm a) = canonicalForm a ∧ out (canonicalForm a) = out a) :
    RoundTrips limit encode decode canonicalForm where
  decodes a bytes run := by
    obtain ⟨holds, rfl, -, fits⟩ := (encode_ok _ _).mp run
    obtain ⟨holds', again, same⟩ := keeps a holds
    exact (decode_ok _ _).mpr ⟨⟨holds', again⟩, same.symm, fits⟩
  encodes bytes a run fits := by
    obtain ⟨⟨holds, -⟩, rfl, fits'⟩ := (decode_ok _ _).mp run
    exact (encode_ok _ _).mpr ⟨holds, rfl, fits, fits'⟩
  host bytes a run := Nat.le_trans ((decode_ok _ _).mp run).2.2 host
  unique bytes bytes' a run run' := by
    obtain ⟨-, rfl, -⟩ := (decode_ok _ _).mp run
    obtain ⟨-, rfl, -⟩ := (decode_ok _ _).mp run'
    rfl

section Profiles

variable {declaredAtoms : List String}

/-! ## Headers and whole payloads -/

def header (profile : UInt8) : Bytes := magic ++ [version, profile]

theorem writes_writeHeader (profile : UInt8) : Writes (writeHeader profile) True (header profile) :=
  (writes_bind (writes_extend magic) fun _ => writes_bind (writes_push version) fun _ =>
    writes_push profile).congr (by simp) rfl

theorem decodes_readHeader (profile : UInt8) : Decodes declaredAtoms (readHeader profile)
      (reading (fun _ => True) (fun _ => header profile) fun _ => 0) := by
  refine (decodes_bind (decodes_readExact magic.length) fun prefix_ _ =>
    decodes_check (failIf_ok_iff.trans not_not) fun _ => decodes_bind decodes_readU8
      fun actualVersion _ => decodes_check (failIf_ok_iff.trans not_not) fun _ =>
        decodes_bind decodes_readU8 fun actualProfile _ =>
          decodes_lift (failIf (actualProfile ≠ profile) _)).congr ?_
  rintro ⟨⟩ bytes n
  constructor
  · rintro ⟨_, _, _, _, _, ⟨-, rfl, rfl⟩, ⟨rfl, _, _, _, _, _, ⟨-, rfl, rfl⟩, ⟨rfl, _, _, _, _, _,
      ⟨-, rfl, rfl⟩, ⟨same, rfl, rfl⟩, rfl, rfl⟩, rfl, rfl⟩, rfl, rfl⟩
    have same := not_not.mp (failIf_ok_iff.mp same)
    exact ⟨trivial, by rw [same]; rfl, rfl⟩
  · rintro ⟨-, rfl, rfl⟩
    exact ⟨magic, _, _, _, _, ⟨rfl, rfl, rfl⟩, ⟨rfl, version, _, _, _, _, ⟨trivial, rfl, rfl⟩, ⟨rfl,
      profile, _, _, _, _, ⟨trivial, rfl, rfl⟩, ⟨failIf_ok_iff.mpr (not_not.mpr rfl), rfl, rfl⟩,
        rfl, rfl⟩, rfl, rfl⟩, rfl, rfl⟩

variable {bytes : Bytes}

/-- A whole payload is accepted when it is in the language and nothing is left. -/
theorem decodeWhole_ok_iff {α : Type} {decode : DecodeM α} {language : Language α}
    (h : Decodes declaredAtoms decode language) {slots : Nat} {a : α} :
    decodeWhole ⟨bytes, 0, declaredAtoms, slots⟩ decode = .ok a ↔
      ∃ n, language a bytes n ∧ bytes.length ≤ usizeMax ∧ n ≤ slots := by
  have placed : (⟨bytes, 0, declaredAtoms, slots⟩ : Decoder).WellPlaced declaredAtoms :=
    ⟨Nat.zero_le _, Nat.zero_le _, rfl⟩
  have finishes : ∀ decoder decoder' : Decoder, finish decoder = .ok ((), decoder') ↔
      decoder.offset = decoder.bytes.length ∧ decoder' = decoder := by
    intro decoder decoder'
    change (liftM (failIf (decoder.offset ≠ decoder.bytes.length)
      s!"error[tetf_trailing]: {decoder.bytes.length - decoder.offset} unconsumed payload bytes") :
        DecodeM Unit) decoder = _ ↔ _
    rw [lift_ok_iff, failIf_ok_iff, not_not]
  unfold decodeWhole
  constructor
  · intro run
    cases result : (decode >>= fun value => finish >>= fun _ => pure value : DecodeM α)
        ⟨bytes, 0, declaredAtoms, slots⟩ with
    | error e => rw [result] at run; cases run
    | ok r =>
      obtain ⟨value, decoder⟩ := r
      rw [result] at run
      cases run
      obtain ⟨value, decoder', first, rest⟩ := bind_ok_iff.mp result
      obtain ⟨⟨⟩, decoder'', last, rest⟩ := bind_ok_iff.mp rest
      cases rest
      obtain ⟨done, rfl⟩ := (finishes _ _).mp last
      obtain ⟨read, n, inLanguage, allowed, rfl⟩ := (h _ _ _ placed).mp first
      have whole : read = bytes := by
        have length : read.length = bytes.length := by
          simpa [Decoder.advance] using done
        have payload : read <+: bytes := allowed.payload
        exact payload.eq_of_length length
      subst whole
      have host := allowed.host
      exact ⟨n, inLanguage, by simpa using host, allowed.slots⟩
  · rintro ⟨n, inLanguage, host, enough⟩
    have allowed : (⟨bytes, 0, declaredAtoms, slots⟩ : Decoder).Allows bytes n :=
      ⟨prefix_refl _, by rwa [Nat.zero_add], enough⟩
    have first := (h _ _ _ placed).mpr ⟨bytes, n, inLanguage, allowed, rfl⟩
    have last := (finishes ((⟨bytes, 0, declaredAtoms, slots⟩ : Decoder).advance bytes.length n)
      _).mpr ⟨Nat.zero_add _, rfl⟩
    have whole : (decode >>= fun value => finish >>= fun _ => pure value : DecodeM α)
        ⟨bytes, 0, declaredAtoms, slots⟩ = .ok (a, _) :=
      bind_ok_iff.mpr ⟨a, _, first, bind_ok_iff.mpr ⟨(), _, last, rfl⟩⟩
    rw [whole]

variable {value : ReplValue}

theorem isCanonical_iff : IsCanonical declaredAtoms maxNestingDepth value ↔
      Encodable declaredAtoms maxNestingDepth value ∧ canonical value = value :=
  ⟨fun h => ⟨h.encodable, h.fixed⟩, fun h => ⟨h.1, h.2⟩⟩

theorem keeps_canonical (h : Encodable declaredAtoms maxNestingDepth value) :
    Encodable declaredAtoms maxNestingDepth (canonical value) ∧
      canonical (canonical value) = canonical value ∧ encoding (canonical value) = encoding value :=
  ⟨(keepsCanonical value h).encodable, (keepsCanonical value h).again,
    (keepsCanonical value h).same⟩

/-! ## Runtime terms -/

theorem encodeTetf_ok_iff : encodeTetf value declaredAtoms = .ok bytes ↔
      Encodable declaredAtoms maxNestingDepth value ∧
        bytes = header profileRuntimeTerm ++ encoding value ∧ bytes.length ≤ usizeMax := by
  unfold encodeTetf
  rw [encodedInto_ok_iff (writes_bind (writes_writeHeader profileRuntimeTerm) fun _ =>
    encodeValue_writes value 0), true_and]
  exact and_congr_right fun _ => ⟨fun ⟨eq, fits⟩ => ⟨eq, eq ▸ fits⟩, fun ⟨eq, fits⟩ => ⟨eq, eq ▸ fits⟩⟩

theorem decodeTetf_ok_iff : decodeTetf bytes declaredAtoms = .ok value ↔
      (Encodable declaredAtoms maxNestingDepth value ∧ canonical value = value) ∧
        bytes = header profileRuntimeTerm ++ encoding value ∧ bytes.length ≤ usizeMax := by
  have reads := decodes_bind (@decodes_readHeader declaredAtoms profileRuntimeTerm) fun _ _ =>
    @decodeValue_reads declaredAtoms maxNestingDepth
  unfold decodeTetf Decoder.new
  rw [decodeWhole_ok_iff reads, ← isCanonical_iff]
  constructor
  · rintro ⟨_, ⟨_, _, _, _, _, ⟨-, rfl, rfl⟩, ⟨canon, rfl, rfl⟩, rfl, rfl⟩, fits, -⟩
    exact ⟨canon, rfl, fits⟩
  · rintro ⟨canon, rfl, fits⟩
    refine ⟨_, ⟨(), _, _, _, _, ⟨trivial, rfl, rfl⟩, ⟨canon, rfl, rfl⟩, rfl, rfl⟩, fits, ?_⟩
    have := nestedValues_lt_length value canon
    rw [length_append] at fits
    change 0 + nestedValues value ≤ usizeMax
    omega

theorem roundTrips_runtimeTerm (declaredAtoms : List String) :
    RoundTrips usizeMax (fun value => encodeTetf value declaredAtoms)
      (fun bytes => decodeTetf bytes declaredAtoms) canonical :=
  roundTrips_of (Nat.le_refl _)
    (fun _ _ => encodeTetf_ok_iff.trans (by simp only [and_self]))
    (fun _ _ => decodeTetf_ok_iff) fun value h => by
      obtain ⟨encodable, again, same⟩ := keeps_canonical h
      exact ⟨encodable, again, by rw [same]⟩

/-! ## Distribution envelopes -/

structure ValidRef (reference : TetfVmRef) : Prop where
  node : isBlank reference.nodeId = false
  localId : reference.localId ≠ 0
  epoch : reference.epoch ≠ 0
  fits : FitsLength (asBytes reference.nodeId).length

def refField (reference : TetfVmRef) : Bytes :=
  tagVmRef :: reference.kind.tag :: textField reference.nodeId ++
    beBytes 8 reference.localId.toNat ++ beBytes 8 reference.epoch.toNat

structure ValidEnvelope (declaredAtoms : List String) (envelope : TetfDistributionEnvelope) :
    Prop where
  trace : isBlank envelope.traceId = false
  fromNode : isBlank envelope.fromNodeId = false
  toNode : isBlank envelope.toNodeId = false
  epoch : envelope.epoch ≠ 0
  traceFits : FitsLength (asBytes envelope.traceId).length
  fromNodeFits : FitsLength (asBytes envelope.fromNodeId).length
  toNodeFits : FitsLength (asBytes envelope.toNodeId).length
  refsFit : FitsLength envelope.refs.length
  refs : ∀ reference ∈ envelope.refs, ValidRef reference
  payload : Encodable declaredAtoms maxNestingDepth envelope.payload

def envelopeEncoding (envelope : TetfDistributionEnvelope) : Bytes :=
  header profileDistributionEnvelope ++ tagDistributionEnvelope :: textField envelope.traceId ++
    textField envelope.fromNodeId ++ textField envelope.toNodeId ++
      beBytes 8 envelope.epoch.toNat ++ beBytes 4 envelope.refs.length ++
        envelope.refs.flatMap refField ++ encoding envelope.payload

def canonicalEnvelope (envelope : TetfDistributionEnvelope) : TetfDistributionEnvelope :=
  { envelope with payload := canonical envelope.payload }

theorem validateEpoch_ok_iff {epoch : UInt64} : validateEpoch epoch = .ok () ↔ epoch ≠ 0 := by
  unfold validateEpoch
  split <;> simp_all

theorem validateVmRef_ok_iff {reference : TetfVmRef} : validateVmRef reference = .ok () ↔
      isBlank reference.nodeId = false ∧ reference.localId ≠ 0 ∧ reference.epoch ≠ 0 := by
  unfold validateVmRef
  rw [check_bind_ok_iff, check_bind_ok_iff, validateTextField_ok_iff, failIf_ok_iff,
    validateEpoch_ok_iff]

theorem writes_writeU64 (value : UInt64) :
    Writes (writeU64 value) True (beBytes 8 value.toNat) := writes_extend _

theorem writes_encodeVmRef (reference : TetfVmRef) :
    Writes (encodeVmRef reference) (ValidRef reference) (refField reference) := by
  refine (writes_check validateVmRef_ok_iff fun _ => writes_bind (writes_push tagVmRef) fun _ =>
    writes_bind (writes_push reference.kind.tag) fun _ => writes_bind (writes_text reference.nodeId)
      fun _ => writes_bind (writes_writeU64 reference.localId) fun _ =>
        writes_writeU64 reference.epoch).congr ?_ ?_
  · constructor
    · rintro ⟨⟨node, localId, epoch⟩, -, -, fits, -⟩
      exact ⟨node, localId, epoch, fits⟩
    · rintro ⟨node, localId, epoch, fits⟩
      exact ⟨⟨node, localId, epoch⟩, trivial, trivial, fits, trivial, trivial⟩
  · simp [refField]

theorem decodeVmRefKind_ok_iff {tag : UInt8} {kind : TetfVmRefKind} :
    decodeVmRefKind tag = .ok kind ↔ tag = kind.tag := by
  unfold decodeVmRefKind
  constructor
  · intro h
    split at h
    next eq => cases h; exact eq
    next =>
    split at h
    next eq => cases h; exact eq
    next =>
    split at h
    next eq => cases h; exact eq
    next =>
    split at h
    next eq => cases h; exact eq
    next => cases h
  · rintro rfl
    cases kind <;> rfl

theorem decodes_decodeVmRef :
    Decodes declaredAtoms decodeVmRef (reading ValidRef refField fun _ => 0) := by
  have kindReads : Decodes declaredAtoms (readU8 >>= fun tag => liftM (decodeVmRefKind tag))
      (reading (fun _ => True) (fun kind => [kind.tag]) fun _ => 0) := by
    refine (decodes_read decodes_readU8 fun tag _ => decodes_lift (decodeVmRefKind tag)).congr
      fun kind bytes n => ?_
    constructor
    · rintro ⟨tag, -, _, rfl, isTag, rfl, rfl⟩
      cases decodeVmRefKind_ok_iff.mp isTag
      exact ⟨trivial, rfl, rfl⟩
    · rintro ⟨-, rfl, rfl⟩
      exact ⟨kind.tag, trivial, _, rfl, decodeVmRefKind_ok_iff.mpr rfl, rfl, rfl⟩
  have assoc : decodeVmRef = (expectTag tagVmRef >>= fun _ =>
      (readU8 >>= fun tag => liftM (decodeVmRefKind tag)) >>= fun kind =>
        readText >>= fun nodeId => readU64 >>= fun localId => readU64 >>= fun epoch =>
          liftM (validateVmRef ⟨kind, nodeId, localId, epoch⟩) >>= fun _ =>
            pure ⟨kind, nodeId, localId, epoch⟩ : DecodeM TetfVmRef) := by
    simp only [bind_assoc]
    rfl
  rw [assoc]
  refine (decodes_read (decodes_expectTag tagVmRef) fun _ _ => decodes_read kindReads fun kind _ =>
    decodes_read decodes_readText fun nodeId _ => decodes_read decodes_readU64 fun localId _ =>
      decodes_read decodes_readU64 fun epoch _ => decodes_check validateVmRef_ok_iff fun _ =>
        decodes_pure (TetfVmRef.mk kind nodeId localId epoch)).congr fun reference bytes n => ?_
  constructor
  · rintro ⟨-, -, _, rfl, kind, -, _, rfl, nodeId, fits, _, rfl, localId, -, _, rfl, epoch, -, _,
      rfl, ⟨node, localIdOk, epochOk⟩, rfl, rfl, rfl⟩
    exact ⟨⟨node, localIdOk, epochOk, fits⟩, by simp [refField], rfl⟩
  · rintro ⟨⟨node, localIdOk, epochOk, fits⟩, rfl, rfl⟩
    obtain ⟨kind, nodeId, localId, epoch⟩ := reference
    refine ⟨(), trivial, _, ?_, kind, trivial, _, rfl, nodeId, fits, _, rfl, localId, trivial, _,
      rfl, epoch, trivial, _, rfl, ⟨node, localIdOk, epochOk⟩, rfl, rfl, rfl⟩
    simp [refField]

theorem encodeTetfDistributionEnvelope_ok_iff {envelope : TetfDistributionEnvelope} {maximum : Nat}
    : encodeTetfDistributionEnvelopeBounded envelope declaredAtoms maximum = .ok bytes ↔
      ValidEnvelope declaredAtoms envelope ∧ bytes = envelopeEncoding envelope ∧
        bytes.length ≤ maximum := by
  have refs := @writes_forM _ _ envelope.refs id encodeVmRef ValidRef refField
    fun reference _ => writes_encodeVmRef reference
  rw [List.map_id] at refs
  have body := writes_bind (writes_writeHeader profileDistributionEnvelope) fun _ =>
    writes_bind (writes_push tagDistributionEnvelope) fun _ =>
      writes_bind (writes_text envelope.traceId) fun _ =>
        writes_bind (writes_text envelope.fromNodeId) fun _ =>
          writes_bind (writes_text envelope.toNodeId) fun _ =>
            writes_bind (writes_writeU64 envelope.epoch) fun _ =>
              writes_bind (writes_len envelope.refs.length) fun _ => writes_bind refs fun _ =>
                @encodeValue_writes declaredAtoms envelope.payload 0
  unfold encodeTetfDistributionEnvelopeBounded
  rw [check_bind_ok_iff, check_bind_ok_iff, check_bind_ok_iff, check_bind_ok_iff,
    validateTextField_ok_iff, validateTextField_ok_iff, validateTextField_ok_iff,
    validateEpoch_ok_iff, encodedInto_ok_iff body]
  have out : envelopeEncoding envelope = header profileDistributionEnvelope ++
      ([tagDistributionEnvelope] ++ (textField envelope.traceId ++ (textField envelope.fromNodeId ++
        (textField envelope.toNodeId ++ (beBytes 8 envelope.epoch.toNat ++
          (beBytes 4 envelope.refs.length ++ (envelope.refs.flatMap refField ++
            encoding envelope.payload))))))) := by
    simp [envelopeEncoding]
  rw [← out]
  constructor
  · rintro ⟨trace, fromNode, toNode, epoch, ⟨-, -, traceFits, fromNodeFits, toNodeFits, -, refsFit,
      refs, payload⟩, rfl, fits⟩
    exact ⟨⟨trace, fromNode, toNode, epoch, traceFits, fromNodeFits, toNodeFits, refsFit, refs,
      payload⟩, rfl, fits⟩
  · rintro ⟨⟨trace, fromNode, toNode, epoch, traceFits, fromNodeFits, toNodeFits, refsFit, refs,
      payload⟩, rfl, fits⟩
    exact ⟨trace, fromNode, toNode, epoch, ⟨trivial, trivial, traceFits, fromNodeFits, toNodeFits,
      trivial, refsFit, refs, payload⟩, rfl, fits⟩

theorem decodeTetfDistributionEnvelope_ok_iff {envelope : TetfDistributionEnvelope} :
    decodeTetfDistributionEnvelope bytes declaredAtoms = .ok envelope ↔
      (ValidEnvelope declaredAtoms envelope ∧ canonicalEnvelope envelope = envelope) ∧
        bytes = envelopeEncoding envelope ∧ bytes.length ≤ usizeMax := by
  have payloadReads := @decodeValue_reads declaredAtoms maxNestingDepth
  have refsRead : ∀ count, Decodes declaredAtoms (decodeMany decodeVmRef count)
      (reading (fun refs => refs.length = count ∧ ∀ reference ∈ refs, ValidRef reference)
        (fun refs => refs.flatMap refField) fun _ => 0) := by
    intro count
    refine (decodes_decodeMany decodes_decodeVmRef count).congr fun refs bytes n => ?_
    simp [reading]
  have room : ∀ {refs : List TetfVmRef}, refs.length * 2 ≤ (refs.flatMap refField).length := by
    intro refs
    have := @length_flatMap_ge _ refs refField 2 fun reference _ => by
      simp only [refField, length_append, length_cons]
      omega
    omega
  have reads := decodes_read (@decodes_readHeader declaredAtoms
    profileDistributionEnvelope) fun _ _ => decodes_read (decodes_expectTag tagDistributionEnvelope)
      fun _ _ => decodes_read decodes_readText fun traceId _ => decodes_read decodes_readText
        fun fromNodeId _ => decodes_read decodes_readText fun toNodeId _ =>
          decodes_read decodes_readU64 fun epoch _ =>
            decodes_check (@validateTextField_ok_iff "trace_id" traceId) fun _ =>
              decodes_check (@validateTextField_ok_iff "from_node_id" fromNodeId) fun _ =>
                decodes_check (@validateTextField_ok_iff "to_node_id" toNodeId) fun _ =>
                  decodes_check (@validateEpoch_ok_iff epoch) fun _ => decodes_read decodes_readLen
                    fun count _ => @decodes_room _ _ count 2 _ _ (decodes_read (refsRead count)
                      fun refs _ => decodes_bind payloadReads fun payload _ => decodes_pure
                        (TetfDistributionEnvelope.mk traceId fromNodeId toNodeId epoch refs payload))
                          (by
                            rintro _ _ _ ⟨refs, ⟨rfl, -⟩, _, rfl, -⟩
                            rw [length_append]
                            exact Nat.le_trans room (Nat.le_add_right _ _))
  unfold decodeTetfDistributionEnvelope Decoder.new
  rw [decodeWhole_ok_iff reads]
  constructor
  · rintro ⟨_, ⟨-, -, _, rfl, -, -, _, rfl, traceId, traceFits, _, rfl, fromNodeId, fromNodeFits, _,
      rfl, toNodeId, toNodeFits, _, rfl, epoch, -, _, rfl, trace, fromNode, toNode, epochOk, count,
        refsFit, _, rfl, refs, ⟨rfl, refsOk⟩, _, rfl, payload, _, _, _, _, ⟨canon, rfl, rfl⟩,
          ⟨rfl, rfl, rfl⟩, rfl, rfl⟩, fits, -⟩
    refine ⟨⟨⟨trace, fromNode, toNode, epochOk, traceFits, fromNodeFits, toNodeFits, refsFit, refsOk,
      canon.encodable⟩, ?_⟩, ?_, fits⟩
    · unfold canonicalEnvelope
      simp only [canon.fixed]
    · simp [envelopeEncoding]
  · rintro ⟨⟨⟨trace, fromNode, toNode, epochOk, traceFits, fromNodeFits, toNodeFits, refsFit, refsOk,
      payloadOk⟩, fixed⟩, rfl, fits⟩
    obtain ⟨traceId, fromNodeId, toNodeId, epoch, refs, payload⟩ := envelope
    have canon : IsCanonical declaredAtoms maxNestingDepth payload :=
      ⟨payloadOk, congrArg TetfDistributionEnvelope.payload fixed⟩
    refine ⟨nestedValues payload, ⟨(), trivial, _, ?_, (), trivial, _, rfl, traceId, traceFits, _,
      rfl, fromNodeId, fromNodeFits, _, rfl, toNodeId, toNodeFits, _, rfl, epoch, trivial, _, rfl,
        trace, fromNode, toNode, epochOk, refs.length, refsFit, _, rfl, refs, ⟨rfl, refsOk⟩, _, rfl,
          payload, _, _, _, _, ⟨canon, rfl, rfl⟩, ⟨rfl, rfl, rfl⟩, rfl, rfl⟩, fits, ?_⟩
    · simp [envelopeEncoding]
    · have := nestedValues_lt_length payload canon
      unfold envelopeEncoding at fits
      rw [length_append] at fits
      dsimp only at fits
      omega

theorem roundTrips_distributionEnvelope (declaredAtoms : List String) {maximum : Nat}
    (host : maximum ≤ usizeMax) : RoundTrips maximum
      (fun envelope => encodeTetfDistributionEnvelopeBounded envelope declaredAtoms maximum)
      (fun bytes => decodeTetfDistributionEnvelope bytes declaredAtoms) canonicalEnvelope :=
  roundTrips_of (Nat.le_refl _)
    (fun _ _ => encodeTetfDistributionEnvelope_ok_iff.trans <| and_congr_right fun _ =>
      and_congr_right fun _ => ⟨fun fits => ⟨fits, Nat.le_trans fits host⟩, And.left⟩)
    (fun _ _ => decodeTetfDistributionEnvelope_ok_iff) fun envelope valid => by
      obtain ⟨encodable, again, same⟩ := keeps_canonical valid.payload
      refine ⟨{ valid with payload := encodable }, ?_, ?_⟩
      · unfold canonicalEnvelope
        simp only [again]
      · unfold envelopeEncoding canonicalEnvelope
        simp only [same]

/-! ## Logical checkpoints -/

/-- The budget check of a value at a depth takes one slot for it and one for each value in it. -/
def CountsBudget (depth : Nat) (value : ReplValue) : Prop :=
  ∀ remaining left, validateValueBudget value remaining depth = .ok left ↔
    left + (1 + nestedValues value) = remaining

variable {depth : Nat}

theorem validateItemsBudget_ok_iff {items : List ReplValue}
    (h : ∀ item ∈ items, CountsBudget depth item) (remaining left : Nat) :
    validateItemsBudget items remaining depth = .ok left ↔
      left + itemsValues items = remaining := by
  induction items generalizing remaining with
  | nil => simp [validateItemsBudget, itemsValues, eq_comm]
  | cons item items ih =>
    obtain ⟨head, tail⟩ := forall_mem_cons.mp h
    simp only [validateItemsBudget, except_bind_ok_iff, head remaining, ih tail, itemsValues]
    constructor
    · rintro ⟨_, h, h'⟩
      omega
    · intro h
      exact ⟨left + itemsValues items, by omega, rfl⟩

theorem validateEntriesBudget_ok_iff {entries : List (ReplValue × ReplValue)}
    (h : ∀ entry ∈ entries, CountsBudget depth entry.1 ∧ CountsBudget depth entry.2)
    (remaining left : Nat) : validateEntriesBudget entries remaining depth = .ok left ↔
      left + entriesValues entries = remaining := by
  induction entries generalizing remaining with
  | nil => simp [validateEntriesBudget, entriesValues, eq_comm]
  | cons entry entries ih =>
    obtain ⟨⟨key, value⟩, tail⟩ := forall_mem_cons.mp h
    simp only [validateEntriesBudget, except_bind_ok_iff, key remaining, value _, ih tail,
      entriesValues]
    constructor
    · rintro ⟨_, h, _, h', h''⟩
      omega
    · intro h
      exact ⟨left + entriesValues entries + (1 + nestedValues entry.2), by omega,
        left + entriesValues entries, rfl, rfl⟩

theorem validateFieldsBudget_ok_iff {fields : List (String × ReplValue)}
    (h : ∀ field ∈ fields, CountsBudget depth field.2) (remaining left : Nat) :
    validateFieldsBudget fields remaining depth = .ok left ↔
      left + fieldsValues fields = remaining := by
  induction fields generalizing remaining with
  | nil => simp [validateFieldsBudget, fieldsValues, eq_comm]
  | cons field fields ih =>
    obtain ⟨head, tail⟩ := forall_mem_cons.mp h
    simp only [validateFieldsBudget, except_bind_ok_iff, head remaining, ih tail, fieldsValues]
    constructor
    · rintro ⟨_, h, h'⟩
      omega
    · intro h
      exact ⟨left + fieldsValues fields, by omega, rfl⟩

theorem takeValue_ok_iff {remaining left : Nat} :
    takeValue remaining = .ok left ↔ left + 1 = remaining := by
  unfold takeValue
  split
  next => simp; omega
  next => simp; omega

/-- The nesting limit of the budget check is the one of the encoder. -/
theorem countsBudget_of_encodable (value : ReplValue) :
    ∀ {depth : Nat}, Encodable declaredAtoms (maxNestingDepth - depth) value →
      CountsBudget depth value := by
  have step : ∀ {value : ReplValue} {depth : Nat} {rest : Nat → Except String Nat},
      Encodable declaredAtoms (maxNestingDepth - depth) value →
        (∀ remaining, validateValueBudget value remaining depth =
          (failIf (depth ≥ maxNestingDepth)
            "error[tetf_depth]: checkpoint value nesting exceeds limit" >>= fun _ =>
              takeValue remaining >>= rest)) →
        (∀ remaining left, rest remaining = .ok left ↔ left + nestedValues value = remaining) →
          CountsBudget depth value := by
    intro value depth rest encodable eq counts remaining left
    obtain ⟨below, levels⟩ := encodable.levels_eq
    rw [eq, check_bind_ok_iff, failIf_ok_iff, except_bind_ok_iff]
    simp only [takeValue_ok_iff, counts]
    exact ⟨fun ⟨_, _, h, h'⟩ => by omega, fun h => ⟨by omega, left + nestedValues value, by omega, rfl⟩⟩
  have leaf : ∀ {value : ReplValue} {depth : Nat},
      Encodable declaredAtoms (maxNestingDepth - depth) value →
        (∀ remaining, validateValueBudget value remaining depth =
          (failIf (depth ≥ maxNestingDepth)
            "error[tetf_depth]: checkpoint value nesting exceeds limit" >>= fun _ =>
              takeValue remaining >>= pure)) → nestedValues value = 0 → CountsBudget depth value := by
    intro value depth encodable eq none
    refine step encodable eq fun remaining left => ?_
    rw [none]
    exact ⟨fun h => by cases h; rfl, fun h => by rw [← h]; rfl⟩
  induction value using ReplValue.induction with
  | unit | int | float | string | stringBytes | bytes | bitString | atom | bool =>
    exact fun h => leaf h (fun _ => by rw [validateValueBudget]) rfl
  | closure callableId types captures =>
    intro depth h
    obtain ⟨below, eq⟩ := h.levels_eq
    rw [eq] at h
    cases h
  | tuple items ih =>
    intro depth h
    have nested := (encodable_tuple_iff.mp h).2.2
    exact step h (fun _ => by rw [validateValueBudget])
      (validateItemsBudget_ok_iff fun item mem => ih item mem (nested item mem))
  | record name fields ih =>
    intro depth h
    have nested := (encodable_record_iff.mp h).2.2.2.2.2
    exact step h (fun _ => by rw [validateValueBudget])
      (validateFieldsBudget_ok_iff fun field mem => ih field mem (nested field mem).2)
  | list items ih =>
    intro depth h
    have nested := (encodable_list_iff.mp h).2.2
    exact step h (fun _ => by rw [validateValueBudget])
      (validateItemsBudget_ok_iff fun item mem => ih item mem (nested item mem))
  | map entries ih =>
    intro depth h
    obtain ⟨-, -, -, keys, values⟩ := encodable_map_iff.mp h
    exact step h (fun _ => by rw [validateValueBudget])
      (validateEntriesBudget_ok_iff fun entry mem =>
        ⟨(ih entry mem).1 (keys entry mem), (ih entry mem).2 (values entry mem)⟩)
  | set items ih =>
    intro depth h
    have nested := (encodable_set_iff.mp h).2.2
    exact step h (fun _ => by rw [validateValueBudget])
      (validateItemsBudget_ok_iff fun item mem => ih item mem (nested item mem))

structure ValidEntry (entry : Entry) : Prop where
  stateNamespace : entry.scope.stateNamespace ≠ ""
  key : entry.scope.key ≠ ""
  owner : entry.ownerNodeId ≠ ""
  node : entry.version.nodeId ≠ ""
  sequence : entry.version.sequence ≠ 0
  sequenceFits : entry.version.sequence.toNat ≤ i64Max
  stateNamespaceFits : FitsLength (asBytes entry.scope.stateNamespace).length
  keyFits : FitsLength (asBytes entry.scope.key).length
  ownerFits : FitsLength (asBytes entry.ownerNodeId).length
  nodeFits : FitsLength (asBytes entry.version.nodeId).length

def entryField (entry : Entry) : Bytes :=
  textField entry.scope.stateNamespace ++ textField entry.scope.key ++
    textField entry.ownerNodeId ++ beBytes 8 entry.version.sequence.toNat ++
      textField entry.version.nodeId ++ policyTag entry.policy :: encoding entry.value

theorem validateEntry_ok_iff {entry : Entry} : validateEntry entry = .ok () ↔
      entry.scope.stateNamespace ≠ "" ∧ entry.scope.key ≠ "" ∧ entry.ownerNodeId ≠ "" ∧
        entry.version.nodeId ≠ "" ∧ entry.version.sequence ≠ 0 ∧
          entry.version.sequence.toNat ≤ i64Max := by
  unfold validateEntry
  split
  next invalid =>
    refine iff_of_false (fun h => by cases h) ?_
    rintro ⟨_, _, _, _, _, _⟩
    simp_all
    omega
  next valid =>
    refine iff_of_true rfl ?_
    simp only [not_or, not_lt] at valid
    exact valid

theorem writes_encodeEntry (entry : Entry) : Writes (encodeEntry declaredAtoms entry)
      (ValidEntry entry ∧ Encodable declaredAtoms maxNestingDepth entry.value)
      (entryField entry) := by
  refine (writes_check validateEntry_ok_iff fun _ =>
    writes_bind (writes_text entry.scope.stateNamespace) fun _ =>
      writes_bind (writes_text entry.scope.key) fun _ =>
        writes_bind (writes_text entry.ownerNodeId) fun _ =>
          writes_bind (writes_writeU64 entry.version.sequence) fun _ =>
            writes_bind (writes_text entry.version.nodeId) fun _ =>
              writes_bind (writes_push (policyTag entry.policy)) fun _ =>
                encodeValue_writes entry.value 0).congr ?_ ?_
  · constructor
    · rintro ⟨⟨stateNamespace, key, owner, node, sequence, sequenceFits⟩, stateNamespaceFits,
        keyFits, ownerFits, -, nodeFits, -, value⟩
      exact ⟨⟨stateNamespace, key, owner, node, sequence, sequenceFits, stateNamespaceFits, keyFits,
        ownerFits, nodeFits⟩, value⟩
    · rintro ⟨⟨stateNamespace, key, owner, node, sequence, sequenceFits, stateNamespaceFits, keyFits,
        ownerFits, nodeFits⟩, value⟩
      exact ⟨⟨stateNamespace, key, owner, node, sequence, sequenceFits⟩, stateNamespaceFits,
        keyFits, ownerFits, trivial, nodeFits, trivial, value⟩
  · simp [entryField]

theorem asBytes_nonempty {text : String} (h : text ≠ "") : 0 < (asBytes text).length :=
  Nat.pos_of_ne_zero fun empty => h (asBytes_injective (eq_nil_of_length_eq_zero empty))

/-- The smallest entry has four texts of one byte, a sequence, a policy and a value tag. -/
theorem minEntryBytes_le {entry : Entry}
    (h : ValidEntry entry ∧ Encodable declaredAtoms maxNestingDepth entry.value) :
    minEntryBytes ≤ (entryField entry).length := by
  obtain ⟨valid, encodable⟩ := h
  have stateNamespace := asBytes_nonempty valid.stateNamespace
  have key := asBytes_nonempty valid.key
  have owner := asBytes_nonempty valid.owner
  have node := asBytes_nonempty valid.node
  have value := encoding_ne_nil encodable
  simp only [entryField, length_append, length_textField, length_beBytes, length_cons,
    minEntryBytes]
  omega

theorem decodePolicy_ok_iff {tag : UInt8} {policy : VmDistributedStatePolicy} :
    decodePolicy tag = .ok policy ↔ tag = policyTag policy := by
  unfold decodePolicy
  constructor
  · intro h
    split at h
    next eq => cases h; exact eq
    next =>
    split at h
    next eq => cases h; exact eq
    next =>
    split at h
    next eq => cases h; exact eq
    next =>
    split at h
    next eq => cases h; exact eq
    next => cases h
  · rintro rfl
    cases policy <;> rfl

theorem scope_new_ok_iff {stateNamespace key : String} {scope : VmDistributedStateScope} :
    VmDistributedStateScope.new stateNamespace key = .ok scope ↔
      (stateNamespace ≠ "" ∧ key ≠ "") ∧ scope = ⟨stateNamespace, key⟩ := by
  unfold VmDistributedStateScope.new
  split
  next => simp_all
  next =>
    split <;> simp_all [eq_comm]

theorem version_new_ok_iff {sequence : UInt64} {nodeId : String}
    {version : VmDistributedStateVersion} :
    VmDistributedStateVersion.new sequence nodeId = .ok version ↔
      (sequence ≠ 0 ∧ nodeId ≠ "") ∧ version = ⟨sequence, nodeId⟩ := by
  unfold VmDistributedStateVersion.new
  split
  next => simp_all
  next =>
    split <;> simp_all [eq_comm]

theorem decodes_scope :
    Decodes declaredAtoms (readText >>= fun stateNamespace => readText >>= fun key =>
        liftM (VmDistributedStateScope.new stateNamespace key))
      (reading (fun scope => (scope.stateNamespace ≠ "" ∧ scope.key ≠ "") ∧
          FitsLength (asBytes scope.stateNamespace).length ∧ FitsLength (asBytes scope.key).length)
        (fun scope => textField scope.stateNamespace ++ textField scope.key) fun _ => 0) := by
  refine (decodes_read decodes_readText fun stateNamespace _ => decodes_read decodes_readText
    fun key _ => decodes_lift (VmDistributedStateScope.new stateNamespace key)).congr
      fun scope bytes n => ?_
  constructor
  · rintro ⟨stateNamespace, stateNamespaceFits, _, rfl, key, keyFits, _, rfl, scopeNew, rfl, rfl⟩
    obtain ⟨nonempty, rfl⟩ := scope_new_ok_iff.mp scopeNew
    exact ⟨⟨nonempty, stateNamespaceFits, keyFits⟩, by rw [append_nil], rfl⟩
  · rintro ⟨⟨nonempty, stateNamespaceFits, keyFits⟩, rfl, rfl⟩
    exact ⟨scope.stateNamespace, stateNamespaceFits, _, rfl, scope.key, keyFits, _,
      (append_nil _).symm, scope_new_ok_iff.mpr ⟨nonempty, rfl⟩, rfl, rfl⟩

theorem decodes_version :
    Decodes declaredAtoms (readU64 >>= fun sequence => readText >>= fun nodeId =>
        liftM (VmDistributedStateVersion.new sequence nodeId))
      (reading (fun version => (version.sequence ≠ 0 ∧ version.nodeId ≠ "") ∧
          FitsLength (asBytes version.nodeId).length)
        (fun version => beBytes 8 version.sequence.toNat ++ textField version.nodeId)
          fun _ => 0) := by
  refine (decodes_read decodes_readU64 fun sequence _ => decodes_read decodes_readText
    fun nodeId _ => decodes_lift (VmDistributedStateVersion.new sequence nodeId)).congr
      fun version bytes n => ?_
  constructor
  · rintro ⟨sequence, -, _, rfl, nodeId, fits, _, rfl, versionNew, rfl, rfl⟩
    obtain ⟨nonempty, rfl⟩ := version_new_ok_iff.mp versionNew
    exact ⟨⟨nonempty, fits⟩, by rw [append_nil], rfl⟩
  · rintro ⟨⟨nonempty, fits⟩, rfl, rfl⟩
    exact ⟨version.sequence, trivial, _, rfl, version.nodeId, fits, _, (append_nil _).symm,
      version_new_ok_iff.mpr ⟨nonempty, rfl⟩, rfl, rfl⟩

theorem decodes_policy : Decodes declaredAtoms (readU8 >>= fun tag => liftM (decodePolicy tag))
      (reading (fun _ => True) (fun policy => [policyTag policy]) fun _ => 0) := by
  refine (decodes_read decodes_readU8 fun tag _ => decodes_lift (decodePolicy tag)).congr
    fun policy bytes n => ?_
  constructor
  · rintro ⟨tag, -, _, rfl, isTag, rfl, rfl⟩
    cases decodePolicy_ok_iff.mp isTag
    exact ⟨trivial, rfl, rfl⟩
  · rintro ⟨-, rfl, rfl⟩
    exact ⟨policyTag policy, trivial, _, rfl, decodePolicy_ok_iff.mpr rfl, rfl, rfl⟩

/-- The source reads an entry in five parts. -/
theorem decodeEntry_eq (previous : Option VmDistributedStateScope) :
    decodeEntry previous = ((readText >>= fun stateNamespace => readText >>= fun key =>
      liftM (VmDistributedStateScope.new stateNamespace key)) >>= fun scope =>
        liftM (failIf (¬ previous.all fun previous => compare previous scope = .lt)
          "error[tetf_checkpoint.scope]: state scopes are not strictly ordered") >>= fun _ =>
            readText >>= fun ownerNodeId =>
              (readU64 >>= fun sequence => readText >>= fun nodeId =>
                liftM (VmDistributedStateVersion.new sequence nodeId)) >>= fun version =>
                  (readU8 >>= fun tag => liftM (decodePolicy tag)) >>= fun policy =>
                    decodeValue maxNestingDepth >>= fun value =>
                      liftM (validateEntry ⟨scope, ownerNodeId, value, version, policy⟩) >>=
                        fun _ => pure ⟨scope, ownerNodeId, value, version, policy⟩) := by
  simp only [bind_assoc]
  rfl

/-- An entry whose scope is greater than the one before. -/
theorem decodes_decodeEntry (previous : Option VmDistributedStateScope) :
    Decodes declaredAtoms (decodeEntry previous) (reading (fun entry => (ValidEntry entry ∧
            IsCanonical declaredAtoms maxNestingDepth entry.value) ∧
          previous.all (fun previous => compare previous entry.scope = .lt) = true)
        entryField fun entry => nestedValues entry.value) := by
  rw [decodeEntry_eq]
  refine (decodes_read decodes_scope fun scope _ => decodes_check (failIf_ok_iff.trans not_not)
    fun _ => decodes_read decodes_readText fun ownerNodeId _ => decodes_read decodes_version
      fun version _ => decodes_read decodes_policy fun policy _ =>
        decodes_bind (decodeValue_reads maxNestingDepth) fun value _ =>
          decodes_check validateEntry_ok_iff fun _ => decodes_pure
            (VmDistributedStateEntry.mk scope ownerNodeId value version policy)).congr
              fun entry bytes n => ?_
  constructor
  · rintro ⟨scope, ⟨-, stateNamespaceFits, keyFits⟩, _, rfl, above, ownerNodeId, ownerFits, _, rfl,
      version, ⟨-, nodeFits⟩, _, rfl, policy, -, _, rfl, value, _, _, _, _, ⟨canon, rfl, rfl⟩,
        ⟨⟨stateNamespace, key, owner, node, sequence, sequenceFits⟩, rfl, rfl, rfl⟩, rfl, rfl⟩
    refine ⟨⟨⟨⟨stateNamespace, key, owner, node, sequence, sequenceFits, stateNamespaceFits,
      keyFits, ownerFits, nodeFits⟩, canon⟩, above⟩, ?_, rfl⟩
    simp [entryField]
  · rintro ⟨⟨⟨valid, canon⟩, above⟩, rfl, rfl⟩
    refine ⟨entry.scope, ⟨⟨valid.stateNamespace, valid.key⟩, valid.stateNamespaceFits,
      valid.keyFits⟩, _, ?_, above, entry.ownerNodeId, valid.ownerFits, _, rfl, entry.version,
        ⟨⟨valid.sequence, valid.node⟩, valid.nodeFits⟩, _, rfl, entry.policy, trivial, _, rfl,
          entry.value, _, _, _, _, ⟨canon, rfl, rfl⟩, ⟨⟨valid.stateNamespace, valid.key, valid.owner,
            valid.node, valid.sequence, valid.sequenceFits⟩, rfl, rfl, rfl⟩, rfl, rfl⟩
    simp [entryField]

theorem decodes_decodeEntries (count : Nat) (previous : Option VmDistributedStateScope) :
    Decodes declaredAtoms (decodeEntries count previous)
      (reading (fun entries => entries.length = count ∧
          (previous.toList ++ entries.map (·.scope)).Pairwise (KeyLT id) ∧ ∀ entry ∈ entries,
            ValidEntry entry ∧ IsCanonical declaredAtoms maxNestingDepth entry.value)
        (fun entries => entries.flatMap entryField)
        fun entries => (entries.map fun entry => nestedValues entry.value).sum) := by
  induction count generalizing previous with
  | zero => exact decodes_nil previous
  | succ count ih =>
    refine (decodes_bind (decodes_decodeEntry previous) fun entry _ =>
      decodes_bind (ih (some entry.scope)) fun entries _ =>
        decodes_pure (entry :: entries)).congr fun entries bytes n => ?_
    constructor
    · rintro ⟨entry, _, _, _, _, ⟨⟨valid, above⟩, rfl, rfl⟩, ⟨entries, _, _, _, _,
        ⟨⟨rfl, sorted, rest⟩, rfl, rfl⟩, ⟨rfl, rfl, rfl⟩, rfl, rfl⟩, rfl, rfl⟩
      exact ⟨⟨rfl, ordered_cons_iff.mpr ⟨above, sorted⟩, forall_mem_cons.mpr ⟨valid, rest⟩⟩,
        by simp, by simp⟩
    · rintro ⟨⟨length, sorted, all⟩, rfl, rfl⟩
      obtain ⟨entry, entries, rfl⟩ := exists_cons_of_length_eq_add_one length
      obtain ⟨valid, rest⟩ := forall_mem_cons.mp all
      obtain ⟨above, sorted⟩ := ordered_cons_iff.mp sorted
      exact ⟨entry, _, _, _, _, ⟨⟨valid, above⟩, rfl, rfl⟩, ⟨entries, _, _, _, _,
        ⟨⟨Nat.succ.inj length, sorted, rest⟩, rfl, rfl⟩, ⟨rfl, rfl, rfl⟩, rfl, rfl⟩,
          by simp, by simp⟩

structure ValidCheckpoint (declaredAtoms : List String) (entries : List Entry) : Prop where
  count : entries.length ≤ maxEntries
  scopes : (entries.map (·.scope)).Nodup
  entry : ∀ entry ∈ entries, ValidEntry entry ∧
    Encodable declaredAtoms maxNestingDepth entry.value
  values : itemsValues (entries.map (·.value)) ≤ maxValues

def sortedScopes (entries : List Entry) : List Entry := sortByKey (·.scope) entries

def checkpointEncoding (entries : List Entry) : Bytes :=
  header profileLogicalCheckpoint ++ beBytes 4 entries.length ++
    (sortedScopes entries).flatMap entryField

/-- Entries in the order of their scopes, with canonical values. -/
def canonicalCheckpoint (entries : List Entry) : List Entry :=
  (sortedScopes entries).map fun entry => { entry with value := canonical entry.value }

variable {entries : List Entry}

theorem encodeTetfCheckpoint_ok_iff {maximum : Nat} :
    encodeTetfCheckpoint entries declaredAtoms maximum = .ok bytes ↔
      ValidCheckpoint declaredAtoms entries ∧ bytes = checkpointEncoding entries ∧
        bytes.length ≤ maximum ∧ bytes.length ≤ maxCheckpointBytes := by
  have count : (sortedScopes entries).length = entries.length := length_sortByKey _ _
  have loop := @writes_forM _ _ (sortedScopes entries) id (encodeEntry declaredAtoms)
    (fun entry => ValidEntry entry ∧ Encodable declaredAtoms maxNestingDepth entry.value)
    entryField fun entry _ => writes_encodeEntry entry
  rw [List.map_id] at loop
  have body := writes_bind (writes_writeHeader profileLogicalCheckpoint) fun _ =>
    writes_bind (writes_len entries.length) fun _ =>
      @writes_room (fun buffer => entries.length > buffer.remaining / minEntryBytes) _
        "error[tetf_size]: checkpoint entries exceed byte limit" _ _ _
        (@writes_check (failIf ((windows2 (sortByKey (·.scope) entries)).any
            fun pair => pair.1.scope = pair.2.scope)
            "error[tetf_checkpoint.scope]: duplicate state scope")
          ((entries.map (·.scope)).Nodup) _ _ _
          (by rw [failIf_ok_iff, Bool.not_eq_true]; exact windows_sortByKey) fun _ => loop)
        fun buffer holds room => by
          have := @length_flatMap_ge _ (sortedScopes entries) entryField minEntryBytes
            fun entry mem => minEntryBytes_le (holds.2 entry mem)
          rw [count] at this
          unfold minEntryBytes at *
          omega
  unfold encodeTetfCheckpoint
  rw [check_bind_ok_iff, failIf_ok_iff, except_bind_ok_iff]
  have budget : (∀ entry ∈ entries, ValidEntry entry ∧
      Encodable declaredAtoms maxNestingDepth entry.value) → ∀ left,
        validateItemsBudget (entries.map (·.value)) maxValues 0 = .ok left ↔
          left + itemsValues (entries.map (·.value)) = maxValues := by
    intro all
    refine validateItemsBudget_ok_iff ?_ maxValues
    exact forall_mem_map.mpr fun entry mem => countsBudget_of_encodable _ (all entry mem).2
  have members : ∀ entry, entry ∈ sortedScopes entries ↔ entry ∈ entries := fun _ => mem_sortByKey
  have out : checkpointEncoding entries = header profileLogicalCheckpoint ++
      (beBytes 4 entries.length ++ (sortedScopes entries).flatMap entryField) := by
    rw [checkpointEncoding, append_assoc]
  constructor
  · rintro ⟨few, left, budgetRun, run⟩
    obtain ⟨⟨-, -, distinct, all⟩, rfl, fits⟩ := (encodedInto_ok_iff body).mp run
    have all := fun entry mem => all entry ((members entry).mpr mem)
    have counted := (budget all left).mp budgetRun
    rw [← out] at fits ⊢
    exact ⟨⟨by omega, distinct, all, by omega⟩, rfl, by omega, by omega⟩
  · rintro ⟨valid, rfl, fits, cap⟩
    have few := valid.count
    have enough := valid.values
    have lengthFits : FitsLength entries.length := by
      unfold FitsLength maxEntries at *
      omega
    refine ⟨by omega, maxValues - itemsValues (entries.map (·.value)),
      (budget valid.entry _).mpr (by omega), (encodedInto_ok_iff body).mpr
        ⟨⟨trivial, lengthFits, valid.scopes, fun entry mem =>
          valid.entry entry ((members entry).mp mem)⟩, out, ?_⟩⟩
    rw [← out]
    omega

theorem decodeTetfCheckpoint_ok_iff : decodeTetfCheckpoint bytes declaredAtoms = .ok entries ↔
      (ValidCheckpoint declaredAtoms entries ∧ canonicalCheckpoint entries = entries) ∧
        bytes = checkpointEncoding entries ∧ bytes.length ≤ maxCheckpointBytes := by
  have reads := decodes_read (@decodes_readHeader declaredAtoms profileLogicalCheckpoint)
    fun _ _ => decodes_read decodes_readLen fun count _ => decodes_check
      (@failIf_ok_iff _ (count > maxEntries) _
        "error[tetf_checkpoint.count]: too many state entries") fun _ =>
          @decodes_room _ _ count minEntryBytes _ _ (decodes_bind (decodes_reserve count)
            fun _ _ => decodes_decodeEntries count none) (by
              rintro entries _ _ ⟨_, _, _, _, _, ⟨-, rfl, rfl⟩, ⟨⟨rfl, -, all⟩, rfl, rfl⟩, rfl, rfl⟩
              have := @length_flatMap_ge _ entries entryField minEntryBytes fun entry mem =>
                minEntryBytes_le ⟨(all entry mem).1, (all entry mem).2.encodable⟩
              rw [Nat.mul_comm]
              exact this)
  have host : maxCheckpointBytes ≤ usizeMax := by
    unfold maxCheckpointBytes usizeMax
    omega
  have counted : ∀ entries : List Entry, itemsValues (entries.map (·.value)) =
      entries.length + (entries.map fun entry => nestedValues entry.value).sum := by
    intro entries
    rw [itemsValues_eq_add, length_map, map_map]
    rfl
  unfold decodeTetfCheckpoint Decoder.new
  split
  next tooLong =>
    refine iff_of_false (fun h => by cases h) ?_
    rintro ⟨-, -, fits⟩
    omega
  next under =>
    rw [decodeWhole_ok_iff reads]
    constructor
    · rintro ⟨_, ⟨-, -, _, rfl, _, fits, _, rfl, few, _, _, _, _, _, ⟨-, rfl, rfl⟩,
        ⟨⟨rfl, sorted, all⟩, rfl, rfl⟩, rfl, rfl⟩, -, enough⟩
      have strict := ordered_none_iff.mp sorted
      have ordered : sortedScopes entries = entries := sortByKey_eq_self strict
      refine ⟨⟨⟨by omega, ?_, fun entry mem => ⟨(all entry mem).1, (all entry mem).2.encodable⟩, ?_⟩,
        ?_⟩, ?_, by omega⟩
      · exact pairwise_map.mpr (strict.imp fun lt => keyLT_irrefl _ lt)
      · rw [counted]
        exact enough
      · unfold canonicalCheckpoint
        rw [ordered, map_eq_self_iff]
        intro entry mem
        rw [(all entry mem).2.fixed]
      · unfold checkpointEncoding
        rw [ordered, append_assoc]
        rfl
    · rintro ⟨⟨valid, fixed⟩, rfl, fits⟩
      have strict' : (sortedScopes entries).Pairwise (KeyLT (·.scope)) :=
        sortByKey_strict_iff.mpr valid.scopes
      have strict : entries.Pairwise (KeyLT (·.scope)) := by
        rw [← fixed]
        exact pairwise_keyLT_map (fun _ _ => rfl) strict'
      have ordered : sortedScopes entries = entries := sortByKey_eq_self strict
      have few := valid.count
      have lengthFits : FitsLength entries.length := by
        unfold FitsLength maxEntries at *
        omega
      unfold canonicalCheckpoint at fixed
      rw [ordered, map_eq_self_iff] at fixed
      refine ⟨_, ⟨(), trivial, _, ?_, entries.length, lengthFits, _, rfl, by omega, (), _, _, _, _,
        ⟨trivial, rfl, rfl⟩, ⟨⟨rfl, ordered_none_iff.mpr strict, fun entry mem =>
          ⟨(valid.entry entry mem).1, (valid.entry entry mem).2, ?_⟩⟩, rfl, rfl⟩, rfl, rfl⟩,
            Nat.le_trans fits host, ?_⟩
      · unfold checkpointEncoding
        rw [ordered, append_assoc]
        rfl
      · exact congrArg VmDistributedStateEntry.value (fixed entry mem)
      · have enough := valid.values
        rw [counted] at enough
        exact enough

theorem keeps_checkpoint (valid : ValidCheckpoint declaredAtoms entries) :
    ValidCheckpoint declaredAtoms (canonicalCheckpoint entries) ∧
      canonicalCheckpoint (canonicalCheckpoint entries) = canonicalCheckpoint entries ∧
        checkpointEncoding (canonicalCheckpoint entries) = checkpointEncoding entries := by
  have perm : (sortedScopes entries).Perm entries := sortByKey_perm _ _
  have mem : ∀ entry ∈ sortedScopes entries, entry ∈ entries := fun _ h => mem_sortByKey.mp h
  have strict' : (sortedScopes entries).Pairwise (KeyLT (·.scope)) :=
    sortByKey_strict_iff.mpr valid.scopes
  have strict : (canonicalCheckpoint entries).Pairwise (KeyLT (·.scope)) :=
    pairwise_keyLT_map (fun _ _ => rfl) strict'
  have ordered : sortedScopes (canonicalCheckpoint entries) = canonicalCheckpoint entries :=
    sortByKey_eq_self strict
  have length : (canonicalCheckpoint entries).length = entries.length := by
    unfold canonicalCheckpoint
    rw [length_map]
    exact perm.length_eq
  refine ⟨⟨by rw [length]; exact valid.count, ?_, ?_, ?_⟩, ?_, ?_⟩
  · exact pairwise_map.mpr (strict.imp fun lt => keyLT_irrefl _ lt)
  · refine forall_mem_map.mpr fun entry h => ?_
    obtain ⟨entryOk, encodable⟩ := valid.entry entry (mem entry h)
    exact ⟨{ entryOk with }, (keepsCanonical _ encodable).encodable⟩
  · refine Nat.le_trans ?_ valid.values
    rw [itemsValues_eq, itemsValues_eq, ← ((perm.map (·.value)).map _).sum_eq]
    unfold canonicalCheckpoint
    simp only [map_map]
    exact sum_le_sum fun entry _ => Nat.add_le_add_left (nestedValues_canonical_le _) 1
  · change (sortedScopes (canonicalCheckpoint entries)).map _ = _
    rw [ordered, map_eq_self_iff]
    refine forall_mem_map.mpr fun entry h => ?_
    simp only [(keepsCanonical _ (valid.entry entry (mem entry h)).2).again]
  · unfold checkpointEncoding
    rw [ordered, length]
    congr 1
    unfold canonicalCheckpoint
    rw [flatMap_map]
    refine flatMap_congr fun entry h => ?_
    unfold entryField
    simp only [(keepsCanonical _ (valid.entry entry (mem entry h)).2).same]

theorem roundTrips_logicalCheckpoint (declaredAtoms : List String) (maximum : Nat) :
    RoundTrips maximum (fun entries => encodeTetfCheckpoint entries declaredAtoms maximum)
      (fun bytes => decodeTetfCheckpoint bytes declaredAtoms) canonicalCheckpoint :=
  roundTrips_of (by unfold maxCheckpointBytes usizeMax; omega)
    (fun _ _ => encodeTetfCheckpoint_ok_iff) (fun _ _ => decodeTetfCheckpoint_ok_iff)
    fun _ => keeps_checkpoint

end Profiles

/-! ## All profiles -/

/-- Every profile round-trips both ways, under every atom manifest and byte limit of the host. -/
theorem round_trips (declaredAtoms : List String) (maximum : Nat) (host : maximum ≤ usizeMax) :
    RoundTrips usizeMax (fun value => encodeTetf value declaredAtoms)
        (fun bytes => decodeTetf bytes declaredAtoms) canonical ∧ RoundTrips maximum
        (fun envelope => encodeTetfDistributionEnvelopeBounded envelope declaredAtoms maximum)
        (fun bytes => decodeTetfDistributionEnvelope bytes declaredAtoms) canonicalEnvelope ∧
      RoundTrips maximum (fun entries => encodeTetfCheckpoint entries declaredAtoms maximum)
        (fun bytes => decodeTetfCheckpoint bytes declaredAtoms) canonicalCheckpoint :=
  ⟨roundTrips_runtimeTerm declaredAtoms, roundTrips_distributionEnvelope declaredAtoms host,
    roundTrips_logicalCheckpoint declaredAtoms maximum⟩

/-- A record with unsorted fields and string bytes comes back sorted and as text. -/
theorem round_trips_record : decodeTetf (header profileRuntimeTerm ++ encoding
      (.record "p" [("y", .stringBytes [0x61]), ("x", .map [(.bool true, .unit), (.unit, .unit)])]))
        [] =
      .ok (.record "p" [("x", .map [(.unit, .unit), (.bool true, .unit)]), ("y", .string "a")]) :=
  (round_trips [] 64 (by decide)).1.decodes
    (.record "p" [("y", .stringBytes [0x61]), ("x", .map [(.bool true, .unit), (.unit, .unit)])])
    _ (by rfl)

end Terlan.TermFormat
