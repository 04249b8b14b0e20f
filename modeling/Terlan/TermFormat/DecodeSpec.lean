/-
  What the decoder reads. `Decodes action language` describes an action on the cursor: it
  succeeds with a result exactly when bytes of the language of that result come next in the
  payload, and then it steps over them. The rules below compose such descriptions along the
  `do` blocks of the decoder; `decodeValue_reads` is the result: `decodeValue` reads
  exactly the encodings of canonical values.
-/
import Terlan.TermFormat.Canonical
import Terlan.TermFormat.Decode

namespace Terlan.TermFormat

open Terlan.Lib List

/-! ## Descriptions of reading actions -/

/-- The payload that was not read yet. -/
def Decoder.rest (decoder : Decoder) : Bytes := decoder.bytes.drop decoder.offset

/-- The cursor is inside the payload. -/
structure Decoder.WellPlaced (declaredAtoms : List String) (decoder : Decoder) : Prop where
  inside : decoder.offset ≤ decoder.bytes.length
  host : decoder.offset ≤ usizeMax
  atoms : decoder.declaredAtoms = declaredAtoms

/-- The decoder after `len` bytes and `slots` value slots. -/
def Decoder.advance (decoder : Decoder) (len slots : Nat) : Decoder :=
  { decoder with
    offset := decoder.offset + len
    remainingValueSlots := decoder.remainingValueSlots - slots }

/-- The bytes come next and there are enough value slots for them. -/
structure Decoder.Allows (decoder : Decoder) (bytes : Bytes) (slots : Nat) : Prop where
  payload : bytes <+: decoder.rest
  host : decoder.offset + bytes.length ≤ usizeMax
  slots : slots ≤ decoder.remainingValueSlots

/-- For each result, the bytes that stand for it and the value slots that they take. -/
abbrev Language (α : Type) := α → Bytes → Nat → Prop

/-- The language of a result that determines its bytes. -/
def reading {α : Type} (valid : α → Prop) (out : α → Bytes) (slots : α → Nat) : Language α :=
  fun a bytes n => valid a ∧ bytes = out a ∧ n = slots a

def Decodes {α : Type} (declaredAtoms : List String) (action : DecodeM α)
    (language : Language α) : Prop :=
  ∀ decoder a decoder', decoder.WellPlaced declaredAtoms →
    (action decoder = .ok (a, decoder') ↔
      ∃ bytes n, language a bytes n ∧ decoder.Allows bytes n ∧
        decoder' = decoder.advance bytes.length n)

section Rules

variable {α β : Type} {declaredAtoms : List String}

variable {decoder : Decoder}

theorem Decoder.Allows.length_le {bytes : Bytes} {n : Nat}
    (h : decoder.Allows bytes n) (placed : decoder.WellPlaced declaredAtoms) :
    decoder.offset + bytes.length ≤ decoder.bytes.length := by
  have := h.payload.length_le
  have inside := placed.inside
  rw [Decoder.rest, length_drop] at this
  omega

theorem Decoder.WellPlaced.advance {bytes : Bytes} {n : Nat}
    (placed : decoder.WellPlaced declaredAtoms) (h : decoder.Allows bytes n) :
    (decoder.advance bytes.length n).WellPlaced declaredAtoms :=
  ⟨h.length_le placed, h.host, placed.atoms⟩

theorem Decoder.Allows.none (placed : decoder.WellPlaced declaredAtoms) : decoder.Allows [] 0 :=
  ⟨ nil_prefix, placed.host, Nat.zero_le _⟩

theorem rest_advance {bytes rest : Bytes} {n : Nat}
    (h : decoder.rest = bytes ++ rest) : (decoder.advance bytes.length n).rest = rest := by
  unfold Decoder.rest Decoder.advance at *
  rw [← drop_drop, h, drop_left]

theorem allows_append_iff {a b : Bytes} {m n : Nat} : decoder.Allows (a ++ b) (m + n) ↔
      decoder.Allows a m ∧ (decoder.advance a.length m).Allows b n := by
  constructor
  · rintro ⟨⟨rest, payload⟩, host, slots⟩
    rw [length_append] at host
    have payload : decoder.rest = a ++ (b ++ rest) := by rw [← payload, append_assoc]
    refine ⟨⟨⟨b ++ rest, payload.symm⟩, by omega, by omega⟩, ⟨⟨rest, ?_⟩, ?_, ?_⟩⟩
    · exact (rest_advance payload).symm
    · simp only [Decoder.advance]
      omega
    · simp only [Decoder.advance]
      omega
  · rintro ⟨⟨⟨rest, payload⟩, host, slots⟩, ⟨⟨rest', payload'⟩, host', slots'⟩⟩
    rw [rest_advance payload.symm] at payload'
    simp only [Decoder.advance] at host' slots'
    refine ⟨⟨rest', ?_⟩, ?_, by omega⟩
    · rw [append_assoc, payload', payload]
    · rw [length_append]
      omega

theorem advance_advance (decoder : Decoder) (a b : Bytes) (m n : Nat) :
    (decoder.advance a.length m).advance b.length n = decoder.advance (a ++ b).length (m + n) := by
  simp only [Decoder.advance, length_append, Nat.add_assoc, Nat.sub_sub]

theorem Decodes.congr {action : DecodeM α} {language language' : Language α}
    (h : Decodes declaredAtoms action language)
    (same : ∀ a bytes n, language a bytes n ↔ language' a bytes n) :
    Decodes declaredAtoms action language' := by
  have eq : language = language' := by
    funext a bytes n
    exact propext (same a bytes n)
  exact eq ▸ h

theorem decodes_pure (a : α) :
    Decodes declaredAtoms (pure a) fun a' bytes n => a' = a ∧ bytes = [] ∧ n = 0 := by
  intro decoder a' decoder' placed
  change (Except.ok (a, decoder) : Except String _) = _ ↔ _
  constructor
  · intro h
    cases h
    exact ⟨[], 0, ⟨rfl, rfl, rfl⟩, .none placed, rfl⟩
  · rintro ⟨_, _, ⟨rfl, rfl, rfl⟩, -, rfl⟩
    rfl

theorem decodes_throw (message : String) :
    Decodes declaredAtoms (throw message : DecodeM α) fun _ _ _ => False := by
  intro decoder a decoder' placed
  constructor
  · intro h
    cases h
  · rintro ⟨_, _, h, -⟩
    exact h.elim

theorem decodes_lift (x : Except String α) :
    Decodes declaredAtoms (liftM x) fun a bytes n => x = .ok a ∧ bytes = [] ∧ n = 0 := by
  intro decoder a decoder' placed
  rw [lift_ok_iff]
  constructor
  · rintro ⟨run, rfl⟩
    exact ⟨[], 0, ⟨run, rfl, rfl⟩, .none placed, rfl⟩
  · rintro ⟨_, _, ⟨run, rfl, rfl⟩, -, rfl⟩
    exact ⟨run, rfl⟩

variable {a : DecodeM α}

/-- An action and what follows it at the decoder that it leaves. -/
theorem bind_decoded {k : α → DecodeM β} {first : Language α} {second : α → Bytes → Language β}
    (ha : Decodes declaredAtoms a first) (placed : decoder.WellPlaced declaredAtoms) {y : β}
    {decoder'' : Decoder} (hk : ∀ x bytes n, first x bytes n → decoder.Allows bytes n →
      (k x (decoder.advance bytes.length n) = .ok (y, decoder'') ↔ ∃ bytes' n',
        second x bytes y bytes' n' ∧ (decoder.advance bytes.length n).Allows bytes' n' ∧
          decoder'' = (decoder.advance bytes.length n).advance bytes'.length n')) :
    (a >>= k) decoder = .ok (y, decoder'') ↔ ∃ bytes n, (∃ x bytes₁ n₁ bytes₂ n₂,
      first x bytes₁ n₁ ∧ second x bytes₁ y bytes₂ n₂ ∧ bytes = bytes₁ ++ bytes₂ ∧ n = n₁ + n₂) ∧
        decoder.Allows bytes n ∧ decoder'' = decoder.advance bytes.length n := by
  rw [bind_ok_iff]
  constructor
  · rintro ⟨x, decoder', run, rest⟩
    obtain ⟨bytes₁, n₁, inFirst, allowed, rfl⟩ := (ha _ _ _ placed).mp run
    obtain ⟨bytes₂, n₂, inSecond, allowed', rfl⟩ := (hk x _ _ inFirst allowed).mp rest
    exact ⟨_, _, ⟨x, bytes₁, n₁, bytes₂, n₂, inFirst, inSecond, rfl, rfl⟩,
      allows_append_iff.mpr ⟨allowed, allowed'⟩, advance_advance _ _ _ _ _⟩
  · rintro ⟨_, _, ⟨x, bytes₁, n₁, bytes₂, n₂, inFirst, inSecond, rfl, rfl⟩, allowed, rfl⟩
    obtain ⟨allowed, allowed'⟩ := allows_append_iff.mp allowed
    refine ⟨x, decoder.advance bytes₁.length n₁,
      (ha _ _ _ placed).mpr ⟨_, _, inFirst, allowed, rfl⟩, ?_⟩
    exact (hk x _ _ inFirst allowed).mpr
      ⟨_, _, inSecond, allowed', (advance_advance _ _ _ _ _).symm⟩

theorem decodes_bind {b : α → DecodeM β} {first : Language α}
    {second : α → Language β} (ha : Decodes declaredAtoms a first)
    (hb : ∀ x, (∃ bytes n, first x bytes n) → Decodes declaredAtoms (b x) (second x)) :
    Decodes declaredAtoms (a >>= b) fun y bytes n =>
      ∃ x bytes₁ n₁ bytes₂ n₂, first x bytes₁ n₁ ∧ second x y bytes₂ n₂ ∧
        bytes = bytes₁ ++ bytes₂ ∧ n = n₁ + n₂ := fun _ _ _ placed =>
  bind_decoded ha placed fun x _ _ inFirst allowed =>
    hb x ⟨_, _, inFirst⟩ _ _ _ (placed.advance allowed)

/-- A field without value slots before the rest. -/
theorem decodes_read {b : α → DecodeM β} {valid : α → Prop} {out : α → Bytes}
    {second : α → Language β} (ha : Decodes declaredAtoms a (reading valid out fun _ => 0))
    (hb : ∀ x, valid x → Decodes declaredAtoms (b x) (second x)) :
    Decodes declaredAtoms (a >>= b) fun y bytes n =>
      ∃ x, valid x ∧ ∃ rest, bytes = out x ++ rest ∧ second x y rest n := by
  refine (decodes_bind ha fun x ⟨_, _, holds, _⟩ => hb x holds).congr fun y bytes n => ?_
  constructor
  · rintro ⟨x, _, _, rest, n, ⟨holds, rfl, rfl⟩, inSecond, rfl, rfl⟩
    exact ⟨x, holds, rest, rfl, by rwa [Nat.zero_add]⟩
  · rintro ⟨x, holds, rest, rfl, inSecond⟩
    exact ⟨x, _, _, rest, n, ⟨holds, rfl, rfl⟩, inSecond, rfl, (Nat.zero_add n).symm⟩

/-- Nothing is read before the rest. -/
theorem decodes_check {x : Except String Unit} {check : Prop} {b : DecodeM β}
    {language : Language β} (hx : x = .ok () ↔ check)
    (hb : check → Decodes declaredAtoms b language) :
    Decodes declaredAtoms (liftM x >>= fun _ => b) fun y bytes n =>
      check ∧ language y bytes n := by
  refine (decodes_bind (decodes_lift x) fun _ ⟨_, _, run, _⟩ => hb (hx.mp run)).congr ?_
  intro y bytes n
  constructor
  · rintro ⟨_, _, _, _, _, ⟨run, rfl, rfl⟩, inLanguage, rfl, rfl⟩
    exact ⟨hx.mp run, by simpa using inLanguage⟩
  · rintro ⟨holds, inLanguage⟩
    exact ⟨(), [], 0, bytes, n, ⟨hx.mpr holds, rfl, rfl⟩, inLanguage, rfl, by simp⟩

/-- A check against the decoder itself. -/
theorem decodes_lookahead {x : Decoder → Except String Unit} {b : DecodeM β} {check : Prop}
    {language : Language β} (hb : Decodes declaredAtoms b language)
    (hx : ∀ decoder, decoder.WellPlaced declaredAtoms → ∀ y bytes n, language y bytes n →
      decoder.Allows bytes n → (x decoder = .ok () ↔ check)) :
    Decodes declaredAtoms (get >>= fun decoder => liftM (x decoder) >>= fun _ => b)
      fun y bytes n => check ∧ language y bytes n := by
  intro decoder y decoder' placed
  change ((liftM (x decoder) : DecodeM Unit) >>= fun _ => b) decoder = _ ↔ _
  rw [bind_ok_iff]
  simp only [lift_ok_iff]
  constructor
  · rintro ⟨⟨⟩, _, ⟨run, rfl⟩, rest⟩
    obtain ⟨bytes, n, inLanguage, allowed, rfl⟩ := (hb _ _ _ placed).mp rest
    exact ⟨bytes, n, ⟨(hx _ placed y bytes n inLanguage allowed).mp run, inLanguage⟩, allowed, rfl⟩
  · rintro ⟨bytes, n, ⟨holds, inLanguage⟩, allowed, rfl⟩
    exact ⟨(), decoder, ⟨(hx _ placed y bytes n inLanguage allowed).mpr holds, rfl⟩,
      (hb _ _ _ placed).mpr ⟨bytes, n, inLanguage, allowed, rfl⟩⟩

/-- `readSince` after an action returns the bytes that the action read. -/
theorem decodes_recorded {b : α → Bytes → DecodeM β} {first : Language α}
    {second : α → Bytes → Language β} (ha : Decodes declaredAtoms a first)
    (hb : ∀ x bytes, Decodes declaredAtoms (b x bytes) (second x bytes)) :
    Decodes declaredAtoms (get >>= fun decoder => a >>= fun x => readSince decoder.offset >>= b x)
      fun y bytes n => ∃ x bytes₁ n₁ bytes₂ n₂, first x bytes₁ n₁ ∧ second x bytes₁ y bytes₂ n₂ ∧
        bytes = bytes₁ ++ bytes₂ ∧ n = n₁ + n₂ := by
  intro decoder y decoder'' placed
  have recorded : ∀ {bytes n}, decoder.Allows bytes n → ∀ x,
      (readSince decoder.offset >>= b x) (decoder.advance bytes.length n) =
        b x bytes (decoder.advance bytes.length n) := by
    intro bytes n allowed x
    have eq : (decoder.bytes.take (decoder.offset + bytes.length)).drop decoder.offset = bytes := by
      obtain ⟨rest, payload⟩ := allowed.payload
      rw [drop_take, Nat.add_sub_cancel_left]
      change decoder.rest.take bytes.length = bytes
      rw [← payload, take_left]
    change b x ((decoder.bytes.take (decoder.offset + bytes.length)).drop decoder.offset) _ = _
    rw [eq]
  change (a >>= fun x => readSince decoder.offset >>= b x) decoder = _ ↔ _
  refine bind_decoded ha placed fun x bytes n _ allowed => ?_
  rw [recorded allowed]
  exact hb x bytes _ _ _ (placed.advance allowed)

end Rules

/-! ## Fixed fields -/

section Fields

variable {β : Type} {declaredAtoms : List String}

theorem decodes_readExact (len : Nat) :
    Decodes declaredAtoms (readExact len) fun a bytes n =>
      a.length = len ∧ bytes = a ∧ n = 0 := by
  intro decoder a decoder' placed
  have run : readExact len decoder =
      if decoder.offset + len > usizeMax then
        .error "error[tetf_size]: field length overflows host limits"
      else if decoder.offset + len > decoder.bytes.length then
        .error "error[tetf_truncated]: payload ended before field completed"
      else .ok (decoder.rest.take len, decoder.advance len 0) := by
    change ((liftM (failIf (decoder.offset + len > usizeMax) _) : DecodeM Unit) >>= fun _ =>
      (liftM (failIf (decoder.offset + len > decoder.bytes.length) _) : DecodeM Unit) >>= fun _ =>
        _) decoder = _
    unfold failIf
    split
    next => rfl
    next =>
      split <;> rfl
  rw [run]
  constructor
  · intro h
    split at h
    next => cases h
    next host =>
      split at h
      next => cases h
      next inside =>
        cases h
        have length : (decoder.rest.take len).length = len := by
          rw [length_take, Decoder.rest, length_drop]
          omega
        refine ⟨_, 0, ⟨length, rfl, rfl⟩, ⟨ take_prefix _ _, ?_, Nat.zero_le _⟩, ?_⟩
        · rw [length]
          omega
        · rw [length]
  · rintro ⟨_, _, ⟨rfl, rfl, rfl⟩, allowed, rfl⟩
    have inside := allowed.length_le placed
    have host := allowed.host
    rw [if_neg (by omega), if_neg (by omega), ← prefix_iff_eq_take.mp allowed.payload]

theorem length_singleton_headD {bytes : Bytes} (h : bytes.length = 1) : bytes = [bytes.headD 0] := by
  obtain ⟨byte, rfl⟩ := length_eq_one_iff.mp h
  rfl

theorem decodes_readU8 :
    Decodes declaredAtoms readU8 (reading (fun _ => True) (fun byte => [byte]) fun _ => 0) := by
  refine (decodes_bind (decodes_readExact 1) fun bytes _ => decodes_pure (bytes.headD 0)).congr ?_
  intro byte bytes n
  constructor
  · rintro ⟨_, _, _, _, _, ⟨length, rfl, rfl⟩, ⟨rfl, rfl, rfl⟩, rfl, rfl⟩
    refine ⟨trivial, ?_, rfl⟩
    dsimp only
    rw [append_nil, ← length_singleton_headD length]
  · rintro ⟨-, rfl, rfl⟩
    exact ⟨[byte], _, _, _, _, ⟨rfl, rfl, rfl⟩, ⟨rfl, rfl, rfl⟩, rfl, rfl⟩

theorem decodes_readLen :
    Decodes declaredAtoms readLen (reading FitsLength (beBytes 4) fun _ => 0) := by
  refine (decodes_bind (decodes_readExact 4) fun bytes _ => decodes_pure (ofBeBytes bytes)).congr ?_
  intro len bytes n
  constructor
  · rintro ⟨_, field, _, _, _, ⟨length, rfl, rfl⟩, ⟨rfl, rfl, rfl⟩, rfl, rfl⟩
    have bound := ofBeBytes_lt field
    rw [length] at bound
    exact ⟨bound, by rw [append_nil, beBytes_ofBeBytes length], rfl⟩
  · rintro ⟨fits, rfl, rfl⟩
    exact ⟨beBytes 4 len, _, _, _, _, ⟨length_beBytes 4 len, rfl, rfl⟩,
      ⟨(ofBeBytes_beBytes fits).symm, rfl, rfl⟩, (append_nil _).symm, rfl⟩

theorem decodes_readU64 : Decodes declaredAtoms readU64
      (reading (fun _ => True) (fun value => beBytes 8 value.toNat) fun _ => 0) := by
  refine (decodes_bind (decodes_readExact 8) fun bytes _ =>
    decodes_pure (UInt64.ofNat (ofBeBytes bytes))).congr ?_
  intro value bytes n
  constructor
  · rintro ⟨_, field, _, _, _, ⟨length, rfl, rfl⟩, ⟨rfl, rfl, rfl⟩, rfl, rfl⟩
    have bound : ofBeBytes field < 2 ^ 64 := by
      have := ofBeBytes_lt field
      rw [length] at this
      omega
    refine ⟨trivial, ?_, rfl⟩
    dsimp only
    rw [append_nil, UInt64.toNat_ofNat', Nat.mod_eq_of_lt bound, beBytes_ofBeBytes length]
  · rintro ⟨-, rfl, rfl⟩
    refine ⟨beBytes 8 value.toNat, _, _, _, _, ⟨length_beBytes 8 _, rfl, rfl⟩,
      ⟨?_, rfl, rfl⟩, (append_nil _).symm, rfl⟩
    rw [ofBeBytes_beBytes value.toNat_lt, UInt64.ofNat_toNat]

theorem decodes_utf8 (bytes : Bytes) :
    Decodes declaredAtoms
      (match fromUtf8 bytes with
        | some text => pure text
        | none => throw "error[tetf_utf8]: text field is not valid UTF-8")
      fun text rest n => fromUtf8 bytes = some text ∧ rest = [] ∧ n = 0 := by
  cases fromUtf8 bytes with
  | none => exact (decodes_throw _).congr fun _ _ _ => by simp
  | some text => exact (decodes_pure text).congr fun _ _ _ => by simp [eq_comm]

theorem decodes_readText : Decodes declaredAtoms readText
      (reading (fun text => FitsLength (asBytes text).length) textField fun _ => 0) := by
  refine (decodes_bind decodes_readLen fun len _ =>
    decodes_bind (decodes_readExact len) fun bytes _ => decodes_utf8 bytes).congr ?_
  intro text bytes n
  constructor
  · rintro ⟨_, _, _, _, _, ⟨fits, rfl, rfl⟩,
      ⟨_, _, _, _, _, ⟨rfl, rfl, rfl⟩, ⟨valid, rfl, rfl⟩, rfl, rfl⟩, rfl, rfl⟩
    cases asBytes_of_fromUtf8 valid
    refine ⟨fits, ?_, rfl⟩
    rw [textField, append_nil]
  · rintro ⟨fits, rfl, rfl⟩
    exact ⟨_, _, _, _, _, ⟨fits, rfl, rfl⟩, ⟨asBytes text, _, _, _, _, ⟨rfl, rfl, rfl⟩,
      ⟨fromUtf8_asBytes text, rfl, rfl⟩, (append_nil _).symm, rfl⟩, rfl, rfl⟩

theorem decodes_expectTag (tag : UInt8) : Decodes declaredAtoms (expectTag tag)
      (reading (fun _ => True) (fun _ => [tag]) fun _ => 0) := by
  refine (decodes_bind decodes_readU8 fun actual _ => decodes_lift (failIf (actual ≠ tag) _)).congr ?_
  rintro ⟨⟩ bytes n
  constructor
  · rintro ⟨_, _, _, _, _, ⟨-, rfl, rfl⟩, ⟨check, rfl, rfl⟩, rfl, rfl⟩
    have eq := not_not.mp (failIf_ok_iff.mp check)
    exact ⟨trivial, by rw [eq, append_nil], rfl⟩
  · rintro ⟨-, rfl, rfl⟩
    exact ⟨tag, _, _, _, _, ⟨trivial, rfl, rfl⟩, ⟨failIf_ok_iff.mpr (not_not.mpr rfl), rfl, rfl⟩,
      rfl, rfl⟩

/-- The check of the payload left is implied by what is read afterwards. -/
theorem decodes_room {count minimumBytes : Nat} {b : DecodeM β} {language : Language β}
    (hb : Decodes declaredAtoms b language)
    (implied : ∀ y bytes n, language y bytes n → count * minimumBytes ≤ bytes.length) :
    Decodes declaredAtoms (requireRemainingItems count minimumBytes >>= fun _ => b) language := by
  have eq : (requireRemainingItems count minimumBytes >>= fun _ => b) =
      (get >>= fun decoder => liftM (failIf (count * minimumBytes > usizeMax ∨
        count * minimumBytes > decoder.bytes.length - decoder.offset)
          (if count * minimumBytes > usizeMax then
            "error[tetf_size]: declared collection length overflows host limits"
          else "error[tetf_size]: declared collection length exceeds remaining payload")) >>=
            fun _ => b : DecodeM β) := by
    funext decoder
    change ((liftM (failIf (count * minimumBytes > usizeMax) _) >>= fun _ =>
      liftM (failIf (count * minimumBytes > decoder.bytes.length - decoder.offset) _)) >>=
        fun _ => b : DecodeM β) decoder =
      (liftM (failIf (count * minimumBytes > usizeMax ∨
        count * minimumBytes > decoder.bytes.length - decoder.offset) _) >>=
          fun _ => b : DecodeM β) decoder
    unfold failIf
    by_cases host : count * minimumBytes > usizeMax
    · simp only [host, true_or, if_true]
      rfl
    by_cases payload : count * minimumBytes > decoder.bytes.length - decoder.offset
    · simp only [host, payload, or_true, if_true, if_false]
      rfl
    · simp only [host, payload, or_false, if_false]
      rfl
  rw [eq]
  refine (@decodes_lookahead _ _ _ _ True _ hb ?_).congr fun _ _ _ => iff_of_eq (true_and _)
  intro decoder placed y bytes n inLanguage allowed
  have enough := implied y bytes n inLanguage
  have inside := allowed.length_le placed
  have host := allowed.host
  rw [failIf_ok_iff]
  exact iff_of_true (by omega) trivial

theorem decodes_reserve (count : Nat) : Decodes declaredAtoms (reserveValueSlots count)
      (reading (fun _ => True) (fun _ => []) fun _ => count) := by
  rintro decoder ⟨⟩ decoder' placed
  have run : reserveValueSlots count decoder =
      if count > decoder.remainingValueSlots then
        .error "error[tetf_checkpoint.values]: too many logical values"
      else .ok ((), decoder.advance 0 count) := by
    change ((liftM (failIf (count > decoder.remainingValueSlots) _) : DecodeM Unit) >>= fun _ =>
      _) decoder = _
    unfold failIf
    split <;> rfl
  rw [run]
  constructor
  · intro h
    split at h
    next => cases h
    next enough =>
      cases h
      exact ⟨[], count, ⟨trivial, rfl, rfl⟩, ⟨ nil_prefix, placed.host, by omega⟩, rfl⟩
  · rintro ⟨_, _, ⟨-, rfl, rfl⟩, allowed, rfl⟩
    have enough := allowed.slots
    rw [if_neg (by omega)]
    rfl

end Fields

/-! ## Loops -/

section Loops

variable {declaredAtoms : List String}

theorem decodes_decodeMany {α : Type} {decode : DecodeM α} {valid : α → Prop} {out : α → Bytes}
    {slots : α → Nat} (h : Decodes declaredAtoms decode (reading valid out slots)) (count : Nat) :
    Decodes declaredAtoms (decodeMany decode count)
      (reading (fun values => values.length = count ∧ ∀ value ∈ values, valid value)
        (fun values => values.flatMap out) fun values => (values.map slots).sum) := by
  induction count with
  | zero =>
    refine (decodes_pure []).congr fun values bytes n => ?_
    constructor
    · rintro ⟨rfl, rfl, rfl⟩
      exact ⟨⟨rfl, by simp⟩, rfl, rfl⟩
    · rintro ⟨⟨length, -⟩, rfl, rfl⟩
      cases eq_nil_of_length_eq_zero length
      exact ⟨rfl, rfl, rfl⟩
  | succ count ih =>
    refine (decodes_bind h fun value _ => decodes_bind ih fun values _ =>
      decodes_pure (value :: values)).congr fun values bytes n => ?_
    constructor
    · rintro ⟨value, _, _, _, _, ⟨first, rfl, rfl⟩, ⟨values, _, _, _, _,
        ⟨⟨rfl, rest⟩, rfl, rfl⟩, ⟨rfl, rfl, rfl⟩, rfl, rfl⟩, rfl, rfl⟩
      exact ⟨⟨rfl, forall_mem_cons.mpr ⟨first, rest⟩⟩, by simp, by simp⟩
    · rintro ⟨⟨length, all⟩, rfl, rfl⟩
      obtain ⟨value, values, rfl⟩ := exists_cons_of_length_eq_add_one length
      obtain ⟨first, rest⟩ := forall_mem_cons.mp all
      exact ⟨value, _, _, _, _, ⟨first, rfl, rfl⟩, ⟨values, _, _, _, _,
        ⟨⟨Nat.succ.inj length, rest⟩, rfl, rfl⟩, ⟨rfl, rfl, rfl⟩, rfl, rfl⟩, by simp, by simp⟩

variable {decode : DecodeM ReplValue} {valid : ReplValue → Prop} {out : ReplValue → Bytes}
  {slots : ReplValue → Nat}

theorem requireStrictlyIncreasing_ok_iff {previous : Option Bytes} {current : Bytes}
    {item : String} : requireStrictlyIncreasing previous current item = .ok () ↔
      previous.all (fun previous => compare previous current = .lt) = true := by
  unfold requireStrictlyIncreasing
  split <;> simp_all

/-- The end of a loop over items in increasing order. -/
theorem decodes_nil {α κ : Type} [Ord κ] {key : α → κ} {valid : α → Prop} {out : α → Bytes}
    {slots : α → Nat} (previous : Option κ) :
    Decodes declaredAtoms (pure [])
      (reading (fun items => items.length = 0 ∧
          (previous.toList ++ items.map key).Pairwise (KeyLT id) ∧ ∀ item ∈ items, valid item)
        (fun items => items.flatMap out) fun items => (items.map slots).sum) := by
  refine (decodes_pure []).congr fun items bytes n => ?_
  constructor
  · rintro ⟨rfl, rfl, rfl⟩
    refine ⟨⟨rfl, ?_, by simp⟩, rfl, rfl⟩
    cases previous <;> simp
  · rintro ⟨⟨length, -⟩, rfl, rfl⟩
    cases eq_nil_of_length_eq_zero length
    exact ⟨rfl, rfl, rfl⟩

section

variable (h : Decodes declaredAtoms decode (reading valid out slots))
include h

theorem decodes_decodeMapEntries (count : Nat) (previous : Option Bytes) :
    Decodes declaredAtoms (decodeMapEntries decode count previous)
      (reading (fun entries => entries.length = count ∧
          (previous.toList ++ entries.map fun entry => out entry.1).Pairwise (KeyLT id) ∧
            ∀ entry ∈ entries, valid entry.1 ∧ valid entry.2)
        (fun entries => entries.flatMap fun entry => out entry.1 ++ out entry.2)
        fun entries => (entries.map fun entry => slots entry.1 + slots entry.2).sum) := by
  induction count generalizing previous with
  | zero => exact decodes_nil previous
  | succ count ih =>
    refine (decodes_recorded h fun key encodedKey =>
      decodes_check requireStrictlyIncreasing_ok_iff fun _ => decodes_bind h fun value _ =>
        decodes_bind (ih (some encodedKey)) fun entries _ =>
          decodes_pure ((key, value) :: entries)).congr fun entries bytes n => ?_
    constructor
    · rintro ⟨key, _, _, _, _, ⟨keyOk, rfl, rfl⟩, ⟨above, value, _, _, _, _,
        ⟨valueOk, rfl, rfl⟩, ⟨entries, _, _, _, _, ⟨⟨rfl, sorted, rest⟩, rfl, rfl⟩,
          ⟨rfl, rfl, rfl⟩, rfl, rfl⟩, rfl, rfl⟩, rfl, rfl⟩
      refine ⟨⟨rfl, ordered_cons_iff.mpr ⟨above, sorted⟩,
        forall_mem_cons.mpr ⟨⟨keyOk, valueOk⟩, rest⟩⟩, by simp, ?_⟩
      simp only [map_cons, sum_cons]
      omega
    · rintro ⟨⟨length, sorted, all⟩, rfl, rfl⟩
      obtain ⟨⟨key, value⟩, entries, rfl⟩ := exists_cons_of_length_eq_add_one length
      obtain ⟨⟨keyOk, valueOk⟩, rest⟩ := forall_mem_cons.mp all
      obtain ⟨above, sorted⟩ := ordered_cons_iff.mp sorted
      refine ⟨key, _, _, _, _, ⟨keyOk, rfl, rfl⟩, ⟨above, value, _, _, _, _,
        ⟨valueOk, rfl, rfl⟩, ⟨entries, _, _, _, _, ⟨⟨Nat.succ.inj length, sorted, rest⟩, rfl, rfl⟩,
          ⟨rfl, rfl, rfl⟩, rfl, rfl⟩, rfl, rfl⟩, by simp, ?_⟩
      simp only [map_cons, sum_cons]
      omega

theorem decodes_decodeSetItems (count : Nat) (previous : Option Bytes) :
    Decodes declaredAtoms (decodeSetItems decode count previous)
      (reading (fun items => items.length = count ∧
          (previous.toList ++ items.map out).Pairwise (KeyLT id) ∧ ∀ item ∈ items, valid item)
        (fun items => items.flatMap out) fun items => (items.map slots).sum) := by
  induction count generalizing previous with
  | zero => exact decodes_nil previous
  | succ count ih =>
    refine (decodes_recorded h fun item encodedItem =>
      decodes_check requireStrictlyIncreasing_ok_iff fun _ =>
        decodes_bind (ih (some encodedItem)) fun items _ =>
          decodes_pure (item :: items)).congr fun items bytes n => ?_
    constructor
    · rintro ⟨item, _, _, _, _, ⟨itemOk, rfl, rfl⟩, ⟨above, items, _, _, _, _,
        ⟨⟨rfl, sorted, rest⟩, rfl, rfl⟩, ⟨rfl, rfl, rfl⟩, rfl, rfl⟩, rfl, rfl⟩
      exact ⟨⟨rfl, ordered_cons_iff.mpr ⟨above, sorted⟩,
        forall_mem_cons.mpr ⟨itemOk, rest⟩⟩, by simp, by simp⟩
    · rintro ⟨⟨length, sorted, all⟩, rfl, rfl⟩
      obtain ⟨item, items, rfl⟩ := exists_cons_of_length_eq_add_one length
      obtain ⟨itemOk, rest⟩ := forall_mem_cons.mp all
      obtain ⟨above, sorted⟩ := ordered_cons_iff.mp sorted
      exact ⟨item, _, _, _, _, ⟨itemOk, rfl, rfl⟩, ⟨above, items, _, _, _, _,
        ⟨⟨Nat.succ.inj length, sorted, rest⟩, rfl, rfl⟩, ⟨rfl, rfl, rfl⟩, rfl, rfl⟩,
          by simp, by simp⟩

theorem decodes_decodeFields (count : Nat) (previous : Option String) :
    Decodes declaredAtoms (decodeFields decode count previous)
      (reading (fun fields => fields.length = count ∧
          (previous.toList ++ fields.map Prod.fst).Pairwise (KeyLT id) ∧
            ∀ field ∈ fields, FieldName field.1 ∧ valid field.2)
        (fun fields => fields.flatMap fun field => textField field.1 ++ out field.2)
        fun fields => (fields.map fun field => slots field.2).sum) := by
  induction count generalizing previous with
  | zero => exact decodes_nil previous
  | succ count ih =>
    refine (decodes_bind decodes_readText fun field _ =>
      decodes_check validateRecordField_ok_iff fun _ =>
        decodes_check (failIf_ok_iff.trans not_not) fun _ => decodes_bind h fun value _ =>
          decodes_bind (ih (some field)) fun fields _ =>
            decodes_pure ((field, value) :: fields)).congr fun fields bytes n => ?_
    constructor
    · rintro ⟨field, _, _, _, _, ⟨fits, rfl, rfl⟩, ⟨⟨nonblank, portable⟩, above, value, _, _, _, _,
        ⟨valueOk, rfl, rfl⟩, ⟨fields, _, _, _, _, ⟨⟨rfl, sorted, rest⟩, rfl, rfl⟩,
          ⟨rfl, rfl, rfl⟩, rfl, rfl⟩, rfl, rfl⟩, rfl, rfl⟩
      refine ⟨⟨rfl, ordered_cons_iff.mpr ⟨above, sorted⟩,
        forall_mem_cons.mpr ⟨⟨⟨nonblank, portable, fits⟩, valueOk⟩, rest⟩⟩, by simp, ?_⟩
      simp only [map_cons, sum_cons]
      omega
    · rintro ⟨⟨length, sorted, all⟩, rfl, rfl⟩
      obtain ⟨⟨field, value⟩, fields, rfl⟩ := exists_cons_of_length_eq_add_one length
      obtain ⟨⟨⟨nonblank, portable, fits⟩, valueOk⟩, rest⟩ := forall_mem_cons.mp all
      obtain ⟨above, sorted⟩ := ordered_cons_iff.mp sorted
      refine ⟨field, _, _, _, _, ⟨fits, rfl, rfl⟩, ⟨⟨nonblank, portable⟩, above, value, _, _, _, _,
        ⟨valueOk, rfl, rfl⟩, ⟨fields, _, _, _, _, ⟨⟨Nat.succ.inj length, sorted, rest⟩, rfl, rfl⟩,
          ⟨rfl, rfl, rfl⟩, rfl, rfl⟩, rfl, rfl⟩, by simp, ?_⟩
      simp only [map_cons, sum_cons]
      omega

end

end Loops

/-! ## Values -/

/-- The tag of a canonical value; string bytes and closures have none. -/
def tagOf : ReplValue → UInt8
  | .unit => tagUnit
  | .bool false => tagFalse
  | .bool true => tagTrue
  | .int _ => tagInt
  | .float _ => tagFloatText
  | .string _ => tagString
  | .atom _ => tagAtom
  | .tuple _ => tagTuple
  | .list _ => tagList
  | .map _ => tagMap
  | .set _ => tagSet
  | .record _ _ => tagRecord
  | .bytes _ => tagBytes
  | .bitString _ => tagBitstring
  | .stringBytes _ | .closure _ _ _ => 0

section Values

theorem tagOf_bool (value : Bool) : tagOf (.bool value) = if value then tagTrue else tagFalse := by
  cases value <;> rfl

attribute [local grind] tagOf tagOf_bool tagUnit tagFalse tagTrue tagInt tagFloatText tagString
  tagAtom tagTuple tagList tagMap tagSet tagRecord tagBytes tagBitstring

variable {declaredAtoms : List String} {levels : Nat}

variable {tag : UInt8}

theorem tagOf_encoding {value : ReplValue} {bytes : Bytes}
    (h : IsCanonical declaredAtoms levels value) (eq : encoding value = tag :: bytes) :
    tagOf value = tag := by
  cases value with
  | stringBytes bytes => exact absurd h isCanonical_stringBytes
  | closure callableId types captures => cases h.encodable
  | bool value => cases value <;> exact (List.cons.inj eq).1
  | _ => exact (List.cons.inj eq).1

/-- The canonical values behind one tag. -/
def taggedBy (declaredAtoms : List String) (levels : Nat) (tag : UInt8) : Language ReplValue :=
  fun value bytes n => IsCanonical declaredAtoms levels value ∧ encoding value = tag :: bytes ∧
    n = nestedValues value

/-- The values that one constructor builds. -/
def built {α : Type} (f : α → ReplValue) (valid : α → Prop) (out : α → Bytes) (slots : α → Nat) :
    Language ReplValue :=
  fun value bytes n => ∃ a, value = f a ∧ valid a ∧ bytes = out a ∧ n = slots a

theorem decodes_build {α : Type} {a : DecodeM α} {f : α → ReplValue} {valid : α → Prop}
    {out : α → Bytes} {slots : α → Nat} (h : Decodes declaredAtoms a (reading valid out slots)) :
    Decodes declaredAtoms (a >>= fun x => pure (f x)) (built f valid out slots) := by
  refine (decodes_bind h fun x _ => decodes_pure (f x)).congr fun value bytes n => ?_
  constructor
  · rintro ⟨x, _, _, _, _, ⟨holds, rfl, rfl⟩, ⟨rfl, rfl, rfl⟩, rfl, rfl⟩
    exact ⟨x, rfl, holds, append_nil _, rfl⟩
  · rintro ⟨x, rfl, holds, rfl, rfl⟩
    exact ⟨x, _, _, _, _, ⟨holds, rfl, rfl⟩, ⟨rfl, rfl, rfl⟩, (append_nil _).symm, rfl⟩

/-- A branch of the decoder reads the canonical values of its tag when it builds them all. -/
theorem decodes_branch {α : Type} {action : DecodeM ReplValue} {f : α → ReplValue}
    {valid : α → Prop} {out : α → Bytes} {slots : α → Nat}
    (h : Decodes declaredAtoms action (built f valid out slots))
    (shape : ∀ value, tagOf value = tag → ∃ a, value = f a)
    (canon : ∀ a, IsCanonical declaredAtoms levels (f a) ↔ valid a)
    (encodes : ∀ a, valid a → encoding (f a) = tag :: out a)
    (nested : ∀ a, nestedValues (f a) = slots a) :
    Decodes declaredAtoms action (taggedBy declaredAtoms levels tag) := by
  refine h.congr fun value bytes n => ?_
  constructor
  · rintro ⟨a, rfl, holds, rfl, rfl⟩
    exact ⟨(canon a).mpr holds, encodes a holds, (nested a).symm⟩
  · rintro ⟨canonical, eq, rfl⟩
    obtain ⟨a, rfl⟩ := shape value (tagOf_encoding canonical eq)
    have holds := (canon a).mp canonical
    refine ⟨a, rfl, holds, ?_, nested a⟩
    exact (List.cons.inj (eq.symm.trans (encodes a holds))).2

theorem decodes_constant {value : ReplValue} (shape : ∀ value', tagOf value' = tag → value' = value)
    (canon : IsCanonical declaredAtoms levels value) (encodes : encoding value = [tag])
    (nested : nestedValues value = 0) :
    Decodes declaredAtoms (pure value) (taggedBy declaredAtoms levels tag) := by
  refine decodes_branch (f := fun _ : Unit => value) ((decodes_pure value).congr ?_)
    (fun value' head => ⟨(), shape value' head⟩) (fun _ => iff_of_true canon trivial)
    (fun _ _ => encodes) fun _ => nested
  exact fun _ _ _ => ⟨fun ⟨eq, bytes, n⟩ => ⟨(), eq, trivial, bytes, n⟩,
    fun ⟨_, eq, _, bytes, n⟩ => ⟨eq, bytes, n⟩⟩

/-! ### Branches without nested values -/

theorem decodes_unit :
    Decodes declaredAtoms (pure .unit) (taggedBy declaredAtoms (levels + 1) tagUnit) := by
  refine decodes_constant (fun value head => ?_) ⟨.unit levels, rfl⟩ rfl rfl
  cases value <;> first
    | rfl
    | grind

theorem decodes_bool (value : Bool) :
    Decodes declaredAtoms (pure (.bool value))
      (taggedBy declaredAtoms (levels + 1) (if value then tagTrue else tagFalse)) := by
  refine decodes_constant (fun value' head => ?_) ⟨.bool levels value, rfl⟩
    (by cases value <;> rfl) rfl
  cases value' with
  | bool value' => cases value <;> cases value' <;> first | rfl | exact absurd head (by decide)
  | _ => cases value <;> exact absurd head (by rw [tagOf]; decide)

theorem decodes_int : Decodes declaredAtoms (readU64 >>= fun value => pure (.int value.toInt64))
      (taggedBy declaredAtoms (levels + 1) tagInt) := by
  refine decodes_branch (decodes_build decodes_readU64) (fun value head => ?_)
    (fun value => iff_of_true ⟨.int levels _, rfl⟩ trivial) (fun value _ => ?_) fun _ => rfl
  · cases value <;> first
      | exact ⟨Int64.toUInt64 _, rfl⟩
      | grind
  · rw [encoding]
    rfl

theorem decodes_float : Decodes declaredAtoms (readText >>= fun text => pure (.float text))
      (taggedBy declaredAtoms (levels + 1) tagFloatText) := by
  refine decodes_branch (decodes_build decodes_readText) (fun value head => ?_)
    (fun text => ⟨fun h => (encodable_float_iff.mp h.encodable).2, fun h => ⟨.float _ _ h, rfl⟩⟩)
    (fun text _ => by rw [encoding]) fun _ => rfl
  cases value <;> first
    | exact ⟨_, rfl⟩
    | grind

theorem decodes_string : Decodes declaredAtoms (readText >>= fun text => pure (.string text))
      (taggedBy declaredAtoms (levels + 1) tagString) := by
  refine decodes_branch (decodes_build decodes_readText) (fun value head => ?_)
    (fun text => ⟨fun h => (encodable_string_iff.mp h.encodable).2, fun h => ⟨.string _ _ h, rfl⟩⟩)
    (fun text _ => by rw [encoding]) fun _ => rfl
  cases value <;> first
    | exact ⟨_, rfl⟩
    | grind

theorem decodes_decodeAtom :
    Decodes declaredAtoms decodeAtom (taggedBy declaredAtoms (levels + 1) tagAtom) := by
  have checked : ∀ atom, Decodes declaredAtoms
      (get >>= fun decoder => liftM (failIf (¬ decoder.declaredAtoms.any (· = atom))
        s!"error[tetf_atom]: atom `{atom}` is not in the declared atom manifest") >>= fun _ =>
          pure (.atom atom) : DecodeM ReplValue) fun value bytes n =>
            atom ∈ declaredAtoms ∧ value = .atom atom ∧ bytes = [] ∧ n = 0 := by
    intro atom
    refine decodes_lookahead (decodes_pure _) fun decoder placed _ _ _ _ _ => ?_
    rw [failIf_ok_iff, placed.atoms]
    simp
  refine decodes_branch (f := ReplValue.atom) ((decodes_bind decodes_readText fun atom _ =>
    checked atom).congr fun value bytes n => ?_) (fun value head => ?_)
      (fun name => ⟨fun h => (encodable_atom_iff.mp h.encodable).2.symm,
        fun h => ⟨.atom _ _ h.2 h.1, rfl⟩⟩)
      (fun name _ => by rw [encoding]) fun _ => rfl
  · constructor
    · rintro ⟨atom, _, _, _, _, ⟨fits, rfl, rfl⟩, ⟨declared, rfl, rfl, rfl⟩, rfl, rfl⟩
      exact ⟨atom, rfl, ⟨fits, declared⟩, append_nil _, rfl⟩
    · rintro ⟨atom, rfl, ⟨fits, declared⟩, rfl, rfl⟩
      exact ⟨atom, _, _, _, _, ⟨fits, rfl, rfl⟩, ⟨declared, rfl, rfl, rfl⟩,
        (append_nil _).symm, rfl⟩
  · cases value <;> first
      | exact ⟨_, rfl⟩
      | grind

theorem decodes_bytes :
    Decodes declaredAtoms (do
        let len ← readLen
        return ReplValue.bytes (← readExact len)) (taggedBy declaredAtoms (levels + 1) tagBytes) := by
  refine decodes_branch (f := ReplValue.bytes) ((decodes_bind decodes_readLen fun len _ =>
    decodes_bind (decodes_readExact len) fun bytes _ => decodes_pure (ReplValue.bytes bytes)).congr
      fun value bytes n => ?_) (fun value head => ?_)
      (fun bytes => ⟨fun h => (encodable_bytes_iff.mp h.encodable).2,
        fun h => ⟨.bytes _ _ h, rfl⟩⟩) (fun bytes _ => by rw [encoding]; rfl) fun _ => rfl
  · constructor
    · rintro ⟨_, _, _, _, _, ⟨fits, rfl, rfl⟩, ⟨_, field, _, _, _, ⟨rfl, rfl, rfl⟩,
        ⟨rfl, rfl, rfl⟩, rfl, rfl⟩, rfl, rfl⟩
      exact ⟨field, rfl, fits, by rw [append_nil]; rfl, rfl⟩
    · rintro ⟨field, rfl, fits, rfl, rfl⟩
      exact ⟨_, _, _, _, _, ⟨fits, rfl, rfl⟩, ⟨field, _, _, _, _, ⟨rfl, rfl, rfl⟩,
        ⟨rfl, rfl, rfl⟩, (append_nil _).symm, rfl⟩, rfl, rfl⟩
  · cases value <;> first
      | exact ⟨_, rfl⟩
      | grind

/-- Storage of the expected length is rebuilt as it is unless it has bits to clear. -/
theorem fromBytes_eq {bytes : Bytes} {bitLen : Nat} (length : bytes.length = (bitLen + 7) / 8)
    (fits : FitsLength bitLen) :
    ∃ value, VmBitString.fromBytes bytes bitLen = .ok value ∧ value.bitLen = bitLen ∧
      value.bytes = maskUnusedTrailingBits bytes bitLen := by
  unfold FitsLength at fits
  have host : ¬ bytes.length * 8 > usizeMax := by
    unfold usizeMax
    omega
  have storage : ¬ bitLen > bytes.length * 8 := by omega
  have round : ¬ bitLen + 7 > usizeMax := by
    unfold usizeMax
    omega
  unfold VmBitString.fromBytes
  rw [if_neg host, dif_neg storage, if_neg round]
  refine ⟨_, rfl, rfl, ?_⟩
  have all : bytes.take ((bitLen + 7) / 8) = bytes := by rw [← length, take_length]
  exact congrArg (maskUnusedTrailingBits · bitLen) all

theorem VmBitString.eq_of {a b : VmBitString} (hbytes : a.bytes = b.bytes)
    (hbitLen : a.bitLen = b.bitLen) : a = b := by
  cases a
  cases b
  cases hbytes
  cases hbitLen
  rfl

theorem decodes_bitstringStorage {bytes : Bytes} {bitLen : Nat}
    (length : bytes.length = (bitLen + 7) / 8) (fits : FitsLength bitLen) :
    Decodes declaredAtoms
      (match VmBitString.fromBytes bytes bitLen with
        | .error error => throw s!"error[tetf_bitstring]: {error.message}"
        | .ok value => do
          failIf (value.bytes ≠ bytes)
            "error[tetf_canonical]: bitstring has non-zero unused trailing bits"
          return ReplValue.bitString value)
      fun value rest n => ∃ bits : VmBitString, value = .bitString bits ∧ bits.bytes = bytes ∧
        bits.bitLen = bitLen ∧ rest = [] ∧ n = 0 := by
  obtain ⟨bits, eq, bitLen_eq, bytes_eq⟩ := fromBytes_eq length fits
  rw [eq]
  refine (decodes_check (failIf_ok_iff.trans not_not) fun _ => decodes_pure _).congr
    fun value rest n => ?_
  constructor
  · rintro ⟨same, rfl, rfl, rfl⟩
    exact ⟨bits, rfl, same, bitLen_eq, rfl, rfl⟩
  · rintro ⟨bits', rfl, rfl, rfl, rfl, rfl⟩
    have same : bits.bytes = bits'.bytes := bytes_eq.trans bits'.masked
    exact ⟨same, by rw [VmBitString.eq_of same bitLen_eq], rfl, rfl⟩

theorem decodes_decodeBitstring :
    Decodes declaredAtoms decodeBitstring (taggedBy declaredAtoms (levels + 1) tagBitstring) := by
  refine decodes_branch (f := ReplValue.bitString) ((decodes_bind decodes_readLen fun bitLen hbitLen =>
    decodes_bind decodes_readLen fun byteLen _ => decodes_check (failIf_ok_iff.trans not_not)
      fun expected => decodes_bind (decodes_readExact byteLen) fun bytes hbytes =>
        decodes_bitstringStorage ?_ ?_).congr fun value bytes n => ?_) (fun value head => ?_)
      (fun bits => ⟨fun h => (encodable_bitString_iff.mp h.encodable).2,
        fun h => ⟨.bitString _ _ h, rfl⟩⟩) (fun bits _ => by rw [encoding, append_assoc]; rfl)
      fun _ => rfl
  · obtain ⟨_, _, length, -⟩ := hbytes
    rw [length, expected]
  · obtain ⟨_, _, fits, -⟩ := hbitLen
    exact fits
  · constructor
    · rintro ⟨_, _, _, _, _, ⟨fits, rfl, rfl⟩, ⟨_, _, _, _, _, ⟨-, rfl, rfl⟩, ⟨expected,
        _, _, _, _, _, ⟨rfl, rfl, rfl⟩, ⟨bits, rfl, rfl, rfl, rfl, rfl⟩, rfl, rfl⟩, rfl, rfl⟩,
          rfl, rfl⟩
      exact ⟨bits, rfl, fits, by rw [append_nil]; rfl, rfl⟩
    · rintro ⟨bits, rfl, fits, rfl, rfl⟩
      have storage := bits.storage
      have bytesFit : FitsLength bits.bytes.length := by
        unfold FitsLength at *
        omega
      exact ⟨_, _, _, _, _, ⟨fits, rfl, rfl⟩, ⟨_, _, _, _, _, ⟨bytesFit, rfl, rfl⟩, ⟨storage,
        _, _, _, _, _, ⟨rfl, rfl, rfl⟩, ⟨bits, rfl, rfl, rfl, rfl, rfl⟩,
          (append_nil _).symm, rfl⟩, rfl, rfl⟩, rfl, rfl⟩
  · cases value <;> first
      | exact ⟨_, rfl⟩
      | grind

/-! ### Containers -/

variable {decode : DecodeM ReplValue}

theorem itemsValues_eq_add (items : List ReplValue) :
    itemsValues items = items.length + (items.map nestedValues).sum := by
  induction items with
  | nil => rfl
  | cons item items ih =>
    rw [itemsValues, ih, length_cons, map_cons, sum_cons]
    omega

theorem entriesValues_eq_add (entries : List (ReplValue × ReplValue)) :
    entriesValues entries = entries.length * 2 +
      (entries.map fun entry => nestedValues entry.1 + nestedValues entry.2).sum := by
  induction entries with
  | nil => rfl
  | cons entry entries ih =>
    rw [entriesValues, ih, length_cons, map_cons, sum_cons]
    omega

theorem fieldsValues_eq_add (fields : List (String × ReplValue)) : fieldsValues fields =
      fields.length + (fields.map fun field => nestedValues field.2).sum := by
  induction fields with
  | nil => rfl
  | cons field fields ih =>
    rw [fieldsValues, ih, length_cons, map_cons, sum_cons]
    omega

theorem length_flatMap_encoding {items : List ReplValue}
    (h : ∀ item ∈ items, IsCanonical declaredAtoms levels item) :
    items.length ≤ (items.flatMap encoding).length := by
  have := @length_flatMap_ge _ items encoding 1 fun item mem => encoding_ne_nil (h item mem).encodable
  omega

/-- A count, the check of room for as many items, and the items. -/
theorem decodes_counted {α : Type} {minimum : Nat} {valid : List α → Prop} {out : List α → Bytes}
    {slots : List α → Nat} {items : Nat → DecodeM (List α)}
    (room : ∀ values, valid values → values.length * minimum ≤ (out values).length)
    (decodes : ∀ len, FitsLength len → Decodes declaredAtoms (items len)
      (reading (fun values => values.length = len ∧ valid values) out slots)) :
    Decodes declaredAtoms (readLen >>= fun len =>
        requireRemainingItems len minimum >>= fun _ => items len)
      (reading (fun values => FitsLength values.length ∧ valid values)
        (fun values => beBytes 4 values.length ++ out values) slots) := by
  refine (decodes_bind decodes_readLen fun len ⟨_, _, fits, _⟩ =>
    decodes_room (decodes len fits) ?_).congr fun values bytes n => ?_
  · rintro values bytes n ⟨⟨rfl, ok⟩, rfl, rfl⟩
    exact room values ok
  · constructor
    · rintro ⟨_, _, _, _, _, ⟨fits, rfl, rfl⟩, ⟨⟨rfl, ok⟩, rfl, rfl⟩, rfl, rfl⟩
      exact ⟨⟨fits, ok⟩, rfl, Nat.zero_add _⟩
    · rintro ⟨⟨fits, ok⟩, rfl, rfl⟩
      exact ⟨_, _, _, _, _, ⟨fits, rfl, rfl⟩, ⟨⟨rfl, ok⟩, rfl, rfl⟩, rfl, (Nat.zero_add _).symm⟩

theorem decodes_reserved {α : Type} {count : Nat} {valid : α → Prop} {out : α → Bytes}
    {slots total : α → Nat} {a : DecodeM α} (h : Decodes declaredAtoms a (reading valid out slots))
    (all : ∀ x, valid x → total x = count + slots x) :
    Decodes declaredAtoms (reserveValueSlots count >>= fun _ => a) (reading valid out total) := by
  refine (decodes_bind (decodes_reserve count) fun _ _ => h).congr fun x bytes n => ?_
  constructor
  · rintro ⟨_, _, _, _, _, ⟨-, rfl, rfl⟩, ⟨ok, rfl, rfl⟩, rfl, rfl⟩
    exact ⟨ok, rfl, (all x ok).symm⟩
  · rintro ⟨ok, rfl, rfl⟩
    exact ⟨(), _, _, _, _, ⟨trivial, rfl, rfl⟩, ⟨ok, rfl, rfl⟩, rfl, all x ok⟩

section

variable
  (h : Decodes declaredAtoms decode
    (reading (IsCanonical declaredAtoms levels) encoding nestedValues))
include h

theorem decodes_decodeSequence :
    Decodes declaredAtoms (decodeSequence decode) (reading (fun items => FitsLength items.length ∧
          ∀ item ∈ items, IsCanonical declaredAtoms levels item)
        (fun items => beBytes 4 items.length ++ items.flatMap encoding) itemsValues) :=
  decodes_counted (fun _ nested => (Nat.mul_one _).trans_le (length_flatMap_encoding nested))
    fun len _ => decodes_reserved (decodes_decodeMany h len)
      fun items valid => valid.1 ▸ itemsValues_eq_add items

theorem decodes_decodeCanonicalSet :
    Decodes declaredAtoms (decodeCanonicalSet decode)
      (reading (fun items => FitsLength items.length ∧ items.Pairwise (KeyLT encoding) ∧
          ∀ item ∈ items, IsCanonical declaredAtoms levels item)
        (fun items => beBytes 4 items.length ++ items.flatMap encoding) itemsValues) := by
  refine decodes_counted
    (fun _ valid => (Nat.mul_one _).trans_le (length_flatMap_encoding valid.2)) fun len _ =>
      decodes_reserved ?_ fun items valid => valid.1 ▸ itemsValues_eq_add items
  simpa only [ordered_none_iff] using decodes_decodeSetItems h len none

theorem decodes_decodeMap :
    Decodes declaredAtoms (decodeMap decode)
      (built ReplValue.map (fun entries => FitsLength entries.length ∧
          entries.Pairwise (KeyLT fun entry => encoding entry.1) ∧ ∀ entry ∈ entries,
            IsCanonical declaredAtoms levels entry.1 ∧ IsCanonical declaredAtoms levels entry.2)
        (fun entries => beBytes 4 entries.length ++
          entries.flatMap fun entry => encoding entry.1 ++ encoding entry.2) entriesValues) := by
  have eq : decodeMap decode = (readLen >>= fun len => requireRemainingItems len 2 >>= fun _ =>
      (liftM (failIf (len * 2 > usizeMax) "error[tetf_size]: map value count overflow") :
        DecodeM Unit) >>= fun _ => reserveValueSlots (len * 2) >>= fun _ =>
          decodeMapEntries decode len none) >>= fun entries => pure (.map entries) := by
    simp only [decodeMap, bind_assoc]
  rw [eq]
  refine decodes_build (decodes_counted ?_ fun len fits => ?_)
  · rintro entries ⟨-, nested⟩
    rw [Nat.mul_comm]
    refine length_flatMap_ge fun entry mem => ?_
    have key := encoding_ne_nil (nested entry mem).1.encodable
    have value := encoding_ne_nil (nested entry mem).2.encodable
    rw [length_append]
    omega
  · have host : ¬ len * 2 > usizeMax := by
      unfold FitsLength at fits
      unfold usizeMax
      omega
    have entries := decodes_decodeMapEntries h len none
    simp only [ordered_none_iff] at entries
    exact (decodes_check failIf_ok_iff fun _ => decodes_reserved entries fun entries valid =>
      valid.1 ▸ entriesValues_eq_add entries).congr fun _ _ _ => and_iff_right host

theorem decodes_decodeRecord :
    Decodes declaredAtoms (decodeRecord decode)
      (built (fun record : String × List (String × ReplValue) => ReplValue.record record.1 record.2)
        (fun record : String × List (String × ReplValue) => (isBlank record.1 = false ∧ FitsLength (asBytes record.1).length) ∧
          FitsLength record.2.length ∧ record.2.Pairwise (KeyLT Prod.fst) ∧
            ∀ field ∈ record.2, FieldName field.1 ∧ IsCanonical declaredAtoms levels field.2)
        (fun record : String × List (String × ReplValue) => textField record.1 ++ beBytes 4 record.2.length ++
          record.2.flatMap fun field => textField field.1 ++ encoding field.2)
        fun record : String × List (String × ReplValue) => fieldsValues record.2) := by
  have eq : decodeRecord decode = readText >>= fun name =>
      liftM (validateTextField "record_name" name) >>= fun _ => (readLen >>= fun len =>
        requireRemainingItems len 2 >>= fun _ => reserveValueSlots len >>= fun _ =>
          decodeFields decode len none) >>= fun fields => pure (.record name fields) := by
    simp only [decodeRecord, bind_assoc]
  rw [eq]
  refine (decodes_bind decodes_readText fun name _ => decodes_check validateTextField_ok_iff fun _ =>
    decodes_build (decodes_counted ?_ fun len _ => decodes_reserved
      (by simpa only [ordered_none_iff] using decodes_decodeFields h len none)
        fun fields valid => valid.1 ▸ fieldsValues_eq_add fields)).congr fun value bytes n => ?_
  · rintro fields -
    rw [Nat.mul_comm]
    refine length_flatMap_ge fun field _ => ?_
    rw [length_append, length_textField]
    omega
  · constructor
    · rintro ⟨name, _, _, _, _, ⟨nameFits, rfl, rfl⟩, ⟨named, fields, rfl, valid, rfl, rfl⟩, rfl, rfl⟩
      exact ⟨(name, fields), rfl, ⟨⟨named, nameFits⟩, valid⟩, (append_assoc _ _ _).symm,
        Nat.zero_add _⟩
    · rintro ⟨⟨name, fields⟩, rfl, ⟨⟨named, nameFits⟩, valid⟩, rfl, rfl⟩
      exact ⟨name, _, _, _, _, ⟨nameFits, rfl, rfl⟩, ⟨named, fields, rfl, valid, rfl, rfl⟩,
        append_assoc _ _ _, (Nat.zero_add _).symm⟩

theorem decodes_tuple :
    Decodes declaredAtoms (decodeSequence decode >>= fun items => pure (.tuple items))
      (taggedBy declaredAtoms (levels + 1) tagTuple) := by
  refine decodes_branch (decodes_build (decodes_decodeSequence h)) (fun value head => ?_)
    (fun _ => isCanonical_tuple_iff) (fun items _ => encoding_tuple items) fun _ => rfl
  cases value <;> first
    | exact ⟨_, rfl⟩
    | grind

theorem decodes_list :
    Decodes declaredAtoms (decodeSequence decode >>= fun items => pure (.list items))
      (taggedBy declaredAtoms (levels + 1) tagList) := by
  refine decodes_branch (decodes_build (decodes_decodeSequence h)) (fun value head => ?_)
    (fun _ => isCanonical_list_iff) (fun items _ => encoding_list items) fun _ => rfl
  cases value <;> first
    | exact ⟨_, rfl⟩
    | grind

theorem decodes_set :
    Decodes declaredAtoms (decodeCanonicalSet decode >>= fun items => pure (.set items))
      (taggedBy declaredAtoms (levels + 1) tagSet) := by
  refine decodes_branch (decodes_build (decodes_decodeCanonicalSet h)) (fun value head => ?_)
    (fun _ => isCanonical_set_iff) (fun items holds => ?_) fun _ => rfl
  · cases value <;> first
      | exact ⟨_, rfl⟩
      | grind
  · have unique : uniqueItems items = items := sortUnique_eq_self holds.2.1
    rw [encoding_set, unique]
    rfl

theorem decodes_map :
    Decodes declaredAtoms (decodeMap decode) (taggedBy declaredAtoms (levels + 1) tagMap) := by
  refine decodes_branch (decodes_decodeMap h) (fun value head => ?_)
    (fun _ => isCanonical_map_iff) (fun entries holds => ?_) fun _ => rfl
  · cases value <;> first
      | exact ⟨_, rfl⟩
      | grind
  · have sorted : sortedEntries entries = entries := sortByKey_eq_self holds.2.1
    rw [encoding_map, sorted]
    rfl

theorem decodes_record :
    Decodes declaredAtoms (decodeRecord decode)
      (taggedBy declaredAtoms (levels + 1) tagRecord) := by
  refine decodes_branch (decodes_decodeRecord h) (fun value head => ?_)
    (fun _ => isCanonical_record_iff) (fun record holds => ?_) fun _ => rfl
  · cases value <;> first
      | exact ⟨(_, _), rfl⟩
      | grind
  · have sorted : sortedFields record.2 = record.2 := sortByKey_eq_self holds.2.2.1
    rw [encoding_record, sorted]
    rfl

end

/-! ### All branches -/

/-- Behind a tag the decoder reads the rest of the canonical values with that tag. -/
theorem decodes_decodeTagged (h : Decodes declaredAtoms decode
      (reading (IsCanonical declaredAtoms levels) encoding nestedValues)) (tag : UInt8) :
    Decodes declaredAtoms (decodeTagged decode tag) (taggedBy declaredAtoms (levels + 1) tag) := by
  rcases eq_or_ne tag tagUnit with rfl | notUnit
  · exact decodes_unit
  rcases eq_or_ne tag tagFalse with rfl | notFalse
  · exact decodes_bool false
  rcases eq_or_ne tag tagTrue with rfl | notTrue
  · exact decodes_bool true
  rcases eq_or_ne tag tagInt with rfl | notInt
  · exact decodes_int
  rcases eq_or_ne tag tagFloatText with rfl | notFloat
  · exact decodes_float
  rcases eq_or_ne tag tagString with rfl | notString
  · exact decodes_string
  rcases eq_or_ne tag tagAtom with rfl | notAtom
  · exact decodes_decodeAtom
  rcases eq_or_ne tag tagTuple with rfl | notTuple
  · exact decodes_tuple h
  rcases eq_or_ne tag tagList with rfl | notList
  · exact decodes_list h
  rcases eq_or_ne tag tagMap with rfl | notMap
  · exact decodes_map h
  rcases eq_or_ne tag tagSet with rfl | notSet
  · exact decodes_set h
  rcases eq_or_ne tag tagRecord with rfl | notRecord
  · exact decodes_record h
  rcases eq_or_ne tag tagBytes with rfl | notBytes
  · exact decodes_bytes
  rcases eq_or_ne tag tagBitstring with rfl | notBitstring
  · exact decodes_decodeBitstring
  -- an unknown tag is the tag of no canonical value
  have unknown : decodeTagged decode tag =
      throw s!"error[tetf_tag]: unknown runtime value tag {hexByte tag}" := by
    unfold decodeTagged
    rw [if_neg notUnit, if_neg notFalse, if_neg notTrue, if_neg notInt, if_neg notFloat,
      if_neg notString, if_neg notAtom, if_neg notTuple, if_neg notList, if_neg notMap,
      if_neg notSet, if_neg notRecord, if_neg notBytes, if_neg notBitstring]
  rw [unknown]
  refine (decodes_throw _).congr fun value bytes n => ⟨False.elim, ?_⟩
  rintro ⟨canonical, eq, -⟩
  have head := tagOf_encoding canonical eq
  cases value with
  | stringBytes bytes => exact isCanonical_stringBytes canonical
  | closure callableId types captures => cases canonical.encodable
  | bool value =>
    cases value with
    | false => exact notFalse head.symm
    | true => exact notTrue head.symm
  | unit => exact notUnit head.symm
  | int value => exact notInt head.symm
  | float text => exact notFloat head.symm
  | string text => exact notString head.symm
  | bytes bytes => exact notBytes head.symm
  | bitString value => exact notBitstring head.symm
  | atom name => exact notAtom head.symm
  | tuple items => exact notTuple head.symm
  | record name fields => exact notRecord head.symm
  | list items => exact notList head.symm
  | map entries => exact notMap head.symm
  | set items => exact notSet head.symm

/-- The decoder reads exactly the encodings of canonical values, and takes a value slot for
each value nested in them. -/
theorem decodeValue_reads (levels : Nat) : Decodes declaredAtoms (decodeValue levels)
      (reading (IsCanonical declaredAtoms levels) encoding nestedValues) := by
  induction levels with
  | zero =>
    refine (decodes_throw _).congr fun value bytes n => ⟨False.elim, ?_⟩
    rintro ⟨canonical, -⟩
    cases canonical.encodable
  | succ levels ih =>
    refine (decodes_bind decodes_readU8 fun tag _ => decodes_decodeTagged ih tag).congr
      fun value bytes n => ?_
    constructor
    · rintro ⟨tag, _, _, _, _, ⟨-, rfl, rfl⟩, ⟨canonical, eq, rfl⟩, rfl, rfl⟩
      exact ⟨canonical, eq.symm, Nat.zero_add _⟩
    · rintro ⟨canonical, rfl, rfl⟩
      obtain ⟨tag, rest, eq⟩ := exists_cons_of_length_pos (encoding_ne_nil canonical.encodable)
      exact ⟨tag, _, _, rest, _, ⟨trivial, rfl, rfl⟩, ⟨canonical, eq, rfl⟩, eq,
        (Nat.zero_add _).symm⟩

end Values

end Terlan.TermFormat
