/-
  What the encoder writes. `Writes action condition out` describes an action on a bounded
  buffer: it succeeds exactly when `condition` holds and the buffer has room for `out`, and
  then it appends `out`. The rules below compose such descriptions along the `do` blocks of
  the encoder; `encodeValue_writes` is the result: `encodeValue` appends the encoding
  of its value, and succeeds exactly on the encodable values that fit.
-/
import Terlan.TermFormat.Canonical

namespace Terlan.TermFormat

open Terlan.Lib List
open Std (ExtTreeSet)

/-! ## Descriptions of writing actions -/

def EncodingBuffer.append (buffer : EncodingBuffer) (bytes : Bytes) : EncodingBuffer :=
  { buffer with bytes := buffer.bytes ++ bytes }

/-- The buffer holds no more than its limit. -/
def EncodingBuffer.Bounded (buffer : EncodingBuffer) : Prop :=
  buffer.bytes.length ≤ buffer.maximum

def Writes (action : EncodeM Unit) (condition : Prop) (out : Bytes) : Prop :=
  ∀ buffer buffer', buffer.Bounded →
    (action buffer = .ok ((), buffer') ↔
      condition ∧ buffer' = buffer.append out ∧ buffer'.Bounded)

theorem append_append (buffer : EncodingBuffer) (a b : Bytes) :
    (buffer.append a).append b = buffer.append (a ++ b) := by
  simp [EncodingBuffer.append]

theorem bounded_append_iff {buffer : EncodingBuffer} (h : buffer.Bounded) {bytes : Bytes} :
    (buffer.append bytes).Bounded ↔ bytes.length ≤ buffer.remaining := by
  simp only [EncodingBuffer.Bounded, EncodingBuffer.append, EncodingBuffer.remaining,
    length_append] at h ⊢
  omega

theorem bounded_of_append {buffer : EncodingBuffer} {a b : Bytes}
    (h : (buffer.append (a ++ b)).Bounded) : (buffer.append a).Bounded := by
  simp only [EncodingBuffer.Bounded, EncodingBuffer.append, length_append] at h ⊢
  omega

theorem Writes.congr {action : EncodeM Unit} {condition condition' : Prop} {out out' : Bytes}
    (h : Writes action condition out) (hcondition : condition ↔ condition') (hout : out = out') :
    Writes action condition' out' := by
  subst hout
  intro buffer buffer' bounded
  rw [h buffer buffer' bounded, hcondition]

theorem writes_pure : Writes (pure ()) True [] := by
  intro buffer buffer' bounded
  change (Except.ok ((), buffer) : Except String _) = _ ↔ _
  constructor
  · intro h
    cases h
    exact ⟨trivial, by simp [EncodingBuffer.append], bounded⟩
  · rintro ⟨-, rfl, -⟩
    simp [EncodingBuffer.append]

theorem writes_bind {a b : EncodeM Unit} {condition condition' : Prop} {out out' : Bytes}
    (ha : Writes a condition out) (hb : condition → Writes b condition' out') :
    Writes (a >>= fun _ => b) (condition ∧ condition') (out ++ out') := by
  intro buffer buffer' bounded
  rw [bind_ok_iff]
  constructor
  · rintro ⟨_, middle, first, second⟩
    obtain ⟨holds, rfl, fits⟩ := (ha buffer middle bounded).mp first
    obtain ⟨holds', rfl, fits'⟩ := (hb holds _ buffer' fits).mp second
    exact ⟨⟨holds, holds'⟩, append_append _ _ _, fits'⟩
  · rintro ⟨⟨holds, holds'⟩, rfl, fits⟩
    have middle := bounded_of_append fits
    refine ⟨(), buffer.append out, (ha _ _ bounded).mpr ⟨holds, rfl, middle⟩, ?_⟩
    rw [← append_append] at fits ⊢
    exact (hb holds _ _ middle).mpr ⟨holds', rfl, fits⟩

/-- A check that does not look at the buffer. -/
theorem writes_check {x : Except String Unit} {check condition : Prop} {b : EncodeM Unit}
    {out : Bytes} (hx : x = .ok () ↔ check) (hb : check → Writes b condition out) :
    Writes (liftM x >>= fun _ => b) (check ∧ condition) out := by
  have hx : Writes (liftM x) check [] := by
    intro buffer buffer' bounded
    rw [lift_ok_iff, hx]
    constructor
    · rintro ⟨holds, rfl⟩
      exact ⟨holds, by simp [EncodingBuffer.append], bounded⟩
    · rintro ⟨holds, rfl, -⟩
      exact ⟨holds, by simp [EncodingBuffer.append]⟩
  exact writes_bind hx hb

/-- A computation that looks at the room left. Its result is `a` whenever it succeeds, and it
succeeds whenever there is room for what is written afterwards. -/
theorem writes_lookahead {α : Type} {x : EncodingBuffer → Except String α} {a : α}
    {check condition : Prop} {b : α → EncodeM Unit} {out : Bytes}
    (sound : ∀ buffer a', x buffer = .ok a' → check ∧ a' = a)
    (complete : ∀ buffer, check → condition → out.length ≤ buffer.remaining → x buffer = .ok a)
    (hb : check → Writes (b a) condition out) :
    Writes (get >>= fun buffer => liftM (x buffer) >>= b) (check ∧ condition) out := by
  intro buffer buffer' bounded
  change ((liftM (x buffer) : EncodeM α) >>= b) buffer = _ ↔ _
  rw [bind_ok_iff]
  simp only [lift_ok_iff]
  constructor
  · rintro ⟨a', _, ⟨run, rfl⟩, rest⟩
    obtain ⟨holds, rfl⟩ := sound _ _ run
    obtain ⟨holds', rfl, fits⟩ := (hb holds _ buffer' bounded).mp rest
    exact ⟨⟨holds, holds'⟩, rfl, fits⟩
  · rintro ⟨⟨holds, holds'⟩, rfl, fits⟩
    have run := complete buffer holds holds' ((bounded_append_iff bounded).mp fits)
    exact ⟨a, buffer, ⟨run, rfl⟩, (hb holds _ _ bounded).mpr ⟨holds', rfl, fits⟩⟩

/-- A check of the room left that anything written afterwards implies. -/
theorem writes_room {refuse : EncodingBuffer → Prop} [DecidablePred refuse] {message : String}
    {b : EncodeM Unit} {condition : Prop} {out : Bytes} (hb : Writes b condition out)
    (implied : ∀ buffer, condition → out.length ≤ buffer.remaining → ¬ refuse buffer) :
    Writes (get >>= fun buffer => liftM (failIf (refuse buffer) message) >>= fun _ => b)
      condition out :=
  (@writes_lookahead _ _ () True condition (fun _ => b) out (fun _ _ _ => ⟨trivial, rfl⟩)
    (fun buffer _ holds room => failIf_ok_iff.mpr (implied buffer holds room))
    fun _ => hb).congr (iff_of_eq (true_and _)) rfl

theorem writes_extend (bytes : Bytes) : Writes (extendFromSlice bytes) True bytes := by
  intro buffer buffer' bounded
  have run : extendFromSlice bytes buffer =
      if bytes.length > buffer.remaining then
        .error "error[tetf_size]: encoded term exceeds byte limit"
      else .ok ((), buffer.append bytes) := by
    change (liftM (failIf (bytes.length > buffer.remaining)
      "error[tetf_size]: encoded term exceeds byte limit") >>= fun _ => _ : EncodeM Unit) buffer = _
    unfold failIf
    split <;> rfl
  rw [run]
  have fits := @bounded_append_iff _ bounded bytes
  split
  next tooLong =>
    constructor
    · intro h
      cases h
    · rintro ⟨-, rfl, fits'⟩
      have := fits.mp fits'
      omega
  next under =>
    constructor
    · intro h
      cases h
      exact ⟨trivial, rfl, fits.mpr (by omega)⟩
    · rintro ⟨-, rfl, -⟩
      rfl

theorem writes_push (byte : UInt8) : Writes (push byte) True [byte] := writes_extend [byte]

theorem writes_len (len : Nat) : Writes (writeLen len) (FitsLength len) (beBytes 4 len) := by
  unfold writeLen
  split
  next fits => exact (writes_extend _).congr ⟨fun _ => fits, fun _ => trivial⟩ rfl
  next tooLong =>
    intro buffer buffer' bounded
    constructor
    · intro h
      cases h
    · rintro ⟨fits, -⟩
      exact absurd fits tooLong

theorem writes_text (text : String) :
    Writes (writeText text) (FitsLength (asBytes text).length) (textField text) :=
  (writes_bind (writes_len _) fun _ => writes_extend _).congr (iff_of_eq (and_true _)) rfl

/-- A loop over a list that was mapped before. -/
theorem writes_forM {α β : Type} {l : List α} {g : α → β} {f : β → EncodeM Unit}
    {condition : α → Prop} {out : α → Bytes} (h : ∀ a ∈ l, Writes (f (g a)) (condition a) (out a)) :
    Writes ((l.map g).forM f) (∀ a ∈ l, condition a) (l.flatMap out) := by
  induction l with
  | nil => exact writes_pure.congr (by simp) rfl
  | cons a l ih =>
    have head := h a mem_cons_self
    have tail := ih fun b mem => h b (mem_cons_of_mem _ mem)
    exact (writes_bind head fun _ => tail).congr forall_mem_cons.symm
      flatMap_cons.symm

theorem encodedInto_ok_iff {action : EncodeM Unit} {condition : Prop} {out : Bytes}
    (h : Writes action condition out) {maximum : Nat} {bytes : Bytes} :
    encodedInto maximum action = .ok bytes ↔ condition ∧ bytes = out ∧ out.length ≤ maximum := by
  have bounded : (EncodingBuffer.new maximum).Bounded := Nat.zero_le _
  have room := @bounded_append_iff _ bounded out
  have run := fun buffer => h (.new maximum) buffer bounded
  unfold encodedInto
  constructor
  · intro eq
    cases result : action (.new maximum) with
    | error e => rw [result] at eq; cases eq
    | ok r =>
      obtain ⟨⟨⟩, buffer⟩ := r
      rw [result] at eq
      cases eq
      obtain ⟨holds, rfl, fits⟩ := (run buffer).mp result
      exact ⟨holds, rfl, room.mp fits⟩
  · rintro ⟨holds, rfl, fits⟩
    rw [(run _).mpr ⟨holds, rfl, room.mpr fits⟩]
    rfl

/-! ## Containers -/

section Containers

variable {declaredAtoms : List String}

/-- What is proved of `encodeValue` on one value, at every depth. -/
def EncodesValue (declaredAtoms : List String) (value : ReplValue) : Prop :=
  ∀ depth, Writes (encodeValue declaredAtoms value depth)
    (Encodable declaredAtoms (maxNestingDepth - depth) value) (encoding value)

theorem encodeItems_writes {items : List ReplValue}
    (h : ∀ item ∈ items, EncodesValue declaredAtoms item) (depth : Nat) :
    Writes (encodeItems declaredAtoms items depth)
      (∀ item ∈ items, Encodable declaredAtoms (maxNestingDepth - depth) item)
      (items.flatMap encoding) := by
  induction items with
  | nil => exact writes_pure.congr (by simp) rfl
  | cons item items ih =>
    rw [encodeItems]
    have tail := ih fun item mem => h item (mem_cons_of_mem _ mem)
    exact (writes_bind (h item mem_cons_self depth) fun _ => tail).congr
      forall_mem_cons.symm flatMap_cons.symm

theorem itemEncoders_eq (items : List ReplValue) (depth : Nat) :
    itemEncoders declaredAtoms items depth =
      items.map fun item => encodeValue declaredAtoms item depth := by
  induction items with
  | nil => rfl
  | cons item items ih => rw [itemEncoders, ih, map_cons]

theorem fieldEncoders_eq (fields : List (String × ReplValue)) (depth : Nat) :
    fieldEncoders declaredAtoms fields depth =
      fields.map fun field => (field.1, encodeValue declaredAtoms field.2 depth) := by
  induction fields with
  | nil => rfl
  | cons field fields ih => rw [fieldEncoders, ih, map_cons]

/-- The keys of a map are encoded within one budget. -/
theorem mapEncoders_ok_iff {entries : List (ReplValue × ReplValue)}
    (h : ∀ entry ∈ entries, EncodesValue declaredAtoms entry.1) {depth remaining : Nat}
    {encoded : List (Bytes × EncodeM Unit)} :
    mapEncoders declaredAtoms entries depth remaining = .ok encoded ↔
      (∀ entry ∈ entries, Encodable declaredAtoms (maxNestingDepth - depth) entry.1) ∧
        (entries.flatMap fun entry => encoding entry.1).length ≤ remaining ∧
          encoded = entries.map fun entry =>
            (encoding entry.1, encodeValue declaredAtoms entry.2 depth) := by
  induction entries generalizing remaining encoded with
  | nil => simp [mapEncoders, eq_comm]
  | cons entry entries ih =>
    have head := fun bytes =>
      @encodedInto_ok_iff _ _ _ (h entry mem_cons_self depth) remaining bytes
    have tail := fun remaining encoded =>
      @ih (fun entry mem => h entry (mem_cons_of_mem _ mem)) remaining encoded
    rw [mapEncoders, forall_mem_cons, flatMap_cons, length_append, map_cons]
    constructor
    · intro run
      obtain ⟨key, keyRun, run⟩ := except_bind_ok_iff.mp run
      obtain ⟨rest, restRun, run⟩ := except_bind_ok_iff.mp run
      obtain ⟨keyOk, rfl, keyFits⟩ := (head _).mp keyRun
      obtain ⟨restOk, restFits, rfl⟩ := (tail _ _).mp restRun
      cases run
      exact ⟨⟨keyOk, restOk⟩, by omega, rfl⟩
    · rintro ⟨⟨keyOk, restOk⟩, fits, rfl⟩
      refine except_bind_ok_iff.mpr ⟨_, (head _).mpr ⟨keyOk, rfl, by omega⟩, ?_⟩
      refine except_bind_ok_iff.mpr ⟨_, (tail _ _).mpr ⟨restOk, by omega, rfl⟩, rfl⟩

/-- The bytes that the items of a set take. -/
def totalLength (ordered : ExtTreeSet Bytes) : Nat := ordered.toList.flatten.length

theorem totalLength_insert {ordered : ExtTreeSet Bytes} {item : Bytes} (h : item ∉ ordered) :
    totalLength (ordered.insert item) = item.length + totalLength ordered := by
  have perm := (toList_insert_perm h).flatten.length_eq
  rwa [flatten_cons, length_append] at perm

theorem totalLength_insertAll (ordered : ExtTreeSet Bytes) (items : List Bytes) :
    totalLength ordered ≤ totalLength (insertAll ordered items) := by
  induction items generalizing ordered with
  | nil => exact Nat.le_refl _
  | cons item items ih =>
    refine Nat.le_trans ?_ (ih (ordered.insert item))
    by_cases mem : item ∈ ordered
    · rw [insert_of_mem mem]
    · rw [totalLength_insert mem]
      omega

/-- The items of a set are encoded one by one; only new ones count against the budget. -/
theorem collectSetItems_ok_iff {α : Type} {items : List α} {act : α → EncodeM Unit}
    {condition : α → Prop} {out : α → Bytes}
    (h : ∀ a ∈ items, Writes (act a) (condition a) (out a)) {maximum remaining : Nat}
    {ordered result : ExtTreeSet Bytes} :
    collectSetItems maximum (items.map act) remaining ordered = .ok result ↔
      (∀ a ∈ items, condition a ∧ (out a).length ≤ maximum) ∧
        totalLength result ≤ totalLength ordered + remaining ∧
          result = insertAll ordered (items.map out) := by
  induction items generalizing remaining ordered with
  | nil =>
    rw [map_nil, collectSetItems, map_nil]
    constructor
    · intro run
      cases run
      exact ⟨by simp, by omega, rfl⟩
    · rintro ⟨-, -, rfl⟩
      rfl
  | cons a items ih =>
    have head := fun bytes =>
      @encodedInto_ok_iff _ _ _ (h a mem_cons_self) maximum bytes
    have tail := fun remaining ordered =>
      @ih (fun b mem => h b (mem_cons_of_mem _ mem)) remaining ordered
    have step : insertAll ordered ((a :: items).map out) =
        insertAll (ordered.insert (out a)) (items.map out) := rfl
    rw [map_cons, collectSetItems, except_bind_ok_iff, forall_mem_cons, step]
    by_cases mem : out a ∈ ordered
    · rw [insert_of_mem mem]
      constructor
      · rintro ⟨bytes, encoded, run⟩
        obtain ⟨holds, rfl, fits⟩ := (head _).mp encoded
        rw [if_pos (ExtTreeSet.contains_iff_mem.mpr mem)] at run
        obtain ⟨rest, budget, eq⟩ := (tail _ _).mp run
        exact ⟨⟨⟨holds, fits⟩, rest⟩, budget, eq⟩
      · rintro ⟨⟨⟨holds, fits⟩, rest⟩, budget, eq⟩
        refine ⟨out a, (head _).mpr ⟨holds, rfl, fits⟩, ?_⟩
        rw [if_pos (ExtTreeSet.contains_iff_mem.mpr mem)]
        exact (tail _ _).mpr ⟨rest, budget, eq⟩
    · have grown := totalLength_insert mem
      have notContained : ¬ ordered.contains (out a) = true := fun c =>
        mem (ExtTreeSet.contains_iff_mem.mp c)
      constructor
      · rintro ⟨bytes, encoded, run⟩
        obtain ⟨holds, rfl, fits⟩ := (head _).mp encoded
        rw [if_neg notContained] at run
        split at run
        next => cases run
        next room =>
          obtain ⟨rest, budget, eq⟩ := (tail _ _).mp run
          exact ⟨⟨⟨holds, fits⟩, rest⟩, by omega, eq⟩
      · rintro ⟨⟨⟨holds, fits⟩, rest⟩, budget, eq⟩
        have later := totalLength_insertAll (ordered.insert (out a)) (items.map out)
        rw [← eq] at later
        refine ⟨out a, (head _).mpr ⟨holds, rfl, fits⟩, ?_⟩
        rw [if_neg notContained, if_neg (by omega)]
        exact (tail _ _).mpr ⟨rest, by omega, eq⟩

end Containers

/-! ## Values -/

section Values

variable {declaredAtoms : List String}

theorem writes_throw (message : String) (out : Bytes) : Writes (throw message) False out := by
  intro buffer buffer' bounded
  constructor
  · intro h
    cases h
  · rintro ⟨h, -⟩
    exact h.elim

/-- One level of nesting is spent before anything is written. -/
theorem writes_level {depth : Nat} {message : String} {b : EncodeM Unit} {condition : Prop}
    {out : Bytes} (h : Writes b condition out) :
    Writes (liftM (failIf (depth ≥ maxNestingDepth) message) >>= fun _ => b)
      (0 < maxNestingDepth - depth ∧ condition) out :=
  (writes_check failIf_ok_iff fun _ => h).congr (and_congr (by omega) Iff.rfl) rfl

theorem encodesValue_leaf {value : ReplValue} {body : EncodeM Unit} {condition : Prop}
    (eq : ∀ depth, encodeValue declaredAtoms value depth = (liftM (failIf (depth ≥ maxNestingDepth)
      s!"error[tetf_depth]: nesting exceeds {maxNestingDepth} levels") >>= fun _ => body))
    (writes : Writes body condition (encoding value))
    (encodable : ∀ levels, Encodable declaredAtoms levels value ↔ 0 < levels ∧ condition) :
    EncodesValue declaredAtoms value := by
  intro depth
  rw [eq]
  exact (writes_level writes).congr (encodable _).symm rfl

theorem encodesValue_unit : EncodesValue declaredAtoms .unit :=
  encodesValue_leaf (fun _ => rfl) (writes_push tagUnit)
    fun _ => by rw [encodable_unit_iff, and_true]

theorem encodesValue_bool (value : Bool) : EncodesValue declaredAtoms (.bool value) := by
  cases value with
  | false =>
    exact encodesValue_leaf (fun _ => rfl) (writes_push tagFalse)
      fun _ => by rw [encodable_bool_iff, and_true]
  | true =>
    exact encodesValue_leaf (fun _ => rfl) (writes_push tagTrue)
      fun _ => by rw [encodable_bool_iff, and_true]

theorem encodesValue_int (value : Int64) : EncodesValue declaredAtoms (.int value) :=
  encodesValue_leaf (fun _ => rfl)
    (writes_bind (writes_push tagInt) fun _ => writes_extend (beBytes 8 value.toUInt64.toNat))
    fun _ => by rw [encodable_int_iff, and_self, and_true]

theorem encodesValue_float (text : String) : EncodesValue declaredAtoms (.float text) :=
  encodesValue_leaf (fun _ => rfl)
    (writes_bind (writes_push tagFloatText) fun _ => writes_text text)
    fun _ => by rw [encodable_float_iff, true_and]

theorem encodesValue_string (text : String) : EncodesValue declaredAtoms (.string text) :=
  encodesValue_leaf (fun _ => rfl)
    (writes_bind (writes_push tagString) fun _ => writes_text text)
    fun _ => by rw [encodable_string_iff, true_and]

theorem encodesValue_stringBytes (bytes : Bytes) :
    EncodesValue declaredAtoms (.stringBytes bytes) := by
  cases utf8 : fromUtf8 bytes with
  | none =>
    refine encodesValue_leaf (fun _ => by rw [encodeValue, utf8]) (writes_throw _ _) fun _ => ?_
    rw [encodable_stringBytes_iff, utf8]
    simp
  | some text =>
    have bytes_eq := asBytes_of_fromUtf8 utf8
    refine encodesValue_leaf (fun _ => by rw [encodeValue, utf8])
      ((writes_bind (writes_push tagString) fun _ => writes_text text).congr Iff.rfl ?_)
      fun _ => ?_
    · rw [textField, bytes_eq, encoding]
      rfl
    · rw [encodable_stringBytes_iff, utf8, bytes_eq]
      simp

theorem encodesValue_bytes (bytes : Bytes) : EncodesValue declaredAtoms (.bytes bytes) := by
  refine encodesValue_leaf (fun _ => rfl)
    ((writes_bind (writes_push tagBytes) fun _ => writes_bind (writes_len bytes.length) fun _ =>
      writes_extend bytes).congr Iff.rfl ?_) fun _ => ?_
  · rw [encoding]
    simp
  · rw [encodable_bytes_iff, and_true, true_and]

theorem encodesValue_bitString (value : VmBitString) :
    EncodesValue declaredAtoms (.bitString value) := by
  refine encodesValue_leaf (fun _ => rfl)
    ((writes_bind (writes_push tagBitstring) fun _ => writes_bind (writes_len _) fun _ =>
      writes_bind (writes_len _) fun _ => writes_extend _).congr Iff.rfl ?_) fun _ => ?_
  · rw [encoding]
    simp
  · have storage := value.storage
    rw [encodable_bitString_iff]
    unfold FitsLength
    constructor
    · rintro ⟨levels, fits⟩
      exact ⟨levels, trivial, fits, by omega, trivial⟩
    · rintro ⟨levels, -, fits, -⟩
      exact ⟨levels, fits⟩

theorem encodesValue_atom (name : String) : EncodesValue declaredAtoms (.atom name) := by
  refine encodesValue_leaf (fun _ => rfl)
    (writes_check failIf_ok_iff fun _ =>
      writes_bind (writes_push tagAtom) fun _ => writes_text name) fun _ => ?_
  rw [encodable_atom_iff]
  simp

theorem encodesValue_closure (callableId types : Nat) (captures : List ReplValue) :
    EncodesValue declaredAtoms (.closure callableId types captures) := by
  refine encodesValue_leaf (fun _ => rfl) (writes_throw _ _) fun _ => ?_
  rw [and_false, iff_false]
  intro h
  cases h

variable {items : List ReplValue}

section

variable (h : ∀ item ∈ items, EncodesValue declaredAtoms item)
include h

/-- A tuple or a list: a tag, the count and the items. -/
theorem encodesValue_sequence {value : ReplValue} {tag : UInt8}
    (eq : ∀ depth, encodeValue declaredAtoms value depth = (liftM (failIf (depth ≥ maxNestingDepth)
      s!"error[tetf_depth]: nesting exceeds {maxNestingDepth} levels") >>= fun _ =>
        push tag >>= fun _ => writeLen items.length >>= fun _ =>
          encodeItems declaredAtoms items (depth + 1)))
    (encodes : encoding value = tag :: beBytes 4 items.length ++ items.flatMap encoding)
    (encodable : ∀ levels, Encodable declaredAtoms levels value ↔ 0 < levels ∧
      FitsLength items.length ∧ ∀ item ∈ items, Encodable declaredAtoms (levels - 1) item) :
    EncodesValue declaredAtoms value := by
  intro depth
  rw [eq]
  refine (writes_level (writes_bind (writes_push tag) fun _ => writes_bind (writes_len items.length)
    fun _ => encodeItems_writes h (depth + 1))).congr ?_ ?_
  · rw [encodable, true_and]
    exact Iff.rfl
  · rw [encodes]
    simp

theorem encodesValue_tuple :
    EncodesValue declaredAtoms (.tuple items) :=
  encodesValue_sequence h (fun _ => rfl) (encoding_tuple items)
    fun _ => encodable_tuple_iff

theorem encodesValue_list :
    EncodesValue declaredAtoms (.list items) :=
  encodesValue_sequence h (fun _ => rfl) (encoding_list items)
    fun _ => encodable_list_iff

end

variable {fields : List (String × ReplValue)}

/-- The fields of a record behind its header. -/
theorem recordFields_writes
    (h : ∀ field ∈ fields, EncodesValue declaredAtoms field.2) (depth : Nat) :
    Writes (let ordered := sortByKey Prod.fst (fieldEncoders declaredAtoms fields depth)
      match (windows2 ordered).find? fun pair => pair.1.1 = pair.2.1 with
      | some pair => throw s!"error[tetf_canonical]: duplicate record field `{pair.1.1}`"
      | none =>
        ordered.forM fun (field, encodeField) => do
          validateRecordField field
          writeText field
          encodeField)
      ((fields.map Prod.fst).Nodup ∧ ∀ field ∈ fields,
        FieldName field.1 ∧ Encodable declaredAtoms (maxNestingDepth - depth) field.2)
      ((sortedFields fields).flatMap fun field => textField field.1 ++ encoding field.2) := by
  have ordered : sortByKey Prod.fst (fieldEncoders declaredAtoms fields depth) =
      (sortedFields fields).map fun field =>
        (field.1, encodeValue declaredAtoms field.2 depth) := by
    rw [fieldEncoders_eq, sortByKey_map]
    rfl
  have distinct := @windows_sortByKey _ _ _ (Prod.fst (α := String) (β := EncodeM Unit)) _ _ _
    (fieldEncoders declaredAtoms fields depth)
  have names : (fieldEncoders declaredAtoms fields depth).map Prod.fst = fields.map Prod.fst := by
    rw [fieldEncoders_eq, map_map]
    rfl
  rw [names, any_eq_false, ← find?_eq_none] at distinct
  dsimp only
  split
  next pair found =>
    refine (writes_throw _ _).congr ?_ rfl
    rw [← distinct, found]
    simp
  next none =>
    rw [ordered]
    refine (@writes_forM _ _ _ _ _ (fun field => FieldName field.1 ∧
        Encodable declaredAtoms (maxNestingDepth - depth) field.2) _ fun field mem => ?_).congr ?_ rfl
    · have mem : field ∈ fields := mem_sortByKey.mp mem
      refine (writes_check validateRecordField_ok_iff fun _ => writes_bind (writes_text field.1)
        fun _ => h field mem depth).congr ?_ rfl
      constructor
      · rintro ⟨⟨nonblank, portable⟩, fits, nested⟩
        exact ⟨⟨nonblank, portable, fits⟩, nested⟩
      · rintro ⟨⟨nonblank, portable, fits⟩, nested⟩
        exact ⟨⟨nonblank, portable⟩, fits, nested⟩
    · rw [distinct.mp none |> eq_true, true_and]
      exact forall_congr' fun field => imp_congr_left mem_sortByKey

theorem length_encodedFields {levels : Nat}
    (h : ∀ field ∈ fields, FieldName field.1 ∧ Encodable declaredAtoms levels field.2) :
    6 * fields.length ≤
      ((sortedFields fields).flatMap fun field => textField field.1 ++ encoding field.2).length := by
  have count : (sortedFields fields).length = fields.length := length_sortByKey _ _
  rw [← count]
  refine length_flatMap_ge fun field mem => ?_
  obtain ⟨name, nested⟩ := h field (mem_sortByKey.mp mem)
  have nameLength := asBytes_nonblank name.nonblank
  have valueLength := encoding_ne_nil nested
  rw [length_append, length_textField]
  omega

theorem encodesValue_record {name : String}
    (h : ∀ field ∈ fields, EncodesValue declaredAtoms field.2) :
    EncodesValue declaredAtoms (.record name fields) := by
  intro depth
  rw [encodeValue]
  refine (writes_level (writes_check validateTextField_ok_iff fun _ =>
    writes_bind (writes_push tagRecord) fun _ => writes_bind (writes_text name) fun _ =>
      writes_bind (writes_len fields.length) fun _ =>
        writes_room (recordFields_writes h (depth + 1)) ?_)).congr ?_ ?_
  · intro buffer holds room
    have := length_encodedFields holds.2
    omega
  · rw [encodable_record_iff, true_and]
    exact Iff.rfl
  · rw [encoding_record]
    simp

variable {entries : List (ReplValue × ReplValue)}

/-- The entries of a map behind its header. -/
theorem mapEntries_writes
    (h : ∀ entry ∈ entries, EncodesValue declaredAtoms entry.2) (depth : Nat) :
    Writes (let ordered := sortByKey Prod.fst (entries.map fun entry =>
        (encoding entry.1, encodeValue declaredAtoms entry.2 depth))
      liftM (failIf ((windows2 ordered).any fun pair => pair.1.1 = pair.2.1)
        "error[tetf_canonical]: duplicate map key") >>= fun _ =>
          ordered.forM fun (key, encodeEntry) => do
            extendFromSlice key
            encodeEntry)
      ((entries.map fun entry => encoding entry.1).Nodup ∧
        ∀ entry ∈ entries, Encodable declaredAtoms (maxNestingDepth - depth) entry.2)
      ((sortedEntries entries).flatMap fun entry => encoding entry.1 ++ encoding entry.2) := by
  have ordered : sortByKey Prod.fst (entries.map fun entry =>
      (encoding entry.1, encodeValue declaredAtoms entry.2 depth)) =
        (sortedEntries entries).map fun entry =>
          (encoding entry.1, encodeValue declaredAtoms entry.2 depth) := by
    rw [sortByKey_map]
    rfl
  have distinct := @windows_sortByKey _ _ _ (Prod.fst (α := Bytes) (β := EncodeM Unit)) _ _ _
    (entries.map fun entry => (encoding entry.1, encodeValue declaredAtoms entry.2 depth))
  have keys : (entries.map fun entry =>
      (encoding entry.1, encodeValue declaredAtoms entry.2 depth)).map Prod.fst =
        entries.map fun entry => encoding entry.1 := by
    rw [map_map]
    rfl
  rw [keys] at distinct
  dsimp only
  refine writes_check (by rw [failIf_ok_iff, Bool.not_eq_true, distinct]) fun _ => ?_
  rw [ordered]
  refine (@writes_forM _ _ _ _ _ (fun entry =>
      Encodable declaredAtoms (maxNestingDepth - depth) entry.2) _ fun entry mem => ?_).congr
    (forall_congr' fun entry => imp_congr_left mem_sortByKey) rfl
  exact (writes_bind (writes_extend (encoding entry.1)) fun _ =>
    h entry (mem_sortByKey.mp mem) depth).congr (iff_of_eq (true_and _)) rfl

theorem length_encodedKeys (entries : List (ReplValue × ReplValue)) :
    (entries.flatMap fun entry => encoding entry.1).length ≤
      ((sortedEntries entries).flatMap fun entry => encoding entry.1 ++ encoding entry.2).length := by
  have perm : (sortedEntries entries).Perm entries := sortByKey_perm _ _
  rw [← (perm.flatMap_right fun entry => encoding entry.1).length_eq]
  induction sortedEntries entries with
  | nil => exact Nat.le_refl _
  | cons entry rest ih =>
    simp only [flatMap_cons, length_append]
    omega

theorem length_encodedEntries {levels : Nat}
    (keys : ∀ entry ∈ entries, Encodable declaredAtoms levels entry.1)
    (values : ∀ entry ∈ entries, Encodable declaredAtoms levels entry.2) : 2 * entries.length ≤
      ((sortedEntries entries).flatMap fun entry => encoding entry.1 ++ encoding entry.2).length := by
  have count : (sortedEntries entries).length = entries.length := length_sortByKey _ _
  rw [← count]
  refine length_flatMap_ge fun entry mem => ?_
  have key := encoding_ne_nil (keys entry (mem_sortByKey.mp mem))
  have value := encoding_ne_nil (values entry (mem_sortByKey.mp mem))
  rw [length_append]
  omega

theorem encodesValue_map
    (h : ∀ entry ∈ entries, EncodesValue declaredAtoms entry.1 ∧ EncodesValue declaredAtoms entry.2) :
    EncodesValue declaredAtoms (.map entries) := by
  intro depth
  rw [encodeValue]
  have keys := fun remaining encoded =>
    @mapEncoders_ok_iff _ _ (fun entry mem => (h entry mem).1) (depth + 1) remaining encoded
  have rest := mapEntries_writes (fun entry mem => (h entry mem).2) (depth + 1)
  refine (writes_level (writes_bind (writes_push tagMap) fun _ =>
    writes_bind (writes_len entries.length) fun _ =>
      writes_room (@writes_lookahead _ _ _ (∀ entry ∈ entries,
        Encodable declaredAtoms (maxNestingDepth - (depth + 1)) entry.1) _ _ _ ?_ ?_ fun _ => rest)
          ?_)).congr ?_ ?_
  · intro buffer encoded run
    obtain ⟨holds, -, eq⟩ := (keys _ _).mp run
    exact ⟨holds, eq⟩
  · intro buffer holds holds' room
    have := length_encodedKeys entries
    exact (keys _ _).mpr ⟨holds, by omega, rfl⟩
  · intro buffer holds room
    have := length_encodedEntries holds.1 holds.2.2
    omega
  · have level : maxNestingDepth - (depth + 1) = maxNestingDepth - depth - 1 := rfl
    rw [encodable_map_iff, true_and, level]
    tauto
  · rw [encoding_map]
    simp

/-- The set that the items of a set value are collected in. -/
def collected (items : List ReplValue) : ExtTreeSet Bytes := insertAll ∅ (items.map encoding)

theorem collected_toList (items : List ReplValue) :
    (collected items).toList = (uniqueItems items).map encoding :=
  toList_eq_sortUnique fun bytes => by
    unfold collected
    rw [mem_insertAll]
    simp

theorem collected_size (items : List ReplValue) :
    (collected items).size = (uniqueItems items).length := by
  rw [← ExtTreeSet.length_toList, collected_toList, length_map]

theorem length_le_totalLength {item : ReplValue} (mem : item ∈ items) :
    (encoding item).length ≤ totalLength (collected items) := by
  have collected : encoding item ∈ (collected items).toList := by
    rw [ExtTreeSet.mem_toList]
    exact mem_insertAll.mpr (.inr (mem_map_of_mem mem))
  exact (sublist_flatten_of_mem collected).length_le

theorem encodesValue_set (h : ∀ item ∈ items, EncodesValue declaredAtoms item) :
    EncodesValue declaredAtoms (.set items) := by
  intro depth
  rw [encodeValue, itemEncoders_eq]
  have collect := fun maximum remaining result => @collectSetItems_ok_iff _ items
    (fun item => encodeValue declaredAtoms item (depth + 1))
    (fun item => Encodable declaredAtoms (maxNestingDepth - (depth + 1)) item) encoding
    (fun item mem => h item mem (depth + 1)) maximum remaining ∅ result
  have empty : totalLength ∅ = 0 := rfl
  have total : (collected items).toList.flatMap id = (uniqueItems items).flatMap encoding := by
    rw [collected_toList, flatMap_map]
    rfl
  have rest : Writes (do
      writeLen (collected items).size
      (collected items).toList.forM extendFromSlice)
      (FitsLength (uniqueItems items).length)
      (beBytes 4 (uniqueItems items).length ++ (uniqueItems items).flatMap encoding) := by
    have loop := @writes_forM _ _ (collected items).toList id extendFromSlice (fun _ => True) id
      fun bytes _ => writes_extend bytes
    rw [List.map_id] at loop
    refine (writes_bind (writes_len _) fun _ => loop).congr ?_ ?_
    · rw [collected_size]
      simp
    · rw [collected_size, total]
  refine (writes_level (writes_bind (writes_push tagSet) fun _ =>
    @writes_room (fun buffer => 4 > buffer.remaining) _ _ _ _ _
      (@writes_lookahead _ (fun buffer => collectSetItems (buffer.remaining - 4)
          (items.map fun item => encodeValue declaredAtoms item (depth + 1))
          (buffer.remaining - 4) ∅) _
        (∀ item ∈ items, Encodable declaredAtoms (maxNestingDepth - (depth + 1)) item) _
        (fun ordered => do
          writeLen ordered.size
          ordered.toList.forM extendFromSlice) _ ?_ ?_ fun _ => rest) ?_)).congr ?_ ?_
  · intro buffer ordered run
    obtain ⟨holds, -, eq⟩ := (collect _ _ _).mp run
    exact ⟨fun item mem => (holds item mem).1, eq⟩
  · intro buffer holds _ room
    have length : (beBytes 4 (uniqueItems items).length ++
        (uniqueItems items).flatMap encoding).length = 4 + totalLength (collected items) := by
      rw [length_append, length_beBytes, ← total, totalLength, flatMap_id]
    refine (collect _ _ _).mpr ⟨fun item mem => ⟨holds item mem, ?_⟩, ?_, rfl⟩
    · have := length_le_totalLength mem
      omega
    · omega
  · intro buffer _ room
    simp at room
    omega
  · rw [encodable_set_iff, true_and]
    exact and_congr_right fun _ => and_comm
  · rw [encoding_set]
    simp

/-- The encoder appends the encoding of a value; it succeeds exactly on the encodable values
that fit into the buffer. -/
theorem encodeValue_writes (value : ReplValue) : EncodesValue declaredAtoms value := by
  induction value using ReplValue.induction with
  | unit => exact encodesValue_unit
  | int value => exact encodesValue_int value
  | float text => exact encodesValue_float text
  | string text => exact encodesValue_string text
  | stringBytes bytes => exact encodesValue_stringBytes bytes
  | bytes bytes => exact encodesValue_bytes bytes
  | bitString value => exact encodesValue_bitString value
  | atom name => exact encodesValue_atom name
  | bool value => exact encodesValue_bool value
  | closure callableId types captures => exact encodesValue_closure callableId types captures
  | tuple items ih => exact encodesValue_tuple ih
  | record name fields ih => exact encodesValue_record ih
  | list items ih => exact encodesValue_list ih
  | map entries ih => exact encodesValue_map ih
  | set items ih => exact encodesValue_set ih

end Values

end Terlan.TermFormat
