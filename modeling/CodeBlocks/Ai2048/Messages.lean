import CodeBlocks.Ai2048.Play
import CodeBlocks.Core.Varint

/-!
# The messages of the 2048 programs

The generated code of `CSAI2048Tile` and `SCAI2048Move`: how they are written, how
they are read field by field, and how one is merged into another. The primitives of
the library's coded streams are a parameter with the laws that the generated code
relies on, and base-128 numbers are an instance of it. `ExpectTag` and `ExpectAtEnd`
only save a turn of the reading loop and are left out.
-/

namespace CodeBlocks.Ai2048

/-- The primitives of `WireFormatLite` and of the coded streams. A reader returns what is left of
its input; the tag zero stands for the end of the input, and for an input that has no tag. -/
structure WireFormat where
  writeTag : Nat → Nat → List UInt8
  writeVarint32 : Nat → List UInt8
  writeInt32NoTag : Int → List UInt8
  writeBool : Nat → Bool → List UInt8
  writeEnum : Nat → Int → List UInt8
  int32Size : Int → Nat
  enumSize : Int → Nat
  readTag : List UInt8 → Nat × List UInt8
  readPackedInt32 : List UInt8 → Option (List Int × List UInt8)
  readRepeatedInt32 : Nat → Nat → List UInt8 → Option (List Int × List UInt8)
  readBool : List UInt8 → Option (Bool × List UInt8)
  readEnum : List UInt8 → Option (Int × List UInt8)
  skipField : Nat → List UInt8 → Option (List UInt8)

abbrev wiretypeVarint : Nat := 0

abbrev wiretypeLengthDelimited : Nat := 2

abbrev wiretypeEndGroup : Nat := 4

/-- The values of an `int32`. -/
def IsInt32 (value : Int) : Prop := -2 ^ 31 ≤ value ∧ value < 2 ^ 31

/-- What was written is read back, whatever follows it, and sizes are those of what is written. -/
structure WireFormat.Lawful (wire : WireFormat) : Prop where
  readTag_nil : wire.readTag [] = (0, [])
  readTag_writeTag : ∀ field type, 0 < field → type < 8 → 8 * field + type ≤ 127 → ∀ rest,
    wire.readTag (wire.writeTag field type ++ rest) = (8 * field + type, rest)
  readPackedInt32_write : ∀ {values}, (∀ value ∈ values, IsInt32 value) →
    (values.map wire.int32Size).sum < 2 ^ 31 → ∀ rest,
    wire.readPackedInt32 (wire.writeVarint32 (values.map wire.int32Size).sum ++
      (values.flatMap wire.writeInt32NoTag ++ rest)) = some (values, rest)
  readBool_writeBool : ∀ field value, ∃ bytes,
    wire.writeBool field value = wire.writeTag field wiretypeVarint ++ bytes ∧
      ∀ rest, wire.readBool (bytes ++ rest) = some (value, rest)
  readEnum_writeEnum : ∀ field {value}, IsInt32 value → ∃ bytes,
    wire.writeEnum field value = wire.writeTag field wiretypeVarint ++ bytes ∧
      ∀ rest, wire.readEnum (bytes ++ rest) = some (value, rest)
  length_writeTag : ∀ field type, 0 < field → type < 8 → 8 * field + type ≤ 127 →
    (wire.writeTag field type).length = 1
  length_writeVarint32 : ∀ {n : Nat}, n < 2 ^ 31 →
    (wire.writeVarint32 n).length = wire.int32Size n
  length_writeInt32NoTag : ∀ {value}, IsInt32 value →
    (wire.writeInt32NoTag value).length = wire.int32Size value
  int32Size_pos : ∀ value, 0 < wire.int32Size value
  int32Size_le : ∀ value, wire.int32Size value ≤ 10
  enumSize_le : ∀ value, wire.enumSize value ≤ 10
  length_writeBool : ∀ field, 0 < field → 8 * field ≤ 127 → ∀ value,
    (wire.writeBool field value).length = 1 + 1
  length_writeEnum : ∀ field, 0 < field → 8 * field ≤ 127 → ∀ {value}, IsInt32 value →
    (wire.writeEnum field value).length = 1 + wire.enumSize value

/-- `aiproto::SCAI2048Move`. A type that is read may be any number. -/
structure SCAI2048Move where
  type : Int
  deriving DecidableEq, Repr

variable (wire : WireFormat)

/-- What a message type makes of a tag: it is none of its fields, or a field that is read or
fails. -/
inductive FieldRead (μ : Type) where
  | unusual
  | failed
  | read (message : μ) (rest : List UInt8)

/-- The outcome of a primitive that reads a field. -/
def FieldRead.ofOption {μ α : Type} (set : α → μ) : Option (α × List UInt8) → FieldRead μ
  | some (value, rest) => .read (set value) rest
  | none => .failed

/-- The loop of `MergePartialFromCodedStream` around the fields of a message type: the message and
the input in front of the tag that has ended the loop. The tag is looked at with the cutoff 127.
The number bounds the turns. -/
def mergeLoop {μ : Type} (readField : μ → Nat → List UInt8 → FieldRead μ) :
    Nat → μ → List UInt8 → Option (μ × List UInt8)
  | 0, _, _ => none
  | turns + 1, message, input =>
    let (tag, rest) := wire.readTag input
    match if 0 < tag ∧ tag ≤ 127 then readField message tag rest else .unusual with
    | .read message rest => mergeLoop readField turns message rest
    | .failed => none
    | .unusual =>
      if tag = 0 ∨ tag % 8 = wiretypeEndGroup then some (message, input)
      else (wire.skipField tag rest).bind fun rest => mergeLoop readField turns message rest

/-- `ParseFromArray`, for a message that is empty: the loop has to end at the end of the data. -/
def parseMessage {μ : Type} (readField : μ → Nat → List UInt8 → FieldRead μ) (empty : μ)
    (data : List UInt8) : Bool × μ :=
  match mergeLoop wire readField (data.length + 1) empty data with
  | some (message, rest) => (rest.isEmpty, message)
  | none => (false, empty)

namespace CSAI2048Tile

/-- `Clear`. -/
def empty : CSAI2048Tile := { data := [], isOver := false }

/-- The size that `ByteSize` keeps for the data. -/
def dataCachedByteSize (tile : CSAI2048Tile) : Nat := (tile.data.map wire.int32Size).sum

/-- `ByteSize`. -/
def byteSize (tile : CSAI2048Tile) : Nat :=
  let totalSize := if tile.isOver then 1 + 1 else 0
  let dataSize := tile.dataCachedByteSize wire
  let totalSize := if dataSize > 0 then totalSize + (1 + wire.int32Size dataSize) else totalSize
  totalSize + dataSize

/-- `SerializeWithCachedSizesToArray`. -/
def serialize (tile : CSAI2048Tile) : List UInt8 :=
  (if tile.data.length > 0 then
    wire.writeTag 1 wiretypeLengthDelimited ++ wire.writeVarint32 (tile.dataCachedByteSize wire)
  else []) ++
    (tile.data.flatMap wire.writeInt32NoTag ++
      if tile.isOver then wire.writeBool 2 tile.isOver else [])

/-- `MergeFrom`. -/
def mergeFrom (tile source : CSAI2048Tile) : CSAI2048Tile where
  data := tile.data ++ source.data
  isOver := if source.isOver then source.isOver else tile.isOver

/-- The fields of `MergePartialFromCodedStream`. -/
def readField (tile : CSAI2048Tile) (tag : Nat) (input : List UInt8) : FieldRead CSAI2048Tile :=
  if tag / 8 = 1 then
    if tag = 10 then
      .ofOption (fun values => { tile with data := tile.data ++ values })
        (wire.readPackedInt32 input)
    else if tag = 8 then
      .ofOption (fun values => { tile with data := tile.data ++ values })
        (wire.readRepeatedInt32 1 10 input)
    else .unusual
  else if tag / 8 = 2 then
    if tag = 16 then .ofOption (fun value => { tile with isOver := value }) (wire.readBool input)
    else .unusual
  else .unusual

/-- A message that fits: its numbers, and the size of them all, are those of an `int32`. -/
structure Fits (tile : CSAI2048Tile) : Prop where
  data : ∀ value ∈ tile.data, IsInt32 value
  size : tile.dataCachedByteSize wire < 2 ^ 31

end CSAI2048Tile

namespace SCAI2048Move

/-- `Clear`. -/
def empty : SCAI2048Move := { type := 0 }

/-- `ByteSize`. -/
def byteSize (move : SCAI2048Move) : Nat :=
  if move.type ≠ 0 then 1 + wire.enumSize move.type else 0

/-- `SerializeWithCachedSizesToArray`. -/
def serialize (move : SCAI2048Move) : List UInt8 :=
  if move.type ≠ 0 then wire.writeEnum 1 move.type else []

/-- `MergeFrom`. -/
def mergeFrom (move source : SCAI2048Move) : SCAI2048Move where
  type := if source.type ≠ 0 then source.type else move.type

/-- The fields of `MergePartialFromCodedStream`. -/
def readField (_ : SCAI2048Move) (tag : Nat) (input : List UInt8) : FieldRead SCAI2048Move :=
  if tag / 8 = 1 then
    if tag = 8 then .ofOption (fun value => { type := value }) (wire.readEnum input)
    else .unusual
  else .unusual

end SCAI2048Move

variable {wire}

section

variable {μ : Type} {readField : μ → Nat → List UInt8 → FieldRead μ}

variable (wire readField) in
/-- Reading some bytes changes the message by a function and leaves what follows them. -/
def Adds (bytes : List UInt8) (change : μ → μ) : Prop :=
  ∃ turns ≤ bytes.length, ∀ more message rest,
    mergeLoop wire readField (turns + more) message (bytes ++ rest) =
      mergeLoop wire readField more (change message) rest

variable (wire readField) in
/-- A field that the message type does not have, and that the library can skip. -/
def Unknown (bytes : List UInt8) : Prop :=
  bytes ≠ [] ∧ ∀ rest, ∃ tag behind, wire.readTag (bytes ++ rest) = (tag, behind) ∧
    tag ≠ 0 ∧ tag % 8 ≠ wiretypeEndGroup ∧
    (tag ≤ 127 → ∀ message, readField message tag behind = .unusual) ∧
    wire.skipField tag behind = some rest

/-- No bytes change nothing. -/
theorem Adds.nil : Adds wire readField [] id := by
  refine ⟨0, Nat.le_refl 0, fun more message rest => ?_⟩
  rw [Nat.zero_add, List.nil_append, id]

/-- Bytes behind one another change the message one after another. -/
theorem Adds.append {bytes bytes' : List UInt8} {change change' : μ → μ}
    (h : Adds wire readField bytes change) (h' : Adds wire readField bytes' change') :
    Adds wire readField (bytes ++ bytes') (change' ∘ change) := by
  obtain ⟨turns, hle, hturns⟩ := h
  obtain ⟨turns', hle', hturns'⟩ := h'
  refine ⟨turns + turns', ?_, fun more message rest => ?_⟩
  · rw [List.length_append]
    exact Nat.add_le_add hle hle'
  · rw [List.append_assoc, Nat.add_assoc, hturns, hturns', Function.comp_apply]

/-- A field with its tag changes the message as its branch does. -/
theorem Adds.field {bytes : List UInt8} {change : μ → μ} (tag : Nat) (hne : bytes ≠ [])
    (htag : 0 < tag ∧ tag ≤ 127)
    (hread : ∀ rest, ∃ behind, wire.readTag (bytes ++ rest) = (tag, behind) ∧
      ∀ message, readField message tag behind = .read (change message) rest) :
    Adds wire readField bytes change := by
  refine ⟨1, List.length_pos_of_ne_nil hne, fun more message rest => ?_⟩
  obtain ⟨behind, htagRead, hfield⟩ := hread rest
  rw [Nat.add_comm, mergeLoop, htagRead]
  dsimp only
  rw [if_pos htag, hfield]

/-- An unknown field is skipped. -/
theorem Unknown.adds {bytes : List UInt8} (h : Unknown wire readField bytes) :
    Adds wire readField bytes id := by
  refine ⟨1, List.length_pos_of_ne_nil h.1, fun more message rest => ?_⟩
  obtain ⟨tag, behind, hread, hzero, hgroup, hfield, hskip⟩ := h.2 rest
  have hunusual : (if 0 < tag ∧ tag ≤ 127 then readField message tag behind else .unusual) =
      .unusual := by
    split
    · rename_i htag
      exact hfield htag.2 message
    · rfl
  rw [Nat.add_comm, mergeLoop, hread]
  dsimp only
  rw [hunusual, if_neg (not_or.mpr ⟨hzero, hgroup⟩), hskip]
  rfl

/-- A message is parsed if its data is a sequence of fields. -/
theorem Adds.parse (hwire : wire.Lawful) {data : List UInt8} {change : μ → μ}
    (h : Adds wire readField data change) (empty : μ) :
    parseMessage wire readField empty data = (true, change empty) := by
  obtain ⟨turns, hle, hturns⟩ := h
  obtain ⟨more, hmore⟩ := Nat.exists_eq_add_of_le hle
  have hloop := hturns (more + 1) empty []
  rw [List.append_nil] at hloop
  rw [parseMessage, hmore, Nat.add_assoc, hloop, mergeLoop, hwire.readTag_nil]
  rfl

end

/-- What is written of a message changes another one as merging does. -/
theorem CSAI2048Tile.adds (hwire : wire.Lawful) {tile : CSAI2048Tile} (h : tile.Fits wire) :
    Adds wire (readField wire) (tile.serialize wire) fun message => message.mergeFrom tile := by
  have hdata : Adds wire (readField wire)
      ((if tile.data.length > 0 then
          wire.writeTag 1 wiretypeLengthDelimited ++
            wire.writeVarint32 (tile.dataCachedByteSize wire)
        else []) ++ tile.data.flatMap wire.writeInt32NoTag)
      fun message => { message with data := message.data ++ tile.data } := by
    by_cases hlen : tile.data.length > 0
    · rw [if_pos hlen]
      have htag := hwire.length_writeTag 1 wiretypeLengthDelimited
        (by decide) (by decide) (by decide)
      apply Adds.field 10 _ (by decide)
      · intro rest
        refine ⟨wire.writeVarint32 (tile.dataCachedByteSize wire) ++
          (tile.data.flatMap wire.writeInt32NoTag ++ rest), ?_, fun message => ?_⟩
        · rw [List.append_assoc, List.append_assoc]
          exact hwire.readTag_writeTag _ _ (by decide) (by decide) (by decide) _
        · rw [readField, if_pos rfl, if_pos rfl, dataCachedByteSize,
            hwire.readPackedInt32_write h.data h.size]
          rfl
      · apply List.ne_nil_of_length_pos
        rw [List.length_append, List.length_append]
        omega
    · have hnil := List.eq_nil_of_length_eq_zero (Nat.eq_zero_of_not_pos hlen)
      simp only [hnil, List.length_nil, List.flatMap_nil, List.append_nil]
      exact Adds.nil
  have hover : Adds wire (readField wire) (if tile.isOver then wire.writeBool 2 tile.isOver else [])
      fun message =>
        { message with isOver := if tile.isOver then tile.isOver else message.isOver } := by
    cases hisOver : tile.isOver with
    | false => exact Adds.nil
    | true =>
        obtain ⟨bytes, hwrite, hread⟩ := hwire.readBool_writeBool 2 true
        have hlen := hwire.length_writeBool 2 (by decide) (by decide) true
        apply Adds.field 16 _ (by decide)
        · intro rest
          refine ⟨bytes ++ rest, ?_, fun message => ?_⟩
          · rw [if_pos rfl, hwrite, List.append_assoc]
            exact hwire.readTag_writeTag _ _ (by decide) (by decide) (by decide) _
          · rw [readField, if_neg (by decide), if_pos rfl, if_pos rfl, hread]
            rfl
        · apply List.ne_nil_of_length_pos
          rw [if_pos rfl, hlen]
          decide
  have hboth := hdata.append hover
  rw [List.append_assoc] at hboth
  exact hboth

/-- A serialized move is merged into the message. -/
theorem SCAI2048Move.adds (hwire : wire.Lawful) {move : SCAI2048Move} (h : IsInt32 move.type) :
    Adds wire (readField wire) (move.serialize wire) fun message => message.mergeFrom move := by
  unfold serialize mergeFrom
  by_cases htype : move.type ≠ 0
  · simp only [if_pos htype]
    obtain ⟨bytes, hwrite, hread⟩ := hwire.readEnum_writeEnum 1 h
    have hlen := hwire.length_writeEnum 1 (by decide) (by decide) h
    apply Adds.field 8 _ (by decide)
    · intro rest
      refine ⟨bytes ++ rest, ?_, fun message => ?_⟩
      · rw [hwrite, List.append_assoc]
        exact hwire.readTag_writeTag _ _ (by decide) (by decide) (by decide) _
      · rw [readField, if_pos rfl, if_pos rfl, hread]
        rfl
    · apply List.ne_nil_of_length_pos
      omega
  · simp only [if_neg htype]
    exact Adds.nil

/-- The sizes that the codec reserves are those of what is written. -/
theorem CSAI2048Tile.length_serialize (hwire : wire.Lawful) {tile : CSAI2048Tile}
    (h : tile.Fits wire) : (tile.serialize wire).length = tile.byteSize wire := by
  have hdata : (tile.data.flatMap wire.writeInt32NoTag).length = tile.dataCachedByteSize wire := by
    rw [List.length_flatMap, dataCachedByteSize]
    congr 1
    exact List.map_congr_left fun value hmem => hwire.length_writeInt32NoTag (h.data value hmem)
  have hpos : tile.data.length > 0 ↔ tile.dataCachedByteSize wire > 0 := by
    rw [dataCachedByteSize]
    cases tile.data with
    | nil => simp
    | cons value values =>
        have hvalue := hwire.int32Size_pos value
        simp only [List.length_cons, List.map_cons, List.sum_cons]
        omega
  have htag := hwire.length_writeTag 1 wiretypeLengthDelimited
    (by decide) (by decide) (by decide)
  have hsize := hwire.length_writeVarint32 h.size
  have hover := hwire.length_writeBool 2 (by decide) (by decide) true
  rw [serialize, byteSize]
  simp only [List.length_append, hdata, hpos]
  cases tile.isOver <;> split <;> simp [htag, hsize, hover] <;> omega

/-- `ByteSize` is the number of bytes that are written. -/
theorem SCAI2048Move.length_serialize (hwire : wire.Lawful) {move : SCAI2048Move}
    (h : IsInt32 move.type) : (move.serialize wire).length = move.byteSize wire := by
  rw [serialize, byteSize]
  split
  · exact hwire.length_writeEnum 1 (by decide) (by decide) h
  · rfl

/-- A number as the 64 bits that are written of it. -/
def signExtend (value : Int) : Nat := (value % 2 ^ 64).toNat

/-- The `int32` in the low bits of a number. -/
def toInt32 (n : Nat) : Int :=
  if n % 2 ^ 32 < 2 ^ 31 then (n % 2 ^ 32 : Nat) else (n % 2 ^ 32 : Nat) - 2 ^ 32

/-- The values in some bytes, at most as many as the first argument says. -/
def readValues : Nat → List UInt8 → Option (List Int)
  | _, [] => some []
  | 0, _ :: _ => none
  | limit + 1, byte :: bytes =>
    match Varint.get 10 (byte :: bytes) with
    | some (n, rest) => (readValues limit rest).map (toInt32 n :: ·)
    | none => none

/-- The primitives on base-128 numbers. Groups are not skipped. -/
def varintFormat : WireFormat where
  writeTag field type := Varint.put 10 (8 * field + type)
  writeVarint32 n := Varint.put 10 n
  writeInt32NoTag value := Varint.put 10 (signExtend value)
  writeBool field value := Varint.put 10 (8 * field) ++ [if value then 1 else 0]
  writeEnum field value := Varint.put 10 (8 * field) ++ Varint.put 10 (signExtend value)
  int32Size value := (Varint.put 10 (signExtend value)).length
  enumSize value := (Varint.put 10 (signExtend value)).length
  readTag input :=
    match Varint.get 10 input with
    | some (n, rest) => (n % 2 ^ 32, rest)
    | none => (0, [])
  readPackedInt32 input :=
    match Varint.get 10 input with
    | some (n, rest) =>
      let length := n % 2 ^ 32
      if length ≤ rest.length then
        (readValues length (rest.take length)).map (·, rest.drop length)
      else none
    | none => none
  readRepeatedInt32 _ _ input := (Varint.get 10 input).map fun (n, rest) => ([toInt32 n], rest)
  readBool input := (Varint.get 10 input).map fun (n, rest) => (decide (n ≠ 0), rest)
  readEnum input := (Varint.get 10 input).map fun (n, rest) => (toInt32 n, rest)
  skipField tag input :=
    match tag % 8 with
    | 0 => (Varint.get 10 input).map (·.2)
    | 1 => if 8 ≤ input.length then some (input.drop 8) else none
    | 2 => (Varint.get 10 input).bind fun (n, rest) =>
        if n % 2 ^ 32 ≤ rest.length then some (rest.drop (n % 2 ^ 32)) else none
    | 5 => if 4 ≤ input.length then some (input.drop 4) else none
    | _ => none

/-- A 32-bit number survives the extension to 64 bits. -/
theorem toInt32_signExtend {value : Int} (h : IsInt32 value) :
    toInt32 (signExtend value) = value := by
  obtain ⟨hlow, hhigh⟩ := h
  unfold toInt32 signExtend
  split <;> omega

/-- A number that is not negative is not changed by it. -/
theorem signExtend_natCast {n : Nat} (h : n < 2 ^ 31) : signExtend n = n := by
  unfold signExtend
  omega

/-- An extended number is read as it was written, whatever follows it. -/
theorem get_put_signExtend (value : Int) (rest : List UInt8) :
    Varint.get 10 (Varint.put 10 (signExtend value) ++ rest) = some (signExtend value, rest) := by
  apply Varint.get_put (by decide)
  have hpow : (128 : Nat) ^ 10 = 2 ^ 70 := by norm_num
  unfold signExtend
  omega

/-- Packed numbers are read one after the other. -/
theorem readValues_flatMap {values : List Int} (h : ∀ value ∈ values, IsInt32 value) {limit : Nat}
    (hlimit : values.length ≤ limit) :
    readValues limit (values.flatMap fun value => Varint.put 10 (signExtend value)) =
      some values := by
  induction values generalizing limit with
  | nil => cases limit <;> rfl
  | cons value values ih =>
      cases limit with
      | zero => cases hlimit
      | succ limit =>
          have hpos := Varint.length_put_pos (show 0 < 10 by decide) (signExtend value)
          obtain ⟨byte, bytes, hbytes⟩ :=
            List.exists_cons_of_ne_nil (List.ne_nil_of_length_pos hpos)
          have hget := get_put_signExtend value
            (values.flatMap fun value => Varint.put 10 (signExtend value))
          rw [hbytes, List.cons_append] at hget
          rw [List.flatMap_cons, hbytes, List.cons_append, readValues, hget]
          dsimp only
          rw [ih (fun other hmem => h other (List.mem_cons_of_mem _ hmem))
            (Nat.le_of_succ_le_succ hlimit), toInt32_signExtend (h value List.mem_cons_self)]
          rfl

/-- Base-128 numbers are what the generated code relies on. -/
theorem varintFormat_lawful : varintFormat.Lawful where
  readTag_nil := rfl
  readTag_writeTag := by
    intro field type hfield htype hle rest
    simp only [varintFormat]
    rw [Varint.get_put (by decide) (by omega)]
    dsimp only
    rw [Nat.mod_eq_of_lt (by omega)]
  readPackedInt32_write := by
    intro values hvalues hsize rest
    have hlen : (values.flatMap varintFormat.writeInt32NoTag).length =
        (values.map varintFormat.int32Size).sum := List.length_flatMap
    have hcount : values.length ≤ (values.map varintFormat.int32Size).sum := by
      clear hsize hlen
      induction values with
      | nil => exact Nat.le_refl 0
      | cons value values ih =>
          have htail := ih fun other hmem => hvalues other (List.mem_cons_of_mem _ hmem)
          have hpos := Varint.length_put_pos (show 0 < 10 by decide) (signExtend value)
          rw [List.map_cons, List.sum_cons, List.length_cons]
          change _ ≤ (Varint.put 10 (signExtend value)).length + _
          omega
    generalize (values.map varintFormat.int32Size).sum = size at hsize hlen hcount
    simp only [varintFormat] at hlen ⊢
    rw [Varint.get_put (by decide) (by omega)]
    dsimp only
    rw [Nat.mod_eq_of_lt (by omega), ← hlen, if_pos (by rw [List.length_append]; omega),
      List.take_left, List.drop_left, readValues_flatMap hvalues (by omega)]
    rfl
  readBool_writeBool := by
    intro field value
    refine ⟨_, rfl, fun rest => ?_⟩
    cases value <;> rfl
  readEnum_writeEnum := by
    intro field value h
    refine ⟨_, rfl, fun rest => ?_⟩
    simp only [varintFormat]
    rw [get_put_signExtend, Option.map_some, toInt32_signExtend h]
  length_writeTag := by
    intro field type hfield htype hle
    simp only [varintFormat]
    rw [Varint.put_of_lt (by omega), List.length_singleton]
  length_writeVarint32 := by
    intro n h
    simp only [varintFormat, signExtend_natCast h]
  length_writeInt32NoTag := by
    intro value h
    rfl
  int32Size_pos value := Varint.length_put_pos (by decide) _
  int32Size_le value := Varint.length_put_le _ _
  enumSize_le value := Varint.length_put_le _ _
  length_writeBool := by
    intro field hfield hle value
    simp only [varintFormat, List.length_append]
    rw [Varint.put_of_lt (by omega), List.length_singleton, List.length_singleton]
  length_writeEnum := by
    intro field hfield hle value h
    simp only [varintFormat, List.length_append]
    rw [Varint.put_of_lt (by omega), List.length_singleton]

/-- What stands in the data of a message: another message, or a field it does not know. -/
inductive Part (α : Type) where
  | message (source : α)
  | unknown (bytes : List UInt8)

/-- Merging the messages among some parts. -/
def mergeParts {α : Type} (mergeFrom : α → α → α) : List (Part α) → α → α
  | [], message => message
  | .message source :: parts, message => mergeParts mergeFrom parts (mergeFrom message source)
  | .unknown _ :: parts, message => mergeParts mergeFrom parts message

/-- The bytes of some parts. -/
def Part.bytes {α : Type} (serialize : α → List UInt8) : Part α → List UInt8
  | .message source => serialize source
  | .unknown bytes => bytes

/-- Parts behind one another are merged in their order. -/
theorem adds_parts {α : Type} {readField : α → Nat → List UInt8 → FieldRead α}
    {serialize : α → List UInt8} {mergeFrom : α → α → α} {parts : List (Part α)}
    (hmessage : ∀ source, .message source ∈ parts →
      Adds wire readField (serialize source) fun message => mergeFrom message source)
    (hunknown : ∀ bytes, .unknown bytes ∈ parts → Unknown wire readField bytes) :
    Adds wire readField (parts.flatMap (Part.bytes serialize)) (mergeParts mergeFrom parts) := by
  induction parts with
  | nil => exact Adds.nil
  | cons part parts ih =>
      have htail := ih (fun source hmem => hmessage source (List.mem_cons_of_mem _ hmem))
        fun bytes hmem => hunknown bytes (List.mem_cons_of_mem _ hmem)
      rw [List.flatMap_cons]
      cases part with
      | message source => exact (hmessage source List.mem_cons_self).append htail
      | unknown bytes => exact (hunknown bytes List.mem_cons_self).adds.append htail

/-- The data of a message may be written in parts, with unknown fields among them. What is parsed is
the merge of the parts; so a message that is written alone is parsed as it was, and one that was
written by a later version of the program is parsed without the fields that are new. -/
theorem parse_parts (hwire : wire.Lawful) :
    (∀ parts : List (Part CSAI2048Tile),
      (∀ tile, .message tile ∈ parts → tile.Fits wire) →
      (∀ bytes, .unknown bytes ∈ parts → Unknown wire (CSAI2048Tile.readField wire) bytes) →
      parseMessage wire (CSAI2048Tile.readField wire) .empty
          (parts.flatMap (Part.bytes (CSAI2048Tile.serialize wire))) =
        (true, mergeParts CSAI2048Tile.mergeFrom parts .empty)) ∧
    ∀ parts : List (Part SCAI2048Move),
      (∀ move, .message move ∈ parts → IsInt32 move.type) →
      (∀ bytes, .unknown bytes ∈ parts → Unknown wire (SCAI2048Move.readField wire) bytes) →
      parseMessage wire (SCAI2048Move.readField wire) .empty
          (parts.flatMap (Part.bytes (SCAI2048Move.serialize wire))) =
        (true, mergeParts SCAI2048Move.mergeFrom parts .empty) := by
  constructor
  · intro parts htiles hunknown
    exact (adds_parts (fun tile hmem => CSAI2048Tile.adds hwire (htiles tile hmem))
      hunknown).parse hwire _
  · intro parts hmoves hunknown
    exact (adds_parts (fun move hmem => SCAI2048Move.adds hwire (hmoves move hmem))
      hunknown).parse hwire _

/-- A message in two parts, with a field between them that the program does not know. -/
theorem parse_parts_extended :
    parseMessage varintFormat (CSAI2048Tile.readField varintFormat) .empty
      [10, 11, 1, 254, 255, 255, 255, 255, 255, 255, 255, 255, 1, 24, 5, 16, 1] =
      (true, { data := [1, -2], isOver := true }) := by
  have hparts := (parse_parts varintFormat_lawful).1
    [.message ⟨[1, -2], false⟩, .unknown [24, 5], .message ⟨[], true⟩]
  apply hparts
  · intro tile hmem
    simp only [List.mem_cons, Part.message.injEq, reduceCtorEq, List.not_mem_nil, or_false,
      false_or] at hmem
    rcases hmem with rfl | rfl
    · exact ⟨by simp [IsInt32], by decide⟩
    · exact ⟨by simp, by decide⟩
  · intro bytes hmem
    simp only [List.mem_cons, Part.unknown.injEq, reduceCtorEq, List.not_mem_nil, or_false,
      false_or] at hmem
    subst hmem
    exact ⟨List.cons_ne_nil _ _, fun rest => ⟨24, 5 :: rest, rfl, by decide, by decide,
      fun _ _ => rfl, rfl⟩⟩

/-- A message is parsed as it was written. -/
theorem CSAI2048Tile.parse_serialize (hwire : wire.Lawful) {tile : CSAI2048Tile}
    (h : tile.Fits wire) :
    parseMessage wire (readField wire) empty (tile.serialize wire) = (true, tile) := by
  rw [(CSAI2048Tile.adds hwire h).parse hwire]
  cases tile with
  | mk data isOver => cases isOver <;> rfl

/-- A serialized move alone is parsed to itself. -/
theorem SCAI2048Move.parse_serialize (hwire : wire.Lawful) {move : SCAI2048Move}
    (h : IsInt32 move.type) :
    parseMessage wire (readField wire) empty (move.serialize wire) = (true, move) := by
  rw [(SCAI2048Move.adds hwire h).parse hwire, mergeFrom, empty]
  split
  · rfl
  · rename_i hzero
    exact congrArg (fun type => (true, SCAI2048Move.mk type)) (Decidable.not_not.mp hzero).symm

/-- What the codec and the dispatcher take of the protobuf library: the generated pool and factory,
and the operations of a message. -/
structure Protobuf (δ μ : Type) where
  findMessageTypeByName : List UInt8 → Option δ
  getPrototype : δ → Option μ
  getDescriptor : μ → δ
  getTypeName : μ → List UInt8
  serialize : μ → List UInt8
  parseFromArray : μ → List UInt8 → Bool × μ

/-- A descriptor of the pool: one of the generated code, or another one. -/
inductive Descriptor (δ : Type) where
  | csai2048Tile
  | scai2048Move
  | other (descriptor : δ)
  deriving DecidableEq, Repr

/-- A message of a type of the pool. -/
inductive Message (μ : Type) where
  | csai2048Tile (tile : CSAI2048Tile)
  | scai2048Move (move : SCAI2048Move)
  | other (message : μ)
  deriving DecidableEq, Repr

/-- The bytes of a type name. -/
def nameBytes (name : String) : List UInt8 := name.toList.map fun c => UInt8.ofNat c.toNat

/-- The pool with the generated types among `others`. -/
def aiProtobuf {δ μ : Type} (wire : WireFormat) (others : Protobuf δ μ) :
    Protobuf (Descriptor δ) (Message μ) where
  findMessageTypeByName name :=
    if name = nameBytes "aiproto.CSAI2048Tile" then some .csai2048Tile
    else if name = nameBytes "aiproto.SCAI2048Move" then some .scai2048Move
    else (others.findMessageTypeByName name).map .other
  getPrototype
    | .csai2048Tile => some (.csai2048Tile .empty)
    | .scai2048Move => some (.scai2048Move .empty)
    | .other descriptor => (others.getPrototype descriptor).map .other
  getDescriptor
    | .csai2048Tile _ => .csai2048Tile
    | .scai2048Move _ => .scai2048Move
    | .other message => .other (others.getDescriptor message)
  getTypeName
    | .csai2048Tile _ => nameBytes "aiproto.CSAI2048Tile"
    | .scai2048Move _ => nameBytes "aiproto.SCAI2048Move"
    | .other message => others.getTypeName message
  serialize
    | .csai2048Tile tile => tile.serialize wire
    | .scai2048Move move => move.serialize wire
    | .other message => others.serialize message
  parseFromArray
    | .csai2048Tile _, data =>
      let (ok, tile) := parseMessage wire (CSAI2048Tile.readField wire) .empty data
      (ok, .csai2048Tile tile)
    | .scai2048Move _, data =>
      let (ok, move) := parseMessage wire (SCAI2048Move.readField wire) .empty data
      (ok, .scai2048Move move)
    | .other message, data =>
      let (ok, message) := others.parseFromArray message data
      (ok, .other message)

/-- A pool of the generated types alone. -/
def noOthers : Protobuf Empty Empty where
  findMessageTypeByName _ := none
  getPrototype := nofun
  getDescriptor := nofun
  getTypeName := nofun
  serialize := nofun
  parseFromArray := nofun

end CodeBlocks.Ai2048
