import ServerTech.ByteBuffer.Model

namespace ServerTech
namespace ByteBuffer

open Codec

/-!
# What is written is read back

`format` is the layout of a value: fixed-width numbers, characters up to a zero
byte, and a 32-bit count in front of the elements of a container.  Every
operator<< puts the format of its value behind what the buffer holds, and every
operator>> takes the format of a value and nothing else.  The second half needs
what `Storable` asks for: characters that are not the terminator, counts that
fit their field, and keys in the order a `std::map` keeps them in.
-/

/-- The bytes of a value. -/
def format : (type : Ty) -> Value type -> List UInt8
  | .bool, value => LittleEndian.encode 1 (Bool.toNat value)
  | .unsigned width, value => LittleEndian.encode width.bytes (BitVec.toNat value)
  | .signed width, value => LittleEndian.encode width.bytes (BitVec.toNat value)
  | .float, value => LittleEndian.encode 4 (BitVec.toNat value)
  | .double, value => LittleEndian.encode 8 (BitVec.toNat value)
  | .string, value => (show List UInt8 from value) ++ LittleEndian.encode 1 0
  | .vector element, value =>
      LittleEndian.encode 4 (List.length value) ++ List.flatMap (format element) value
  | .list element, value =>
      LittleEndian.encode 4 (List.length value) ++ List.flatMap (format element) value
  | .map key mapped, value =>
      LittleEndian.encode 4 (List.length value) ++
        List.flatMap (fun entry => format key entry.1 ++ format mapped entry.2) value

/-- Elements that are storable themselves and can be counted in 32 bits. -/
def Countable {α : Type} (one : α -> Prop) (items : List α) : Prop :=
  items.length < 2 ^ 32 ∧ forall item, item ∈ items -> one item

/-- Characters none of which ends a string. -/
def NulFree (characters : List UInt8) : Prop :=
  forall character, character ∈ characters -> character ≠ 0

/-- Entries in the order of a `std::map`. -/
def Ascending {κ υ : Type} (less : κ -> κ -> Bool) (entries : List (κ × υ)) : Prop :=
  entries.Pairwise fun first second => less first.1 second.1 = true

/-- The values the operators are meant for: strings without a zero character,
containers with fewer than 2^32 elements, and maps whose keys ascend. -/
def Storable : (type : Ty) -> Value type -> Prop
  | .string, value => NulFree value
  | .vector element, value => Countable (Storable element) value
  | .list element, value => Countable (Storable element) value
  | .map key mapped, value =>
      Countable (fun entry => Storable key entry.1 ∧ Storable mapped entry.2) value ∧
        Ascending (less key) value
  | _, _ => True

instance countableDecidable {α : Type} (one : α -> Prop) [DecidablePred one] (items : List α) :
    Decidable (Countable one items) :=
  inferInstanceAs (Decidable (_ ∧ _))

instance nulFreeDecidable (characters : List UInt8) : Decidable (NulFree characters) :=
  inferInstanceAs (Decidable (forall character, character ∈ characters -> character ≠ 0))

instance ascendingDecidable {κ υ : Type} (less : κ -> κ -> Bool) (entries : List (κ × υ)) :
    Decidable (Ascending less entries) :=
  inferInstanceAs (Decidable (List.Pairwise _ _))

instance storableDecidable : (type : Ty) -> DecidablePred (Storable type)
  | .string => nulFreeDecidable
  | .vector element => fun value =>
      have := storableDecidable element
      countableDecidable (Storable element) value
  | .list element => fun value =>
      have := storableDecidable element
      countableDecidable (Storable element) value
  | .map key mapped => fun value =>
      have := storableDecidable key
      have := storableDecidable mapped
      @instDecidableAnd _ _
        (countableDecidable (fun entry => Storable key entry.1 ∧ Storable mapped entry.2) value)
        (ascendingDecidable (less key) value)
  | .bool | .unsigned _ | .signed _ | .float | .double => fun _ => isTrue trivial

/-! ## Writing -/

/-- The buffer holds these bytes, has its write position behind them and has
not been read. -/
structure Written (buffer : ByteBuffer) (written : List UInt8) : Prop where
  bytes : buffer.storage.bytes = written
  wpos : buffer.wpos.toNat = written.length
  rpos : buffer.rpos = 0

theorem new_written : Written new [] :=
  ⟨rfl, rfl, rfl⟩

theorem resize_store (storage : Storage) (data : List UInt8) :
    (storage.resize (storage.bytes.length + data.length)).bind
        (fun grown => grown.store storage.bytes.length data) =
      if fits : storage.bytes.length + data.length ≤ maxSize then
        some ⟨storage.bytes ++ data, by rw [List.length_append]; exact fits⟩
      else none := by
  unfold Storage.resize
  by_cases fits : storage.bytes.length + data.length ≤ maxSize
  · rw [dif_pos fits, dif_pos fits, Option.bind_some]
    have kept : storage.bytes.take (storage.bytes.length + data.length) = storage.bytes :=
      List.take_of_length_le (Nat.le_add_right _ _)
    have filled : storage.bytes.length + data.length - storage.bytes.length = data.length := by
      omega
    have inside : storage.bytes.length + data.length ≤
        (storage.bytes ++ List.replicate data.length 0).length := by
      exact Nat.le_of_eq (by rw [List.length_append, List.length_replicate])
    simp only [kept, filled, Storage.store, dif_pos inside]
    congr 2
    apply Block.overwrite_append
    rw [List.length_replicate]
  · rw [dif_neg fits, dif_neg fits, Option.bind_none]

theorem grow_length {storage grown : Storage} {last : Nat}
    (returned : storage.grow last = some grown) :
    grown.bytes.length = last ∨ grown.bytes.length = storage.bytes.length := by
  unfold Storage.grow Storage.resize at returned
  split at returned
  · split at returned
    · cases returned
      left
      simp only [List.length_append, List.length_take, List.length_replicate]
      omega
    · cases returned
  · cases returned
    exact .inr rfl

/-- An end that wrapped around leaves no room for the copy. -/
theorem grow_store_wrapped (storage : Storage) {data : List UInt8} {last : Nat}
    (nonempty : data.length ≠ 0) (short : last < storage.bytes.length + data.length) :
    (storage.grow last).bind (fun grown => grown.store storage.bytes.length data) = none := by
  cases returned : storage.grow last with
  | none => rfl
  | some grown =>
      apply dif_neg
      rcases grow_length returned with ended | ended <;> omega

theorem append_atEnd (buffer : ByteBuffer) {src : List UInt8} (atEnd : buffer.wpos.toNat = buffer.size)
    (nonempty : src.length ≠ 0) (asserted : buffer.size < 10000000) :
    buffer.append src =
      if fits : buffer.size + src.length ≤ maxSize then
        some ⟨⟨buffer.storage.bytes ++ src, by rw [List.length_append]; exact fits⟩, buffer.rpos,
          buffer.wpos + UInt64.ofNat src.length⟩
      else none := by
  rw [append, if_neg nonempty, if_neg (Nat.not_le.mpr asserted), atEnd]
  unfold size
  by_cases straight : buffer.storage.bytes.length + src.length < 2 ^ 64
  · rw [Nat.mod_eq_of_lt straight, Storage.grow, if_pos (by omega), resize_store]
    by_cases fits : buffer.storage.bytes.length + src.length ≤ maxSize
    · rw [dif_pos fits, dif_pos fits]
      rfl
    · rw [dif_neg fits, dif_neg fits]
      rfl
  · have large : ¬ buffer.storage.bytes.length + src.length ≤ maxSize := by
      unfold maxSize
      omega
    rw [dif_neg large, grow_store_wrapped _ nonempty (by omega)]
    rfl

/-- Appended bytes are put behind what the buffer holds. -/
theorem append_produces (src : List UInt8) :
    Produces Written 10000000 (fun buffer => buffer.append src) src where
  puts := by
    intro buffer written after held returned
    have size_eq : buffer.size = written.length := congrArg List.length held.bytes
    by_cases nonempty : src.length = 0
    · rw [append, if_pos nonempty] at returned
      cases returned
      rw [List.length_eq_zero_iff.mp nonempty, List.append_nil]
      exact held
    · by_cases asserted : buffer.size < 10000000
      · rw [append_atEnd buffer (held.wpos.trans size_eq.symm) nonempty asserted] at returned
        by_cases fits : buffer.size + src.length ≤ maxSize
        · rw [dif_pos fits] at returned
          cases returned
          refine ⟨congrArg (· ++ src) held.bytes, ?_, held.rpos⟩
          unfold maxSize at fits
          rw [UInt64.toNat_add, UInt64.toNat_ofNat', held.wpos, List.length_append]
          omega
        · rw [dif_neg fits] at returned
          cases returned
      · rw [append, if_neg nonempty, if_pos (Nat.not_lt.mp asserted)] at returned
        cases returned
  succeeds := by
    intro buffer written held room
    have size_eq : buffer.size = written.length := congrArg List.length held.bytes
    by_cases nonempty : src.length = 0
    · exact ⟨buffer, if_pos nonempty⟩
    · have fits : buffer.size + src.length ≤ maxSize := by
        unfold maxSize
        omega
      have returned := append_atEnd buffer (held.wpos.trans size_eq.symm) nonempty (by omega)
      rw [dif_pos fits] at returned
      exact ⟨_, returned⟩

theorem writeNumber_produces (width value : Nat) :
    Produces Written 10000000 (writeNumber width value) (LittleEndian.encode width value) :=
  append_produces _

/-- Every operator<< puts the format of its value. -/
theorem write_produces (type : Ty) (value : Value type) :
    Produces Written 10000000 (write type value) (format type value) := by
  induction type with
  | bool => exact writeNumber_produces _ _
  | unsigned width => exact writeNumber_produces _ _
  | signed width => exact writeNumber_produces _ _
  | float => exact writeNumber_produces _ _
  | double => exact writeNumber_produces _ _
  | string => exact (append_produces _).bind (writeNumber_produces _ _)
  | vector element inductionHypothesis =>
      apply (writeNumber_produces _ _).bind
      exact Produces.each fun item _ => inductionHypothesis item
  | list element inductionHypothesis =>
      apply (writeNumber_produces _ _).bind
      exact Produces.each fun item _ => inductionHypothesis item
  | map key mapped keyHypothesis mappedHypothesis =>
      apply (writeNumber_produces _ _).bind
      exact Produces.each fun entry _ =>
        (keyHypothesis entry.1).bind (mappedHypothesis entry.2)

/-! ## Reading -/

/-- The read position lies between these bytes. -/
structure Cut (buffer : ByteBuffer) (before after : List UInt8) : Prop where
  bytes : buffer.storage.bytes = before ++ after
  rpos : buffer.rpos.toNat = before.length

theorem read_consumes (bytes : List UInt8) : Consumes Cut (read bytes.length) bytes bytes := by
  intro buffer before after position
  have total : buffer.size = before.length + (bytes.length + after.length) := by
    unfold size
    rw [position.bytes, List.length_append, List.length_append]
  have bounded : buffer.size ≤ maxSize := buffer.storage.bounded
  unfold maxSize at bounded
  have inside : ¬ buffer.size < (buffer.rpos.toNat + bytes.length) % 2 ^ 64 := by
    rw [position.rpos]
    omega
  have within : buffer.rpos.toNat + bytes.length ≤ buffer.storage.bytes.length := by
    rw [position.rpos]
    exact Nat.le_trans (by omega) (Nat.le_of_eq total.symm)
  have found : Block.slice buffer.storage.bytes buffer.rpos.toNat bytes.length = bytes := by
    rw [position.bytes, position.rpos, Block.slice, List.drop_left, List.take_left]
  refine ⟨{ buffer with rpos := buffer.rpos + UInt64.ofNat bytes.length }, ?_, ?_, ?_⟩
  · rw [read, readAt, if_neg inside, Block.load_eq_some _ within, found]
    rfl
  · rw [List.append_assoc]
    exact position.bytes
  · rw [UInt64.toNat_add, UInt64.toNat_ofNat', position.rpos, List.length_append]
    omega

theorem readNumber_consumes {width value : Nat} (fits : value < 256 ^ width) :
    Consumes Cut (readNumber width) (LittleEndian.encode width value) value := by
  have taken := (read_consumes (LittleEndian.encode width value)).map LittleEndian.decode
  rw [LittleEndian.length_encode, LittleEndian.decode_encode, Nat.mod_eq_of_lt fits] at taken
  exact taken

theorem readBits_consumes {width : Nat} (pattern : BitVec (8 * width)) :
    Consumes Cut (fun buffer => (readNumber width buffer).map fun step =>
      (BitVec.ofNat (8 * width) step.1, step.2)) (LittleEndian.encode width pattern.toNat)
      pattern := by
  have fits : pattern.toNat < 256 ^ width := by
    have small := pattern.isLt
    rw [Nat.pow_mul] at small
    exact small
  have taken := (readNumber_consumes fits).map (BitVec.ofNat (8 * width))
  rw [BitVec.ofNat_toNat, BitVec.setWidth_eq] at taken
  exact taken

theorem readBool_consumes (value : Bool) :
    Consumes Cut (readValue .bool) (format .bool value) value := by
  have fits : value.toNat < 256 ^ 1 := by cases value <;> decide
  have taken := (readNumber_consumes fits).map fun number =>
    decide (0 < (BitVec.ofNat 8 number).toInt)
  have back : decide (0 < (BitVec.ofNat 8 value.toNat).toInt) = value := by
    cases value <;> decide
  rw [back] at taken
  exact taken

theorem readByte_consumes (byte : UInt8) : Consumes Cut (readNumber 1) [byte] byte.toNat := by
  have taken : Consumes Cut (readNumber 1) (LittleEndian.encode 1 byte.toNat) byte.toNat :=
    readNumber_consumes byte.toNat_lt
  rw [LittleEndian.encode, LittleEndian.encode, UInt8.ofNat_toNat] at taken
  exact taken

/-- Characters are taken up to the terminator. -/
theorem readChars_consumes (characters : List UInt8)
    (nonzero : forall character, character ∈ characters -> character ≠ 0) (turns : Nat)
    (enough : characters.length < turns) (value : List UInt8) :
    Consumes Cut (readChars turns value) (characters ++ LittleEndian.encode 1 0)
      (value ++ characters) := by
  induction characters generalizing turns value with
  | nil =>
      cases turns with
      | zero => exact absurd enough (Nat.not_lt_zero _)
      | succ turns =>
          have first : Consumes Cut (readNumber 1) (LittleEndian.encode 1 0) 0 :=
            readNumber_consumes (by decide)
          intro buffer before after position
          rcases first buffer before after position with ⟨rest, returned, moved⟩
          refine ⟨rest, ?_, moved⟩
          rw [readChars, returned, Option.bind_some, if_pos rfl, List.append_nil]
  | cons character characters inductionHypothesis =>
      cases turns with
      | zero => exact absurd enough (Nat.not_lt_zero _)
      | succ turns =>
          have different : character.toNat ≠ 0 := by
            intro zero
            exact nonzero character (List.mem_cons_self ..) (UInt8.toNat_inj.mp zero)
          have later := inductionHypothesis
            (fun other member => nonzero other (List.mem_cons_of_mem _ member)) turns
            (Nat.lt_of_succ_lt_succ enough) (value ++ [character])
          rw [List.append_assoc] at later
          have continued : Consumes Cut (fun buffer =>
              if character.toNat = 0 then some (value, buffer)
              else readChars turns (value ++ [UInt8.ofNat character.toNat]) buffer)
              (characters ++ LittleEndian.encode 1 0) (value ++ character :: characters) := by
            simp only [if_neg different, UInt8.ofNat_toNat]
            exact later
          exact @Consumes.bind _ _ _ _ _ _ (fun number buffer =>
            if number = 0 then some (value, buffer)
            else readChars turns (value ++ [UInt8.ofNat number]) buffer) [character] _ _ _
            (readByte_consumes character) continued

/-! Collecting elements in order gives the container back. -/

theorem foldl_pushBack {α : Type} (values collected : List α) :
    values.foldl pushBack collected = collected ++ values := by
  induction values generalizing collected with
  | nil => exact (List.append_nil _).symm
  | cons value values inductionHypothesis =>
      rw [List.foldl_cons, inductionHypothesis, pushBack, List.append_assoc]
      rfl

theorem insert_last {κ υ : Type} {less : κ -> κ -> Bool} {entries : List (κ × υ)} {entry : κ × υ}
    (above : forall other, other ∈ entries -> less other.1 entry.1 = true) :
    insert less entries entry = entries ++ [entry] := by
  induction entries with
  | nil => rfl
  | cons other entries inductionHypothesis =>
      rw [insert, if_pos (above other (List.mem_cons_self ..)),
        inductionHypothesis fun further member => above further (List.mem_cons_of_mem _ member)]
      rfl

theorem foldl_insert {κ υ : Type} {less : κ -> κ -> Bool} (entries collected : List (κ × υ))
    (ascending : (collected ++ entries).Pairwise fun first second => less first.1 second.1 = true) :
    entries.foldl (insert less) collected = collected ++ entries := by
  induction entries generalizing collected with
  | nil => exact (List.append_nil _).symm
  | cons entry entries inductionHypothesis =>
      have above : forall other, other ∈ collected -> less other.1 entry.1 = true := by
        intro other member
        exact (List.pairwise_append.mp ascending).2.2 other member entry (List.mem_cons_self ..)
      rw [List.foldl_cons, insert_last above, inductionHypothesis]
      · rw [List.append_assoc]
        rfl
      · rw [List.append_assoc]
        exact ascending

section Containers

variable {α β κ υ : Type}

theorem readCounted_consumes {reader : ByteBuffer -> Option (α × ByteBuffer)}
    {layout : α -> List UInt8} (collect : β -> α -> β) (empty : β) (items : List α)
    (few : items.length < 2 ^ 32)
    (one : forall item, item ∈ items -> Consumes Cut reader (layout item) item) :
    Consumes Cut (fun buffer => (readNumber 4 buffer).bind fun step =>
        into reader collect step.1 empty step.2)
      (LittleEndian.encode 4 items.length ++ items.flatMap layout) (items.foldl collect empty) := by
  have count : Consumes Cut (readNumber 4) (LittleEndian.encode 4 items.length) items.length :=
    readNumber_consumes few
  exact @Consumes.bind _ _ _ _ _ _ (fun count buffer => into reader collect count empty buffer)
    _ _ _ _ count (Consumes.into one empty)

theorem readSequence_consumes {reader : ByteBuffer -> Option (α × ByteBuffer)}
    {layout : α -> List UInt8} (items : List α) (few : items.length < 2 ^ 32)
    (one : forall item, item ∈ items -> Consumes Cut reader (layout item) item) :
    Consumes Cut (fun buffer => (readNumber 4 buffer).bind fun step =>
        into reader pushBack step.1 [] step.2)
      (LittleEndian.encode 4 items.length ++ items.flatMap layout) items := by
  have taken := readCounted_consumes pushBack [] items few one
  rw [foldl_pushBack, List.nil_append] at taken
  exact taken

/-- A map is read back when its keys and values are and its keys ascend. -/
theorem readMap_consumes {readKey : ByteBuffer -> Option (κ × ByteBuffer)}
    {readMapped : ByteBuffer -> Option (υ × ByteBuffer)} {keyLayout : κ -> List UInt8}
    {mappedLayout : υ -> List UInt8} {less : κ -> κ -> Bool} (entries : List (κ × υ))
    (few : entries.length < 2 ^ 32)
    (ascending : entries.Pairwise fun first second => less first.1 second.1 = true)
    (one : forall entry, entry ∈ entries -> Consumes Cut readKey (keyLayout entry.1) entry.1 ∧
      Consumes Cut readMapped (mappedLayout entry.2) entry.2) :
    Consumes Cut (fun buffer => (readNumber 4 buffer).bind fun step =>
        into (fun buffer => (readKey buffer).bind fun first =>
          (readMapped first.2).map fun second => ((first.1, second.1), second.2))
          (insert less) step.1 [] step.2)
      (LittleEndian.encode 4 entries.length ++
        entries.flatMap fun entry => keyLayout entry.1 ++ mappedLayout entry.2) entries := by
  have both : forall entry, entry ∈ entries ->
      Consumes Cut (fun buffer => (readKey buffer).bind fun first =>
        (readMapped first.2).map fun second => ((first.1, second.1), second.2))
        (keyLayout entry.1 ++ mappedLayout entry.2) entry := by
    intro entry member
    rcases one entry member with ⟨key, mapped⟩
    exact @Consumes.bind _ _ _ _ _ _ (fun first buffer =>
      (readMapped buffer).map fun second => ((first, second.1), second.2)) _ _ _ _ key
      (mapped.map fun second => (entry.1, second))
  have taken := readCounted_consumes (insert less) [] entries few both
  rw [foldl_insert entries [] ascending, List.nil_append] at taken
  exact taken

end Containers

theorem readString_consumes (characters : List UInt8)
    (nonzero : forall character, character ∈ characters -> character ≠ 0) :
    Consumes Cut (fun buffer => readChars (buffer.size + 1) [] buffer)
      (characters ++ LittleEndian.encode 1 0) characters := by
  intro buffer before after position
  have enough : characters.length < buffer.size + 1 := by
    unfold size
    rw [position.bytes]
    simp only [List.length_append]
    omega
  exact readChars_consumes characters nonzero _ enough [] buffer before after position

/-- Every operator>> takes the format of a storable value and returns it. -/
theorem readValue_consumes (type : Ty) (value : Value type) (storable : Storable type value) :
    Consumes Cut (readValue type) (format type value) value := by
  induction type with
  | bool => exact readBool_consumes value
  | unsigned width => exact readBits_consumes value
  | signed width => exact readBits_consumes value
  | float => exact @readBits_consumes 4 value
  | double => exact @readBits_consumes 8 value
  | string => exact readString_consumes value storable
  | vector element inductionHypothesis =>
      apply readSequence_consumes value storable.1
      exact fun item member => inductionHypothesis item (storable.2 item member)
  | list element inductionHypothesis =>
      apply readSequence_consumes value storable.1
      exact fun item member => inductionHypothesis item (storable.2 item member)
  | map key mapped keyHypothesis mappedHypothesis =>
      rcases storable with ⟨⟨few, each⟩, ascending⟩
      apply readMap_consumes value few ascending
      intro entry member
      exact ⟨keyHypothesis entry.1 (each entry member).1,
        mappedHypothesis entry.2 (each entry member).2⟩

/-! ## Sequences of values -/

/-- A sequence of operator<< calls. -/
def writeAll (items : List Item) (buffer : ByteBuffer) : Option ByteBuffer :=
  each (fun item => write item.1 item.2) items buffer

/-- A sequence of operator>> calls with the given types. -/
def readAll : List Ty -> ByteBuffer -> Option (List Item × ByteBuffer)
  | [], buffer => some ([], buffer)
  | type :: types, buffer =>
      (readValue type buffer).bind fun first =>
        (readAll types first.2).map fun others => (⟨type, first.1⟩ :: others.1, others.2)

/-- The bytes of a sequence of values. -/
def formatAll (items : List Item) : List UInt8 :=
  items.flatMap fun item => format item.1 item.2

theorem readAll_consumes (items : List Item)
    (storable : forall item, item ∈ items -> Storable item.1 item.2) :
    Consumes Cut (readAll (items.map Sigma.fst)) (formatAll items) items := by
  induction items with
  | nil =>
      intro buffer before after position
      refine ⟨buffer, rfl, ?_⟩
      rw [formatAll, List.flatMap_nil, List.append_nil]
      exact position
  | cons item items inductionHypothesis =>
      have first := readValue_consumes item.1 item.2 (storable item (List.mem_cons_self ..))
      have later := inductionHypothesis fun other member =>
        storable other (List.mem_cons_of_mem _ member)
      exact @Consumes.bind _ _ _ _ _ _ (fun value buffer =>
        (readAll (items.map Sigma.fst) buffer).map fun others =>
          (⟨item.1, value⟩ :: others.1, others.2)) _ _ _ _ first (later.map (item :: ·))

/-- A sequence of values written into an empty buffer is read back: the writes
return as long as the assertion leaves room, and the reads then return the
same values and stop behind the last byte written. -/
theorem writeAll_readAll (items : List Item)
    (storable : forall item, item ∈ items -> Storable item.1 item.2) :
    ((formatAll items).length ≤ 10000000 -> Exists fun buffer => writeAll items new = some buffer) ∧
    forall buffer, writeAll items new = some buffer ->
      Exists fun after => readAll (items.map Sigma.fst) buffer = some (items, after) ∧
        after.rpos.toNat = (formatAll items).length ∧ after.rpos.toNat = after.size ∧
        after.rpos = buffer.wpos := by
  have puts : Produces Written 10000000 (writeAll items) (formatAll items) :=
    Produces.each fun item _ => write_produces item.1 item.2
  refine ⟨?_, ?_⟩
  · intro room
    apply puts.succeeds new [] new_written
    rw [List.length_nil, Nat.zero_add]
    exact room
  · intro buffer written
    have held := puts.puts new [] buffer new_written written
    rw [List.nil_append] at held
    have start : Cut buffer [] (formatAll items ++ []) := by
      rw [List.append_nil]
      exact ⟨held.bytes, congrArg UInt64.toNat held.rpos⟩
    rcases readAll_consumes items storable buffer [] [] start with ⟨after, returned, arrived⟩
    have total : after.size = (formatAll items).length := by
      have bytes := arrived.bytes
      rw [List.append_nil, List.nil_append] at bytes
      exact congrArg List.length bytes
    have position : after.rpos.toNat = (formatAll items).length := arrived.rpos
    refine ⟨after, returned, position, position.trans total.symm, ?_⟩
    apply UInt64.toNat_inj.mp
    exact position.trans held.wpos.symm

/-- Flags, a map from strings to vectors, and a number that is not one. -/
def sample : List Item :=
  [⟨.bool, true⟩,
    ⟨.map .string (.vector (.signed .w16)),
      [(([97, 98] : List UInt8), [0xFFFF#16, 3#16]), (([98] : List UInt8), [])]⟩,
    ⟨.float, 0x7FC00000#32⟩, ⟨.bool, false⟩]

theorem writeAll_readAll_sample :
    (Exists fun buffer => writeAll sample new = some buffer) ∧
    forall buffer, writeAll sample new = some buffer ->
      Exists fun after => readAll (sample.map Sigma.fst) buffer = some (sample, after) ∧
        after.rpos.toNat = 27 ∧ after.size = 27 := by
  have storable : forall item, item ∈ sample -> Storable item.1 item.2 := by decide +kernel
  have length : (formatAll sample).length = 27 := by decide +kernel
  rcases writeAll_readAll sample storable with ⟨returns, back⟩
  refine ⟨returns (by rw [length]; decide), ?_⟩
  intro buffer written
  rcases back buffer written with ⟨after, returned, position, total, _⟩
  exact ⟨after, returned, position.trans length, total.symm.trans (position.trans length)⟩

end ByteBuffer
end ServerTech
