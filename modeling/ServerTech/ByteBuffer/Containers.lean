import ServerTech.ByteBuffer.RoundTrip

namespace ServerTech
namespace ByteBuffer

open Codec

/-!
# Reading a container that promises too much

The operators >> for vectors, lists and maps read a 32-bit count and then that
many elements.  They do not compare the count with the bytes that are left, and
a read behind the end returns zeros.  So the elements of the result are encoded
in the buffer only if the buffer holds the encodings of as many elements as the
count promises.  A map has one way out: the entries that are made up have keys
that it already holds, and `insert` drops them.

`Encodes` says which bytes are the encoding of a value, in the way the
operators >> read them.
-/

/-! ## Encodings -/

section Laid

variable {α β : Type}

/-- The bytes are encodings of the items, one after the other. -/
def Laid (one : α -> List UInt8 -> Prop) (items : List α) (bytes : List UInt8) : Prop :=
  Exists fun pieces : List (List UInt8) => List.Forall₂ one items pieces ∧ pieces.flatten = bytes

/-- A count and then as many items. -/
def Counted (one : α -> List UInt8 -> Prop) (items : List α) (bytes : List UInt8) : Prop :=
  items.length < 2 ^ 32 ∧ Exists fun body => Laid one items body ∧
    LittleEndian.encode 4 items.length ++ body = bytes

/-- Two encodings, one after the other. -/
def Both (first : α -> List UInt8 -> Prop) (second : β -> List UInt8 -> Prop) (pair : α × β)
    (bytes : List UInt8) : Prop :=
  Exists fun left => Exists fun right => first pair.1 left ∧ second pair.2 right ∧ left ++ right = bytes

theorem Counted.length_pos {one : α -> List UInt8 -> Prop} {items : List α} {bytes : List UInt8}
    (counted : Counted one items bytes) : 0 < bytes.length := by
  rcases counted with ⟨_, body, _, rfl⟩
  rw [List.length_append, LittleEndian.length_encode]
  omega

end Laid

/-- The bytes are an encoding of the value. -/
def Encodes : (type : Ty) -> Value type -> List UInt8 -> Prop
  | .bool, value, bytes => Exists fun byte : UInt8 =>
      [byte] = bytes ∧ value = decide (0 < (BitVec.ofNat 8 byte.toNat).toInt)
  | .unsigned width, value, bytes =>
      bytes.length = width.bytes ∧ value = BitVec.ofNat (8 * width.bytes) (LittleEndian.decode bytes)
  | .signed width, value, bytes =>
      bytes.length = width.bytes ∧ value = BitVec.ofNat (8 * width.bytes) (LittleEndian.decode bytes)
  | .float, value, bytes => bytes.length = 4 ∧ value = BitVec.ofNat 32 (LittleEndian.decode bytes)
  | .double, value, bytes => bytes.length = 8 ∧ value = BitVec.ofNat 64 (LittleEndian.decode bytes)
  | .string, value, bytes => NulFree value ∧ (show List UInt8 from value) ++ [0] = bytes
  | .vector element, value, bytes => Counted (Encodes element) value bytes
  | .list element, value, bytes => Counted (Encodes element) value bytes
  | .map key mapped, value, bytes =>
      Exists fun entries => Counted (Both (Encodes key) (Encodes mapped)) entries bytes ∧
        value = entries.foldl (insert (less key)) []

section Consumes

variable {α β : Type}

theorem number_consumes {bytes : List UInt8} {width : Nat} (length : bytes.length = width)
    (convert : Nat -> α) :
    Consumes Cut (fun buffer => (readNumber width buffer).map fun step => (convert step.1, step.2))
      bytes (convert (LittleEndian.decode bytes)) := by
  subst length
  exact ((read_consumes bytes).map LittleEndian.decode).map convert

theorem counted_consumes {reader : ByteBuffer -> Option (α × ByteBuffer)}
    {one : α -> List UInt8 -> Prop} {items : List α} {bytes : List UInt8}
    (counted : Counted one items bytes)
    (reads : forall item piece, one item piece -> Consumes Cut reader piece item)
    (collect : β -> α -> β) (empty : β) :
    Consumes Cut (fun buffer => (readNumber 4 buffer).bind fun step =>
      into reader collect step.1 empty step.2) bytes (items.foldl collect empty) := by
  rcases counted with ⟨few, body, ⟨pieces, each, rfl⟩, rfl⟩
  have count : Consumes Cut (readNumber 4) (LittleEndian.encode 4 items.length) items.length :=
    readNumber_consumes few
  have all := (Consumes.many (each.imp fun item piece => reads item piece)).map fun items =>
    items.foldl collect empty
  have step : Consumes Cut (into reader collect items.length empty) pieces.flatten
      (items.foldl collect empty) := by
    intro source before after position
    rw [into_eq_many]
    exact all source before after position
  exact @Consumes.bind _ _ _ _ _ _ (fun count buffer => into reader collect count empty buffer)
    _ _ _ _ count step

theorem sequence_consumes {reader : ByteBuffer -> Option (α × ByteBuffer)}
    {one : α -> List UInt8 -> Prop} {items : List α} {bytes : List UInt8}
    (counted : Counted one items bytes)
    (reads : forall item piece, one item piece -> Consumes Cut reader piece item) :
    Consumes Cut (fun buffer => (readNumber 4 buffer).bind fun step =>
      into reader pushBack step.1 [] step.2) bytes items := by
  have taken := counted_consumes counted reads pushBack []
  rw [foldl_pushBack, List.nil_append] at taken
  exact taken

theorem both_consumes {readFirst : ByteBuffer -> Option (α × ByteBuffer)}
    {readSecond : ByteBuffer -> Option (β × ByteBuffer)} {first : α -> List UInt8 -> Prop}
    {second : β -> List UInt8 -> Prop} {pair : α × β} {bytes : List UInt8}
    (both : Both first second pair bytes)
    (readsFirst : forall item piece, first item piece -> Consumes Cut readFirst piece item)
    (readsSecond : forall item piece, second item piece -> Consumes Cut readSecond piece item) :
    Consumes Cut (fun buffer => (readFirst buffer).bind fun left =>
      (readSecond left.2).map fun right => ((left.1, right.1), right.2)) bytes pair := by
  rcases both with ⟨left, right, one, other, rfl⟩
  exact @Consumes.bind _ _ _ _ _ _ (fun first buffer =>
    (readSecond buffer).map fun second => ((first, second.1), second.2)) _ _ _ _
    (readsFirst _ _ one) ((readsSecond _ _ other).map fun second => (pair.1, second))

end Consumes

/-- Every operator >> takes an encoding and returns its value. -/
theorem encodes_consumes (type : Ty) (value : Value type) (bytes : List UInt8)
    (encodes : Encodes type value bytes) : Consumes Cut (readValue type) bytes value := by
  induction type generalizing bytes with
  | bool =>
      rcases encodes with ⟨byte, rfl, rfl⟩
      exact (readByte_consumes byte).map fun number => decide (0 < (BitVec.ofNat 8 number).toInt)
  | unsigned width =>
      rcases encodes with ⟨length, rfl⟩
      exact number_consumes length _
  | signed width =>
      rcases encodes with ⟨length, rfl⟩
      exact number_consumes length _
  | float =>
      rcases encodes with ⟨length, rfl⟩
      exact number_consumes length _
  | double =>
      rcases encodes with ⟨length, rfl⟩
      exact number_consumes length _
  | string =>
      rcases encodes with ⟨nonzero, rfl⟩
      exact readString_consumes value nonzero
  | vector element inductionHypothesis => exact sequence_consumes encodes inductionHypothesis
  | list element inductionHypothesis => exact sequence_consumes encodes inductionHypothesis
  | map key mapped keyHypothesis mappedHypothesis =>
      rcases encodes with ⟨entries, counted, rfl⟩
      exact counted_consumes counted
        (fun entry piece both => both_consumes both keyHypothesis mappedHypothesis)
        (insert (less key)) []

/-- No value has an empty encoding. -/
theorem Encodes.nonempty {type : Ty} {value : Value type} {bytes : List UInt8}
    (encodes : Encodes type value bytes) : 0 < bytes.length := by
  cases type with
  | bool =>
      rcases encodes with ⟨byte, rfl, _⟩
      exact Nat.one_pos
  | unsigned width =>
      rw [encodes.1]
      cases width <;> decide
  | signed width =>
      rw [encodes.1]
      cases width <;> decide
  | float =>
      rw [encodes.1]
      decide
  | double =>
      rw [encodes.1]
      decide
  | string =>
      rcases encodes with ⟨_, rfl⟩
      exact List.length_pos_iff.mpr (List.concat_ne_nil _ _)
  | vector element => exact encodes.length_pos
  | list element => exact encodes.length_pos
  | map key mapped =>
      rcases encodes with ⟨entries, counted, _⟩
      exact counted.length_pos

/-! ## Containers -/

/-- The three containers. -/
inductive Container
  | vector (element : Ty)
  | list (element : Ty)
  | map (key value : Ty)
  deriving DecidableEq, Repr

namespace Container

def type : Container -> Ty
  | vector element => .vector element
  | list element => .list element
  | map key value => .map key value

/-- What a container is a sequence of. -/
def Element : Container -> Type
  | vector element => Value element
  | list element => Value element
  | map key value => Value key × Value value

/-- The elements of a container in the order of its iterators. -/
def elements : (container : Container) -> Value container.type -> List container.Element
  | vector _, value => value
  | list _, value => value
  | map _ _, value => value

/-- The operators >> of the body of the loop. -/
def readElement : (container : Container) -> ByteBuffer -> Option (container.Element × ByteBuffer)
  | vector element => readValue element
  | list element => readValue element
  | map key value => fun buffer =>
      (readValue key buffer).bind fun first =>
        (readValue value first.2).map fun second => ((first.1, second.1), second.2)

/-- `push_back` or `insert`. -/
def collect : (container : Container) -> List container.Element -> container.Element ->
    List container.Element
  | vector _ => pushBack
  | list _ => pushBack
  | map key _ => insert (less key)

/-- The bytes are an encoding of the element. -/
def EncodesElement : (container : Container) -> container.Element -> List UInt8 -> Prop
  | vector element => Encodes element
  | list element => Encodes element
  | map key value => Both (Encodes key) (Encodes value)

/-- The elements of the container that operator>> returns, and the buffer after it. -/
def decode (container : Container) (buffer : ByteBuffer) :
    Option (List container.Element × ByteBuffer) :=
  (readValue container.type buffer).map fun step => (container.elements step.1, step.2)

theorem decode_eq (container : Container) (buffer : ByteBuffer) :
    container.decode buffer = (readNumber 4 buffer).bind fun step =>
      into container.readElement container.collect step.1 [] step.2 := by
  cases container <;> exact Option.map_id'

theorem encodesElement_consumes (container : Container) (element : container.Element)
    (bytes : List UInt8) (encodes : container.EncodesElement element bytes) :
    Consumes Cut container.readElement bytes element := by
  cases container with
  | vector type => exact encodes_consumes type element bytes encodes
  | list type => exact encodes_consumes type element bytes encodes
  | map key value => exact both_consumes encodes (encodes_consumes key) (encodes_consumes value)

theorem encodesElement_length (container : Container) {element : container.Element}
    {bytes : List UInt8} (encodes : container.EncodesElement element bytes) : 0 < bytes.length := by
  cases container with
  | vector type => exact Encodes.nonempty encodes
  | list type => exact Encodes.nonempty encodes
  | map key value =>
      rcases encodes with ⟨left, right, first, _, rfl⟩
      rw [List.length_append]
      exact Nat.add_pos_left first.nonempty _

/-! ## What is collected -/

/-- Collecting an element changes nothing or makes the container longer by one. -/
theorem collect_cases (container : Container) (collected : List container.Element)
    (element : container.Element) :
    container.collect collected element = collected ∨
      (container.collect collected element).length = collected.length + 1 := by
  cases container with
  | vector type => exact Or.inr (List.length_append ..)
  | list type => exact Or.inr (List.length_append ..)
  | map key value =>
      induction collected with
      | nil => exact Or.inr rfl
      | cons other entries inductionHypothesis =>
          simp only [collect, insert]
          by_cases before : less key other.1 element.1 = true
          · rw [if_pos before]
            rcases inductionHypothesis with same | longer
            · exact Or.inl (congrArg (other :: ·) same)
            · exact Or.inr (congrArg (· + 1) longer)
          · rw [if_neg before]
            by_cases after : less key element.1 other.1 = true
            · rw [if_pos after]
              exact Or.inr rfl
            · rw [if_neg after]
              exact Or.inl rfl

theorem length_foldl_collect (container : Container) (items collected : List container.Element) :
    collected.length ≤ (items.foldl container.collect collected).length ∧
      (items.foldl container.collect collected).length ≤ collected.length + items.length := by
  induction items generalizing collected with
  | nil => exact ⟨Nat.le_refl _, Nat.le_refl _⟩
  | cons item items inductionHypothesis =>
      have later := inductionHypothesis (container.collect collected item)
      rw [List.foldl_cons, List.length_cons]
      rcases container.collect_cases collected item with same | longer
      · rw [same] at later ⊢
        omega
      · omega

theorem foldl_collect_eq_iff (container : Container) (items collected : List container.Element) :
    items.foldl container.collect collected = collected <->
      forall item, item ∈ items -> container.collect collected item = collected := by
  induction items with
  | nil => exact ⟨fun _ _ member => (nomatch member), fun _ => rfl⟩
  | cons item items inductionHypothesis =>
      rw [List.foldl_cons, List.forall_mem_cons]
      rcases container.collect_cases collected item with same | longer
      · rw [same, inductionHypothesis]
        exact ⟨fun rest => ⟨rfl, rest⟩, And.right⟩
      · have least := (container.length_foldl_collect items (container.collect collected item)).1
        constructor
        · intro unchanged
          rw [unchanged] at least
          omega
        · rintro ⟨same, _⟩
          rw [same] at longer
          omega

/-! ## The count and what is left -/

/-- The bytes behind a count at the read position. -/
def left (buffer : ByteBuffer) : List UInt8 :=
  buffer.storage.bytes.drop (buffer.rpos.toNat + 4)

/-- The count at the read position, which is zero where the buffer ends before
its four bytes do. -/
def count (buffer : ByteBuffer) : Nat :=
  if buffer.rpos.toNat + 4 ≤ buffer.size then
    LittleEndian.decode (Block.slice buffer.storage.bytes buffer.rpos.toNat 4)
  else 0

theorem readNumber_count {buffer : ByteBuffer} (inside : buffer.rpos.toNat ≤ buffer.size) :
    readNumber 4 buffer = some (count buffer, buffer.setRpos (buffer.rpos + 4)) := by
  have bounded : buffer.size ≤ maxSize := buffer.storage.bounded
  unfold maxSize at bounded
  have straight : (buffer.rpos.toNat + 4) % 2 ^ 64 = buffer.rpos.toNat + 4 := Nat.mod_eq_of_lt (by omega)
  rw [readNumber, read, readAt, straight, count]
  by_cases whole : buffer.rpos.toNat + 4 ≤ buffer.size
  · rw [if_neg (Nat.not_lt.mpr whole), if_pos whole, Block.load_eq_some _ whole]
    rfl
  · rw [if_pos (Nat.not_le.mp whole), if_neg whole]
    rfl

/-- If anything is promised, the read position lies behind the count. -/
theorem cut_count {buffer : ByteBuffer} (promised : 0 < count buffer) :
    Cut (buffer.setRpos (buffer.rpos + 4))
      (buffer.storage.bytes.take (buffer.rpos.toNat + 4)) (left buffer) := by
  have bounded : buffer.size ≤ maxSize := buffer.storage.bounded
  unfold maxSize at bounded
  by_cases whole : buffer.rpos.toNat + 4 ≤ buffer.size
  · refine ⟨(List.take_append_drop _ _).symm, ?_⟩
    have four : (4 : UInt64).toNat = 4 := rfl
    rw [List.length_take_of_le whole]
    change (buffer.rpos + 4).toNat = _
    rw [UInt64.toNat_add, four]
    omega
  · rw [count, if_neg whole] at promised
    cases promised

theorem decode_eq_many (container : Container) {buffer : ByteBuffer}
    (inside : buffer.rpos.toNat ≤ buffer.size) :
    container.decode buffer =
      (many container.readElement (count buffer) (buffer.setRpos (buffer.rpos + 4))).map
        fun out => (out.1.foldl container.collect [], out.2) := by
  rw [decode_eq, readNumber_count inside, Option.bind_some, into_eq_many]

/-- The bytes behind the count begin with encodings of these elements. -/
def Begins (container : Container) (buffer : ByteBuffer) (encoded : List container.Element) : Prop :=
  Exists fun bytes => Exists fun rest =>
    left buffer = bytes ++ rest ∧ Laid container.EncodesElement encoded bytes

/-- A container that is not made up: it has at most as many elements as there
are bytes behind the count, and is collected from elements whose encodings
stand there. -/
def Genuine (container : Container) (buffer : ByteBuffer) : Prop :=
  Exists fun found => Exists fun after => container.decode buffer = some (found, after) ∧
    found.length ≤ (left buffer).length ∧
    Exists fun encoded => container.Begins buffer encoded ∧
      found = encoded.foldl container.collect []

/-- The bytes behind the count begin with as many encodings as it promises. -/
def Whole (container : Container) (buffer : ByteBuffer) : Prop :=
  Exists fun encoded => encoded.length = count buffer ∧ container.Begins buffer encoded

/-- The bytes behind the count begin with fewer encodings than it promises, and
what the operators >> read after these leaves the container as it is. -/
def Refused (container : Container) (buffer : ByteBuffer) : Prop :=
  Exists fun encoded => Exists fun more => Exists fun after => more ≠ [] ∧
    container.Begins buffer encoded ∧
    many container.readElement (count buffer) (buffer.setRpos (buffer.rpos + 4)) =
      some (encoded ++ more, after) ∧
    forall element, element ∈ more ->
      container.collect (encoded.foldl container.collect []) element =
        encoded.foldl container.collect []

/-! ## When the result is not made up -/

section Iff

variable {container : Container} {buffer : ByteBuffer} {encoded : List container.Element}

theorem Begins.length_le (begins : container.Begins buffer encoded) :
    encoded.length ≤ (left buffer).length := by
  rcases begins with ⟨bytes, rest, cut, pieces, each, rfl⟩
  have long : encoded.length ≤ pieces.flatten.length := by
    clear cut
    induction each with
    | nil => exact Nat.le_refl 0
    | cons first _ inductionHypothesis =>
        have one := container.encodesElement_length first
        rw [List.flatten_cons, List.length_append, List.length_cons]
        omega
  rw [cut, List.length_append]
  omega

theorem Begins.take (begins : container.Begins buffer encoded) (number : Nat) :
    container.Begins buffer (encoded.take number) := by
  rcases begins with ⟨bytes, rest, cut, pieces, each, rfl⟩
  refine ⟨(pieces.take number).flatten, (pieces.drop number).flatten ++ rest, ?_, _,
    List.forall₂_take number each, rfl⟩
  rw [← List.append_assoc, ← List.flatten_append, List.take_append_drop]
  exact cut

theorem Begins.many (begins : container.Begins buffer encoded) (promised : 0 < count buffer) :
    Exists fun after => Codec.many container.readElement encoded.length
      (buffer.setRpos (buffer.rpos + 4)) = some (encoded, after) := by
  rcases begins with ⟨bytes, rest, cut, pieces, each, rfl⟩
  have position := cut_count promised
  rw [cut] at position
  rcases Consumes.many (each.imp fun element piece => container.encodesElement_consumes element piece)
    _ _ _ position with ⟨after, returned, _⟩
  exact ⟨after, returned⟩

theorem Whole.genuine (inside : buffer.rpos.toNat ≤ buffer.size) (whole : container.Whole buffer) :
    container.Genuine buffer := by
  rcases whole with ⟨encoded, number, begins⟩
  have read : Exists fun after => many container.readElement (count buffer)
      (buffer.setRpos (buffer.rpos + 4)) = some (encoded, after) := by
    by_cases promised : 0 < count buffer
    · rw [← number]
      exact begins.many promised
    · have none_ : count buffer = 0 := Nat.eq_zero_of_not_pos promised
      rw [List.length_eq_zero_iff.mp (number.trans none_), none_]
      exact ⟨_, rfl⟩
  rcases read with ⟨after, read⟩
  refine ⟨encoded.foldl container.collect [], after, ?_, ?_, encoded, begins, rfl⟩
  · rw [decode_eq_many container inside, read]
    rfl
  · have collected := (container.length_foldl_collect encoded []).2
    rw [List.length_nil, Nat.zero_add] at collected
    exact Nat.le_trans collected begins.length_le

theorem Refused.genuine (inside : buffer.rpos.toNat ≤ buffer.size)
    (refused : container.Refused buffer) : container.Genuine buffer := by
  rcases refused with ⟨encoded, more, after, _, begins, read, unchanged⟩
  refine ⟨encoded.foldl container.collect [], after, ?_, ?_, encoded, begins, rfl⟩
  · rw [decode_eq_many container inside, read, Option.map_some, List.foldl_append,
      (container.foldl_collect_eq_iff more _).mpr unchanged]
  · have collected := (container.length_foldl_collect encoded []).2
    rw [List.length_nil, Nat.zero_add] at collected
    exact Nat.le_trans collected begins.length_le

/-- A container read from a position inside the buffer is not made up exactly
when as many elements are encoded there as the count promises, or all further
ones are refused. -/
theorem genuine_iff (container : Container) (buffer : ByteBuffer)
    (inside : buffer.rpos.toNat ≤ buffer.size) :
    container.Genuine buffer <-> container.Whole buffer ∨ container.Refused buffer := by
  constructor
  · rintro ⟨found, last, decoded, _, encoded, begins, rfl⟩
    by_cases enough : count buffer ≤ encoded.length
    · exact Or.inl ⟨encoded.take (count buffer), List.length_take_of_le enough, begins.take _⟩
    · refine Or.inr ?_
      have split : count buffer = encoded.length + (count buffer - encoded.length) := by omega
      rw [decode_eq_many container inside] at decoded
      rcases Option.map_eq_some_iff.mp decoded with ⟨out, read, collected⟩
      rcases begins.many (by omega) with ⟨middle, front⟩
      have whole := read
      rw [split, many_add, front, Option.bind_some] at read
      rcases Option.map_eq_some_iff.mp read with ⟨back, rest, rfl⟩
      have number := length_many rest
      rw [Prod.mk.injEq, List.foldl_append] at collected
      refine ⟨encoded, back.1, back.2, ?_, begins, whole,
        (container.foldl_collect_eq_iff back.1 _).mp collected.1⟩
      rintro none_
      rw [none_, List.length_nil] at number
      omega
  · rintro (whole | refused)
    · exact whole.genuine inside
    · exact refused.genuine inside

end Iff

/-- A buffer that holds the count 5 and nothing else. -/
def five : ByteBuffer where
  storage := ⟨[5, 0, 0, 0], by decide⟩
  rpos := 0
  wpos := 4

/-- Its five elements are read from no bytes at all. -/
theorem genuine_five :
    ¬ forall (container : Container) (buffer : ByteBuffer), buffer.rpos.toNat ≤ buffer.size ->
      container.Genuine buffer := by
  intro claim
  rcases claim (.vector (.unsigned .w8)) five (by decide) with ⟨found, after, decoded, short, _⟩
  have facts : ((vector (.unsigned .w8)).decode five).map (fun out => out.1.length) = some 5 := by
    decide +kernel
  rw [decoded, Option.map_some, Option.some.injEq] at facts
  rw [facts] at short
  exact absurd short (by decide)

/-- Three numbers behind a byte that has been read, and a map that promises four
entries, holds two, and has the key of the two that are made up. -/
theorem genuine_iff_several :
    (vector (.unsigned .w16)).Genuine ⟨⟨[255, 3, 0, 0, 0, 7, 9, 1, 0, 2, 0, 5], by decide⟩, 1, 12⟩ ∧
    (map (.unsigned .w8) (.unsigned .w8)).Genuine ⟨⟨[4, 0, 0, 0, 0, 9, 1, 8], by decide⟩, 0, 8⟩ := by
  constructor
  · refine (genuine_iff _ _ (by decide)).mpr (Or.inl ⟨[(0x0907#16 : BitVec 16), 1#16, 2#16],
      by decide, ?_⟩)
    exact ⟨[7, 9, 1, 0, 2, 0], [5], rfl, [[7, 9], [1, 0], [2, 0]],
      .cons ⟨rfl, rfl⟩ (.cons ⟨rfl, rfl⟩ (.cons ⟨rfl, rfl⟩ .nil)), rfl⟩
  · refine (genuine_iff _ _ (by decide)).mpr (Or.inr ⟨[((0#8 : BitVec 8), (9#8 : BitVec 8)),
      ((1#8 : BitVec 8), (8#8 : BitVec 8))], List.replicate 2 ((0#8 : BitVec 8), (0#8 : BitVec 8)),
      _, List.cons_ne_nil _ _, ?_, rfl, ?_⟩)
    · exact ⟨[0, 9, 1, 8], [], rfl, [[0, 9], [1, 8]],
        .cons ⟨[0], [9], ⟨rfl, rfl⟩, ⟨rfl, rfl⟩, rfl⟩
          (.cons ⟨[1], [8], ⟨rfl, rfl⟩, ⟨rfl, rfl⟩, rfl⟩ .nil), rfl⟩
    · intro element member
      rw [List.eq_of_mem_replicate member]
      rfl

end Container

end ByteBuffer
end ServerTech
