import LatentFactor.Proofs.Decimal.Numeral
import LatentFactor.Proofs.Sequence
import LatentFactor.Proofs.Text.Tabular
import LatentFactor.Ratings.File

set_option autoImplicit false

namespace LatentFactor

theorem Utf8.decode_cons {a : UInt8} (below : a < 0x80) (rest : List UInt8) :
    Utf8.decode (a :: rest) = prepend 1 a.toNat (Utf8.decode rest) := by
  rw [Utf8.decode.eq_def]
  exact if_pos below

theorem Utf8.decode_ascii {text : List Char} (ascii : ∀ c ∈ text, c.toNat < 128) :
    Utf8.decode (text.map fun c => UInt8.ofNat c.toNat) = .ok text := by
  induction text with
  | nil => rfl
  | cons c text ih =>
      obtain ⟨small, rest⟩ := List.forall_mem_cons.mp ascii
      have size : (UInt8.ofNat c.toNat).toNat = c.toNat := by
        rw [UInt8.toNat_ofNat']
        omega
      have below : UInt8.ofNat c.toNat < 0x80 := by
        rw [UInt8.lt_iff_toNat_lt, size]
        exact small
      rw [List.map_cons, decode_cons below, ih rest, prepend, size, Char.ofNat_toNat]

namespace RatingsFile

open Tabular

section Ids

theorem read_id_lt {text : List Char} {n : ℕ} (read : readId text = .ok n) : n < UInt64.size := by
  unfold readId at read
  split at read
  · exact Numeral.read_word_lt read
  · exact Numeral.read_word_lt read

theorem read_id_text (id : EntityId) : readId (idText id) = .ok id.toNat := by
  have small := Digits.of_nat_lt_ten id.toNat
  unfold readId
  split
  · rename_i same
    have marked : 'x' ∈ idText id := same ▸ List.mem_cons_of_mem _ List.mem_cons_self
    exact absurd (Digits.digit_of_mem_text small marked) (by decide)
  · exact Numeral.read_word_text id.toNat_lt

end Ids

section Record

variable {α β : Type} {reader : NumberReader α} {width : ℕ} {fields : List (List UInt8)}
  {rating : Rating α}

def FieldReads (read : List Char → Except NumberFault β) (fields : List (List UInt8))
    (number : ℕ) (value : β) : Prop :=
  ∃ field text, fields[number]? = some field ∧ Utf8.decode field = .ok text ∧
    read text = .ok value

-- A record as it should be: as wide as the others, all of it text, and a rating to begin with.
structure Describes (reader : NumberReader α) (width : ℕ) (fields : List (List UInt8))
    (rating : Rating α) : Prop where
  width : fields.length = width
  decoded : ∀ field ∈ fields, ∃ text, Utf8.decode field = .ok text
  user : FieldReads readId fields 0 rating.user.toNat
  item : FieldReads readId fields 1 rating.item.toNat
  value : FieldReads reader fields 2 rating.value

theorem decode_fields_eq_ok_iff {number : ℕ} {texts : List (List Char)} :
    decodeFields number fields = .ok texts ↔ fields.map Utf8.decode = texts.map .ok := by
  induction fields generalizing number texts with
  | nil => simp [decodeFields, eq_comm]
  | cons field fields ih =>
      cases first : Utf8.decode field with
      | error valid => cases texts <;> simp [decodeFields, first]
      | ok text =>
          rw [decodeFields, first]
          cases texts with
          | nil => cases decodeFields (number + 1) fields <;> simp [Except.map]
          | cons head rest =>
              rw [List.map_cons, List.map_cons, first, List.cons.injEq, Except.ok.injEq,
                ← @ih (number + 1)]
              cases decodeFields (number + 1) fields <;> simp [Except.map]

theorem read_field_eq_ok_iff {read : NumberReader β} {texts : List (List Char)} {number : ℕ}
    {value : β} (decoded : fields.map Utf8.decode = texts.map .ok) :
    readField read texts number = .ok value ↔ FieldReads read fields number value := by
  have there : (fields[number]?).map Utf8.decode = (texts[number]?).map .ok := by
    rw [← List.getElem?_map, decoded, List.getElem?_map]
  rw [readField, FieldReads]
  cases own : fields[number]? with
  | none =>
      rw [own] at there
      cases found : texts[number]? <;> simp_all
  | some field =>
      rw [own] at there
      cases found : texts[number]? with
      | none => simp_all
      | some text =>
          have decodes : Utf8.decode field = .ok text := by simpa [found] using there
          simp [map_error_eq_ok_iff, decodes]

theorem exists_texts (each : ∀ field ∈ fields, ∃ text, Utf8.decode field = .ok text) :
    ∃ texts : List (List Char), fields.map Utf8.decode = texts.map .ok := by
  obtain ⟨texts, decoded⟩ := exists_map_m each
  exact ⟨texts, map_eq_map_ok_iff.mpr (map_m_eq_ok_iff.mp decoded)⟩

theorem decodes_of_texts {texts : List (List Char)}
    (decoded : fields.map Utf8.decode = texts.map .ok) :
    ∀ field ∈ fields, ∃ text, Utf8.decode field = .ok text := by
  intro field member
  have listed := List.mem_map_of_mem (f := Utf8.decode) member
  rw [decoded] at listed
  obtain ⟨text, -, same⟩ := List.mem_map.mp listed
  exact ⟨text, same.symm⟩

theorem reads_word {number id : ℕ} (reads : FieldReads readId fields number id) :
    FieldReads readId fields number (UInt64.ofNat id).toNat := by
  obtain ⟨field, text, own, decodes, read⟩ := reads
  rw [UInt64.toNat_ofNat_of_lt' (read_id_lt read)]
  exact ⟨field, text, own, decodes, read⟩

theorem read_record_eq_ok_iff :
    readRecord reader width fields = .ok rating ↔ Describes reader width fields rating := by
  by_cases wide : fields.length = width
  · have steps : readRecord reader width fields = (do
        let texts ← decodeFields 0 fields
        let user ← readField readId texts 0
        let item ← readField readId texts 1
        let value ← readField reader texts 2
        return ⟨UInt64.ofNat user, UInt64.ofNat item, value⟩) := by
      simp [readRecord, wide]
    rw [steps]
    constructor
    · intro read
      obtain ⟨texts, decoded, read⟩ := bind_eq_ok_iff.mp read
      obtain ⟨user, userRead, read⟩ := bind_eq_ok_iff.mp read
      obtain ⟨item, itemRead, read⟩ := bind_eq_ok_iff.mp read
      obtain ⟨value, valueRead, read⟩ := bind_eq_ok_iff.mp read
      obtain rfl := Except.ok.inj read
      rw [decode_fields_eq_ok_iff] at decoded
      rw [read_field_eq_ok_iff decoded] at userRead itemRead valueRead
      exact ⟨wide, decodes_of_texts decoded, reads_word userRead, reads_word itemRead, valueRead⟩
    · intro describes
      obtain ⟨texts, decoded⟩ := exists_texts describes.decoded
      refine bind_eq_ok_iff.mpr ⟨texts, decode_fields_eq_ok_iff.mpr decoded, ?_⟩
      refine bind_eq_ok_iff.mpr ⟨_, (read_field_eq_ok_iff decoded).mpr describes.user, ?_⟩
      refine bind_eq_ok_iff.mpr ⟨_, (read_field_eq_ok_iff decoded).mpr describes.item, ?_⟩
      refine bind_eq_ok_iff.mpr ⟨_, (read_field_eq_ok_iff decoded).mpr describes.value, ?_⟩
      rw [UInt64.ofNat_toNat, UInt64.ofNat_toNat]
      rfl
  · have refused : readRecord reader width fields = .error (.fieldCount fields.length width) := by
      simp [readRecord, wide, throw, throwThe, MonadExceptOf.throw, bind, Except.bind]
    rw [refused]
    constructor
    · intro read
      cases read
    · intro describes
      exact absurd describes.width wide

end Record

section Records

variable {α : Type} {reader : NumberReader α}

def width (records : List Tabular.Record) : ℕ :=
  (records.head?.map fun record => record.fields.length).getD 0

def Rates (reader : NumberReader α) (records : List Tabular.Record) (record : Tabular.Record) :
    Prop :=
  ∃ rating, Describes reader (width records) record.fields rating

theorem read_records_eq_ok_iff {records : List Tabular.Record} {ratings : List (Rating α)} :
    readRecords reader records = .ok ratings ↔ List.Forall₂
      (fun record rating => Describes reader (width records) record.fields rating)
      records ratings := by
  rw [readRecords]
  simp only [map_m_eq_ok_iff, map_error_eq_ok_iff, read_record_eq_ok_iff]
  rfl

theorem read_records_eq_error {records : List Tabular.Record}
    (bad : ∃ record ∈ records, ¬Rates reader records record) :
    ∃ front record back fault, records = front ++ record :: back ∧
      (∀ earlier ∈ front, Rates reader records earlier) ∧ ¬Rates reader records record ∧
      readRecords reader records = .error (.input (.badRecord record.place fault)) := by
  have fails : ∃ record ∈ records, ∀ rating,
      (readRecord reader (width records) record.fields).mapError
        (fun fault => (.input (.badRecord record.place fault) : Error α)) ≠ .ok rating := by
    simpa only [ne_eq, map_error_eq_ok_iff, read_record_eq_ok_iff, Rates, not_exists] using bad
  obtain ⟨front, record, back, error, split, earlier, first, whole⟩ := map_m_eq_error fails
  obtain ⟨fault, own, rfl⟩ := map_error_eq_error_iff.mp first
  simp only [map_error_eq_ok_iff, read_record_eq_ok_iff] at earlier
  refine ⟨front, record, back, fault, split, earlier, ?_, whole⟩
  rintro ⟨rating, describes⟩
  rw [read_record_eq_ok_iff.mpr describes] at own
  cases own

end Records

section Written

variable {α : Type} {reader : NumberReader α} {writer : α → List Char}

-- The value comes back from its text, which has no character that a file gives a meaning.
structure Spells (reader : NumberReader α) (writer : α → List Char) (value : α) : Prop where
  reads : reader (writer value) = .ok value
  numeric : ∀ c ∈ writer value, Digits.Numeric c

def bytesOf (text : List Char) : List UInt8 := text.map fun c => UInt8.ofNat c.toNat

def row (writer : α → List Char) (rating : Rating α) : List (List UInt8) :=
  [bytesOf (idText rating.user), bytesOf (idText rating.item), bytesOf (writer rating.value)]

theorem write_eq (writer : α → List Char) (ratings : List (Rating α)) :
    write writer ratings = (ratings.map (row writer)).flatMap Tabular.written := by
  rw [write, List.map_flatMap, List.flatMap_map]
  refine List.flatMap_congr fun rating _ => ?_
  simp [writeLine, row, Tabular.written, Tabular.joined, bytesOf, Scanner.tab, Scanner.lineFeed]

theorem numeric_id_text (id : EntityId) : ∀ c ∈ idText id, Digits.Numeric c :=
  fun _ member => Digits.numeric_of_mem_text (Digits.of_nat_lt_ten id.toNat) member

theorem ordinary_bytes {text : List Char} (numeric : ∀ c ∈ text, Digits.Numeric c) :
    ∀ b ∈ bytesOf text, Tabular.Ordinary b ∧ b ≠ 0xEF := by
  intro b member
  obtain ⟨c, own, rfl⟩ := List.mem_map.mp member
  obtain ⟨low, high⟩ := numeric c own
  have size : (UInt8.ofNat c.toNat).toNat = c.toNat := by
    rw [UInt8.toNat_ofNat']
    omega
  have differs {other : UInt8} (outside : other.toNat < 45 ∨ 101 < other.toNat) :
      UInt8.ofNat c.toNat ≠ other := by
    rintro rfl
    omega
  refine ⟨⟨differs (by decide), ?_, differs (by decide)⟩, differs (by decide)⟩
  simp only [Scanner.isLineEnd, Bool.or_eq_false_iff, decide_eq_false_iff_not]
  exact ⟨differs (by decide), differs (by decide)⟩

theorem bytes_of_id_ne_nil (id : EntityId) : bytesOf (idText id) ≠ [] := by
  simp [bytesOf, idText, Digits.text, Digits.of_nat_ne_nil]

theorem proper_row {rating : Rating α} (spells : Spells reader writer rating.value) :
    Tabular.Row (row writer rating) where
  nonempty := List.cons_ne_nil _ _
  visible := by simp [row]
  ordinary := by
    intro field member b own
    simp only [row, List.mem_cons, List.not_mem_nil, or_false] at member
    rcases member with rfl | rfl | rfl
    · exact (ordinary_bytes (numeric_id_text rating.user) b own).1
    · exact (ordinary_bytes (numeric_id_text rating.item) b own).1
    · exact (ordinary_bytes spells.numeric b own).1

theorem decode_bytes {text : List Char} (numeric : ∀ c ∈ text, Digits.Numeric c) :
    Utf8.decode (bytesOf text) = .ok text :=
  Utf8.decode_ascii fun c member => (numeric c member).2.trans_lt (by decide)

theorem describes_row {rating : Rating α} (spells : Spells reader writer rating.value) :
    Describes reader 3 (row writer rating) rating := by
  have user := decode_bytes (numeric_id_text rating.user)
  have item := decode_bytes (numeric_id_text rating.item)
  have value := decode_bytes spells.numeric
  refine ⟨rfl, ?_, ⟨_, _, rfl, user, read_id_text _⟩, ⟨_, _, rfl, item, read_id_text _⟩,
    ⟨_, _, rfl, value, spells.reads⟩⟩
  intro field member
  simp only [row, List.mem_cons, List.not_mem_nil, or_false] at member
  rcases member with rfl | rfl | rfl
  · exact ⟨_, user⟩
  · exact ⟨_, item⟩
  · exact ⟨_, value⟩

theorem unmarked_row (writer : α → List Char) (rating : Rating α) (rest : List UInt8) :
    (Tabular.joined (row writer rating) ++ rest).head? ≠ some 0xEF := by
  obtain ⟨b, bytes, front⟩ := List.exists_cons_of_ne_nil (bytes_of_id_ne_nil rating.user)
  have plain := ordinary_bytes (numeric_id_text rating.user) b (front ▸ List.mem_cons_self)
  simpa [row, Tabular.joined, front] using plain.2

theorem read_rows {ratings : List (Rating α)} {records : List Tabular.Record}
    (spells : ∀ rating ∈ ratings, Spells reader writer rating.value)
    (rows : records.map Tabular.Record.fields = ratings.map (row writer)) :
    readRecords reader records = .ok ratings := by
  have wide : ∀ rating ∈ ratings, width records = 3 := by
    intro rating member
    obtain ⟨first, others, rfl⟩ := List.exists_cons_of_ne_nil (List.ne_nil_of_mem member)
    cases records with
    | nil => cases rows
    | cons record records =>
        have own := (List.cons.inj rows).1
        simp [width, own, row]
  have described : List.Forall₂ (Describes reader (width records))
      (records.map Tabular.Record.fields) ratings := by
    rw [rows, List.forall₂_map_left_iff, List.forall₂_same]
    intro rating member
    rw [wide rating member]
    exact describes_row (spells rating member)
  rw [read_records_eq_ok_iff]
  exact List.forall₂_map_left_iff.mp described

theorem read_eq_ok {bytes : List UInt8} {ratings : List (Rating α)}
    (records : readRecords reader (Tabular.records bytes).toList = .ok ratings) :
    read reader bytes = .ok (Store.ofList ratings) := by
  rw [read, records]
  rfl

theorem proper_rows {ratings : List (Rating α)}
    (spells : ∀ rating ∈ ratings, Spells reader writer rating.value) :
    ∀ fields ∈ ratings.map (row writer), Tabular.Row fields := by
  intro fields member
  obtain ⟨rating, own, rfl⟩ := List.mem_map.mp member
  exact proper_row (spells rating own)

theorem read_write {ratings : List (Rating α)}
    (spells : ∀ rating ∈ ratings, Spells reader writer rating.value) :
    read reader (write writer ratings) = .ok (Store.ofList ratings) := by
  refine read_eq_ok (read_rows spells ?_)
  rw [write_eq]
  refine Tabular.records_of_lines (proper_rows spells) ?_
  cases ratings with
  | nil => simp
  | cons rating ratings =>
      rw [List.map_cons, List.flatMap_cons, Tabular.written, List.append_assoc]
      exact unmarked_row writer rating _

theorem read_write_unended {ratings : List (Rating α)}
    (spells : ∀ rating ∈ ratings, Spells reader writer rating.value) :
    read reader (write writer ratings).dropLast = .ok (Store.ofList ratings) := by
  rcases List.eq_nil_or_concat' ratings with rfl | ⟨ratings, last, rfl⟩
  · exact read_write spells
  · have bytes : (write writer (ratings ++ [last])).dropLast =
        (ratings.map (row writer)).flatMap Tabular.written ++ Tabular.joined (row writer last) := by
      rw [write_eq, List.map_append, List.flatMap_append, List.map_singleton,
        List.flatMap_singleton, Tabular.written, ← List.append_assoc, List.dropLast_concat]
    refine read_eq_ok (read_rows spells ?_)
    rw [bytes, List.map_append, List.map_singleton]
    refine Tabular.records_of_unended ?_ ?_ ?_
    · exact proper_rows fun rating member => spells rating (List.mem_append_left _ member)
    · exact proper_row (spells last (by simp))
    · cases ratings with
      | nil => simpa using unmarked_row writer last []
      | cons rating ratings =>
          rw [List.map_cons, List.flatMap_cons, Tabular.written, List.append_assoc,
            List.append_assoc]
          exact unmarked_row writer rating _

theorem read_eq_error {bytes : List UInt8} {e : Error α}
    (records : readRecords reader (Tabular.records bytes).toList = .error e) :
    read reader bytes = .error e := by
  rw [read, records]
  rfl

end Written

def shortest (value : Float) : List Char := (Numeral.shortText value).toList

theorem spells_shortest {value : Float} (finite : value.isFinite = true) :
    Spells Numeral.readFloat shortest value :=
  let ⟨reads, numeric⟩ := Numeral.read_write finite
  ⟨reads, numeric⟩

-- Of ratings with finite values nothing is lost in a file. Of a file with a record that is no
-- rating nothing is kept: the first such record is the error.
theorem reads_back_or_not_at_all :
    (∀ ratings : List (Rating Float), (∀ rating ∈ ratings, rating.value.isFinite = true) →
      read Numeral.readFloat (write shortest ratings) = .ok (Store.ofList ratings) ∧
      read Numeral.readFloat (write shortest ratings).dropLast = .ok (Store.ofList ratings)) ∧
    ∀ bytes : List UInt8,
      let records := (Tabular.records bytes).toList
      (∃ record ∈ records, ¬Rates Numeral.readFloat records record) →
        ∃ front record back fault, records = front ++ record :: back ∧
          (∀ earlier ∈ front, Rates Numeral.readFloat records earlier) ∧
          ¬Rates Numeral.readFloat records record ∧
          read Numeral.readFloat bytes = .error (.input (.badRecord record.place fault)) := by
  refine ⟨fun ratings finite => ?_, fun bytes bad => ?_⟩
  · have spells : ∀ rating ∈ ratings, Spells Numeral.readFloat shortest rating.value :=
      fun rating member => spells_shortest (finite rating member)
    exact ⟨read_write spells, read_write_unended spells⟩
  · obtain ⟨front, record, back, fault, split, earlier, own, whole⟩ := read_records_eq_error bad
    exact ⟨front, record, back, fault, split, earlier, own, read_eq_error whole⟩

-- The third rating is for the pair of the first, and the second record has a letter for an item.
theorem reads_back_or_not_at_all_second_record :
    let ratings : List (Rating Float) :=
      [⟨18446744073709551615, 0, 0.1⟩, ⟨7, 7, Float.ofBits 1⟩, ⟨18446744073709551615, 0, -0⟩]
    let bytes : List UInt8 := [49, 9, 50, 9, 51, 10, 52, 9, 120, 9, 54, 10, 55, 9, 56, 9, 57, 10]
    let records := (Tabular.records bytes).toList
    (∀ rating ∈ ratings, rating.value.isFinite = true) ∧
      read Numeral.readFloat (write shortest ratings) = .ok (Store.ofList ratings) ∧
      (∃ record ∈ records, ¬Rates Numeral.readFloat records record) ∧
      ∃ place fault, read Numeral.readFloat bytes = .error (.input (.badRecord place fault)) := by
  intro ratings bytes records
  have finite : ∀ rating ∈ ratings, rating.value.isFinite = true := by decide
  have listed : records = [⟨⟨0, 1, 0⟩, [[49], [50], [51]]⟩, ⟨⟨1, 2, 6⟩, [[52], [120], [54]]⟩,
    ⟨⟨2, 3, 12⟩, [[55], [56], [57]]⟩] := by decide
  have bad : ∃ record ∈ records, ¬Rates Numeral.readFloat records record := by
    refine ⟨⟨⟨1, 2, 6⟩, [[52], [120], [54]]⟩, by simp [listed], ?_⟩
    rintro ⟨rating, describes⟩
    have refused : readRecord Numeral.readFloat (width records) [[52], [120], [54]] =
        .error (.badNumber 1 .invalidDigit) := by
      rw [listed]
      rfl
    rw [read_record_eq_ok_iff.mpr describes] at refused
    cases refused
  obtain ⟨front, record, back, fault, -, -, -, failed⟩ := reads_back_or_not_at_all.2 bytes bad
  exact ⟨finite, (reads_back_or_not_at_all.1 ratings finite).1, bad, record.place, fault, failed⟩

end RatingsFile
end LatentFactor
