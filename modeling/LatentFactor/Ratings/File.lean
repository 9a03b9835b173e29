import LatentFactor.Decimal.Reader
import LatentFactor.Ratings.Store
import LatentFactor.Text.Tabular
import LatentFactor.Text.Utf8

set_option autoImplicit false

namespace LatentFactor.RatingsFile

variable {α : Type}

-- An id in decimal, or in hexadecimal after a lower-case mark.
def readId : List Char → Except NumberFault Nat
  | '0' :: 'x' :: rest => Numeral.readWord 16 rest
  | text => Numeral.readWord 10 text

def decodeFields : Nat → List (List UInt8) → Except RecordFault (List (List Char))
  | _, [] => .ok []
  | number, field :: fields =>
      match Utf8.decode field with
      | .error valid => .error (.invalidUtf8 number valid)
      | .ok text => (decodeFields (number + 1) fields).map (text :: ·)

def readField {β : Type} (reader : NumberReader β) (texts : List (List Char)) (number : Nat) :
    Except RecordFault β :=
  match texts[number]? with
  | none => .error (.tooFewFields texts.length)
  | some text => (reader text).mapError (.badNumber number)

def readRecord (reader : NumberReader α) (expected : Nat) (fields : List (List UInt8)) :
    Except RecordFault (Rating α) := do
  if fields.length ≠ expected then throw (.fieldCount fields.length expected)
  let texts ← decodeFields 0 fields
  let user ← readField readId texts 0
  let item ← readField readId texts 1
  let value ← readField reader texts 2
  return ⟨UInt64.ofNat user, UInt64.ofNat item, value⟩

def readRecords (reader : NumberReader α) (records : List Tabular.Record) :
    Except (Error α) (List (Rating α)) :=
  let expected := (records.head?.map fun record => record.fields.length).getD 0
  records.mapM fun record =>
    (readRecord reader expected record.fields).mapError fun fault =>
      .input (.badRecord record.place fault)

def read (reader : NumberReader α) (bytes : List UInt8) : Except (Error α) (Store α) := do
  return Store.ofList (← readRecords reader (Tabular.records bytes).toList)

def idText (id : EntityId) : List Char := Digits.text (Digits.ofNat id.toNat)

def writeLine (writer : α → List Char) (rating : Rating α) : List Char :=
  idText rating.user ++ '\t' :: idText rating.item
    ++ '\t' :: writer rating.value ++ ['\n']

def write (writer : α → List Char) (ratings : List (Rating α)) : List UInt8 :=
  (ratings.flatMap (writeLine writer)).map fun c => UInt8.ofNat c.toNat

end LatentFactor.RatingsFile
