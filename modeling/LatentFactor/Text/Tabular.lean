import LatentFactor.Error

/-!
Records of tab-separated fields. A record ends with a line feed, a carriage return, or both; empty
lines are passed over. A field that opens with a quotation mark may hold tabs and line ends; inside
it a doubled mark stands for one, and what follows the closing mark is taken as it is.
-/

set_option autoImplicit false

namespace LatentFactor.Tabular

structure Record where
  place : RecordPlace
  fields : List (List UInt8)
deriving DecidableEq, Repr

inductive Mode where
  | recordStart
  | fieldStart
  | plain
  | quoted
  | closing
deriving DecidableEq, Repr

-- The bytes of the current field and the fields before it are kept latest first. `place` is where
-- the reader stood when it began the current record.
structure Scanner where
  mode : Mode
  place : RecordPlace
  line : Nat
  byte : Nat
  field : List UInt8
  fields : List (List UInt8)
  records : Array Record

namespace Scanner

def tab : UInt8 := 9
def lineFeed : UInt8 := 10
def carriageReturn : UInt8 := 13
def quotation : UInt8 := 34

def start (byte : Nat) : Scanner := ⟨.recordStart, ⟨0, 1, 0⟩, 1, byte, [], [], #[]⟩

def isLineEnd (b : UInt8) : Bool := b = lineFeed || b = carriageReturn

def add (scanner : Scanner) (b : UInt8) : Scanner :=
  { scanner with mode := .plain, field := b :: scanner.field }

def endField (scanner : Scanner) : Scanner :=
  { scanner with
    mode := .fieldStart
    field := []
    fields := scanner.field.reverse :: scanner.fields }

-- The next record begins where this one ended, even if empty lines follow.
def endRecord (scanner : Scanner) : Scanner :=
  { mode := .recordStart
    place := ⟨scanner.place.record + 1, scanner.line, scanner.byte⟩
    line := scanner.line
    byte := scanner.byte
    field := []
    fields := []
    records := scanner.records.push
      ⟨scanner.place, (scanner.field.reverse :: scanner.fields).reverse⟩ }

def unquoted (scanner : Scanner) (b : UInt8) : Scanner :=
  if b = tab then scanner.endField
  else if isLineEnd b then scanner.endRecord
  else scanner.add b

def opened (scanner : Scanner) (b : UInt8) : Scanner :=
  if b = quotation then { scanner with mode := .quoted } else scanner.unquoted b

def pass (scanner : Scanner) (b : UInt8) : Scanner :=
  { scanner with
    byte := scanner.byte + 1
    line := if b = lineFeed then scanner.line + 1 else scanner.line }

def step (before : Scanner) (b : UInt8) : Scanner :=
  let scanner := before.pass b
  match scanner.mode with
  | .recordStart => if isLineEnd b then scanner else scanner.opened b
  | .fieldStart => scanner.opened b
  | .plain => scanner.unquoted b
  | .quoted =>
      if b = quotation then { scanner with mode := .closing }
      else { scanner with field := b :: scanner.field }
  | .closing =>
      if b = quotation then { scanner with mode := .quoted, field := b :: scanner.field }
      else scanner.unquoted b

def finish (scanner : Scanner) : Array Record :=
  if scanner.mode = .recordStart then scanner.records else scanner.endRecord.records

end Scanner

-- A byte order mark at the start is no part of the first field.
def records : List UInt8 → Array Record
  | 0xEF :: 0xBB :: 0xBF :: rest => (rest.foldl Scanner.step (Scanner.start 3)).finish
  | bytes => (bytes.foldl Scanner.step (Scanner.start 0)).finish

end LatentFactor.Tabular
