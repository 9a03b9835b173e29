import LatentFactor.Json.Token

set_option autoImplicit false

namespace LatentFactor.Json

abbrev Members := List (Pieces × Json)

inductive Frame where
  | array (done : List Json)
  | object (done : Members) (key : Pieces)

inductive Expectation where
  | value
  | firstItem
  | firstKey
  | key (done : Members)
  | colon (done : Members) (key : Pieces)
  | after (value : Json)

structure Reader where
  stack : List Frame
  expectation : Expectation

namespace Reader

def start : Reader := ⟨[], .value⟩

def beginValue (stack : List Frame) : Token → Option Reader
  | .openArray => some ⟨stack, .firstItem⟩
  | .openObject => some ⟨stack, .firstKey⟩
  | .null => some ⟨stack, .after .null⟩
  | .bool value => some ⟨stack, .after (.bool value)⟩
  | .number numeral => some ⟨stack, .after (.number numeral)⟩
  | .string pieces => some ⟨stack, .after (.string pieces)⟩
  | _ => none

def afterValue (value : Json) : List Frame → Token → Option Reader
  | .array done :: stack, .comma => some ⟨.array (value :: done) :: stack, .value⟩
  | .array done :: stack, .closeArray => some ⟨stack, .after (.array (value :: done).reverse)⟩
  | .object done key :: stack, .comma => some ⟨stack, .key ((key, value) :: done)⟩
  | .object done key :: stack, .closeObject =>
      some ⟨stack, .after (.object ((key, value) :: done).reverse)⟩
  | _, _ => none

def step (reader : Reader) (token : Token) : Option Reader :=
  let stack := reader.stack
  match reader.expectation, token with
  | .value, token => beginValue stack token
  | .firstItem, .closeArray => some ⟨stack, .after (.array [])⟩
  | .firstItem, token => beginValue (.array [] :: stack) token
  | .firstKey, .closeObject => some ⟨stack, .after (.object [])⟩
  | .firstKey, .string key => some ⟨stack, .colon [] key⟩
  | .key done, .string key => some ⟨stack, .colon done key⟩
  | .colon done key, .colon => some ⟨.object done key :: stack, .value⟩
  | .after value, token => afterValue value stack token
  | _, _ => none

def finish : Reader → Option Json
  | ⟨[], .after value⟩ => some value
  | _ => none

end Reader

def parse (text : String) : Option Json := do
  let reader ← (← tokens text.toList).foldlM Reader.step Reader.start
  reader.finish

end LatentFactor.Json
