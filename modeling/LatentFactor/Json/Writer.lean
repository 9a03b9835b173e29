import LatentFactor.Json.Token

set_option autoImplicit false

namespace LatentFactor.Json

mutual

def toTokens : Json → List Token
  | .null => [.null]
  | .bool value => [.bool value]
  | .number numeral => [.number numeral]
  | .string pieces => [.string pieces]
  | .array [] => [.openArray, .closeArray]
  | .array (item :: items) => .openArray :: toTokens item ++ itemTokens items
  | .object [] => [.openObject, .closeObject]
  | .object ((key, value) :: members) =>
      .openObject :: .string key :: .colon :: toTokens value ++ memberTokens members

def itemTokens : List Json → List Token
  | [] => [.closeArray]
  | item :: items => .comma :: toTokens item ++ itemTokens items

def memberTokens : List (Pieces × Json) → List Token
  | [] => [.closeObject]
  | (key, value) :: members =>
      .comma :: .string key :: .colon :: toTokens value ++ memberTokens members

end

def render (value : Json) : String := String.ofList ((toTokens value).flatMap Token.write)

end LatentFactor.Json
