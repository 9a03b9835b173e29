import LatentFactor.Json.Reader
import LatentFactor.Json.Writer
import LatentFactor.Proofs.Json.Token

set_option autoImplicit false

namespace LatentFactor.Json

inductive Proper : Json → Prop
  | null : Proper .null
  | bool (value : Bool) : Proper (.bool value)
  | number {numeral : Numeral} (grammatical : numeral.Proper) : Proper (.number numeral)
  | string {pieces : Pieces} (each : ∀ piece ∈ pieces, piece.Proper) : Proper (.string pieces)
  | array {items : List Json} (each : ∀ item ∈ items, Proper item) : Proper (.array items)
  | object {members : Members} (keys : ∀ member ∈ members, ∀ piece ∈ member.1, piece.Proper)
      (values : ∀ member ∈ members, Proper member.2) : Proper (.object members)

section Scanning

variable {front back : List Token} {rest : List Char}

-- A text that begins with these tokens falls into them and the tokens of the rest.
def Scans (front : List Token) (rest : List Char) : Prop :=
  tokens (front.flatMap Token.write ++ rest) = (tokens rest).map (front ++ ·)

theorem scans_append (first : Scans front (back.flatMap Token.write ++ rest))
    (second : Scans back rest) : Scans (front ++ back) rest := by
  rw [Scans, List.flatMap_append, List.append_assoc, first, second, Option.map_map]
  congr 1
  funext found
  exact (List.append_assoc ..).symm

theorem scans_nil (rest : List Char) : Scans [] rest := by simp [Scans]

theorem scans_cons {token : Token} (proper : token.Proper)
    (delimited : token.Delimited (front.flatMap Token.write ++ rest)) (others : Scans front rest) :
    Scans (token :: front) rest := by
  rw [Scans, List.flatMap_cons, List.append_assoc,
    tokens_of_next (Token.next_write proper delimited), others, Option.map_map]
  rfl

theorem scans_token {token : Token} (proper : token.Proper) (delimited : token.Delimited rest) :
    Scans [token] rest :=
  scans_cons proper delimited (scans_nil rest)

theorem ends_items (items : List Json) (rest : List Char) :
    Token.Ends ((itemTokens items).flatMap Token.write ++ rest) := by
  cases items with
  | nil =>
      rintro c ⟨⟩
      decide
  | cons item items =>
      rw [itemTokens]
      rintro c ⟨⟩
      decide

theorem ends_members (members : Members) (rest : List Char) :
    Token.Ends ((memberTokens members).flatMap Token.write ++ rest) := by
  cases members with
  | nil =>
      rintro c ⟨⟩
      decide
  | cons member members =>
      rw [memberTokens]
      rintro c ⟨⟩
      decide

theorem scans_items {items : List Json}
    (each : ∀ item ∈ items, ∀ rest, Token.Ends rest → Scans (toTokens item) rest) :
    Scans (itemTokens items) rest := by
  induction items with
  | nil =>
      rw [itemTokens]
      exact scans_token trivial trivial
  | cons item items ih =>
      obtain ⟨own, others⟩ := List.forall_mem_cons.mp each
      rw [itemTokens]
      exact scans_append (scans_cons trivial trivial (own _ (ends_items items rest))) (ih others)

theorem scans_member {key : Pieces} {value : Json} (named : ∀ piece ∈ key, piece.Proper)
    (own : Scans (toTokens value) rest) :
    Scans (.string key :: .colon :: toTokens value) rest :=
  scans_cons named trivial (scans_cons trivial trivial own)

theorem scans_members {members : Members}
    (keys : ∀ member ∈ members, ∀ piece ∈ member.1, piece.Proper)
    (each : ∀ member ∈ members, ∀ rest, Token.Ends rest → Scans (toTokens member.2) rest) :
    Scans (memberTokens members) rest := by
  induction members with
  | nil =>
      rw [memberTokens]
      exact scans_token trivial trivial
  | cons member members ih =>
      obtain ⟨named, names⟩ := List.forall_mem_cons.mp keys
      obtain ⟨own, others⟩ := List.forall_mem_cons.mp each
      rw [memberTokens]
      refine scans_append (scans_cons trivial trivial (scans_member named ?_)) (ih names others)
      exact own _ (ends_members members rest)

theorem scans_value {value : Json} (proper : Proper value) (ends : Token.Ends rest) :
    Scans (toTokens value) rest := by
  induction proper generalizing rest with
  | null => exact scans_token trivial trivial
  | bool value => exact scans_token trivial trivial
  | number grammatical => exact scans_token grammatical ends
  | string each => exact scans_token each trivial
  | @array items each ih =>
      cases items with
      | nil => exact scans_cons trivial trivial (scans_token trivial trivial)
      | cons item items =>
          obtain ⟨own, others⟩ := List.forall_mem_cons.mp ih
          rw [toTokens]
          refine scans_append (scans_cons trivial trivial (own (ends_items items rest))) ?_
          exact scans_items fun item member rest => others item member
  | @object members keys _ ih =>
      cases members with
      | nil => exact scans_cons trivial trivial (scans_token trivial trivial)
      | cons member members =>
          obtain ⟨named, names⟩ := List.forall_mem_cons.mp keys
          obtain ⟨own, others⟩ := List.forall_mem_cons.mp ih
          rw [toTokens]
          refine scans_append (scans_cons trivial trivial (scans_member named ?_)) ?_
          · exact own (ends_members members rest)
          · exact scans_members names fun member listed rest => others member listed

end Scanning

section Building

variable {stack : List Frame}

def Leads (front : List Token) (reader reached : Reader) : Prop :=
  front.foldlM Reader.step reader = some reached

theorem leads_append {front back : List Token} {reader between reached : Reader}
    (first : Leads front reader between) (second : Leads back between reached) :
    Leads (front ++ back) reader reached := by
  rw [Leads, List.foldlM_append, first]
  exact second

theorem leads_cons {token : Token} {front : List Token} {reader between reached : Reader}
    (step : reader.step token = some between) (others : Leads front between reached) :
    Leads (token :: front) reader reached := by
  rw [Leads, List.foldlM_cons, step]
  exact others

theorem leads_token {token : Token} {reader reached : Reader}
    (step : reader.step token = some reached) : Leads [token] reader reached :=
  leads_cons step rfl

-- Inside an array the first value may come at once, as no value begins with the end of the array.
theorem leads_first_item {value : Json} {reached : Reader}
    (leads : Leads (toTokens value) ⟨.array [] :: stack, .value⟩ reached) :
    Leads (toTokens value) ⟨stack, .firstItem⟩ reached := by
  cases value with
  | array items => cases items <;> exact leads
  | object members => cases members <;> exact leads
  | _ => exact leads

theorem leads_items {items : List Json}
    (each : ∀ item ∈ items, ∀ stack, Leads (toTokens item) ⟨stack, .value⟩ ⟨stack, .after item⟩)
    (done : List Json) (last : Json) :
    Leads (itemTokens items) ⟨.array done :: stack, .after last⟩
      ⟨stack, .after (.array (done.reverse ++ last :: items))⟩ := by
  induction items generalizing done last with
  | nil =>
      rw [itemTokens, ← List.reverse_cons]
      exact leads_token rfl
  | cons item items ih =>
      obtain ⟨own, others⟩ := List.forall_mem_cons.mp each
      rw [itemTokens]
      refine leads_append (leads_cons rfl (own _)) ?_
      have rest := ih others (last :: done) item
      simpa using rest

theorem leads_members {members : Members}
    (each : ∀ member ∈ members, ∀ stack,
      Leads (toTokens member.2) ⟨stack, .value⟩ ⟨stack, .after member.2⟩)
    (done : Members) (key : Pieces) (last : Json) :
    Leads (memberTokens members) ⟨.object done key :: stack, .after last⟩
      ⟨stack, .after (.object (done.reverse ++ (key, last) :: members))⟩ := by
  induction members generalizing done key last with
  | nil =>
      rw [memberTokens, ← List.reverse_cons]
      exact leads_token rfl
  | cons member members ih =>
      obtain ⟨own, others⟩ := List.forall_mem_cons.mp each
      rw [memberTokens]
      refine leads_append (leads_cons rfl (leads_cons rfl (leads_cons rfl (own _)))) ?_
      have rest := ih others ((key, last) :: done) member.1 member.2
      simpa using rest

theorem leads_value {value : Json} (proper : Proper value) (stack : List Frame) :
    Leads (toTokens value) ⟨stack, .value⟩ ⟨stack, .after value⟩ := by
  induction proper generalizing stack with
  | null => exact leads_token rfl
  | bool value => exact leads_token rfl
  | number _ => exact leads_token rfl
  | string _ => exact leads_token rfl
  | @array items _ ih =>
      cases items with
      | nil => exact leads_cons rfl (leads_token rfl)
      | cons item items =>
          obtain ⟨own, others⟩ := List.forall_mem_cons.mp ih
          rw [toTokens]
          refine leads_append (leads_cons rfl (leads_first_item (own _))) ?_
          exact leads_items others [] item
  | @object members _ _ ih =>
      cases members with
      | nil => exact leads_cons rfl (leads_token rfl)
      | cons member members =>
          obtain ⟨own, others⟩ := List.forall_mem_cons.mp ih
          rw [toTokens]
          refine leads_append (leads_cons rfl (leads_cons rfl (leads_cons rfl (own _)))) ?_
          exact leads_members others [] member.1 member.2

end Building

theorem parse_render {value : Json} (proper : Proper value) : parse value.render = some value := by
  have ends : Token.Ends [] := by simp [Token.Ends]
  have scans := scans_value proper ends
  have leads := leads_value proper []
  rw [Scans, List.append_nil, tokens, Option.map_some, List.append_nil] at scans
  rw [Leads] at leads
  rw [parse, render, String.toList_ofList, scans, Reader.start]
  simp only [Option.bind_eq_bind, Option.bind_some, leads]
  rfl

end LatentFactor.Json
