import LatentFactor.Proofs.Json.Members

set_option autoImplicit false

namespace LatentFactor

variable {α : Type}

namespace Duration

-- A second's worth of nanoseconds and more carry over.
structure Parts (duration : Duration) (seconds nanoseconds : ℕ) : Prop where
  whole : seconds < UInt64.size
  part : nanoseconds < UInt32.size
  sum : duration.nanoseconds = seconds * perSecond + nanoseconds

inductive Given : Option Duration → Json → Prop
  | none : Given none .null
  | array {duration : Duration} {seconds nanoseconds : ℕ}
      (parts : duration.Parts seconds nanoseconds) :
      Given (some duration) (.array [.nat seconds, .nat nanoseconds])
  | object {duration : Duration} {seconds nanoseconds : ℕ} {written : Json.Members}
      {members : List (String × Json)} (parts : duration.Parts seconds nanoseconds)
      (named : Json.textMembers written = some members)
      (order : members.Perm [("secs", .nat seconds), ("nanos", .nat nanoseconds)]) :
      Given (some duration) (.object written)

theorem of_nanoseconds (duration : Duration) :
    ofNanoseconds? duration.nanoseconds = some duration := by
  rw [ofNanoseconds?, dif_pos duration.bounded]

theorem of_fields_eq_some_iff {duration : Duration} {seconds nanoseconds : Json} :
    ofFields? seconds nanoseconds = some duration ↔
      ∃ whole, seconds.toWord? UInt64.size = some whole ∧
        ∃ part, nanoseconds.toWord? UInt32.size = some part ∧
          ofParts? whole part = some duration := by
  simp only [ofFields?, Option.bind_eq_bind, Option.bind_eq_some_iff]

theorem of_fields_parts {duration : Duration} {seconds nanoseconds : ℕ}
    (parts : duration.Parts seconds nanoseconds) :
    ofFields? (.nat seconds) (.nat nanoseconds) = some duration := by
  refine of_fields_eq_some_iff.mpr
    ⟨_, Json.to_word_nat parts.whole, _, Json.to_word_nat parts.part, ?_⟩
  rw [ofParts?, ← parts.sum, of_nanoseconds]

theorem parts_self (duration : Duration) :
    duration.Parts duration.seconds duration.subsecond where
  whole := Nat.div_lt_of_lt_mul (Nat.mul_comm .. ▸ duration.bounded)
  part := (Nat.mod_lt _ (by decide)).trans (by decide)
  sum := (Nat.div_add_mod' _ _).symm

theorem given_to_json (limit : Option Duration) : Given limit (Json.ofOption toJson limit) := by
  cases limit with
  | none => exact .none
  | some duration =>
      exact .object duration.parts_self (Json.text_members_record _) (List.Perm.refl _)

theorem to_duration_object {seconds nanoseconds : Json} {written : Json.Members}
    {members : List (String × Json)} (named : Json.textMembers written = some members)
    (order : members.Perm [("secs", seconds), ("nanos", nanoseconds)]) :
    Json.toDuration? (.object written) = ofFields? seconds nanoseconds := by
  have known : (members.all fun member => member.1 = "secs" || member.1 = "nanos") = true := by
    refine List.all_eq_true.mpr fun member inside => ?_
    have listed := order.mem_iff.mp inside
    simp only [List.mem_cons, List.not_mem_nil, or_false] at listed
    obtain rfl | rfl := listed
    · rfl
    · rfl
  have distinct : ["secs", "nanos"].Nodup := by decide
  have gives := Json.gives_of_perm [] order
  have first := Json.required_of_gives gives distinct List.mem_cons_self List.not_mem_nil
  have second := Json.required_of_gives gives distinct
    (List.mem_cons_of_mem _ List.mem_cons_self) List.not_mem_nil
  simp only [Json.toDuration?, named, Option.bind_eq_bind, Option.bind_some, known, if_true,
    first, second]

theorem read_given {limit : Option Duration} {value : Json} (given : Given limit value) :
    Json.toOption? Json.toDuration? value = some limit := by
  cases given with
  | none => rfl
  | array parts =>
      change (ofFields? _ _).map some = _
      rw [of_fields_parts parts]
      rfl
  | object parts named order =>
      change (Json.toDuration? _).map some = _
      rw [to_duration_object named order, of_fields_parts parts]
      rfl

end Duration

namespace Settings

-- Counts are words of 64 bits.
structure Fits (settings : Settings α) : Prop where
  rank : settings.rank < UInt64.size
  iterations : settings.iterations < UInt64.size
  workers : settings.workers < UInt64.size
  passes : settings.passes < UInt64.size

structure Finite (settings : Settings Float) : Prop where
  lambda : settings.lambda.isFinite = true
  alpha : settings.alpha.isFinite = true

def names : List String :=
  ["num_features", "lambda", "num_iterations", "uses_implicit_feedback", "alpha", "num_workers",
    "seed", "refinement_passes", "phase_timeout"]

def values (settings : Settings α) (lambda alpha timeLimit : Json) : List Json :=
  [.nat settings.rank, lambda, .nat settings.iterations, .bool settings.implicit, alpha,
    .nat settings.workers, Json.ofOption (fun seed => .nat seed.toNat) settings.seed,
    .nat settings.passes, timeLimit]

def optionals : List String := ["seed", "phase_timeout"]

-- The values of all fields, numbers and time limit as they may be given.
inductive Spelled (form : NumberForm α) (settings : Settings α) : List Json → Prop
  | intro {lambda alpha : Numeral} {timeLimit : Json}
      (first : form.read lambda = some settings.lambda)
      (second : form.read alpha = some settings.alpha)
      (given : Duration.Given settings.timeLimit timeLimit) :
      Spelled form settings (settings.values (.number lambda) (.number alpha) timeLimit)

inductive Spells (form : NumberForm α) (settings : Settings α) : Json → Prop
  | array {values : List Json} (spelled : settings.Spelled form values) :
      Spells form settings (.array values)
  | object {values : List Json} {written : Json.Members} {members : List (String × Json)}
      (spelled : settings.Spelled form values) (named : Json.textMembers written = some members)
      (gives : Json.Gives optionals (names.zip values) members) :
      Spells form settings (.object written)

theorem to_json_eq (form : NumberForm α) (settings : Settings α) :
    settings.toJson form = .record (names.zip (settings.values
      (Json.ofOption Json.number (form.write settings.lambda))
      (Json.ofOption Json.number (form.write settings.alpha))
      (Json.ofOption Duration.toJson settings.timeLimit))) := rfl

section Reading

variable {form : NumberForm α} {settings : Settings α}

theorem of_fields_eq_some_iff {rank lambda iterations implicit alpha workers seed passes
    timeLimit : Json} :
    ofFields? form rank lambda iterations implicit alpha workers seed passes timeLimit =
        some settings ↔
      size? rank = some settings.rank ∧ lambda.toScalar? form = some settings.lambda ∧
        size? iterations = some settings.iterations ∧ implicit.toBool? = some settings.implicit ∧
        alpha.toScalar? form = some settings.alpha ∧ size? workers = some settings.workers ∧
        (seed.toOption? size?).map (·.map UInt64.ofNat) = some settings.seed ∧
        size? passes = some settings.passes ∧
        timeLimit.toOption? Json.toDuration? = some settings.timeLimit := by
  obtain ⟨⟩ := settings
  simp only [ofFields?, Option.bind_eq_bind, Option.bind_eq_some_iff, Option.map_eq_some_iff]
  constructor
  · rintro ⟨_, one, _, two, _, three, _, four, _, five, _, six, _, seven, _, eight, _, nine, same⟩
    cases same
    exact ⟨one, two, three, four, five, six, ⟨_, seven, rfl⟩, eight, nine⟩
  · rintro ⟨one, two, three, four, five, six, ⟨_, seven, rfl⟩, eight, nine⟩
    exact ⟨_, one, _, two, _, three, _, four, _, five, _, six, _, seven, _, eight, _, nine, rfl⟩

theorem of_json_object {rank lambda iterations implicit alpha workers seed passes timeLimit : Json}
    {written : Json.Members} {members : List (String × Json)}
    (named : Json.textMembers written = some members)
    (gives : Json.Gives optionals (names.zip [rank, lambda, iterations, implicit, alpha, workers,
      seed, passes, timeLimit]) members) :
    ofJson? form (.object written) =
      ofFields? form rank lambda iterations implicit alpha workers seed passes timeLimit := by
  have distinct : names.Nodup := by decide
  have required := fun name value => @Json.required_of_gives _ _ _ name value gives distinct
  have optional := fun name value => @Json.optional_of_gives _ _ _ name value gives distinct
  simp only [ofJson?, named, Option.bind_eq_bind, Option.bind_some,
    required "num_features" rank (by simp [names]) (by decide),
    required "lambda" lambda (by simp [names]) (by decide),
    required "num_iterations" iterations (by simp [names]) (by decide),
    required "uses_implicit_feedback" implicit (by simp [names]) (by decide),
    required "alpha" alpha (by simp [names]) (by decide),
    required "num_workers" workers (by simp [names]) (by decide),
    optional "seed" seed (by simp [names]),
    required "refinement_passes" passes (by simp [names]) (by decide),
    optional "phase_timeout" timeLimit (by simp [names])]

theorem of_fields_spelled (fits : settings.Fits) {lambda alpha : Numeral} {timeLimit : Json}
    (first : form.read lambda = some settings.lambda)
    (second : form.read alpha = some settings.alpha)
    (given : Duration.Given settings.timeLimit timeLimit) :
    ofFields? form (.nat settings.rank) (.number lambda) (.nat settings.iterations)
      (.bool settings.implicit) (.number alpha) (.nat settings.workers)
      (Json.ofOption (fun seed => .nat seed.toNat) settings.seed) (.nat settings.passes) timeLimit =
      some settings := by
  refine of_fields_eq_some_iff.mpr ⟨Json.to_word_nat fits.rank, first,
    Json.to_word_nat fits.iterations, rfl, second, Json.to_word_nat fits.workers, ?_,
    Json.to_word_nat fits.passes, Duration.read_given given⟩
  cases settings.seed with
  | none => rfl
  | some seed =>
      change ((size? (.nat seed.toNat)).map some).map _ = _
      rw [size?, Json.to_word_nat seed.toNat_lt, Option.map_some, Option.map_some, Option.map_some,
        UInt64.ofNat_toNat]

theorem of_json_spells (fits : settings.Fits) {value : Json} (spells : settings.Spells form value) :
    ofJson? form value = some settings := by
  cases spells with
  | array spelled =>
      obtain ⟨first, second, given⟩ := spelled
      exact of_fields_spelled fits first second given
  | object spelled named gives =>
      obtain ⟨first, second, given⟩ := spelled
      rw [values] at gives
      rw [of_json_object named gives, of_fields_spelled fits first second given]

theorem fields_of_json {value : Json} (read : ofJson? form value = some settings) :
    ∃ rank lambda iterations implicit alpha workers seed passes timeLimit,
      ofFields? form rank lambda iterations implicit alpha workers seed passes timeLimit =
        some settings := by
  rw [ofJson?.eq_def] at read
  split at read
  · exact ⟨_, _, _, _, _, _, _, _, _, read⟩
  · simp only [Option.bind_eq_bind, Option.bind_eq_some_iff] at read
    obtain ⟨_, -, rank, -, lambda, -, iterations, -, implicit, -, alpha, -, workers, -, seed, -,
      passes, -, timeLimit, -, read⟩ := read
    exact ⟨rank, lambda, iterations, implicit, alpha, workers, seed, passes, timeLimit, read⟩
  · cases read

theorem fits_of_fields {rank lambda iterations implicit alpha workers seed passes timeLimit : Json}
    (read : ofFields? form rank lambda iterations implicit alpha workers seed passes timeLimit =
      some settings) : settings.Fits := by
  obtain ⟨rank, -, iterations, -, -, workers, -, passes, -⟩ := of_fields_eq_some_iff.mp read
  exact ⟨Json.lt_of_to_word rank, Json.lt_of_to_word iterations, Json.lt_of_to_word workers,
    Json.lt_of_to_word passes⟩

end Reading

section Writing

theorem proper_limit (limit : Option Duration) : (Json.ofOption Duration.toJson limit).Proper := by
  refine Json.proper_of_option fun duration _ => Json.proper_record ?_ ?_
  · simp
  · simp [Json.proper_nat]

theorem proper_scalar (x : Float) :
    (Json.ofOption Json.number (NumberForm.binary64.write x)).Proper :=
  Json.proper_of_option fun _ written => .number (Numeral.proper_of_float written)

theorem proper_seed (seed : Option UInt64) :
    (Json.ofOption (fun seed => .nat seed.toNat) seed).Proper :=
  Json.proper_of_option fun _ _ => Json.proper_nat _

theorem proper_to_json (settings : Settings Float) : (settings.toJson .binary64).Proper := by
  rw [to_json_eq]
  refine Json.proper_record ?_ ?_
  · simp [names, values]
  · simp [names, values, Json.proper_nat, Json.Proper.bool, proper_scalar, proper_seed,
      proper_limit]

end Writing

section Binary64

variable {settings : Settings Float} {text : String}

theorem read_write_scalar {x : Float} (finite : x.isFinite = true) :
    ∃ numeral, NumberForm.binary64.write x = some numeral ∧
      NumberForm.binary64.read numeral = some x := by
  obtain ⟨negative, mantissa, exponent, value⟩ := Binary64.value_of_isFinite finite
  obtain ⟨numeral, written⟩ : ∃ numeral, Numeral.ofFloat? Numeral.interchange x = some numeral :=
    ⟨_, by rw [Numeral.ofFloat?, value]⟩
  obtain ⟨-, -, -, same⟩ := Numeral.shows_of_float written
  refine ⟨numeral, written, ?_⟩
  change Option.guard Float.isFinite numeral.toFloat = some x
  rw [same, Option.guard, if_pos finite]

theorem write_scalar_of_infinite {x : Float} (infinite : ¬x.isFinite = true) :
    NumberForm.binary64.write x = none := by
  change Numeral.ofFloat? Numeral.interchange x = none
  rw [Numeral.ofFloat?]
  split
  · rename_i value
    exact absurd (Binary64.isFinite_of_value value) infinite
  · rfl

theorem isFinite_of_to_scalar {x : Float} {value : Json}
    (read : value.toScalar? .binary64 = some x) : x.isFinite = true := by
  rw [Json.toScalar?.eq_def] at read
  split at read
  · change Option.guard Float.isFinite _ = some x at read
    obtain ⟨same, finite⟩ := Option.guard_eq_some_iff.mp read
    exact same ▸ finite
  · cases read

theorem finite_of_fields
    {rank lambda iterations implicit alpha workers seed passes timeLimit : Json}
    (read : ofFields? .binary64 rank lambda iterations implicit alpha workers seed passes
      timeLimit = some settings) : settings.Finite := by
  obtain ⟨-, lambda, -, -, alpha, -, -, -, -⟩ := of_fields_eq_some_iff.mp read
  exact ⟨isFinite_of_to_scalar lambda, isFinite_of_to_scalar alpha⟩

theorem spells_to_json (finite : settings.Finite) :
    settings.Spells .binary64 (settings.toJson .binary64) := by
  obtain ⟨lambda, firstWritten, first⟩ := read_write_scalar finite.lambda
  obtain ⟨alpha, secondWritten, second⟩ := read_write_scalar finite.alpha
  rw [to_json_eq, firstWritten, secondWritten]
  exact .object (.intro first second (Duration.given_to_json _)) (Json.text_members_record _)
    (Json.gives_of_perm _ (List.Perm.refl _))

theorem read_of_parse {form : NumberForm Float} {value : Json}
    (parsed : Json.parse text = some value) : read form text = ofJson? form value := by
  rw [read, parsed]
  rfl

theorem parse_write (settings : Settings Float) :
    Json.parse (settings.write .binary64) = some (settings.toJson .binary64) :=
  Json.parse_render (proper_to_json settings)

theorem read_write (fits : settings.Fits) (finite : settings.Finite) :
    read .binary64 (settings.write .binary64) = some settings := by
  rw [read_of_parse (parse_write settings), of_json_spells fits (spells_to_json finite)]

theorem fits_and_finite_of_read (found : read .binary64 text = some settings) :
    settings.Fits ∧ settings.Finite := by
  rw [read, Option.bind_eq_bind, Option.bind_eq_some_iff] at found
  obtain ⟨value, -, fromJson⟩ := found
  obtain ⟨_, _, _, _, _, _, _, _, _, fields⟩ := fields_of_json fromJson
  exact ⟨fits_of_fields fields, finite_of_fields fields⟩

-- An infinite or undefined number is written as null, which no number is read from.
theorem read_written_infinite (infinite : ¬settings.Finite) :
    read .binary64 (settings.write .binary64) = none := by
  refine Option.eq_none_iff_forall_ne_some.mpr fun found same => infinite ?_
  rw [read_of_parse (parse_write settings), to_json_eq, values, Json.record,
    of_json_object (Json.text_members_record _) (Json.gives_of_perm _ (List.Perm.refl _))] at same
  obtain ⟨-, lambda, -, -, alpha, -, -, -, -⟩ := of_fields_eq_some_iff.mp same
  constructor
  · by_contra other
    rw [write_scalar_of_infinite other] at lambda
    cases lambda
  · by_contra other
    rw [write_scalar_of_infinite other] at alpha
    cases alpha

end Binary64

-- Only a number that is infinite or undefined keeps settings from being read back, and whatever is
-- read has none, also where the text was not written from settings.
theorem reads_back_or_refuses :
    (∀ settings : Settings Float, settings.Fits → settings.Finite →
      read .binary64 (settings.write .binary64) = some settings ∧
        (∃ value, Json.parse (settings.write .binary64) = some value ∧
          settings.Spells .binary64 value) ∧
        ∀ text value, Json.parse text = some value → settings.Spells .binary64 value →
          read .binary64 text = some settings) ∧
      (∀ text settings, read .binary64 text = some settings →
        settings.Fits ∧ settings.Finite ∧
          read .binary64 (settings.write .binary64) = some settings) ∧
      ∀ settings : Settings Float, ¬settings.Finite →
        read .binary64 (settings.write .binary64) = none := by
  refine ⟨?_, ?_, fun settings => read_written_infinite⟩
  · intro settings fits finite
    refine ⟨read_write fits finite, ⟨_, parse_write settings, spells_to_json finite⟩, ?_⟩
    intro text value parsed spells
    rw [read_of_parse parsed, of_json_spells fits spells]
  · intro text settings found
    obtain ⟨fits, finite⟩ := fits_and_finite_of_read found
    exact ⟨fits, finite, read_write fits finite⟩

def saved : Settings Float where
  rank := 18446744073709551615
  lambda := 0.1
  iterations := 20
  implicit := true
  alpha := Float.ofBits 1
  workers := 8
  seed := none
  passes := 2
  timeLimit := some ⟨3500000000, by decide⟩

-- The same by hand: from the last field to the first, without the seed and with a remark.
def edited : List (String × Json) :=
  [("remark", .text "by hand"), ("phase_timeout", .array [.nat 1, .nat 2500000000]),
    ("refinement_passes", .nat 2), ("num_workers", .nat 8),
    ("alpha", .number ⟨false, [5], [], some (-324)⟩), ("uses_implicit_feedback", .bool true),
    ("num_iterations", .nat 20), ("lambda", .number ⟨false, [1], [], some (-1)⟩),
    ("num_features", .nat 18446744073709551615)]

theorem proper_edited : (Json.record edited).Proper := by
  have remark : (Json.text "by hand").Proper := .string (Json.proper_of_visible (by simp))
  have limit : (Json.array [.nat 1, .nat 2500000000]).Proper := .array (by simp [Json.proper_nat])
  have alpha : (Json.number ⟨false, [5], [], some (-324)⟩).Proper :=
    .number ⟨by decide, by decide, by decide⟩
  have lambda : (Json.number ⟨false, [1], [], some (-1)⟩).Proper :=
    .number ⟨by decide, by decide, by decide⟩
  refine Json.proper_record ?_ ?_
  · simp [edited]
  · simp [edited, remark, limit, alpha, lambda, Json.proper_nat, Json.Proper.bool]

theorem spells_edited : saved.Spells .binary64 (.record edited) := by
  have lambda : NumberForm.binary64.read ⟨false, [1], [], some (-1)⟩ = some saved.lambda := by
    decide +kernel
  have alpha : NumberForm.binary64.read ⟨false, [5], [], some (-324)⟩ = some saved.alpha := by
    decide +kernel
  have limit : Duration.Given saved.timeLimit (.array [.nat 1, .nat 2500000000]) :=
    .array ⟨by decide, by decide, by decide⟩
  have order := (List.reverse_perm edited).symm
  refine .object (.intro lambda alpha limit) (Json.text_members_record _) ?_
  refine @Json.Gives.intro _ _ _ [("remark", .text "by hand")] _ (List.eraseIdx_sublist _ 6) ?_ ?_
    order
  · simp [names, values, optionals, Json.ofOption, saved]
  · simp [names, values]

theorem reads_back_or_refuses_edited :
    saved.Fits ∧ saved.Finite ∧
      Json.parse (Json.record edited).render = some (.record edited) ∧
      saved.Spells .binary64 (.record edited) ∧
      read .binary64 (Json.record edited).render = some saved ∧
      read .binary64 (saved.write .binary64) = some saved ∧
      ¬Finite { saved with lambda := 0 / 0 } ∧
      read .binary64 (write .binary64 { saved with lambda := 0 / 0 }) = none := by
  have fits : saved.Fits := ⟨by decide, by decide, by decide, by decide⟩
  have finite : saved.Finite := ⟨by decide +kernel, by decide +kernel⟩
  have parsed := Json.parse_render proper_edited
  obtain ⟨-, -, others⟩ := reads_back_or_refuses.1 saved fits finite
  have same := others _ _ parsed spells_edited
  obtain ⟨-, -, stable⟩ := reads_back_or_refuses.2.1 _ _ same
  have undefined : ¬Finite { saved with lambda := 0 / 0 } := fun finite =>
    absurd finite.lambda (by decide +kernel)
  have refused := reads_back_or_refuses.2.2 _ undefined
  exact ⟨fits, finite, parsed, spells_edited, same, stable, undefined, refused⟩

end Settings
end LatentFactor
