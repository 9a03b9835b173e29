import LatentFactor.Proofs.Sequence
import LatentFactor.Settings.Arguments
import LatentFactor.Training
import Mathlib

set_option autoImplicit false

namespace LatentFactor

variable {α : Type}

section Rules

variable {β ε γ : Type}

def FirstBroken (report : β) : List (Prop × β) → Prop
  | [] => False
  | (rule, own) :: rules => (¬rule ∧ report = own) ∨ (rule ∧ FirstBroken report rules)

theorem check_then_eq_error_iff {f : β → ε} {broken rule : Prop} [Decidable broken] {own : β}
    {rules : List (Prop × β)} {others : Except ε γ} {e : ε} (opposite : broken ↔ ¬rule)
    (rest : others = .error e ↔ ∃ report, FirstBroken report rules ∧ e = f report) :
    (if broken then .error (f own) else others) = .error e ↔
      ∃ report, FirstBroken report ((rule, own) :: rules) ∧ e = f report := by
  by_cases kept : rule
  · rw [if_neg (opposite.not_left.mpr kept), rest]
    simp [FirstBroken, kept]
  · rw [if_pos (opposite.mpr kept)]
    simp [FirstBroken, kept, eq_comm]

namespace Settings

variable [Scalar α] {settings : Settings α}

-- The rules for settings in their order, each with the report of its breach.
def rules (settings : Settings α) : List (Prop × InvalidSetting α) :=
  [(0 < settings.rank, .noFeatures),
    (Scalar.isFinite settings.lambda = true ∧ 0 < settings.lambda, .lambda settings.lambda),
    (0 < settings.iterations, .noIterations),
    (0 < settings.workers, .noWorkers),
    (settings.implicit = true → Scalar.isFinite settings.alpha = true ∧ 0 ≤ settings.alpha,
      .alpha settings.alpha)]

theorem check_eq_error_iff {e : Error α} :
    settings.check = .error e ↔
      ∃ report, FirstBroken report settings.rules ∧ e = .invalidSetting report := by
  refine check_then_eq_error_iff (by omega) ?_
  refine check_then_eq_error_iff Iff.rfl ?_
  refine check_then_eq_error_iff (by omega) ?_
  refine check_then_eq_error_iff (by omega) ?_
  refine check_then_eq_error_iff Classical.not_imp.symm ?_
  simp [FirstBroken]

end Settings

end Rules

def Argument.position : Argument → ℕ
  | path => 0
  | rank => 1
  | lambda => 2
  | iterations => 3
  | alpha => 4

theorem Argument.eq_of_position {a b : Argument} (same : a.position = b.position) : a = b := by
  cases a <;> cases b <;> simp_all [position]

namespace Arguments

structure Values (α : Type) where
  path : String
  rank : ℕ
  lambda : α
  iterations : ℕ
  alpha : Option α

def Values.settings [Scalar α] (values : Values α) (workers : ℕ) : Settings α where
  rank := values.rank
  lambda := values.lambda
  iterations := values.iterations
  implicit := values.alpha.isSome
  alpha := values.alpha.getD ((40 : ℕ) : α)
  workers := workers
  seed := none
  passes := 0
  timeLimit := none

structure Values.Legal [Scalar α] (values : Values α) : Prop where
  rank : 0 < values.rank
  iterations : 0 < values.iterations
  lambda : Scalar.isFinite values.lambda = true ∧ 0 < values.lambda
  alpha : ∀ alpha, values.alpha = some alpha → Scalar.isFinite alpha = true ∧ 0 ≤ alpha

section

variable {β : Type} (reader : NumberReader α) (arguments : List String)

def Reads (read : NumberReader β) (argument : Argument) (value : β) : Prop :=
  ∃ text, arguments[argument.position]? = some text ∧ read text.toList = .ok value

structure Gives (values : Values α) : Prop where
  path : arguments[Argument.path.position]? = some values.path
  rank : Reads arguments (Numeral.readWord 10) .rank values.rank
  lambda : Reads arguments reader .lambda values.lambda
  iterations : Reads arguments (Numeral.readWord 10) .iterations values.iterations
  alpha : match values.alpha with
    | none => arguments.length ≤ Argument.alpha.position
    | some alpha => Reads arguments reader .alpha alpha

def Refused (text : String) (fault : NumberFault) : Argument → Prop
  | .path => False
  | .rank | .iterations => Numeral.readWord 10 text.toList = .error fault
  | .lambda | .alpha => reader text.toList = .error fault

inductive Flawed (argument : Argument) : InputFault → Prop
  | missing (required : argument ≠ .alpha)
      (absent : arguments.length ≤ argument.position) :
      Flawed argument (.missingArgument argument)
  | malformed {text : String} {fault : NumberFault}
      (given : arguments[argument.position]? = some text)
      (refused : Refused reader text fault argument) :
      Flawed argument (.badArgument argument fault)

structure LeftmostFlaw (argument : Argument) (cause : InputFault) : Prop where
  flawed : Flawed reader arguments argument cause
  leftmost : ∀ earlier : Argument, earlier.position < argument.position →
    ∀ other, ¬Flawed reader arguments earlier other

def Sound (argument : Argument) : Prop := ∀ cause, ¬Flawed reader arguments argument cause

def asked (ask : NumberReader β) (argument : Argument) : Except (Error α) β :=
  take arguments argument.position argument >>= read ask argument

def gather : Except (Error α) (Values α) := do
  let path ← take arguments Argument.path.position .path
  let rank ← asked arguments (Numeral.readWord 10) .rank
  let lambda ← asked arguments reader .lambda
  let iterations ← asked arguments (Numeral.readWord 10) .iterations
  let alpha ← arguments[Argument.alpha.position]?.mapM (read reader .alpha)
  return ⟨path, rank, lambda, iterations, alpha⟩

end

section Steps

variable {β : Type} {reader : NumberReader α} {arguments : List String} {argument : Argument}
  {e : Error α}

theorem take_eq_ok_iff {text : String} :
    (take arguments argument.position argument : Except (Error α) String) = .ok text ↔
      arguments[argument.position]? = some text := by
  unfold take
  split <;> simp_all

theorem take_eq_error_iff : take arguments argument.position argument = .error e ↔
    arguments.length ≤ argument.position ∧ e = .input (.missingArgument argument) := by
  rw [← List.getElem?_eq_none_iff, take]
  cases arguments[argument.position]? with
  | some text => simp
  | none => simp [eq_comm]

theorem read_eq_error_iff {ask : NumberReader β} {text : String} :
    read ask argument text = .error e ↔
      ∃ fault, ask text.toList = .error fault ∧ e = .input (.badArgument argument fault) := by
  rw [read, map_error_eq_error_iff]
  simp only [eq_comm (a := e)]

theorem asked_eq_ok_iff {ask : NumberReader β} {value : β} :
    (asked arguments ask argument : Except (Error α) β) = .ok value ↔
      Reads arguments ask argument value := by
  simp only [asked, bind_eq_ok_iff, take_eq_ok_iff, read, map_error_eq_ok_iff, Reads]

theorem asked_eq_error_iff {ask : NumberReader β} (required : argument ≠ .alpha)
    (asks : ∀ text fault, Refused reader text fault argument ↔ ask text.toList = .error fault) :
    asked arguments ask argument = .error e ↔
      ∃ cause, Flawed reader arguments argument cause ∧ e = .input cause := by
  rw [asked, bind_eq_error_iff, take_eq_error_iff]
  simp only [take_eq_ok_iff, read_eq_error_iff]
  constructor
  · rintro (⟨absent, rfl⟩ | ⟨text, given, fault, refused, rfl⟩)
    · exact ⟨_, .missing required absent, rfl⟩
    · exact ⟨_, .malformed given ((asks text fault).mpr refused), rfl⟩
  · rintro ⟨cause, flawed, rfl⟩
    cases flawed with
    | missing _ absent => exact .inl ⟨absent, rfl⟩
    | malformed given refused => exact .inr ⟨_, given, _, (asks _ _).mp refused, rfl⟩

theorem path_eq_error_iff : take arguments Argument.path.position .path = .error e ↔
    ∃ cause, Flawed reader arguments .path cause ∧ e = .input cause := by
  rw [take_eq_error_iff]
  constructor
  · rintro ⟨absent, rfl⟩
    exact ⟨_, .missing (by decide) absent, rfl⟩
  · rintro ⟨cause, flawed, rfl⟩
    cases flawed with
    | missing _ absent => exact ⟨absent, rfl⟩
    | malformed _ refused => exact refused.elim

theorem alpha_eq_ok_iff {alpha : Option α} :
    (arguments[Argument.alpha.position]?.mapM (read reader .alpha) : Except (Error α) (Option α)) =
      .ok alpha ↔
    match alpha with
    | none => arguments.length ≤ Argument.alpha.position
    | some alpha => Reads arguments reader .alpha alpha := by
  simp only [Reads, ← List.getElem?_eq_none_iff]
  cases arguments[Argument.alpha.position]? with
  | none => cases alpha <;> simp [pure, Except.pure]
  | some text =>
      cases own : reader text.toList <;> cases alpha <;> simp [read, own, Except.mapError]

theorem alpha_eq_error_iff :
    arguments[Argument.alpha.position]?.mapM (read reader .alpha) = .error e ↔
      ∃ cause, Flawed reader arguments .alpha cause ∧ e = .input cause := by
  constructor
  · intro failed
    cases given : arguments[Argument.alpha.position]? with
    | none =>
        rw [given] at failed
        cases failed
    | some text =>
        have own : read reader .alpha text = .error e := by
          rw [given] at failed
          cases result : (read reader .alpha text : Except (Error α) α) with
          | ok alpha => simp [result] at failed
          | error other => simpa [result] using failed
        obtain ⟨fault, refused, rfl⟩ := read_eq_error_iff.mp own
        exact ⟨_, .malformed given refused, rfl⟩
  · rintro ⟨cause, flawed, rfl⟩
    cases flawed with
    | missing required _ => exact absurd rfl required
    | malformed given refused =>
        rw [given]
        simp [read, show reader _ = _ from refused, Except.mapError]

end Steps

section Gathering

variable {reader : NumberReader α} {arguments : List String} {e : Error α}

theorem gather_eq_ok_iff {values : Values α} :
    gather reader arguments = .ok values ↔ Gives reader arguments values := by
  simp only [gather, bind_eq_ok_iff, take_eq_ok_iff, asked_eq_ok_iff, alpha_eq_ok_iff]
  constructor
  · rintro ⟨path, pathGiven, rank, rankGiven, lambda, lambdaGiven, iterations, iterationsGiven,
      alpha, alphaGiven, same⟩
    obtain rfl := Except.ok.inj same
    exact ⟨pathGiven, rankGiven, lambdaGiven, iterationsGiven, alphaGiven⟩
  · intro gives
    exact ⟨_, gives.path, _, gives.rank, _, gives.lambda, _, gives.iterations, _, gives.alpha, rfl⟩

theorem sound_of_ok {β : Type} {argument : Argument} {step : Except (Error α) β} {value : β}
    (read : step = .ok value) (errors : ∀ e, step = .error e ↔
      ∃ cause, Flawed reader arguments argument cause ∧ e = .input cause) :
    Sound reader arguments argument := by
  intro cause flawed
  have failed := (errors _).mpr ⟨cause, flawed, rfl⟩
  rw [read] at failed
  cases failed

def SoundBefore (reader : NumberReader α) (arguments : List String) (place : ℕ) : Prop :=
  ∀ argument : Argument, argument.position < place → Sound reader arguments argument

theorem sound_before_next {argument : Argument}
    (before : SoundBefore reader arguments argument.position)
    (own : Sound reader arguments argument) :
    SoundBefore reader arguments (argument.position + 1) := by
  intro other inside
  rcases Nat.lt_succ_iff_lt_or_eq.mp inside with earlier | same
  · exact before other earlier
  · exact Argument.eq_of_position same ▸ own

theorem leftmost_or_next {β γ : Type} (argument : Argument) {step : Except (Error α) β}
    {rest : β → Except (Error α) γ} (before : SoundBefore reader arguments argument.position)
    (errors : ∀ e, step = .error e ↔
      ∃ cause, Flawed reader arguments argument cause ∧ e = .input cause)
    (failed : step >>= rest = .error e) :
    (∃ argument cause, LeftmostFlaw reader arguments argument cause ∧ e = .input cause) ∨
      SoundBefore reader arguments (argument.position + 1) ∧ ∃ value, rest value = .error e := by
  rcases bind_eq_error_iff.mp failed with own | ⟨value, read, failed⟩
  · obtain ⟨cause, flawed, rfl⟩ := (errors e).mp own
    exact .inl ⟨argument, cause, ⟨flawed, before⟩, rfl⟩
  · exact .inr ⟨sound_before_next before (sound_of_ok read errors), value, failed⟩

theorem leftmost_of_gather (failed : gather reader arguments = .error e) :
    ∃ argument cause, LeftmostFlaw reader arguments argument cause ∧ e = .input cause := by
  have start : SoundBefore reader arguments Argument.path.position :=
    fun _ inside => absurd inside (Nat.not_lt_zero _)
  rcases leftmost_or_next .path start (fun _ => path_eq_error_iff) failed
    with own | ⟨path, _, failed⟩
  · exact own
  rcases leftmost_or_next .rank path
    (fun _ => asked_eq_error_iff (by decide) fun _ _ => Iff.rfl) failed with own | ⟨rank, _, failed⟩
  · exact own
  rcases leftmost_or_next .lambda rank
    (fun _ => asked_eq_error_iff (by decide) fun _ _ => Iff.rfl) failed
    with own | ⟨lambda, _, failed⟩
  · exact own
  rcases leftmost_or_next .iterations lambda
    (fun _ => asked_eq_error_iff (by decide) fun _ _ => Iff.rfl) failed
    with own | ⟨iterations, _, failed⟩
  · exact own
  rcases leftmost_or_next .alpha iterations (fun _ => alpha_eq_error_iff) failed
    with own | ⟨_, _, failed⟩
  · exact own
  cases failed

theorem sound_of_reads {β : Type} {ask : NumberReader β} {argument : Argument} {value : β}
    (reads : Reads arguments ask argument value)
    (asks : ∀ text fault, Refused reader text fault argument ↔ ask text.toList = .error fault) :
    Sound reader arguments argument := by
  obtain ⟨text, given, read⟩ := reads
  intro cause flawed
  cases flawed with
  | missing _ absent => simp [List.getElem?_eq_none_iff.mpr absent] at given
  | malformed other refused =>
      obtain rfl := Option.some.inj (given.symm.trans other)
      rw [asks, read] at refused
      cases refused

theorem sound_of_gives {values : Values α} (gives : Gives reader arguments values)
    (argument : Argument) : Sound reader arguments argument := by
  cases argument with
  | path => exact sound_of_ok (take_eq_ok_iff.mpr gives.path) fun _ => path_eq_error_iff
  | rank => exact sound_of_reads gives.rank fun _ _ => Iff.rfl
  | lambda => exact sound_of_reads gives.lambda fun _ _ => Iff.rfl
  | iterations => exact sound_of_reads gives.iterations fun _ _ => Iff.rfl
  | alpha => exact sound_of_ok (alpha_eq_ok_iff.mpr gives.alpha) fun _ => alpha_eq_error_iff

theorem flawed_unique {argument : Argument} {cause other : InputFault}
    (flawed : Flawed reader arguments argument cause)
    (again : Flawed reader arguments argument other) : cause = other := by
  cases flawed with
  | missing _ absent =>
      cases again with
      | missing => rfl
      | malformed given => simp [List.getElem?_eq_none_iff.mpr absent] at given
  | malformed given refused =>
      cases again with
      | missing _ absent => simp [List.getElem?_eq_none_iff.mpr absent] at given
      | malformed same refusedToo =>
          obtain rfl := Option.some.inj (given.symm.trans same)
          cases argument <;> simp_all [Refused]

theorem leftmost_unique {argument other : Argument} {cause otherCause : InputFault}
    (first : LeftmostFlaw reader arguments argument cause)
    (second : LeftmostFlaw reader arguments other otherCause) : cause = otherCause := by
  rcases lt_trichotomy argument.position other.position with before | same | after
  · exact absurd first.flawed (second.leftmost argument before cause)
  · obtain rfl := Argument.eq_of_position same
    exact flawed_unique first.flawed second.flawed
  · exact absurd second.flawed (first.leftmost other after otherCause)

theorem gather_eq_error_iff : gather reader arguments = .error e ↔
    ∃ argument cause, LeftmostFlaw reader arguments argument cause ∧ e = .input cause := by
  refine ⟨leftmost_of_gather, ?_⟩
  rintro ⟨argument, cause, first, rfl⟩
  cases gathered : gather reader arguments with
  | ok values =>
      have gives := gather_eq_ok_iff.mp gathered
      exact absurd first.flawed (sound_of_gives gives argument cause)
  | error other =>
      obtain ⟨_, otherCause, second, rfl⟩ := leftmost_of_gather gathered
      rw [leftmost_unique first second]

end Gathering

section Parse

variable [Scalar α] {reader : NumberReader α} {arguments : List String} {workers : ℕ}

theorem settings_eq (values : Values α) : values.settings workers =
    let explicit := Settings.create workers values.rank values.lambda values.iterations
    match values.alpha with
    | none => explicit
    | some alpha => explicit.withImplicit alpha := by
  cases alpha : values.alpha <;>
    simp [Values.settings, alpha, Settings.create, Settings.standard, Settings.withImplicit]

theorem parse_eq : parse reader workers arguments =
    gather reader arguments >>= fun values => do
      (values.settings workers).check
      return ⟨values.path, values.settings workers⟩ := by
  simp only [parse, gather, asked, bind_assoc, pure_bind, settings_eq]
  rfl

theorem check_eq_ok_iff_legal {values : Values α} (manned : 0 < workers) :
    (values.settings workers).check = .ok () ↔ values.Legal := by
  rw [Settings.check_eq_ok_iff]
  constructor
  · rintro ⟨rank, lambda, iterations, -, implicit⟩
    refine ⟨Nat.pos_of_ne_zero rank, Nat.pos_of_ne_zero iterations, lambda, ?_⟩
    intro alpha given
    simpa [Values.settings, given] using implicit
  · intro legal
    refine ⟨legal.rank.ne', legal.lambda, legal.iterations.ne', manned.ne', ?_⟩
    cases given : values.alpha with
    | none => simp [Values.settings, given]
    | some alpha => simpa [Values.settings, given] using legal.alpha alpha given

theorem parse_eq_ok_iff {parsed : Arguments α} : parse reader workers arguments = .ok parsed ↔
    ∃ values, Gives reader arguments values ∧ (values.settings workers).check = .ok () ∧
      parsed = ⟨values.path, values.settings workers⟩ := by
  rw [parse_eq]
  simp only [bind_eq_ok_iff, gather_eq_ok_iff]
  constructor
  · rintro ⟨values, gives, _, checked, same⟩
    exact ⟨values, gives, checked, (Except.ok.inj same).symm⟩
  · rintro ⟨values, gives, checked, rfl⟩
    exact ⟨values, gives, _, checked, rfl⟩

theorem parse_eq_error_iff {e : Error α} : parse reader workers arguments = .error e ↔
    (∃ argument cause, LeftmostFlaw reader arguments argument cause ∧ e = .input cause) ∨
      ∃ values report, Gives reader arguments values ∧
        FirstBroken report (values.settings workers).rules ∧ e = .invalidSetting report := by
  rw [parse_eq]
  simp only [bind_eq_error_iff, gather_eq_error_iff, gather_eq_ok_iff, Settings.check_eq_error_iff]
  refine or_congr_right ⟨?_, ?_⟩
  · rintro ⟨values, gives, ⟨report, broken, rfl⟩ | ⟨_, _, same⟩⟩
    · exact ⟨values, report, gives, broken, rfl⟩
    · cases same
  · rintro ⟨values, report, gives, broken, rfl⟩
    exact ⟨values, gives, .inl ⟨report, broken, rfl⟩⟩

theorem parse_take (reader : NumberReader α) (workers : ℕ) (arguments : List String) :
    parse reader workers (arguments.take 5) = parse reader workers arguments := by
  simp [parse, take]

theorem implicit_iff_of_gives {values : Values α} (gives : Gives reader arguments values) :
    (values.settings workers).implicit = true ↔ 5 ≤ arguments.length := by
  have alpha := gives.alpha
  cases given : values.alpha with
  | none =>
      rw [given] at alpha
      have few : arguments.length ≤ 4 := alpha
      simp only [Values.settings, given, Option.isSome_none, Bool.false_eq_true, false_iff]
      omega
  | some value =>
      rw [given] at alpha
      obtain ⟨text, there, -⟩ := alpha
      have many : 4 < arguments.length := (List.getElem?_eq_some_iff.mp there).1
      simp only [Values.settings, given, Option.isSome_some, true_iff]
      omega

theorem create_of_check {settings : Settings α} (checked : settings.check = .ok ())
    (ratings : Ratings α) (test : Option (Ratings α)) :
    Training.create settings ratings test = .ok ⟨settings, ratings, test⟩ := by
  rw [Training.create, checked]
  rfl

end Parse

theorem four_le_of_gives {reader : NumberReader α} {arguments : List String} {values : Values α}
    (gives : Gives reader arguments values) : 4 ≤ arguments.length := by
  obtain ⟨text, given, -⟩ := gives.iterations
  exact (List.getElem?_eq_some_iff.mp given).1

theorem names_of_flawed {reader : NumberReader α} {arguments : List String} {argument : Argument}
    {cause : InputFault} (flawed : Flawed reader arguments argument cause) :
    argument.name.toList <:+: cause.message.toList := by
  cases flawed with
  | missing =>
      have text : (InputFault.missingArgument argument).message =
        "missing argument: " ++ argument.name := rfl
      rw [text, String.toList_append]
      exact (List.suffix_append _ _).isInfix
  | @malformed _ fault =>
      have text : (InputFault.badArgument argument fault).message =
        argument.name ++ ": " ++ fault.message := rfl
      rw [text, String.append_assoc, String.toList_append]
      exact (List.prefix_append _ _).isInfix

theorem parse_by_rules [Scalar α] (reader : NumberReader α) {workers : ℕ} (manned : 0 < workers)
    (arguments : List String) :
    ((∃ parsed, parse reader workers arguments = .ok parsed) ↔
      4 ≤ arguments.length ∧ ∃ values, Gives reader arguments values ∧ values.Legal) ∧
    (∀ parsed, parse reader workers arguments = .ok parsed →
      (∃ values, Gives reader arguments values ∧
        parsed = ⟨values.path, values.settings workers⟩) ∧
      (parsed.settings.implicit = true ↔ 5 ≤ arguments.length) ∧
      parsed.settings.check = .ok () ∧
      ∀ ratings test, Training.create parsed.settings ratings test =
        .ok ⟨parsed.settings, ratings, test⟩) ∧
    (∀ e, parse reader workers arguments = .error e ↔
      (∃ argument cause, LeftmostFlaw reader arguments argument cause ∧
        argument.name.toList <:+: cause.message.toList ∧ e = .input cause) ∨
      ∃ values report, Gives reader arguments values ∧
        FirstBroken report (values.settings workers).rules ∧ e = .invalidSetting report) ∧
    parse reader workers (arguments.take 5) = parse reader workers arguments := by
  refine ⟨⟨?_, ?_⟩, ?_, ?_, parse_take reader workers arguments⟩
  · rintro ⟨parsed, read⟩
    obtain ⟨values, gives, checked, -⟩ := parse_eq_ok_iff.mp read
    exact ⟨four_le_of_gives gives, values, gives, (check_eq_ok_iff_legal manned).mp checked⟩
  · rintro ⟨-, values, gives, legal⟩
    exact ⟨_, parse_eq_ok_iff.mpr ⟨values, gives, (check_eq_ok_iff_legal manned).mpr legal, rfl⟩⟩
  · intro parsed read
    obtain ⟨values, gives, checked, rfl⟩ := parse_eq_ok_iff.mp read
    exact ⟨⟨values, gives, rfl⟩, implicit_iff_of_gives gives, checked, create_of_check checked⟩
  · intro e
    rw [parse_eq_error_iff]
    refine or_congr_left ⟨?_, ?_⟩
    · rintro ⟨argument, cause, first, same⟩
      exact ⟨argument, cause, first, names_of_flawed first.flawed, same⟩
    · rintro ⟨argument, cause, first, -, same⟩
      exact ⟨argument, cause, first, same⟩

-- A sign, an alpha of minus zero and a word too many; a lambda that is no number before a count of
-- zero; a count that is no word before an alpha that is no number.
theorem parse_by_rules_eight_workers :
    let reader := Numeral.readFloat
    (∃ parsed, parse reader 8 ["clicks.tsv", "+4", "0.065", "15", "-0", "more"] = .ok parsed ∧
      parsed.settings.implicit = true ∧ parsed.settings.check = .ok ()) ∧
    parse reader 8 ["ratings.tsv", "4", "NaN", "0"] =
      .error (.invalidSetting (.lambda (0 / 0))) ∧
    parse reader 8 ["ratings.tsv", "4", "0", "-1", "x"] =
      .error (.input (.badArgument .iterations .invalidDigit)) := by
  intro reader
  have manned : 0 < 8 := by decide
  refine ⟨?_, ?_, ?_⟩
  · obtain ⟨accepted, described, -, -⟩ := parse_by_rules reader manned
      ["clicks.tsv", "+4", "0.065", "15", "-0", "more"]
    have gives : Gives reader ["clicks.tsv", "+4", "0.065", "15", "-0", "more"]
        ⟨"clicks.tsv", 4, Numeral.toFloat ⟨false, [0], [0, 6, 5], none⟩, 15, some (-0)⟩ :=
      ⟨rfl, ⟨"+4", rfl, rfl⟩, ⟨"0.065", rfl, rfl⟩, ⟨"15", rfl, rfl⟩, ⟨"-0", rfl, rfl⟩⟩
    have legal : Values.Legal (α := Float)
        ⟨"clicks.tsv", 4, Numeral.toFloat ⟨false, [0], [0, 6, 5], none⟩, 15, some (-0)⟩ := by
      refine ⟨by decide, by decide, by decide +kernel, ?_⟩
      rintro alpha ⟨⟩
      decide +kernel
    obtain ⟨parsed, read⟩ := accepted.mpr ⟨by decide, _, gives, legal⟩
    obtain ⟨-, implicit, checked, -⟩ := described parsed read
    exact ⟨parsed, read, implicit.mpr (by decide), checked⟩
  · obtain ⟨-, -, refused, -⟩ := parse_by_rules reader manned ["ratings.tsv", "4", "NaN", "0"]
    refine (refused _).mpr (.inr ⟨⟨"ratings.tsv", 4, 0 / 0, 0, none⟩, _, ?_, ?_, rfl⟩)
    · exact ⟨rfl, ⟨"4", rfl, rfl⟩, ⟨"NaN", rfl, rfl⟩, ⟨"0", rfl, rfl⟩, by decide⟩
    · exact .inr ⟨by decide, .inl ⟨by decide +kernel, rfl⟩⟩
  · obtain ⟨-, -, refused, -⟩ := parse_by_rules reader manned ["ratings.tsv", "4", "0", "-1", "x"]
    have own : Flawed reader ["ratings.tsv", "4", "0", "-1", "x"] .iterations
        (.badArgument .iterations .invalidDigit) := .malformed rfl rfl
    refine (refused _).mpr (.inl ⟨_, _, ⟨own, ?_⟩, names_of_flawed own, rfl⟩)
    intro earlier before
    cases earlier with
    | path => exact sound_of_ok (take_eq_ok_iff.mpr rfl) fun _ => path_eq_error_iff
    | rank =>
        have reads : Reads ["ratings.tsv", "4", "0", "-1", "x"] (Numeral.readWord 10) .rank 4 :=
          ⟨"4", rfl, rfl⟩
        exact sound_of_reads reads fun _ _ => Iff.rfl
    | lambda =>
        have reads : Reads ["ratings.tsv", "4", "0", "-1", "x"] reader .lambda 0 :=
          ⟨"0", rfl, rfl⟩
        exact sound_of_reads reads fun _ _ => Iff.rfl
    | iterations => exact absurd before (by decide)
    | alpha => exact absurd before (by decide)

end Arguments
end LatentFactor
