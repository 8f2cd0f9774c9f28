import PhotoNaming.Catalog.Standard
import PhotoNaming.Value.Payload
import PhotoNaming.Proofs.Binary64.Held
import PhotoNaming.Proofs.Catalog.Report

/-! Reading a property by steps. A reported text becomes loose data, and these become a value of the
property's kind. Either there is a value in the end, within the bounds of its kind, or the property and the
text are reported with what the first step that failed says. -/
namespace PhotoNaming

/-- The class of an error: five that are known by their names, and all others. -/
inductive ErrorClass
  | value
  | index
  | type
  | zeroDivision
  | overflow
  | other (name : Text)
  deriving DecidableEq

/-- The classes of errors that parsing answers for. An error of any other class goes through it. -/
def ErrorClass.reported : List ErrorClass := [value, index, type, zeroDivision, overflow]

def CalendarFault.errorClass : CalendarFault → ErrorClass
  | aboveWord | belowWord | beyondLongWord => .overflow
  | _ => .value

def DurationFault.errorClass : DurationFault → ErrorClass
  | notANumber => .value
  | _ => .overflow

def ReadFault.errorClass : ReadFault → ErrorClass
  | notInteger _ | tooManyDigits _ | notReal _ | tooFewParts _ | emptyDuration => .value
  | calendar fault => fault.errorClass
  | duration fault => fault.errorClass
  | missingPart => .index
  | divisionByZero => .zeroDivision
  | outOfRange .. => .overflow

def PayloadFault.errorClass : PayloadFault → ErrorClass
  | unknownKind _ | notReal _ => .value
  | outOfRange .. | tooLarge => .overflow
  | unsuited .. | notOrdered _ | notConvertible _ => .type

/-- An error that ends a step of parsing, whatever its class is. -/
structure Mishap where
  errorClass : ErrorClass
  message : Text

def ReadFault.mishap (fault : ReadFault) : Mishap := ⟨fault.errorClass, fault.message⟩

def PayloadFault.mishap (fault : PayloadFault) : Mishap := ⟨fault.errorClass, fault.message⟩

namespace Format

/-- The loose data that a reported text stands for. -/
def convert (format : Format) (raw : Text) : Except ReadFault Payload :=
  match format with
  | text => .ok (.text raw)
  | colourFilter => .ok (.text (Reading.colourFilter raw))
  | firstInteger _ | size => (Reading.firstInteger raw).map .integer
  | sensitivity => (Reading.integer raw).map .integer
  | timestamp => (Reading.timestamp raw).map .timestamp
  | exposure => (Reading.duration raw).map .duration
  | fNumber => (Reading.fNumber raw).map .binary

/-- Converts a text and forms a value of the data. -/
def attempt (format : Format) (raw : Text) : Except Mishap Value :=
  (format.convert raw).mapError ReadFault.mishap >>= fun payload =>
    (Value.make format.kind payload).mapError PayloadFault.mishap

/-- What can be wrong with a text of each format. -/
def errorClasses : Format → List ErrorClass
  | text | colourFilter => []
  | firstInteger _ | size | timestamp => [.value, .index, .overflow]
  | sensitivity => [.value, .overflow]
  | exposure => [.value, .index, .zeroDivision, .overflow]
  | fNumber => [.value]

end Format

/-- How a parse fails: the property and the text are reported, or an error goes through. -/
inductive ParseEnd
  | reported (code raw message : Text)
  | escaped (mishap : Mishap)

/-- A parse as it is tried, with an answer for the errors of the reported classes and no other. -/
def Descriptor.tried (d : Descriptor) (raw : Text) : Except ParseEnd Value :=
  (d.format.attempt raw).mapError fun mishap =>
    if ErrorClass.reported.contains mishap.errorClass then .reported d.code raw mishap.message
    else .escaped mishap

/-- Integers have 32 bits and long ones 64; lengths of time are at most 999999999 days long backward, and
less than a day longer forward. -/
def Value.IsBounded : Value → Prop
  | integer n => -(2 ^ 31) ≤ n ∧ n ≤ 2 ^ 31 - 1
  | long n => -(2 ^ 63) ≤ n ∧ n ≤ 2 ^ 63 - 1
  | duration d =>
    -(999999999 * Duration.day : Int) ≤ d.microseconds ∧
      d.microseconds ≤ 999999999 * Duration.day + (23 * Duration.hour + 59 * Duration.minute +
        59 * Duration.second + 999999)
  | _ => True

section Words

variable {m n : Int} {bits : Nat}

theorem Binary64.Position.before_ofInt_iff : (ofInt m).Before (ofInt n) ↔ m < n := by
  have hone : 0 < (one : Int) := Int.natCast_pos.mpr one_pos
  have hunits : m * (one : Nat) < n * (one : Nat) ↔ m < n := Int.mul_lt_mul_right hone
  rw [Before, ofInt, ofInt, hunits]
  simp only [lt_self_iff_false, true_and, false_or]

theorem Number.before_integer_iff : (integer m).Before (integer n) ↔ m < n := by
  unfold Before
  exact Binary64.Position.before_ofInt_iff

theorem Number.within_integer_iff : (integer n).Within bits ↔ Word.Fits bits n := by
  have hs : (integer n).Same (integer n) := rfl
  rw [Within, before_integer_iff, before_integer_iff, and_iff_left hs, Word.Fits]
  omega

theorem Value.inRange_integer (kind : Kind) (bits : Nat) (n : Int) :
    inRange kind bits (.integer n) =
      if Word.Fits bits n then .ok () else .error (.outOfRange (Text.ofInt n) kind) := by
  simp only [inRange, Number.within_integer_iff, Number.text]

end Words

namespace Reading

variable {classes : List ErrorClass} {t : Text}

/-- A step of reading that ends in no other fault than those of some classes. -/
abbrev FailsIn (classes : List ErrorClass) {α : Type} (step : Except ReadFault α) : Prop :=
  FailsOnly (fun fault => fault.errorClass ∈ classes) step

theorem failsIn_integer (hm : .value ∈ classes) : FailsIn classes (integer t) := by
  unfold integer
  simp only
  split
  · exact .error hm
  · split
    · exact .error hm
    · split
      · exact .error hm
      · exact .ok _

theorem failsIn_firstInteger (hm : .value ∈ classes) (hp : .index ∈ classes) :
    FailsIn classes (firstInteger t) := by
  unfold firstInteger
  split
  · exact .error hp
  · exact failsIn_integer hm

theorem failsIn_real (hm : .value ∈ classes) : FailsIn classes (real t) := by
  unfold real
  split
  · exact .ok _
  · exact .error hm

theorem failsIn_fNumber (hm : .value ∈ classes) : FailsIn classes (fNumber t) := by
  unfold fNumber
  split <;> exact failsIn_real hm

theorem failsIn_threeIntegers (hm : .value ∈ classes) (separator : Char) :
    FailsIn classes (threeIntegers separator t) := by
  refine (FailsOnly.mapM (fun _ => failsIn_integer hm) _).bind fun found => ?_
  split
  · exact .ok _
  · exact .error hm

theorem failsIn_timestamp (hm : .value ∈ classes) (hp : .index ∈ classes) (hl : .overflow ∈ classes) :
    FailsIn classes (timestamp t) := by
  unfold timestamp
  split
  · refine (failsIn_threeIntegers hm _).bind fun _ => (failsIn_threeIntegers hm _).bind fun _ => ?_
    refine FailsOnly.mapError fun fault _ => ?_
    cases fault with
    | aboveWord | belowWord | beyondLongWord => exact hl
    | _ => exact hm
  · exact .error hp

theorem failsIn_magnitude (hm : .value ∈ classes) (hu : .zeroDivision ∈ classes) :
    FailsIn classes (magnitude t) := by
  unfold magnitude
  split
  · refine (failsIn_real hm).bind fun num => (failsIn_real hm).bind fun den => ?_
    split
    · exact .ok _
    · exact .error hu
  · exact failsIn_real hm

/-- Whatever lengths are added, the fault of a sum is that of a part, or that the sum is too large. -/
theorem failsIn_durationSum (hm : .value ∈ classes) (hp : .index ∈ classes) (hu : .zeroDivision ∈ classes)
    (hl : .overflow ∈ classes) (total : Duration) (words : List Text) :
    FailsIn classes (durationSum total words) := by
  have hd (step : Except DurationFault Duration) : FailsIn classes (step.mapError .duration) := by
    refine FailsOnly.mapError fun fault _ => ?_
    cases fault with
    | notANumber => exact hm
    | _ => exact hl
  fun_induction durationSum total words with
  | case1 total => exact .ok total
  | case2 total number => exact (failsIn_magnitude hm hu).bind fun _ => .error hp
  | case3 total number unit rest ih ih' =>
    refine (failsIn_magnitude hm hu).bind fun x => ?_
    split
    · exact ih
    · exact (hd _).bind fun part => (hd _).bind fun sum => ih' sum

theorem failsIn_duration (hm : .value ∈ classes) (hp : .index ∈ classes) (hu : .zeroDivision ∈ classes)
    (hl : .overflow ∈ classes) : FailsIn classes (duration t) := by
  unfold duration
  split
  · exact .error hm
  · exact failsIn_durationSum hm hp hu hl _ _

end Reading

/-- Two readings that come to one value, or to one error. -/
def Corresponds (found : Except ReadFault Value) (tried : Except Mishap Value) : Prop :=
  (∃ v, found = .ok v ∧ tried = .ok v) ∨ ∃ cause, found = .error cause ∧ tried = .error cause.mishap

namespace Corresponds

variable {α : Type} {kind : Kind} {data : α → Payload}

theorem bind {next : α → Except ReadFault Value} (step : Except ReadFault α)
    (h : ∀ a, Corresponds (next a) ((Value.make kind (data a)).mapError PayloadFault.mishap)) :
    Corresponds (step >>= next) ((step.map data).mapError ReadFault.mishap >>= fun payload =>
      (Value.make kind payload).mapError PayloadFault.mishap) := by
  cases step with
  | error fault => exact .inr ⟨fault, rfl, rfl⟩
  | ok a => exact h a

theorem map {form : α → Value} (step : Except ReadFault α)
    (h : ∀ a, Value.make kind (data a) = .ok (form a)) :
    Corresponds (step.map form) ((step.map data).mapError ReadFault.mishap >>= fun payload =>
      (Value.make kind payload).mapError PayloadFault.mishap) := by
  cases step with
  | error fault => exact .inr ⟨fault, rfl, rfl⟩
  | ok a => exact .inl ⟨form a, rfl, congrArg (Except.mapError PayloadFault.mishap) (h a)⟩

theorem checkedInteger (n : Int) :
    Corresponds (Format.checkedInteger n) ((Value.make .integer (.integer n)).mapError PayloadFault.mishap) := by
  unfold Format.checkedInteger Value.make
  simp only [Value.inRange_integer]
  split
  · exact .inl ⟨_, rfl, rfl⟩
  · exact .inr ⟨_, rfl, rfl⟩

theorem checkedLong (n : Int) :
    Corresponds (Format.checkedLong n) ((Value.make .long (.integer n)).mapError PayloadFault.mishap) := by
  unfold Format.checkedLong Value.make
  simp only [Value.inRange_integer]
  split
  · exact .inl ⟨_, rfl, rfl⟩
  · exact .inr ⟨_, rfl, rfl⟩

end Corresponds

namespace Format

variable {f : Format} {raw : Text} {v : Value}

theorem corresponds (f : Format) (raw : Text) : Corresponds (f.read raw) (f.attempt raw) := by
  cases f with
  | text | colourFilter => exact .inl ⟨_, rfl, rfl⟩
  | firstInteger unit => exact .bind _ Corresponds.checkedInteger
  | sensitivity => exact .bind _ Corresponds.checkedInteger
  | size => exact .bind _ Corresponds.checkedLong
  | timestamp | exposure | fNumber => exact .map _ fun _ => rfl

theorem failsIn_read (f : Format) (raw : Text) : Reading.FailsIn f.errorClasses (f.read raw) := by
  cases f with
  | text | colourFilter => exact .ok _
  | firstInteger | size =>
    have hm : ErrorClass.value ∈ size.errorClasses := by decide
    have hp : ErrorClass.index ∈ size.errorClasses := by decide
    have hl : ErrorClass.overflow ∈ size.errorClasses := by decide
    exact (Reading.failsIn_firstInteger hm hp).bind fun n => .ite hl
  | sensitivity =>
    have hm : ErrorClass.value ∈ sensitivity.errorClasses := by decide
    have hl : ErrorClass.overflow ∈ sensitivity.errorClasses := by decide
    exact (Reading.failsIn_integer hm).bind fun n => .ite hl
  | timestamp => exact (Reading.failsIn_timestamp (by decide) (by decide) (by decide)).map _
  | exposure => exact (Reading.failsIn_duration (by decide) (by decide) (by decide) (by decide)).map _
  | fNumber => exact (Reading.failsIn_fNumber (by decide)).map _

theorem Reads.isBounded (h : f.Reads v) : v.IsBounded := by
  have hword (bits : Nat) : Word.bound bits = 2 ^ bits := by
    rw [Word.bound, Nat.pow_eq, Nat.cast_pow, Nat.cast_ofNat]
  cases v with
  | integer n =>
    have hn : Word.Fits 31 n := by cases f <;> first | exact h | exact h.elim
    rw [Word.Fits, hword] at hn
    exact ⟨hn.1, Int.le_sub_one_of_lt hn.2⟩
  | long n =>
    have hn : Word.Fits 63 n := by cases f <;> first | exact h | exact h.elim
    rw [Word.Fits, hword] at hn
    exact ⟨hn.1, Int.le_sub_one_of_lt hn.2⟩
  | duration d => exact ⟨d.lower, d.upper⟩
  | _ => trivial

/-- A text that goes wrong in a given way, for the formats in which one can. -/
def spoilt : Format → ErrorClass → Text
  | timestamp, .value => " "
  | timestamp, .overflow => "9999999999:1:1 0:0:0"
  | exposure, .index => "1"
  | exposure, .zeroDivision => "1/0 s"
  | exposure, .overflow => "inf s"
  | _, .index => ""
  | _, .overflow => "9223372036854775808"
  | _, _ => "-"

theorem exists_mishap (f : Format) {c : ErrorClass} (hc : c ∈ f.errorClasses) :
    ∃ raw, (f.attempt raw).mapError Mishap.errorClass = .error c := by
  have h : ∀ f ∈ [firstInteger [], sensitivity, timestamp, exposure, fNumber, size], ∀ c ∈ f.errorClasses,
      (f.attempt (f.spoilt c)).mapError Mishap.errorClass = .error c := by
    decide +kernel
  cases f with
  | text | colourFilter => cases hc
  | firstInteger unit => exact ⟨_, h (firstInteger []) (by decide) c hc⟩
  | sensitivity | timestamp | exposure | fNumber | size => exact ⟨_, h _ (by decide) c hc⟩

end Format

/-- Whatever is wrong with a text, it is of a reported class. -/
theorem Format.errorClass_reported {f : Format} {c : ErrorClass} (h : c ∈ f.errorClasses) :
    ErrorClass.reported.contains c = true := by
  have hall : f.errorClasses.all ErrorClass.reported.contains = true := by cases f <;> rfl
  exact List.all_eq_true.mp hall c h

/-- Reading is closed. A text is read by steps as one value of the property's kind, within its bounds, or the
property's code and the text are reported with what the step that failed says; no error goes through. Its class
is one that belongs to the format, and each of these classes is met; data that do not suit the kind never come
up. -/
theorem Descriptor.parsing_is_closed (d : Descriptor) :
    (∀ raw,
      (∃ v, d.parse raw = .ok v ∧ d.format.attempt raw = .ok v ∧ d.tried raw = .ok v ∧
        v.kind = d.format.kind ∧ v.IsBounded) ∨
      ∃ cause, d.parse raw = .error ⟨d.code, raw, cause⟩ ∧ d.format.attempt raw = .error cause.mishap ∧
        d.tried raw = .error (.reported d.code raw cause.message) ∧
        cause.errorClass ∈ d.format.errorClasses) ∧
    ∀ c ∈ d.format.errorClasses, ∃ raw, (d.format.attempt raw).mapError Mishap.errorClass = .error c := by
  refine ⟨fun raw => ?_, fun c hc => d.format.exists_mishap hc⟩
  rw [parse, tried]
  rcases d.format.corresponds raw with ⟨v, hr, ha⟩ | ⟨cause, hr, ha⟩
  · have hv := Format.reads_of_read hr
    exact .inl ⟨v, by rw [hr]; rfl, ha, by rw [ha]; rfl, hv.kind_eq, hv.isBounded⟩
  · have hc := d.format.failsIn_read raw cause hr
    refine .inr ⟨cause, by rw [hr]; rfl, ha, ?_, hc⟩
    rw [ha, Except.mapError, ReadFault.mishap, if_pos (Format.errorClass_reported hc)]

/-- One exposure time is read and one over zero is reported; some other one is too long. -/
theorem Descriptor.exposure_is_read_or_reported :
    let d : Descriptor := ⟨"et", "Exposure Time", .exposure, ["ExposureTime"]⟩
    d ∈ Catalog.standardDescriptors ∧
      (∃ v, d.parse "1/200 sec" = .ok v ∧ v.kind = .duration ∧ v.IsBounded) ∧
      d.parse "1/0 sec" = .error ⟨"et", "1/0 sec", .divisionByZero⟩ ∧
      ∃ raw, (d.format.attempt raw).mapError Mishap.errorClass = .error .overflow := by
  intro d
  refine ⟨by decide, ?_, by decide +kernel, (parsing_is_closed d).2 .overflow (by decide)⟩
  have hok : (d.parse "1/200 sec").isOk := by decide +kernel
  rcases (parsing_is_closed d).1 "1/200 sec" with ⟨v, hv, _, _, hk, hb⟩ | ⟨cause, hf, _⟩
  · exact ⟨v, hv, hk, hb⟩
  · rw [hf] at hok
    cases hok

end PhotoNaming
