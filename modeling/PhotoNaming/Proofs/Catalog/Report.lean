import PhotoNaming.Record.Basic
import PhotoNaming.Proofs.Outcome
import PhotoNaming.Proofs.Value.Order

/-! What the formats of a catalog make of reported texts: values on one scale each, which file names show
alike when they are the same. Only a length of time can be read and then have no form in file names. -/
namespace PhotoNaming

namespace Binary64

/-- Numbers at one place are written alike, both zeros included. -/
theorem numberText_eq_of_position? {x y : Binary64} {p : Position} (hx : x.position? = some p)
    (hy : y.position? = some p) : x.numberText = y.numberText := by
  have he := hx.trans hy.symm
  cases x with
  | nan => cases hx
  | infinity a =>
    cases y with
    | nan => cases hy
    | infinity b =>
      have hab : a = b := by cases a <;> cases b <;> simp [position?] at he ⊢
      rw [hab]
    | finite b n => cases a <;> simp [position?] at he
  | finite a m =>
    cases y with
    | nan => cases hy
    | infinity b => cases b <;> simp [position?] at he
    | finite b n =>
      have hmn : a = b ∧ m = n ∨ m = 0 ∧ n = 0 := by
        cases a <;> cases b <;> simp [position?] at he ⊢ <;> omega
      rcases hmn with ⟨rfl, rfl⟩ | ⟨rfl, rfl⟩
      · rfl
      · simp [numberText, toInt?]

end Binary64

namespace Format

variable {f : Format} {raw : Text} {v w : Value}

/-- The values that a format reads: of its kind, and within the range of that. -/
def Reads : Format → Value → Prop
  | text, .text _ => True
  | colourFilter, .text _ => True
  | firstInteger _, .integer n => Word.Fits 31 n
  | sensitivity, .integer n => Word.Fits 31 n
  | timestamp, .timestamp _ => True
  | exposure, .duration _ => True
  | fNumber, .real (.binary _) => True
  | size, .long n => Word.Fits 63 n
  | _, _ => False

theorem checkedInteger_eq_ok_iff {n : Int} :
    checkedInteger n = .ok v ↔ Word.Fits 31 n ∧ v = .integer n := by
  rw [checkedInteger]
  split <;> simp [*, eq_comm]

theorem checkedLong_eq_ok_iff {n : Int} : checkedLong n = .ok v ↔ Word.Fits 63 n ∧ v = .long n := by
  rw [checkedLong]
  split <;> simp [*, eq_comm]

theorem reads_of_read (h : f.read raw = .ok v) : f.Reads v := by
  cases f with
  | text | colourFilter =>
    cases h
    trivial
  | firstInteger unit | sensitivity =>
    obtain ⟨n, _, hn⟩ := bind_eq_ok_iff.mp h
    obtain ⟨hf, rfl⟩ := checkedInteger_eq_ok_iff.mp hn
    exact hf
  | timestamp | exposure | fNumber =>
    obtain ⟨x, _, rfl⟩ := map_eq_ok_iff.mp h
    trivial
  | size =>
    obtain ⟨n, _, hn⟩ := bind_eq_ok_iff.mp h
    obtain ⟨hf, rfl⟩ := checkedLong_eq_ok_iff.mp hn
    exact hf

theorem Reads.kind_eq (h : f.Reads v) : v.kind = f.kind := by
  cases f <;> cases v <;> first | rfl | exact h.elim

/-- Values that are read are on one scale for each kind. -/
theorem Reads.scale_eq {g : Format} (h : f.Reads v) (h' : g.Reads w) (hk : v.kind = w.kind) :
    v.scale = w.scale := by
  cases v with
  | moment m => cases f <;> exact h.elim
  | _ =>
    cases w with
    | moment n => cases g <;> exact h'.elim
    | _ => cases hk <;> rfl

theorem Reads.fileText_eq_of_same (h : f.Reads v) (h' : f.Reads w) (hs : v.Same w) :
    f.fileText v = f.fileText w := by
  cases v with
  | real x =>
    cases w with
    | real y =>
      cases f <;> try exact h.elim
      cases x <;> try exact h.elim
      cases y <;> try exact h'.elim
      obtain ⟨p, hx, hy⟩ := Number.same_iff.mp hs
      simp [fileText, Binary64.numberText_eq_of_position? hx hy]
    | _ => cases hs
  | moment m => cases f <;> exact h.elim
  | _ => exact congrArg f.fileText hs

/-- Nothing but a length of time can be without a form in file names. -/
theorem Reads.fileText_eq_error_iff (h : f.Reads v) {fault : DurationFault} :
    f.fileText v = .error fault ↔
      f = .exposure ∧ ∃ d : Duration, v = .duration d ∧ d.fileText = .error fault := by
  cases v with
  | real x =>
    cases f <;> try exact h.elim
    cases x with
    | integer n => exact h.elim
    | binary x => simp [fileText]
  | _ => cases f <;> first | exact h.elim | simp [fileText]

end Format

namespace Catalog

theorem code_of_byCode? {c : Catalog} {code : Text} {d : Descriptor} (h : c.byCode? code = some d) :
    d.code = code := by
  simpa using List.find?_some h

end Catalog

namespace Property

variable {d : Descriptor} {raw : Text} {p : Property}

theorem ofReport_eq_ok_iff :
    ofReport d raw = .ok p ↔ ∃ v t, d.format.read raw = .ok v ∧ d.format.fileText v = .ok t ∧
      p = ⟨d.code, d.name, raw, v, t⟩ := by
  simp only [ofReport, Descriptor.parse, bind, Except.bind, pure, Except.pure]
  cases hv : d.format.read raw with
  | error e => simp [Except.mapError]
  | ok v =>
    cases ht : d.format.fileText v with
    | error e => simp [Except.mapError, ht]
    | ok t => simp [Except.mapError, ht, eq_comm]

theorem ofReport_eq_unwritable_iff {fault : DurationFault} :
    ofReport d raw = .error (.unwritable fault) ↔
      ∃ v, d.format.read raw = .ok v ∧ d.format.fileText v = .error fault := by
  simp only [ofReport, Descriptor.parse, bind, Except.bind, pure, Except.pure]
  cases hv : d.format.read raw with
  | error e => simp [Except.mapError]
  | ok v =>
    cases ht : d.format.fileText v with
    | error e => simp [Except.mapError, ht]
    | ok t => simp [Except.mapError, ht]

theorem code_of_ofReport (h : ofReport d raw = .ok p) : p.code = d.code := by
  obtain ⟨v, t, _, _, rfl⟩ := ofReport_eq_ok_iff.mp h
  rfl

theorem reads_of_ofReport (h : ofReport d raw = .ok p) : d.format.Reads p.value := by
  obtain ⟨v, t, hv, _, rfl⟩ := ofReport_eq_ok_iff.mp h
  exact Format.reads_of_read hv

theorem scale_eq_of_ofReport {raw' : Text} {q : Property} (hp : ofReport d raw = .ok p)
    (hq : ofReport d raw' = .ok q) : p.value.scale = q.value.scale :=
  (reads_of_ofReport hp).scale_eq (reads_of_ofReport hq)
    ((reads_of_ofReport hp).kind_eq.trans (reads_of_ofReport hq).kind_eq.symm)

/-- Of two properties that are made from reports it can be said whether one replaces the other. -/
theorem supersedes_of_ofReport {d' : Descriptor} {raw' : Text} {q : Property} (hp : ofReport d raw = .ok p)
    (hq : ofReport d' raw' = .ok q) :
    p.value.supersedes q.value = .ok (decide (p.value.Supersedes q.value)) := by
  by_cases hk : p.value.kind = q.value.kind
  · have hs := (reads_of_ofReport hq).scale_eq (reads_of_ofReport hp) hk.symm
    rw [Value.supersedes_of_kind_eq hk, Value.compare_less_of_scale_eq hs]
    rfl
  · have hn : ¬ p.value.Supersedes q.value := fun h => hk (Value.kind_eq_of_scale_eq h.scale_eq).symm
    rw [Value.supersedes_of_kind_ne hk, decide_eq_false hn]

/-- Alike values that are read in one format are written alike. -/
theorem fileText_eq_of_alike {raw' : Text} {q : Property} (hp : ofReport d raw = .ok p)
    (hq : ofReport d raw' = .ok q) (ha : p.value.Alike q.value) : p.fileText = q.fileText := by
  obtain ⟨v, t, hv, ht, rfl⟩ := ofReport_eq_ok_iff.mp hp
  obtain ⟨w, u, hw, hu, rfl⟩ := ofReport_eq_ok_iff.mp hq
  have he : d.format.fileText v = d.format.fileText w := by
    rcases ha with hs | ⟨hvn, hwn⟩
    · exact (Format.reads_of_read hv).fileText_eq_of_same (Format.reads_of_read hw) hs
    · rw [show v = _ from hvn, show w = _ from hwn]
  rw [ht, hu] at he
  exact Except.ok.inj he

theorem raw_of_ofReport (h : ofReport d raw = .ok p) : p.raw = raw := by
  obtain ⟨v, t, _, _, rfl⟩ := ofReport_eq_ok_iff.mp h
  rfl

end Property

end PhotoNaming
