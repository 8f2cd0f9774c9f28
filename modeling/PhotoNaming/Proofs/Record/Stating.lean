import PhotoNaming.Proofs.Catalog.Standard
import PhotoNaming.Proofs.Text.Numeral
import PhotoNaming.Record.Facts

/-! What the file facts state. Every text that is reported for them is read as the value that it was made
from, up to parts of a second, and every such value has a form in file names. -/
namespace PhotoNaming

namespace Facts

/-- The file facts one by one: a code, the text reported for it and the value that the text stands for. -/
def stated (f : Facts) : List (Text × Text × Value) :=
  [(dateCode, f.accessed.format "%Y:%m:%d %H:%M:%S", .timestamp f.accessed.wholeSecond),
    (['f', 't'], f.extension, .text f.extension),
    (['f', 'd'], f.extension, .text f.extension),
    (['e', 'x'], f.extension, .text f.extension),
    (['f', 'n'], f.stem, .text f.stem),
    (['s', 'z'], Text.ofInt f.size, .long f.size)]

variable {f : Facts}

theorem reports_eq_map_stated (f : Facts) : f.reports = f.stated.map fun s => (s.1, s.2.1) := by
  simp only [reports, stated, List.map_cons, List.map_nil]

theorem nodup_codes (f : Facts) : (f.reports.map (·.1)).Nodup := by
  simp [reports, dateCode]

/-- A report is found by its code. -/
theorem find?_reports {report : Text × Text} (h : report ∈ f.reports) :
    f.reports.find? (·.1 = report.1) = some report := by
  cases hf : f.reports.find? (·.1 = report.1) with
  | none =>
    have hne := List.find?_eq_none.mp hf report h
    simp at hne
  | some other =>
    have he : other.1 = report.1 := by simpa using List.find?_some hf
    rw [List.inj_on_of_nodup_map f.nodup_codes (List.mem_of_find?_eq_some hf) h he]

/-- The size of a file, which is held in 64 bits, has fewer digits than the longest integer with a text. -/
theorem length_size_le (h0 : 0 ≤ f.size) (hs : f.size < 2 ^ 63) :
    (Text.ofInt f.size).length ≤ Reading.maxDigits := by
  obtain ⟨n, hn⟩ := Int.eq_ofNat_of_zero_le h0
  rw [hn]
  exact (Text.spells_ofNat (by omega)).length_le

/-- Only the size has to be in range for its text to be read. -/
theorem exists_property_of_stated (h0 : 0 ≤ f.size) (hs : f.size < 2 ^ 63) {code raw : Text}
    {value : Value} (h : (code, raw, value) ∈ f.stated) :
    ∃ d p, Catalog.standard.byCode? code = some d ∧ Property.ofReport d raw = .ok p ∧
      p.value = value := by
  have made {d : Descriptor} {text : Text} (hd : Catalog.standard.byCode? code = some d)
      (hr : d.format.read raw = .ok value) (ht : d.format.fileText value = .ok text) :
      ∃ d p, Catalog.standard.byCode? code = some d ∧ Property.ofReport d raw = .ok p ∧
        p.value = value :=
    ⟨d, _, hd, Property.ofReport_eq_ok_iff.mpr ⟨value, text, hr, ht, rfl⟩, rfl⟩
  simp only [stated, List.mem_cons, List.not_mem_nil, or_false, Prod.mk.injEq] at h
  rcases h with ⟨rfl, rfl, rfl⟩ | ⟨rfl, rfl, rfl⟩ | ⟨rfl, rfl, rfl⟩ | ⟨rfl, rfl, rfl⟩ |
    ⟨rfl, rfl, rfl⟩ | ⟨rfl, rfl, rfl⟩
  · refine made rfl ?_ rfl
    rw [Format.read, Reading.timestamp_format]
    rfl
  · exact made rfl rfl rfl
  · exact made rfl rfl rfl
  · exact made rfl rfl rfl
  · exact made rfl rfl rfl
  · refine made rfl ?_ rfl
    have hl : Format.checkedLong f.size = .ok (.long f.size) :=
      Format.checkedLong_eq_ok_iff.mpr ⟨⟨by rw [Word.bound]; omega, by exact_mod_cast hs⟩, rfl⟩
    rw [Format.read, Reading.firstInteger_ofInt h0 hs]
    exact hl

end Facts

end PhotoNaming
