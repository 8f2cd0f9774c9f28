import PhotoNaming.Proofs.Binary64.RoundTrip
import PhotoNaming.Proofs.Record.Single
import PhotoNaming.Proofs.Text.Separators

/-! F-numbers from the tag to the record. A ratio is reported as the number nearest to it, and that number is
read back. A ratio over zero is no number: it is reported as printed, and what stands behind its slash is
taken for the f-number. -/
namespace PhotoNaming

variable {n d : Nat}

/-- A tag that holds one ratio and is printed as such. -/
def Tag.ofRatio (n d : Nat) : Tag where
  printed := Text.ofNat n ++ '/' :: Text.ofNat d
  values := some (.items [.ratio (.number (.integer n)) (.number (.integer d))])

theorem TagItem.toReal_ratio (hn : n < 2 ^ 53) (hd : d < 2 ^ 53) :
    TagItem.toReal (.ratio (.number (.integer n)) (.number (.integer d))) =
      if d = 0 then .error (.inl .divisionByZero) else .ok (Binary64.ofQuotient n d) := by
  have hreal {k : Nat} (hk : k < 2 ^ 53) :
      TagScalar.toReal (.number (.integer k)) = .ok (.finite false (k * Binary64.one)) := by
    rw [TagScalar.toReal, Binary64.ofInt?_natCast hk]
    rfl
  rw [toReal, hreal hn, ok_bind, hreal hd, ok_bind]
  by_cases h : d = 0
  · rw [if_pos h, h, Nat.zero_mul, Binary64.div?_zero]
  · rw [if_neg h, Binary64.div?_mul_one (Nat.pos_of_ne_zero h)]

theorem Tag.report_ofRatio (hn : n < 2 ^ 53) (hd : d < 2 ^ 53) :
    ((Tag.ofRatio n d).report "FNumber".toList).result =
      .ok (if d = 0 then (Tag.ofRatio n d).plain
        else "f/".toList ++ (Binary64.ofQuotient n d).numberText) := by
  have hfirst : (Tag.ofRatio n d).firstItem = .ok (.ratio (.number (.integer n)) (.number (.integer d))) := rfl
  rw [report, special?, if_neg (by decide), if_pos rfl, hfirst, ok_bind, TagItem.toReal_ratio hn hd]
  by_cases h : d = 0
  · rw [if_pos h, if_pos h]
    rfl
  · rw [if_neg h, if_neg h]
    rfl

/-- The printed form of a ratio has no blanks around it. -/
theorem Tag.plain_ofRatio (n d : Nat) : (Tag.ofRatio n d).plain = Text.ofNat n ++ '/' :: Text.ofNat d := by
  refine Text.trimmed_of_forall (List.forall_mem_append.mpr ⟨?_, List.forall_mem_cons.mpr ⟨by decide, ?_⟩⟩)
  · exact fun c hc => Text.isBlank_of_isDigit (Text.isDigit_of_mem_ofNat hc)
  · exact fun c hc => Text.isBlank_of_isDigit (Text.isDigit_of_mem_ofNat hc)

namespace Reading

theorem fNumber_append_cons {before : Text} (h : '/' ∉ before) (behind : Text) :
    fNumber (before ++ '/' :: behind) = real behind := by
  rw [fNumber, Text.cutAt?_append_cons h]

/-- What is reported of a quotient is read as the number nearest to it. -/
theorem fNumber_of_quotient (hd : 0 < d) (h : n < 2 ^ 53 * d) :
    fNumber ("f/".toList ++ (Binary64.ofQuotient n d).numberText) = .ok (Binary64.ofQuotient n d) := by
  have hread := Binary64.ofText?_numberText (Binary64.isHeld_nearestUnits hd h)
  have htext (t : Text) : "f/".toList ++ t = ['f'] ++ '/' :: t := rfl
  rw [Binary64.ofQuotient_natCast hd h, htext, fNumber_append_cons (by decide), real, hread]

/-- Of a ratio over zero, the zero is read. -/
theorem fNumber_over_zero (n : Nat) : fNumber (Text.ofNat n ++ '/' :: Text.ofNat 0) = .ok (.finite false 0) := by
  have hslash : '/' ∉ Text.ofNat n := fun hm => absurd (Text.isDigit_of_mem_ofNat hm) (by decide)
  rw [fNumber_append_cons hslash, real, Binary64.ofText?_ofNat]
  rfl

end Reading

namespace Record

/-- Every ratio is recorded as an f-number: as the number nearest to it, and as zero where it has no value. -/
theorem f_number_of_ratio (hn : n < 2 ^ 53) (hd : d < 2 ^ 53) (source : Text) (facts : Facts) :
    ∃ r p, MadeOf [("EXIF FNumber".toList, Tag.ofRatio n d)] source facts r ∧ r.property? "fs" = some p ∧
      p.value = .real (.binary (if d = 0 then .finite false 0 else .ofQuotient n d)) := by
  have hread : Reading.fNumber (if d = 0 then (Tag.ofRatio n d).plain
      else "f/".toList ++ (Binary64.ofQuotient n d).numberText) =
        .ok (if d = 0 then .finite false 0 else .ofQuotient n d) := by
    split
    · rename_i h
      rw [h, Tag.plain_ofRatio, Reading.fNumber_over_zero]
    · rename_i h
      have hpos := Nat.pos_of_ne_zero h
      exact Reading.fNumber_of_quotient hpos (hn.trans_le (Nat.le_mul_of_pos_right _ hpos))
  have hname : Catalog.standard.byName? "FNumber".toList =
    some ⟨"fs", "F-Number", .fNumber, ["FNumber"]⟩ := by decide
  have hkey : Text.cutAt? ' ' "EXIF FNumber".toList = some ("EXIF".toList, "FNumber".toList) := by decide
  obtain ⟨r, hr, hp⟩ := exists_madeOf_single hkey (by decide +kernel) (Tag.report_ofRatio hn hd) hname
    (Property.ofReport_eq_ok_iff.mpr ⟨_, _, map_eq_ok_iff.mpr ⟨_, hread, rfl⟩, rfl, rfl⟩) source facts
  exact ⟨r, _, hr, hp, rfl⟩

theorem f_number_of_28_over_10 :
    ∃ r p, MadeOf [("EXIF FNumber".toList, Tag.ofRatio 28 10)] "DSC0001.ARW"
        ⟨⟨2020, 1, 2, 3, 4, 5, 0, by decide, by decide, by decide⟩, "ARW", "DSC0001", 24000000⟩ r ∧
      r.property? "fs" = some p ∧ p.value = .real (.binary (.ofQuotient (28 : Nat) 10)) := by
  obtain ⟨r, p, hr, hp, hv⟩ := f_number_of_ratio (n := 28) (d := 10) (by decide) (by decide) "DSC0001.ARW"
    ⟨⟨2020, 1, 2, 3, 4, 5, 0, by decide, by decide, by decide⟩, "ARW", "DSC0001", 24000000⟩
  rw [if_neg (by decide)] at hv
  exact ⟨r, p, hr, hp, hv⟩

/-- A ratio without a value is recorded as the f-number zero, where only the defaults should be left. -/
theorem f_number_over_zero_is_recorded :
    MadeOf [("EXIF FNumber".toList, Tag.ofRatio 28 0)] "DSC0001.ARW"
      ⟨⟨2020, 1, 2, 3, 4, 5, 0, by decide, by decide, by decide⟩, "ARW", "DSC0001", 24000000⟩
      ⟨"DSC0001.ARW",
        [⟨"fs", "F-Number", "28/0", .real (.binary (.finite false 0)), "f0"⟩,
          ⟨dateCode, "Date/Time", "2020:01:02 03:04:05",
            .timestamp ⟨2020, 1, 2, 3, 4, 5, 0, by decide, by decide, by decide⟩, "01/02/2020 03:04"⟩,
          ⟨"ft", "Detected File Type Name", "ARW", .text "ARW", "ARW"⟩,
          ⟨"fd", "Detected File Type Long Name", "ARW", .text "ARW", "ARW"⟩,
          ⟨"ex", "Expected File Name Extension", "ARW", .text "ARW", "ARW"⟩,
          ⟨"fn", "File Name", "DSC0001", .text "DSC0001", "DSC0001"⟩,
          ⟨"sz", "File Size", "24000000", .long 24000000, "24000000"⟩]⟩ :=
  ⟨[⟨"EXIF", [("FNumber", "28/0")]⟩], by decide +kernel, by decide +kernel⟩

end Record

end PhotoNaming
