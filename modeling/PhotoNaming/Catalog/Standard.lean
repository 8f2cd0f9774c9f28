import PhotoNaming.Catalog.Basic

/-!
The standard catalog of photo properties.
-/

namespace PhotoNaming.Catalog

def standardDescriptors : List Descriptor :=
  [⟨"cp", "Compression", .text, ["Compression"]⟩,
    ⟨"mk", "Make", .text, ["Make"]⟩,
    ⟨"md", "Model", .text, ["Model"]⟩,
    ⟨"or", "Orientation", .text, ["Orientation"]⟩,
    ⟨"xr", "X Resolution", .firstInteger "", ["XResolution"]⟩,
    ⟨"yr", "Y Resolution", .firstInteger "", ["YResolution"]⟩,
    ⟨"ru", "Resolution Unit", .text, ["ResolutionUnit"]⟩,
    ⟨"sf", "Software", .text, ["Software"]⟩,
    ⟨dateCode, "Date/Time", .timestamp, ["DateTime", "DateTimeOriginal", "DateTimeDigitized"]⟩,
    ⟨"wd", "Image Width", .firstInteger "", ["ImageWidth", "ExifImageWidth"]⟩,
    ⟨"ht", "Image Height", .firstInteger "", ["ImageLength", "ExifImageLength"]⟩,
    ⟨"it", "Photometric Interpretation", .text, ["PhotometricInterpretation"]⟩,
    ⟨"cf", "CFA Pattern", .colourFilter, ["CFAPattern"]⟩,
    ⟨"et", "Exposure Time", .exposure, ["ExposureTime"]⟩,
    ⟨"fs", "F-Number", .fNumber, ["FNumber"]⟩,
    ⟨"is", "ISO Speed Ratings", .sensitivity, ["ISOSpeedRatings", "PhotographicSensitivity"]⟩,
    ⟨"fl", "Focal Length", .firstInteger "mm", ["FocalLength"]⟩,
    ⟨"ls", "Lens Specification", .text, ["LensSpecification"]⟩,
    ⟨"lm", "Lens Model", .text, ["LensModel"]⟩,
    ⟨"ft", "Detected File Type Name", .text, []⟩,
    ⟨"fd", "Detected File Type Long Name", .text, []⟩,
    ⟨"ex", "Expected File Name Extension", .text, []⟩,
    ⟨"fn", "File Name", .text, []⟩,
    ⟨"sz", "File Size", .size, []⟩]

/-- Dates, file names and sizes are not counted. -/
def standardExcluded : List Text := [dateCode, "fn", "sz"]

def standard : Catalog := ⟨standardDescriptors, standardExcluded⟩

def standardWithout (codes : List Text) : Catalog :=
  ⟨standardDescriptors.filter fun d => !codes.contains d.code, standardExcluded⟩

end PhotoNaming.Catalog
