import ComponentBinding.Proofs.Number.Magnitude
import ComponentBinding.Proofs.View.IntegerText
import ComponentBinding.Proofs.View.TextForm

/-! Text for the floating-point kinds. Text is read as a double for both, and refused if there is no finite double for
it, so a member of kind double is always finite. A member of kind float is narrowed after that check: the text between
the two thresholds passes it and makes the member infinite. -/
namespace ComponentBinding

namespace Property

/-- The exact number that a text denotes, without its sign. -/
def magnitude? (text : String) : Option ℚ := (Decimal.read? (Text.trim text.toList)).map Decimal.magnitude

theorem readDouble?_eq_some_iff {text : String} {x : Binary64} :
    readDouble? text = some x ↔
      ∃ d, Decimal.read? (Text.trim text.toList) = some d ∧ d.magnitude < 2 ^ 1024 - 2 ^ 970 ∧ d.toBinary = x := by
  rw [readDouble?, Option.filter_eq_some_iff]
  constructor
  · rintro ⟨hmap, hfinite⟩
    obtain ⟨d, hread, rfl⟩ := Option.map_eq_some_iff.mp hmap
    exact ⟨d, hread, (Decimal.isFinite_toBinary64_iff (Decimal.isDigit_of_read? hread)).mp hfinite, rfl⟩
  · rintro ⟨d, hread, hsmall, rfl⟩
    exact ⟨Option.map_eq_some_iff.mpr ⟨d, hread, rfl⟩,
      (Decimal.isFinite_toBinary64_iff (Decimal.isDigit_of_read? hread)).mpr hsmall⟩

theorem isSome_readDouble?_iff {text : String} :
    (∃ x, readDouble? text = some x) ↔ ∃ q ∈ magnitude? text, q < 2 ^ 1024 - 2 ^ 970 := by
  constructor
  · rintro ⟨x, hx⟩
    obtain ⟨d, hread, hsmall, _⟩ := readDouble?_eq_some_iff.mp hx
    exact ⟨d.magnitude, Option.map_eq_some_iff.mpr ⟨d, hread, rfl⟩, hsmall⟩
  · rintro ⟨q, hq, hsmall⟩
    obtain ⟨d, hread, rfl⟩ := Option.map_eq_some_iff.mp hq
    exact ⟨d.toBinary, readDouble?_eq_some_iff.mpr ⟨d, hread, hsmall, rfl⟩⟩

/-- A double that is read from a text is finite, and stays so in 32 bits exactly below the threshold. -/
theorem isFinite_of_readDouble? {text : String} {x : Binary64} (h : readDouble? text = some x) :
    x.isFinite = true ∧ ((x.convert : Binary32).isFinite = true ↔
      ∃ q ∈ magnitude? text, q < 2 ^ 128 - 2 ^ 103 - 2 ^ 74) := by
  obtain ⟨d, hread, hsmall, rfl⟩ := readDouble?_eq_some_iff.mp h
  have hdigits := Decimal.isDigit_of_read? hread
  have hfinite := (Decimal.isFinite_toBinary64_iff hdigits).mpr hsmall
  have hmagnitude : magnitude? text = some d.magnitude := Option.map_eq_some_iff.mpr ⟨d, hread, rfl⟩
  refine ⟨hfinite, ?_⟩
  rw [Decimal.isFinite_narrowed_iff hdigits hfinite, hmagnitude]
  simp

end Property

namespace Binary

variable {f g : FloatFormat}

/-- Rounding a number gives a number or an infinity. -/
theorem isNaN_convert {x : Binary f} (h : x.isFinite = true) : (x.convert : Binary g).isNaN = false := by
  rw [convert_of_isFinite h]
  exact decide_eq_false (Nat.not_lt.mpr (g.nearestRank_le ..))

end Binary

namespace Kind

variable (resolver : TypeResolver) {text : String} {result : ViewValue}

theorem coerce_double_text_iff :
    Kind.double.coerce resolver (.string text) = .ok result ↔
      ∃ x, Property.readDouble? text = some x ∧ .double x = result := by
  have hconvert : Kind.double.convert? (.string text) = (Property.readDouble? text).map .double := rfl
  rw [coerce_text_eq_ok_iff resolver rfl, hconvert, Option.map_eq_some_iff]

theorem coerce_float_text_iff :
    Kind.float.coerce resolver (.string text) = .ok result ↔
      ∃ x, Property.readDouble? text = some x ∧ .float x.convert = result := by
  have hconvert : Kind.float.convert? (.string text) = (Property.readDouble? text).map (.float ·.convert) := rfl
  rw [coerce_text_eq_ok_iff resolver rfl, hconvert, Option.map_eq_some_iff]

/-- Both kinds take a text if it is a number with a finite double nearest to it. -/
theorem exists_coerce_floating_iff {kind : Kind} (h : kind = .float ∨ kind = .double) :
    (∃ result, kind.coerce resolver (.string text) = .ok result) ↔
      ∃ q ∈ Property.magnitude? text, q < 2 ^ 1024 - 2 ^ 970 := by
  rw [← Property.isSome_readDouble?_iff]
  rcases h with rfl | rfl
  · simp only [coerce_float_text_iff]
    exact ⟨fun ⟨_, x, hx, _⟩ => ⟨x, hx⟩, fun ⟨x, hx⟩ => ⟨_, x, hx, rfl⟩⟩
  · simp only [coerce_double_text_iff]
    exact ⟨fun ⟨_, x, hx, _⟩ => ⟨x, hx⟩, fun ⟨x, hx⟩ => ⟨_, x, hx, rfl⟩⟩

/-- Text gives a member of kind double a finite number. A member of kind float gets a finite number or an infinity, the
latter exactly from the least number on whose nearest double has no finite datum of 32 bits nearest to it. Text that has
no finite double is refused by both kinds, and the member is what it is without an entry: its default, or zero. -/
theorem coerce_floating_text (m : Materializer) (text : String) :
    (∀ result, Kind.double.coerce m.resolver (.string text) = .ok result →
      ∃ x : Binary64, result = .double x ∧ x.isFinite = true) ∧
    (∀ result, Kind.float.coerce m.resolver (.string text) = .ok result →
      ∃ x : Binary32, result = .float x ∧ x.isNaN = false ∧
        (x.isFinite = true ↔ ∃ q ∈ Property.magnitude? text, q < 2 ^ 128 - 2 ^ 103 - 2 ^ 74)) ∧
    ∀ kind : Kind, kind = .float ∨ kind = .double →
      ((∃ result, kind.coerce m.resolver (.string text) = .ok result) ↔
        ∃ q ∈ Property.magnitude? text, q < 2 ^ 1024 - 2 ^ 970) ∧
      ((¬∃ q ∈ Property.magnitude? text, q < 2 ^ 1024 - 2 ^ 970) →
        ∀ depth name default? config, config.lookup (memberKey name) = some (.string text) →
          (m.memberAt depth config ⟨name, kind, false, default?⟩).value =
            (m.memberAt depth [] ⟨name, kind, false, default?⟩).value) := by
  refine ⟨?_, ?_, fun kind hkind => ⟨exists_coerce_floating_iff m.resolver hkind, ?_⟩⟩
  · intro result h
    obtain ⟨x, hx, rfl⟩ := (coerce_double_text_iff m.resolver).mp h
    exact ⟨x, rfl, (Property.isFinite_of_readDouble? hx).1⟩
  · intro result h
    obtain ⟨x, hx, rfl⟩ := (coerce_float_text_iff m.resolver).mp h
    obtain ⟨hfinite, hnarrow⟩ := Property.isFinite_of_readDouble? hx
    exact ⟨x.convert, rfl, Binary.isNaN_convert hfinite, hnarrow⟩
  · intro hlarge depth name default? config configured
    have hview : kind.isView = false := by rcases hkind with rfl | rfl <;> rfl
    cases hcoerce : kind.coerce m.resolver (.string text) with
    | ok result => exact absurd ((exists_coerce_floating_iff m.resolver hkind).mp ⟨result, hcoerce⟩) hlarge
    | error error => exact m.memberAt_of_refused depth config hview default? configured rfl hcoerce

/-- The power of ten beyond the doubles: the default takes its place. -/
theorem coerce_floating_text_beyond_doubles :
    let m : Materializer := { resolver := .known [] }
    let config : Properties := [("ratio", .string "1e309")]
    Property.magnitude? "1e309" = some (10 ^ 309) ∧
    (¬∃ q ∈ Property.magnitude? "1e309", q < 2 ^ 1024 - 2 ^ 970) ∧
    config.lookup (memberKey "ratio") = some (.string "1e309") ∧
    (m.memberAt 0 config ⟨"ratio", .double, false, some (.long 1)⟩).value = some (.double (.ofInt 1)) := by
  intro m config
  have hread : Decimal.read? (Text.trim "1e309".toList) = some ⟨false, ['1'], 309⟩ := by decide
  have hmagnitude : Property.magnitude? "1e309" = some (10 ^ 309) := by
    rw [Property.magnitude?, hread]
    exact congrArg some (Decimal.magnitude_powerOfTen false 309)
  have hpower : (2 : ℚ) ^ 1024 ≤ 10 ^ 309 := by
    exact_mod_cast (show 2 ^ 1024 ≤ 10 ^ 309 by decide +kernel)
  have hlarge : ¬∃ q ∈ Property.magnitude? "1e309", q < 2 ^ 1024 - 2 ^ 970 := by
    rintro ⟨q, hq, hsmall⟩
    rw [hmagnitude] at hq
    obtain rfl := Option.some.inj hq
    have hpositive : (0 : ℚ) < 2 ^ 970 := pow_pos (by norm_num) _
    exact not_lt.mpr hpower (hsmall.trans (sub_lt_self _ hpositive))
  have hkey : memberKey "ratio" = "ratio" := by decide
  have configured : config.lookup (memberKey "ratio") = some (.string "1e309") := by
    rw [hkey]
    rfl
  have hmember := ((coerce_floating_text m "1e309").2.2 .double (.inr rfl)).2 hlarge 0 "ratio" (some (.long 1)) config
    configured
  exact ⟨hmagnitude, hlarge, configured, hmember.trans rfl⟩

/-- A power of ten far below the greatest double is taken for a member of kind float, and makes it infinite. -/
theorem float_text_infinite :
    Property.magnitude? "1e39" = some (10 ^ 39) ∧
    Kind.float.coerce (.known []) (.string "1e39") = .ok (.float (.infinity false)) ∧
    (Binary.infinity false : Binary32).isFinite = false := by
  have hread : Decimal.read? (Text.trim "1e39".toList) = some ⟨false, ['1'], 39⟩ := by decide
  have hnarrowed : (Property.readDouble? "1e39").map Binary.convert = some (.infinity false : Binary32) := by
    decide +kernel
  obtain ⟨x, hx, hinfinite⟩ := Option.map_eq_some_iff.mp hnarrowed
  refine ⟨?_, (coerce_float_text_iff _).mpr ⟨x, hx, congrArg _ hinfinite⟩, Binary.isFinite_infinity false⟩
  rw [Property.magnitude?, hread]
  exact congrArg some (Decimal.magnitude_powerOfTen false 39)

end Kind
end ComponentBinding
