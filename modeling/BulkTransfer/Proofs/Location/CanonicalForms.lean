import BulkTransfer.Proofs.Command.Canonical

/-!
# Canonical forms of locations

A location can be written in several ways, since slashes between the bucket and the key are
dropped.  Its canonical text is one of them.  So the locations that can be written are the
parses of their own texts, and two texts have the same canonical text exactly if they stand for
the same bucket and key.
-/

namespace BulkTransfer
namespace Location

/-- What bucket and key a location can be written with. -/
theorem written_iff {location : Location} :
    location.Written ↔
      location.bucket ≠ "" ∧ (∀ c ∈ location.bucket.toList, c ≠ '/' ∧ c ≠ '*' ∧ c ≠ '?') ∧
        location.key.toList.head? ≠ some '/' := by
  have hliteral : hasWildcard location.bucket = false ↔
      ∀ c ∈ location.bucket.toList, c ≠ '*' ∧ c ≠ '?' := by
    simp [hasWildcard, isWildcardChar]
  have hrelative : Path.isAbsolute location.key = false ↔
      location.key.toList.head? ≠ some '/' := by
    rw [Path.isAbsolute, beq_eq_false_iff_ne]
  constructor
  · intro h
    refine ⟨h.bucket_ne_empty, fun c hc => ⟨?_, hliteral.mp h.bucket_literal c hc⟩,
      hrelative.mp h.key_relative⟩
    rintro rfl
    exact h.bucket_slashFree hc
  · rintro ⟨hne, hchars, hkey⟩
    constructor
    · exact hne
    · exact fun hslash => (hchars '/' hslash).1 rfl
    · exact hliteral.mpr fun c hc => (hchars c hc).2
    · exact hrelative.mpr hkey

/-- The canonical text of a location that can be written stands for that location. -/
theorem parse_text_iff {location : Location} :
    parse location.text = .ok location ↔ location.Written :=
  ⟨written_of_parse, Written.parse_text⟩

/-- Locations that can be written have different canonical texts. -/
theorem Written.text_inj {location other : Location} (h : location.Written)
    (h' : other.Written) : location.text = other.text ↔ location = other := by
  constructor
  · intro htext
    have hparse := h.parse_text
    rw [htext, h'.parse_text] at hparse
    exact (Except.ok.inj hparse).symm
  · rintro rfl
    rfl

/-- The locations that texts stand for are those with a bucket that holds neither a slash nor a
wildcard and a key that does not begin with a slash, and each of them is the parse of its own
canonical text.  The canonical text of what a text stands for stands for the same location, so
two texts have the same canonical text exactly if they stand for the same bucket and key. -/
theorem canonical_text_faithful :
    (∀ location : Location, (∃ text, parse text = .ok location) ↔
      location.bucket ≠ "" ∧ (∀ c ∈ location.bucket.toList, c ≠ '/' ∧ c ≠ '*' ∧ c ≠ '?') ∧
        location.key.toList.head? ≠ some '/') ∧
    (∀ location : Location, parse location.text = .ok location ↔
      location.bucket ≠ "" ∧ (∀ c ∈ location.bucket.toList, c ≠ '/' ∧ c ≠ '*' ∧ c ≠ '?') ∧
        location.key.toList.head? ≠ some '/') ∧
    (∀ text location, parse text = .ok location → parse location.text = .ok location) ∧
    ∀ text text' location location', parse text = .ok location → parse text' = .ok location' →
      (location.text = location'.text ↔
        location.bucket = location'.bucket ∧ location.key = location'.key) := by
  refine ⟨fun location => ?_, fun location => ?_, fun text location hparse => ?_, ?_⟩
  · rw [← written_iff]
    exact ⟨fun ⟨text, hparse⟩ => written_of_parse hparse, fun h => ⟨_, h.parse_text⟩⟩
  · rw [← written_iff]
    exact parse_text_iff
  · exact (written_of_parse hparse).parse_text
  · intro text text' location location' hparse hparse'
    rw [(written_of_parse hparse).text_inj (written_of_parse hparse'), Location.mk.injEq]

/-- Two writings of one location, with a wildcard, empty segments and a scheme in the key. -/
theorem canonical_text_faithful_slashes :
    parse "s3://b///s3://a//x*" = .ok { bucket := "b", key := "s3://a//x*" } ∧
      parse "s3://b/s3://a//x*" = .ok { bucket := "b", key := "s3://a//x*" } ∧
      parse ({ bucket := "b", key := "s3://a//x*" } : Location).text =
        .ok { bucket := "b", key := "s3://a//x*" } := by
  have hparse : parse "s3://b///s3://a//x*" = .ok { bucket := "b", key := "s3://a//x*" } := by
    decide +kernel
  have hparse' : parse "s3://b/s3://a//x*" = .ok { bucket := "b", key := "s3://a//x*" } := by
    decide +kernel
  exact ⟨hparse, hparse', canonical_text_faithful.2.2.1 _ _ hparse⟩

end Location
end BulkTransfer
