import BulkTransfer.Proofs.Command.Canonical

/-!
# What a storage kind takes

A word of a storage kind is taken if and only if it is written as a location and the location
keeps the rule of the kind.  The argument that it becomes is a location as well, in its
canonical text; it differs from the word only where a directory takes over the basename of the
reference, and it is taken as it is the next time.
-/

namespace BulkTransfer

/-- The rule of a storage kind. -/
def ArgumentKind.Takes : ArgumentKind → Location → Prop
  | .storageObject, location =>
      location.isWildcard = false ∧ Path.endsInSlash location.key = false
  | .storageSimpleObject, location =>
      location.isWildcard = false ∧ Path.endsInSlash location.key = false ∧ location.key ≠ ""
  | .storageObjectOrDir, location => location.isWildcard = false
  | .storageWildcardObject, location => location.isWildcard = true
  | .storageDir, location => location.key = "" ∨ Path.endsInSlash location.key = true
  | _, _ => False

instance : ∀ (kind : ArgumentKind) (location : Location), Decidable (kind.Takes location)
  | .storageObject, _ | .storageSimpleObject, _ => inferInstanceAs (Decidable (_ ∧ _))
  | .storageObjectOrDir, _ => inferInstanceAs (Decidable (_ = false))
  | .storageWildcardObject, _ => inferInstanceAs (Decidable (_ = true))
  | .storageDir, _ => inferInstanceAs (Decidable (_ ∨ _))
  | .unchecked, _ | .uncheckedOneOrMore, _ | .localFileObject, _ | .localFileOrDir, _
  | .localDir, _ | .optionalLocalFileOrDir, _ | .optionalLocalDir, _ | .glob, _ =>
      inferInstanceAs (Decidable False)

/-- An argument whose basename later words may take over: it was accepted, with whatever
files and reference there were, under a kind of objects or files. -/
def Argument.OfReferenceKind (argument : Argument) : Prop :=
  ∃ tree kind reference word, kind.isReference = true ∧
    validate tree kind reference word = .ok argument

/-- The name that a directory takes over, empty if there is none. -/
def inheritedName : Option Argument → String
  | none => ""
  | some argument =>
      match argument.location with
      | some location => location.basename
      | none => (Path.fileName argument.text).getD ""

section Rules

variable {kind : ArgumentKind} {location : Location} {reference : Option Argument}

/-- A location keeps the rule of a kind if and only if no fault is found. -/
theorem storageFault_eq_none_iff (hkind : kind.isStorage = true) :
    Validate.storageFault kind location = none ↔ kind.Takes location := by
  cases kind with
  | storageObject =>
      show (if _ then _ else if _ then _ else _) = none ↔ _ ∧ _
      cases location.isWildcard <;> cases Path.endsInSlash location.key <;> simp
  | storageSimpleObject =>
      show (if _ then _ else if _ then _ else if _ then _ else _) = none ↔ _ ∧ _ ∧ _
      rw [Ne, ← String.isEmpty_iff]
      cases location.isWildcard <;> cases Path.endsInSlash location.key <;>
        cases location.key.isEmpty <;> simp
  | storageObjectOrDir =>
      show (if _ then _ else _) = none ↔ _ = false
      cases location.isWildcard <;> simp
  | storageWildcardObject =>
      show (if _ then _ else _) = none ↔ _ = true
      cases location.isWildcard <;> simp
  | storageDir =>
      show (if _ then _ else _) = none ↔ _ ∨ _
      rw [← String.isEmpty_iff]
      cases location.key.isEmpty <;> cases Path.endsInSlash location.key <;> simp
  | _ => cases hkind

theorem isDirectory_iff :
    location.isDirectory = true ↔ location.key = "" ∨ Path.endsInSlash location.key = true := by
  rw [Location.isDirectory, Bool.or_eq_true, String.isEmpty_iff, Path.endsInSlash]

/-- The basename to take over is the inherited name, unless that is empty. -/
theorem referenceBasename_eq :
    Validate.referenceBasename reference =
      if (inheritedName reference).isEmpty then none else some (inheritedName reference) := by
  cases reference with
  | none => rfl
  | some argument => rfl

/-- What a location is completed to, said by the inherited name. -/
theorem completeLocation_inheritedName (kind : ArgumentKind) (reference : Option Argument)
    (location : Location) :
    Validate.completeLocation kind (kind.basename reference) location =
      if kind = .storageObjectOrDir ∧
          (location.key = "" ∨ Path.endsInSlash location.key = true)
      then location.withKey (location.key ++ inheritedName reference)
      else location := by
  by_cases hkind : kind = .storageObjectOrDir
  · have hbasename : ArgumentKind.basename .storageObjectOrDir reference =
        Validate.referenceBasename reference := rfl
    rw [hkind, hbasename, referenceBasename_eq]
    simp only [true_and, ← isDirectory_iff]
    cases hname : (inheritedName reference).isEmpty with
    | true =>
        rw [if_pos rfl, String.isEmpty_iff.mp hname, String.append_empty]
        exact (ite_self location).symm
    | false => rfl
  · rw [if_neg fun h => hkind h.1]
    rcases Validate.completeLocation_cases kind (kind.basename reference) location with
      hsame | ⟨base, hdirectory, -⟩
    · exact hsame
    · exact absurd hdirectory hkind

/-- A basename to take over is a name without wildcards. -/
theorem literal_basename_of_kind (hreference : ∀ argument ∈ reference, argument.IsReference) :
    ∀ base ∈ kind.basename reference, Literal base := by
  intro base hbase
  rw [ArgumentKind.basename] at hbase
  split at hbase
  · exact literal_of_referenceBasename hreference hbase
  · cases hbase

end Rules

/-- A word is taken by a storage kind if and only if it is a location that keeps the rule of
the kind.  The argument is the location that its canonical text is read as: the location of
the word, with the basename of the reference behind the key of a directory in the place of an
object or directory.  Checked again, the text gives the same argument. -/
theorem storage_words_taken (tree : FileTree) (kind : ArgumentKind)
    (reference : Option Argument) (word : String) (hkind : kind.isStorage = true)
    (hreference : ∀ argument ∈ reference, argument.OfReferenceKind) :
    ((∃ argument, validate tree kind reference word = .ok argument) ↔
      ∃ location, Location.parse word = .ok location ∧ kind.Takes location) ∧
    ∀ argument, validate tree kind reference word = .ok argument →
      ∃ location place, Location.parse word = .ok location ∧
        argument = .storage place ∧ argument.text = place.text ∧
        Location.parse argument.text = .ok place ∧
        (place = if kind = .storageObjectOrDir ∧
            (location.key = "" ∨ Path.endsInSlash location.key = true)
          then location.withKey (location.key ++ inheritedName reference)
          else location) ∧
        ∀ later, validate later kind reference argument.text = .ok argument := by
  have hliteral : ∀ base ∈ kind.basename reference, Literal base := by
    apply literal_basename_of_kind
    intro argument hmem
    rcases hreference argument hmem with ⟨tree', kind', reference', word', hkind', hvalid⟩
    exact isReference_of_validate hkind' hvalid
  constructor
  · simp only [validate_of_isStorage hkind, Validate.storage_eq_ok_iff]
    constructor
    · rintro ⟨argument, location, hparse, hfault, -⟩
      exact ⟨location, hparse, (storageFault_eq_none_iff hkind).mp hfault⟩
    · rintro ⟨location, hparse, htakes⟩
      exact ⟨_, location, hparse, (storageFault_eq_none_iff hkind).mpr htakes, rfl⟩
  · intro argument hvalid
    rw [validate_of_isStorage hkind] at hvalid
    have hagain := Validate.storage_text hliteral hvalid
    rcases Validate.storage_eq_ok_iff.mp hvalid with ⟨location, hparse, -, rfl⟩
    have hwritten : (Validate.completeLocation kind (kind.basename reference) location).Written :=
      Validate.written_completeLocation (Location.written_of_parse hparse) hliteral
    refine ⟨location, _, hparse, rfl, rfl, hwritten.parse_text,
      completeLocation_inheritedName kind reference location, fun later => ?_⟩
    rw [validate_of_isStorage hkind]
    exact hagain

/-- A directory of a bucket takes over the last segment of an object that was read before. -/
theorem storage_words_taken_directory :
    ArgumentKind.storageObjectOrDir.isStorage = true ∧
      (Argument.storage ⟨"a", "x/k"⟩).OfReferenceKind ∧
      ∃ argument, validate default .storageObjectOrDir (some (.storage ⟨"a", "x/k"⟩))
          "s3://b//dir/" = .ok argument ∧
        Location.parse argument.text = .ok ⟨"b", "dir/k"⟩ := by
  have hreference : (Argument.storage ⟨"a", "x/k"⟩).OfReferenceKind :=
    ⟨default, .storageSimpleObject, none, "s3://a/x/k", rfl, by decide +kernel⟩
  have htaken := storage_words_taken default .storageObjectOrDir
    (some (.storage ⟨"a", "x/k"⟩)) "s3://b//dir/" rfl (by
      intro argument hmem
      cases hmem
      exact hreference)
  have hparse : Location.parse "s3://b//dir/" = .ok ⟨"b", "dir/"⟩ := by decide +kernel
  have hplain : ArgumentKind.storageObjectOrDir.Takes ⟨"b", "dir/"⟩ := by decide +kernel
  rcases htaken.1.mpr ⟨_, hparse, hplain⟩ with ⟨argument, hvalid⟩
  rcases htaken.2 argument hvalid with ⟨location, place, hlocation, -, -, htext, hplace, -⟩
  cases hparse.symm.trans hlocation
  have hname : place = ⟨"b", "dir/k"⟩ := hplace.trans (by decide +kernel)
  exact ⟨rfl, hreference, argument, hvalid, hname ▸ htext⟩

end BulkTransfer
