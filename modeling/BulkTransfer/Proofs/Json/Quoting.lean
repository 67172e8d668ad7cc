import BulkTransfer.Json.Reader

/-!
# Quoted text is read back

Every character is written as an escape of its own or stands for itself, and the reader takes
it back to its unit.  A character is never half of a pair, so the units of a text stand for that
text.  What is written between quotes has no control characters.
-/

namespace BulkTransfer
namespace Json

/-!
## Characters
-/

theorem hexDigit_spec {n : Nat} (h : n < 16) :
    hexValue? (hexDigit n) = some n ∧ 0x20 ≤ (hexDigit n).toNat := by
  have hall : ∀ n < 16, hexValue? (hexDigit n) = some n ∧ 0x20 ≤ (hexDigit n).toNat := by decide
  exact hall n h

/-- The three ways to write a character: by a letter, by its code, and as it is. -/
inductive Escapes (c : Char) : List Char → Prop
  | letter (e : Char) (hu : e ≠ 'u') (hvisible : 0x20 ≤ e.toNat) (h : shortEscape? e = some c) :
      Escapes c ['\\', e]
  | code (h : c.toNat < 0x20) :
      Escapes c ['\\', 'u', '0', '0', hexDigit (c.toNat / 16), hexDigit (c.toNat % 16)]
  | self (hquote : c ≠ '"') (hbackslash : c ≠ '\\') (h : ¬ c.toNat < 0x20) : Escapes c [c]

theorem escapes (c : Char) : Escapes c (escape c) := by
  by_cases hquote : c = '"'
  · rw [hquote]
    exact .letter '"' (by decide) (by decide) rfl
  by_cases hbackslash : c = '\\'
  · rw [hbackslash]
    exact .letter '\\' (by decide) (by decide) rfl
  by_cases hnewline : c = '\n'
  · rw [hnewline]
    exact .letter 'n' (by decide) (by decide) rfl
  by_cases hreturn : c = '\r'
  · rw [hreturn]
    exact .letter 'r' (by decide) (by decide) rfl
  by_cases htab : c = '\t'
  · rw [htab]
    exact .letter 't' (by decide) (by decide) rfl
  by_cases hback : c = '\x08'
  · rw [hback]
    exact .letter 'b' (by decide) (by decide) rfl
  by_cases hfeed : c = '\x0c'
  · rw [hfeed]
    exact .letter 'f' (by decide) (by decide) rfl
  rw [escape, if_neg hquote, if_neg hbackslash, if_neg hnewline, if_neg hreturn, if_neg htab,
    if_neg hback, if_neg hfeed]
  split
  · rename_i hcontrol
    exact .code hcontrol
  · rename_i hplain
    exact .self hquote hbackslash hplain

/-- What is written for a character is read as its unit. -/
theorem readUnits_escape (c : Char) (rest : List Char) :
    readUnits (escape c ++ rest) =
      (readUnits rest).map fun found => (c.toNat :: found.1, found.2) := by
  have hescapes := escapes c
  generalize escape c = written at hescapes ⊢
  cases hescapes with
  | letter e hu hvisible h =>
      show readUnits ('\\' :: e :: rest) = _
      rw [readUnits, h]
      exact fun _ _ _ _ _ he => absurd he hu
  | code h =>
      have hhigh := (hexDigit_spec (n := c.toNat / 16) (by omega)).1
      have hlow := (hexDigit_spec (n := c.toNat % 16) (by omega)).1
      have hzero : hexValue? '0' = some 0 := rfl
      have hcode : ((0 * 16 + 0) * 16 + c.toNat / 16) * 16 + c.toNat % 16 = c.toNat := by omega
      show readUnits ('\\' :: 'u' :: '0' :: '0' :: hexDigit (c.toNat / 16) ::
        hexDigit (c.toNat % 16) :: rest) = _
      rw [readUnits, hhigh, hlow, hzero]
      dsimp only
      rw [hcode]
  | self hquote hbackslash h =>
      show readUnits (c :: rest) = _
      rw [readUnits]
      · rw [decide_eq_false h, decide_eq_false hbackslash]
        rfl
      · exact hquote
      · exact fun _ _ _ _ _ hc => absurd hc hbackslash
      · exact fun _ _ hc => absurd hc hbackslash

/-- No control character is written for a character. -/
theorem visible_escape {c d : Char} (h : d ∈ escape c) : 0x20 ≤ d.toNat := by
  have hescapes := escapes c
  generalize escape c = written at hescapes h
  cases hescapes with
  | letter e hu hvisible hletter =>
      simp only [List.mem_cons, List.not_mem_nil, or_false] at h
      rcases h with rfl | rfl
      · decide
      · exact hvisible
  | code hcontrol =>
      simp only [List.mem_cons, List.not_mem_nil, or_false] at h
      rcases h with rfl | rfl | rfl | rfl | rfl | rfl
      · decide
      · decide
      · decide
      · decide
      · exact (hexDigit_spec (by omega)).2
      · exact (hexDigit_spec (by omega)).2
  | self hquote hbackslash hplain =>
      rw [List.mem_singleton.mp h]
      exact Nat.le_of_not_lt hplain

/-!
## Texts
-/

/-- What is written between quotes is read up to the closing quote. -/
theorem readUnits_quoted (s rest : List Char) :
    readUnits (s.flatMap escape ++ '"' :: rest) = some (s.map Char.toNat, rest) := by
  induction s with
  | nil => rfl
  | cons c s ih =>
      rw [List.flatMap_cons, List.append_assoc, readUnits_escape, ih]
      rfl

/-- No character is half of a pair. -/
theorem not_half (c : Char) : isHighHalf c.toNat = false ∧ isLowHalf c.toNat = false := by
  have hvalid : c.toNat < 0xD800 ∨ 0xDFFF < c.toNat ∧ c.toNat < 0x110000 := c.valid
  rw [isHighHalf, isLowHalf]
  constructor
  · simp only [Bool.and_eq_false_iff, decide_eq_false_iff_not]
    omega
  · simp only [Bool.and_eq_false_iff, decide_eq_false_iff_not]
    omega

theorem charsOfUnits_units (s : List Char) : charsOfUnits (s.map Char.toNat) = some s := by
  induction s with
  | nil => rfl
  | cons c s ih =>
      rcases not_half c with ⟨hhigh, hlow⟩
      cases s with
      | nil => simp [charsOfUnits, hhigh, hlow]
      | cons d s =>
          rw [List.map_cons, List.map_cons, charsOfUnits, hhigh, hlow, ← List.map_cons, ih]
          simp

theorem literal_some (s : String) :
    literal (some s) = '"' :: s.toList.flatMap escape ++ ['"'] := rfl

/-- A literal of a text is read as that text, one of half a pair as none. -/
theorem readLiteral_literal (name : Option String) (rest : List Char) :
    ∃ behind, literal name ++ rest = '"' :: behind ∧ readLiteral behind = some (name, rest) := by
  cases name with
  | none => exact ⟨'\\' :: 'u' :: 'd' :: '8' :: '0' :: '0' :: '"' :: rest, rfl, rfl⟩
  | some s =>
      refine ⟨s.toList.flatMap escape ++ '"' :: rest, ?_, ?_⟩
      · rw [literal_some, List.append_assoc]
        rfl
      · rw [readLiteral, readUnits_quoted, Option.map_some]
        dsimp only
        rw [charsOfUnits_units, Option.map_some, String.ofList_toList]

theorem visible_of_all {text : List Char}
    (h : (text.all fun c => decide (0x20 ≤ c.toNat)) = true) : ∀ c ∈ text, 0x20 ≤ c.toNat :=
  fun c hc => of_decide_eq_true (List.all_eq_true.mp h c hc)

theorem visible_literal {name : Option String} {c : Char} (h : c ∈ literal name) :
    0x20 ≤ c.toNat := by
  cases name with
  | none => exact visible_of_all (by decide) c h
  | some s =>
      rw [literal_some, List.mem_append, List.mem_cons, List.mem_flatMap, List.mem_singleton] at h
      rcases h with (rfl | ⟨d, -, hd⟩) | rfl
      · decide
      · exact visible_escape hd
      · decide

end Json
end BulkTransfer
