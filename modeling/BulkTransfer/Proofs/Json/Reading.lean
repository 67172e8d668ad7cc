import BulkTransfer.Proofs.Json.Quoting

/-!
# What is written is read

Values are written without blanks, and the reader takes each of them off the front of a text.
Only behind a count it matters what follows, since the digits of a number have no mark at their
end.  The nesting of a value is bounded by the length of what is written, so the reader has
depth enough.
-/

namespace BulkTransfer
namespace Json

/-!
## Counts
-/

theorem write_natural (n : Nat) : (natural n).write = Nat.toDigits 10 n := by
  rw [write, Nat.toString_eq_repr, Nat.toList_repr]

theorem isDigit_of_mem_digits {n : Nat} {c : Char} (h : c ∈ Nat.toDigits 10 n) :
    c.isDigit = true :=
  Nat.isDigit_of_mem_toDigits (by decide) (by decide) h

/-- A number is the value of its digits. -/
theorem natural?_digits (n : Nat) : Text.natural? (Nat.toDigits 10 n) = some n := by
  have hempty : (Nat.toDigits 10 n).isEmpty = false :=
    List.isEmpty_eq_false_iff.mpr Nat.toDigits_ne_nil
  have hall : (Nat.toDigits 10 n).all Char.isDigit = true :=
    List.all_eq_true.mpr fun c hc => isDigit_of_mem_digits hc
  have hvalue := Nat.ofDigitChars_toDigits (b := 10) (n := n) (by decide) (by decide)
  rw [Nat.ofDigitChars_eq_foldl] at hvalue
  simp only [Nat.mul_comm 10] at hvalue
  rw [Text.natural?, hempty, hall, hvalue]
  rfl

/-- Only zero starts with a zero. -/
theorem digits_cases (n : Nat) :
    Nat.toDigits 10 n = ['0'] ∨
      ∃ c digits, Nat.toDigits 10 n = c :: digits ∧ c ≠ '0' := by
  induction n using Nat.strongRecOn with
  | _ n ih =>
      by_cases hsmall : n < 10
      · have hdigit : ∀ n < 10, n.digitChar = '0' ∨ n.digitChar ≠ '0' := by decide
        rw [Nat.toDigits_of_lt_base hsmall]
        rcases hdigit n hsmall with hzero | hne
        · exact Or.inl (by rw [hzero])
        · exact Or.inr ⟨_, _, rfl, hne⟩
      · have hmore : ∃ c digits, Nat.toDigits 10 (n / 10) = c :: digits ∧ c ≠ '0' := by
          refine (ih (n / 10) (by omega)).resolve_left fun hzero => ?_
          have hvalue := natural?_digits (n / 10)
          rw [hzero] at hvalue
          have hnone : 0 = n / 10 := Option.some.inj hvalue
          omega
        rcases hmore with ⟨c, digits, hdigits, hne⟩
        rw [Nat.toDigits_of_base_le (by decide) (by omega), hdigits]
        exact Or.inr ⟨c, _, rfl, hne⟩

/-- Whether a number can end in front of a text. -/
def Ends (rest : List Char) : Prop :=
  ∀ c, rest.head? = some c → c.isDigit = false ∧ c ≠ '.' ∧ c ≠ 'e' ∧ c ≠ 'E'

theorem readDigits_append {digits rest : List Char} (hall : ∀ c ∈ digits, c.isDigit = true)
    (hrest : Ends rest) : readDigits (digits ++ rest) = (digits, rest) := by
  have hstop : rest.takeWhile Char.isDigit = [] ∧ rest.dropWhile Char.isDigit = rest := by
    cases rest with
    | nil => exact ⟨rfl, rfl⟩
    | cons c rest =>
        have hc := (hrest c rfl).1
        exact ⟨List.takeWhile_cons_of_neg (by rw [hc]; exact Bool.false_ne_true),
          List.dropWhile_cons_of_neg (by rw [hc]; exact Bool.false_ne_true)⟩
  rw [readDigits, List.takeWhile_append_of_pos hall, List.dropWhile_append_of_pos hall, hstop.1,
    hstop.2, List.append_nil]

theorem readInteger_digits (n : Nat) {rest : List Char} (hrest : Ends rest) :
    readInteger (Nat.toDigits 10 n ++ rest) = some (Nat.toDigits 10 n, rest) := by
  have hall : ∀ c ∈ Nat.toDigits 10 n, c.isDigit = true := fun c hc => isDigit_of_mem_digits hc
  rcases digits_cases n with hzero | ⟨c, digits, hdigits, hne⟩
  · rw [hzero]
    rfl
  · rw [hdigits] at hall ⊢
    rw [List.cons_append, readInteger, ← List.cons_append, readDigits_append hall hrest]
    · rfl
    · rintro rest hcons
      exact hne (List.cons.inj hcons).1

theorem readFraction_of_ends {rest : List Char} (h : Ends rest) :
    readFraction rest = some ([], rest) := by
  cases rest with
  | nil => rfl
  | cons c rest =>
      rw [readFraction]
      rintro rest hcons
      exact (h c rfl).2.1 (List.cons.inj hcons).1

theorem readExponent_of_ends {rest : List Char} (h : Ends rest) :
    readExponent rest = some ([], rest) := by
  cases rest with
  | nil => rfl
  | cons c rest =>
      rcases h c rfl with ⟨-, -, he, he'⟩
      unfold readExponent
      exact if_neg (by simp [he, he'])

theorem readNumber_digits (n : Nat) {rest : List Char} (hrest : Ends rest) :
    readNumber (Nat.toDigits 10 n ++ rest) = some (natural n, rest) := by
  have hsign : ∃ c digits, Nat.toDigits 10 n ++ rest = c :: digits ∧ c ≠ '-' := by
    cases hdigits : Nat.toDigits 10 n with
    | nil => exact absurd hdigits Nat.toDigits_ne_nil
    | cons c digits =>
        refine ⟨c, _, rfl, ?_⟩
        rintro rfl
        have hmem : '-' ∈ Nat.toDigits 10 n := by
          rw [hdigits]
          exact List.mem_cons_self
        have hdigit := isDigit_of_mem_digits hmem
        exact absurd hdigit (by decide)
  rcases hsign with ⟨c, digits, hdigits, hne⟩
  have hinteger := readInteger_digits n hrest
  rw [hdigits] at hinteger ⊢
  rw [readNumber]
  · dsimp only
    rw [hinteger, Option.bind_some]
    dsimp only
    rw [readFraction_of_ends hrest, Option.bind_some]
    dsimp only
    rw [readExponent_of_ends hrest, Option.map_some, natural?_digits]
    rfl
  · rintro s hcons
    exact hne (List.cons.inj hcons).1

/-!
## Signs
-/

theorem skipSpace_cons {c : Char} (h : isSpace c = false) (rest : List Char) :
    skipSpace (c :: rest) = c :: rest :=
  List.dropWhile_cons_of_neg (by rw [h]; exact Bool.false_ne_true)

theorem readSign_self {sign : Char} (h : isSpace sign = false) (rest : List Char) :
    readSign sign (sign :: rest) = some rest := by
  rw [readSign, skipSpace_cons h]
  exact if_pos rfl

theorem readSign_other {sign c : Char} (h : isSpace c = false) (hne : c ≠ sign)
    (rest : List Char) : readSign sign (c :: rest) = none := by
  rw [readSign, skipSpace_cons h]
  exact if_neg hne

theorem ends_sign {c : Char} (h : c = ',' ∨ c = ']' ∨ c = '}') (rest : List Char) :
    Ends (c :: rest) := by
  intro d hd
  cases hd
  rcases h with rfl | rfl | rfl
  · decide
  · decide
  · decide

/-!
## Values
-/

/-- A value with no other numbers than counts. -/
inductive IsPlain : Json → Prop
  | null : IsPlain null
  | bool (value : Bool) : IsPlain (bool value)
  | natural (value : Nat) : IsPlain (natural value)
  | text (value : String) : IsPlain (text value)
  | brokenText : IsPlain brokenText
  | array (items : List Json) (h : ∀ item ∈ items, IsPlain item) : IsPlain (array items)
  | object (members : List (Option String × Json)) (h : ∀ member ∈ members, IsPlain member.2) :
      IsPlain (object members)

/-- A value can be told from the end of the value around it by its first character. -/
theorem IsPlain.head {value : Json} (h : value.IsPlain) :
    ∃ c rest, value.write = c :: rest ∧ isSpace c = false ∧ c ≠ ']' ∧ c ≠ '}' := by
  cases h with
  | null => exact ⟨'n', _, rfl, by decide⟩
  | bool value =>
      cases value with
      | true => exact ⟨'t', _, rfl, by decide⟩
      | false => exact ⟨'f', _, rfl, by decide⟩
  | natural value =>
      have hdigit : ∀ c : Char, c.isDigit = true → isSpace c = false ∧ c ≠ ']' ∧ c ≠ '}' := by
        intro c hc
        refine ⟨?_, ?_, ?_⟩
        · rw [Bool.eq_false_iff]
          intro hspace
          simp only [isSpace, Bool.or_eq_true, decide_eq_true_eq] at hspace
          rcases hspace with ((rfl | rfl) | rfl) | rfl <;> cases hc
        · rintro rfl
          cases hc
        · rintro rfl
          cases hc
      cases hdigits : Nat.toDigits 10 value with
      | nil => exact absurd hdigits Nat.toDigits_ne_nil
      | cons c digits =>
          refine ⟨c, digits, (write_natural value).trans hdigits, hdigit c ?_⟩
          exact isDigit_of_mem_digits (n := value) (by rw [hdigits]; exact List.mem_cons_self)
  | text value => exact ⟨'"', _, rfl, by decide⟩
  | brokenText => exact ⟨'"', _, rfl, by decide⟩
  | array items h => exact ⟨'[', _, rfl, by decide⟩
  | object members h => exact ⟨'{', _, rfl, by decide⟩

/-- Whether a value is read where it is written, with depth enough and whatever follows it. -/
def IsRead (value : Json) : Prop :=
  ∀ depth rest, value.write.length ≤ depth → Ends rest →
    readValue depth (value.write ++ rest) = some (value, rest)

theorem readItems_write {items : List Json} (hne : items ≠ [])
    (h : ∀ item ∈ items, item.IsRead) {depth : Nat} (rest : List Char)
    (hdepth : (writeItems items).length ≤ depth) :
    readItems depth (writeItems items ++ rest) = some (items, rest) := by
  induction items generalizing depth with
  | nil => exact absurd rfl hne
  | cons item items ih =>
      have hitem := h item List.mem_cons_self
      have hitems : ∀ item ∈ items, item.IsRead := fun item hmem =>
        h item (List.mem_cons_of_mem _ hmem)
      cases items with
      | nil =>
          rw [writeItems, List.length_append, List.length_singleton] at hdepth
          rcases Nat.exists_eq_add_one_of_ne_zero (by omega : depth ≠ 0) with ⟨left, rfl⟩
          rw [writeItems, List.append_assoc, List.singleton_append, readItems,
            hitem left (']' :: rest) (by omega) (ends_sign (by decide) rest)]
          dsimp only
          rw [readSign_self (by decide)]
      | cons next items =>
          rw [writeItems, List.length_append, List.length_cons] at hdepth
          rcases Nat.exists_eq_add_one_of_ne_zero (by omega : depth ≠ 0) with ⟨left, rfl⟩
          rw [writeItems, List.append_assoc, List.cons_append, readItems,
            hitem left _ (by omega) (ends_sign (by decide) _)]
          dsimp only
          rw [readSign_other (by decide) (by decide), readSign_self (by decide)]
          dsimp only
          rw [ih (List.cons_ne_nil _ _) hitems (by omega)]
          rfl

theorem readMembers_write {members : List (Option String × Json)} (hne : members ≠ [])
    (h : ∀ member ∈ members, member.2.IsRead) {depth : Nat} (rest : List Char)
    (hdepth : (writeMembers members).length ≤ depth) :
    readMembers depth (writeMembers members ++ rest) = some (members, rest) := by
  induction members generalizing depth with
  | nil => exact absurd rfl hne
  | cons member members ih =>
      rcases member with ⟨name, value⟩
      have hvalue : value.IsRead := h _ List.mem_cons_self
      have hmembers : ∀ member ∈ members, member.2.IsRead := fun member hmem =>
        h member (List.mem_cons_of_mem _ hmem)
      have hname : ∀ behind : List Char, (readSign '"' (literal name ++ behind)).bind readLiteral =
          some (name, behind) := by
        intro behind
        rcases readLiteral_literal name behind with ⟨inner, hwritten, hread⟩
        rw [hwritten, readSign_self (by decide), Option.bind_some, hread]
      cases members with
      | nil =>
          rw [writeMembers, List.length_append, List.length_cons, List.length_append,
            List.length_singleton] at hdepth
          rcases Nat.exists_eq_add_one_of_ne_zero (by omega : depth ≠ 0) with ⟨left, rfl⟩
          rw [writeMembers, List.append_assoc, List.cons_append, List.append_assoc,
            List.singleton_append, readMembers, hname]
          dsimp only
          rw [readSign_self (by decide), Option.bind_some,
            hvalue left ('}' :: rest) (by omega) (ends_sign (by decide) rest)]
          dsimp only
          rw [readSign_self (by decide)]
      | cons next members =>
          rw [writeMembers, List.length_append, List.length_cons, List.length_append,
            List.length_cons] at hdepth
          rcases Nat.exists_eq_add_one_of_ne_zero (by omega : depth ≠ 0) with ⟨left, rfl⟩
          rw [writeMembers, List.append_assoc, List.cons_append, List.append_assoc,
            List.cons_append, readMembers, hname]
          dsimp only
          rw [readSign_self (by decide), Option.bind_some,
            hvalue left _ (by omega) (ends_sign (by decide) _)]
          dsimp only
          rw [readSign_other (by decide) (by decide), readSign_self (by decide)]
          dsimp only
          rw [ih (List.cons_ne_nil _ _) hmembers (by omega)]
          rfl

/-!
## Reading a value
-/

theorem readValue_digit {c : Char} (h : c.isDigit = true) (depth : Nat) (rest : List Char) :
    readValue (depth + 1) (c :: rest) = readNumber (c :: rest) := by
  have hspace : isSpace c = false := by
    rw [Bool.eq_false_iff]
    intro hspace
    simp only [isSpace, Bool.or_eq_true, decide_eq_true_eq] at hspace
    rcases hspace with ((rfl | rfl) | rfl) | rfl <;> cases h
  rw [readValue, skipSpace_cons hspace]
  -- no other value starts with a digit
  split
  case h_7 => rfl
  all_goals
    rename_i hcons
    cases hcons
    cases h

theorem readValue_quote (depth : Nat) (rest : List Char) :
    readValue (depth + 1) ('"' :: rest) =
      (readLiteral rest).map fun found => (ofLiteral found.1, found.2) := by
  rw [readValue]
  rfl

theorem readValue_bracket (depth : Nat) (rest : List Char) :
    readValue (depth + 1) ('[' :: rest) =
      match readSign ']' rest with
      | some rest => some (array [], rest)
      | none => (readItems depth rest).map fun found => (array found.1, found.2) := by
  rw [readValue]
  rfl

theorem readValue_brace (depth : Nat) (rest : List Char) :
    readValue (depth + 1) ('{' :: rest) =
      match readSign '}' rest with
      | some rest => some (object [], rest)
      | none => (readMembers depth rest).map fun found => (object found.1, found.2) := by
  rw [readValue]
  rfl

theorem exists_depth {value : Json} (h : value.IsPlain) {depth : Nat}
    (hdepth : value.write.length ≤ depth) : ∃ left, depth = left + 1 := by
  rcases h.head with ⟨c, rest, hwritten, -⟩
  rw [hwritten, List.length_cons] at hdepth
  exact ⟨depth - 1, by omega⟩

theorem isRead_natural (n : Nat) : (natural n).IsRead := by
  intro depth rest hdepth hrest
  rcases exists_depth (.natural n) hdepth with ⟨left, rfl⟩
  rw [write_natural, ← readNumber_digits n hrest]
  cases hdigits : Nat.toDigits 10 n with
  | nil => exact absurd hdigits Nat.toDigits_ne_nil
  | cons c digits =>
      have hdigit : c.isDigit = true :=
        isDigit_of_mem_digits (n := n) (by rw [hdigits]; exact List.mem_cons_self)
      exact readValue_digit hdigit left _

theorem isRead_literal (name : Option String) : (ofLiteral name).IsRead := by
  intro depth rest hdepth hrest
  have hplain : (ofLiteral name).IsPlain := by
    cases name with
    | none => exact .brokenText
    | some s => exact .text s
  rcases exists_depth hplain hdepth with ⟨left, rfl⟩
  have hwritten : (ofLiteral name).write = literal name := by
    cases name <;> rfl
  rcases readLiteral_literal name rest with ⟨behind, hquoted, hread⟩
  rw [hwritten, hquoted, readValue_quote, hread]
  rfl

theorem isRead_array {items : List Json} (hplain : ∀ item ∈ items, item.IsPlain)
    (h : ∀ item ∈ items, item.IsRead) : (array items).IsRead := by
  intro depth rest hdepth hrest
  rcases exists_depth (.array items hplain) hdepth with ⟨left, rfl⟩
  have hwritten : (array items).write = '[' :: writeItems items := rfl
  rw [hwritten, List.length_cons] at hdepth
  rw [hwritten, List.cons_append, readValue_bracket]
  cases items with
  | nil =>
      have hend : readSign ']' (writeItems [] ++ rest) = some rest := readSign_self (by decide) rest
      rw [hend]
  | cons item items =>
      have hfirst : readSign ']' (writeItems (item :: items) ++ rest) = none := by
        rcases (hplain item List.mem_cons_self).head with ⟨c, inner, hitem, hspace, hne, -⟩
        cases items with
        | nil =>
            rw [writeItems, hitem]
            exact readSign_other hspace hne _
        | cons next items =>
            rw [writeItems, hitem]
            exact readSign_other hspace hne _
      rw [hfirst]
      dsimp only
      rw [readItems_write (List.cons_ne_nil _ _) h rest (by omega)]
      rfl

theorem isRead_object {members : List (Option String × Json)}
    (hplain : ∀ member ∈ members, member.2.IsPlain)
    (h : ∀ member ∈ members, member.2.IsRead) : (object members).IsRead := by
  intro depth rest hdepth hrest
  rcases exists_depth (.object members hplain) hdepth with ⟨left, rfl⟩
  have hwritten : (object members).write = '{' :: writeMembers members := rfl
  rw [hwritten, List.length_cons] at hdepth
  rw [hwritten, List.cons_append, readValue_brace]
  cases members with
  | nil =>
      have hend : readSign '}' (writeMembers [] ++ rest) = some rest :=
        readSign_self (by decide) rest
      rw [hend]
  | cons member members =>
      have hfirst : readSign '}' (writeMembers (member :: members) ++ rest) = none := by
        rcases member with ⟨name, value⟩
        rcases readLiteral_literal name [] with ⟨behind, hname, -⟩
        rw [List.append_nil] at hname
        cases members with
        | nil =>
            rw [writeMembers, hname]
            exact readSign_other (by decide) (by decide) _
        | cons next members =>
            rw [writeMembers, hname]
            exact readSign_other (by decide) (by decide) _
      rw [hfirst]
      dsimp only
      rw [readMembers_write (List.cons_ne_nil _ _) h rest (by omega)]
      rfl

theorem IsPlain.isRead {value : Json} (h : value.IsPlain) : value.IsRead := by
  induction h with
  | null =>
      intro depth rest hdepth hrest
      rcases exists_depth .null hdepth with ⟨left, rfl⟩
      rfl
  | bool value =>
      intro depth rest hdepth hrest
      rcases exists_depth (.bool value) hdepth with ⟨left, rfl⟩
      cases value <;> rfl
  | natural value => exact isRead_natural value
  | text value => exact isRead_literal (some value)
  | brokenText => exact isRead_literal none
  | array items hplain ih => exact isRead_array hplain ih
  | object members hplain ih => exact isRead_object hplain ih

/-- A value is read back from its text. -/
theorem IsPlain.parse_print {value : Json} (h : value.IsPlain) :
    parse value.print = some value := by
  have hprinted : value.print.toList = value.write := String.toList_ofList
  have hlength : value.write.length ≤ 2 * value.print.length + 2 := by
    rw [← hprinted, String.length_toList]
    omega
  have hread := h.isRead _ [] hlength (by rintro c ⟨⟩)
  rw [List.append_nil] at hread
  rw [parse, hprinted, hread]
  rfl

/-!
## Visible characters
-/

theorem visible_items {items : List Json} (h : ∀ item ∈ items, ∀ c ∈ item.write, 0x20 ≤ c.toNat)
    {c : Char} (hc : c ∈ writeItems items) : 0x20 ≤ c.toNat := by
  induction items with
  | nil =>
      rw [writeItems, List.mem_singleton] at hc
      rw [hc]
      decide
  | cons item items ih =>
      have hitem := h item List.mem_cons_self c
      cases items with
      | nil =>
          rw [writeItems, List.mem_append, List.mem_singleton] at hc
          rcases hc with hc | rfl
          · exact hitem hc
          · decide
      | cons next items =>
          rw [writeItems, List.mem_append, List.mem_cons] at hc
          rcases hc with hc | rfl | hc
          · exact hitem hc
          · decide
          · exact ih (fun item hmem => h item (List.mem_cons_of_mem _ hmem)) hc

theorem visible_members {members : List (Option String × Json)}
    (h : ∀ member ∈ members, ∀ c ∈ member.2.write, 0x20 ≤ c.toNat)
    {c : Char} (hc : c ∈ writeMembers members) : 0x20 ≤ c.toNat := by
  induction members with
  | nil =>
      rw [writeMembers, List.mem_singleton] at hc
      rw [hc]
      decide
  | cons member members ih =>
      rcases member with ⟨name, value⟩
      have hvalue : c ∈ value.write → 0x20 ≤ c.toNat := h _ List.mem_cons_self c
      cases members with
      | nil =>
          rw [writeMembers, List.mem_append, List.mem_cons, List.mem_append,
            List.mem_singleton] at hc
          rcases hc with hc | rfl | hc | rfl
          · exact visible_literal hc
          · decide
          · exact hvalue hc
          · decide
      | cons next members =>
          rw [writeMembers, List.mem_append, List.mem_cons, List.mem_append, List.mem_cons] at hc
          rcases hc with hc | rfl | hc | rfl | hc
          · exact visible_literal hc
          · decide
          · exact hvalue hc
          · decide
          · exact ih (fun member hmem => h member (List.mem_cons_of_mem _ hmem)) hc

/-- No control character is written, and so no line break. -/
theorem IsPlain.visible {value : Json} (h : value.IsPlain) :
    ∀ c ∈ value.write, 0x20 ≤ c.toNat := by
  induction h with
  | null => exact visible_of_all (by decide)
  | bool value => cases value <;> exact visible_of_all (by decide)
  | natural value =>
      intro c hc
      rw [write_natural] at hc
      have hdigit := (Char.isDigit_iff_toNat.mp (isDigit_of_mem_digits hc)).1
      exact Nat.le_trans (by decide) hdigit
  | text value =>
      intro c hc
      have hc : c ∈ literal (some value) := hc
      exact visible_literal hc
  | brokenText =>
      intro c hc
      have hc : c ∈ literal none := hc
      exact visible_literal hc
  | array items hplain ih =>
      intro c hc
      rcases List.mem_cons.mp hc with rfl | hc
      · decide
      · exact visible_items ih hc
  | object members hplain ih =>
      intro c hc
      rcases List.mem_cons.mp hc with rfl | hc
      · decide
      · exact visible_members ih hc

end Json
end BulkTransfer
