import Mathlib.Data.List.Forall2
import BulkTransfer.Job.Parse

/-!
# What a signature reads

The arguments of a command are its words, each checked against the kind of its place.
The kinds of the standard commands give every operation the arguments that it needs.
-/

namespace BulkTransfer
namespace CommandSpec

/-!
## Checked words
-/

/-- Words are checked against one kind each, a missing word as an empty one.  The
reference is handed on from word to word. -/
inductive Checks (tree : FileTree) :
    List ArgumentKind → Option Argument → List String → List Argument → Option Argument → Prop
  | nil (reference : Option Argument) (words : List String) :
      Checks tree [] reference words [] reference
  | cons {kind : ArgumentKind} {kinds : List ArgumentKind} {reference last : Option Argument}
      {words : List String} {argument : Argument} {arguments : List Argument} :
      validate tree kind reference (words.headD "") = .ok argument →
      Checks tree kinds (nextReference kind reference argument) words.tail arguments last →
      Checks tree (kind :: kinds) reference words (argument :: arguments) last

variable {tree : FileTree}

theorem bindFixed_eq_ok_iff {kinds : List ArgumentKind} {reference last : Option Argument}
    {words : List String} {arguments : List Argument} :
    bindFixed tree kinds reference words = .ok (arguments, last) ↔
      Checks tree kinds reference words arguments last := by
  constructor
  · intro h
    induction kinds generalizing reference words arguments with
    | nil =>
        cases h
        exact .nil _ _
    | cons kind kinds ih =>
        rw [bindFixed] at h
        cases hword : validate tree kind reference (words.headD "") with
        | error error => rw [hword] at h; cases h
        | ok argument =>
            rw [hword] at h
            cases hrest : bindFixed tree kinds (nextReference kind reference argument)
                words.tail with
            | error error => simp only [hrest, reduceCtorEq] at h
            | ok rest =>
                rcases rest with ⟨others, reference'⟩
                simp only [hrest, Except.ok.injEq, Prod.mk.injEq] at h
                rcases h with ⟨rfl, rfl⟩
                exact .cons hword (ih hrest)
  · intro h
    induction h with
    | nil => rfl
    | cons hword _ ih => rw [bindFixed, hword]; simp only [ih]

theorem bindRest_eq_ok_iff {kind : ArgumentKind} {reference : Option Argument}
    {words : List String} {arguments : List Argument} :
    bindRest tree kind reference words = .ok arguments ↔
      List.Forall₂ (fun word argument => validate tree kind reference word = .ok argument)
        words arguments := by
  constructor
  · intro h
    induction words generalizing arguments with
    | nil =>
        cases h
        exact .nil
    | cons word words ih =>
        rw [bindRest] at h
        cases hword : validate tree kind reference word with
        | error error => rw [hword] at h; cases h
        | ok argument =>
            rw [hword] at h
            cases hrest : bindRest tree kind reference words with
            | error error => simp only [hrest, reduceCtorEq] at h
            | ok others =>
                simp only [hrest, Except.ok.injEq] at h
                rw [← h]
                exact .cons hword (ih hrest)
  · intro h
    induction h with
    | nil => rfl
    | cons hword _ ih => rw [bindRest, hword]; simp only [ih]

/-- The words of a command become its arguments. -/
inductive Binds (tree : FileTree) (spec : CommandSpec) (words : List String) :
    List Argument → Prop
  | fixed {arguments : List Argument} {last : Option Argument} :
      spec.isVariadic = false →
      Checks tree spec.fixedKinds none words arguments last → Binds tree spec words arguments
  | variadic {front rest : List Argument} {last : Option Argument} :
      spec.isVariadic = true →
      Checks tree spec.fixedKinds none words front last →
      List.Forall₂ (fun word argument =>
        validate tree (spec.fixedKinds.getLast?.getD .uncheckedOneOrMore) last word =
          .ok argument) (words.drop spec.fixedKinds.length) rest →
      Binds tree spec words (front ++ rest)

theorem bindArguments_eq_ok_iff {spec : CommandSpec} {words : List String}
    {arguments : List Argument} :
    bindArguments tree spec words = .ok arguments ↔ Binds tree spec words arguments := by
  rw [bindArguments]
  cases hfixed : bindFixed tree spec.fixedKinds none words with
  | error error =>
      constructor
      · intro h
        cases h
      · intro h
        cases h with
        | fixed _ hchecks | variadic _ hchecks _ =>
            rw [bindFixed_eq_ok_iff.mpr hchecks] at hfixed
            cases hfixed
  | ok outcome =>
      rcases outcome with ⟨front, last⟩
      have hchecks := bindFixed_eq_ok_iff.mp hfixed
      cases hvariadic : spec.isVariadic with
      | false =>
          simp only [Bool.false_eq_true, if_false]
          constructor
          · intro h
            cases h
            exact .fixed hvariadic hchecks
          · intro h
            cases h with
            | fixed _ hchecks' =>
                rw [bindFixed_eq_ok_iff.mpr hchecks'] at hfixed
                cases hfixed
                rfl
            | variadic hvariadic' => rw [hvariadic] at hvariadic'; cases hvariadic'
      | true =>
          simp only [if_true]
          cases hrest : bindRest tree (spec.fixedKinds.getLast?.getD .uncheckedOneOrMore) last
              (words.drop spec.fixedKinds.length) with
          | error error =>
              constructor
              · intro h
                cases h
              · intro h
                cases h with
                | fixed hvariadic' => rw [hvariadic] at hvariadic'; cases hvariadic'
                | variadic _ hchecks' hothers =>
                    rw [bindFixed_eq_ok_iff.mpr hchecks'] at hfixed
                    cases hfixed
                    rw [bindRest_eq_ok_iff.mpr hothers] at hrest
                    cases hrest
          | ok rest =>
              constructor
              · intro h
                cases h
                exact .variadic hvariadic hchecks (bindRest_eq_ok_iff.mp hrest)
              · intro h
                cases h with
                | fixed hvariadic' => rw [hvariadic] at hvariadic'; cases hvariadic'
                | variadic _ hchecks' hothers =>
                    rw [bindFixed_eq_ok_iff.mpr hchecks'] at hfixed
                    cases hfixed
                    rw [bindRest_eq_ok_iff.mpr hothers] at hrest
                    cases hrest
                    rfl

theorem read_eq_ok_iff {spec : CommandSpec} {words : List String} {options : Options}
    {arguments : List Argument} :
    spec.read tree words = some (.ok (options, arguments)) ↔
      ∃ rest, takeFlags spec.operation.acceptedFlags spec.impliedOptions words = (options, rest) ∧
        spec.acceptsArity rest.length = true ∧ Binds tree spec rest arguments := by
  rw [read]
  rcases hflags : takeFlags spec.operation.acceptedFlags spec.impliedOptions words with
    ⟨options', rest⟩
  cases harity : spec.acceptsArity rest.length with
  | false =>
      simp only [harity, Bool.false_eq_true, if_false, reduceCtorEq, false_iff]
      rintro ⟨_, hsame, harity', -⟩
      cases hsame
      rw [harity] at harity'
      cases harity'
  | true =>
      simp only [harity, if_true, Option.some.injEq]
      cases hbound : bindArguments tree spec rest with
      | error error =>
          constructor
          · intro h
            cases h
          · rintro ⟨_, hsame, -, hbinds⟩
            cases hsame
            rw [bindArguments_eq_ok_iff.mpr hbinds] at hbound
            cases hbound
      | ok found =>
          constructor
          · intro h
            cases h
            exact ⟨rest, rfl, harity, bindArguments_eq_ok_iff.mp hbound⟩
          · rintro ⟨_, hsame, -, hbinds⟩
            cases hsame
            rw [bindArguments_eq_ok_iff.mpr hbinds] at hbound
            cases hbound
            rfl

end CommandSpec
end BulkTransfer
