import LetStack.Proofs.Grammar.Appending
import LetStack.Proofs.Grammar.Completeness

/-!
`parseModule` and `buildModule` accept the tokens that are derivable as a module, and the tree that `buildModule` puts
in has the form of the derivation, of which there is only one.
-/

namespace LetStack.Grammar
open Ast

/-- A word has one form as a module: all its derivations give the form of what is parsed. -/
theorem Derives.module_unique {forms others : List StatementForm} {toks : List Token}
    (h : Derives (.module forms) toks) (h' : Derives (.module others) toks) : forms = others := by
  obtain ⟨statements, parsed, rfl⟩ := parseModule_complete h
  obtain ⟨again, parsed', rfl⟩ := parseModule_complete h'
  cases parsed.symm.trans parsed'
  rfl

/-- Tokens parse exactly when they are derivable, and then the module put into the builder reads back
as the one form that derivations of them give. -/
theorem parseModule_agrees (toks : List Token) (b : Builder) :
    ((∃ statements, parseModule toks = .ok statements) ↔ ∃ forms, Derives (.module forms) toks) ∧
    ((∃ id, (buildModule b toks).1 = .ok id) ↔ ∃ forms, Derives (.module forms) toks) ∧
    ∀ id, (buildModule b toks).1 = .ok id →
      ∃ forms, (buildModule b toks).2.moduleForm? id = some forms ∧
        Derives (.module forms) toks ∧ ∀ others, Derives (.module others) toks → others = forms := by
  refine ⟨⟨?_, ?_⟩, ⟨?_, ?_⟩, ?_⟩
  · rintro ⟨statements, parsed⟩
    exact ⟨_, (parseModule_sound parsed).1⟩
  · rintro ⟨forms, derived⟩
    obtain ⟨statements, parsed, _⟩ := parseModule_complete derived
    exact ⟨statements, parsed⟩
  · rintro ⟨id, built⟩
    obtain ⟨statements, parsed, _⟩ := buildModule_parsed built
    exact ⟨_, (parseModule_sound parsed).1⟩
  · rintro ⟨forms, derived⟩
    obtain ⟨statements, parsed, _⟩ := parseModule_complete derived
    obtain ⟨id, built, _⟩ := buildModule_of_ok b parsed
    exact ⟨id, built⟩
  · intro id built
    obtain ⟨statements, parsed, module⟩ := buildModule_parsed built
    obtain ⟨m, stored⟩ := module.stored
    have derived := (parseModule_sound parsed).1
    exact ⟨_, stored.moduleForm?, derived, fun _ other => other.module_unique derived⟩

end LetStack.Grammar
