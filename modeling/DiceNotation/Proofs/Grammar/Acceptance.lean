import DiceNotation.Proofs.Grammar.Parentheses
import DiceNotation.Proofs.Reader.Climbing

/-!
# What the reader accepts

The reader decides with a flag and two stacks what the grammar says with six rules. It accepts
the phrases, and no token at all, and refuses a phrase only for its depth. The expression it
makes of a phrase is one of its groupings.
-/

namespace DiceNotation.Reader

open Climbing

theorem accepts_or_tooDeep {ts : List Token} (h : Phrase ts) :
    (∃ found, Expr.ofTokens ts = .ok found) ∨ ∃ i, Expr.ofTokens ts = .error (.tooDeep i) := by
  obtain ⟨e, he⟩ := exists_read_of_phrase h
  rcases Nat.lt_or_ge maxDepth e.depth with hd | hd
  · exact .inr (ofTokens_eq_tooDeep he hd)
  · exact .inl ⟨some e, ofTokens_of_read he hd⟩

/-- The reader accepts phrases and the empty sequence, and refuses them only for their depth.
The payloads of the expression are the payloads of the phrase, and every pair of parentheses
encloses the span of a part. -/
theorem ofTokens_accepts_phrases (ts : List Token) :
    (∀ found, Expr.ofTokens ts = .ok found → ts = [] ∨ Phrase ts) ∧
      (ts = [] ∨ Phrase ts →
        (∃ found, Expr.ofTokens ts = .ok found) ∨ ∃ i, Expr.ofTokens ts = .error (.tooDeep i)) ∧
      ∀ e, Expr.ofTokens ts = .ok (some e) →
        e.payloads = payloads ts ∧
          ∀ us vs ws, ts = us ++ .opened :: vs ++ .closed :: ws → Balanced vs →
            ∃ x, Part (payloads us) x (payloads ws) e ∧ x.payloads = payloads vs := by
  refine ⟨?sound, ?complete, ?grouping⟩
  case sound =>
    intro found h
    cases found with
    | none => exact .inl (ofTokens_eq_none_iff.mp h)
    | some e => exact .inr (spells_of_read (ofTokens_eq_some_iff.mp h).1).phrase
  case complete =>
    rintro (rfl | h)
    · exact .inl ⟨none, rfl⟩
    · exact accepts_or_tooDeep h
  case grouping =>
    intro e h
    have hspells := spells_of_read (ofTokens_eq_some_iff.mp h).1
    refine ⟨hspells.payloads_eq.symm, fun us vs ws hts hvs => ?_⟩
    obtain ⟨x, hpart, hx⟩ := hspells.exists_part hts.symm hvs
    exact ⟨x, hpart, hx.payloads_eq.symm⟩

end DiceNotation.Reader
