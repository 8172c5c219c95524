import Lipi.Proofs.Position
import Lipi.Proofs.Program.Brace
import Lipi.Proofs.Token.Rewriting

/-!
# Rewriting before other stages

Keywords are replaced after all other stages. Comments, terminators and braces would be treated in
the same way if it were done before: JavaScript for a keyword has none of the characters that they
are told by, and takes up no line. Columns do change, so a brace without a partner keeps its line
only (`checkBraces_replaceKeywords`).
-/

namespace Lipi.Text

theorem UnmatchedBrace.replaceKeywords {fault : Fault} {before text : Text}
    (unmatched : UnmatchedBrace fault before text) :
    UnmatchedBrace fault (Text.replaceKeywords before) (Text.replaceKeywords text) := by
  cases unmatched with
  | closing after balanced =>
    rw [replaceKeywords_append_symbol (by decide) (by decide)]
    exact .closing _ (balanced_replaceKeywords.mpr balanced)
  | opening scanned balanced =>
    rw [replaceKeywords_append_symbol (by decide) (by decide)]
    exact .opening (by rwa [depthAfter?_replaceKeywords]) (balanced_replaceKeywords.mpr balanced)

theorem UnmatchedBrace.line_locate {fault : Fault} {before text : Text}
    (unmatched : UnmatchedBrace fault before text) :
    (Rejection.locate fault text (byteLength before)).position.line = (lines before).length := by
  obtain ⟨after, rfl⟩ := unmatched.isPrefix
  exact Position.line_ofOffset before after

theorem checkBraces_replaceKeywords {text : Text} {rejection : Rejection}
    (refused : checkBraces text = .error rejection) :
    ∃ rewritten, checkBraces (replaceKeywords text) = .error rewritten ∧
      rewritten.fault = rejection.fault ∧ rewritten.position.line = rejection.position.line := by
  obtain ⟨fault, before, unmatched, rfl⟩ := checkBraces_eq_error_iff.mp refused
  have after := unmatched.replaceKeywords
  refine ⟨_, checkBraces_of_unmatchedBrace after, rfl, ?_⟩
  rw [after.line_locate, unmatched.line_locate, lines_replaceKeywords, List.length_map]

/-- Rewriting changes places with the two stages that change texts, and the check of braces passes
the same texts after it. A text that it refuses is refused for the same reason on the same line. -/
theorem rewriting_commutes_with_stages (text : Text) :
    stripComments (replaceKeywords text) = replaceKeywords (stripComments text) ∧
    terminateStatements (replaceKeywords text) = replaceKeywords (terminateStatements text) ∧
    (checkBraces (replaceKeywords text) = .ok () ↔ checkBraces text = .ok ()) ∧
    ∀ rejection, checkBraces text = .error rejection →
      ∃ rewritten, checkBraces (replaceKeywords text) = .error rewritten ∧
        rewritten.diagnostic.message = rejection.diagnostic.message ∧
        rewritten.position.line = rejection.position.line := by
  refine ⟨stripComments_replaceKeywords text, terminateStatements_replaceKeywords text, ?_, ?_⟩
  · rw [checkBraces_eq_ok_iff, checkBraces_eq_ok_iff, balanced_replaceKeywords]
  · intro rejection refused
    obtain ⟨rewritten, refused', fault, line⟩ := checkBraces_replaceKeywords refused
    refine ⟨rewritten, refused', ?_, line⟩
    simp only [Rejection.diagnostic, Diagnostic.about, fault]

/-- A closing brace too many, after keywords on its line and on the one before. -/
def strayBrace : Text :=
  "यावत् (x) \x7b // \x7d\nमुद्रय(सत्य) \x7d\x7d".toList

theorem strayBrace_keeps_line :
    ∃ rejection rewritten, checkBraces strayBrace = .error rejection ∧
      checkBraces (replaceKeywords strayBrace) = .error rewritten ∧
      rewritten.diagnostic.message = rejection.diagnostic.message ∧
      rewritten.position.line = rejection.position.line := by
  have refused : checkBraces strayBrace =
      .error ⟨.unmatchedClosing, 2, 14, "मुद्रय(सत्य) \x7d\x7d".toList⟩ := by decide +kernel
  obtain ⟨-, -, -, later⟩ := rewriting_commutes_with_stages strayBrace
  obtain ⟨rewritten, refused', message, line⟩ := later _ refused
  exact ⟨_, rewritten, refused, refused', message, line⟩

end Lipi.Text
