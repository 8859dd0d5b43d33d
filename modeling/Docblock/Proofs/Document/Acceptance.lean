import Docblock.Proofs.CloseMarkers
import Docblock.Proofs.Document.Structure

/-!
# Printed comments are accepted

A text that opens with the marker of a comment and ends with a close marker is a comment, whatever
stands between the two: the opening marker is the first token, and nothing follows the close marker
that could hide it.  Printed comments are such texts, also if names, descriptions and types hold
quotes, line feeds, tags or close markers of their own.
-/

namespace Docblock

namespace Document

open Text

variable {source : String}

/-- A text that starts with an opening marker is an opened comment. -/
theorem isOpened_of_marker {next : Char} {rest : List Char}
    (starts : source.toList = '/' :: '*' :: '*' :: next :: rest) (spaced : isSpace next = true) :
    TokenList.isOpened (TokenList.behindBlank (tokenize source)) = true := by
  obtain ⟨line, isTokenized⟩ := exists_tokenize_eq_scanFrom source
  have rule : Lexeme.rule? '/' ('*' :: '*' :: next :: rest) = some ⟨.openDoc, 2⟩ := by
    rw [Lexeme.rule?_eq_slash?]
    exact if_pos spaced
  have isOpen : (Token.cut 1 '/' ('*' :: '*' :: next :: rest)).kind = .openDoc := by
    rw [Token.cut, Lexeme.first_of_rule? rule]
  have notBlank : (Token.cut 1 '/' ('*' :: '*' :: next :: rest)).kind ≠ .blank := by
    rw [isOpen]
    decide
  rw [isTokenized, starts, scanFrom_cons, List.cons_append, TokenList.behindBlank,
    if_neg notBlank]
  exact decide_eq_true isOpen

/-- A text that ends with a close marker is a closed comment. -/
theorem isClosed_of_marker {before : String} (ends : source = before ++ "*/") :
    TokenList.isClosed (TokenList.behindBlank (tokenize source)) = true := by
  have split : source = before ++ "*/" ++ "" := by rw [ends, String.append_empty]
  obtain ⟨close, isMember, isClose⟩ :=
    (meetsClose_tokenize split).exists_close (by rw [text_tokenize, ends])
  rw [isClosed_behindBlank, List.any_eq_true]
  exact ⟨close, isMember, decide_eq_true isClose⟩

/-- A comment that is opened and closed is accepted. -/
theorem exists_ofTokens (tracking : Tracking)
    (opened : TokenList.isOpened (TokenList.behindBlank (tokenize source)) = true)
    (closed : TokenList.isClosed (TokenList.behindBlank (tokenize source)) = true) :
    ∃ document, ofTokens tracking (tokenize source) = .ok document := by
  obtain ⟨-, -, _, _, _, document, _, -, -, -, accepted, -⟩ | ⟨unopened, -⟩ | ⟨-, unclosed, -⟩ :=
    run_cases tracking source
  · exact ⟨document, by rw [ofTokens, accepted]; rfl⟩
  · cases opened.symm.trans unopened
  · cases closed.symm.trans unclosed

/-- Whatever a comment holds, its printed form is accepted as a comment. -/
theorem print_accepted (document : Document) : ∃ found, ofText document.print = .ok found := by
  have starts : ∃ rest, document.print.toList = '/' :: '*' :: '*' :: '\n' :: rest := by
    simp [print]
  obtain ⟨rest, starts⟩ := starts
  have ends : document.print = "/**\n *" ++
      String.intercalate "\n *" (document.children.map fun child => behindGutter child.print) ++
        "\n " ++ "*/" := by
    have marker : "\n */" = "\n " ++ "*/" := rfl
    rw [print, marker, ← String.append_assoc]
  exact exists_ofTokens .off (isOpened_of_marker starts rfl) (isClosed_of_marker ends)

end Document

end Docblock
