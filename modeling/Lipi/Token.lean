import Lipi.Keyword
import Lipi.Text.Utf8
import Lipi.Text.WordChar

/-!
# Tokens

A token is a longest run of word characters or a single other character. A run that spells a
keyword is that keyword, provided that what follows it allows the keyword to end there.
-/

namespace Lipi

/-- What a token is. -/
inductive TokenKind where
  | keyword (keyword : Keyword)
  | word
  | symbol
  deriving DecidableEq, Repr

/-- A piece of a text. -/
structure Token where
  kind : TokenKind
  text : Text
  deriving DecidableEq, Repr

namespace Token

/-- Whether a keyword may end before the given character. Word characters are told from others by
their first byte here, so a keyword ends before an ASCII character, before a character whose first
byte starts no word character, and at the end of the text. -/
def endsKeyword : Option Char → Bool
  | none => true
  | some c => c.toNat < 0x80 || [0xEE, 0xF1, 0xF2, 0xF4].contains (Text.leadByte c)

/-- What a longest run of word characters is, given the text after it. -/
def runKind (run rest : Text) : TokenKind :=
  match Keyword.ofSpelling? run with
  | some keyword => if endsKeyword rest.head? then .keyword keyword else .word
  | none => .word

/-- The tokens of a text, in order. -/
def tokenize : Text → List Token
  | [] => []
  | c :: text =>
    if Text.isWordChar c then
      let run := c :: text.takeWhile Text.isWordChar
      let rest := text.dropWhile Text.isWordChar
      ⟨runKind run rest, run⟩ :: tokenize rest
    else ⟨.symbol, [c]⟩ :: tokenize text
termination_by text => text.length
decreasing_by
  · exact Nat.lt_succ_of_le (List.dropWhile_sublist _).length_le
  · simp

/-- The offsets at which tokens start and end, the first of them at `start`. -/
def spans (start : Nat) : List Token → List (TokenKind × Nat × Nat)
  | [] => []
  | token :: rest =>
    let stop := start + Text.byteLength token.text
    (token.kind, start, stop) :: spans stop rest

/-- The JavaScript for a token: a keyword's host text, and any other token as it is. -/
def host (token : Token) : Text :=
  match token.kind with
  | .keyword keyword => keyword.host
  | _ => token.text

end Token

namespace Text

/-- The text with every keyword token replaced by its host text. -/
def replaceKeywords (text : Text) : Text :=
  (Token.tokenize text).flatMap Token.host

end Text

end Lipi
