import Mathlib.Data.Set.Function
import Lipi.Proofs.Token.Rewriting
import Lipi.Proofs.Token.Segmentation

/-!
# Words that rewriting keeps

Rewriting replaces the keywords of a text, and the words it puts in their place are not read as
keywords again. A word that spells a keyword is still kept where the character after it, beyond
ASCII, holds it back. These words are the ones that spell a keyword afterwards, in the same order
(`bijOn_rewritten`), and all text besides the keywords is copied (`rewriting_survivors`).
-/

namespace Lipi

namespace Text

/-! ### Words that are held back -/

/-- A word in a text, with what is before it and after it. -/
structure WordPlace where
  before : Text
  word : Text
  after : Text

def WordPlace.rewritten (place : WordPlace) : WordPlace :=
  { place with before := replaceKeywords place.before, after := replaceKeywords place.after }

/-- The longest runs of the text that spell a keyword. -/
def spelledRuns (text : Text) : Set WordPlace :=
  { place | MaximalRun text place.before place.word place.after ∧
    ∃ keyword : Keyword, place.word = keyword.spelling }

/-- The text starts with a character beyond ASCII that has none of the first bytes in front of
which a keyword ends. -/
def HoldsBack (after : Text) : Prop :=
  ∃ c ∈ after.head?, 0x80 ≤ c.toNat ∧ ∀ byte ∈ Token.keywordLeads, (encode [c]).head? ≠ some byte

def heldRuns (text : Text) : Set WordPlace :=
  { place ∈ spelledRuns text | HoldsBack place.after }

theorem holdsBack_iff {after : Text} : HoldsBack after ↔ ¬ Token.KeywordEnds after := by
  unfold HoldsBack Token.KeywordEnds
  push Not
  rfl

theorem HoldsBack.replaceKeywords {after : Text} (held : HoldsBack after) (border : EndsRun after) :
    HoldsBack (Text.replaceKeywords after) := by
  unfold HoldsBack
  rw [head?_replaceKeywords border]
  exact held

/-! ### The JavaScript for a spelled run -/

theorem runHost_of_holdsBack {keyword : Keyword} {rest : Text} (held : HoldsBack rest) :
    runHost keyword.spelling rest = keyword.spelling := by
  unfold runHost
  cases kind : Token.runKind keyword.spelling rest with
  | keyword other => exact absurd (Token.runKind_eq_keyword_iff.mp kind).2 (holdsBack_iff.mp held)
  | word => rfl
  | symbol => rfl

theorem holdsBack_of_runHost {keyword : Keyword} {rest : Text}
    (kept : runHost keyword.spelling rest = keyword.spelling) : HoldsBack rest := by
  rw [holdsBack_iff]
  intro ends
  have differs : keyword.host ≠ keyword.spelling := by cases keyword <;> decide
  have kind := Token.runKind_spelling keyword (Token.keywordEnds_iff.mp ends)
  unfold runHost at kept
  rw [kind] at kept
  exact differs kept

/-! ### Longest runs of the rewritten text -/

theorem getLast?_replaceKeywords {text : Text} {c : Char} (other : isWordChar c = false)
    (last : text.getLast? = some c) : (replaceKeywords text).getLast? = some c := by
  induction text using runs_induction with
  | nil => cases last
  | symbol d text symbol ih =>
    rw [replaceKeywords_symbol symbol]
    rw [List.getLast?_cons] at last ⊢
    cases inner : text.getLast? with
    | none =>
      rw [inner] at last
      rw [List.getLast?_eq_none_iff.mp inner, replaceKeywords_nil]
      exact last
    | some e =>
      rw [inner] at last
      rw [ih (inner.trans last)]
      rfl
  | run run rest isRun border ih =>
    rw [replaceKeywords_run isRun border]
    rw [List.getLast?_append] at last ⊢
    cases inner : rest.getLast? with
    | none =>
      rw [inner, Option.none_or] at last
      have word := isRun.isWordChar c (List.mem_of_getLast? last)
      rw [other] at word
      cases word
    | some e =>
      rw [inner] at last
      rw [ih (inner.trans last)]
      rfl

theorem MaximalRun.replaceKeywords {text before run after : Text}
    (maximal : MaximalRun text before run after) (kept : runHost run after = run) :
    MaximalRun (Text.replaceKeywords text) (Text.replaceKeywords before) run
      (Text.replaceKeywords after) := by
  obtain ⟨rfl, isRun, starts, ends⟩ := maximal
  refine ⟨?_, isRun, ?_, ends.replaceKeywords⟩
  · rw [List.append_assoc, replaceKeywords_append (.inl starts), replaceKeywords_run isRun ends,
      kept, List.append_assoc]
  · intro c last
    cases inner : before.getLast? with
    | none =>
      rw [List.getLast?_eq_none_iff.mp inner, replaceKeywords_nil] at last
      cases last
    | some d =>
      have other := starts d inner
      rw [getLast?_replaceKeywords other inner, Option.mem_some_iff] at last
      rwa [← last]

theorem maximalRun_foreign {first rest before after : Text} {keyword : Keyword}
    (foreign : IsForeign first) (border : EndsRun rest)
    (maximal : MaximalRun (first ++ rest) before keyword.spelling after) :
    ∃ before', before = first ++ before' ∧ MaximalRun rest before' keyword.spelling after := by
  rcases (maximalRun_run_iff foreign.toIsRun border).mp maximal with ⟨-, same, -⟩ | later
  · have found := keyword.ofSpelling?_spelling
    rw [same, foreign.ofSpelling?_eq_none] at found
    cases found
  · exact later

theorem maximalRun_host {keyword other : Keyword} {rest before after : Text} (border : EndsRun rest)
    (maximal : MaximalRun (keyword.host ++ rest) before other.spelling after) :
    ∃ before', before = keyword.host ++ before' ∧ MaximalRun rest before' other.spelling after := by
  rcases isForeign_host keyword with foreign | ⟨object, method, shape, isObject, isMethod⟩
  · exact maximalRun_foreign foreign border maximal
  · rw [shape, List.append_assoc, List.cons_append] at maximal
    have dotted : EndsRun ('.' :: (method ++ rest)) := EndsRun.cons isWordChar_dot _
    obtain ⟨afterObject, rfl, atDot⟩ := maximalRun_foreign isObject dotted maximal
    obtain ⟨afterDot, rfl, atMethod⟩ := (maximalRun_symbol_iff isWordChar_dot).mp atDot
    obtain ⟨before', rfl, inner⟩ := maximalRun_foreign isMethod border atMethod
    exact ⟨before', by rw [shape, List.append_assoc, List.cons_append], inner⟩

/-- A run that is rewritten as a part of the text before another run is rewritten as in the whole
text. -/
theorem replaceKeywords_run_append {first rest before run after : Text} (isFirst : IsRun first)
    (border : EndsRun rest) (maximal : MaximalRun rest before run after) :
    replaceKeywords (first ++ before) = runHost first rest ++ replaceKeywords before := by
  obtain ⟨c, before', rfl⟩ := List.exists_cons_of_ne_nil (maximal.before_ne_nil border)
  have same : (c :: before').head? = rest.head? := by rw [maximal.split]; rfl
  have border' : EndsRun (c :: before') := by
    intro d first
    exact border d (same ▸ first)
  have host : runHost first (c :: before') = runHost first rest := runHost_congr (by rw [same])
  rw [replaceKeywords_run isFirst border', host]

/-- A keyword that is spelled in the rewritten text was held back in the text. -/
theorem exists_heldRun {text before after : Text} {keyword : Keyword}
    (maximal : MaximalRun (replaceKeywords text) before keyword.spelling after) :
    ∃ before' after', MaximalRun text before' keyword.spelling after' ∧ HoldsBack after' ∧
      replaceKeywords before' = before ∧ replaceKeywords after' = after := by
  induction text using runs_induction generalizing before with
  | nil =>
    have empty := maximal.split
    simp [(Token.isRun_spelling keyword).ne_nil] at empty
  | symbol c text other ih =>
    rw [replaceKeywords_symbol other] at maximal
    obtain ⟨inside, rfl, inner⟩ := (maximalRun_symbol_iff other).mp maximal
    obtain ⟨before', after', found, held, rfl, rfl⟩ := ih inner
    exact ⟨c :: before', after', (maximalRun_symbol_iff other).mpr ⟨before', rfl, found⟩, held,
      replaceKeywords_symbol other before', rfl⟩
  | run run rest isRun border ih =>
    rw [replaceKeywords_run isRun border] at maximal
    -- The keyword is the first run, which was kept then, or it is found in the rest.
    have place : (before = [] ∧ keyword.spelling = run ∧ after = replaceKeywords rest ∧
        runHost run rest = run) ∨ ∃ inside, before = runHost run rest ++ inside ∧
          MaximalRun (replaceKeywords rest) inside keyword.spelling after := by
      rcases runHost_cases run rest with kept | ⟨other, -, replaced⟩
      · rw [kept] at maximal ⊢
        exact ((maximalRun_run_iff isRun border.replaceKeywords).mp maximal).imp_left
          fun ⟨front, same, back⟩ => ⟨front, same, back, rfl⟩
      · rw [replaced] at maximal ⊢
        exact .inr (maximalRun_host border.replaceKeywords maximal)
    rcases place with ⟨rfl, rfl, rfl, kept⟩ | ⟨inside, rfl, inner⟩
    · exact ⟨[], rest, (maximalRun_run_iff isRun border).mpr (.inl ⟨rfl, rfl, rfl⟩),
        holdsBack_of_runHost kept, replaceKeywords_nil, rfl⟩
    · obtain ⟨before', after', found, held, rfl, rfl⟩ := ih inner
      have whole := (maximalRun_run_iff isRun border).mpr (.inr ⟨before', rfl, found⟩)
      exact ⟨run ++ before', after', whole, held, replaceKeywords_run_append isRun border found, rfl⟩

/-! ### The order of words -/

theorem replaceKeywords_ne_nil {text : Text} (someChar : text ≠ []) :
    replaceKeywords text ≠ [] := by
  induction text using runs_induction with
  | nil => exact absurd rfl someChar
  | symbol c text other _ => simp [replaceKeywords_symbol other]
  | run run rest isRun border _ =>
    obtain ⟨c, tail, shape, -⟩ := isWordChar_head?_runHost isRun rest
    simp [replaceKeywords_run isRun border, shape]

theorem MaximalRun.isPrefix {text before run after : Text}
    (maximal : MaximalRun text before run after) : before <+: text :=
  ⟨run ++ after, by rw [maximal.split, List.append_assoc]⟩

theorem MaximalRun.length_replaceKeywords_lt {text before run after before' run' after' : Text}
    (maximal : MaximalRun text before run after) (maximal' : MaximalRun text before' run' after')
    (earlier : before.length < before'.length) :
    (Text.replaceKeywords before).length < (Text.replaceKeywords before').length := by
  obtain ⟨between, rfl⟩ :=
    List.prefix_of_prefix_length_le maximal.isPrefix maximal'.isPrefix (Nat.le_of_lt earlier)
  have someChar : between ≠ [] := by
    rintro rfl
    simp at earlier
  have longer := List.length_pos_of_ne_nil (replaceKeywords_ne_nil someChar)
  rw [replaceKeywords_append (.inl maximal.starts), List.length_append]
  omega

theorem MaximalRun.eq_of_length_eq {text before run after before' run' after' : Text}
    (maximal : MaximalRun text before run after) (maximal' : MaximalRun text before' run' after')
    (same : before.length = before'.length) : before = before' ∧ run = run' ∧ after = after' := by
  have shared : before <+: before' :=
    List.prefix_of_prefix_length_le maximal.isPrefix maximal'.isPrefix (Nat.le_of_eq same)
  obtain rfl := shared.eq_of_length same
  have tail : run ++ after = run' ++ after' := by
    have whole := maximal.split.symm.trans maximal'.split
    rw [List.append_assoc, List.append_assoc] at whole
    exact List.append_cancel_left whole
  exact ⟨rfl, maximal.isRun.append_inj maximal'.isRun maximal.ends maximal'.ends tail⟩

theorem rewritten_before_lt_iff {text : Text} {place other : WordPlace}
    (maximal : MaximalRun text place.before place.word place.after)
    (maximal' : MaximalRun text other.before other.word other.after) :
    place.rewritten.before.length < other.rewritten.before.length ↔
      place.before.length < other.before.length := by
  constructor
  · intro earlier
    by_contra later
    rcases Nat.lt_or_eq_of_le (Nat.le_of_not_lt later) with after | same
    · exact Nat.lt_asymm earlier (maximal'.length_replaceKeywords_lt maximal after)
    · unfold WordPlace.rewritten at earlier
      rw [(maximal'.eq_of_length_eq maximal same).1] at earlier
      exact Nat.lt_irrefl _ earlier
  · exact maximal.length_replaceKeywords_lt maximal'

theorem mapsTo_rewritten (text : Text) :
    Set.MapsTo WordPlace.rewritten (heldRuns text) (spelledRuns (replaceKeywords text)) := by
  rintro ⟨before, word, after⟩ ⟨⟨maximal, keyword, rfl⟩, held⟩
  exact ⟨maximal.replaceKeywords (runHost_of_holdsBack held), keyword, rfl⟩

theorem injOn_rewritten (text : Text) : Set.InjOn WordPlace.rewritten (heldRuns text) := by
  intro place held other held' same
  have order := rewritten_before_lt_iff held.1.1 held'.1.1
  have order' := rewritten_before_lt_iff held'.1.1 held.1.1
  rw [same] at order order'
  obtain ⟨before, word, after⟩ := held.1.1.eq_of_length_eq held'.1.1 (by omega)
  cases place
  cases other
  exact (WordPlace.mk.injEq ..).mpr ⟨before, word, after⟩

theorem bijOn_rewritten (text : Text) :
    Set.BijOn WordPlace.rewritten (heldRuns text) (spelledRuns (replaceKeywords text)) := by
  refine ⟨mapsTo_rewritten text, injOn_rewritten text, ?_⟩
  rintro ⟨before, word, after⟩ ⟨maximal, keyword, spelled⟩
  dsimp only at maximal spelled
  subst spelled
  obtain ⟨before', after', found, held, rfl, rfl⟩ := exists_heldRun maximal
  exact ⟨⟨before', keyword.spelling, after'⟩, ⟨⟨found, keyword, rfl⟩, held⟩, rfl⟩

/-! ### Keyword tokens -/

theorem kind_ne_keyword_of_replaceKeywords {text : Text} {token : Token}
    (member : token ∈ Token.tokenize (replaceKeywords text)) (keyword : Keyword) :
    token.kind ≠ .keyword keyword := by
  intro isKeyword
  obtain ⟨before, after, stands⟩ := Token.exists_standsIn member
  obtain ⟨maximal, ends⟩ := stands.maximalRun_of_keyword isKeyword
  obtain ⟨before', after', found, held, rfl, rfl⟩ := exists_heldRun maximal
  exact holdsBack_iff.mp (held.replaceKeywords found.ends) ends

theorem replaceKeywords_eq_self_iff {text : Text} :
    replaceKeywords text = text ↔
      ∀ token ∈ Token.tokenize text, ∀ keyword, token.kind ≠ .keyword keyword := by
  constructor
  · intro same token member
    rw [← same] at member
    exact kind_ne_keyword_of_replaceKeywords member
  · intro noKeyword
    have copied : ∀ token ∈ Token.tokenize text, token.host = token.text := by
      intro token member
      unfold Token.host
      split
      · rename_i keyword kind
        exact absurd kind (noKeyword token member keyword)
      · rfl
    rw [replaceKeywords, List.flatMap_congr copied, Token.flatMap_text_tokenize]

/-! ### What is copied -/

/-- A piece of a text that is being rewritten. -/
inductive Piece where
  | copied (text : Text)
  | replaced (keyword : Keyword)

namespace Piece

def source : Piece → Text
  | copied text => text
  | replaced keyword => keyword.spelling

def target : Piece → Text
  | copied text => text
  | replaced keyword => keyword.host

def ofToken (token : Token) : Piece :=
  match token.kind with
  | .keyword keyword => replaced keyword
  | _ => copied token.text

theorem target_ofToken (token : Token) : (ofToken token).target = token.host := by
  obtain ⟨kind, text⟩ := token
  cases kind <;> rfl

theorem ofToken_eq_replaced_iff {token : Token} {keyword : Keyword} :
    ofToken token = replaced keyword ↔ token.kind = .keyword keyword := by
  obtain ⟨kind, text⟩ := token
  cases kind <;> simp [ofToken]

theorem flatMap_source_ofToken (text : Text) {tokens : List Token}
    (inside : ∀ token ∈ tokens, token ∈ Token.tokenize text) :
    (tokens.map ofToken).flatMap source = tokens.flatMap Token.text := by
  rw [List.flatMap_map]
  apply List.flatMap_congr
  intro token member
  unfold ofToken
  split
  · rename_i keyword kind
    exact (Token.text_of_keyword (inside token member) kind).symm
  · rfl

end Piece

/-- The keyword is replaced between the texts `before` and `after`. -/
def ReplacedIn (pieces : List Piece) (keyword : Keyword) (before after : Text) : Prop :=
  ∃ earlier later, pieces = earlier ++ .replaced keyword :: later ∧
    earlier.flatMap Piece.source = before ∧ later.flatMap Piece.source = after

theorem replacedIn_tokenize_iff {text before after : Text} {keyword : Keyword} :
    ReplacedIn ((Token.tokenize text).map Piece.ofToken) keyword before after ↔
      MaximalRun text before keyword.spelling after ∧ Token.KeywordEnds after := by
  constructor
  · rintro ⟨earlier, later, split, rfl, rfl⟩
    obtain ⟨front, back, tokens, rfl, replaced⟩ := List.map_eq_append_iff.mp split
    obtain ⟨token, rest, rfl, isReplaced, rfl⟩ := List.map_eq_cons_iff.mp replaced
    have kind := Piece.ofToken_eq_replaced_iff.mp isReplaced
    rw [Piece.flatMap_source_ofToken text fun other member => by simp [tokens, member],
      Piece.flatMap_source_ofToken text fun other member => by simp [tokens, member]]
    have stands : token.StandsIn text (front.flatMap Token.text) (rest.flatMap Token.text) :=
      ⟨front, rest, tokens, rfl, rfl⟩
    exact stands.maximalRun_of_keyword kind
  · rintro ⟨maximal, ends⟩
    obtain ⟨earlier, later, tokens, rfl, rfl⟩ := Token.standsIn_of_maximalRun maximal
    have kind := Token.runKind_spelling keyword (Token.keywordEnds_iff.mp ends)
    refine ⟨earlier.map Piece.ofToken, later.map Piece.ofToken, ?_, ?_, ?_⟩
    · rw [tokens, List.map_append, List.map_cons, Piece.ofToken_eq_replaced_iff.mpr kind]
    · exact Piece.flatMap_source_ofToken text fun other member => by simp [tokens, member]
    · exact Piece.flatMap_source_ofToken text fun other member => by simp [tokens, member]

/-- Rewriting leaves no keyword token, so that a second time changes nothing, and it changes all
texts that have one. A word that spells a keyword afterwards was held back before, and these words
keep their order. All text is copied but for the other words that spell a keyword. -/
theorem rewriting_survivors (text : Text) :
    (∀ token ∈ Token.tokenize (replaceKeywords text), ∀ keyword, token.kind ≠ .keyword keyword) ∧
    replaceKeywords (replaceKeywords text) = replaceKeywords text ∧
    (replaceKeywords text = text ↔
      ∀ token ∈ Token.tokenize text, ∀ keyword, token.kind ≠ .keyword keyword) ∧
    Set.BijOn WordPlace.rewritten (heldRuns text) (spelledRuns (replaceKeywords text)) ∧
    (∀ place ∈ heldRuns text, ∀ other ∈ heldRuns text,
      (place.rewritten.before.length < other.rewritten.before.length ↔
        place.before.length < other.before.length)) ∧
    ∃ pieces : List Piece, pieces.flatMap Piece.source = text ∧
      pieces.flatMap Piece.target = replaceKeywords text ∧
      ∀ keyword before after, ReplacedIn pieces keyword before after ↔
        MaximalRun text before keyword.spelling after ∧ ¬ HoldsBack after := by
  refine ⟨fun token => kind_ne_keyword_of_replaceKeywords, replaceKeywords_replaceKeywords text,
    replaceKeywords_eq_self_iff, bijOn_rewritten text, ?order,
    (Token.tokenize text).map Piece.ofToken, ?source, ?target, ?replaced⟩
  case order =>
    intro place held other held'
    exact rewritten_before_lt_iff held.1.1 held'.1.1
  case source =>
    rw [Piece.flatMap_source_ofToken text fun _ member => member, Token.flatMap_text_tokenize]
  case target =>
    rw [List.flatMap_map, replaceKeywords]
    exact List.flatMap_congr fun token _ => Piece.target_ofToken token
  case replaced =>
    intro keyword before after
    rw [replacedIn_tokenize_iff, holdsBack_iff, Classical.not_not]

/-- A danda holds back the words in front of it, but not the one in the middle. -/
def dandas : Text :=
  Keyword.declare.spelling ++ '।' :: Keyword.declare.spelling ++ [';'] ++
    Keyword.declare.spelling ++ ['।']

theorem dandas_survivors :
    ∃ place ∈ heldRuns dandas, ∃ other ∈ heldRuns dandas,
      place.before.length < other.before.length ∧
      place.rewritten ∈ spelledRuns (replaceKeywords dandas) ∧
      place.rewritten.before.length < other.rewritten.before.length := by
  have isRun := Token.isRun_spelling .declare
  have border : ∀ after, EndsRun ('।' :: after) := EndsRun.cons (by decide)
  have held : ∀ after, HoldsBack ('।' :: after) := by
    intro after
    rw [holdsBack_iff, Token.keywordEnds_iff, List.head?_cons]
    decide
  have starts : ∀ before : Text, ∀ c ∈ (before ++ [';']).getLast?, isWordChar c = false := by
    intro before c last
    rw [List.getLast?_concat, Option.mem_some_iff] at last
    rw [← last]
    decide
  have place : ∀ before after, dandas = before ++ Keyword.declare.spelling ++ '।' :: after →
      (∀ c ∈ before.getLast?, isWordChar c = false) →
      ⟨before, Keyword.declare.spelling, '।' :: after⟩ ∈ heldRuns dandas :=
    fun before after split starts => ⟨⟨⟨split, isRun, starts, border _⟩, .declare, rfl⟩, held _⟩
  have first := place [] (Keyword.declare.spelling ++ [';'] ++ Keyword.declare.spelling ++ ['।'])
    (by simp [dandas]) (by simp)
  have last := place (Keyword.declare.spelling ++ '।' :: Keyword.declare.spelling ++ [';']) []
    (by simp [dandas]) (starts _)
  have earlier : ([] : Text).length <
      (Keyword.declare.spelling ++ '।' :: Keyword.declare.spelling ++ [';']).length := by
    decide
  obtain ⟨-, -, -, survivors, order, -⟩ := rewriting_survivors dandas
  exact ⟨_, first, _, last, earlier, survivors.mapsTo first, (order _ first _ last).mpr earlier⟩

end Text

end Lipi
