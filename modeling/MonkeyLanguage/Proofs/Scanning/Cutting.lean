-- SUMMARY: A source text is its tokens with blanks between them, and each token knows its place.
import MonkeyLanguage.Proofs.Scanning.Stretches
import MonkeyLanguage.Token.Feed

/-!
# Cutting a text into pieces

A piece of a text is a lexeme with the blanks in front of it. Every text can be cut into pieces,
with nothing but blanks behind the last one, and there is only one way to do so that leaves all
lexemes complete. Scanning makes one token of each piece. It counts lines and columns on the way,
and what it counts is what can be read off from the text before the token.
-/

namespace MonkeyLanguage

/-! ## Places -/

namespace Position

/-- The place behind a text. Its line feeds are counted, and the characters behind the last one. -/
def after (text : List Char) : Position :=
  ⟨1 + text.count '\n', 1 + (text.reverse.takeWhile (· != '\n')).length⟩

theorem after_concat (text : List Char) (c : Char) :
    after (text ++ [c]) = (after text).advance c := by
  by_cases h : c = '\n'
  · simp [after, advance, h, Nat.add_assoc]
  · simp [after, advance, h, Nat.add_assoc, List.count_eq_zero_of_not_mem, Ne.symm h]

/-- Counting on through a text comes to the place behind it. -/
theorem after_append (text more : List Char) :
    after (text ++ more) = more.foldl advance (after text) := by
  induction more generalizing text with
  | nil => rw [List.append_nil, List.foldl_nil]
  | cons c more ih => rw [List.append_cons, ih, after_concat, List.foldl_cons]

example : after ['a', '\n', 'b', 'c'] = ⟨2, 3⟩ := rfl

end Position

/-! ## Pieces -/

/-- A lexeme in a text and the blanks in front of it. -/
structure Piece where
  gap : List Char
  lexeme : Lexeme

namespace Piece

def text (piece : Piece) : List Char :=
  piece.gap ++ piece.lexeme.spelling

/-- The text of several pieces. -/
def texts (pieces : List Piece) : List Char :=
  pieces.flatMap text

/-- The tokens that pieces make behind a text. -/
def tokensAfter (before : List Char) : List Piece → List Token
  | [] => []
  | piece :: rest =>
    piece.lexeme.toToken (.after (before ++ piece.gap)) :: tokensAfter (before ++ piece.text) rest

/-- The text consists of the pieces and the blanks behind them. -/
inductive Cut : List Piece → List Char → List Char → Prop where
  | blank {last : List Char} : (∀ c ∈ last, Text.isBlank c) → Cut [] last last
  | cons (piece : Piece) {pieces : List Piece} {last following : List Char} :
      (∀ c ∈ piece.gap, Text.isBlank c) → piece.lexeme.Fits following →
      Cut pieces last following → Cut (piece :: pieces) last (piece.text ++ following)

theorem texts_cons (piece : Piece) (rest : List Piece) :
    texts (piece :: rest) = piece.text ++ texts rest := rfl

theorem kind_of_mem_tokensAfter {before : List Char} {pieces : List Piece} {token : Token}
    (h : token ∈ tokensAfter before pieces) :
    ∃ piece ∈ pieces, token.kind = piece.lexeme.kind := by
  induction pieces generalizing before with
  | nil => cases h
  | cons piece rest ih =>
      rcases List.mem_cons.1 h with rfl | h
      · exact ⟨piece, List.mem_cons_self, rfl⟩
      · obtain ⟨other, hother, hkind⟩ := ih h
        exact ⟨other, List.mem_cons_of_mem _ hother, hkind⟩

namespace Cut

variable {pieces : List Piece} {last text : List Char}

theorem text_eq (h : Cut pieces last text) : text = texts pieces ++ last := by
  induction h with
  | blank => rfl
  | cons _ _ _ _ ih => rw [texts_cons, List.append_assoc, ← ih]

theorem gap_blank (h : Cut pieces last text) :
    ∀ piece ∈ pieces, ∀ c ∈ piece.gap, Text.isBlank c := by
  induction h with
  | blank => exact List.forall_mem_nil _
  | cons _ hgap _ _ ih => exact List.forall_mem_cons.2 ⟨hgap, ih⟩

theorem last_blank (h : Cut pieces last text) : ∀ c ∈ last, Text.isBlank c := by
  induction h with
  | blank hblank => exact hblank
  | cons _ _ _ _ ih => exact ih

theorem fits (h : Cut pieces last text) {before : List Piece} {piece : Piece}
    {behind : List Piece} (hpieces : pieces = before ++ piece :: behind) :
    piece.lexeme.Fits (texts behind ++ last) := by
  induction h generalizing before with
  | blank => simp at hpieces
  | cons _ _ hfits hcut ih =>
      cases before with
      | nil =>
          cases hpieces
          rw [← hcut.text_eq]
          exact hfits
      | cons first before =>
          cases hpieces
          exact ih rfl

end Cut

/-! ## One way to cut -/

/-- Where a piece starts, its gap is all of the blanks, and its lexeme is what is found behind
them. -/
theorem piece_unique {piece piece' : Piece} {following following' : List Char}
    (hgap : ∀ c ∈ piece.gap, Text.isBlank c) (hfits : piece.lexeme.Fits following)
    (hgap' : ∀ c ∈ piece'.gap, Text.isBlank c) (hfits' : piece'.lexeme.Fits following')
    (htext : piece.text ++ following = piece'.text ++ following') :
    piece = piece' ∧ following = following' := by
  obtain ⟨gap, lexeme⟩ := piece
  obtain ⟨gap', lexeme'⟩ := piece'
  obtain ⟨c, rest, hstart, hblank, hfirst⟩ := hfits.first_eq
  obtain ⟨c', rest', hstart', hblank', hfirst'⟩ := hfits'.first_eq
  rw [text, text, List.append_assoc, List.append_assoc, hstart, hstart'] at htext
  have hblanks := congrArg (List.takeWhile Text.isBlank) htext
  rw [takeWhile_append_of_apart hgap (by simpa using hblank),
    takeWhile_append_of_apart hgap' (by simpa using hblank')] at hblanks
  cases hblanks
  cases List.append_cancel_left htext
  cases hfirst.symm.trans hfirst'
  exact ⟨rfl, List.append_cancel_left (hstart.trans hstart'.symm)⟩

theorem not_all_blank {piece : Piece} {following : List Char}
    (hfits : piece.lexeme.Fits following) : ¬ ∀ c ∈ piece.text ++ following, Text.isBlank c := by
  obtain ⟨c, rest, hstart, hblank, -⟩ := hfits.first_eq
  intro hall
  rw [text, List.append_assoc, hstart] at hall
  rw [hall c (by simp)] at hblank
  cases hblank

/-- A text cannot be cut in two ways. -/
theorem Cut.unique {pieces pieces' : List Piece} {last last' text text' : List Char}
    (h : Cut pieces last text) (h' : Cut pieces' last' text') (htext : text = text') :
    pieces = pieces' ∧ last = last' := by
  induction h generalizing pieces' last' text' with
  | blank hblank =>
      cases h' with
      | blank => exact ⟨rfl, htext⟩
      | cons piece' _ hfits' _ => exact absurd (htext ▸ hblank) (not_all_blank hfits')
  | cons piece hgap hfits _ ih =>
      cases h' with
      | blank hblank' => exact absurd (htext ▸ hblank') (not_all_blank hfits)
      | cons piece' hgap' hfits' hcut' =>
          obtain ⟨rfl, hfollowing⟩ := piece_unique hgap hfits hgap' hfits' htext
          obtain ⟨rfl, rfl⟩ := ih hcut' hfollowing
          exact ⟨rfl, rfl⟩

/-! ## Some way to cut -/

/-- A text starts with all of its first blanks. -/
theorem exists_gap (text : List Char) :
    ∃ gap rest, text = gap ++ rest ∧ (∀ c ∈ gap, Text.isBlank c) ∧
      ∀ c ∈ rest.head?, Text.isBlank c = false :=
  ⟨text.takeWhile Text.isBlank, text.dropWhile Text.isBlank,
    List.takeWhile_append_dropWhile.symm, fun _ hmem => List.mem_takeWhile_imp hmem,
    Lexeme.head?_dropWhile⟩

/-- Every text can be cut into pieces. -/
theorem exists_cut (text : List Char) : ∃ pieces last, Cut pieces last text := by
  induction hlength : text.length using Nat.strongRecOn generalizing text with
  | _ length ih =>
      obtain ⟨gap, rest, rfl, hgap, hhead⟩ := exists_gap text
      cases rest with
      | nil => exact ⟨[], gap ++ [], .blank (by rwa [List.append_nil])⟩
      | cons c rest =>
          obtain ⟨following, hsplit, hfits⟩ := Lexeme.fits_first (hhead c rfl) rest
          rw [← hsplit, ← List.append_assoc] at hlength ⊢
          have hless : following.length < length := by
            have hpos := List.length_pos_iff.2 (Lexeme.spelling_ne_nil c rest)
            rw [← hlength, List.length_append, List.length_append]
            omega
          obtain ⟨pieces, last, hcut⟩ := ih following.length hless following rfl
          let piece : Piece := ⟨gap, Lexeme.first c rest⟩
          exact ⟨piece :: pieces, last, .cons piece hgap hfits hcut⟩

end Piece

/-! ## Scanning piece by piece -/

namespace Token

/-- Inside a lexeme, scanning only counts. -/
theorem scanFrom_inside (inside rest : List Char) (here : Position) :
    scanFrom inside.length here here (inside ++ rest) =
      scanFrom 0 (inside.foldl Position.advance here) (inside.foldl Position.advance here)
        rest := by
  induction inside generalizing here with
  | nil => rfl
  | cons c inside ih => exact ih (here.advance c)

theorem scanFrom_gap {gap : List Char} (h : ∀ c ∈ gap, Text.isBlank c) (rest : List Char)
    (here finish : Position) :
    scanFrom 0 here finish (gap ++ rest) =
      scanFrom 0 (gap.foldl Position.advance here) finish rest := by
  induction gap generalizing here with
  | nil => rfl
  | cons c gap ih =>
      obtain ⟨hc, hgap⟩ := List.forall_mem_cons.1 h
      rw [List.cons_append, scanFrom, if_pos hc]
      exact ih hgap (here.advance c)

theorem scanFrom_fits {lexeme : Lexeme} {following : List Char} (h : lexeme.Fits following)
    (here finish : Position) :
    scanFrom 0 here finish (lexeme.spelling ++ following) =
      lexeme.toToken here :: scanFrom 0 (lexeme.spelling.foldl Position.advance here)
        (lexeme.spelling.foldl Position.advance here) following := by
  obtain ⟨c, rest, htext, hblank, rfl⟩ := h.first_eq
  obtain ⟨d, inside, hspelling⟩ := List.exists_cons_of_ne_nil (Lexeme.spelling_ne_nil c rest)
  have hscan : scanFrom 0 here finish (c :: rest) = (Lexeme.first c rest).toToken here ::
      scanFrom ((Lexeme.first c rest).spelling.length - 1) (here.advance c) (here.advance c)
        rest := by
    rw [scanFrom, if_neg (by rw [hblank]; decide)]
  rw [htext, hscan, hspelling]
  rw [hspelling, List.cons_append] at htext
  obtain ⟨rfl, rfl⟩ := List.cons.inj htext
  rw [List.length_cons, Nat.add_sub_cancel, scanFrom_inside, List.foldl_cons]

/-- A text that is cut into pieces is scanned into their tokens, and the end token stands behind
the last of them. -/
theorem scanFrom_cut {pieces : List Piece} {last text : List Char} (h : Piece.Cut pieces last text)
    (before : List Char) :
    scanFrom 0 (.after before) (.after before) text =
      Piece.tokensAfter before pieces ++ [endAt (.after (before ++ Piece.texts pieces))] := by
  induction h generalizing before with
  | @blank last hblank =>
      have hend := scanFrom_gap hblank [] (.after before) (.after before)
      rw [List.append_nil] at hend
      rw [hend]
      simp [scanFrom, Piece.texts, Piece.tokensAfter]
  | cons piece hgap hfits hcut ih =>
      rw [Piece.text, List.append_assoc, scanFrom_gap hgap, scanFrom_fits hfits,
        ← Position.after_append, ← Position.after_append, List.append_assoc, ih]
      simp [Piece.tokensAfter, Piece.texts_cons, Piece.text]

theorem scan_cut {pieces : List Piece} {last : List Char} {source : String}
    (h : Piece.Cut pieces last source.toList) :
    scan source = Piece.tokensAfter [] pieces ++ [endAt (.after (Piece.texts pieces))] :=
  scanFrom_cut h []

end Token

/-! ## Feeds -/

namespace Feed

/-- Behind its last token, a feed supplies nothing but end tokens. -/
theorem take_ahead (feed : Feed) (count : Nat) :
    feed.take (feed.ahead.length + count) =
      feed.ahead ++ List.replicate count (Token.endAt feed.finish) := by
  obtain ⟨ahead, finish⟩ := feed
  induction ahead with
  | nil =>
      rw [List.length_nil, Nat.zero_add, List.nil_append]
      induction count with
      | zero => rfl
      | succ count ih =>
          have htake : take (count + 1) ⟨[], finish⟩ =
              Token.endAt finish :: take count ⟨[], finish⟩ := rfl
          rw [htake, ih, List.replicate_succ]
  | cons token rest ih =>
      rw [List.length_cons, Nat.add_right_comm]
      exact congrArg (token :: ·) ih

end Feed

/-! ## Every text -/

/-- What scanning makes of a source text, as seen from a text that is cut into pieces. -/
structure Token.Segments (source : String) (pieces : List Piece) (last : List Char) : Prop where
  /-- Nothing of the text gets lost. -/
  lossless : source.toList = Piece.texts pieces ++ last
  gap_blank : ∀ piece ∈ pieces, ∀ c ∈ piece.gap, Text.isBlank c
  last_blank : ∀ c ∈ last, Text.isBlank c
  /-- Each lexeme is complete where it stands. -/
  complete : ∀ before piece behind, pieces = before ++ piece :: behind →
    piece.lexeme.Fits (Piece.texts behind ++ last)
  /-- There is no other way to cut the text into complete lexemes. -/
  unique : ∀ pieces' last', Piece.Cut pieces' last' source.toList → pieces' = pieces ∧ last' = last
  /-- What is spelled like a lexeme of the text is that lexeme, wherever it is complete. -/
  determined : ∀ piece ∈ pieces, ∀ (lexeme : Lexeme) (following : List Char),
    lexeme.Fits following → lexeme.spelling = piece.lexeme.spelling → lexeme = piece.lexeme
  /-- An illegal token is a character that is not blank and that no other token starts with. -/
  illegal : ∀ piece ∈ pieces, piece.lexeme.kind = .illegal →
    ∃ c, piece.lexeme = .plain .illegal [c] ∧ Text.isBlank c = false ∧
      ∀ (lexeme : Lexeme) (following : List Char), lexeme.Fits following →
        lexeme.spelling.head? = some c → lexeme.kind = .illegal
  /-- The tokens are those of the pieces, in order and where these stand. The end token stands
  behind the last of them. -/
  tokens : Token.scan source =
    Piece.tokensAfter [] pieces ++ [Token.endAt (.after (Piece.texts pieces))]
  /-- There is no other end token. -/
  noEnd : ∀ token ∈ Piece.tokensAfter [] pieces, token.kind ≠ .endOfInput
  /-- The end token is supplied again as often as one asks for more. -/
  further : ∀ count, (Feed.ofSource source).take ((Token.scan source).length + count) =
    Token.scan source ++ List.replicate count (Token.endAt (.after (Piece.texts pieces)))

/-- Scanning a text is cutting it into pieces. Nothing gets lost, whatever the text is. -/
theorem Token.scan_segments (source : String) : ∃ pieces last, Segments source pieces last := by
  obtain ⟨pieces, last, hcut⟩ := Piece.exists_cut source.toList
  have htokens := scan_cut hcut
  have hfits : ∀ piece ∈ pieces, ∃ following, piece.lexeme.Fits following := by
    intro piece hpiece
    obtain ⟨before, behind, hpieces⟩ := List.append_of_mem hpiece
    exact ⟨_, hcut.fits hpieces⟩
  refine ⟨pieces, last, hcut.text_eq, hcut.gap_blank, hcut.last_blank,
    fun before piece behind hpieces => hcut.fits hpieces,
    fun pieces' last' hcut' => hcut'.unique hcut rfl, ?_, ?_, htokens, ?_, ?_⟩
  · intro piece hpiece lexeme following hlexeme hspelling
    obtain ⟨_, hpieceFits⟩ := hfits piece hpiece
    exact hlexeme.eq_of_spelling hpieceFits hspelling
  · intro piece hpiece hkind
    obtain ⟨_, hpieceFits⟩ := hfits piece hpiece
    obtain ⟨c, heq, hc⟩ := hpieceFits.of_illegal hkind
    exact ⟨c, heq, hc.blank, fun lexeme following hlexeme => hlexeme.kind_of_illegal hc⟩
  · intro token htoken
    obtain ⟨piece, hpiece, hkind⟩ := Piece.kind_of_mem_tokensAfter htoken
    obtain ⟨_, hpieceFits⟩ := hfits piece hpiece
    rw [hkind]
    exact hpieceFits.kind_ne_endOfInput
  · intro count
    have hfeed : Feed.ofSource source = ⟨scan source, .after (Piece.texts pieces)⟩ := by
      rw [Feed.ofSource, htokens]
      simp [endAt]
    have htake := Feed.take_ahead (Feed.ofSource source) count
    rw [hfeed] at htake ⊢
    exact htake

end MonkeyLanguage
