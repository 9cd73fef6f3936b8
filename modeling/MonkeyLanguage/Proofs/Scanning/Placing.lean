-- SUMMARY: Tokens that are written down with blanks between them are scanned as they were.
import MonkeyLanguage.Proofs.Scanning.Cutting

/-!
# Writing tokens down

A token is written as its text, a string between quotes. With blanks between them, written tokens
cannot run together, so they come back from the text just as they were, whatever the strings have
inside. Their places are those where they were put.
-/

namespace MonkeyLanguage

namespace Shape

/-- There is a source text with a token of this kind and text. Illegal tokens are single characters
that nothing else starts with. -/
structure Spellable (shape : Shape) : Prop where
  admits : shape.1.Admits shape.2
  ne_endOfInput : shape.1 ≠ .endOfInput
  illegal : shape.1 = .illegal → ∃ c, shape.2.toList = [c] ∧ IsIllegal c

/-- How a token is written. -/
def spelling (shape : Shape) : List Char :=
  if shape.1 = .string then '"' :: shape.2.toList ++ ['"'] else shape.2.toList

def lexeme (shape : Shape) : Lexeme :=
  ⟨shape.1, shape.2.toList, shape.spelling⟩

/-- A written token is complete where a blank follows, or nothing. -/
theorem Spellable.fits {shape : Shape} (h : shape.Spellable) {following : List Char}
    (hblank : ∀ c ∈ following.head?, Text.isBlank c) : shape.lexeme.Fits following := by
  obtain ⟨kind, text⟩ := shape
  have hapart : Apart following := fun c hc => not_isWordPart_of_isBlank (hblank c hc)
  have hequal : following.head? ≠ some '=' := by
    intro hhead
    exact absurd (hblank '=' hhead) (by decide)
  obtain ⟨hadmits, hend, hillegal⟩ := h
  cases kind with
  | endOfInput => exact absurd rfl hend
  | other name => exact hadmits.elim
  | illegal =>
      obtain ⟨c, htext, hc⟩ := hillegal rfl
      have hfits : Lexeme.Fits (.plain .illegal [c]) following := .illegal hc
      rw [Lexeme.plain, ← htext] at hfits
      exact hfits
  | identifier | functionWord | letWord | trueWord | falseWord | ifWord | elseWord
  | returnWord =>
      obtain ⟨hword, hkind⟩ := hadmits
      have hfits := Lexeme.Fits.word hword hapart
      rw [String.ofList_toList, hkind] at hfits
      exact hfits
  | integer =>
      exact .digits hadmits fun c hc => isDigit_of_not_isWordPart (hapart c hc)
  | string => exact .closed hadmits
  | equal =>
      cases hadmits
      exact .equal
  | notEqual =>
      cases hadmits
      exact .notEqual
  | _ =>
      cases hadmits
      exact .symbol rfl fun _ => hequal

end Shape

/-- A token to be written, and the blanks to be put in front of it. -/
structure Placement where
  gap : List Char
  shape : Shape

namespace Placement

/-- Tokens as they are written down. -/
def written (placements : List Placement) : List Char :=
  placements.flatMap fun placement => placement.gap ++ placement.shape.spelling

/-- The tokens at the places where they are written, behind a text. -/
def tokensAfter (before : List Char) : List Placement → List Token
  | [] => []
  | ⟨gap, shape⟩ :: rest =>
    ⟨shape.1, shape.2, .after (before ++ gap)⟩ ::
      tokensAfter (before ++ gap ++ shape.spelling) rest

def piece (placement : Placement) : Piece :=
  ⟨placement.gap, placement.shape.lexeme⟩

theorem texts_pieces (placements : List Placement) :
    Piece.texts (placements.map piece) = written placements := by
  rw [Piece.texts, List.flatMap_map]
  rfl

theorem tokensAfter_pieces (before : List Char) (placements : List Placement) :
    Piece.tokensAfter before (placements.map piece) = tokensAfter before placements := by
  induction placements generalizing before with
  | nil => rfl
  | cons placement rest ih =>
      rw [List.map_cons, Piece.tokensAfter, ih, tokensAfter, Piece.text, ← List.append_assoc]
      simp [piece, Lexeme.toToken, Shape.lexeme]

theorem head_written {next : Placement} (hgap : next.gap ≠ [])
    (hblank : ∀ c ∈ next.gap, Text.isBlank c) (rest : List Placement) (last : List Char) :
    ∀ c ∈ (written (next :: rest) ++ last).head?, Text.isBlank c := by
  obtain ⟨c, gap, hcons⟩ := List.exists_cons_of_ne_nil hgap
  intro d hd
  rw [written, List.flatMap_cons, hcons] at hd
  obtain rfl : c = d := Option.some.inj hd
  exact hblank c (hcons ▸ List.mem_cons_self)

/-- A text of written tokens is cut into them. -/
theorem cut_written {placements : List Placement} {last : List Char}
    (hspellable : ∀ placement ∈ placements, placement.shape.Spellable)
    (hblank : ∀ placement ∈ placements, ∀ c ∈ placement.gap, Text.isBlank c)
    (hapart : ∀ placement ∈ placements.tail, placement.gap ≠ [])
    (hlast : ∀ c ∈ last, Text.isBlank c) :
    Piece.Cut (placements.map piece) last (written placements ++ last) := by
  induction placements with
  | nil => exact .blank hlast
  | cons placement rest ih =>
      obtain ⟨hshape, hshapes⟩ := List.forall_mem_cons.1 hspellable
      obtain ⟨hgap, hgaps⟩ := List.forall_mem_cons.1 hblank
      have hcut := ih hshapes hgaps (fun other hother => hapart other (List.mem_of_mem_tail hother))
      have hfollows : ∀ c ∈ (written rest ++ last).head?, Text.isBlank c := by
        cases rest with
        | nil => exact fun c hc => hlast c (List.mem_of_mem_head? hc)
        | cons next rest =>
            have hnext := hapart next List.mem_cons_self
            exact head_written hnext (hgaps next List.mem_cons_self) rest last
      have htext : written (placement :: rest) ++ last =
          placement.piece.text ++ (written rest ++ last) := by
        simp [written, Piece.text, piece, Shape.lexeme]
      rw [htext]
      exact Piece.Cut.cons placement.piece hgap (hshape.fits hfollows) hcut

end Placement

/-- Tokens that are written with blanks between them are read back from the text, at the places
where they were put. -/
theorem Token.scan_written (placements : List Placement) (last : List Char)
    (hspellable : ∀ placement ∈ placements, placement.shape.Spellable)
    (hblank : ∀ placement ∈ placements, ∀ c ∈ placement.gap, Text.isBlank c)
    (hapart : ∀ placement ∈ placements.tail, placement.gap ≠ [])
    (hlast : ∀ c ∈ last, Text.isBlank c) :
    Token.scan (String.ofList (Placement.written placements ++ last)) =
      Placement.tokensAfter [] placements ++
        [Token.endAt (.after (Placement.written placements))] := by
  have hcut := Placement.cut_written hspellable hblank hapart hlast
  have hsource : (String.ofList (Placement.written placements ++ last)).toList =
      Placement.written placements ++ last := String.toList_ofList
  rw [← hsource] at hcut
  rw [Token.scan_cut hcut, Placement.tokensAfter_pieces, Placement.texts_pieces]

/-- A binding of a string that has an operator and a line feed inside, and a stray character. -/
def strayBinding : List Placement :=
  [⟨[], .letWord, "let"⟩, ⟨[' ', '\n'], .identifier, "fns"⟩, ⟨['\t'], .assign, "="⟩,
    ⟨[' '], .string, "!=\nfn"⟩, ⟨['\u2003'], .illegal, "&"⟩]

theorem Token.scan_written_strayBinding :
    (∀ placement ∈ strayBinding, placement.shape.Spellable) ∧
    Token.scan (String.ofList (Placement.written strayBinding ++ ['\n'])) =
      [⟨.letWord, "let", ⟨1, 1⟩⟩, ⟨.identifier, "fns", ⟨2, 1⟩⟩, ⟨.assign, "=", ⟨2, 5⟩⟩,
        ⟨.string, "!=\nfn", ⟨2, 7⟩⟩, ⟨.illegal, "&", ⟨3, 5⟩⟩, Token.endAt ⟨3, 6⟩] := by
  have hlet : IsWord "let".toList := ⟨_, _, rfl, rfl, List.all_eq_true.1 rfl⟩
  have hname : IsWord "fns".toList := ⟨_, _, rfl, rfl, List.all_eq_true.1 rfl⟩
  have hquote : '"' ∉ "!=\nfn".toList := by decide
  have hspellable : ∀ placement ∈ strayBinding, placement.shape.Spellable := by
    simp only [strayBinding, List.forall_mem_cons]
    refine ⟨⟨⟨hlet, rfl⟩, nofun, nofun⟩, ⟨⟨hname, rfl⟩, nofun, nofun⟩, ⟨rfl, nofun, nofun⟩,
      ⟨hquote, nofun, nofun⟩, ⟨trivial, nofun, fun _ => ⟨'&', rfl, ?_⟩⟩, List.forall_mem_nil _⟩
    exact ⟨rfl, rfl, rfl, by decide, rfl⟩
  have hblank : (strayBinding.all fun placement => placement.gap.all Text.isBlank) = true := rfl
  have hscan := Token.scan_written strayBinding ['\n'] hspellable
    (fun placement hmem => List.all_eq_true.1 (List.all_eq_true.1 hblank placement hmem))
    (by decide) (List.forall_mem_singleton.2 rfl)
  exact ⟨hspellable, hscan⟩

end MonkeyLanguage
