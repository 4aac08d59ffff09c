import Mathlib.Data.List.Basic
import ResourceApi.Sql.Statement
import ResourceApi.Sql.Token

/-!
# Lexemes of texts

What a text means to a database depends on where its tokens end (`Token.ofChars`). The *lexemes* of
a text are its tokens without their places and without blanks and comments, each with what it
stands for.

**Theorem (`Sql.lexemes_literal`).** A literal is one lexeme that stands for the text it was written
for, whatever this text is and whatever follows but an apostrophe: a doubled apostrophe does not
end it, and the last one does.

Words, numbers, operators and names end where a blank, a bracket, a comma or nothing follows
(`Sql.Stops`), which is all that statements write behind them. The text of a statement is put
together from parts, and each part is cut into the same lexemes wherever it stands, as long as what
follows does not go on with its last one (`Sql.Cut`): behind a *loose* part anything may stand,
behind a *tight* one only what ends it.

The words between the parts are fixed. How a fixed text is cut is computed (`Sql.wordLexemes?`), so
the lemmas about it are decided (`Sql.loose_words`, `Sql.tight_words`).
-/

namespace ResourceApi.Sql

/-! ## Lexemes -/

/-- A token without its place: its kind, and what it stands for. -/
structure Lexeme where
  kind : TokenKind
  name : String
  deriving DecidableEq, Repr

/-- What a token is, wherever it stands. -/
def Token.toLexeme (token : Token) : Lexeme := ⟨token.kind, token.name⟩

/-- What a text is made of, without blanks and comments. -/
def lexemes (cs : List Char) : List Lexeme :=
  ((Token.ofChars 0 cs).filter (·.kind ≠ .blank)).map Token.toLexeme

/-- The lexeme of some characters, if they have a meaning. -/
def lexemeOf (kind : TokenKind) (cs : List Char) : List Lexeme :=
  if kind = .blank then [] else [(Token.mk kind (String.ofList cs) 0).toLexeme]

/-- Lexemes do not depend on the place of a text. -/
theorem lexemes_ofChars (offset : Nat) (cs : List Char) :
    ((Token.ofChars offset cs).filter (·.kind ≠ .blank)).map Token.toLexeme = lexemes cs := by
  unfold lexemes
  generalize 0 = other
  fun_induction Token.ofChars offset cs generalizing other with
  | case1 => simp [Token.ofChars]
  | case2 offset c rest kind more h text ih =>
    rw [Token.ofChars, h]
    dsimp only
    by_cases hk : kind = .blank
    · rw [List.filter_cons_of_neg (by simpa using hk), List.filter_cons_of_neg (by simpa using hk)]
      exact ih _
    · rw [List.filter_cons_of_pos (by simpa using hk), List.filter_cons_of_pos (by simpa using hk),
        List.map_cons, List.map_cons, ih _]
      rfl

/-- A text begins with the token that its first characters make up. -/
theorem lexemes_cons {c : Char} {rest : List Char} {kind : TokenKind} {more : Nat}
    (h : Token.lexeme c rest = (kind, more)) :
    lexemes (c :: rest) = lexemeOf kind (c :: rest.take more) ++ lexemes (rest.drop more) := by
  rw [lexemes, Token.ofChars, h]
  dsimp only
  by_cases hk : kind = .blank
  · rw [List.filter_cons_of_neg (by simpa using hk), lexemes_ofChars, lexemeOf, if_pos hk,
      List.nil_append]
  · rw [List.filter_cons_of_pos (by simpa using hk), List.map_cons, lexemes_ofChars, lexemeOf,
      if_neg hk]
    rfl

theorem lexemes_append {c : Char} {w rest : List Char} {kind : TokenKind}
    (h : Token.lexeme c (w ++ rest) = (kind, w.length)) :
    lexemes (c :: (w ++ rest)) = lexemeOf kind (c :: w) ++ lexemes rest := by
  rw [lexemes_cons h, List.take_left, List.drop_left]

/-! ## Words and numbers -/

/-- The characters that end every word and number. -/
def stops : List Char := [' ', '(', ')', ',']

/-- Nothing more, or a character that ends what stands before it. -/
def Stops (cs : List Char) : Prop := ∀ c ∈ cs.head?, c ∈ stops

instance (cs : List Char) : Decidable (Stops cs) :=
  decidable_of_iff (cs.head?.all (stops.contains ·) = true) (by cases cs <;> simp [Stops])

theorem spanLength_append {p : Char → Bool} {w rest : List Char} (hw : ∀ c ∈ w, p c = true)
    (hrest : ∀ c ∈ rest.head?, p c = false) : Token.spanLength p (w ++ rest) = w.length := by
  rw [Token.spanLength, List.takeWhile_append_of_pos hw]
  cases rest with
  | nil => simp
  | cons c rest => simp [hrest c rfl]

/-- A letter begins a word, and a digit a number. -/
theorem lexeme_of_isAlphanum {c : Char} (hc : c.isAlphanum = true) (rest : List Char) :
    Token.lexeme c rest =
      if c.isDigit then Token.numeral (c :: rest)
      else if (c = 'x' ∨ c = 'X') ∧ rest.head? = some '\'' then
        ((Token.byteString (rest.drop 1)).1, (Token.byteString (rest.drop 1)).2 + 1)
      else (.word, Token.spanLength Token.isNameChar rest) := by
  have hname : Token.isNameChar c = true := by simp [Token.isNameChar, hc]
  unfold Token.lexeme
  split
  -- the last case is that of letters and digits; the others are about characters that are neither
  case h_33 => rw [if_pos hname]
  all_goals exact absurd hc (by decide)

theorem isDigit_eq_false_of_isAlpha {c : Char} (hc : c.isAlpha = true) : c.isDigit = false := by
  have hupper (h : c.isUpper = true) : 65 ≤ c.toNat ∧ c.toNat ≤ 90 :=
    of_decide_eq_true (p := c.val ≥ 'A'.val ∧ c.val ≤ 'Z'.val) h
  have hlower (h : c.isLower = true) : 97 ≤ c.toNat ∧ c.toNat ≤ 122 :=
    (Bool.and_eq_true_iff.1 h).imp of_decide_eq_true of_decide_eq_true
  rw [Bool.eq_false_iff]
  intro hdigit
  have hnumber : 48 ≤ c.toNat ∧ c.toNat ≤ 57 :=
    (Bool.and_eq_true_iff.1 hdigit).imp of_decide_eq_true of_decide_eq_true
  rcases (Bool.or_eq_true_iff.1 hc).imp hupper hlower with hletter | hletter <;> omega

namespace Stops

variable {rest : List Char}

theorem head_eq_false (h : Stops rest) {p : Char → Bool} (hp : stops.all (!p ·) = true) :
    ∀ c ∈ rest.head?, p c = false := by
  intro c hc
  simpa using List.all_eq_true.1 hp c (h c hc)

theorem head_ne (h : Stops rest) {d : Char} (hd : d ∉ stops) : rest.head? ≠ some d :=
  fun hrest => hd (h d hrest)

theorem head_append_ne (h : Stops rest) {w : List Char} {d : Char} (hd : d ∉ stops) (hw : d ∉ w) :
    (w ++ rest).head? ≠ some d := by
  cases w with
  | nil => exact h.head_ne hd
  | cons c w =>
    rintro ⟨⟩
    exact hw List.mem_cons_self

theorem lexeme_word (h : Stops rest) {c : Char} {w : List Char} (hc : c.isAlpha = true)
    (hw : ∀ c ∈ w, Token.isNameChar c = true) :
    Token.lexeme c (w ++ rest) = (.word, w.length) := by
  have hspan : Token.spanLength Token.isNameChar (w ++ rest) = w.length :=
    spanLength_append hw (h.head_eq_false (by decide))
  have hapostrophe : (w ++ rest).head? ≠ some '\'' :=
    h.head_append_ne (by decide) fun hm => absurd (hw _ hm) (by decide)
  have halphanum : c.isAlphanum = true := by rw [Char.isAlphanum, hc, Bool.true_or]
  rw [lexeme_of_isAlphanum halphanum, if_neg (by simp [isDigit_eq_false_of_isAlpha hc]),
    if_neg fun hx => hapostrophe hx.2, hspan]

theorem numeral_eq (h : Stops rest) {c : Char} {w : List Char} (hc : c.isDigit = true)
    (hw : ∀ c ∈ w, c.isDigit = true) :
    Token.numeral (c :: (w ++ rest)) = (.number, w.length) := by
  have hhex : Token.hexLength? (c :: (w ++ rest)) = none := by
    unfold Token.hexLength?
    split
    · rename_i x _ _ heq
      have hx : (w ++ rest).head? = some x := by rw [(List.cons.inj heq).2]; rfl
      have hne (d : Char) (hd : d ∉ stops) (hdigit : d.isDigit = false) : x ≠ d := by
        rintro rfl
        refine h.head_append_ne hd (fun hm => ?_) hx
        simp [hw _ hm] at hdigit
      simp [hne 'x' (by decide) (by decide), hne 'X' (by decide) (by decide)]
    · rfl
  have hspan : Token.spanLength (fun c => c.isDigit || c = '_') (c :: (w ++ rest)) =
      w.length + 1 := by
    refine spanLength_append (w := c :: w) ?_ (h.head_eq_false (by decide))
    simpa [hc] using fun d hd => Or.inl (hw d hd)
  have hexponent : Token.exponentLength rest = 0 := by
    unfold Token.exponentLength
    split
    · rename_i e _ _
      have hne : ¬(e = 'e' ∨ e = 'E') := by
        rintro (rfl | rfl) <;> exact absurd (h _ rfl) (by decide)
      simp [hne]
    · rfl
  have hdecimal : Token.decimalLength (c :: (w ++ rest)) = w.length + 1 := by
    unfold Token.decimalLength
    simp only [hspan, List.drop_succ_cons, List.drop_left]
    split
    · exact absurd (h '.' rfl) (by decide)
    · simp [hexponent]
  have hmore : Token.spanLength Token.isNameChar rest = 0 :=
    spanLength_append (w := []) (by simp) (h.head_eq_false (by decide))
  simp [Token.numeral, hhex, hdecimal, hmore]

theorem lexeme_number (h : Stops rest) {c : Char} {w : List Char} (hc : c.isDigit = true)
    (hw : ∀ c ∈ w, c.isDigit = true) :
    Token.lexeme c (w ++ rest) = (.number, w.length) := by
  have halphanum : c.isAlphanum = true := by rw [Char.isAlphanum, hc, Bool.or_true]
  rw [lexeme_of_isAlphanum halphanum, if_pos hc, h.numeral_eq hc hw]

end Stops

/-! ## Quotation marks -/

/-- A text with every mark in it doubled. -/
def doubled (mark : Char) (cs : List Char) : List Char :=
  cs.flatMap fun c => if c = mark then [mark, mark] else [c]

theorem doubled_eq_self {mark : Char} {cs : List Char} (h : mark ∉ cs) : doubled mark cs = cs := by
  induction cs with
  | nil => rfl
  | cons c cs ih =>
    rw [List.mem_cons, not_or] at h
    rw [doubled, List.flatMap_cons, if_neg (Ne.symm h.1), ← doubled, ih h.2]
    rfl

/-- A doubled mark does not close what a single one closes. -/
theorem quotedLength?_doubled (mark : Char) (cs : List Char) {rest : List Char}
    (hrest : rest.head? ≠ some mark) :
    Token.quotedLength? mark (doubled mark cs ++ mark :: rest) =
      some ((doubled mark cs).length + 1) := by
  induction cs with
  | nil =>
    cases rest with
    | nil => simp [doubled, Token.quotedLength?]
    | cons d rest =>
      have hd : d ≠ mark := fun h => hrest (congrArg some h)
      simp [doubled, Token.quotedLength?, hd]
  | cons c cs ih =>
    rw [doubled, List.flatMap_cons, ← doubled]
    by_cases hc : c = mark
    · simp [hc, Token.quotedLength?, ih]
    · rw [if_neg hc, List.singleton_append, List.cons_append]
      -- behind the character there is at least the mark that closes
      obtain ⟨d, tail, hd⟩ : ∃ d tail, doubled mark cs ++ mark :: rest = d :: tail :=
        List.exists_cons_of_ne_nil (by simp)
      rw [hd] at ih ⊢
      simp [Token.quotedLength?, hc, ih]

theorem undouble_doubled (cs : List Char) : Token.undouble (doubled '\'' cs) = cs := by
  induction cs with
  | nil => rfl
  | cons c cs ih =>
    rw [doubled, List.flatMap_cons, ← doubled]
    by_cases hc : c = '\''
    · simp [hc, Token.undouble, ih]
    · rw [if_neg hc, List.singleton_append]
      cases hd : doubled '\'' cs with
      | nil =>
        rw [hd] at ih
        simp [Token.undouble, ← ih]
      | cons d tail =>
        rw [hd] at ih
        simp [Token.undouble, hc, ih]

theorem lexemeOf_quoted {kind : TokenKind} (hkind : kind = .text ∨ kind = .quotedName) (mark : Char)
    (cs : List Char) :
    lexemeOf kind (mark :: (cs ++ [mark])) = [⟨kind, String.ofList (Token.undouble cs)⟩] := by
  have hblank : kind ≠ .blank := by
    rintro rfl
    simp at hkind
  rw [lexemeOf, if_neg hblank, Token.toLexeme, Token.name, if_pos hkind, String.toList_ofList,
    List.drop_one, List.tail_cons, List.dropLast_concat]

theorem lexemes_quoted {kind : TokenKind} (hkind : kind = .text ∨ kind = .quotedName) {mark : Char}
    (hmark : ∀ rest, Token.lexeme mark rest = Token.quoted kind mark rest) (cs : List Char)
    {rest : List Char} (hrest : rest.head? ≠ some mark) :
    lexemes (mark :: (doubled mark cs ++ mark :: rest)) =
      ⟨kind, String.ofList (Token.undouble (doubled mark cs))⟩ :: lexemes rest := by
  have hlexeme : Token.lexeme mark ((doubled mark cs ++ [mark]) ++ rest) =
      (kind, (doubled mark cs ++ [mark]).length) := by
    rw [hmark, Token.quoted, List.append_assoc, List.singleton_append,
      quotedLength?_doubled mark cs hrest]
    simp
  have h := lexemes_append hlexeme
  rw [lexemeOf_quoted hkind, List.append_assoc, List.singleton_append] at h
  exact h

/-- **A literal is read back as what it stands for**, whatever follows it but an apostrophe. -/
theorem lexemes_literal (value : String) {rest : List Char} (hrest : rest.head? ≠ some '\'') :
    lexemes ((literal value).toList ++ rest) = ⟨.text, value⟩ :: lexemes rest := by
  have h := lexemes_quoted (.inl rfl) (fun _ => rfl) value.toList hrest
  rw [undouble_doubled, String.ofList_toList] at h
  rw [← h, literal, ← doubled]
  simp

/-- A text holds neither a quotation mark nor an apostrophe. -/
def Unquoted (s : String) : Prop := '"' ∉ s.toList ∧ '\'' ∉ s.toList

/-- A name without quotation marks and apostrophes is read back. -/
theorem lexemes_name {s : String} (hs : Unquoted s) {rest : List Char}
    (hrest : rest.head? ≠ some '"') :
    lexemes ((name s).toList ++ rest) = ⟨.quotedName, s⟩ :: lexemes rest := by
  have hundouble : Token.undouble s.toList = s.toList := by
    conv_lhs => rw [← doubled_eq_self hs.2, undouble_doubled]
  have h := lexemes_quoted (.inr rfl) (fun _ => rfl) s.toList hrest
  rw [doubled_eq_self hs.1, hundouble, String.ofList_toList] at h
  rw [← h, name]
  simp

/-! ## Blanks -/

/-- What may stand behind a blank: a vertical tab is one only behind another blank. -/
def Fits (cs : List Char) : Prop := cs.head? ≠ some '\x0b'

instance (cs : List Char) : Decidable (Fits cs) := inferInstanceAs (Decidable (_ ≠ _))

theorem Stops.fits {rest : List Char} (h : Stops rest) : Fits rest := h.head_ne (by decide)

theorem eq_of_isBlank {c : Char} (h : Token.isBlank c = true) (hc : c ≠ '\x0b') :
    c = ' ' ∨ c = '\t' ∨ c = '\n' ∨ c = '\x0c' ∨ c = '\r' := by
  simp only [Token.isBlank, Bool.or_eq_true, Bool.and_eq_true, decide_eq_true_eq, Char.le_def,
    UInt32.le_iff_toNat_le, ← Char.toNat_inj, ne_eq] at h hc ⊢
  change c.toNat = 32 ∨ 9 ≤ c.toNat ∧ c.toNat ≤ 13 at h
  change c.toNat ≠ 11 at hc
  change c.toNat = 32 ∨ c.toNat = 9 ∨ c.toNat = 10 ∨ c.toNat = 12 ∨ c.toNat = 13
  omega

/-- Blanks at the start of a text stand for nothing. -/
theorem lexemes_drop_blanks {rest : List Char} (h : Fits rest) :
    lexemes (rest.drop (Token.spanLength Token.isBlank rest)) = lexemes rest := by
  cases rest with
  | nil => rfl
  | cons c rest =>
    by_cases hc : Token.isBlank c = true
    · have hlexeme : Token.lexeme c rest = (.blank, Token.spanLength Token.isBlank rest) := by
        have hblank := eq_of_isBlank hc fun hv => h (congrArg some hv)
        obtain rfl | rfl | rfl | rfl | rfl := hblank <;> rfl
      rw [lexemes_cons hlexeme]
      simp [lexemeOf, Token.spanLength, hc]
    · simp [Token.spanLength, hc]

theorem lexemes_blank {rest : List Char} (h : Fits rest) :
    lexemes (' ' :: rest) = lexemes rest := by
  have hlexeme : Token.lexeme ' ' rest = (.blank, Token.spanLength Token.isBlank rest) := rfl
  rw [lexemes_cons hlexeme, lexemes_drop_blanks h]
  rfl

/-! ## Texts and what follows them -/

/-- Before whatever follows with the property, the text is cut into the lexemes. -/
structure Cut (follows : List Char → Prop) (text : String) (ls : List Lexeme) : Prop where
  fits : Fits text.toList
  eq : ∀ rest, follows rest → lexemes (text.toList ++ rest) = ls ++ lexemes rest

/-- Whatever follows the text, it is cut into the lexemes. -/
abbrev Loose (text : String) (ls : List Lexeme) : Prop := Cut Fits text ls

/-- The text is cut into the lexemes where it ends, and before a blank, a bracket or a comma. -/
abbrev Tight (text : String) (ls : List Lexeme) : Prop := Cut Stops text ls

/-- Whether a text begins with a character that ends what stands before it. -/
def opensWithStop (text : String) : Bool := text.toList.head?.any (stops.contains ·)

theorem Cut.append {P Q : List Char → Prop} {a b : String} {x y : List Lexeme} (ha : Cut P a x)
    (hb : Cut Q b y) (h : ∀ rest, Q rest → P (b.toList ++ rest)) : Cut Q (a ++ b) (x ++ y) where
  fits := by
    rw [String.toList_append]
    cases hcs : a.toList with
    | nil => exact hb.fits
    | cons c cs =>
      have hfits := ha.fits
      rw [hcs] at hfits
      exact hfits
  eq rest hrest := by
    rw [String.toList_append, List.append_assoc, ha.eq _ (h rest hrest), hb.eq rest hrest,
      List.append_assoc]

theorem Fits.append {cs rest : List Char} (hcs : Fits cs) (hrest : Fits rest) :
    Fits (cs ++ rest) := by
  cases cs with
  | nil => exact hrest
  | cons c cs => exact hcs

theorem stops_append {text : String} (h : opensWithStop text = true) (rest : List Char) :
    Stops (text.toList ++ rest) := by
  unfold opensWithStop at h
  cases hcs : text.toList with
  | nil => simp [hcs] at h
  | cons c cs =>
    intro d hd
    cases hd
    simpa [hcs] using h

section

variable {a b : String} {x y : List Lexeme}

namespace Loose

theorem loose (ha : Loose a x) (hb : Loose b y) : Loose (a ++ b) (x ++ y) :=
  ha.append hb fun _ hrest => hb.fits.append hrest

theorem tight (ha : Loose a x) (hb : Tight b y) : Tight (a ++ b) (x ++ y) :=
  ha.append hb fun _ hrest => hb.fits.append hrest.fits

end Loose

namespace Tight

theorem loose (ha : Tight a x) (hb : Loose b y) (h : opensWithStop b = true) :
    Loose (a ++ b) (x ++ y) :=
  ha.append hb fun rest _ => stops_append h rest

/-- Behind a tight text nothing may stand, too. -/
theorem tight (ha : Tight a x) (hb : Tight b y) (h : Stops b.toList) : Tight (a ++ b) (x ++ y) := by
  refine ha.append hb fun rest hrest => ?_
  cases hcs : b.toList with
  | nil => exact hrest
  | cons c cs =>
    intro d hd
    exact h d (by rwa [hcs])

end Tight

/-- Two texts with words between them. -/
theorem Tight.join {c : String} {z : List Lexeme} (ha : Tight a x) (hb : Loose b y)
    (h : opensWithStop b = true) (hc : Tight c z) : Tight (a ++ b ++ c) (x ++ y ++ z) :=
  (ha.loose hb h).tight hc

theorem Cut.congr {P : List Char → Prop} (h : Cut P a x) (hxy : x = y) : Cut P a y := hxy ▸ h

theorem Loose.toTight (h : Loose a x) : Tight a x :=
  ⟨h.fits, fun rest hrest => h.eq rest hrest.fits⟩

theorem Tight.lexemes_eq (h : Tight a x) : lexemes a.toList = x := by
  have heq := h.eq [] (by simp [Stops])
  simpa [lexemes, Token.ofChars] using heq

theorem loose_empty : Loose "" [] := ⟨by simp [Fits], fun _ _ => rfl⟩

theorem tight_empty : Tight "" [] := loose_empty.toTight

end

/-! ## Words of statements -/

/-- The operators of statements. -/
def operators : List String := ["*", "=", "<>", ">", ">=", "<", "<="]

/-- What some characters between two stops are made of: a word, a number or an operator. -/
def runLexemes? : List Char → Option (List Lexeme)
  | [] => some []
  | ['-', '1'] => some [⟨.symbol, "-"⟩, ⟨.number, "1"⟩]
  | c :: w =>
    if c.isAlpha ∧ w.all Token.isNameChar then some [⟨.word, String.ofList (c :: w)⟩]
    else if c.isDigit ∧ w.all Char.isDigit then some [⟨.number, String.ofList (c :: w)⟩]
    else if String.ofList (c :: w) ∈ operators then some [⟨.symbol, String.ofList (c :: w)⟩]
    else none

/-- What a stop stands for. -/
def stopLexemes (c : Char) : List Lexeme := if c = ' ' then [] else [⟨.symbol, String.singleton c⟩]

/-- What words with stops between them are made of, with the characters in front that belong to the
first word. -/
def wordLexemes? (w : List Char) : List Char → Option (List Lexeme)
  | [] => runLexemes? w
  | c :: rest =>
    if c ∈ stops then do
      return (← runLexemes? w) ++ stopLexemes c ++ (← wordLexemes? [] rest)
    else if Fits (c :: rest) then wordLexemes? (w ++ [c]) rest
    else none

/-- Whether the last character of a text ends what stands before it. -/
def endsWithStop (cs : List Char) : Bool := cs.getLast?.any (stops.contains ·)

theorem lexemes_stop {c : Char} (hc : c ∈ stops) {rest : List Char} (h : Fits rest) :
    lexemes (c :: rest) = stopLexemes c ++ lexemes rest := by
  have hsymbol {d : Char} (hd : Token.lexeme d rest = (.symbol, 0)) :
      lexemes (d :: rest) = lexemeOf .symbol [d] ++ lexemes rest := by
    rw [lexemes_cons hd, List.take_zero, List.drop_zero]
  obtain rfl | rfl | rfl | rfl : c = ' ' ∨ c = '(' ∨ c = ')' ∨ c = ',' := by
    simpa [stops] using hc
  · exact lexemes_blank h
  all_goals exact hsymbol rfl

theorem Stops.lexeme_operator {rest : List Char} (h : Stops rest) {c : Char} {w : List Char}
    (hop : String.ofList (c :: w) ∈ operators) :
    Token.lexeme c (w ++ rest) = (.symbol, w.length) := by
  have hop : c :: w ∈ operators.map String.toList := by
    simpa using List.mem_map_of_mem (f := String.toList) hop
  have hnext (others : List Char) (ho : others.all (!stops.contains ·) = true) :
      (if rest.head?.any (others.contains ·) then 1 else 0) = 0 := by
    cases hrest : rest.head? with
    | none => rfl
    | some d =>
      have hnot : d ∉ others := fun hd => by simpa [h d hrest] using List.all_eq_true.1 ho d hd
      simpa using hnot
  -- only `=`, `>` and `<` go on with the next character, and never with a stop
  obtain ⟨rfl, rfl⟩ | ⟨rfl, rfl⟩ | ⟨rfl, rfl⟩ | ⟨rfl, rfl⟩ | ⟨rfl, rfl⟩ | ⟨rfl, rfl⟩ | ⟨rfl, rfl⟩ :
      (c = '*' ∧ w = []) ∨ (c = '=' ∧ w = []) ∨ (c = '<' ∧ w = ['>']) ∨ (c = '>' ∧ w = []) ∨
      (c = '>' ∧ w = ['=']) ∨ (c = '<' ∧ w = []) ∨ (c = '<' ∧ w = ['=']) := by
    simpa [operators] using hop
  · rfl
  · exact congrArg (TokenKind.symbol, ·) (hnext ['='] (by decide))
  · rfl
  · exact congrArg (TokenKind.symbol, ·) (hnext ['=', '>'] (by decide))
  · rfl
  · exact congrArg (TokenKind.symbol, ·) (hnext ['=', '>', '<'] (by decide))
  · rfl

theorem Stops.lexemes_run {rest : List Char} (h : Stops rest) {w : List Char} {ls : List Lexeme}
    (hw : runLexemes? w = some ls) : lexemes (w ++ rest) = ls ++ lexemes rest := by
  unfold runLexemes? at hw
  split at hw
  · cases hw
    rfl
  · cases hw
    have hminus : Token.lexeme '-' ('1' :: rest) = (.symbol, 0) := rfl
    have hone : Token.lexeme '1' rest = (.number, 0) := h.lexeme_number (w := []) rfl (by simp)
    show lexemes ('-' :: '1' :: rest) = _
    rw [lexemes_cons hminus, List.drop_zero, lexemes_cons hone]
    rfl
  · rename_i c w
    rw [List.cons_append]
    split_ifs at hw with hword hnumber hoperator
    all_goals cases hw
    · rw [lexemes_append (h.lexeme_word hword.1 (by simpa using hword.2))]
      rfl
    · rw [lexemes_append (h.lexeme_number hnumber.1 (by simpa using hnumber.2))]
      rfl
    · rw [lexemes_append (h.lexeme_operator hoperator)]
      rfl

theorem fits_of_wordLexemes {w cs : List Char} {ls : List Lexeme}
    (h : wordLexemes? w cs = some ls) : Fits cs := by
  cases cs with
  | nil => simp [Fits]
  | cons c cs =>
    rw [wordLexemes?] at h
    split_ifs at h with hc hfits
    · have hstops : Stops (c :: cs) := by simpa [Stops] using hc
      exact hstops.fits
    · exact hfits

theorem lexemes_words {w cs rest : List Char} {ls : List Lexeme} (h : wordLexemes? w cs = some ls)
    (hrest : Stops rest ∨ endsWithStop cs = true ∧ Fits rest) :
    lexemes (w ++ (cs ++ rest)) = ls ++ lexemes rest := by
  induction cs generalizing w ls with
  | nil => exact (hrest.resolve_right (by simp [endsWithStop])).lexemes_run h
  | cons c cs ih =>
    rw [wordLexemes?] at h
    split_ifs at h with hc hfits
    · obtain ⟨x, hx, h⟩ := Option.bind_eq_some_iff.1 h
      obtain ⟨y, hy, h⟩ := Option.bind_eq_some_iff.1 h
      cases h
      have hstops : Stops (c :: (cs ++ rest)) := by simpa [Stops] using hc
      have hcs : Fits (cs ++ rest) :=
        (fits_of_wordLexemes hy).append (hrest.elim Stops.fits And.right)
      have htail : lexemes (cs ++ rest) = y ++ lexemes rest := by
        cases cs with
        | nil =>
          cases hy
          rfl
        | cons d cs => exact ih hy (by simpa [endsWithStop] using hrest)
      rw [List.cons_append, hstops.lexemes_run hx, lexemes_stop hc hcs, htail]
      simp
    · have hcs : Stops rest ∨ endsWithStop cs = true ∧ Fits rest := by
        refine hrest.imp_right (And.imp_left fun hends => ?_)
        cases cs with
        | nil => simp [endsWithStop, hc] at hends
        | cons d cs => simpa [endsWithStop] using hends
      simpa using ih h hcs

/-- Fixed words before what ends the last one of them. -/
theorem tight_words {text : String} {ls : List Lexeme} (h : wordLexemes? [] text.toList = some ls) :
    Tight text ls := ⟨fits_of_wordLexemes h, fun _ hrest => lexemes_words h (.inl hrest)⟩

/-- Fixed words whose last one has ended. -/
theorem loose_words {text : String} {ls : List Lexeme}
    (h : wordLexemes? [] text.toList = some ls ∧ endsWithStop text.toList = true) :
    Loose text ls :=
  ⟨fits_of_wordLexemes h.1, fun _ hrest => lexemes_words h.1 (.inr ⟨h.2, hrest⟩)⟩

theorem loose_from : Loose " FROM " [⟨.word, "FROM"⟩] := loose_words (by decide)

theorem loose_where : Loose " WHERE " [⟨.word, "WHERE"⟩] := loose_words (by decide)

theorem loose_equals : Loose " = " [⟨.symbol, "="⟩] := loose_words (by decide)

theorem loose_in : Loose " IN " [⟨.word, "IN"⟩] := loose_words (by decide)

theorem loose_comma : Loose ", " [⟨.symbol, ","⟩] := loose_words (by decide)

theorem loose_blank : Loose " " [] := loose_words (by decide)

theorem loose_opening : Loose "(" [⟨.symbol, "("⟩] := loose_words (by decide)

theorem loose_closing : Loose ")" [⟨.symbol, ")"⟩] := loose_words (by decide)

/-! ## Names, literals, marks and numbers -/

theorem tight_name {s : String} (hs : Unquoted s) : Tight (name s) [⟨.quotedName, s⟩] where
  fits := by simp [Fits, name]
  eq _ hrest := lexemes_name hs (hrest.head_ne (by decide))

theorem tight_literal (value : String) : Tight (literal value) [⟨.text, value⟩] where
  fits := by simp [Fits, literal]
  eq _ hrest := lexemes_literal value (hrest.head_ne (by decide))

/-- A text between apostrophes is a literal of it, unless it holds one. -/
theorem literal_eq {s : String} (h : '\'' ∉ s.toList) : literal s = "'" ++ s ++ "'" := by
  rw [literal, ← doubled, doubled_eq_self h, String.ofList_toList]

/-- What an alias is called. -/
def aliasName (n : Nat) : String := "t" ++ toString n

theorem isDigit_of_mem_numeral {n : Nat} {c : Char} (h : c ∈ (toString n).toList) :
    c.isDigit = true :=
  Nat.isDigit_of_mem_toDigits (by decide) (Nat.le_refl 10) (Nat.toList_repr ▸ h)

theorem unquoted_aliasName (n : Nat) : Unquoted (aliasName n) := by
  have hnone {c : Char} (hc : c ≠ 't') (hdigit : c.isDigit = false) :
      c ∉ (aliasName n).toList := by
    rw [aliasName, String.toList_append, List.mem_append, not_or]
    refine ⟨by simpa using hc, fun h => ?_⟩
    simp [isDigit_of_mem_numeral h] at hdigit
  exact ⟨hnone (by decide) (by decide), hnone (by decide) (by decide)⟩

theorem tight_aliased {table : String} (ht : Unquoted table) (n : Nat) :
    Tight (aliased table n) [⟨.quotedName, table⟩, ⟨.word, "AS"⟩, ⟨.quotedName, aliasName n⟩] := by
  have has : Loose " AS " [⟨.word, "AS"⟩] := loose_words (by decide)
  exact ((tight_name ht).loose has rfl).tight (tight_name (unquoted_aliasName n))

theorem tight_mark : Tight mark [⟨.mark, "?"⟩] where
  fits := by decide
  eq rest hrest := by
    have hlexeme : Token.lexeme '?' rest = (.mark, 0) := by
      show (TokenKind.mark, Token.spanLength Char.isDigit rest) = _
      rw [← List.nil_append rest, spanLength_append (w := []) (by simp)
        (hrest.head_eq_false (by decide))]
      rfl
    exact lexemes_cons hlexeme

theorem tight_number (n : Nat) : Tight (toString n) [⟨.number, toString n⟩] := by
  obtain ⟨c, w, hcs⟩ : ∃ c w, (toString n).toList = c :: w :=
    List.exists_cons_of_ne_nil (Nat.toList_repr ▸ Nat.toDigits_ne_nil)
  have hdigit (d : Char) (hd : d ∈ c :: w) : d.isDigit = true :=
    isDigit_of_mem_numeral (hcs ▸ hd)
  have hnumber : lexemeOf .number (c :: w) = [⟨.number, toString n⟩] := by
    rw [← hcs, lexemeOf, if_neg (by decide), String.ofList_toList]
    rfl
  refine ⟨?_, fun rest hrest => ?_⟩
  · rw [hcs]
    rintro ⟨⟩
    exact absurd (hdigit _ List.mem_cons_self) (by decide)
  · have hlexeme := hrest.lexeme_number (hdigit c List.mem_cons_self)
      fun d hd => hdigit d (List.mem_cons_of_mem c hd)
    rw [hcs, List.cons_append, lexemes_append hlexeme, hnumber]

/-- Parts with a separator between them. -/
theorem tight_intercalate {separator : String} {x : List Lexeme} (hs : Loose separator x)
    (hopens : opensWithStop separator = true) {texts : List String} {parts : List (List Lexeme)}
    (h : List.Forall₂ Tight texts parts) :
    Tight (separator.intercalate texts) (x.intercalate parts) := by
  induction h with
  | nil => exact tight_empty
  | cons hfirst hrest ih =>
    cases hrest with
    | nil => simpa using hfirst
    | cons =>
      rw [String.intercalate_cons_cons, List.intercalate_cons_cons]
      exact (hfirst.loose hs hopens).tight ih

end ResourceApi.Sql
