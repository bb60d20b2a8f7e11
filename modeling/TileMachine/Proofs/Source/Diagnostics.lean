import TileMachine.Proofs.Source.Blame
import TileMachine.Proofs.Source.Rendering

/-! Complaints point at the text that they are about. The span of a complaint reaches from
the first blamed token to the last one, so in the line it marks their texts and at most
blanks between them, and the carets stand under exactly these characters. -/
namespace TileMachine
open Text

namespace Lexer

def Quiet (lexemes : List Lexeme) : Prop :=
  ∀ l ∈ lexemes, l.isSignificant = false → ∀ c ∈ l.text, isBlank c = true

theorem quiet_lexeme_blank {text : List Char} (h : ∀ c ∈ text, isBlank c = true) :
    Quiet (lexeme .blank text) := by
  intro l hl _
  unfold lexeme at hl
  split at hl
  next => cases hl
  next =>
    rw [List.mem_singleton.1 hl]
    exact h

theorem quiet_lexCode (code : List Char) : Quiet (lexCode code) := by
  unfold lexCode
  split
  next =>
    intro l hl hquiet
    rcases List.mem_append.1 hl with hfront | hback
    · rcases List.mem_append.1 hfront with hblank | hlabel
      · exact quiet_lexeme_blank (fun _ => isBlank_of_mem_leading) l hblank hquiet
      · unfold lexeme at hlabel
        split at hlabel
        next => cases hlabel
        next =>
          rw [List.mem_singleton.1 hlabel] at hquiet
          cases hquiet
    · exact quiet_lexeme_blank (fun _ => isBlank_of_mem_trailing) l hback hquiet
  next =>
    intro l hl hquiet
    obtain ⟨run, -, rfl⟩ := List.mem_map.1 hl
    rw [lexRun_eq] at hquiet ⊢
    split at hquiet
    next hblank =>
      rw [if_pos hblank]
      exact List.all_eq_true.1 hblank
    next =>
      rw [isSignificant_ofText] at hquiet
      cases hquiet

/-- The tokens reach from the first character of the marked part to its last one. Apart from
blanks the part is made up of their texts, and for a single token it is its text. -/
structure Covers (text : List Char) (start : Nat) (tokens : List Token)
    (front marked back : List Char) : Prop where
  text : text = front ++ marked ++ back
  nonempty : marked ≠ []
  first : ∀ t, tokens.head? = some t → t.span.start = start + byteLength front
  last : ∀ t, tokens.getLast? = some t → t.span.stop = start + byteLength (front ++ marked)
  chars : marked.filter (!isBlank ·) = (tokens.flatMap (·.text.toList)).filter (!isBlank ·)
  alone : ∀ t, tokens = [t] → marked = t.text.toList

theorem covers_single {start : Nat} {t : Token} {word : List Char} (htext : t.text.toList = word)
    (hspan : t.span = ⟨start, start + byteLength word⟩) (hne : word ≠ []) (back : List Char) :
    Covers (word ++ back) start [t] [] word back where
  text := rfl
  nonempty := hne
  first u hu := by
    cases hu
    rw [hspan, byteLength_nil, Nat.add_zero]
  last u hu := by
    obtain rfl : t = u := by simpa using hu
    rw [hspan, List.nil_append]
  chars := by rw [List.flatMap_singleton, htext]
  alone u hu := by rw [← (List.cons.inj hu).1, htext]

theorem Covers.prepend {text front marked back word : List Char} {start : Nat} {tokens : List Token}
    (h : Covers text (start + byteLength word) tokens front marked back) :
    Covers (word ++ text) start tokens (word ++ front) marked back where
  text := by rw [h.text]; simp only [List.append_assoc]
  nonempty := h.nonempty
  first t ht := by rw [h.first t ht, byteLength_append, Nat.add_assoc]
  last t ht := by rw [h.last t ht, List.append_assoc, byteLength_append word, Nat.add_assoc]
  chars := h.chars
  alone := h.alone

theorem Covers.extend {text front marked back word : List Char} {start : Nat} {t : Token}
    {tokens : List Token} (h : Covers text (start + byteLength word) tokens front marked back)
    (hne : tokens ≠ []) (hfront : ∀ c ∈ front, isBlank c = true) (htext : t.text.toList = word)
    (hstart : t.span.start = start) :
    Covers (word ++ text) start (t :: tokens) [] (word ++ front ++ marked) back where
  text := by rw [h.text]; simp only [List.append_assoc, List.nil_append]
  nonempty := by simp [h.nonempty]
  first u hu := by
    cases hu
    exact hstart
  last u hu := by
    rw [List.getLast?_cons_of_ne_nil hne] at hu
    rw [h.last u hu, List.nil_append, List.append_assoc, byteLength_append word, Nat.add_assoc]
  chars := by
    have hblank : front.filter (!isBlank ·) = [] := by simpa using hfront
    rw [List.filter_append, List.filter_append, hblank, List.append_nil, h.chars, List.flatMap_cons,
      List.filter_append, htext]
  alone u hu := absurd (List.cons.inj hu).2 hne

/-- Significant tokens that follow one another cover a part of the text. -/
theorem exists_covers {lexemes : List Lexeme} {text : List Char} (hspells : Spells lexemes text)
    (hquiet : Quiet lexemes) {number start : Nat} {before tokens after : List Token}
    (htokens : (place number start lexemes).filter Token.isSignificant = before ++ tokens ++ after)
    (hne : tokens ≠ []) :
    ∃ front marked back, Covers text start tokens front marked back ∧
      (before = [] → ∀ c ∈ front, isBlank c = true) := by
  induction lexemes generalizing text start before tokens with
  | nil => simp_all [place]
  | cons l ls ih =>
    have hl := hspells.nonempty l List.mem_cons_self
    have hrest : Spells ls (ls.flatMap Lexeme.text) :=
      ⟨rfl, fun m hm => hspells.nonempty m (List.mem_cons_of_mem l hm)⟩
    have htext : l.text ++ ls.flatMap Lexeme.text = text := hspells.text
    have hword : (String.ofList l.text).toList = l.text := String.toList_ofList
    rw [Quiet, List.forall_mem_cons] at hquiet
    rw [← htext]
    have hfirst : Token.isSignificant ⟨l.kind, .ofList l.text, number,
        ⟨start, start + byteLength l.text⟩⟩ = l.isSignificant := rfl
    rw [place, List.filter_cons, hfirst] at htokens
    by_cases hsignificant : l.isSignificant = true
    · rw [if_pos hsignificant] at htokens
      cases before with
      | cons b before =>
        obtain ⟨front, marked, back, hcovers, -⟩ := ih hrest hquiet.2 (List.cons.inj htokens).2 hne
        exact ⟨_, _, _, hcovers.prepend, fun hnil => by cases hnil⟩
      | nil =>
        cases tokens with
        | nil => contradiction
        | cons t tokens =>
          obtain ⟨rfl, hrun⟩ := List.cons.inj htokens
          by_cases hnil : tokens = []
          · subst hnil
            exact ⟨_, _, _, covers_single hword rfl hl _, by simp⟩
          · have hlater : (place number (start + byteLength l.text) ls).filter Token.isSignificant =
                [] ++ tokens ++ after := hrun
            obtain ⟨front, marked, back, hcovers, hblank⟩ := ih hrest hquiet.2 hlater hnil
            exact ⟨_, _, _, hcovers.extend hnil (hblank rfl) hword rfl, by simp⟩
    · rw [if_neg hsignificant] at htokens
      obtain ⟨front, marked, back, hcovers, hblank⟩ := ih hrest hquiet.2 htokens hne
      have hquietWord := hquiet.1 (by simpa using hsignificant)
      refine ⟨_, _, _, hcovers.prepend, fun hnil => ?_⟩
      exact List.forall_mem_append.2 ⟨hquietWord, hblank hnil⟩

theorem le_start_of_mem_place {number start : Nat} {lexemes : List Lexeme} {t : Token}
    (h : t ∈ place number start lexemes) : start ≤ t.span.start ∧ t.span.start ≤ t.span.stop := by
  induction lexemes generalizing start with
  | nil => cases h
  | cons l ls ih =>
    rw [place, List.mem_cons] at h
    rcases h with rfl | h
    · exact ⟨Nat.le_refl start, Nat.le_add_right start _⟩
    · have hlater := ih h
      omega

theorem pairwise_place (number start : Nat) (lexemes : List Lexeme) :
    (place number start lexemes).Pairwise fun s t =>
      s.span.start ≤ t.span.start ∧ s.span.stop ≤ t.span.stop := by
  induction lexemes generalizing start with
  | nil => exact .nil
  | cons l ls ih =>
    rw [place, List.pairwise_cons]
    refine ⟨fun t ht => ?_, ih _⟩
    have hlater := le_start_of_mem_place ht
    dsimp only
    omega

theorem Covers.cover {text front marked back : List Char} {start : Nat} {tokens : List Token}
    (h : Covers text start tokens front marked back)
    (hsorted : tokens.Pairwise fun s t => s.span.start ≤ t.span.start ∧ s.span.stop ≤ t.span.stop)
    {s t : Token} (hs : tokens.head? = some s) (ht : tokens.getLast? = some t) :
    s.span.cover t.span = ⟨start + byteLength front, start + byteLength (front ++ marked)⟩ := by
  have hle : s.span.start ≤ t.span.start ∧ s.span.stop ≤ t.span.stop := by
    cases tokens with
    | nil => cases hs
    | cons u tokens =>
      cases hs
      rcases List.mem_cons.1 (List.mem_of_getLast? ht) with rfl | hmem
      · exact ⟨Nat.le_refl _, Nat.le_refl _⟩
      · exact (List.pairwise_cons.1 hsorted).1 t hmem
  unfold Span.cover
  rw [Nat.min_eq_left hle.1, Nat.max_eq_right hle.2, h.first s hs, h.last t ht]

theorem filter_place_lexLine_cases (number : Nat) (inBlock : Bool) (line : List Char) :
    (place number 0 (lexLine inBlock line).1).filter Token.isSignificant = [] ∨
      (place number 0 (lexLine inBlock line).1).filter Token.isSignificant =
        (place number 0 (lexCode (splitComment line).1)).filter Token.isSignificant := by
  have hcomment := filter_place_of_none (filter_lexeme_comment line) number 0
  unfold lexLine
  split
  next => exact .inl hcomment
  split
  next => exact .inl hcomment
  split
  next => exact .inl hcomment
  next => exact .inr (filter_place_append (filter_lexeme_comment _) number 0)

theorem lexeme_of_labelDef {number start : Nat} {code : List Char} {t : Token}
    (h : t ∈ (place number start (lexCode code)).filter Token.isSignificant)
    (hkind : t.kind = .labelDef) :
    t.lexeme = ⟨.labelDef, trim code⟩ ∧ (trim code).getLast? = some ':' := by
  have hmem : t.lexeme ∈ (lexCode code).filter Lexeme.isSignificant := by
    rw [← map_lexeme_filter_place number start]
    exact List.mem_map_of_mem h
  by_cases hcolon : (trim code).getLast? = some ':'
  · rw [filter_lexCode_of_colon hcolon] at hmem
    exact ⟨List.mem_singleton.1 hmem, hcolon⟩
  · rw [filter_lexCode_of_not_colon hcolon] at hmem
    obtain ⟨w, -, hw⟩ := List.mem_map.1 hmem
    have hword : TokenKind.ofText w = .labelDef := (congrArg Lexeme.kind hw).trans hkind
    rcases TokenKind.ofText_cases w with hw | hw | hw | hw <;> rw [hw] at hword <;> contradiction

end Lexer

namespace ParseError

/-- What the marked part of a line has to do with the cause: it is the text that the cause
shows, the mnemonic that lacks an argument, the whole declaration with the colon behind its
name, or the address in brackets but for blanks. -/
def Cause.Names (line marked : List Char) : Cause → Prop
  | unknownOpcode text | unexpectedToken text | expectedAddress _ text | expectedLabel _ text
  | invalidInteger text | invalidAddress text | undefinedLabel text => marked = text.toList
  | missingArgument opcode expected =>
    marked.map Char.toLower = opcode.mnemonic.toList ∧ expected = opcode.operandKind
  | duplicateLabel name | invalidLabel name =>
    ∃ code, Grammar.IsCode line code ∧ marked = trim code ∧ marked.getLast? = some ':' ∧
      trim marked.dropLast = name.toList
  | malformedIndirect text => marked.filter (!isBlank ·) = text.toList.filter (!isBlank ·)

structure Marks (e : ParseError) (line front marked back : List Char) : Prop where
  parts : line = front ++ marked ++ back
  nonempty : marked ≠ []
  span : e.span = some ⟨byteLength front, byteLength (front ++ marked)⟩
  names : e.cause.Names line marked

theorem names_of_isAbout {number : Nat} {line : List Char} {t : Token} {cause : Cause}
    (ht : t ∈ (Lexer.place number 0 (Lexer.lexCode (Lexer.splitComment line).1)).filter
      Token.isSignificant) (h : cause.IsAbout t) : cause.Names line t.text.toList := by
  have hlabel (hkind : t.kind = .labelDef) {name : String} (hname : name = t.labelName?.getD "") :
      ∃ code, Grammar.IsCode line code ∧ t.text.toList = trim code ∧
        t.text.toList.getLast? = some ':' ∧ trim t.text.toList.dropLast = name.toList := by
    obtain ⟨hlexeme, hcolon⟩ := Lexer.lexeme_of_labelDef ht hkind
    have htext : t.text.toList = trim (Lexer.splitComment line).1 := congrArg Lexer.Lexeme.text hlexeme
    rw [hname, Statement.labelName?_eq hlexeme hcolon, htext]
    exact ⟨_, Lexer.isCode_splitComment line, rfl, hcolon, by simp⟩
  cases cause with
  | missingArgument opcode expected => exact ⟨Opcode.ofMnemonic?_eq_some_iff.1 h.1, h.2⟩
  | duplicateLabel name => exact hlabel h.1 h.2
  | invalidLabel name => exact hlabel h.1 h.2
  | malformedIndirect text => contradiction
  | _ => exact congrArg String.toList (Eq.symm h)

theorem filter_intercalate (texts : List String) :
    (" ".intercalate texts).toList.filter (!isBlank ·) =
      (texts.flatMap String.toList).filter (!isBlank ·) := by
  induction texts with
  | nil => rfl
  | cons text texts ih =>
    by_cases hne : texts = []
    · rw [hne, String.intercalate_singleton, List.flatMap_singleton]
    · have hspace : " ".toList.filter (!isBlank ·) = [] := by decide
      rw [String.intercalate_cons_of_ne_nil hne, String.toList_append, String.toList_append,
        List.filter_append, List.filter_append, hspace, List.append_nil, ih, List.flatMap_cons,
        List.filter_append]

theorem bracketed_prefix (tokens : List Token) : Statement.bracketed tokens <+: tokens := by
  induction tokens with
  | nil => exact List.prefix_refl []
  | cons t ts ih =>
    rw [Statement.bracketed]
    split
    next => exact ⟨ts, rfl⟩
    next => exact List.cons_prefix_cons.2 ⟨rfl, ih⟩

theorem head?_bracketed (t : Token) (ts : List Token) :
    (Statement.bracketed (t :: ts)).head? = some t := by
  rw [Statement.bracketed]
  split <;> rfl

section
variable {number : Nat} {line : List Char}

theorem marks_of_covers {e : ParseError} {tokens : List Token} {front marked back : List Char}
    (h : Lexer.Covers (Lexer.splitComment line).1 0 tokens front marked back)
    (hspan : e.span = some ⟨0 + byteLength front, 0 + byteLength (front ++ marked)⟩)
    (hnames : e.cause.Names line marked) :
    e.Marks line front marked (back ++ (Lexer.splitComment line).2) where
  parts := by rw [← List.append_assoc, ← h.text, Lexer.splitComment_append]
  nonempty := h.nonempty
  span := by rw [hspan, Nat.zero_add, Nat.zero_add]
  names := hnames

theorem exists_marks_of_token {t : Token} {cause : Cause}
    (ht : t ∈ (Lexer.place number 0 (Lexer.lexCode (Lexer.splitComment line).1)).filter
      Token.isSignificant) (hcause : cause.IsAbout t) :
    ∃ front marked back, (t.fail cause).Marks line front marked back := by
  obtain ⟨before, after, hsplit⟩ := List.append_of_mem ht
  rw [← List.singleton_append, ← List.append_assoc] at hsplit
  obtain ⟨front, marked, back, hcovers, -⟩ := Lexer.exists_covers (Lexer.spells_lexCode _)
    (Lexer.quiet_lexCode _) hsplit (by simp)
  refine ⟨_, _, _, marks_of_covers hcovers ?_ ?_⟩
  · rw [← hcovers.first t rfl, ← hcovers.last t rfl]
    rfl
  · rw [hcovers.alone t rfl]
    exact names_of_isAbout ht hcause

theorem exists_marks_of_indirect {first : Token} {rest : List Token}
    (h : first :: rest <:+ (Lexer.place number 0 (Lexer.lexCode (Lexer.splitComment line).1)).filter
      Token.isSignificant) :
    ∃ front marked back, (Statement.malformedIndirect first rest).Marks line front marked back := by
  obtain ⟨before, hbefore⟩ := h
  obtain ⟨after, hafter⟩ := bracketed_prefix (first :: rest)
  have hfirst := head?_bracketed first rest
  unfold Statement.malformedIndirect
  dsimp only
  generalize Statement.bracketed (first :: rest) = covered at *
  have hne : covered ≠ [] := by
    rintro rfl
    cases hfirst
  rw [← hafter, ← List.append_assoc] at hbefore
  obtain ⟨front, marked, back, hcovers, -⟩ := Lexer.exists_covers (Lexer.spells_lexCode _)
    (Lexer.quiet_lexCode _) hbefore.symm hne
  have hsorted := (Lexer.pairwise_place number 0
    (Lexer.lexCode (Lexer.splitComment line).1)).filter Token.isSignificant
  rw [← hbefore, List.append_assoc, List.pairwise_append, List.pairwise_append] at hsorted
  have hspan := hcovers.cover hsorted.2.1.1 hfirst (List.getLast?_eq_some_getLast hne)
  refine ⟨_, _, _, marks_of_covers hcovers ?_ ?_⟩
  · rw [List.getLast?_eq_some_getLast hne, Option.getD_some, hspan]
  · change marked.filter _ = _
    rw [hcovers.chars, filter_intercalate, List.flatMap_map]

theorem exists_marks {inBlock : Bool} {e : ParseError}
    (h : e.Blames ((Lexer.place number 0 (Lexer.lexLine inBlock line).1).filter
      Token.isSignificant)) :
    ∃ front marked back, e.Marks line front marked back := by
  rcases Lexer.filter_place_lexLine_cases number inBlock line with hnone | hcode
  · rw [hnone] at h
    cases h with
    | token ht => cases ht
    | indirect hsuffix => cases List.suffix_nil.1 hsuffix
  · rw [hcode] at h
    cases h with
    | token ht hcause => exact exists_marks_of_token ht hcause
    | indirect hsuffix => exact exists_marks_of_indirect hsuffix

end

theorem render_of_marks {e : ParseError} {source : String} {line front marked back : List Char}
    (hline : (lines source.toList)[e.line - 1]? = some line) (h : e.Marks line front marked back) :
    e.render source = e.message ++ "\n " ++ Decimal.ofNat e.line ++ " | " ++ String.ofList line ++
      "\n " ++ spaces (Decimal.ofNat e.line).length ++ " | " ++ spaces front.length ++
      String.ofList (List.replicate marked.length '^') := by
  have hfront : slice? 0 (byteLength front) line = some front :=
    slice?_eq_some_iff.2 ⟨[], marked ++ back, by simp [h.parts], rfl, rfl⟩
  have hmarked : slice? (byteLength front) (byteLength (front ++ marked)) line = some marked :=
    slice?_eq_some_iff.2 ⟨front, back, h.parts, rfl, rfl⟩
  have hwidth : max 1 marked.length = marked.length :=
    Nat.max_eq_right (List.length_pos_of_ne_nil h.nonempty)
  have hcolumns : caretColumns line ⟨byteLength front, byteLength (front ++ marked)⟩ =
      (front.length, marked.length) := by
    simp only [caretColumns, hfront, hmarked, Option.map_some, Option.getD_some, hwidth]
  unfold render
  rw [hline]
  simp only [excerpt, h.span, hcolumns, String.append_assoc]

end ParseError

/-- A text that is refused, also when it is cut by byte positions, has the line of the
complaint. There the span lies between two character boundaries, it is not empty, and what
stands under it is what the complaint is about. The carets are as many as its characters,
behind as many spaces as there are characters in front of it. -/
theorem Program.parse_error_marks {source : String} {e : ParseError}
    (h : Program.parse source = .error e) :
    (Lexer.Offsets.tokenize? source).map Program.ofTokens = some (.error e) ∧
      1 ≤ e.line ∧ e.line ≤ (Text.lines source.toList).length ∧
      ∃ line span front marked back, (Text.lines source.toList)[e.line - 1]? = some line ∧
        e.span = some span ∧ span.start < span.stop ∧
        span.stop ≤ (String.ofList line).utf8ByteSize ∧
        line = front ++ marked ++ back ∧ byteLength front = span.start ∧
        slice? span.start span.stop line = some marked ∧ e.cause.Names line marked ∧
        e.render source = e.message ++ "\n " ++ Decimal.ofNat e.line ++ " | " ++
          String.ofList line ++ "\n " ++ ParseError.spaces (Decimal.ofNat e.line).length ++ " | " ++
          ParseError.spaces front.length ++ String.ofList (List.replicate marked.length '^') := by
  obtain ⟨group, hgroup, hblames⟩ := Program.blames_of_parse h
  obtain ⟨n, line, inBlock, hline, rfl⟩ := Lexer.exists_line_of_mem_lineTokens hgroup
  have hnumber : e.line = 1 + n := ParseError.line_of_blames hblames fun t ht =>
    Lexer.line_of_mem_place (List.mem_of_mem_filter ht)
  obtain ⟨front, marked, back, hmarks⟩ := ParseError.exists_marks hblames
  have hlength : n < (Text.lines source.toList).length := (List.getElem?_eq_some_iff.1 hline).1
  rw [← Nat.add_sub_cancel_left 1 n, ← hnumber] at hline
  have hcut : (Lexer.Offsets.tokenize? source).map Program.ofTokens = some (.error e) := by
    rw [Lexer.Offsets.tokenize?_eq, Option.map_some, ← h, Program.parse]
  refine ⟨hcut, by omega, by omega, line, _, front, marked, back, hline, hmarks.span, ?_, ?_,
    hmarks.parts, rfl, slice?_eq_some_iff.2 ⟨front, back, hmarks.parts, rfl, rfl⟩, hmarks.names,
    ParseError.render_of_marks hline hmarks⟩
  · rw [byteLength_append]
    exact Nat.lt_add_of_pos_right (byteLength_pos hmarks.nonempty)
  · rw [← byteLength_eq_utf8ByteSize, hmarks.parts, byteLength_append (front ++ marked)]
    exact Nat.le_add_right _ _

/-- The blank in front is a character of three bytes, and the text of the complaint has
other blanks than the line. -/
theorem Program.parse_error_marks_indirect :
    let source := "start:\n\u2003copyfrom [é ]\n"
    let e : ParseError := ⟨2, some ⟨12, 17⟩, .malformedIndirect "[ é ]"⟩
    Program.parse source = .error e ∧
      ∃ line marked, (Text.lines source.toList)[1]? = some line ∧
        slice? 12 17 line = some marked ∧
        marked.filter (!isBlank ·) = "[é]".toList ∧
        e.render source = "line 2: malformed indirect address '[ é ]'\n 2 | \u2003copyfrom [é ]" ++
          "\n   |           ^^^^" := by
  intro source e
  have hparse : Program.parse source = .error e := by decide +kernel
  obtain ⟨-, -, -, line, span, front, marked, back, hline, hspan, -, -, -, -, hslice, hnames, -⟩ :=
    Program.parse_error_marks hparse
  cases hspan
  refine ⟨hparse, line, marked, hline, hslice, hnames.trans (by decide), by decide +kernel⟩

end TileMachine
