import TileMachine.Proofs.Source.Lexemes

/-! The same tokens, cut out of a line by byte positions: where the comment starts is looked
for, the ends of a declaration are computed from the lengths of trimmed texts, and the
runs of a code are followed from character to character. Every cut is between two
characters, whatever the text is. -/
namespace TileMachine.Lexer.Offsets
open Text

def token (kind : TokenKind) (text : List Char) (line start : Nat) : Token :=
  ⟨kind, String.ofList text, line, ⟨start, start + byteLength text⟩⟩

/-- The token between two positions of a text, unless nothing is there. -/
def piece? (kind : TokenKind) (line start stop : Nat) (text : List Char) : Option (List Token) :=
  if start < stop then do
    return [token kind (← slice? start stop text) line start]
  else some []

def commentStart? (position : Nat) : List Char → Option Nat
  | [] => none
  | '-' :: '-' :: _ => some position
  | c :: cs => commentStart? (position + c.utf8Size) cs

def charIndices (position : Nat) : List Char → List (Nat × Char)
  | [] => []
  | c :: cs => (position, c) :: charIndices (position + c.utf8Size) cs

/-- Whether a run that began with a blank, or with none, goes on. -/
def goesOn (blank : Bool) (c : Char) : Bool :=
  if blank then isBlank c else !isBlank c && c != '[' && c != ']'

def follow (blank : Bool) (stop : Nat) : List (Nat × Char) → Nat × List (Nat × Char)
  | [] => (stop, [])
  | (position, c) :: rest =>
    if goesOn blank c then follow blank (position + c.utf8Size) rest
    else (stop, (position, c) :: rest)

theorem length_follow_le (blank : Bool) (stop : Nat) (chars : List (Nat × Char)) :
    (follow blank stop chars).2.length ≤ chars.length := by
  fun_induction follow blank stop chars with
  | case1 => exact Nat.le_refl _
  | case2 _ _ _ _ _ ih => exact Nat.le_succ_of_le ih
  | case3 => exact Nat.le_refl _

def runs? (line : Nat) (code : List Char) : List (Nat × Char) → Option (List Token)
  | [] => some []
  | (start, c) :: rest =>
    if c = '[' ∨ c = ']' then do
      let text ← slice? start (start + c.utf8Size) code
      return token (.ofText text) text line start :: (← runs? line code rest)
    else do
      let run := follow (isBlank c) (start + c.utf8Size) rest
      let text ← slice? start run.1 code
      let kind := if isBlank c then .blank else .ofText text
      return token kind text line start :: (← runs? line code run.2)
termination_by chars => chars.length
decreasing_by
  · simp
  · exact Nat.lt_succ_of_le (length_follow_le ..)

def declaration? (line : Nat) (code : List Char) : Option (List Token) := do
  let start := byteLength code - byteLength (trimStart code)
  let stop := byteLength (trimEnd code)
  let front ← piece? .blank line 0 start code
  let body ← slice? start stop code
  let back ← piece? .blank line stop (byteLength code) code
  return front ++ token .labelDef body line start :: back

def code? (line : Nat) (code : List Char) : Option (List Token) :=
  if (trimEnd code).getLast? = some ':' then declaration? line code
  else runs? line code (charIndices 0 code)

def ordinaryLine? (line : Nat) (text : List Char) : Option (List Token) := do
  let cut := (commentStart? 0 text).getD (byteLength text)
  let code ← slice? 0 cut text
  let tokens ← code? line code
  let comment ← piece? .comment line cut (byteLength text) text
  return tokens ++ comment

def line? (inBlock : Bool) (line : Nat) (text : List Char) : Option (List Token × Bool) :=
  let trimmed := trim text
  let whole := token .comment text line 0
  let closed := trimmed.getLast? == some ';'
  if inBlock then
    some (if text.isEmpty then [] else [whole], !(trimmed.isEmpty || closed))
  else if startsWithKeyword "define" trimmed then some ([whole], !closed)
  else if startsWithKeyword "comment" trimmed then some ([whole], false)
  else (ordinaryLine? line text).map (·, false)

def lines? (inBlock : Bool) (line : Nat) : List (List Char) → Option (List Token)
  | [] => some []
  | text :: rest => do
    let (tokens, inBlock) ← line? inBlock line text
    return tokens ++ (← lines? inBlock (line + 1) rest)

def tokenize? (source : String) : Option (List Token) :=
  lines? false 1 (lines source.toList)

/-! ### Cuts -/

theorem place_lexeme (kind : TokenKind) (line start : Nat) (text : List Char) :
    place line start (lexeme kind text) =
      if text.isEmpty then [] else [token kind text line start] := by
  unfold lexeme
  split <;> rfl

theorem slice?_middle (front middle back : List Char) :
    slice? (byteLength front) (byteLength front + byteLength middle) (front ++ middle ++ back) =
      some middle :=
  slice?_eq_some_iff.2 ⟨front, back, rfl, rfl, byteLength_append front middle⟩

theorem piece?_middle (kind : TokenKind) (line : Nat) (front middle back : List Char) :
    piece? kind line (byteLength front) (byteLength front + byteLength middle)
        (front ++ middle ++ back) =
      some (place line (byteLength front) (lexeme kind middle)) := by
  unfold piece?
  rw [slice?_middle, place_lexeme]
  cases middle with
  | nil => simp
  | cons c middle =>
    have hpos : 0 < byteLength (c :: middle) := byteLength_pos (List.cons_ne_nil c middle)
    rw [if_pos (Nat.lt_add_of_pos_right hpos)]
    rfl

theorem commentStart?_eq (position : Nat) (text : List Char) :
    (commentStart? position text).getD (position + byteLength text) =
      position + byteLength (splitComment text).1 := by
  fun_induction commentStart? position text with
  | case1 => rfl
  | case2 => rfl
  | case3 position c cs hno ih =>
    rw [splitComment]
    · dsimp only
      rw [byteLength_cons, byteLength_cons, ← Nat.add_assoc, ← Nat.add_assoc, ih]
    · exact hno

theorem follow_charIndices (blank : Bool) (position : Nat) (cs : List Char) :
    follow blank position (charIndices position cs) =
      (position + byteLength (cs.takeWhile (goesOn blank)),
        charIndices (position + byteLength (cs.takeWhile (goesOn blank)))
          (cs.dropWhile (goesOn blank))) := by
  induction cs generalizing position with
  | nil => rfl
  | cons c cs ih =>
    rw [charIndices, follow]
    by_cases hc : goesOn blank c = true
    · rw [if_pos hc, ih, List.takeWhile_cons_of_pos hc, List.dropWhile_cons_of_pos hc,
        byteLength_cons, Nat.add_assoc]
    · rw [if_neg hc, List.takeWhile_cons_of_neg hc, List.dropWhile_cons_of_neg hc]
      rfl

/-! ### Runs -/

theorem goesOn_iff {c : Char} (hc : ¬(c = '[' ∨ c = ']')) (next : Char) :
    goesOn (isBlank c) next = true ↔ CharClass.of next = CharClass.of c := by
  cases hb : isBlank c with
  | true =>
    rw [CharClass.of_blank hb]
    refine ⟨CharClass.of_blank, fun hnext => ?_⟩
    grind [goesOn, CharClass.of]
  | false =>
    have hword : CharClass.of c = .word := by
      rw [CharClass.of_eq_word_iff]
      exact ((Grammar.inWord_or c).resolve_left (by simp [hb])).resolve_left hc
    rw [hword, CharClass.of_eq_word_iff]
    simp [goesOn, Grammar.InWord, and_assoc]

theorem splitBy_cons {c : Char} (hc : ¬(c = '[' ∨ c = ']')) (cs : List Char) :
    (c :: cs).splitBy sameRun = (c :: cs.takeWhile (goesOn (isBlank c))) ::
      (cs.dropWhile (goesOn (isBlank c))).splitBy sameRun := by
  have hclass : CharClass.of c ≠ .bracket := by grind [CharClass.of]
  have hrun : ∀ d ∈ c :: cs.takeWhile (goesOn (isBlank c)), CharClass.of d = CharClass.of c := by
    rw [List.forall_mem_cons]
    exact ⟨rfl, fun d hd => (goesOn_iff hc d).1 (List.mem_takeWhile_imp hd)⟩
  have hrest : ∀ d, (cs.dropWhile (goesOn (isBlank c))).head? = some d →
      CharClass.of d ≠ CharClass.of c := by
    intro d hd hsame
    have hnot := List.head?_dropWhile_not (goesOn (isBlank c)) cs
    rw [hd] at hnot
    simp [(goesOn_iff hc d).2 hsame] at hnot
  rw [← splitBy_run hclass (List.cons_ne_nil c _) hrun hrest, List.cons_append,
    List.takeWhile_append_dropWhile]

theorem lexRun_cons (c : Char) (cs : List Char) :
    lexRun (c :: cs.takeWhile (goesOn (isBlank c))) =
      ⟨if isBlank c then .blank else .ofText (c :: cs.takeWhile (goesOn (isBlank c))),
        c :: cs.takeWhile (goesOn (isBlank c))⟩ := by
  unfold lexRun
  cases hb : isBlank c with
  | true =>
    have hall : (c :: cs.takeWhile (goesOn true)).all isBlank = true := by
      rw [List.all_cons, hb, Bool.true_and, List.all_eq_true]
      exact fun d hd => List.mem_takeWhile_imp hd
    rw [if_pos hall]
    rfl
  | false =>
    rw [List.all_cons, hb]
    rfl

theorem runs?_step (kind : List Char → TokenKind) {line : Nat} {front run later : List Char}
    {lexemes : List Lexeme} (hkind : lexRun run = ⟨kind run, run⟩)
    (hlater : runs? line (front ++ run ++ later) (charIndices (byteLength (front ++ run)) later) =
      some (place line (byteLength (front ++ run)) lexemes)) :
    (do
      let text ← slice? (byteLength front) (byteLength front + byteLength run)
        (front ++ run ++ later)
      return token (kind text) text line (byteLength front) ::
        (← runs? line (front ++ run ++ later)
          (charIndices (byteLength front + byteLength run) later))) =
      some (place line (byteLength front) (lexRun run :: lexemes)) := by
  rw [byteLength_append] at hlater
  rw [slice?_middle, hlater, hkind]
  rfl

theorem runs?_eq (line : Nat) (front rest : List Char) :
    runs? line (front ++ rest) (charIndices (byteLength front) rest) =
      some (place line (byteLength front) ((rest.splitBy sameRun).map lexRun)) := by
  -- The front grows by one run at a time, and its length is the position of the next.
  induction hn : rest.length using Nat.strong_induction_on generalizing front rest with
  | _ n ih =>
    cases rest with
    | nil =>
      rw [charIndices, runs?]
      rfl
    | cons c cs =>
      rw [List.length_cons] at hn
      rw [charIndices, runs?]
      by_cases hc : c = '[' ∨ c = ']'
      · have hkind : lexRun [c] = ⟨.ofText [c], [c]⟩ := by
          simp [lexRun, Grammar.isBlank_bracket hc]
        have hcode : front ++ c :: cs = front ++ [c] ++ cs := by simp
        rw [if_pos hc, splitBy_cons_bracket cs hc, hcode]
        exact runs?_step .ofText hkind (ih cs.length (by omega) (front ++ [c]) cs rfl)
      · have hlength := List.length_dropWhile_le (goesOn (isBlank c)) cs
        have hcode : front ++ c :: cs = front ++ c :: cs.takeWhile (goesOn (isBlank c)) ++
            cs.dropWhile (goesOn (isBlank c)) := by
          rw [List.append_assoc, List.cons_append, List.takeWhile_append_dropWhile]
        rw [if_neg hc, splitBy_cons hc, follow_charIndices, hcode, Nat.add_assoc]
        exact runs?_step (fun run => if isBlank c then .blank else .ofText run)
          (lexRun_cons c cs) (ih (cs.dropWhile (goesOn (isBlank c))).length (by omega) _ _ rfl)

/-! ### Lines -/

theorem place_lexeme_append (kind : TokenKind) (line start : Nat) (text : List Char)
    (lexemes : List Lexeme) : place line start (lexeme kind text ++ lexemes) =
      place line start (lexeme kind text) ++ place line (start + byteLength text) lexemes := by
  rw [place_append, (spells_lexeme kind text).text]

theorem declaration?_eq (line : Nat) {code : List Char} (h : trimEnd code ≠ []) :
    declaration? line code = some (place line 0 (lexeme .blank (leading code) ++
      lexeme .labelDef (trim code) ++ lexeme .blank (trailing code))) := by
  have hend := leading_append_trim h
  have hcode : leading code ++ trim code ++ trailing code = code := by
    rw [hend, trimEnd_append_trailing]
  have hne : trim code ≠ [] := by
    intro hnil
    rw [trimEnd_eq_trim_of_leading, hnil] at h
    contradiction
  have hstart : byteLength code - byteLength (trimStart code) = byteLength (leading code) := by
    have hlength := congrArg byteLength (leading_append_trimStart code)
    rw [byteLength_append] at hlength
    omega
  have hstop : byteLength (trimEnd code) = byteLength (leading code) + byteLength (trim code) := by
    rw [← hend, byteLength_append]
  unfold declaration?
  rw [hstart, hstop]
  generalize leading code = front at *
  generalize trim code = body at *
  generalize trailing code = back at *
  subst hcode
  have hfront := piece?_middle .blank line [] front (body ++ back)
  have hback := piece?_middle .blank line (front ++ body) back []
  have hbody : place line (byteLength front) (lexeme .labelDef body) =
      [token .labelDef body line (byteLength front)] := by
    rw [place_lexeme, if_neg (by simpa using hne)]
  simp only [List.nil_append, List.append_nil, byteLength_nil, byteLength_append, Nat.zero_add,
    ← List.append_assoc] at hfront hback ⊢
  rw [hfront, hback, slice?_middle, List.append_assoc (lexeme _ _), place_lexeme_append,
    place_lexeme_append, Nat.zero_add, hbody]
  rfl

theorem code?_eq (line : Nat) (code : List Char) :
    code? line code = some (place line 0 (lexCode code)) := by
  unfold code? lexCode
  split
  next hcolon => exact declaration?_eq line (List.ne_nil_of_mem (List.mem_of_getLast? hcolon))
  next => exact runs?_eq line [] code

theorem ordinaryLine?_eq (line : Nat) (text : List Char) : ordinaryLine? line text =
    some (place line 0 (lexCode (splitComment text).1 ++
      lexeme .comment (splitComment text).2)) := by
  have htext := splitComment_append text
  have hcut := commentStart?_eq 0 text
  rw [Nat.zero_add, Nat.zero_add] at hcut
  unfold ordinaryLine?
  rw [hcut, place_append, (spells_lexCode _).text]
  generalize (splitComment text).1 = code at *
  generalize (splitComment text).2 = comment at *
  subst htext
  have hcode := slice?_middle [] code comment
  have hcomment := piece?_middle .comment line code comment []
  simp only [List.nil_append, List.append_nil, byteLength_nil, Nat.zero_add] at hcode hcomment
  dsimp only
  rw [hcode, byteLength_append, hcomment, Nat.zero_add]
  dsimp only [Option.bind_eq_bind, Option.bind_some]
  rw [code?_eq]
  rfl

theorem startsWithKeyword_trim (keyword : String) (text : List Char) :
    startsWithKeyword keyword (trim text) = startsWithKeyword keyword text := by
  have hstart : trimStart (trimStart text) = trimStart text :=
    trimStart_eq_self fun _ => head?_trimStart_not_blank
  unfold startsWithKeyword trim
  rw [firstWord_trimEnd, firstWord, hstart]
  rfl

theorem place_comment_of_keyword {keyword : String} {text : List Char} (line : Nat)
    (hempty : startsWithKeyword keyword [] = false) (h : startsWithKeyword keyword text = true) :
    place line 0 (lexeme .comment text) = [token .comment text line 0] := by
  rw [place_lexeme, if_neg]
  intro hnil
  rw [List.isEmpty_iff.1 hnil, hempty] at h
  contradiction

theorem line?_eq (inBlock : Bool) (line : Nat) (text : List Char) : line? inBlock line text =
    some (place line 0 (lexLine inBlock text).1, (lexLine inBlock text).2) := by
  have hclosed : ((trim text).getLast? == some ';') = endsWithSemicolon text := by
    rw [getLast?_trim]
    rfl
  unfold line? lexLine
  simp only [hclosed, startsWithKeyword_trim]
  split
  next => rw [place_lexeme]
  split
  next hdefine => rw [place_comment_of_keyword line rfl hdefine]
  split
  next hcomment => rw [place_comment_of_keyword line rfl hcomment]
  next => rw [ordinaryLine?_eq, Option.map_some]

theorem lines?_eq (inBlock : Bool) (line : Nat) (ls : List (List Char)) :
    lines? inBlock line ls = some (lexLines inBlock line ls) := by
  induction ls generalizing inBlock line with
  | nil => rfl
  | cons text rest ih =>
    rw [lines?, line?_eq]
    dsimp only [Option.bind_eq_bind, Option.bind_some]
    rw [ih]
    rfl

/-- However a text is cut by positions, none of the cuts is inside a character or out of
range, and the tokens are the same. -/
theorem tokenize?_eq (source : String) : tokenize? source = some (tokenize source) :=
  lines?_eq false 1 (lines source.toList)

end TileMachine.Lexer.Offsets
