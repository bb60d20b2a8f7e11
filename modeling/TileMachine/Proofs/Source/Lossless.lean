import TileMachine.Proofs.Source.LineGroups
import TileMachine.Proofs.Source.Offsets
import TileMachine.Proofs.Text.Lines

/-! Lexing loses nothing. The tokens of a line stand side by side from its first byte to
its last, and written out again they give the lines back, but for the empty ones at the
end. -/
namespace TileMachine.Lexer
open Text

/-- The tokens stand side by side from one byte of the line up to another. None of them
is empty, and each shows what the line has at its span. -/
def SideBySide (line : List Char) : Nat → List Token → Nat → Prop
  | start, [], stop => start = stop
  | start, t :: ts, stop =>
    t.span.start = start ∧ t.text ≠ "" ∧
      slice? t.span.start t.span.stop line = some t.text.toList ∧
      SideBySide line t.span.stop ts stop

theorem sideBySide_place {lexemes : List Lexeme} {text : List Char} (h : Spells lexemes text)
    (number : Nat) (front back : List Char) :
    SideBySide (front ++ text ++ back) (byteLength front)
      (place number (byteLength front) lexemes) (byteLength (front ++ text)) := by
  induction lexemes generalizing front text with
  | nil =>
    rw [← h.text]
    simp [place, SideBySide]
  | cons l ls ih =>
    have hrest : Spells ls (ls.flatMap Lexeme.text) :=
      ⟨rfl, fun m hm => h.nonempty m (List.mem_cons_of_mem l hm)⟩
    have htext : text = l.text ++ ls.flatMap Lexeme.text := h.text.symm
    have hne := h.nonempty l List.mem_cons_self
    have hslice : slice? (byteLength front) (byteLength (front ++ l.text))
        (front ++ text ++ back) = some l.text :=
      slice?_eq_some_iff.2 ⟨front, ls.flatMap Lexeme.text ++ back, by simp [htext], rfl, rfl⟩
    -- For the lexemes behind it, this one is part of the front.
    have hlater := ih hrest (front ++ l.text)
    rw [List.append_assoc front, ← htext, byteLength_append] at hlater
    rw [byteLength_append] at hslice
    exact ⟨rfl, by simpa using hne, by simpa using hslice, hlater⟩

theorem lexLines_cons (inBlock : Bool) (first : Nat) (line : List Char) (ls : List (List Char)) :
    lexLines inBlock first (line :: ls) = place first 0 (lexLine inBlock line).1 ++
      lexLines (lexLine inBlock line).2 (first + 1) ls := rfl

theorem line_of_mem_lexLines {inBlock : Bool} {first : Nat} {ls : List (List Char)} {t : Token}
    (h : t ∈ lexLines inBlock first ls) : first ≤ t.line ∧ t.line < first + ls.length := by
  induction ls generalizing inBlock first with
  | nil => simp [lexLines] at h
  | cons cs rest ih =>
    rw [List.length_cons]
    cases List.mem_append.1 h with
    | inl hplaced =>
      rw [line_of_mem_place hplaced]
      omega
    | inr hlater =>
      have hline := ih hlater
      omega

theorem filter_line_lexLines {ls : List (List Char)} {n : Nat} {line : List Char}
    (h : ls[n]? = some line) (inBlock : Bool) (first : Nat) : ∃ inBlock',
    (lexLines inBlock first ls).filter (·.line = first + n) =
      place (first + n) 0 (lexLine inBlock' line).1 := by
  induction ls generalizing inBlock first n with
  | nil => simp at h
  | cons cs rest ih =>
    rw [lexLines_cons, List.filter_append]
    cases n with
    | zero =>
      cases h
      have hplaced : ∀ t ∈ place first 0 (lexLine inBlock line).1, t.line = first + 0 :=
        fun t => line_of_mem_place
      have hlater : ∀ t ∈ lexLines (lexLine inBlock line).2 (first + 1) rest,
          ¬t.line = first + 0 := by
        intro t ht
        have hline := line_of_mem_lexLines ht
        omega
      rw [List.filter_eq_self.2 (by simpa using hplaced),
        List.filter_eq_nil_iff.2 (by simpa using hlater), List.append_nil]
      exact ⟨inBlock, rfl⟩
    | succ n =>
      have hplaced : ∀ t ∈ place first 0 (lexLine inBlock cs).1, ¬t.line = first + (n + 1) := by
        intro t ht
        rw [line_of_mem_place ht]
        omega
      have ⟨inBlock', hrest⟩ := ih h (lexLine inBlock cs).2 (first + 1)
      have hsum : first + (n + 1) = first + 1 + n := by omega
      rw [List.filter_eq_nil_iff.2 (by simpa using hplaced), List.nil_append, hsum]
      exact ⟨inBlock', hrest⟩

theorem pairwise_lexLines (inBlock : Bool) (first : Nat) (ls : List (List Char)) :
    (lexLines inBlock first ls).Pairwise fun s t => s.line ≤ t.line := by
  rw [← flatten_lineTokens, List.pairwise_flatten]
  constructor
  · intro group hgroup
    have ⟨n, hn⟩ := line_eq_of_mem_lineTokens hgroup
    apply List.pairwise_of_forall_mem_list
    intro s hs t ht
    rw [hn s hs, hn t ht]
  · exact (pairwise_lineTokens inBlock first ls).imp fun hlt s hs t ht => Nat.le_of_lt (hlt s hs t ht)

/-! ### Writing the tokens out -/

theorem renderFrom_place {current number start : Nat} {lexemes : List Lexeme}
    (hne : lexemes ≠ []) (h : current ≤ number) (tokens : List Token) :
    Token.renderFrom current (place number start lexemes ++ tokens) =
      List.replicate (number - current) '\n' ++ lexemes.flatMap Lexeme.text ++
        Token.renderFrom number tokens := by
  induction lexemes generalizing current start with
  | nil => contradiction
  | cons l ls ih =>
    have hmax : max current number = number := by omega
    rw [place, List.cons_append, Token.renderFrom, hmax]
    cases ls with
    | nil => simp [place]
    | cons m ls =>
      rw [ih (by simp) (Nat.le_refl number)]
      simp

theorem lexLines_eq_nil_iff {inBlock : Bool} {first : Nat} {ls : List (List Char)} :
    lexLines inBlock first ls = [] ↔ kept ls = [] := by
  induction ls generalizing inBlock first with
  | nil => simp [lexLines, kept]
  | cons line rest ih =>
    have hline := (spells_lexLine inBlock line).eq_nil_iff
    have hplace : place first 0 (lexLine inBlock line).1 = [] ↔ (lexLine inBlock line).1 = [] := by
      cases (lexLine inBlock line).1 <;> simp [place]
    rw [lexLines_cons, List.append_eq_nil_iff, hplace, hline, ih, kept_cons]
    by_cases hboth : kept rest = [] ∧ line = []
    · rw [if_pos hboth]
      simp [hboth.1, hboth.2]
    · rw [if_neg hboth]
      simp only [reduceCtorEq, iff_false]
      exact fun h => hboth h.symm

theorem renderFrom_lexLines {ls : List (List Char)} (hne : kept ls ≠ []) (inBlock : Bool)
    {current first : Nat} (h : current ≤ first) :
    Token.renderFrom current (lexLines inBlock first ls) ++ ['\n'] =
      List.replicate (first - current) '\n' ++ (kept ls).flatMap (· ++ ['\n']) := by
  induction ls generalizing inBlock current first with
  | nil => contradiction
  | cons line rest ih =>
    have hspells := spells_lexLine inBlock line
    rw [lexLines_cons]
    by_cases hline : line = []
    · -- The feed of an empty line is written in front of the next token.
      have hrest : kept rest ≠ [] := by
        intro hrest
        rw [kept_cons, if_pos ⟨hrest, hline⟩] at hne
        contradiction
      have hcount : first + 1 - current = first - current + 1 := by omega
      rw [hspells.eq_nil_iff.2 hline, place, List.nil_append, ih hrest _ (by omega), hcount,
        kept_cons, if_neg (fun hboth => hrest hboth.1), hline]
      simp [List.replicate_succ']
    · have hlexemes : (lexLine inBlock line).1 ≠ [] := fun hnil =>
        hline (hspells.eq_nil_iff.1 hnil)
      rw [renderFrom_place hlexemes h, hspells.text, kept_cons,
        if_neg (fun hboth => hline hboth.2)]
      by_cases hrest : kept rest = []
      · rw [lexLines_eq_nil_iff.2 hrest, hrest]
        simp [Token.renderFrom]
      · rw [List.append_assoc, ih hrest _ (Nat.le_succ first)]
        simp

theorem render_lexLines (ls : List (List Char)) : Token.render (lexLines false 1 ls) =
    unlines ((kept ls).map String.ofList) := by
  unfold Token.render
  split
  next hempty =>
    rw [lexLines_eq_nil_iff.1 (List.isEmpty_iff.1 hempty)]
    rfl
  next hempty =>
    have hne : kept ls ≠ [] := by
      intro hnil
      rw [lexLines_eq_nil_iff.2 hnil] at hempty
      contradiction
    rw [renderFrom_lexLines hne false (Nat.le_refl 1), ← String.toList_inj, toList_unlines]
    simp [List.flatMap_map]

theorem render_tokenize (source : String) : Token.render (tokenize source) =
    unlines ((kept (lines source.toList)).map String.ofList) :=
  render_lexLines (lines source.toList)

structure Lossless (ls : List (List Char)) (tokens : List Token) : Prop where
  filled : ∀ n line, ls[n]? = some line →
    SideBySide line 0 (tokens.filter (·.line = n + 1)) (String.ofList line).utf8ByteSize
  placed : ∀ t ∈ tokens, 1 ≤ t.line ∧ t.line ≤ ls.length
  sorted : tokens.Pairwise fun s t => s.line ≤ t.line
  rendered : Token.render tokens = unlines ((kept ls).map String.ofList)

/-- Nothing of a text is lost but for how its lines end, and each token knows its place.
The tokens are the same if their texts are cut out of the lines by byte positions. -/
theorem lossless_tokenize (source : String) :
    Lossless (lines source.toList) (tokenize source) ∧
      Offsets.tokenize? source = some (tokenize source) := by
  refine ⟨⟨fun n line hline => ?_, fun t ht => ?_, ?_, render_tokenize source⟩,
    Offsets.tokenize?_eq source⟩
  · have ⟨inBlock, htokens⟩ := filter_line_lexLines hline false 1
    have hfills := sideBySide_place (spells_lexLine inBlock line) (1 + n) [] []
    rw [Nat.add_comm n 1, tokenize, htokens, ← byteLength_eq_utf8ByteSize]
    simpa using hfills
  · have hline := line_of_mem_lexLines ht
    omega
  · exact pairwise_lexLines false 1 (lines source.toList)

end TileMachine.Lexer
