import TileMachine.Proofs.Outcome
import TileMachine.Proofs.Source.Words
import TileMachine.Proofs.Text.Decimal
import TileMachine.Source.Assembly

/-! A line that is not skipped is read as the grammar says: the statement that its
tokens make up is the phrase of its code, and it is refused if there is none. -/
namespace TileMachine
open Grammar

/-! ### Forgetting places -/

def Token.lexeme (t : Token) : Lexer.Lexeme :=
  ⟨t.kind, t.text.toList⟩

def Argument.spoken : Argument → Grammar.Argument
  | .nothing => .nothing
  | .tile address => .tile address
  | .label name _ => .label name

def Statement.phrase : Statement → Phrase
  | .declare name _ => .declaration name
  | .operation opcode argument _ => .operation opcode argument.spoken

namespace Lexer
open Text

@[simp] theorem map_lexeme_place (line start : Nat) (lexemes : List Lexeme) :
    (place line start lexemes).map Token.lexeme = lexemes := by
  induction lexemes generalizing start with
  | nil => rfl
  | cons l ls ih =>
    rw [place, List.map_cons, ih]
    simp [Token.lexeme]

def Lexeme.isSignificant (l : Lexeme) : Bool :=
  l.kind != .comment && l.kind != .blank

theorem map_lexeme_filter_place (line start : Nat) (lexemes : List Lexeme) :
    ((place line start lexemes).filter Token.isSignificant).map Token.lexeme =
      lexemes.filter Lexeme.isSignificant := by
  conv_rhs => rw [← map_lexeme_place line start lexemes, List.filter_map]
  rfl

def ofWord (w : List Char) : Lexeme :=
  ⟨.ofText w, w⟩

theorem isSignificant_ofText (w : List Char) : (ofWord w).isSignificant = true := by
  unfold ofWord Lexeme.isSignificant TokenKind.ofText
  split <;> try split <;> try split
  all_goals rfl

theorem lexRun_eq (run : List Char) :
    lexRun run = if run.all isBlank then ⟨.blank, run⟩ else ofWord run := by
  unfold lexRun ofWord
  split <;> rfl

@[simp] theorem filter_lexeme_blank (text : List Char) :
    (lexeme .blank text).filter Lexeme.isSignificant = [] := by
  unfold lexeme
  split <;> rfl

@[simp] theorem filter_lexeme_comment (text : List Char) :
    (lexeme .comment text).filter Lexeme.isSignificant = [] := by
  unfold lexeme
  split <;> rfl

theorem filter_lexCode_of_colon {code : List Char} (h : (trim code).getLast? = some ':') :
    (lexCode code).filter Lexeme.isSignificant = [⟨.labelDef, trim code⟩] := by
  have hne : (trim code).isEmpty = false := by
    cases hcode : trim code with
    | nil => rw [hcode] at h; contradiction
    | cons c cs => rfl
  have hcolon : (trimEnd code).getLast? = some ':' := by rw [← getLast?_trim, h]
  unfold lexCode
  rw [if_pos hcolon]
  simp only [List.filter_append, filter_lexeme_blank, List.nil_append, List.append_nil]
  simp [lexeme, hne, Lexeme.isSignificant]

theorem filter_lexCode_of_not_colon {code : List Char} (h : (trim code).getLast? ≠ some ':') :
    (lexCode code).filter Lexeme.isSignificant = (words code).map ofWord := by
  unfold lexCode words
  rw [if_neg (by rwa [← getLast?_trim]), List.filter_map]
  have hsig : Lexeme.isSignificant ∘ lexRun = fun run => !run.all isBlank := by
    funext run
    rw [Function.comp_apply, lexRun_eq]
    split
    next hblank => rw [hblank]; rfl
    next hblank => rw [isSignificant_ofText, Bool.eq_false_iff.2 hblank]; rfl
  rw [hsig]
  refine List.map_congr_left fun run hrun => ?_
  rw [lexRun_eq, if_neg (by simpa using List.of_mem_filter hrun)]

end Lexer

/-! ### Mnemonics, numerals and kinds of words -/

theorem Opcode.mnemonic_injective {a b : Opcode} (h : a.mnemonic = b.mnemonic) : a = b := by
  have hread := Opcode.ofMnemonic?_mnemonic a
  rw [h, Opcode.ofMnemonic?_mnemonic b] at hread
  exact (Option.some.inj hread).symm

theorem Opcode.ofMnemonic?_eq_some_iff {text : String} {opcode : Opcode} :
    Opcode.ofMnemonic? text = some opcode ↔
      text.toList.map Char.toLower = opcode.mnemonic.toList := by
  unfold Opcode.ofMnemonic?
  constructor
  · intro h
    have hmatch := List.find?_some h
    exact (beq_iff_eq.1 hmatch).symm
  · intro h
    cases hfind : Opcode.all.find? fun op => op.mnemonic.toList == text.toList.map Char.toLower with
    | none =>
      have hnone := List.find?_eq_none.1 hfind opcode (Opcode.mem_all opcode)
      exact absurd (beq_iff_eq.2 h.symm) hnone
    | some other =>
      have hmatch := List.find?_some hfind
      rw [beq_iff_eq, h] at hmatch
      rw [Opcode.mnemonic_injective (String.toList_inj.1 hmatch)]

theorem isIntegerLiteral_iff {cs : List Char} : isIntegerLiteral cs = true ↔
    IsDigits cs ∨ ∃ digits, cs = '-' :: digits ∧ IsDigits digits := by
  have hdigits (ds : List Char) :
      (!ds.isEmpty && ds.all Char.isDigit) = true ↔ IsDigits ds := by
    simp [IsDigits]
  fun_cases isIntegerLiteral cs with
  | case1 digits =>
    rw [hdigits]
    constructor
    · exact fun h => .inr ⟨digits, rfl, h⟩
    · rintro (h | ⟨other, hother, h⟩)
      · exact absurd (h.2 '-' List.mem_cons_self) (by decide)
      · rwa [(List.cons.inj hother).2]
  | case2 _ hminus =>
    rw [hdigits]
    constructor
    · exact .inl
    · rintro (h | ⟨digits, hcs, -⟩)
      · exact h
      · exact absurd hcs (hminus digits)

theorem Decimal.digits?_eq_some_iff {cs : List Char} {n : Nat} :
    Decimal.digits? cs = some n ↔ IsDigits cs ∧ Nat.ofDigitChars 10 cs 0 = n := by
  unfold Decimal.digits? IsDigits
  split
  next h => simp_all
  next h => simp_all

theorem Decimal.integer?_of_isDigits {digits : List Char} (h : IsDigits digits) :
    Decimal.integer? digits = some (Nat.ofDigitChars 10 digits 0 : Int) := by
  rw [Decimal.integer?_of_digits h.2, Decimal.digits?_eq_some_iff.2 ⟨h, rfl⟩, Option.map_some]
  rfl

theorem Decimal.integer?_minus {digits : List Char} (h : IsDigits digits) :
    Decimal.integer? ('-' :: digits) = some (-(Nat.ofDigitChars 10 digits 0 : Int)) := by
  rw [Decimal.integer?, Decimal.digits?_eq_some_iff.2 ⟨h, rfl⟩, Option.map_some]
  rfl

namespace TokenKind

theorem ofText_eq_leftBracket_iff {w : List Char} : ofText w = .leftBracket ↔ w = ['['] := by
  unfold ofText
  split <;> try split <;> try split
  all_goals simp_all

theorem ofText_eq_rightBracket_iff {w : List Char} : ofText w = .rightBracket ↔ w = [']'] := by
  unfold ofText
  split <;> try split <;> try split
  all_goals simp_all

theorem ofText_eq_integer_iff {w : List Char} :
    ofText w = .integer ↔ isIntegerLiteral w = true := by
  unfold ofText
  split
  next h => subst h; decide
  next =>
    split
    next h => subst h; decide
    next => split <;> simp_all

theorem ofText_cases (w : List Char) : ofText w = .leftBracket ∨ ofText w = .rightBracket ∨
    ofText w = .integer ∨ ofText w = .word := by
  unfold ofText
  split <;> try split <;> try split
  all_goals simp

end TokenKind

theorem isLower_toLower_of_isDigit {c : Char} (h : c.isDigit = true) :
    c.toLower.isLower = false := by
  have hle : c.val ≤ '9'.val := by
    simp only [Char.isDigit, Bool.and_eq_true, decide_eq_true_eq] at h
    exact h.2
  have hsame : c.toLower = c :=
    dif_neg fun hupper => absurd (UInt32.le_trans hupper.1 hle) (by decide)
  rw [hsame]
  apply Bool.and_eq_false_iff.2
  exact .inl (decide_eq_false fun hlower => absurd (UInt32.le_trans hlower hle) (by decide))

theorem Opcode.exists_head?_mnemonic (opcode : Opcode) :
    ∃ c, opcode.mnemonic.toList.head? = some c ∧ c.isLower = true := by
  cases opcode <;> exact ⟨_, rfl, rfl⟩

theorem ofText_of_mnemonic {w : List Char} {opcode : Opcode}
    (h : w.map Char.toLower = opcode.mnemonic.toList) : TokenKind.ofText w = .word := by
  have hhead (c : Char) (hc : c.toLower.isLower = false) : w.head? ≠ some c := by
    intro hw
    obtain ⟨d, hd, hlower⟩ := opcode.exists_head?_mnemonic
    rw [← h, List.head?_map, hw, Option.map_some, Option.some.injEq] at hd
    rw [hd, hlower] at hc
    contradiction
  rcases TokenKind.ofText_cases w with hw | hw | hw | hw
  · rw [TokenKind.ofText_eq_leftBracket_iff] at hw
    exact absurd (congrArg List.head? hw) (hhead '[' rfl)
  · rw [TokenKind.ofText_eq_rightBracket_iff] at hw
    exact absurd (congrArg List.head? hw) (hhead ']' rfl)
  · rw [TokenKind.ofText_eq_integer_iff, isIntegerLiteral_iff] at hw
    rcases hw with hw | ⟨digits, rfl, -⟩
    · obtain ⟨c, rest, rfl⟩ := List.exists_cons_of_ne_nil hw.1
      exact absurd rfl (hhead c (isLower_toLower_of_isDigit (hw.2 c List.mem_cons_self)))
    · exact absurd rfl (hhead '-' rfl)
  · exact hw

/-! ### Arguments -/

def Token.Shows (t : Token) (w : List Char) : Prop :=
  t.lexeme = Lexer.ofWord w

theorem Token.Shows.kind {t : Token} {w : List Char} (h : t.Shows w) : t.kind = .ofText w :=
  congrArg Lexer.Lexeme.kind h

theorem Token.Shows.text {t : Token} {w : List Char} (h : t.Shows w) : t.text.toList = w :=
  congrArg Lexer.Lexeme.text h

theorem forall₂_shows {ts : List Token} {ws : List (List Char)}
    (h : ts.map Token.lexeme = ws.map Lexer.ofWord) : List.Forall₂ Token.Shows ts ws := by
  rwa [← List.forall₂_eq_eq_eq, List.forall₂_map_left_iff, List.forall₂_map_right_iff] at h

namespace Statement

theorem noMore_bind_eq_ok {α : Type} {ts : List Token} {a b : α} :
    (do noMore ts; return a : Except ParseError α) = .ok b ↔ ts = [] ∧ a = b := by
  cases ts with
  | nil => simp [noMore, bind, Except.bind]
  | cons t ts => simp [noMore, bind, Except.bind]

theorem numeral_isIntegerLiteral {w : List Char} {n : Nat} (h : Numeral w n) :
    isIntegerLiteral w = true := by
  rw [isIntegerLiteral_iff]
  cases h with
  | plain hdigits => exact .inl hdigits
  | minusZero hdigits => exact .inr ⟨_, rfl, hdigits⟩

theorem readAddress_of_integer {t : Token} {w : List Char} {k : Int} {n : Nat} (ht : t.Shows w)
    (h : Decimal.integer? w = some k) : readAddress t = .ok n ↔ Decimal.InRange k ∧ k = n := by
  unfold readAddress
  rw [ht.text, h]
  dsimp only
  split
  next hrange =>
    split
    next hnonneg =>
      simp only [Except.ok.injEq, hrange, true_and]
      omega
    next => simp only [reduceCtorEq, false_iff]; omega
  next hrange => simp [hrange]

theorem readAddress_eq_ok {t : Token} {w : List Char} {n : Nat} (ht : t.Shows w)
    (hw : isIntegerLiteral w = true) : readAddress t = .ok n ↔ Numeral w n := by
  rcases isIntegerLiteral_iff.1 hw with hdigits | ⟨digits, rfl, hdigits⟩
  · rw [readAddress_of_integer ht (Decimal.integer?_of_isDigits hdigits)]
    constructor
    · rintro ⟨hrange, hn⟩
      have hn : Nat.ofDigitChars 10 w 0 = n := Int.ofNat.inj hn
      refine .plain hdigits hn ?_
      unfold Decimal.InRange at hrange
      unfold maxAddress
      omega
    · intro h
      cases h with
      | plain _ hn hle =>
        unfold maxAddress at hle
        unfold Decimal.InRange
        omega
      | minusZero => exact absurd (hdigits.2 '-' List.mem_cons_self) (by decide)
  · rw [readAddress_of_integer ht (Decimal.integer?_minus hdigits)]
    constructor
    · rintro ⟨-, hn⟩
      have hzero : n = 0 := by omega
      subst hzero
      exact .minusZero hdigits (by omega)
    · intro h
      cases h with
      | plain hminus => exact absurd (hminus.2 '-' List.mem_cons_self) (by decide)
      | minusZero _ hn => rw [hn]; decide

theorem takes_of_readTile {opcode : Opcode} {first : Token} {rest : List Token} {a : Argument}
    {w : List Char} {ws : List (List Char)} (hfirst : first.Shows w)
    (hrest : List.Forall₂ Token.Shows rest ws) (h : readTile opcode first rest = .ok a) :
    Takes .tile (w :: ws) a.spoken := by
  unfold readTile at h
  split at h
  next hkind =>
    rw [hfirst.kind, TokenKind.ofText_eq_integer_iff] at hkind
    obtain ⟨n, hn, hend⟩ := bind_eq_ok.1 h
    obtain ⟨rfl, rfl⟩ := noMore_bind_eq_ok.1 hend
    cases hrest
    exact .direct ((readAddress_eq_ok hfirst hkind).1 hn)
  next inner close more hkind =>
    rw [hfirst.kind, TokenKind.ofText_eq_leftBracket_iff] at hkind
    subst hkind
    split at h
    next hinside =>
      obtain ⟨n, hn, hend⟩ := bind_eq_ok.1 h
      obtain ⟨rfl, rfl⟩ := noMore_bind_eq_ok.1 hend
      cases hrest with
      | cons hinner hrest =>
        cases hrest with
        | cons hclose hrest =>
          cases hrest
          have hliteral := TokenKind.ofText_eq_integer_iff.1 (hinner.kind.symm.trans hinside.1)
          have hbracket := TokenKind.ofText_eq_rightBracket_iff.1 (hclose.kind.symm.trans hinside.2)
          subst hbracket
          exact .indirect ((readAddress_eq_ok hinner hliteral).1 hn)
    next => contradiction
  all_goals contradiction

theorem exists_readTile {opcode : Opcode} {first : Token} {rest : List Token}
    {argument : Grammar.Argument} {w : List Char} {ws : List (List Char)} (hfirst : first.Shows w)
    (hrest : List.Forall₂ Token.Shows rest ws) (h : Takes .tile (w :: ws) argument) :
    ∃ a, readTile opcode first rest = .ok a ∧ a.spoken = argument := by
  cases h with
  | @direct _ n hn =>
    have hliteral := numeral_isIntegerLiteral hn
    have hkind := hfirst.kind.trans (TokenKind.ofText_eq_integer_iff.2 hliteral)
    cases hrest
    refine ⟨.tile (.direct n), ?_, rfl⟩
    unfold readTile
    rw [hkind]
    dsimp only
    rw [(readAddress_eq_ok hfirst hliteral).2 hn]
    rfl
  | @indirect v n hn =>
    have hliteral := numeral_isIntegerLiteral hn
    cases hrest with
    | @cons inner _ rest _ hinner hrest =>
      cases hrest with
      | @cons close _ rest _ hclose hrest =>
        cases hrest
        have hinside : inner.kind = .integer ∧ close.kind = .rightBracket :=
          ⟨hinner.kind.trans (TokenKind.ofText_eq_integer_iff.2 hliteral), hclose.kind⟩
        have hopen : first.kind = .leftBracket := hfirst.kind
        refine ⟨.tile (.indirect n), ?_, rfl⟩
        unfold readTile
        rw [hopen]
        dsimp only
        rw [if_pos hinside, (readAddress_eq_ok hinner hliteral).2 hn]
        rfl

theorem takes_of_readLabel {opcode : Opcode} {first : Token} {rest : List Token} {a : Argument}
    {w : List Char} {ws : List (List Char)} (hfirst : first.Shows w)
    (hrest : List.Forall₂ Token.Shows rest ws) (h : readLabel opcode first rest = .ok a) :
    Takes .label (w :: ws) a.spoken := by
  have hname (hleft : first.kind ≠ .leftBracket) (hright : first.kind ≠ .rightBracket)
      (h : (do noMore rest; return .label first.text first.span : Except ParseError Argument) =
        .ok a) : Takes .label (w :: ws) a.spoken := by
    obtain ⟨rfl, rfl⟩ := noMore_bind_eq_ok.1 h
    cases hrest
    have htext : first.text = String.ofList w := by rw [← hfirst.text, String.ofList_toList]
    rw [Argument.spoken, htext]
    rw [hfirst.kind] at hleft hright
    exact .label (fun hw => hleft (TokenKind.ofText_eq_leftBracket_iff.2 hw)) fun hw =>
      hright (TokenKind.ofText_eq_rightBracket_iff.2 hw)
  unfold readLabel at h
  split at h
  next hkind => exact hname (by rw [hkind]; decide) (by rw [hkind]; decide) h
  next hkind => exact hname (by rw [hkind]; decide) (by rw [hkind]; decide) h
  next => contradiction

theorem exists_readLabel {opcode : Opcode} {first : Token} {rest : List Token}
    {argument : Grammar.Argument} {w : List Char} {ws : List (List Char)} (hfirst : first.Shows w)
    (hrest : List.Forall₂ Token.Shows rest ws) (h : Takes .label (w :: ws) argument) :
    ∃ a, readLabel opcode first rest = .ok a ∧ a.spoken = argument := by
  cases h with
  | label hleft hright =>
    cases hrest
    refine ⟨.label first.text first.span, ?_, ?_⟩
    · unfold readLabel
      rcases TokenKind.ofText_cases w with hw | hw | hw | hw
      · exact absurd (TokenKind.ofText_eq_leftBracket_iff.1 hw) hleft
      · exact absurd (TokenKind.ofText_eq_rightBracket_iff.1 hw) hright
      · rw [hfirst.kind, hw]
        rfl
      · rw [hfirst.kind, hw]
        rfl
    · rw [Argument.spoken, ← hfirst.text, String.ofList_toList]

theorem readArgument_iff {opcode : Opcode} {mnemonic : Token} {args : List Token}
    {argument : Grammar.Argument} {ws : List (List Char)}
    (hargs : List.Forall₂ Token.Shows args ws) :
    (∃ a, readArgument opcode mnemonic args = .ok a ∧ a.spoken = argument) ↔
      Takes opcode.operandKind ws argument := by
  unfold readArgument
  generalize opcode.operandKind = kind
  constructor
  · rintro ⟨a, ha, rfl⟩
    split at ha
    next =>
      obtain ⟨rfl, rfl⟩ := noMore_bind_eq_ok.1 ha
      cases hargs
      exact .nothing
    next => contradiction
    next =>
      cases hargs with
      | cons hfirst hrest => exact takes_of_readTile hfirst hrest ha
    next =>
      cases hargs with
      | cons hfirst hrest => exact takes_of_readLabel hfirst hrest ha
  · intro h
    cases hargs with
    | nil =>
      cases h
      exact ⟨.nothing, rfl, rfl⟩
    | cons hfirst hrest =>
      cases kind with
      | nothing => cases h
      | tile => exact exists_readTile hfirst hrest h
      | label => exact exists_readLabel hfirst hrest h

theorem isLabelName_iff {cs : List Char} : isLabelName cs = true ↔ IsWord cs := by
  unfold isLabelName IsWord InWord
  simp [and_assoc]

theorem labelName?_eq {t : Token} {code : List Char} (ht : t.lexeme = ⟨.labelDef, code⟩)
    (hcolon : code.getLast? = some ':') :
    t.labelName? = some (String.ofList (Text.trim code.dropLast)) := by
  have hkind : t.kind = .labelDef := congrArg Lexer.Lexeme.kind ht
  have htext : t.text.toList = code := congrArg Lexer.Lexeme.text ht
  have hreverse : code.reverse = ':' :: code.dropLast.reverse := by
    conv_lhs => rw [← List.dropLast_append_getLast? ':' hcolon]
    simp
  unfold Token.labelName?
  simp only [hkind, htext, hreverse, List.reverse_reverse]

def Speaks (tokens : List Token) (phrase : Option Phrase) : Prop :=
  ∃ s, ofTokens tokens = .ok s ∧ s.map Statement.phrase = phrase

theorem Speaks.eq {tokens : List Token} {a b : Option Phrase} (ha : Speaks tokens a)
    (hb : Speaks tokens b) : a = b := by
  obtain ⟨s, hs, rfl⟩ := ha
  obtain ⟨t, ht, rfl⟩ := hb
  rw [Except.ok.inj (hs.symm.trans ht)]

theorem speaks_of_nil {tokens : List Token} {phrase : Option Phrase}
    (h : tokens.filter Token.isSignificant = []) : Speaks tokens phrase ↔ phrase = none := by
  unfold Speaks ofTokens
  rw [h]
  simp [eq_comm]

theorem speaks_of_declaration {tokens : List Token} {phrase : Option Phrase} {t : Token}
    {code : List Char} (h : tokens.filter Token.isSignificant = [t])
    (ht : t.lexeme = ⟨.labelDef, code⟩) (hcolon : code.getLast? = some ':') :
    Speaks tokens phrase ↔ IsWord (Text.trim code.dropLast) ∧
      phrase = some (.declaration (String.ofList (Text.trim code.dropLast))) := by
  have hkind : t.kind = .labelDef := congrArg Lexer.Lexeme.kind ht
  unfold Speaks ofTokens
  rw [h]
  dsimp only
  rw [hkind]
  dsimp only
  unfold readDeclaration
  rw [labelName?_eq ht hcolon, ← isLabelName_iff]
  dsimp only [Option.getD_some]
  rw [String.toList_ofList]
  split
  next hname =>
    rw [hname]
    simp only [noMore, true_and]
    constructor
    · rintro ⟨s, hs, rfl⟩
      obtain ⟨declared, hdeclared, rfl⟩ := map_eq_ok.1 hs
      cases hdeclared
      rfl
    · rintro rfl
      exact ⟨_, rfl, rfl⟩
  next hname =>
    constructor
    · rintro ⟨s, hs, -⟩
      contradiction
    · exact fun hspeaks => absurd hspeaks.1 hname

theorem speaks_of_words {tokens : List Token} {phrase : Option Phrase} {w : List Char}
    {ws : List (List Char)}
    (h : List.Forall₂ Token.Shows (tokens.filter Token.isSignificant) (w :: ws)) :
    Speaks tokens phrase ↔ ∃ opcode argument, w.map Char.toLower = opcode.mnemonic.toList ∧
      Takes opcode.operandKind ws argument ∧ phrase = some (.operation opcode argument) := by
  unfold Speaks ofTokens
  generalize tokens.filter Token.isSignificant = significant at h
  cases h with
  | @cons first _ args _ hfirst hargs =>
    dsimp only
    constructor
    · rintro ⟨s, hs, rfl⟩
      split at hs
      next hkind =>
        rcases TokenKind.ofText_cases w with hw | hw | hw | hw <;>
          rw [hfirst.kind, hw] at hkind <;> contradiction
      next =>
        obtain ⟨operation, hoperation, rfl⟩ := map_eq_ok.1 hs
        unfold readOperation at hoperation
        split at hoperation
        next => contradiction
        next opcode hopcode =>
          obtain ⟨a, ha, hpure⟩ := bind_eq_ok.1 hoperation
          cases hpure
          rw [Opcode.ofMnemonic?_eq_some_iff, hfirst.text] at hopcode
          exact ⟨opcode, a.spoken, hopcode, (readArgument_iff hargs).1 ⟨a, ha, rfl⟩, rfl⟩
      next => contradiction
    · rintro ⟨opcode, argument, hmnemonic, htakes, rfl⟩
      obtain ⟨a, ha, rfl⟩ := (readArgument_iff hargs).2 htakes
      have hopcode : Opcode.ofMnemonic? first.text = some opcode := by
        rw [Opcode.ofMnemonic?_eq_some_iff, hfirst.text, hmnemonic]
      refine ⟨some (.operation opcode a first.line), ?_, rfl⟩
      rw [hfirst.kind, ofText_of_mnemonic hmnemonic]
      dsimp only
      unfold readOperation
      rw [hopcode]
      dsimp only
      rw [ha]
      rfl

theorem speaks_code {line start : Nat} {code comment : List Char} {phrase : Option Phrase} :
    Speaks (Lexer.place line start (Lexer.lexCode code ++ Lexer.lexeme .comment comment)) phrase ↔
      Means (Text.trim code) phrase := by
  generalize htokens : Lexer.place line start _ = tokens
  have hsignificant : (tokens.filter Token.isSignificant).map Token.lexeme =
      (Lexer.lexCode code).filter Lexer.Lexeme.isSignificant := by
    rw [← htokens, Lexer.map_lexeme_filter_place, List.filter_append, Lexer.filter_lexeme_comment,
      List.append_nil]
  by_cases hcolon : (Text.trim code).getLast? = some ':'
  · rw [Lexer.filter_lexCode_of_colon hcolon, List.map_eq_singleton_iff] at hsignificant
    obtain ⟨t, ht, hlexeme⟩ := hsignificant
    rw [speaks_of_declaration ht hlexeme hcolon]
    constructor
    · rintro ⟨hname, rfl⟩
      exact .declaration hcolon rfl hname
    · intro h
      cases h with
      | empty hempty => rw [hempty] at hcolon; contradiction
      | declaration _ hname hword => subst hname; exact ⟨hword, rfl⟩
      | operation hnot => exact absurd hcolon hnot
  · rw [Lexer.filter_lexCode_of_not_colon hcolon] at hsignificant
    have hwords : Lexer.words (Text.trim code) = Lexer.words code := Lexer.words_trim code
    cases hcode : Lexer.words code with
    | nil =>
      rw [hcode, List.map_nil, List.map_eq_nil_iff] at hsignificant
      rw [speaks_of_nil hsignificant]
      rw [hcode, ← Lexer.splits_iff] at hwords
      constructor
      · rintro rfl
        exact .empty hwords.trim_eq_nil
      · intro h
        cases h with
        | empty => rfl
        | declaration hyes => exact absurd hyes hcolon
        | operation _ hsplits =>
          rw [Lexer.splits_iff] at hsplits hwords
          rw [hwords] at hsplits
          contradiction
    | cons w ws =>
      rw [hcode] at hsignificant hwords
      rw [speaks_of_words (forall₂_shows hsignificant)]
      constructor
      · rintro ⟨opcode, argument, hmnemonic, htakes, rfl⟩
        exact .operation hcolon (Lexer.splits_iff.2 hwords) hmnemonic htakes
      · intro h
        cases h with
        | empty hempty => rw [hempty] at hwords; contradiction
        | declaration hyes => exact absurd hyes hcolon
        | operation _ hsplits hmnemonic htakes =>
          rw [Lexer.splits_iff, hwords] at hsplits
          cases hsplits
          exact ⟨_, _, hmnemonic, htakes, rfl⟩

end Statement
end TileMachine
