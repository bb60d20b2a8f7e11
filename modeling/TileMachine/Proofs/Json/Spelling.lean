import Mathlib.Data.List.Basic
import Mathlib.Data.List.TakeWhile
import Mathlib.Data.Option.Basic
import TileMachine.Json.Token
import TileMachine.Proofs.Text.Decimal
import TileMachine.Proofs.Text.Letters

/-! Tokens of JSON as they are written, and the lexer that reads them back. -/
namespace TileMachine.Json

namespace Number

theorem le_ofDigitChars (digits : List Char) (start : Nat) :
    start ≤ Nat.ofDigitChars 10 digits start := by
  induction digits generalizing start with
  | nil => simp
  | cons c digits ih =>
    rw [Nat.ofDigitChars_cons]
    have hrest := ih (10 * start + (c.toNat - '0'.toNat))
    omega

theorem foldl_push {digits : List Char} {t : Taken} (hdropped : t.dropped = 0)
    (hfits : Nat.ofDigitChars 10 digits t.significand < Nat.pow 2 64) :
    digits.foldl Taken.push t =
      ⟨Nat.ofDigitChars 10 digits t.significand, t.kept + digits.length, 0⟩ := by
  induction digits generalizing t with
  | nil =>
    obtain ⟨significand, kept, dropped⟩ := t
    cases hdropped
    simp
  | cons c digits ih =>
    rw [Nat.ofDigitChars_cons] at hfits ⊢
    have hnext : t.significand * 10 + digitValue c = 10 * t.significand + (c.toNat - '0'.toNat) := by
      unfold digitValue
      omega
    have hle := le_ofDigitChars digits (10 * t.significand + (c.toNat - '0'.toNat))
    have hpush : t.push c = ⟨10 * t.significand + (c.toNat - '0'.toNat), t.kept + 1, 0⟩ := by
      unfold Taken.push
      rw [hnext, if_pos ⟨hdropped, Nat.lt_of_le_of_lt hle hfits⟩, hdropped]
    rw [List.foldl_cons, hpush, ih rfl hfits, List.length_cons, Nat.add_right_comm, Nat.add_assoc]

theorem roundToDouble_le (n : Nat) : roundToDouble n ≤ 2 * n := by
  unfold roundToDouble
  dsimp only
  generalize hunit : Nat.pow 2 (n.log2 + 1 - 53) = unit
  have hquotient : n / unit * unit ≤ n := Nat.div_mul_le_self n unit
  by_cases hzero : n = 0
  · subst hzero
    simp
  · have hsmall : unit ≤ n := by
      have hpower : unit ≤ 2 ^ n.log2 := by
        rw [← hunit]
        exact Nat.pow_le_pow_right (by decide) (by omega)
      exact Nat.le_trans hpower (Nat.log2_self_le hzero)
    split
    · rw [Nat.add_mul]
      omega
    · omega

theorem ofLiteral_plain {negative : Bool} {digits : List Char} {n : Nat}
    (hdigits : Nat.ofDigitChars 10 digits 0 = n) (hfits : n < Nat.pow 2 64)
    (hzero : negative = true → n ≠ 0) :
    ofLiteral { negative, whole := digits } = .int (if negative then -(n : Int) else n) := by
  have hscaled : scaled { negative, whole := digits } = (n, 0) := by
    have hwhole : digits.foldl Taken.push ⟨0, 0, 0⟩ = ⟨n, 0 + digits.length, 0⟩ := by
      rw [foldl_push rfl (by rwa [hdigits]), hdigits]
    unfold scaled
    dsimp only
    rw [hwhole]
    simp
  have hoverflows : overflows n 0 = false := by
    have hproduct : roundToDouble n * roundToDouble 1 ≤ 2 * n * 2 :=
      Nat.mul_le_mul (roundToDouble_le n) (roundToDouble_le 1)
    have hthreshold : 2 ^ 66 ≤ infinityThreshold := by decide +kernel
    have hfits : n < 2 ^ 64 := hfits
    have hsmall : roundToDouble n * roundToDouble 1 < infinityThreshold := by omega
    simp [overflows, hsmall]
  have hnegative : (negative && n == 0) = false := by
    cases negative with
    | true => simpa using hzero rfl
    | false => rfl
  unfold ofLiteral
  rw [hscaled]
  simp only [hdigits, hoverflows, hnegative]
  cases negative <;> rfl

end Number

/-! ### Numbers -/

/-- What stands behind a number cannot be taken for a part of it. -/
def EndsNumber (rest : List Char) : Prop :=
  ∀ c, rest.head? = some c → c.isDigit = false ∧ c ≠ '.' ∧ c ≠ 'e' ∧ c ≠ 'E'

theorem lexDigits_append {digits rest : List Char} (hne : digits ≠ [])
    (hdigits : ∀ c ∈ digits, c.isDigit = true) (hrest : EndsNumber rest) :
    lexDigits (digits ++ rest) = some (digits, rest) := by
  have hstop : rest.takeWhile Char.isDigit = [] ∧ rest.dropWhile Char.isDigit = rest := by
    cases rest with
    | nil => exact ⟨rfl, rfl⟩
    | cons c rest => simp [(hrest c rfl).1]
  unfold lexDigits
  rw [List.takeWhile_append_of_pos hdigits, List.dropWhile_append_of_pos hdigits, hstop.1, hstop.2,
    List.append_nil]
  cases digits with
  | nil => contradiction
  | cons c digits => rfl

theorem lexScale_of_end {l : Literal} {rest : List Char} (h : EndsNumber rest) :
    lexScale l rest = some (l, rest) := by
  unfold lexScale
  split
  next => exact absurd rfl (h 'e' rfl).2.2.1
  next => exact absurd rfl (h 'E' rfl).2.2.2
  next => rfl

theorem head?_toDigits {n : Nat} (h : 0 < n) : (Nat.toDigits 10 n).head? ≠ some '0' := by
  induction n using Nat.strong_induction_on with
  | _ n ih =>
    by_cases hsmall : n < 10
    · have hdigit : ∀ n < 10, 0 < n → n.digitChar ≠ '0' := by decide
      rw [Nat.toDigits_of_lt_base hsmall, List.head?_cons, Ne, Option.some.injEq]
      exact hdigit n hsmall h
    · have hle : 10 ≤ n := Nat.not_lt.1 hsmall
      rw [Nat.toDigits_of_base_le (by decide) hle,
        List.head?_append_of_ne_nil _ Nat.toDigits_ne_nil]
      exact ih (n / 10) (by omega) (by omega)

theorem lexNumber_toDigits {negative : Bool} {n : Nat} {rest : List Char}
    (hfits : n < Nat.pow 2 64) (hzero : negative = true → n ≠ 0) (hrest : EndsNumber rest) :
    lexNumber negative (Nat.toDigits 10 n ++ rest) =
      some (.int (if negative then -(n : Int) else n), rest) := by
  have hdigits : ∀ c ∈ Nat.toDigits 10 n, c.isDigit = true :=
    fun _ => Nat.isDigit_of_mem_toDigits (by decide) (by decide)
  have hguard : (Nat.toDigits 10 n).head? ≠ some '0' ∨ (Nat.toDigits 10 n).length = 1 := by
    by_cases hn : n = 0
    · rw [hn]
      exact .inr rfl
    · exact .inl (head?_toDigits (Nat.pos_of_ne_zero hn))
  unfold lexNumber
  rw [lexDigits_append Nat.toDigits_ne_nil hdigits hrest, Option.bind_eq_bind, Option.bind_some]
  dsimp only
  rw [guard, if_pos hguard]
  simp only [Option.pure_def, Option.bind_eq_bind, Option.bind_some]
  split
  next => exact absurd rfl (hrest '.' rfl).2.1
  next =>
    rw [lexScale_of_end hrest]
    simp only [Option.bind_some, Number.ofLiteral_plain Nat.ofDigitChars_ten_toDigits hfits hzero]

/-! ### Strings -/

def IsPlain (c : Char) : Prop :=
  c ≠ '"' ∧ c ≠ '\\' ∧ 0x20 ≤ c.toNat

theorem isPlain_of_isDigit {c : Char} (h : c.isDigit = true) : IsPlain c := by
  have hrange := Text.toNat_of_isDigit h
  refine ⟨?_, ?_, by omega⟩
  all_goals
    rintro rfl
    contradiction

theorem isPlain_of_isAlpha {c : Char} (h : c.isAlpha = true) : IsPlain c := by
  have hrange := Text.toNat_of_isAlpha h
  refine ⟨?_, ?_, by omega⟩
  all_goals
    rintro rfl
    contradiction

theorem lexString_cons {c : Char} (h : IsPlain c) (cs : List Char) :
    lexString (c :: cs) = (lexString cs).map fun (pieces, rest) => (.char c :: pieces, rest) := by
  have hguard : c ≠ '\\' ∧ 0x20 ≤ c.toNat := h.2
  rw [lexString.eq_5 c cs h.1 (fun _ _ _ _ _ hc => absurd hc h.2.1) fun _ _ hc => absurd hc h.2.1]
  rw [guard, if_pos hguard]
  cases lexString cs <;> rfl

theorem lexString_plain {cs : List Char} (h : ∀ c ∈ cs, IsPlain c) (rest : List Char) :
    lexString (cs ++ '"' :: rest) = some (cs.map .char, rest) := by
  induction cs with
  | nil => rfl
  | cons c cs ih =>
    rw [List.forall_mem_cons] at h
    rw [List.cons_append, lexString_cons h.1, ih h.2]
    rfl

theorem joinPieces_chars (cs : List Char) : joinPieces (cs.map .char) = some cs := by
  induction cs with
  | nil => rfl
  | cons c cs ih =>
    rw [List.map_cons, joinPieces, ih]
    rfl

/-! ### Tokens -/

namespace Token

/-- The characters of a token. Only integers have a numeral here, and strings are written
without escapes. -/
def chars : Token → List Char
  | leftBrace => ['\x7b']
  | rightBrace => ['\x7d']
  | leftBracket => ['[']
  | rightBracket => [']']
  | colon => [':']
  | comma => [',']
  | null => ['n', 'u', 'l', 'l']
  | bool true => ['t', 'r', 'u', 'e']
  | bool false => ['f', 'a', 'l', 's', 'e']
  | number (.int n) => (Decimal.ofInt n).toList
  | text (some s) => '"' :: (s.toList ++ ['"'])
  | number _ | text none | invalid => []

def Plain : Token → Prop
  | number (.int n) => Decimal.InRange n
  | text (some s) => ∀ c ∈ s.toList, IsPlain c
  | number _ | text none | invalid => False
  | _ => True

def IsNumber : Token → Prop
  | number _ => True
  | _ => False

end Token

theorem lexToken_of_digit {c : Char} (h : c.isDigit = true) (cs : List Char) :
    lexToken (c :: cs) = (lexNumber false (c :: cs)).map fun (n, rest) => (.number n, rest) := by
  rw [lexToken.eq_12]
  all_goals
    rintro _ ⟨⟩
    exact absurd h (by decide)

theorem lexToken_ofInt {n : Int} {rest : List Char} (hn : Decimal.InRange n)
    (hrest : EndsNumber rest) :
    lexToken ((Decimal.ofInt n).toList ++ rest) = some (.number (.int n), rest) := by
  have hfits : n.natAbs < Nat.pow 2 64 := by
    unfold Decimal.InRange at hn
    have hpow : Nat.pow 2 64 = 18446744073709551616 := rfl
    omega
  cases n with
  | ofNat n =>
    have hnumber : lexNumber false (Nat.toDigits 10 n ++ rest) = some (.int n, rest) :=
      lexNumber_toDigits hfits (by simp) hrest
    have hdigit : ∀ c ∈ Nat.toDigits 10 n, c.isDigit = true :=
      fun _ => Nat.isDigit_of_mem_toDigits (by decide) (by decide)
    change lexToken ((Decimal.ofNat n).toList ++ rest) = _
    rw [Decimal.toList_ofNat]
    cases hdigits : Nat.toDigits 10 n with
    | nil => exact absurd hdigits Nat.toDigits_ne_nil
    | cons c digits =>
      rw [hdigits] at hnumber hdigit
      rw [List.cons_append, lexToken_of_digit (hdigit c List.mem_cons_self), ← List.cons_append,
        hnumber]
      rfl
  | negSucc n =>
    have hnumber : lexNumber true (Nat.toDigits 10 (n + 1) ++ rest) = some (.int (.negSucc n), rest) :=
      lexNumber_toDigits hfits (by simp) hrest
    rw [Decimal.toList_ofInt_negSucc, Decimal.toList_ofNat, List.cons_append, lexToken, hnumber]
    rfl

theorem lexToken_chars {t : Token} {rest : List Char} (ht : t.Plain)
    (hrest : t.IsNumber → EndsNumber rest) : lexToken (t.chars ++ rest) = some (t, rest) := by
  cases t with
  | leftBrace | rightBrace | leftBracket | rightBracket | colon | comma | null => rfl
  | bool b => cases b <;> rfl
  | invalid => contradiction
  | text s =>
    cases s with
    | none => contradiction
    | some s =>
      have hstring := lexString_plain ht rest
      rw [Token.chars, List.cons_append, List.append_assoc, List.singleton_append, lexToken, hstring]
      simp [joinPieces_chars]
  | number n =>
    have hends := hrest trivial
    cases n with
    | real | huge => contradiction
    | int n => exact lexToken_ofInt ht hends

/-! ### Whole texts -/

inductive Spells : List Token → List Char → Prop where
  | blanks {cs : List Char} (hcs : ∀ c ∈ cs, isSpace c = true) : Spells [] cs
  | token {t : Token} {tokens : List Token} {before rest : List Char}
      (hbefore : ∀ c ∈ before, isSpace c = true) (hplain : t.Plain)
      (hends : t.IsNumber → EndsNumber rest) (hrest : Spells tokens rest) :
      Spells (t :: tokens) (before ++ (t.chars ++ rest))

theorem isSpace_of_isDigit {c : Char} (h : c.isDigit = true) : isSpace c = false := by
  rw [Bool.eq_false_iff]
  intro hspace
  simp only [isSpace, Bool.or_eq_true, beq_iff_eq] at hspace
  obtain ((rfl | rfl) | rfl) | rfl := hspace
  all_goals exact absurd h (by decide)

theorem Token.Plain.exists_chars {t : Token} (h : t.Plain) :
    ∃ c cs, t.chars = c :: cs ∧ isSpace c = false := by
  cases t with
  | leftBrace | rightBrace | leftBracket | rightBracket | colon | comma | null =>
    exact ⟨_, _, rfl, by decide⟩
  | bool b => cases b <;> exact ⟨_, _, rfl, by decide⟩
  | invalid => contradiction
  | text s =>
    cases s with
    | none => contradiction
    | some s => exact ⟨_, _, rfl, by decide⟩
  | number n =>
    cases n with
    | real | huge => contradiction
    | int n =>
      have hread := Decimal.integer?_ofInt n
      cases hchars : (Decimal.ofInt n).toList with
      | nil => simp [hchars, Decimal.integer?, Decimal.digits?] at hread
      | cons c cs =>
        refine ⟨c, cs, hchars, ?_⟩
        have hc : c ∈ (Decimal.ofInt n).toList := hchars ▸ List.mem_cons_self
        obtain hdigit | rfl := Decimal.mem_ofInt hc
        · exact isSpace_of_isDigit hdigit
        · rfl

theorem lexUpTo_of_spells {tokens : List Token} {cs : List Char} (h : Spells tokens cs)
    {bound : Nat} (hbound : cs.length ≤ bound) : lexUpTo bound cs = tokens := by
  induction h generalizing bound with
  | @blanks cs hcs =>
    cases bound with
    | zero => rfl
    | succ bound =>
      have hdrop : cs.dropWhile isSpace = [] := List.dropWhile_eq_nil_iff.2 hcs
      rw [lexUpTo, hdrop]
  | @token t tokens before rest hbefore hplain hends hrest ih =>
    obtain ⟨c, cs, hchars, hc⟩ := hplain.exists_chars
    have hdrop : (before ++ (t.chars ++ rest)).dropWhile isSpace = t.chars ++ rest := by
      rw [List.dropWhile_append_of_pos hbefore, hchars]
      exact List.dropWhile_cons_of_neg (by simp [hc])
    have htoken := lexToken_chars hplain hends
    rw [List.length_append, List.length_append, hchars, List.length_cons] at hbound
    cases bound with
    | zero => omega
    | succ bound =>
      rw [hchars, List.cons_append] at hdrop htoken ⊢
      rw [lexUpTo, hdrop]
      dsimp only
      rw [htoken]
      dsimp only
      rw [ih (by omega)]

theorem lex_of_spells {tokens : List Token} {json : String} (h : Spells tokens json.toList) :
    lex json = tokens :=
  lexUpTo_of_spells h (Nat.le_refl _)

end TileMachine.Json
