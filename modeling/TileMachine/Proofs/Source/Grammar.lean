import Mathlib.Data.List.Forall2
import TileMachine.Program
import TileMachine.Text.Blank

/-! The grammar of program texts, stated without a lexer: which lines are skipped,
what each of the others says, and which program all of them describe together.
Lines are counted from 0 here and from 1 in a program. -/
namespace TileMachine.Grammar
open Text

def InWord (c : Char) : Prop :=
  isBlank c = false ∧ c ≠ '[' ∧ c ≠ ']'

instance (c : Char) : Decidable (InWord c) :=
  inferInstanceAs (Decidable (_ ∧ _))

def IsWord (cs : List Char) : Prop :=
  cs ≠ [] ∧ ∀ c ∈ cs, InWord c

instance (cs : List Char) : Decidable (IsWord cs) :=
  @instDecidableAnd _ _ _ (List.decidableBAll InWord cs)

/-- The brackets and words of a text. A word reaches as far as it can. -/
inductive Splits : List Char → List (List Char) → Prop where
  | nil : Splits [] []
  | blank {c : Char} {cs : List Char} {ws : List (List Char)} :
      isBlank c = true → Splits cs ws → Splits (c :: cs) ws
  | bracket {c : Char} {cs : List Char} {ws : List (List Char)} :
      c = '[' ∨ c = ']' → Splits cs ws → Splits (c :: cs) ([c] :: ws)
  | word {w cs : List Char} {ws : List (List Char)} :
      IsWord w → (∀ c, cs.head? = some c → ¬InWord c) → Splits cs ws → Splits (w ++ cs) (w :: ws)

def maxAddress : Nat := 9223372036854775807

def IsDigits (cs : List Char) : Prop :=
  cs ≠ [] ∧ ∀ c ∈ cs, c.isDigit = true

/-- A numeral with its value. A minus sign is allowed in front of zero. -/
inductive Numeral : List Char → Nat → Prop where
  | plain {digits : List Char} {n : Nat} :
      IsDigits digits → Nat.ofDigitChars 10 digits 0 = n → n ≤ maxAddress → Numeral digits n
  | minusZero {digits : List Char} :
      IsDigits digits → Nat.ofDigitChars 10 digits 0 = 0 → Numeral ('-' :: digits) 0

inductive Argument where
  | nothing
  | tile (address : Address)
  | label (name : String)
deriving DecidableEq, Repr

/-- The words that may follow a mnemonic, and the argument that they make up. -/
inductive Takes : OperandKind → List (List Char) → Argument → Prop where
  | nothing : Takes .nothing [] .nothing
  | direct {w : List Char} {n : Nat} : Numeral w n → Takes .tile [w] (.tile (.direct n))
  | indirect {w : List Char} {n : Nat} :
      Numeral w n → Takes .tile [['['], w, [']']] (.tile (.indirect n))
  | label {w : List Char} :
      w ≠ ['['] → w ≠ [']'] → Takes .label [w] (.label (String.ofList w))

inductive Phrase where
  | declaration (name : String)
  | operation (opcode : Opcode) (argument : Argument)
deriving DecidableEq, Repr

/-- What a code says that has no comment and no blanks around. A colon at its end
makes it a declaration, whatever stands before. -/
inductive Means (code : List Char) : Option Phrase → Prop where
  | empty : code = [] → Means code none
  | declaration {name : List Char} :
      code.getLast? = some ':' → trim code.dropLast = name → IsWord name →
      Means code (some (.declaration (String.ofList name)))
  | operation {mnemonic : List Char} {args : List (List Char)} {opcode : Opcode}
      {argument : Argument} :
      code.getLast? ≠ some ':' → Splits code (mnemonic :: args) →
      mnemonic.map Char.toLower = opcode.mnemonic.toList →
      Takes opcode.operandKind args argument →
      Means code (some (.operation opcode argument))

/-- The text of a line before its first double hyphen. -/
structure IsCode (line code : List Char) : Prop where
  cut : ∃ comment, line = code ++ comment ∧ (comment = [] ∨ ['-', '-'] <+: comment)
  first : ∀ k < code.length, ¬['-', '-'] <+: line.drop k

def Says (line : List Char) (phrase : Option Phrase) : Prop :=
  ∃ code, IsCode line code ∧ Means (trim code) phrase

/-- The first word of the line is the keyword, in any mixture of ASCII cases. -/
def StartsWith (keyword : String) (line : List Char) : Prop :=
  (firstWord line).map Char.toLower = keyword.toList

instance (keyword : String) (line : List Char) : Decidable (StartsWith keyword line) :=
  inferInstanceAs (Decidable (_ = _))

section Lines
variable (ls : List (List Char))

/-- Line `n` is still in the block that line `first` opens: no line before it ends
in a semicolon, and none after the opening one is blank. -/
def Reaches (first n : Nat) : Prop :=
  first ≤ n ∧ ∀ k line, first ≤ k → k < n → ls[k]? = some line →
    (trim line).getLast? ≠ some ';' ∧ (first < k → trim line ≠ [])

/-- Line `n` opens a block: it starts with the keyword and is in no earlier block. -/
def Opens (n : Nat) : Prop :=
  (∃ line, ls[n]? = some line ∧ StartsWith "define" line) ∧
    ∀ m, (h : m < n) → Opens m → ¬Reaches ls m n
termination_by n

def InBlock (n : Nat) : Prop :=
  ∃ first, Opens ls first ∧ Reaches ls first n

def Skipped (n : Nat) : Prop :=
  InBlock ls n ∨ ∃ line, ls[n]? = some line ∧ StartsWith "comment" line

def SaysAt (n : Nat) (phrase : Option Phrase) : Prop :=
  ∃ line, ls[n]? = some line ∧ ¬Skipped ls n ∧ Says line phrase

/-- Every line says something, no name is declared twice, and all jumps go to
declared names. -/
structure Accepts : Prop where
  phrases : ∀ n line, ls[n]? = some line → ¬Skipped ls n → ∃ phrase, Says line phrase
  once : ∀ m n name, SaysAt ls m (some (.declaration name)) →
    SaysAt ls n (some (.declaration name)) → m = n
  known : ∀ n opcode name, SaysAt ls n (some (.operation opcode (.label name))) →
    ∃ m, SaysAt ls m (some (.declaration name))

def Tells (n : Nat) (phrase : Option Phrase) : Prop :=
  SaysAt ls n phrase ∨ Skipped ls n ∧ phrase = none

def Reads (said : List (Option Phrase)) : Prop :=
  said.length = ls.length ∧ ∀ n phrase, said[n]? = some phrase → Tells ls n phrase

end Lines

structure Operation where
  line : Nat
  opcode : Opcode
  argument : Argument
deriving DecidableEq, Repr

def operations (line : Nat) : List (Option Phrase) → List Operation
  | [] => []
  | some (.operation opcode argument) :: rest =>
    ⟨line, opcode, argument⟩ :: operations (line + 1) rest
  | _ :: rest => operations (line + 1) rest

/-- The declared names. Each stands for the number of operations before it. -/
def declarations (index : Nat) : List (Option Phrase) → List (String × Nat)
  | [] => []
  | some (.declaration name) :: rest => (name, index) :: declarations index rest
  | some (.operation _ _) :: rest => declarations (index + 1) rest
  | none :: rest => declarations index rest

inductive Resolves (labels : Labels) : Operation → Instruction → Prop where
  | nothing {line : Nat} {opcode : Opcode} :
      Resolves labels ⟨line, opcode, .nothing⟩ ⟨opcode, .nothing⟩
  | tile {line : Nat} {opcode : Opcode} {address : Address} :
      Resolves labels ⟨line, opcode, .tile address⟩ ⟨opcode, .tile address⟩
  | label {line : Nat} {opcode : Opcode} {name : String} {target : Nat} :
      labels[name]? = some target →
      Resolves labels ⟨line, opcode, .label name⟩ ⟨opcode, .label name target⟩

structure Describes (said : List (Option Phrase)) (p : Program) : Prop where
  once : ((declarations 0 said).map Prod.fst).Nodup
  labels : ∀ name index, p.labels[name]? = some index ↔ (name, index) ∈ declarations 0 said
  instructions : List.Forall₂ (Resolves p.labels) (operations 1 said) p.instructions.toList
  lines : p.lines.toList = (operations 1 said).map Operation.line

end TileMachine.Grammar
