import TileMachine.Proofs.Source.AnyTokens

/-! The same reading of tokens, done with positions: arguments are looked up and cut off by
their index, instructions are collected with targets still open, and a second pass goes
back to those that jump. No position is ever out of range, whatever the tokens are. -/
namespace TileMachine

def Argument.operand : Argument → Operand
  | nothing => .nothing
  | tile address => .tile address
  | label name _ => .label name 0

namespace Indexed
open Statement (noMore readAddress isLabelName)

/-- A reading may be refused with an error. It gives nothing at all if it looks for a
position that is not there. -/
abbrev Reading := ExceptT ParseError Option

variable {α β : Type}

def of (x : Except ParseError α) : Reading α := some x

def found (x : Option α) : Reading α := ExceptT.lift x

def itemsFrom (xs : List α) (start : Nat) : Reading (List α) :=
  found (if start ≤ xs.length then some (xs.drop start) else none)

def itemsUpTo (xs : List α) (stop : Nat) : Reading (List α) :=
  found (if stop ≤ xs.length then some (xs.take stop) else none)

/-! ### Arguments -/

def bracketEnd (args : List Token) : Nat :=
  match args.findIdx? (·.kind = .rightBracket) with
  | some index => index + 1
  | none => args.length

def refuseIndirect (args : List Token) : Reading Address := do
  let covered ← itemsUpTo args (bracketEnd args)
  let first ← found covered[0]?
  let last ← found covered[bracketEnd args - 1]?
  of (.error ⟨first.line, some (first.span.cover last.span),
    .malformedIndirect (" ".intercalate (covered.map Token.text))⟩)

def readIndirect (args : List Token) : Reading Address :=
  match args with
  | opening :: inner :: closing :: _ =>
    if opening.kind = .leftBracket ∧ inner.kind = .integer ∧ closing.kind = .rightBracket then
      .indirect <$> of (readAddress inner)
    else refuseIndirect args
  | _ => refuseIndirect args

def readAddressAt (opcode : Opcode) (first : Token) (args : List Token) : Reading (Address × Nat) :=
  match first.kind with
  | .integer => do return (.direct (← of (readAddress first)), 1)
  | .leftBracket | .rightBracket => do return (← readIndirect args, 3)
  | _ => of (.error (first.fail (.expectedAddress opcode first.text)))

def readOperand (opcode : Opcode) (mnemonic : Token) (args : List Token) : Reading Operand :=
  let missing : Reading Operand :=
    of (.error (mnemonic.fail (.missingArgument opcode opcode.operandKind)))
  match opcode.operandKind, args.head? with
  | .nothing, _ => do
    of (noMore args)
    return .nothing
  | .tile, none | .label, none => missing
  | .tile, some first => do
    let (address, used) ← readAddressAt opcode first args
    of (noMore (← itemsFrom args used))
    return .tile address
  | .label, some first =>
    match first.kind with
    | .word | .integer => do
      of (noMore (← itemsFrom args 1))
      return .label first.text 0
    | _ => of (.error (first.fail (.expectedLabel opcode first.text)))

/-! ### Lines -/

structure Pending where
  index : Nat
  line : Nat
  span : Span

structure Table where
  instructions : Array Instruction := #[]
  lines : Array Nat := #[]
  labels : Labels := ∅
  pending : List Pending := []

namespace Table

def declare (t : Table) (first : Token) (args : List Token) : Reading Table :=
  let name := first.labelName?.getD ""
  if isLabelName name.toList then do
    of (noMore args)
    if name ∈ t.labels then of (.error (first.fail (.duplicateLabel name)))
    else return { t with labels := t.labels.insert name t.instructions.size }
  else of (.error (first.fail (.invalidLabel name)))

def await (t : Table) (operand : Operand) (line : Nat) (args : List Token) :
    Reading (List Pending) :=
  match operand with
  | .label _ _ => do
    let argument ← found args[0]?
    return t.pending ++ [⟨t.instructions.size, line, argument.span⟩]
  | _ => return t.pending

def operate (t : Table) (first : Token) (args : List Token) : Reading Table :=
  match Opcode.ofMnemonic? first.text with
  | none => of (.error (first.fail (.unknownOpcode first.text)))
  | some opcode => do
    let operand ← readOperand opcode first args
    let pending ← t.await operand first.line args
    return { t with
      instructions := t.instructions.push ⟨opcode, operand⟩
      lines := t.lines.push first.line
      pending }

def addLine (t : Table) (tokens : List Token) : Reading Table :=
  match tokens.filter Token.isSignificant with
  | [] => return t
  | first :: args =>
    match first.kind with
    | .labelDef => t.declare first args
    | .word => t.operate first args
    | _ => of (.error first.unexpected)

end Table

/-- Goes back to a jump and sets its target. -/
def patch (labels : Labels) (instructions : Array Instruction) (jump : Pending) :
    Reading (Array Instruction) := do
  let i ← found instructions[jump.index]?
  match i.operand with
  | .label name _ =>
    match labels[name]? with
    | some target => return instructions.setIfInBounds jump.index ⟨i.opcode, .label name target⟩
    | none => of (.error ⟨jump.line, some jump.span, .undefinedLabel name⟩)
  | _ => return instructions

def program (tokens : List Token) : Reading Program := do
  let t ← (tokens.splitBy (·.line == ·.line)).foldlM Table.addLine {}
  let instructions ← t.pending.foldlM (patch t.labels) t.instructions
  return ⟨instructions, t.labels, t.lines⟩

/-! ### Positions that are there -/

theorem of_ok_bind (a : α) (f : α → Reading β) : of (.ok a) >>= f = f a := rfl

theorem found_some_bind (a : α) (f : α → Reading β) : found (some a) >>= f = f a := rfl

theorem pure_eq_of (a : α) : (pure a : Reading α) = of (.ok a) := rfl

theorem itemsFrom_of_le {xs : List α} {start : Nat} (h : start ≤ xs.length) :
    itemsFrom xs start = of (.ok (xs.drop start)) := by
  rw [itemsFrom, if_pos h]
  rfl

theorem itemsUpTo_of_le {xs : List α} {stop : Nat} (h : stop ≤ xs.length) :
    itemsUpTo xs stop = of (.ok (xs.take stop)) := by
  rw [itemsUpTo, if_pos h]
  rfl

theorem bracketEnd_cons (t : Token) (ts : List Token) :
    bracketEnd (t :: ts) = if t.kind = .rightBracket then 1 else bracketEnd ts + 1 := by
  unfold bracketEnd
  rw [List.findIdx?_cons]
  by_cases ht : t.kind = .rightBracket
  · simp [ht]
  · simp only [ht, decide_false, Bool.false_eq_true, ↓reduceIte]
    cases ts.findIdx? fun t => decide (t.kind = .rightBracket) <;> rfl

theorem bracketEnd_le (args : List Token) : bracketEnd args ≤ args.length := by
  induction args with
  | nil => exact Nat.le_refl 0
  | cons t ts ih =>
    rw [bracketEnd_cons, List.length_cons]
    split <;> omega

theorem take_bracketEnd (args : List Token) :
    args.take (bracketEnd args) = Statement.bracketed args := by
  induction args with
  | nil => rfl
  | cons t ts ih =>
    rw [bracketEnd_cons, Statement.bracketed]
    split
    · rfl
    · rw [List.take_succ_cons, ih]

theorem refuseIndirect_cons (first : Token) (rest : List Token) :
    refuseIndirect (first :: rest) = of (.error (Statement.malformedIndirect first rest)) := by
  have hle := bracketEnd_le (first :: rest)
  have hpos : 0 < bracketEnd (first :: rest) := by
    rw [bracketEnd_cons]
    split <;> omega
  have hlength : (Statement.bracketed (first :: rest)).length = bracketEnd (first :: rest) := by
    rw [← take_bracketEnd, List.length_take]
    omega
  have hfirst : (Statement.bracketed (first :: rest))[0]? = some first := by
    rw [Statement.bracketed]
    split <;> rfl
  have hlast : (Statement.bracketed (first :: rest))[bracketEnd (first :: rest) - 1]? =
      some ((Statement.bracketed (first :: rest)).getLast?.getD first) := by
    rw [← hlength, ← List.getLast?_eq_getElem?]
    cases hcovered : (Statement.bracketed (first :: rest)).getLast? with
    | none =>
      rw [List.getLast?_eq_none_iff] at hcovered
      rw [hcovered] at hfirst
      contradiction
    | some last => rfl
  unfold refuseIndirect
  rw [itemsUpTo_of_le hle, of_ok_bind, take_bracketEnd, hfirst, found_some_bind, hlast,
    found_some_bind]
  rfl

/-! ### Arguments, both ways -/

theorem closeTile_eq {args rest : List Token} {used : Nat} (address : Address)
    (hle : used ≤ args.length) (hrest : args.drop used = rest) :
    (do
      of (noMore (← itemsFrom args used))
      return .tile address : Reading Operand) =
      of (Argument.operand <$> (do noMore rest; return .tile address)) := by
  rw [itemsFrom_of_le hle, hrest, of_ok_bind]
  cases rest <;> rfl

theorem readIndirect_of_brackets {opening inner closing : Token} {more : List Token}
    (hopening : opening.kind = .leftBracket)
    (hinside : inner.kind = .integer ∧ closing.kind = .rightBracket) :
    readIndirect (opening :: inner :: closing :: more) = .indirect <$> of (readAddress inner) :=
  if_pos ⟨hopening, hinside⟩

theorem readIndirect_of_not {first : Token} {rest : List Token}
    (h : ∀ inner closing more, rest = inner :: closing :: more →
      ¬(first.kind = .leftBracket ∧ inner.kind = .integer ∧ closing.kind = .rightBracket)) :
    readIndirect (first :: rest) = of (.error (Statement.malformedIndirect first rest)) := by
  rw [← refuseIndirect_cons]
  cases rest with
  | nil => rfl
  | cons inner rest =>
    cases rest with
    | nil => rfl
    | cons closing more => exact if_neg (h inner closing more rfl)

theorem readTile_eq (opcode : Opcode) (first : Token) (rest : List Token) :
    (do
      let (address, used) ← readAddressAt opcode first (first :: rest)
      of (noMore (← itemsFrom (first :: rest) used))
      return .tile address : Reading Operand) =
      of (Argument.operand <$> Statement.readTile opcode first rest) := by
  unfold readAddressAt Statement.readTile
  cases hkind : first.kind with
  | integer =>
    have hone : 1 ≤ (first :: rest).length := Nat.le_add_left 1 _
    dsimp only
    cases readAddress first with
    | error error => rfl
    | ok n => exact closeTile_eq (.direct n) hone rfl
  | leftBracket =>
    cases rest with
    | nil =>
      rw [readIndirect_of_not (by simp)]
      rfl
    | cons inner rest =>
      cases rest with
      | nil =>
        rw [readIndirect_of_not (by simp)]
        rfl
      | cons closing more =>
        have hthree : 3 ≤ (first :: inner :: closing :: more).length := Nat.le_add_left 3 _
        dsimp only
        by_cases hinside : inner.kind = .integer ∧ closing.kind = .rightBracket
        · rw [readIndirect_of_brackets hkind hinside, if_pos hinside]
          cases readAddress inner with
          | error error => rfl
          | ok n => exact closeTile_eq (.indirect n) hthree rfl
        · rw [readIndirect_of_not, if_neg hinside]
          · rfl
          · intro inner' closing' more' hrest hall
            cases hrest
            exact hinside hall.2
  | rightBracket =>
    rw [readIndirect_of_not]
    · rfl
    · intro inner closing more _ hall
      rw [hkind] at hall
      exact absurd hall.1 (by decide)
  | word | labelDef | comment | blank => rfl

theorem readOperand_eq (opcode : Opcode) (mnemonic : Token) (args : List Token) :
    readOperand opcode mnemonic args =
      of (Argument.operand <$> Statement.readArgument opcode mnemonic args) := by
  unfold readOperand Statement.readArgument
  cases opcode.operandKind with
  | nothing => cases args <;> rfl
  | tile =>
    cases args with
    | nil => rfl
    | cons first rest => exact readTile_eq opcode first rest
  | label =>
    cases args with
    | nil => rfl
    | cons first rest =>
      unfold Statement.readLabel
      have hone : 1 ≤ (first :: rest).length := Nat.le_add_left 1 _
      dsimp only [List.head?_cons]
      rw [itemsFrom_of_le hone]
      cases first.kind with
      | word | integer => cases rest <;> rfl
      | _ => rfl

/-! ### Lines, both ways -/

def collected (op : Operation) : Instruction :=
  ⟨op.opcode, op.argument.operand⟩

def pending? : Operation × Nat → Option Pending
  | (op, index) =>
    match op.argument with
    | .label _ span => some ⟨index, op.line, span⟩
    | _ => none

def Table.ofDraft (d : Draft) : Table where
  instructions := d.operations.map collected
  lines := d.operations.map Operation.line
  labels := d.labels
  pending := d.operations.toList.zipIdx.filterMap pending?

theorem ofDraft_push (d : Draft) (op : Operation) :
    Table.ofDraft { d with operations := d.operations.push op } =
      { Table.ofDraft d with
        instructions := (Table.ofDraft d).instructions.push (collected op)
        lines := (Table.ofDraft d).lines.push op.line
        pending := (Table.ofDraft d).pending ++
          (pending? (op, d.operations.size)).toList } := by
  simp only [Table.ofDraft, Array.map_push, Array.toList_push, List.zipIdx_append,
    List.filterMap_append, Array.length_toList, Nat.zero_add, List.zipIdx_singleton,
    List.filterMap_cons, List.filterMap_nil]
  cases pending? (op, d.operations.size) <;> rfl

theorem await_eq (d : Draft) {opcode : Opcode} {mnemonic : Token} {args : List Token}
    {argument : Argument} (line : Nat)
    (h : Statement.readArgument opcode mnemonic args = .ok argument) :
    (Table.ofDraft d).await argument.operand line args = of (.ok ((Table.ofDraft d).pending ++
      (pending? (⟨opcode, argument, line⟩, d.operations.size)).toList)) := by
  have hargues := Statement.argues_of_readArgument h
  have hsize : (Table.ofDraft d).instructions.size = d.operations.size := Array.size_map
  generalize opcode.operandKind = kind at hargues
  cases hargues with
  | nothing | direct | indirect =>
    simp only [Table.await, Argument.operand, pending?, Option.toList_none,
      List.append_nil]
    rfl
  | label =>
    simp only [Table.await, Argument.operand, pending?, Option.toList_some, hsize]
    rfl

theorem operate_eq (d : Draft) (first : Token) (args : List Token) :
    (Table.ofDraft d).operate first args =
      of (Table.ofDraft <$> (do d.add (← Statement.readOperation first args))) := by
  unfold Table.operate Statement.readOperation
  cases Opcode.ofMnemonic? first.text with
  | none => rfl
  | some opcode =>
    dsimp only
    rw [readOperand_eq]
    cases hargument : Statement.readArgument opcode first args with
    | error error => rfl
    | ok argument =>
      have hpush := ofDraft_push d ⟨opcode, argument, first.line⟩
      have hawait := await_eq d first.line hargument
      change ((Table.ofDraft d).await argument.operand first.line args >>= fun pending => _) =
        of (.ok (Table.ofDraft { d with operations := d.operations.push _ }))
      rw [hawait, hpush]
      rfl

theorem declare_eq (d : Draft) (first : Token) (args : List Token) :
    (Table.ofDraft d).declare first args =
      of (Table.ofDraft <$> (do d.add (← Statement.readDeclaration first args))) := by
  have hsize : (Table.ofDraft d).instructions.size = d.operations.size := Array.size_map
  unfold Table.declare Statement.readDeclaration
  dsimp only
  generalize first.labelName?.getD "" = name
  by_cases hname : isLabelName name.toList
  · rw [if_pos hname, if_pos hname, hsize]
    cases args with
    | nil =>
      change (if name ∈ d.labels then _ else _) =
        of (Table.ofDraft <$> (if name ∈ d.labels then _ else _))
      split <;> rfl
    | cons extra rest => rfl
  · rw [if_neg hname, if_neg hname]
    rfl

theorem addLine_eq (d : Draft) (tokens : List Token) :
    (Table.ofDraft d).addLine tokens = of (Table.ofDraft <$> d.addLine tokens) := by
  unfold Table.addLine Draft.addLine Statement.ofTokens
  cases tokens.filter Token.isSignificant with
  | nil => rfl
  | cons first args =>
    dsimp only
    cases first.kind with
    | labelDef =>
      dsimp only
      rw [declare_eq]
      cases Statement.readDeclaration first args <;> rfl
    | word =>
      dsimp only
      rw [operate_eq]
      cases Statement.readOperation first args <;> rfl
    | _ => rfl

theorem foldlM_addLine_eq (d : Draft) (groups : List (List Token)) :
    groups.foldlM Table.addLine (Table.ofDraft d) =
      of (Table.ofDraft <$> groups.foldlM Draft.addLine d) := by
  induction groups generalizing d with
  | nil => rfl
  | cons group groups ih =>
    rw [List.foldlM_cons, List.foldlM_cons, addLine_eq]
    cases d.addLine group with
    | error error => rfl
    | ok next => exact ih next

/-! ### The second pass -/

theorem getElem?_middle {α : Type} (front back : List α) (x : α) :
    (front ++ x :: back).toArray[front.length]? = some x := by
  simp

theorem patch_eq (labels : Labels) (done rest : List Instruction) (op : Operation) {jump : Pending}
    (hjump : pending? (op, done.length) = some jump) :
    patch labels (done ++ collected op :: rest).toArray jump =
      of ((fun i => (done ++ i :: rest).toArray) <$> op.resolve labels) := by
  cases op with
  | mk opcode argument line =>
    cases argument with
    | nothing | tile => contradiction
    | label name span =>
      cases hjump
      have hfound :
          (done ++ collected ⟨opcode, .label name span, line⟩ :: rest).toArray[done.length]? =
            some ⟨opcode, .label name 0⟩ := getElem?_middle done rest _
      unfold patch Operation.resolve
      dsimp only
      rw [hfound, found_some_bind]
      dsimp only
      cases labels[name]? with
      | none => rfl
      | some target => simp [pure_eq_of, Functor.map, Except.map]

/-- Coming back to the jumps in order resolves the operations in order. -/
theorem foldlM_patch_eq (labels : Labels) (ops : List Operation) (done : List Instruction) :
    ((ops.zipIdx done.length).filterMap pending?).foldlM (patch labels)
        (done ++ ops.map collected).toArray =
      of ((fun rest => (done ++ rest).toArray) <$> ops.mapM (Operation.resolve labels)) := by
  induction ops generalizing done with
  | nil => rfl
  | cons op ops ih =>
    have hdone (i : Instruction) : done ++ i :: ops.map collected =
        (done ++ [i]) ++ ops.map collected := by simp
    have hlength (i : Instruction) : done.length + 1 = (done ++ [i]).length := by simp
    rw [List.zipIdx_cons, List.mapM_cons, List.map_cons, List.filterMap_cons]
    cases hpending : pending? (op, done.length) with
    | none =>
      -- The operation does not jump, so what was collected is the instruction itself.
      have hresolve : op.resolve labels = .ok (collected op) := by
        cases op with
        | mk opcode argument line =>
          cases argument with
          | nothing | tile => rfl
          | label => contradiction
      dsimp only
      rw [hdone, hlength, ih, hresolve]
      cases ops.mapM (Operation.resolve labels) with
      | error error => rfl
      | ok rest => simp [Functor.map, Except.map, bind, Except.bind, pure, Except.pure]
    | some jump =>
      dsimp only
      rw [List.foldlM_cons, patch_eq labels done _ op hpending]
      cases op.resolve labels with
      | error error => rfl
      | ok i =>
        change ((ops.zipIdx (done.length + 1)).filterMap pending?).foldlM (patch labels)
          (done ++ i :: ops.map collected).toArray = _
        rw [hdone, hlength i, ih]
        cases ops.mapM (Operation.resolve labels) with
        | error error => rfl
        | ok rest => simp [Functor.map, Except.map, bind, Except.bind, pure, Except.pure]

theorem finish_eq (d : Draft) :
    (do
      let instructions ←
        (Table.ofDraft d).pending.foldlM (patch d.labels) (Table.ofDraft d).instructions
      return ⟨instructions, d.labels, (Table.ofDraft d).lines⟩ : Reading Program) =
      of d.finish := by
  have hcollected :
      (Table.ofDraft d).instructions = (d.operations.toList.map collected).toArray := by
    rw [← Array.toList_map, Array.toArray_toList]
    rfl
  have hpatch : (Table.ofDraft d).pending.foldlM (patch d.labels)
      (d.operations.toList.map collected).toArray =
      of (List.toArray <$> d.operations.toList.mapM (Operation.resolve d.labels)) :=
    foldlM_patch_eq d.labels d.operations.toList []
  unfold Draft.finish
  rw [hcollected, hpatch, ← Array.mapM_eq_mapM_toList]
  cases d.operations.mapM (Operation.resolve d.labels) <;> rfl

theorem program_eq (tokens : List Token) : program tokens = of (Program.ofTokens tokens) := by
  have hstart : ({} : Table) = Table.ofDraft {} := by simp [Table.ofDraft]
  unfold program Program.ofTokens Draft.ofTokens
  rw [hstart, foldlM_addLine_eq]
  cases (tokens.splitBy (·.line == ·.line)).foldlM Draft.addLine {} with
  | error error => rfl
  | ok d => exact finish_eq d

end Indexed
end TileMachine
