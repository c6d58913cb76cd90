import QtRvSim.Assembler.Fixmatheval
import QtRvSim.Csr.ControlState

/-!
# Operand texts

How the assembler reads the text of an operand against its template (`parse_field` of
`instruction.cpp`): registers, CSR numbers, literal numbers and expressions, which are left behind
as relocations.  What has been appended to the relocations stays there if the text is rejected.
-/

namespace QtRvSim

open Numeral

structure ParseError where
  message : Text
deriving DecidableEq, Repr

abbrev RelocExpressionList := Option (List RelocExpression)

def trimmed (text : Text) : Text :=
  ((text.dropWhile isSpace).reverse.dropWhile isSpace).reverse

/-! ### Registers -/

def rvRegnames : List String := [
  "zero", "ra", "sp", "gp", "tp", "t0", "t1", "t2", "s0", "s1", "a0",
  "a1", "a2", "a3", "a4", "a5", "a6", "a7", "s2", "s3", "s4", "s5",
  "s6", "s7", "s8", "s9", "s10", "s11", "t3", "t4", "t5", "t6"]

def regNumber (digits : Text) : BitVec 32 :=
  digits.foldl (fun res c => res * 10 + BitVec.ofNat 32 (c.toNat - '0'.toNat)) 0

/-- Last of the register names that the text starts with, and its length. -/
def regByName (str : Text) : BitVec 32 × Nat :=
  rvRegnames.zipIdx.foldl
    (fun found reg =>
      if reg.1.toList.isPrefixOf str then (BitVec.ofNat 32 reg.2, reg.1.length) else found)
    (-1, 0)

/-- The register at the start of a text and the number of characters taken, zero for none. -/
def parseRegFromString (str : Text) : BitVec 32 × Nat :=
  if str.length < 2 then (-1, 0)
  else
    match str with
    | 'x' :: rest =>
      let digits := rest.takeWhile Char.isDigit
      (regNumber digits, 1 + digits.length)
    | _ => regByName str

def Csr.Id.name : Csr.Id → String
  | .cycle => "cycle"
  | .time => "time"
  -- the name ends with a blank in the table
  | .stimecmp => "stimecmp "
  | .mvendorid => "mvendorid"
  | .marchid => "marchid"
  | .mimpid => "mimpid"
  | .mhartid => "mhardid"
  | .mstatus => "mstatus"
  | .misa => "misa"
  | .medeleg => "medeleg"
  | .mideleg => "mideleg"
  | .mie => "mie"
  | .mtvec => "mtvec"
  | .mcountern => "mcounteren"
  | .mscratch => "mscratch"
  | .mepc => "mepc"
  | .mcause => "mcause"
  | .mtval => "mtval"
  | .mip => "mip"
  | .mtinst => "mtinst"
  | .mtval2 => "mtval2"
  | .menvcfg => "menvcfg"
  | .menvcfgh => "menvcfgh"
  | .pmpcfg0 => "pmpcfg0"
  | .pmpaddr0 => "pmpaddr0"
  | .mcycle => "mcycle"
  | .minstret => "minstret"
  | .sstatus => "sstatus"
  | .sie => "sie"
  | .stvec => "stvec"
  | .sscratch => "sscratch"
  | .sepc => "sepc"
  | .scause => "scause"
  | .stval => "stval"
  | .sip => "sip"
  | .satp => "satp"

/-- The CSR at the start of a text and the number of characters taken.  A name has to be the whole
text; a number is truncated to 16 bits. -/
def parseCsrAddress (fieldToken : Text) : BitVec 16 × Nat :=
  if fieldToken.head?.any Char.isAlpha then
    match Csr.Id.all.find? (fun id => id.name.toList == fieldToken) with
    | some id => ((Csr.registers id).address.setWidth 16, id.name.length)
    | none => (0, 0)
  else
    let (val, charsTaken) := strtoull fieldToken
    (val.setWidth 16, charsTaken)

/-! ### Expressions -/

def relocOperators : Text := "+-/*|&^~".toList

def relocSpecialChars : Text := "()%_".toList

/-- Reads characters of an expression; a bracket starts the next operand, unless it follows an
operator or a modifier. -/
def readRelocChars : Text → (prevWasOperator isModifier : Bool) → Text × Nat
  | [], _, _ => ([], 0)
  | ch :: rest, prevWasOperator, isModifier =>
    let isOperator := relocOperators.contains ch
    let opens := ch == '(' && !prevWasOperator
    if opens && !isModifier then ([], 0)
    else
      let isModifier := isModifier && !opens
      if ch.isAlphanum || isOperator || relocSpecialChars.contains ch then
        let (expression, charsTaken) := readRelocChars rest isOperator (isModifier || ch == '%')
        (ch :: expression, charsTaken + 1)
      else if isSpace ch then
        let (expression, charsTaken) := readRelocChars rest isOperator isModifier
        (expression, charsTaken + 1)
      else ([], 0)

def readRelocExpression (input : Text) : Text × Nat :=
  readRelocChars input false false

structure FieldContext where
  instAddr : Address
  filename : Text
  line : Nat
  pseudoMod : Modifier
  initialImmediateValue : BitVec 64

/-- Only immediate operands are modified. -/
def FieldContext.effectiveMod (ctx : FieldContext) (adesc : ArgumentDesc) : Modifier :=
  if adesc.isImm then ctx.pseudoMod else .none

def FieldContext.reloc (ctx : FieldContext) (adesc : ArgumentDesc) (expression : Text)
    (offset : BitVec 64) : RelocExpression :=
  { location := ctx.instAddr
    expression := expression
    offset := offset
    min := adesc.min
    max := adesc.max
    arg := adesc.arg
    filename := ctx.filename
    line := ctx.line
    pseudoMod := ctx.effectiveMod adesc }

/-- Appends a relocation for the expression at the start of a text, if there is one. -/
def relocAppend (ctx : FieldContext) (adesc : ArgumentDesc) (fl : Text) (offset : BitVec 64)
    (reloc : List RelocExpression) : List RelocExpression × Nat :=
  let (expression, charsTaken) := readRelocExpression fl
  if expression = [] then (reloc, charsTaken)
  else (reloc ++ [ctx.reloc adesc expression offset], charsTaken)

/-! ### Operands -/

structure OperandRead where
  val : BitVec 64
  charsTaken : Nat
deriving DecidableEq, Repr

/-- A literal number is read only if no operator follows it. -/
def continuesExpression (rest : Text) : Bool :=
  rest.head?.any ("+-/*|&^~%".toList.contains ·)

/-- Reads an expression as a relocation; without a list of relocations it is left unread. -/
def parseExpression (ctx : FieldContext) (adesc : ArgumentDesc) (fieldToken : Text)
    (unread : OperandRead) : RelocExpressionList → OperandRead × RelocExpressionList
  | none => (unread, none)
  | some reloc =>
    let (reloc, charsTaken) := relocAppend ctx adesc fieldToken unread.val reloc
    (⟨0, charsTaken⟩, some reloc)

def parseImmediateValue (ctx : FieldContext) (adesc : ArgumentDesc) (fieldToken : Text)
    (val : BitVec 64) (reloc : RelocExpressionList) : OperandRead × RelocExpressionList :=
  if fieldToken.head?.any (fun c => c.isDigit || c == '-') || reloc.isNone then
    let (numVal, len) := if adesc.min < 0 then strtoll fieldToken else strtoull fieldToken
    let blanks := (fieldToken.drop len).takeWhile isSpace
    let charsTaken := len + blanks.length
    if continuesExpression (fieldToken.drop charsTaken) then
      parseExpression ctx adesc fieldToken ⟨val, charsTaken⟩ reloc
    else (⟨val + numVal, charsTaken⟩, reloc)
  else parseExpression ctx adesc fieldToken ⟨val, 0⟩ reloc

/-- Reads an operand by its kind.  Targets are relative to the instruction. -/
def readOperand (ctx : FieldContext) (adesc : ArgumentDesc) (fieldToken : Text)
    (reloc : RelocExpressionList) : OperandRead × RelocExpressionList :=
  match adesc.kind with
  | .g =>
    let (reg, charsTaken) := parseRegFromString fieldToken
    (⟨reg.signExtend 64, charsTaken⟩, reloc)
  | .p | .a =>
    parseImmediateValue ctx adesc fieldToken (ctx.initialImmediateValue - ctx.instAddr) reloc
  | .o | .n => parseImmediateValue ctx adesc fieldToken ctx.initialImmediateValue reloc
  | .e =>
    let (address, charsTaken) := parseCsrAddress fieldToken
    (⟨address.setWidth 64, charsTaken⟩, reloc)

namespace ParseError

def emptyArgument : ParseError := ⟨"empty argument encountered".toList⟩

def templateMismatch : ParseError := ⟨"argument does not match instruction template".toList⟩

def invalidImmediate (fieldToken : Text) : ParseError :=
  ⟨"field_token ".toList ++ fieldToken ++ " is not a valid immediate value".toList⟩

def argumentParse : ParseError := ⟨"argument parse error".toList⟩

def rangeExceed : ParseError := ⟨"argument range exceed".toList⟩

def excessiveCharacters : ParseError := ⟨"excessive characters in argument".toList⟩

def argumentCount : ParseError := ⟨"number of arguments does not match".toList⟩

def nopArguments : ParseError := ⟨"`nop` does not allow any arguments".toList⟩

def insufficientBuffer : ParseError :=
  ⟨"insufficient buffer size to write parsed instruction".toList⟩

def unknownInstruction : ParseError := ⟨"unknown instruction".toList⟩

def emptyInstruction : ParseError := ⟨"empty instruction field".toList⟩

end ParseError

def unreadError (adesc : ArgumentDesc) (fieldToken : Text) : ParseError :=
  match adesc.kind with
  | .g | .e => .argumentParse
  | .p | .a | .o | .n => .invalidImmediate fieldToken

/-- Checks and encodes an operand; returns its bits and the rest of the text. -/
def parseOperand (ctx : FieldContext) (adesc : ArgumentDesc) (fieldToken : Text)
    (reloc : RelocExpressionList) :
    Except ParseError (BitVec 32 × Text) × RelocExpressionList :=
  let (operand, reloc) := readOperand ctx adesc fieldToken reloc
  let rest := fieldToken.drop operand.charsTaken
  if operand.charsTaken = 0 then (.error (unreadError adesc fieldToken), reloc)
  else if ctx.effectiveMod adesc ≠ .none then
    let val := modifyPseudoinstImm (ctx.effectiveMod adesc) operand.val
    (.ok (adesc.arg.encode (val.setWidth 32), rest), reloc)
  else if adesc.isValueInFieldRange operand.val then
    (.ok (adesc.arg.encode (operand.val.setWidth 32), rest), reloc)
  else (.error .rangeExceed, reloc)

/-- Reads a text against the rest of its template; `instCode` has the bits read so far. -/
def parseTemplate (ctx : FieldContext) :
    Text → Text → BitVec 32 → RelocExpressionList →
      Except ParseError (BitVec 32) × RelocExpressionList
  | [], fieldToken, instCode, reloc =>
    if trimmed fieldToken = [] then (.ok instCode, reloc)
    else (.error .excessiveCharacters, reloc)
  | ao :: arg, fieldToken, instCode, reloc =>
    match argDescByCode ao with
    | none =>
      match trimmed fieldToken with
      | [] => (.error .emptyArgument, reloc)
      | c :: rest =>
        if c ≠ ao then (.error .templateMismatch, reloc)
        else parseTemplate ctx arg rest instCode reloc
    | some adesc =>
      match parseOperand ctx adesc (trimmed fieldToken) reloc with
      | (.error e, reloc) => (.error e, reloc)
      | (.ok (bits, rest), reloc) => parseTemplate ctx arg rest (instCode ||| bits) reloc

def parseField (ctx : FieldContext) (fieldToken : Text) (arg : String)
    (reloc : RelocExpressionList) : Except ParseError (BitVec 32) × RelocExpressionList :=
  parseTemplate ctx arg.toList fieldToken 0 reloc

end QtRvSim
