import QtRvSim.Assembler.Tokens
import QtRvSim.Memory.Frontend

/-!
# The assembler

Lines written to memory as they are read and the resolution of relocations at the end
(`assembler/simpleasm.cpp`).  The assembler writes to the memory bus, below translation and caches.
Of a line the part after the split into label, operation and operands is modelled, without
`#pragma` and `#include`.
-/

namespace QtRvSim

open ByteMemory Numeral

structure AsmMessage where
  filename : Text
  line : Nat
  text : Text
deriving DecidableEq, Repr

/-- State of the assembler.  Of the errors reported it keeps all, the last one first. -/
structure SimpleAsm where
  mem : FlatMemory
  symtab : FmeSymbolDb
  address : Address
  reloc : List RelocExpression
  errorOccured : Bool
  fatalOccured : Bool
  messages : List AsmMessage

namespace SimpleAsm

variable (endian : Endian)

def setSymbol (name : Text) (value : FmeValue) (a : SimpleAsm) : SimpleAsm :=
  { a with symtab := fun other => if other = name then some value else a.symtab other }

def setup (mem : FlatMemory) (symtab : FmeSymbolDb) (address : Address) (xlen : Xlen) :
    SimpleAsm :=
  setSymbol "XLEN".toList (BitVec.ofNat 64 xlen.bits)
    { mem := mem
      symtab := symtab
      address := address
      reloc := []
      errorOccured := false
      fatalOccured := false
      messages := [] }

def report (filename : Text) (line : Nat) (text : Text) (a : SimpleAsm) : SimpleAsm :=
  { a with errorOccured := true, messages := ⟨filename, line, text⟩ :: a.messages }

def writeMem (address : Address) (bytes : List Byte) (a : SimpleAsm) : SimpleAsm :=
  if a.fatalOccured then a else { a with mem := a.mem.writeBytes address bytes }

def writeU32 (address : Address) (word : BitVec 32) (a : SimpleAsm) : SimpleAsm :=
  a.writeMem address (bytesOfValue endian 4 word.toNat)

/-- Fills up with zeros to the next word; `fuel` bytes at most are needed. -/
def alignFor : Nat → SimpleAsm → SimpleAsm
  | 0, a => a
  | fuel + 1, a =>
    if a.address &&& 3 = 0 then a
    else alignFor fuel { a.writeMem a.address [0] with address := a.address + 1 }

def align (a : SimpleAsm) : SimpleAsm :=
  alignFor 3 a

def emitWords : List Instruction → SimpleAsm → SimpleAsm
  | [], a => a
  | word :: words, a =>
    emitWords words { a.writeU32 endian a.address word with address := a.address + 4 }

def tokens (op : Text) (operands : List Text) (filename : Text) (lineNumber : Nat)
    (a : SimpleAsm) : TokenizedInstruction :=
  { base := op
    fields := operands
    address := a.address
    filename := filename
    line := lineNumber }

/-- An instruction line; the result tells whether it was accepted. -/
def processInstruction (op : Text) (operands : List Text) (filename : Text) (lineNumber : Nat)
    (a : SimpleAsm) : Bool × SimpleAsm :=
  let a := a.align
  match codeFromTokens 8 (a.tokens op operands filename lineNumber) (some a.reloc) true with
  | (.error e, reloc) =>
    (false, report filename lineNumber e.message { a with reloc := reloc.getD [] })
  | (.ok words, reloc) => (true, emitWords endian words { a with reloc := reloc.getD [] })

/-! ### Lines -/

structure SourceLine where
  line : Text
  filename : Text
  lineNumber : Nat

def fail (src : SourceLine) (text : Text) (a : SimpleAsm) : Bool × SimpleAsm :=
  (false, a.report src.filename src.lineNumber text)

def emitBytes : List Byte → SimpleAsm → SimpleAsm
  | [], a => a
  | byte :: bytes, a =>
    emitBytes bytes { a.writeMem a.address [byte] with address := a.address + 1 }

/-- White space at the ends is dropped, and every run of it inside becomes a blank. -/
def simplified (text : Text) : Text :=
  [' '].intercalate ((text.splitOnP isSpace).filter (!·.isEmpty))

/-- The value of an operand at once.  An error is fatal; the result is missing if the evaluation
traps. -/
def directiveValue (directive : String) (src : SourceLine) (operand : Text) (a : SimpleAsm) :
    Option (Except (Bool × SimpleAsm) FmeValue) :=
  let fatal (kind : String) :=
    fail src (directive.toList ++ ' ' :: src.line ++ kind.toList) { a with fatalOccured := true }
  match FmeNode.parse operand with
  | .error _ => some (.error (fatal " parse error."))
  | .ok root =>
    match root.eval a.symtab a.address with
    | .error .trapped => none
    | .error (.reported _) => some (.error (fatal " evaluation error."))
    | .ok value => some (.ok value)

def processOrg (src : SourceLine) (operands : List Text) (a : SimpleAsm) :
    Option (Bool × SimpleAsm) :=
  match operands with
  | [operand] =>
    (a.directiveValue ".orig" src operand).map fun
      | .error failed => failed
      | .ok value => (true, { a with address := value })
  | _ => some (a.fail src ".org unexpected number of operands".toList)

/-- The second operand of `.space` is evaluated first. -/
def processSpace (src : SourceLine) (operands : List Text) (a : SimpleAsm) :
    Option (Bool × SimpleAsm) :=
  let space (count : Text) (fill : FmeValue) :=
    (a.directiveValue ".space/.skip" src count).map fun
      | .error failed => failed
      | .ok value => (true, a.emitBytes (List.replicate value.toInt.toNat (fill.setWidth 8)))
  match operands with
  | [count] => space count 0
  | [count, fill] =>
    (a.directiveValue ".space/.skip" src fill).bind fun
      | .error failed => some failed
      | .ok value => space count value
  | _ => some (a.fail src ".space/.skip unexpected number of operands".toList)

def processEqu (src : SourceLine) (operands : List Text) (a : SimpleAsm) :
    Option (Bool × SimpleAsm) :=
  let ignored (name : Text) : Bool := trimmed name ∈ ["noat".toList, "noreored".toList]
  match operands with
  | [name] => some (true, if ignored name then a else a.setSymbol (trimmed name) 1)
  | [name, operand] =>
    let failed := a.fail src (".set or .equ ".toList ++ operand ++ " parse error.".toList)
    if ignored name then some (true, a)
    else
      match FmeNode.parse operand with
      | .error _ => some failed
      | .ok root =>
        match root.eval a.symtab a.address with
        | .error .trapped => none
        | .error (.reported _) => some failed
        | .ok value => some (true, a.setSymbol (trimmed name) value)
  | _ => some (a.fail src ".set or .equ incorrect arguments number.".toList)

def asciiBytes : Text → List Byte × Option Text
  | [] => ([], none)
  | ['\\'] => ([], some "ascii - invalid escape sequence at the end of the string".toList)
  | '\\' :: c :: rest =>
    match [('0', 0x00#8), ('b', 0x08#8), ('t', 0x09#8), ('n', 0x0a#8), ('r', 0x0d#8),
        ('"', 0x22#8), ('\\', 0x5c#8)].lookup c with
    | some byte => (byte :: (asciiBytes rest).1, (asciiBytes rest).2)
    | none => ([], some ("ascii - incorrect escape sequence '\\".toList ++ c :: "'".toList))
  | c :: rest =>
    ((if c.toNat < 256 then BitVec.ofNat 8 c.toNat else 0) :: (asciiBytes rest).1,
      (asciiBytes rest).2)

def processAscii (src : SourceLine) (appendZero : Bool) : List Text → SimpleAsm → Bool × SimpleAsm
  | [], a => (true, a)
  | s :: operands, a =>
    if s.length < 2 then a.fail src "ascii empty string".toList
    else if s.head? ≠ some '"' ∨ s.getLast? ≠ some '"' then
      a.fail src "ascii missing quotes".toList
    else
      match asciiBytes (s.tail.dropLast) with
      | (bytes, some error) => (a.emitBytes bytes).fail src error
      | (bytes, none) =>
        processAscii src appendZero operands
          (a.emitBytes (bytes ++ if appendZero then [0] else []))

def processByte (src : SourceLine) : List Text → SimpleAsm → Option (Bool × SimpleAsm)
  | [], a => some (true, a)
  | s :: operands, a =>
    let (val, charsTaken) := strtoll s
    if charsTaken = s.length then processByte src operands (a.emitBytes [val.setWidth 8])
    else
      (a.directiveValue ".byte" src s).bind fun
        | .error failed => some failed
        | .ok value => processByte src operands (a.emitBytes [value.setWidth 8])

def wordArg : BitArg := ⟨[⟨32, 0⟩], 0⟩

/-- The relocation of an operand of `.word`.  Its lower bound is written `-0xffffffff`, which is an
unsigned number. -/
def wordReloc (src : SourceLine) (s : Text) (address : Address) : RelocExpression where
  location := address
  expression := s
  offset := 0
  min := (-0xffffffff#32).toNat
  max := 0xffffffff
  arg := wordArg
  filename := src.filename
  line := src.lineNumber
  pseudoMod := .none

def processWord (src : SourceLine) : List Text → SimpleAsm → SimpleAsm
  | [], a => a
  | s :: operands, a =>
    let s := simplified s
    let (val, charsTaken) := strtoll s
    let written :=
      if charsTaken = s.length then a.writeU32 endian a.address (val.setWidth 32)
      else { a with reloc := a.reloc ++ [wordReloc src s a.address] }.writeU32 endian a.address 0
    processWord src operands { written with address := a.address + 4 }

/-- A line; the result tells whether it was accepted, and is missing if an evaluation traps. -/
def processLine (label op : Text) (operands : List Text) (src : SourceLine) (a : SimpleAsm) :
    Option (Bool × SimpleAsm) :=
  let a := if label = [] then a else a.setSymbol label a.address
  if op = [] then
    some (if operands = [] then (true, a) else a.fail src "operands for empty operation".toList)
  else if op ∈ [".text", ".data", ".bss", ".globl", ".end", ".ent", ".option"].map
      String.toList then
    some (true, a)
  else if op = ".org".toList then a.processOrg src operands
  else if op = ".space".toList ∨ op = ".skip".toList then a.processSpace src operands
  else if op = ".equ".toList ∨ op = ".set".toList then a.processEqu src operands
  else if op = ".ascii".toList then some (processAscii src false operands a)
  else if op = ".asciz".toList then some (processAscii src true operands a)
  else if op = ".byte".toList then processByte src operands a
  else if op = ".word".toList then some (true, processWord endian src operands a.align)
  else some (a.processInstruction endian op operands src.filename src.lineNumber)

/-! ### The end of the assembly -/

def lineText (line : Nat) : Text :=
  (toString line).toList

def dumpExpression (root : FmeNode) : Text :=
  '(' :: root.dump ++ [')']

/-- Evaluates a relocation and fills in its operand.  A word whose value is rejected is written back
without the operand.  The result is missing if the evaluation traps. -/
def resolve (r : RelocExpression) (a : SimpleAsm) : Option SimpleAsm :=
  match FmeNode.parse r.expression with
  | .error (error, root) =>
    some (report r.filename r.line
      ("expression parse error ".toList ++ error ++ " at line ".toList ++ lineText r.line ++
        ", expression ".toList ++ dumpExpression root ++ ".".toList) a)
  | .ok root =>
    match root.eval a.symtab r.location with
    | .error .trapped => none
    | .error (.reported error) =>
      some (report r.filename r.line
        ("expression evalution error ".toList ++ error ++ " at line ".toList ++
          lineText r.line ++ " , expression ".toList ++ dumpExpression root ++ ".".toList) a)
    | .ok value =>
      let (accepted, inst) :=
        Instruction.update (a.mem.readU32 endian r.location) value r
      let a :=
        if accepted then a
        else
          report r.filename r.line
            ("instruction update error  at line ".toList ++ lineText r.line ++
              ", expression ".toList ++ dumpExpression root ++ " -> value ".toList ++
              FmeNode.number value.toInt ++ ".".toList) a
      some (a.writeU32 endian r.location inst)

def resolveAll : List RelocExpression → SimpleAsm → Option SimpleAsm
  | [], a => some a
  | r :: rs, a => (a.resolve endian r).bind (resolveAll rs)

/-- Ends the assembly; the result tells whether no error occurred. -/
def finish (a : SimpleAsm) : Option (Bool × SimpleAsm) :=
  (resolveAll endian a.reloc a).map fun a => (!a.errorOccured, { a with reloc := [] })

end SimpleAsm

end QtRvSim
