import QtRvSim.Assembler.Arguments
import QtRvSim.Library.Numerals

/-!
# Expressions of relocations

The parser of expressions and their evaluation (`assembler/fixmatheval.cpp`).  The parser keeps the
tree of what it has read.  A new operator is put in place of the first node on the way from the root
along the last operands that binds at least as tightly; a word goes to the end of that way.
-/

namespace QtRvSim

open Numeral

/-- Values of expressions, signed numbers of 64 bits with wrap-around. -/
abbrev FmeValue := BitVec 64

inductive FmeUnaryOp where
  | hi | lo | pcrelHi | pcrelLo | not | neg
deriving DecidableEq, Repr

namespace FmeUnaryOp

def apply (op : FmeUnaryOp) (a : FmeValue) (instAddr : Address) : FmeValue :=
  match op with
  | .hi => getBits (a + 0x800) 31 12
  | .lo => signExtendBits (getBits a 11 0) 12
  | .pcrelHi => getBits (a - instAddr) 31 12 + getBit (a - instAddr) 11
  | .pcrelLo => signExtendBits (getBits (a - instAddr + 4) 11 0) 12
  | .not => ~~~a
  | .neg => -a

def description : FmeUnaryOp → Text
  | .hi => "%hi".toList
  | .lo => "%lo".toList
  | .pcrelHi => "%pcrel_hi".toList
  | .pcrelLo => "%pcrel_lo".toList
  | .not => "~".toList
  | .neg => "-".toList

end FmeUnaryOp

inductive FmeBinaryOp where
  | sub | add | mul | div | or | and | xor
deriving DecidableEq, Repr

namespace FmeBinaryOp

/-- Value of an operator; a division without a quotient of 64 bits is undefined and traps. -/
def apply (op : FmeBinaryOp) (a b : FmeValue) : Option FmeValue :=
  match op with
  | .sub => some (a - b)
  | .add => some (a + b)
  | .mul => some (a * b)
  | .div => if b = 0 ∨ a = BitVec.intMin 64 ∧ b = -1 then none else some (a.sdiv b)
  | .or => some (a ||| b)
  | .and => some (a &&& b)
  | .xor => some (a ^^^ b)

def description : FmeBinaryOp → Text
  | .sub => "-".toList
  | .add => "+".toList
  | .mul => "*".toList
  | .div => "/".toList
  | .or => "|".toList
  | .and => "&".toList
  | .xor => "^".toList

end FmeBinaryOp

/-- Nodes of an expression tree; `null` is an operand that is not there yet. -/
inductive FmeNode where
  | null
  | constant (value : FmeValue)
  | symbol (name : Text)
  | unaryOp (priority : Int) (op : FmeUnaryOp) (operandA : FmeNode)
  | binaryOp (priority : Int) (op : FmeBinaryOp) (operandA operandB : FmeNode)
deriving DecidableEq, Repr

abbrev FmeSymbolDb := Text → Option FmeValue

/-- How an evaluation fails: with an error text or by a trap of the host's processor. -/
inductive FmeFailure where
  | reported (error : Text)
  | trapped
deriving DecidableEq, Repr

namespace FmeNode

/-- Value of an expression; a missing operand is an error without a text. -/
def eval (symdb : FmeSymbolDb) (instAddr : Address) : FmeNode → Except FmeFailure FmeValue
  | .null => .error (.reported [])
  | .constant value => .ok value
  | .symbol name =>
    match symdb name with
    | some value => .ok value
    | none =>
      .error (.reported ("value for symbol \"".toList ++ name ++ "\" not found".toList))
  | .unaryOp _ op a =>
    match eval symdb instAddr a with
    | .ok value => .ok (op.apply value instAddr)
    | .error e => .error e
  | .binaryOp _ op a b =>
    match eval symdb instAddr a with
    | .error e => .error e
    | .ok valueA =>
      match eval symdb instAddr b with
      | .error e => .error e
      | .ok valueB =>
        match op.apply valueA valueB with
        | some value => .ok value
        | none => .error .trapped

def number (value : Int) : Text :=
  (toString value).toList

def dump : FmeNode → Text
  | .null => "nullptr".toList
  | .constant value => number value.toInt
  | .symbol name => name
  | .unaryOp _ op a => '(' :: op.description ++ ' ' :: dump a ++ [')']
  | .binaryOp _ op a b => '(' :: dump a ++ ' ' :: op.description ++ ' ' :: dump b ++ [')']

/-- Puts a node at the end of the chain of last operands; constants and symbols take none. -/
def insertLast (new : FmeNode) : FmeNode → Option FmeNode
  | .null => some new
  | .constant _ => none
  | .symbol _ => none
  | .unaryOp prio op a => (insertLast new a).map (.unaryOp prio op)
  | .binaryOp prio op a b => (insertLast new b).map (.binaryOp prio op a)

/-- Puts an operator above the first node of the chain that binds at least as tightly. -/
def insertOperator (prio : Int) (make : FmeNode → FmeNode) : FmeNode → Option FmeNode
  | .null => some (make .null)
  -- the priority of these is `INT_MAX`
  | .constant value => some (make (.constant value))
  | .symbol name => some (make (.symbol name))
  | .unaryOp p op a =>
    if prio ≤ p then some (make (.unaryOp p op a))
    else (insertOperator prio make a).map (.unaryOp p op)
  | .binaryOp p op a b =>
    if prio ≤ p then some (make (.binaryOp p op a b))
    else (insertOperator prio make b).map (.binaryOp p op a)

end FmeNode

/-- Characters of words, `isLetterOrNumber` and the underscore. -/
def isWordChar (ch : Char) : Bool :=
  ch.isAlphanum || ch == '_'

abbrev FmeError := Text × FmeNode

/-- State of the expression parser.  The word under way is empty between words. -/
structure FmeParser where
  root : FmeNode := .null
  basePrio : Int := 100
  word : Text := []
  isUnary : Bool := true
deriving DecidableEq, Repr

namespace FmeParser

def fail {α : Type} (p : FmeParser) (text : Text) : Except FmeError α :=
  .error (text, p.root)

def wordNode (word : Text) : Except Text FmeNode :=
  if (word.head?.any Char.isDigit) then
    match toLongLong word with
    | some value => .ok (.constant value)
    | none => .error ("cannot convert \"".toList ++ word ++ "\" to number".toList)
  else .ok (.symbol word)

def endWord (p : FmeParser) : Except FmeError FmeParser :=
  if p.word = [] then .ok p
  else
    match wordNode p.word with
    | .error e => p.fail e
    | .ok node =>
      match FmeNode.insertLast node p.root with
      | none => p.fail ("parse stuck at \"".toList ++ p.word ++ "\"".toList)
      | some root => .ok { p with root := root, word := [], isUnary := false }

/-- Adds an operator with one operand; what it replaces is lost. -/
def unary (ch : Char) (op : FmeUnaryOp) (p : FmeParser) : Except FmeError FmeParser :=
  let prio := p.basePrio + 90
  match p.root.insertOperator prio (fun _ => .unaryOp prio op .null) with
  | none => p.fail ("parse stuck at \"".toList ++ ch :: "\"".toList)
  | some root => .ok { p with root := root }

/-- Adds an operator with two operands; what it replaces becomes the first. -/
def binary (ch : Char) (op : FmeBinaryOp) (level : Int) (p : FmeParser) :
    Except FmeError FmeParser :=
  let prio := p.basePrio + level
  match p.root.insertOperator prio (fun child => .binaryOp prio op child .null) with
  | none => p.fail ("parse stuck at \"".toList ++ ch :: "\"".toList)
  | some root => .ok { p with root := root, isUnary := true }

/-- The operator after `%` and the length of its name.  The opening bracket is looked at only. -/
def modifierAt (rest : Text) : Option (FmeUnaryOp × Nat) :=
  if "hi(".toList.isPrefixOf rest then some (.hi, 2)
  else if "lo(".toList.isPrefixOf rest then some (.lo, 2)
  else if "pcrel_hi(".toList.isPrefixOf rest then some (.pcrelHi, 8)
  else if "pcrel_lo(".toList.isPrefixOf rest then some (.pcrelLo, 8)
  else none

/-- Handles a character outside of words; returns how many of the following ones to skip. -/
def operator (ch : Char) (rest : Text) (p : FmeParser) : Except FmeError (FmeParser × Nat) :=
  match ch with
  | '%' =>
    match modifierAt rest with
    | some (op, skip) => (p.unary ch op).map (·, skip)
    -- `tokenize_symbol` returns the whole rest of the expression
    | none => p.fail ("Unknown modifier \"".toList ++ rest ++ "\"".toList)
  | '~' => (p.unary ch .not).map (·, 0)
  | '-' => if p.isUnary then (p.unary ch .neg).map (·, 0) else (p.binary ch .sub 20).map (·, 0)
  | '+' => if p.isUnary then .ok (p, 0) else (p.binary ch .add 20).map (·, 0)
  | '*' => (p.binary ch .mul 30).map (·, 0)
  | '/' => (p.binary ch .div 30).map (·, 0)
  | '|' => (p.binary ch .or 10).map (·, 0)
  | '&' => (p.binary ch .and 15).map (·, 0)
  | '^' => (p.binary ch .xor 15).map (·, 0)
  | '(' => .ok ({ p with basePrio := p.basePrio + 100 }, 0)
  | ')' =>
    if p.basePrio - 100 ≤ 0 then p.fail "Unbalanced brackets.".toList
    else .ok ({ p with basePrio := p.basePrio - 100 }, 0)
  | _ => p.fail ("Unknown character \"".toList ++ ch :: "\" in expression.".toList)

/-- Reads the rest of an expression, the first `skip` characters of which are done with. -/
def run : Text → Nat → FmeParser → Except FmeError FmeParser
  | [], _, p => p.endWord
  | _ :: rest, skip + 1, p => run rest skip p
  | ch :: rest, 0, p =>
    if isWordChar ch then run rest 0 { p with word := p.word ++ [ch] }
    -- white space does not end a word, it becomes part of it
    else if isSpace ch then
      run rest 0 { p with word := if p.word = [] then [] else p.word ++ [ch] }
    else
      match p.endWord with
      | .error e => .error e
      | .ok p =>
        match p.operator ch rest with
        | .error e => .error e
        | .ok (p, skip) => run rest skip p

end FmeParser

def FmeNode.parse (expression : Text) : Except FmeError FmeNode :=
  (FmeParser.run expression 0 {}).map (·.root)

end QtRvSim
