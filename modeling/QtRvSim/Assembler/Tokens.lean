import QtRvSim.Assembler.Fields

/-!
# Instruction texts

From a mnemonic and operand texts to instruction words (`instruction.cpp`): the table of mnemonics,
the search for a format that fits the operands, the pseudo instructions and the split of a line.
-/

namespace QtRvSim

open Numeral

structure TokenizedInstruction where
  base : Text
  fields : List Text
  address : Address
  filename : Text
  line : Nat
deriving DecidableEq, Repr

/-! ### Mnemonics -/

/-- Bits a path through the decoding tables fixes, and their values. -/
def pathPattern (path : DecodeTree.Path) : WordPattern 32 :=
  path.foldr
    (fun turn p =>
      ⟨p.code ||| BitVec.ofNat 32 turn.2 <<< turn.1.offset, p.mask ||| turn.1.mask 32⟩)
    ⟨0, 0⟩

/-- A row or an alias is consistent with the bits that lead to it. -/
def fitsPattern (code mask : BitVec 32) (base : WordPattern 32) : Bool :=
  (code ^^^ base.code) &&& base.mask == 0 && ~~~mask &&& base.mask == 0

/-- Adds the aliases of a row under the code of the row, each name once. -/
def addAliases (im : InstructionEntry) (codeMap : List (String × BitVec 32)) :
    List (String × BitVec 32) :=
  im.aliases.foldl
    (fun codeMap ia =>
      if !fitsPattern ia.code ia.mask ⟨im.code, im.mask⟩ then codeMap
      else if codeMap.contains (ia.name, im.code) then codeMap
      else codeMap ++ [(ia.name, im.code)])
    codeMap

/-- The table from mnemonics to codes of rows, in the order of insertion. -/
def strToInstructionCodeMap : List (String × BitVec 32) :=
  (InstructionMap.root.leaves []).foldl
    (fun codeMap l =>
      if !l.2.flags.has .supported then codeMap
      else if !fitsPattern l.2.code l.2.mask (pathPattern l.1) then codeMap
      else addAliases l.2 (codeMap ++ [(l.2.name, l.2.code)]))
    []

/-- Codes of a mnemonic, the one inserted last first. -/
def codesOf (base : Text) : List (BitVec 32) :=
  ((strToInstructionCodeMap.filter (fun entry => entry.1.toList == base)).map Prod.snd).reverse

def InstructionEntry.format (im : InstructionEntry) : InstructionAlias :=
  ⟨im.name, im.args, im.code, im.mask⟩

/-- The formats of a mnemonic in the order they are tried: each row, then its aliases. -/
def formatsOf (base : Text) : List InstructionAlias :=
  (codesOf base).flatMap fun code =>
    let im := InstructionMap.find code
    (im.format :: im.aliases).filter (fun format => format.name.toList == base)

/-! ### Base instructions -/

def parseFields (ctx : FieldContext) :
    List String → List Text → BitVec 32 → RelocExpressionList →
      Except ParseError (BitVec 32) × RelocExpressionList
  | arg :: args, fieldToken :: fields, instCode, reloc =>
    match parseField ctx fieldToken arg reloc with
    | (.error e, reloc) => (.error e, reloc)
    | (.ok bits, reloc) => parseFields ctx args fields (instCode ||| bits) reloc
  | _, _, instCode, reloc => (.ok instCode, reloc)

/-- Tries formats in order; the first that fits is taken.  `rethrow` is the error to report if none
does. -/
def tryFormats (ctx : FieldContext) (fields : List Text) :
    List InstructionAlias → Option ParseError → RelocExpressionList →
      Except ParseError Instruction × RelocExpressionList
  | [], none, reloc => (.ok 0, reloc)
  | [], some e, reloc => (.error e, reloc)
  | im :: ims, rethrow, reloc =>
    if fields.length ≠ im.args.length then
      tryFormats ctx fields ims (some (rethrow.getD .argumentCount)) reloc
    else
      match parseFields ctx im.args fields im.code reloc with
      | (.ok instCode, reloc) => (.ok instCode, reloc)
      | (.error e, reloc) => tryFormats ctx fields ims (some e) reloc

/-- The word of a base instruction or an alias, zero for an unknown mnemonic. -/
def baseFromTokens (inst : TokenizedInstruction) (pseudoMod : Modifier)
    (initialImmediateValue : BitVec 64) (reloc : RelocExpressionList) :
    Except ParseError Instruction × RelocExpressionList :=
  let ctx : FieldContext :=
    { instAddr := inst.address
      filename := inst.filename
      line := inst.line
      pseudoMod := pseudoMod
      initialImmediateValue := initialImmediateValue }
  tryFormats ctx inst.fields (formatsOf inst.base) none reloc

/-! ### Pseudo instructions -/

abbrev Emitted := Except ParseError (List Instruction) × RelocExpressionList

def basePair (fst snd : RelocExpressionList → Except ParseError Instruction × RelocExpressionList)
    (reloc : RelocExpressionList) : Emitted :=
  match fst reloc with
  | (.error e, reloc) => (.error e, reloc)
  | (.ok first, reloc) =>
    match snd reloc with
    | (.error e, reloc) => (.error e, reloc)
    | (.ok second, reloc) => (.ok [first, second], reloc)

/-- An upper immediate and an instruction that adds the lower part of the same value.  Both parts
start from the value `initial`. -/
def composedPair (inst : TokenizedInstruction) (upper lower : String) (upperFields : List Text)
    (lowerFields : List Text) (initial : BitVec 64) (reloc : RelocExpressionList) : Emitted :=
  basePair
    (baseFromTokens { inst with base := upper.toList, fields := upperFields }
      .composedImmUpper initial)
    (baseFromTokens
      { inst with base := lower.toList, fields := lowerFields, address := inst.address + 4 }
      .composedImmLower initial)
    reloc

/-- `la` and `li`: both load the value of the second operand into the first. -/
def loadPair (inst : TokenizedInstruction) (upper : String) (initial : BitVec 64)
    (reloc : RelocExpressionList) : Emitted :=
  match inst.fields with
  | [rd, value] => composedPair inst upper "addi" [rd, value] [rd, rd, value] initial reloc
  | _ => (.error .argumentCount, reloc)

/-- `call` and `tail`: a jump through `x6` that leaves the return address in `link`. -/
def jumpPair (inst : TokenizedInstruction) (link : String) (reloc : RelocExpressionList) :
    Emitted :=
  match inst.fields with
  | [target] =>
    composedPair inst "auipc" "jalr" ["x6".toList, target]
      [link.toList, target ++ "(x6)".toList] (-inst.address) reloc
  | _ => (.error .argumentCount, reloc)

/-- The extensions: a shift to the left and one to the right by the same amount.  Both words are
read at the address of the first. -/
def shiftPair (inst : TokenizedInstruction) (amount right : String)
    (reloc : RelocExpressionList) : Emitted :=
  match inst.fields with
  | [rd, rs] =>
    basePair
      (baseFromTokens
        { inst with base := "slli".toList, fields := [rd, rs, amount.toList] } .none 0)
      (baseFromTokens
        { inst with base := right.toList, fields := [rd, rd, amount.toList] } .none 0)
      reloc
  | _ => (.error .argumentCount, reloc)

/-- Words of a pseudo instruction, none for an unknown mnemonic. -/
def pseudoFromTokens (buffsize : Nat) (inst : TokenizedInstruction)
    (reloc : RelocExpressionList) : Emitted :=
  if inst.base = "nop".toList then
    if inst.fields ≠ [] then (.error .nopArguments, reloc) else (.ok [Instruction.nop], reloc)
  else if buffsize < 8 then (.ok [], reloc)
  else if inst.base = "la".toList then loadPair inst "auipc" (-inst.address) reloc
  else if inst.base = "li".toList then loadPair inst "lui" 0 reloc
  else if inst.base = "call".toList then jumpPair inst "x1" reloc
  else if inst.base = "tail".toList then jumpPair inst "x0" reloc
  else if inst.base = "sext.b".toList then shiftPair inst "XLEN-8" "srai" reloc
  else if inst.base = "sext.h".toList then shiftPair inst "XLEN-16" "srai" reloc
  else if inst.base = "zext.h".toList then shiftPair inst "XLEN-16" "srli" reloc
  else if inst.base = "zext.w".toList then shiftPair inst "XLEN-32" "srli" reloc
  else (.ok [], reloc)

/-- Words of an instruction text; `buffsize` is the room for them in bytes. -/
def codeFromTokens (buffsize : Nat) (inst : TokenizedInstruction) (reloc : RelocExpressionList)
    (pseudoinstEnabled : Bool) : Emitted :=
  match baseFromTokens inst .none 0 reloc with
  | (.error e, reloc) => (.error e, reloc)
  | (.ok result, reloc) =>
    if result ≠ 0 then
      if buffsize < 4 then (.error .insufficientBuffer, reloc) else (.ok [result], reloc)
    else if pseudoinstEnabled then
      match pseudoFromTokens buffsize inst reloc with
      | (.ok [], reloc) => (.error .unknownInstruction, reloc)
      | emitted => emitted
    else (.error .unknownInstruction, reloc)

end QtRvSim
