import QtRvSim.Library.BitFields
import QtRvSim.Library.DecodeTree
import QtRvSim.Machine.Alu

/-!
# Instruction words

The decoding tables of `instruction.cpp` with the control flags, ALU operation and memory access of
every supported instruction, the search through them and the fields of an instruction word.  Rows
are given in the order of the source, with the operand templates and the aliases that only the
assembler and the disassembler read.
-/

namespace QtRvSim

open BitVec

abbrev RegisterId := BitVec 5

/-- Control signals of an instruction, one bit each. -/
abbrev InstructionFlags := BitVec 32

namespace InstructionFlags

def supported : InstructionFlags := 1#32 <<< 0
def memwrite : InstructionFlags := 1#32 <<< 1
def memread : InstructionFlags := 1#32 <<< 2
def alusrc : InstructionFlags := 1#32 <<< 3
def regwrite : InstructionFlags := 1#32 <<< 4
def mem : InstructionFlags := 1#32 <<< 5
def aluReqRs : InstructionFlags := 1#32 <<< 6
def aluReqRt : InstructionFlags := 1#32 <<< 7
def branch : InstructionFlags := 1#32 <<< 8
def jump : InstructionFlags := 1#32 <<< 9
def bjNot : InstructionFlags := 1#32 <<< 10
def branchJalr : InstructionFlags := 1#32 <<< 11
def exception : InstructionFlags := 1#32 <<< 12
def aluMod : InstructionFlags := 1#32 <<< 13
def pcToAlu : InstructionFlags := 1#32 <<< 14
def forceWOp : InstructionFlags := 1#32 <<< 15
def ecall : InstructionFlags := 1#32 <<< 16
def ebreak : InstructionFlags := 1#32 <<< 17
def xret : InstructionFlags := 1#32 <<< 18
def mul : InstructionFlags := 1#32 <<< 19
def csr : InstructionFlags := 1#32 <<< 20
def csrToAlu : InstructionFlags := 1#32 <<< 21
def aluRsId : InstructionFlags := 1#32 <<< 22
def amo : InstructionFlags := 1#32 <<< 23
def rv64 : InstructionFlags := 1#32 <<< 24
def privS : InstructionFlags := 1#32 <<< 25
def privH : InstructionFlags := 1#32 <<< 26
def privM : InstructionFlags := 1#32 <<< 27

def has (flags f : InstructionFlags) : Bool :=
  flags &&& f != 0

theorem has_or (flags f g : InstructionFlags) :
    flags.has (f ||| g) = (flags.has f || flags.has g) := by
  rw [Bool.eq_iff_iff]
  simp only [has, and_or_distrib_left, bne_iff_ne, Bool.or_eq_true, ne_eq]
  rw [← not_and_or, not_iff_not]
  exact or_eq_zero_iff

/-- A flag is set if its bit is. -/
theorem has_bit (flags : InstructionFlags) {k : Nat} (hk : k < 32) :
    flags.has (1#32 <<< k) = flags.getLsbD k := by
  have hpow : 1#32 <<< k = twoPow 32 k := rfl
  rw [has, hpow, and_twoPow]
  cases h : flags.getLsbD k
  · simp
  · have hne : twoPow 32 k ≠ 0#32 := by
      intro h0
      have := congrArg (fun x => x.getLsbD k) h0
      simp [hk] at this
    simp [hne]

end InstructionFlags

inductive InstructionType where
  | r | i | s | b | u | j | zicsr | amo | unknown
deriving DecidableEq, Repr

/-- Another name of an instruction with some of its operands fixed.  Only the assembler knows it. -/
structure InstructionAlias where
  name : String
  args : List String
  code : BitVec 32
  mask : BitVec 32
deriving DecidableEq, Repr

/-- What the decoding tables say about one instruction.  The arguments are templates of the
operand texts: a letter stands for an operand, another character for itself. -/
structure InstructionEntry where
  name : String
  type : InstructionType
  alu : AluCombinedOp
  memCtl : AccessControl
  args : List String
  code : BitVec 32
  mask : BitVec 32
  flags : InstructionFlags
  aliases : List InstructionAlias
deriving DecidableEq, Repr

/-- A decoding table row: an instruction or a finer table. -/
abbrev InstructionMap := DecodeTree InstructionEntry

namespace InstructionMap

open InstructionFlags

def flagsAluI : InstructionFlags := supported ||| alusrc ||| regwrite ||| aluReqRs

def flagsAluILoad : InstructionFlags :=
  supported ||| alusrc ||| regwrite ||| memread ||| mem ||| aluReqRs

def flagsAluIStore : InstructionFlags :=
  supported ||| alusrc ||| memwrite ||| mem ||| aluReqRs ||| aluReqRt

def flagsAluTRD : InstructionFlags := supported ||| regwrite

def flagsAluTRStd : InstructionFlags := flagsAluTRD ||| aluReqRs ||| aluReqRt

def flagsAmoLoad : InstructionFlags := flagsAluILoad ||| amo

def flagsAmoStore : InstructionFlags := flagsAluIStore ||| flagsAluTRD ||| amo ||| memread

def flagsAmoModify : InstructionFlags := flagsAluILoad ||| flagsAmoStore ||| amo

def noalu : AluCombinedOp := AluOp.add.combined

def unknownEntry : InstructionEntry :=
  ⟨"unknown", .unknown, noalu, .none, [], 0, 0, 0, []⟩

def imUnknown : InstructionMap := .leaf unknownEntry

/-! ### Aliases -/

def instAliasesAddi : List InstructionAlias := [
  ⟨"mv", ["d", "s"], 0x13, 0x707f ||| 0xfff <<< 20⟩]

def instAliasesAndi : List InstructionAlias := [
  ⟨"zext.b", ["d", "s"], 0x7013 ||| 0xff <<< 20, 0x707f ||| 0xfff <<< 20⟩]

def instAliasesAddiw : List InstructionAlias := [
  ⟨"sext.w", ["d", "s"], 0x1b, 0x707f ||| 0xfff <<< 20⟩]

def instAliasesXori : List InstructionAlias := [
  ⟨"not", ["d", "s"], 0x4013 ||| 0xfff <<< 20, 0x707f ||| 0xfff <<< 20⟩]

def instAliasesSub : List InstructionAlias := [
  ⟨"neg", ["d", "t"], 0x40000033 ||| 0 <<< 15, 0xfe00707f ||| 31 <<< 15⟩]

def instAliasesSubw : List InstructionAlias := [
  ⟨"negw", ["d", "t"], 0x4000003b ||| 0 <<< 15, 0xfe00707f ||| 31 <<< 15⟩]

def instAliasesSltiu : List InstructionAlias := [
  ⟨"seqz", ["d", "s"], 0x3013 ||| 1 <<< 20, 0x0000707f ||| 0xfff <<< 20⟩]

def instAliasesSltu : List InstructionAlias := [
  ⟨"snez", ["d", "t"], 0x3033 ||| 0 <<< 15, 0xfe00707f ||| 31 <<< 15⟩]

def instAliasesSlt : List InstructionAlias := [
  ⟨"sltz", ["d", "s"], 0x2033 ||| 0 <<< 20, 0xfe00707f ||| 31 <<< 20⟩,
  ⟨"sgtz", ["d", "t"], 0x2033 ||| 0 <<< 15, 0xfe00707f ||| 31 <<< 15⟩]

def instAliasesBeq : List InstructionAlias := [
  ⟨"beqz", ["s", "p"], 0x0063 ||| 0 <<< 20, 0x707f ||| 31 <<< 20⟩]

def instAliasesBne : List InstructionAlias := [
  ⟨"bnez", ["s", "p"], 0x1063 ||| 0 <<< 20, 0x707f ||| 31 <<< 20⟩]

def instAliasesBlt : List InstructionAlias := [
  ⟨"bltz", ["s", "p"], 0x4063 ||| 0 <<< 20, 0x707f ||| 31 <<< 20⟩,
  ⟨"bgtz", ["t", "p"], 0x4063 ||| 0 <<< 15, 0x707f ||| 31 <<< 15⟩,
  ⟨"bgt", ["t", "s", "p"], 0x4063, 0x707f⟩]

def instAliasesBge : List InstructionAlias := [
  ⟨"bgez", ["s", "p"], 0x5063 ||| 0 <<< 20, 0x707f ||| 31 <<< 20⟩,
  ⟨"ble", ["t", "s", "p"], 0x5063, 0x707f⟩,
  ⟨"blez", ["t", "p"], 0x5063 ||| 0 <<< 15, 0x707f ||| 31 <<< 15⟩]

def instAliasesBltu : List InstructionAlias := [
  ⟨"bgtu", ["t", "s", "p"], 0x6063, 0x707f⟩]

def instAliasesBgeu : List InstructionAlias := [
  ⟨"bleu", ["t", "s", "p"], 0x7063, 0x707f⟩]

def instAliasesJal : List InstructionAlias := [
  ⟨"j", ["a"], 0x6f ||| 0 <<< 7, 0x7f ||| 31 <<< 7⟩,
  ⟨"jal", ["a"], 0x6f ||| 1 <<< 7, 0x7f ||| 31 <<< 7⟩]

def instAliasesJalr : List InstructionAlias := [
  ⟨"ret", [], 0x67 ||| 0 <<< 7 ||| 1 <<< 15, 0xffffffff⟩,
  ⟨"jr", ["s"], 0x67 ||| 0 <<< 7, 0x7f ||| 31 <<< 7 ||| 0xfff <<< 20⟩,
  ⟨"jr", ["o(s)"], 0x67 ||| 0 <<< 7, 0x7f ||| 31 <<< 7⟩,
  ⟨"jalr", ["s"], 0x67 ||| 1 <<< 7, 0x7f ||| 31 <<< 7 ||| 0xfff <<< 20⟩,
  ⟨"jalr", ["o(s)"], 0x67 ||| 1 <<< 7, 0x7f ||| 31 <<< 7⟩,
  ⟨"jalr", ["d", "s", "o"], 0x67, 0x7f⟩]

def instAliasesCsrrw : List InstructionAlias := [
  ⟨"csrw", ["E", "s"], 0x1073 ||| 0 <<< 7 ||| 0 <<< 15, 0x707f ||| 31 <<< 7⟩]

def instAliasesCsrrs : List InstructionAlias := [
  ⟨"csrr", ["d", "E"], 0x2073 ||| 0 <<< 15, 0x707f ||| 31 <<< 15⟩]

/-! ### Decoding tables -/

def amoArgsLoad : List String := ["d", "(s)"]

def amoArgsStore : List String := ["d", "t", "(s)"]

def amoArgsModify : List String := ["d", "t", "(s)"]

/-- The four ordering variants of an atomic instruction. -/
def amoMap4Items (name : String) (code : BitVec 32) (memCtl : AccessControl)
    (flags : InstructionFlags) (args : List String) : List InstructionMap := [
  .leaf ⟨name, .amo, noalu, memCtl, args, code ||| 0x00000000, 0xfe00707f, flags, []⟩,
  .leaf ⟨name ++ ".rl", .amo, noalu, memCtl, args, code ||| 0x02000000, 0xfe00707f, flags, []⟩,
  .leaf ⟨name ++ ".aq", .amo, noalu, memCtl, args, code ||| 0x04000000, 0xfe00707f, flags, []⟩,
  .leaf ⟨name ++ ".aqrl", .amo, noalu, memCtl, args, code ||| 0x06000000, 0xfe00707f, flags, []⟩]

def amo32Map : List InstructionMap :=
  amoMap4Items "amoadd.w" 0x0000202f .amoadd32 flagsAmoModify amoArgsModify ++
  amoMap4Items "amoswap.w" 0x0800202f .amoswap32 flagsAmoModify amoArgsModify ++
  amoMap4Items "lr.w" 0x1000202f .lr32 flagsAmoLoad amoArgsLoad ++
  amoMap4Items "sc.w" 0x1800202f .sc32 flagsAmoStore amoArgsStore ++
  amoMap4Items "amoxor.w" 0x2000202f .amoxor32 flagsAmoModify amoArgsModify ++
  List.replicate 12 imUnknown ++
  amoMap4Items "amoor.w" 0x4000202f .amoor32 flagsAmoModify amoArgsModify ++
  List.replicate 12 imUnknown ++
  amoMap4Items "amoand.w" 0x6000202f .amoand32 flagsAmoModify amoArgsModify ++
  List.replicate 12 imUnknown ++
  amoMap4Items "amomin.w" 0x8000202f .amomin32 flagsAmoModify amoArgsModify ++
  List.replicate 12 imUnknown ++
  amoMap4Items "amomax.w" 0xa000202f .amomax32 flagsAmoModify amoArgsModify ++
  List.replicate 12 imUnknown ++
  amoMap4Items "amominu.w" 0xc000202f .amominu32 flagsAmoModify amoArgsModify ++
  List.replicate 12 imUnknown ++
  amoMap4Items "amomaxu.w" 0xe000202f .amomaxu32 flagsAmoModify amoArgsModify ++
  List.replicate 12 imUnknown

def amo64Map : List InstructionMap :=
  amoMap4Items "amoadd.d" 0x0000302f .amoadd64 flagsAmoModify amoArgsModify ++
  amoMap4Items "amoswap.d" 0x0800302f .amoswap64 flagsAmoModify amoArgsModify ++
  amoMap4Items "lr.d" 0x1000302f .lr64 flagsAmoLoad amoArgsLoad ++
  amoMap4Items "sc.d" 0x1800302f .sc64 flagsAmoStore amoArgsStore ++
  amoMap4Items "amoxor.d" 0x2000302f .amoxor64 (flagsAmoModify ||| rv64) amoArgsModify ++
  List.replicate 12 imUnknown ++
  amoMap4Items "amoor.d" 0x4000302f .amoor64 (flagsAmoModify ||| rv64) amoArgsModify ++
  List.replicate 12 imUnknown ++
  amoMap4Items "amoand.d" 0x6000302f .amoand64 (flagsAmoModify ||| rv64) amoArgsModify ++
  List.replicate 12 imUnknown ++
  amoMap4Items "amomin.d" 0x8000302f .amomin64 (flagsAmoModify ||| rv64) amoArgsModify ++
  List.replicate 12 imUnknown ++
  amoMap4Items "amomax.d" 0xa000302f .amomax64 (flagsAmoModify ||| rv64) amoArgsModify ++
  List.replicate 12 imUnknown ++
  amoMap4Items "amominu.d" 0xc000302f .amominu64 (flagsAmoModify ||| rv64) amoArgsModify ++
  List.replicate 12 imUnknown ++
  amoMap4Items "amomaxu.d" 0xe000302f .amomaxu64 (flagsAmoModify ||| rv64) amoArgsModify ++
  List.replicate 12 imUnknown

def amoMap : List InstructionMap := [
  imUnknown, imUnknown,
  .sub ⟨7, 25⟩ amo32Map,
  .sub ⟨7, 25⟩ amo64Map,
  imUnknown, imUnknown, imUnknown, imUnknown,
  imUnknown]

def loadMap : List InstructionMap := [
  .leaf ⟨"lb", .i, AluOp.add.combined, .i8, ["d", "o(s)"], 0x00000003, 0x0000707f,
    flagsAluILoad, []⟩,
  .leaf ⟨"lh", .i, AluOp.add.combined, .i16, ["d", "o(s)"], 0x00001003, 0x0000707f,
    flagsAluILoad, []⟩,
  .leaf ⟨"lw", .i, AluOp.add.combined, .i32, ["d", "o(s)"], 0x00002003, 0x0000707f,
    flagsAluILoad, []⟩,
  .leaf ⟨"ld", .i, AluOp.add.combined, .i64, ["d", "o(s)"], 0x00003003, 0x0000707f,
    flagsAluILoad ||| rv64, []⟩,
  .leaf ⟨"lbu", .i, AluOp.add.combined, .u8, ["d", "o(s)"], 0x00004003, 0x0000707f,
    flagsAluILoad, []⟩,
  .leaf ⟨"lhu", .i, AluOp.add.combined, .u16, ["d", "o(s)"], 0x00005003, 0x0000707f,
    flagsAluILoad, []⟩,
  .leaf ⟨"lwu", .i, AluOp.add.combined, .u32, ["d", "o(s)"], 0x00006003, 0x0000707f,
    flagsAluILoad ||| rv64, []⟩,
  imUnknown]

def sriMap : List InstructionMap := [
  .leaf ⟨"srli", .i, AluOp.sr.combined, .none, ["d", "s", ">"], 0x00005013, 0xfc00707f,
    flagsAluI, []⟩,
  .leaf ⟨"srai", .i, AluOp.sr.combined, .none, ["d", "s", ">"], 0x40005013, 0xfc00707f,
    flagsAluI ||| aluMod, []⟩]

def opImmMap : List InstructionMap := [
  .leaf ⟨"addi", .i, AluOp.add.combined, .none, ["d", "s", "j"], 0x00000013, 0x0000707f,
    flagsAluI, instAliasesAddi⟩,
  .leaf ⟨"slli", .i, AluOp.sll.combined, .none, ["d", "s", ">"], 0x00001013, 0xfc00707f,
    flagsAluI, []⟩,
  .leaf ⟨"slti", .i, AluOp.slt.combined, .none, ["d", "s", "j"], 0x00002013, 0x0000707f,
    flagsAluI, []⟩,
  .leaf ⟨"sltiu", .i, AluOp.sltu.combined, .none, ["d", "s", "j"], 0x00003013, 0x0000707f,
    flagsAluI, instAliasesSltiu⟩,
  .leaf ⟨"xori", .i, AluOp.xor.combined, .none, ["d", "s", "j"], 0x00004013, 0x0000707f,
    flagsAluI, instAliasesXori⟩,
  .sub ⟨1, 30⟩ sriMap,
  .leaf ⟨"ori", .i, AluOp.or.combined, .none, ["d", "s", "j"], 0x00006013, 0x0000707f,
    flagsAluI, []⟩,
  .leaf ⟨"andi", .i, AluOp.and.combined, .none, ["d", "s", "j"], 0x00007013, 0x0000707f,
    flagsAluI, instAliasesAndi⟩]

def storeMap : List InstructionMap := [
  .leaf ⟨"sb", .s, AluOp.add.combined, .u8, ["t", "q(s)"], 0x00000023, 0x0000707f,
    flagsAluIStore, []⟩,
  .leaf ⟨"sh", .s, AluOp.add.combined, .u16, ["t", "q(s)"], 0x00001023, 0x0000707f,
    flagsAluIStore, []⟩,
  .leaf ⟨"sw", .s, AluOp.add.combined, .u32, ["t", "q(s)"], 0x00002023, 0x0000707f,
    flagsAluIStore, []⟩,
  .leaf ⟨"sd", .s, AluOp.add.combined, .u64, ["t", "q(s)"], 0x00003023, 0x0000707f,
    flagsAluIStore ||| rv64, []⟩,
  imUnknown, imUnknown, imUnknown, imUnknown]

def addMap : List InstructionMap := [
  .leaf ⟨"add", .r, AluOp.add.combined, .none, ["d", "s", "t"], 0x00000033, 0xfe00707f,
    flagsAluTRStd, []⟩,
  .leaf ⟨"sub", .r, AluOp.add.combined, .none, ["d", "s", "t"], 0x40000033, 0xfe00707f,
    flagsAluTRStd ||| aluMod, instAliasesSub⟩]

def srMap : List InstructionMap := [
  .leaf ⟨"srl", .r, AluOp.sr.combined, .none, ["d", "s", "t"], 0x00005033, 0xfe00707f,
    flagsAluTRStd, []⟩,
  .leaf ⟨"sra", .r, AluOp.sr.combined, .none, ["d", "s", "t"], 0x40005033, 0xfe00707f,
    flagsAluTRStd ||| aluMod, []⟩]

def opAluMap : List InstructionMap := [
  .sub ⟨1, 30⟩ addMap,
  .leaf ⟨"sll", .r, AluOp.sll.combined, .none, ["d", "s", "t"], 0x00001033, 0xfe00707f,
    flagsAluTRStd, []⟩,
  .leaf ⟨"slt", .r, AluOp.slt.combined, .none, ["d", "s", "t"], 0x00002033, 0xfe00707f,
    flagsAluTRStd, instAliasesSlt⟩,
  .leaf ⟨"sltu", .r, AluOp.sltu.combined, .none, ["d", "s", "t"], 0x00003033, 0xfe00707f,
    flagsAluTRStd, instAliasesSltu⟩,
  .leaf ⟨"xor", .r, AluOp.xor.combined, .none, ["d", "s", "t"], 0x00004033, 0xfe00707f,
    flagsAluTRStd, []⟩,
  .sub ⟨1, 30⟩ srMap,
  .leaf ⟨"or", .r, AluOp.or.combined, .none, ["d", "s", "t"], 0x00006033, 0xfe00707f,
    flagsAluTRStd, []⟩,
  .leaf ⟨"and", .r, AluOp.and.combined, .none, ["d", "s", "t"], 0x00007033, 0xfe00707f,
    flagsAluTRStd, []⟩]

def mulMapItem (name : String) (op : MulOp) (code : BitVec 32) : InstructionMap :=
  .leaf ⟨name, .r, op.combined, .none, ["d", "s", "t"], 0x02000033 ||| code, 0xfe00707f,
    flagsAluTRStd ||| mul, []⟩

def opMulMap : List InstructionMap := [
  mulMapItem "mul" .mul 0x0000,
  mulMapItem "mulh" .mulh 0x1000,
  mulMapItem "mulhsu" .mulhsu 0x2000,
  mulMapItem "mulhu" .mulhu 0x3000,
  mulMapItem "div" .div 0x4000,
  mulMapItem "divu" .divu 0x5000,
  mulMapItem "rem" .rem 0x6000,
  mulMapItem "remu" .remu 0x7000]

def opMap : List InstructionMap := [
  .sub ⟨3, 12⟩ opAluMap,
  .sub ⟨3, 12⟩ opMulMap]

def branchMap : List InstructionMap := [
  .leaf ⟨"beq", .b, AluOp.add.combined, .none, ["s", "t", "p"], 0x00000063, 0x0000707f,
    supported ||| branch ||| aluReqRs ||| aluReqRt ||| aluMod, instAliasesBeq⟩,
  .leaf ⟨"bne", .b, AluOp.add.combined, .none, ["s", "t", "p"], 0x00001063, 0x0000707f,
    supported ||| branch ||| aluReqRs ||| aluReqRt ||| aluMod ||| bjNot, instAliasesBne⟩,
  imUnknown, imUnknown,
  .leaf ⟨"blt", .b, AluOp.slt.combined, .none, ["s", "t", "p"], 0x00004063, 0x0000707f,
    supported ||| branch ||| aluReqRs ||| aluReqRt ||| bjNot, instAliasesBlt⟩,
  .leaf ⟨"bge", .b, AluOp.slt.combined, .none, ["s", "t", "p"], 0x00005063, 0x0000707f,
    supported ||| branch ||| aluReqRs ||| aluReqRt, instAliasesBge⟩,
  .leaf ⟨"bltu", .b, AluOp.sltu.combined, .none, ["s", "t", "p"], 0x00006063, 0x0000707f,
    supported ||| branch ||| aluReqRs ||| aluReqRt ||| bjNot, instAliasesBltu⟩,
  .leaf ⟨"bgeu", .b, AluOp.sltu.combined, .none, ["s", "t", "p"], 0x00007063, 0x0000707f,
    supported ||| branch ||| aluReqRs ||| aluReqRt, instAliasesBgeu⟩]

def environmentAndBreakpointsMap : List InstructionMap := [
  .leaf ⟨"ecall", .i, noalu, .none, [], 0x00000073, 0xffffffff,
    supported ||| exception ||| ecall, []⟩,
  .leaf ⟨"ebreak", .i, noalu, .none, [], 0x00100073, 0xffffffff,
    supported ||| exception ||| ebreak, []⟩]

def systemPrivSlot8Map : List InstructionMap := [
  imUnknown, imUnknown,
  .leaf ⟨"sret", .i, noalu, .none, [], 0x10200073, 0xffffffff, supported ||| xret ||| privS, []⟩,
  imUnknown, imUnknown,
  .leaf ⟨"wfi", .i, noalu, .none, [], 0x10500073, 0xffffffff, supported, []⟩,
  imUnknown, imUnknown]

def systemPrivMap : List InstructionMap := [
  .sub ⟨1, 20⟩ environmentAndBreakpointsMap,
  imUnknown, imUnknown, imUnknown, imUnknown,
  imUnknown, imUnknown, imUnknown,
  .sub ⟨3, 20⟩ systemPrivSlot8Map,
  .leaf ⟨"sfence.vma", .i, noalu, .sfenceVma, ["s", "t"], 0x12000073, 0xfe007fff,
    supported ||| privS, []⟩,
  imUnknown, imUnknown, imUnknown, imUnknown,
  imUnknown, imUnknown, imUnknown, imUnknown,
  imUnknown, imUnknown, imUnknown, imUnknown,
  imUnknown, imUnknown,
  .leaf ⟨"mret", .i, noalu, .none, [], 0x30200073, 0xffffffff, supported ||| xret ||| privM, []⟩,
  imUnknown, imUnknown, imUnknown, imUnknown,
  imUnknown, imUnknown, imUnknown]

def csrMapItem (name source : String) (code : BitVec 32) (op : AluOp)
    (extraFlags : InstructionFlags) (aliases : List InstructionAlias) : InstructionMap :=
  .leaf ⟨name, .zicsr, op.combined, .none, ["d", "E", source], 0x00000073 ||| code, 0x0000707f,
    supported ||| csr ||| regwrite ||| aluReqRs ||| extraFlags, aliases⟩

def systemMap : List InstructionMap := [
  .sub ⟨5, 25⟩ systemPrivMap,
  csrMapItem "csrrw" "s" 0x1000 .add 0 instAliasesCsrrw,
  csrMapItem "csrrs" "s" 0x2000 .or csrToAlu instAliasesCsrrs,
  csrMapItem "csrrc" "s" 0x3000 .and (csrToAlu ||| aluMod) [],
  imUnknown,
  csrMapItem "csrrwi" "Z" 0x5000 .add aluRsId [],
  csrMapItem "csrrsi" "Z" 0x6000 .or (aluRsId ||| csrToAlu) [],
  csrMapItem "csrrci" "Z" 0x7000 .and (aluRsId ||| csrToAlu ||| aluMod) []]

def miscMemMap : List InstructionMap := [
  .leaf ⟨"fence", .i, noalu, .cacheOp, [], 0x0000000f, 0x0000707f, supported ||| mem, []⟩,
  .leaf ⟨"fence.i", .i, noalu, .cacheOp, [], 0x000100f, 0x0000707f, supported ||| mem, []⟩,
  imUnknown, imUnknown, imUnknown, imUnknown,
  imUnknown, imUnknown]

def sri32Map : List InstructionMap := [
  .leaf ⟨"srliw", .i, AluOp.sr.combined, .none, ["d", "s", ">"], 0x0000501b, 0xfe00707f,
    flagsAluI ||| forceWOp ||| rv64, []⟩,
  .leaf ⟨"sraiw", .i, AluOp.sr.combined, .none, ["d", "s", ">"], 0x4000501b, 0xfe00707f,
    flagsAluI ||| aluMod ||| forceWOp ||| rv64, []⟩]

def opImm32Map : List InstructionMap := [
  .leaf ⟨"addiw", .i, AluOp.add.combined, .none, ["d", "s", "j"], 0x0000001b, 0x0000707f,
    flagsAluI ||| forceWOp ||| rv64, instAliasesAddiw⟩,
  .leaf ⟨"slliw", .i, AluOp.sll.combined, .none, ["d", "s", ">"], 0x0000101b, 0xfe00707f,
    flagsAluI ||| forceWOp ||| rv64, []⟩,
  imUnknown, imUnknown, imUnknown,
  .sub ⟨1, 30⟩ sri32Map,
  imUnknown, imUnknown]

def add32Map : List InstructionMap := [
  .leaf ⟨"addw", .r, AluOp.add.combined, .none, ["d", "s", "t"], 0x0000003b, 0xfe00707f,
    flagsAluTRStd ||| forceWOp ||| rv64, []⟩,
  .leaf ⟨"subw", .r, AluOp.add.combined, .none, ["d", "s", "t"], 0x4000003b, 0xfe00707f,
    flagsAluTRStd ||| aluMod ||| forceWOp ||| rv64, instAliasesSubw⟩]

def sr32Map : List InstructionMap := [
  .leaf ⟨"srlw", .r, AluOp.sr.combined, .none, ["d", "s", "t"], 0x0000503b, 0xfe00707f,
    flagsAluTRStd ||| forceWOp ||| rv64, []⟩,
  .leaf ⟨"sraw", .r, AluOp.sr.combined, .none, ["d", "s", "t"], 0x4000503b, 0xfe00707f,
    flagsAluTRStd ||| aluMod ||| forceWOp ||| rv64, []⟩]

def opAlu32Map : List InstructionMap := [
  .sub ⟨1, 30⟩ add32Map,
  .leaf ⟨"sllw", .r, AluOp.sll.combined, .none, ["d", "s", "t"], 0x0000103b, 0xfe00707f,
    flagsAluTRStd ||| forceWOp ||| rv64, []⟩,
  imUnknown, imUnknown, imUnknown,
  .sub ⟨1, 30⟩ sr32Map,
  imUnknown, imUnknown]

def mul32MapItem (name : String) (op : MulOp) (code : BitVec 32) : InstructionMap :=
  .leaf ⟨name, .r, op.combined, .none, ["d", "s", "t"], 0x0200003b ||| code, 0xfe00707f,
    flagsAluTRStd ||| mul ||| forceWOp ||| rv64, []⟩

def opMul32Map : List InstructionMap := [
  mul32MapItem "mulw" .mul 0x0000,
  imUnknown, imUnknown, imUnknown,
  mul32MapItem "divw" .div 0x4000,
  mul32MapItem "divuw" .divu 0x5000,
  mul32MapItem "remw" .rem 0x6000,
  mul32MapItem "remuw" .remu 0x7000]

def op32Map : List InstructionMap := [
  .sub ⟨3, 12⟩ opAlu32Map,
  .sub ⟨3, 12⟩ opMul32Map]

def iInstMap : List InstructionMap := [
  .sub ⟨3, 12⟩ loadMap,
  imUnknown, imUnknown,
  .sub ⟨3, 12⟩ miscMemMap,
  .sub ⟨3, 12⟩ opImmMap,
  .leaf ⟨"auipc", .u, AluOp.add.combined, .none, ["d", "u"], 0x17, 0x7f,
    supported ||| alusrc ||| regwrite ||| pcToAlu, []⟩,
  .sub ⟨3, 12⟩ opImm32Map,
  imUnknown,
  .sub ⟨3, 12⟩ storeMap,
  imUnknown, imUnknown,
  .sub ⟨3, 12⟩ amoMap,
  .sub ⟨1, 25⟩ opMap,
  .leaf ⟨"lui", .u, AluOp.add.combined, .none, ["d", "u"], 0x37, 0x7f,
    supported ||| alusrc ||| regwrite, []⟩,
  .sub ⟨1, 25⟩ op32Map,
  imUnknown, imUnknown, imUnknown, imUnknown,
  imUnknown, imUnknown, imUnknown, imUnknown,
  imUnknown,
  .sub ⟨3, 12⟩ branchMap,
  .leaf ⟨"jalr", .i, AluOp.add.combined, .none, ["d", "o(s)"], 0x67, 0x7f,
    supported ||| regwrite ||| branchJalr ||| alusrc ||| aluReqRs, instAliasesJalr⟩,
  imUnknown,
  .leaf ⟨"jal", .j, AluOp.add.combined, .none, ["d", "a"], 0x6f, 0x7f,
    supported ||| regwrite ||| jump ||| pcToAlu ||| alusrc, instAliasesJal⟩,
  .sub ⟨3, 12⟩ systemMap,
  imUnknown, imUnknown, imUnknown]

def cInstMap : List InstructionMap := [
  imUnknown, imUnknown, imUnknown,
  .sub ⟨5, 2⟩ iInstMap]

/-- The whole decoding tree, entered by the two opcode bits of `instruction_map_opcode_field`. -/
def root : InstructionMap := .sub ⟨2, 0⟩ cInstMap

def find (code : BitVec 32) : InstructionEntry :=
  let im := root.lookup unknownEntry code
  if (code ^^^ im.code) &&& im.mask ≠ 0 then unknownEntry else im

end InstructionMap

abbrev Instruction := BitVec 32

namespace Instruction

/-- The instruction that does nothing, `addi x0, x0, 0`. -/
def nop : Instruction := 0x00000013

def field (inst : Instruction) (len off : Nat) : BitVec 32 :=
  (inst >>> off) &&& BitVec.ofNat 32 (2 ^ len - 1)

def rs (inst : Instruction) : RegisterId := (inst.field 5 15).setWidth 5

def rt (inst : Instruction) : RegisterId := (inst.field 5 20).setWidth 5

def rd (inst : Instruction) : RegisterId := (inst.field 5 7).setWidth 5

def csrAddress (inst : Instruction) : BitVec 12 := (inst.field 12 20).setWidth 12

def extend (value : BitVec 32) (usedBits : Nat) : BitVec 32 :=
  value ||| ~~~((value &&& (1#32 <<< (usedBits - 1))) - 1)

def type (inst : Instruction) : InstructionType := (InstructionMap.find inst).type

def flags (inst : Instruction) : InstructionFlags := (InstructionMap.find inst).flags

def aluOp (inst : Instruction) : AluCombinedOp := (InstructionMap.find inst).alu

def memCtl (inst : Instruction) : AccessControl := (InstructionMap.find inst).memCtl

/-- The sign-extended immediate operand of the word's format. -/
def immediate (inst : Instruction) : BitVec 32 :=
  match inst.type with
  | .r => 0
  | .i => extend (inst.field 12 20) 12
  | .s => extend (inst.field 7 25 <<< 5 ||| inst.field 5 7) 12
  | .b =>
    extend (inst.field 4 8 <<< 1 ||| inst.field 6 25 <<< 5 ||| inst.field 1 7 <<< 11
      ||| inst.field 1 31 <<< 12) 13
  | .u => extend (inst.field 20 12 <<< 12) 32
  | .j =>
    extend (inst.field 10 21 <<< 1 ||| inst.field 1 20 <<< 11 ||| inst.field 8 12 <<< 12
      ||| inst.field 1 31 <<< 20) 21
  | .zicsr | .amo | .unknown => 0

def isZicsr (inst : Instruction) : Bool := inst.flags.has .csr

def size (_ : Instruction) : BitVec 64 := 4

theorem toNat_field (inst : Instruction) {len : Nat} (hlen : len ≤ 32) (off : Nat) :
    (inst.field len off).toNat = inst.toNat / 2 ^ off % 2 ^ len :=
  BitFields.toNat_field inst off hlen

theorem extend_eq_signExtend {n : Nat} (hn : 0 < n) (hle : n ≤ 32) {value : BitVec 32}
    (h : value.toNat < 2 ^ n) : extend value n = (value.setWidth n).signExtend 32 :=
  BitFields.signExtend_low hn hle h

/-- The immediate of the I format in a register. -/
theorem immediate_i {inst : Instruction} (htype : inst.type = .i) :
    RegisterValue.ofI32 inst.immediate = (inst.extractLsb' 20 12).signExtend 64 := by
  have hfield : (inst.field 12 20).toNat < 2 ^ 12 := by
    rw [toNat_field inst (by decide)]
    exact Nat.mod_lt _ (by decide)
  have hlow : (inst.field 12 20).setWidth 12 = inst.extractLsb' 20 12 := by
    apply eq_of_toNat_eq
    rw [toNat_setWidth, toNat_field inst (by decide), extractLsb'_toNat,
      Nat.shiftRight_eq_div_pow, Nat.mod_mod]
  rw [immediate, htype]
  dsimp only
  rw [extend_eq_signExtend (by decide) (by decide) hfield, hlow, RegisterValue.ofI32]
  exact BitFields.signExtend_signExtend _ (by decide) (by decide)

end Instruction

namespace InstructionMap

/-- A property of every table row, `unknown` included, holds of every word's entry. -/
theorem find_of_entries {p : InstructionEntry → Prop} (hentries : ∀ a ∈ root.entries, p a)
    (hunknown : p unknownEntry) (code : BitVec 32) : p (find code) := by
  simp only [find]
  split
  · exact hunknown
  · exact DecodeTree.lookup_of_entries hentries hunknown code

/-- Every row's pattern fixes the path to the row, apart from the rows for unknown words. -/
theorem pattern_fixes_path : ∀ l ∈ root.leaves [],
    l.2 = unknownEntry ∨ DecodeTree.PatternFixes l.2.code l.2.mask l.1 := by
  decide +kernel

variable {code : BitVec 32}

/-- A word that matches the pattern of a row has that row as its entry. -/
theorem find_of_match {l : DecodeTree.Path × InstructionEntry} (hl : l ∈ root.leaves [])
    (hmatch : (code ^^^ l.2.code) &&& l.2.mask = 0) (hknown : l.2 ≠ unknownEntry) :
    find code = l.2 := by
  have hfixes := (pattern_fixes_path l hl).resolve_left hknown
  have hlookup := DecodeTree.lookup_of_follows unknownEntry code [] root l hl
    (DecodeTree.follows_of_pattern hfixes hmatch)
  simp only [find, hlookup, hmatch, ne_eq, not_true_eq_false, if_false]

/-- The row found for a word is a row of the table that matches it. -/
theorem find_mem (hknown : find code ≠ unknownEntry) :
    ∃ l ∈ root.leaves [], l.2 = find code ∧
      WordPattern.Matches ⟨(find code).code, (find code).mask⟩ code := by
  simp only [find] at hknown ⊢
  by_cases hmatch : (code ^^^ (root.lookup unknownEntry code).code) &&&
      (root.lookup unknownEntry code).mask ≠ 0
  · rw [if_pos hmatch] at hknown
    exact absurd rfl hknown
  · rw [if_neg hmatch] at hknown ⊢
    rcases DecodeTree.lookup_mem_leaves unknownEntry code [] root with hmem | hunknown
    · obtain ⟨l, hl, hentry⟩ := List.mem_map.mp hmem
      exact ⟨l, hl, hentry, not_not.mp hmatch⟩
    · exact absurd hunknown hknown

/-- If the row of a pattern's code fixes no more bits than the pattern, it is the row of every word
of the pattern. -/
theorem find_of_pattern {p : WordPattern 32} (hknown : find p.code ≠ unknownEntry)
    (hmask : (find p.code).mask &&& p.mask = (find p.code).mask) (hmatch : p.Matches code) :
    find code = find p.code := by
  obtain ⟨l, hl, hentry, hcode⟩ := find_mem hknown
  rw [← hentry] at hknown hmask hcode ⊢
  exact find_of_match hl (hmatch.of_within ⟨hmask, hcode⟩) hknown

/-- A property of the rows of a list of patterns holds of the entry of every word that matches one
of them. -/
theorem find_of_patterns {patterns : List (WordPattern 32)} {P : InstructionEntry → Prop}
    (hrows : ∀ p ∈ patterns, (find p.code).type ≠ .unknown ∧ (find p.code).mask &&& p.mask = (find
      p.code).mask ∧ P (find p.code)) (h : ∃ p ∈ patterns, p.Matches code) : P (find code) := by
  obtain ⟨p, hp, hmatch⟩ := h
  obtain ⟨htype, hmask, hentry⟩ := hrows p hp
  have hknown : find p.code ≠ unknownEntry := fun hunknown =>
    htype (congrArg InstructionEntry.type hunknown)
  rw [find_of_pattern hknown hmask hmatch]
  exact hentry

/-- The rows of the tables, without those for unknown words. -/
def knownLeaves : List (DecodeTree.Path × InstructionEntry) :=
  (root.leaves []).filter fun l => l.2 ≠ unknownEntry

/-- The rows that match a word. -/
def matching (code : BitVec 32) : List (DecodeTree.Path × InstructionEntry) :=
  knownLeaves.filter fun l => (code ^^^ l.2.code) &&& l.2.mask = 0

theorem codes_nodup : (knownLeaves.map fun l => l.2.code).Nodup := by
  decide +kernel

theorem find_unknown_code : find unknownEntry.code = unknownEntry := by
  decide +kernel

theorem mem_matching {l : DecodeTree.Path × InstructionEntry} :
    l ∈ matching code ↔ (l ∈ root.leaves [] ∧ l.2 ≠ unknownEntry) ∧
      (code ^^^ l.2.code) &&& l.2.mask = 0 := by
  simp only [matching, knownLeaves, List.mem_filter, decide_eq_true_eq]

theorem find_of_mem_matching {l : DecodeTree.Path × InstructionEntry} (hl : l ∈ matching code) :
    find code = l.2 := by
  obtain ⟨⟨hleaf, hknown⟩, hmatch⟩ := mem_matching.mp hl
  exact find_of_match hleaf hmatch hknown

/-- A word matches the row that it is decoded to and no other one, and a row's code is decoded to
that row. -/
theorem find_eq_matching (code : BitVec 32) :
    (matching code).length ≤ 1 ∧ find code = (matching code).head?.elim unknownEntry Prod.snd ∧
      ∀ l ∈ root.leaves [], find l.2.code = l.2 := by
  refine ⟨?_, ?_, fun l hl => ?_⟩
  · have hcodes : ((matching code).map fun l => l.2.code).Nodup :=
      codes_nodup.sublist (List.filter_sublist.map _)
    have hfind : ∀ l ∈ matching code, find code = l.2 := fun l => find_of_mem_matching
    match hrows : matching code with
    | [] | [_] => simp
    | a :: b :: rows =>
      have heq : a.2 = b.2 := by
        rw [← hfind a (by simp [hrows]), ← hfind b (by simp [hrows])]
      simp [hrows, heq] at hcodes
  · cases hrows : matching code with
    | nil =>
      by_contra hknown
      obtain ⟨l, hl, hentry, hmatch⟩ := find_mem hknown
      have hmem : l ∈ matching code := mem_matching.mpr ⟨⟨hl, hentry ▸ hknown⟩, hentry ▸ hmatch⟩
      rw [hrows] at hmem
      exact absurd hmem List.not_mem_nil
    | cons l rows => exact find_of_mem_matching (hrows ▸ List.mem_cons_self)
  · by_cases hknown : l.2 = unknownEntry
    · rw [hknown, find_unknown_code]
    · exact find_of_match hl (by simp) hknown

end InstructionMap

def Encodes (patterns : List (WordPattern 32)) (word : Instruction) : Prop :=
  ∃ p ∈ patterns, p.Matches word

instance (patterns : List (WordPattern 32)) (word : Instruction) :
    Decidable (Encodes patterns word) :=
  inferInstanceAs (Decidable (∃ p ∈ patterns, _))

end QtRvSim
