import QtRvSim.Assembler.Symbols

/-!
# Values of expressions

The grammar of the assembler's expressions, its meaning in 64-bit arithmetic, and what the parser
and the evaluation make of them.  The parser keeps the way from the root to the operand it expects;
the priorities on that way are lower than those of what is to come, with one exception: a prefix
operator replaces the one in front of it.
-/

namespace QtRvSim

open Numeral FmeParser FmeNode
open List (cons_append nil_append append_assoc)

/-! ### Divisions -/

namespace FmeNode

variable (symdb : FmeSymbolDb) (instAddr : Address)

def value : FmeNode → Option FmeValue
  | .null => none
  | .constant v => some v
  | .symbol name => symdb name
  | .unaryOp _ op a => (value a).map (op.apply · instAddr)
  | .binaryOp _ op a b => (value a).bind fun x => (value b).bind fun y => op.apply x y

/-- Every division that the evaluation reaches has a quotient of 64 bits. -/
def DivisionsDefined : FmeNode → Prop
  | .null | .constant _ | .symbol _ => True
  | .unaryOp _ _ a => DivisionsDefined a
  | .binaryOp _ op a b => DivisionsDefined a ∧ ∀ x, value symdb instAddr a = some x →
      DivisionsDefined b ∧ (op = .div → ∀ y, value symdb instAddr b = some y →
        y ≠ 0 ∧ ¬(x = BitVec.intMin 64 ∧ y = -1))

variable {symdb instAddr} {node : FmeNode}

theorem eval_ok_iff {v : FmeValue} :
    node.eval symdb instAddr = .ok v ↔ node.value symdb instAddr = some v := by
  induction node generalizing v with
  | null => exact iff_of_false nofun nofun
  | constant => exact ⟨fun h => by cases h; rfl, fun h => by cases h; rfl⟩
  | symbol name =>
    rw [eval, value]
    cases symdb name with
    | none => exact iff_of_false nofun nofun
    | some => exact ⟨fun h => by cases h; rfl, fun h => by cases h; rfl⟩
  | unaryOp prio op a iha =>
    rw [eval, value, Option.map_eq_some_iff]
    simp only [← iha]
    cases eval symdb instAddr a with
    | error => exact iff_of_false nofun nofun
    | ok x => simp
  | binaryOp prio op a b iha ihb =>
    rw [eval, value, Option.bind_eq_some_iff]
    simp only [Option.bind_eq_some_iff, ← iha, ← ihb]
    cases eval symdb instAddr a with
    | error => exact iff_of_false nofun nofun
    | ok x =>
      cases eval symdb instAddr b with
      | error => exact iff_of_false nofun nofun
      | ok y => cases h : op.apply x y <;> simp [h]

theorem apply_eq_none_iff {op : FmeBinaryOp} {x y : FmeValue} :
    op.apply x y = none ↔ op = .div ∧ (y = 0 ∨ x = BitVec.intMin 64 ∧ y = -1) := by
  cases op with
  | div =>
    rw [FmeBinaryOp.apply]
    split
    · exact iff_of_true rfl ⟨rfl, ‹_›⟩
    · exact iff_of_false nofun fun h => absurd h.2 ‹_›
  | _ => exact iff_of_false nofun nofun

end FmeNode

/-! ### The grammar -/

/-- Expressions, with the number of blanks that follow each token.  A prefix operator may be `+`,
which has no operation of its own; brackets may follow a modifier. -/
inductive Expression where
  | number (word : Text) (blanks : Nat)
  | symbol (name : Text) (blanks : Nat)
  | group (modifier : Option FmeUnaryOp) (opening : Nat) (inner : Expression) (closing : Nat)
  | signed (sign : Option FmeUnaryOp) (blanks : Nat) (operand : Expression)
  | joined (op : FmeBinaryOp) (left : Expression) (blanks : Nat) (right : Expression)
deriving DecidableEq

def FmeBinaryOp.level : FmeBinaryOp → Int
  | .or => 10
  | .and | .xor => 15
  | .add | .sub => 20
  | .mul | .div => 30

theorem FmeBinaryOp.level_bounds (op : FmeBinaryOp) : 0 < op.level ∧ op.level < 90 := by
  cases op <;> decide

/-- Result of an operator in 64-bit arithmetic; only a division by zero has none. -/
def FmeBinaryOp.result (op : FmeBinaryOp) (x y : FmeValue) : Option FmeValue :=
  if op = .div ∧ y ≠ 0 then some (x.sdiv y) else op.apply x y

namespace Expression

def blanksText (n : Nat) : Text :=
  List.replicate n ' '

def text : Expression → Text
  | .number word blanks => word ++ blanksText blanks
  | .symbol name blanks => name ++ blanksText blanks
  | .group modifier opening inner closing =>
    modifier.elim [] FmeUnaryOp.description ++
      '(' :: (blanksText opening ++ (text inner ++ ')' :: blanksText closing))
  | .signed sign blanks operand =>
    sign.elim ['+'] FmeUnaryOp.description ++ (blanksText blanks ++ text operand)
  | .joined op left blanks right =>
    text left ++ (op.description ++ (blanksText blanks ++ text right))

def level : Expression → Int
  | .joined op _ _ _ => op.level
  | _ => 90

/-- Well-formed expressions: operators of one precedence associate to the left. -/
def WellFormed : Expression → Prop
  | .number word _ => (∀ c ∈ word, isWordChar c = true) ∧ word.head?.any Char.isDigit = true ∧
      (toLongLong word).isSome = true
  | .symbol name _ => IsSymbolName name
  | .group modifier _ inner _ => (∀ op ∈ modifier, op.isModifier = true) ∧ WellFormed inner
  | .signed sign _ operand =>
    (∀ op ∈ sign, op.isModifier = false) ∧ operand.level = 90 ∧ WellFormed operand
  | .joined op left _ right =>
    op.level ≤ left.level ∧ op.level < right.level ∧ WellFormed left ∧ WellFormed right

def erase : Expression → Expression
  | .number word _ => .number word 0
  | .symbol name _ => .symbol name 0
  | .group modifier _ inner _ => .group modifier 0 (erase inner) 0
  | .signed sign _ operand => .signed sign 0 (erase operand)
  | .joined op left _ right => .joined op (erase left) 0 (erase right)

def value (apply : FmeBinaryOp → FmeValue → FmeValue → Option FmeValue) (symdb : FmeSymbolDb)
    (instAddr : Address) : Expression → Option FmeValue
  | .number word _ => toLongLong word
  | .symbol name blanks => symdb (name ++ blanksText blanks)
  | .group op _ e _ | .signed op _ e =>
    (value apply symdb instAddr e).map fun x => op.elim x (·.apply x instAddr)
  | .joined op left _ right =>
    (value apply symdb instAddr left).bind fun x =>
      (value apply symdb instAddr right).bind fun y => apply op x y

/-- The expression without the prefix operators that directly precede another one or a modifier;
`sign` is the one in front. -/
def kept (sign : Option FmeUnaryOp) : Expression → Expression
  | .number word blanks => .signed sign 0 (.number word blanks)
  | .symbol name blanks => .signed sign 0 (.symbol name blanks)
  | .group none opening inner closing =>
    .signed sign 0 (.group none opening (kept none inner) closing)
  | .group (some op) opening inner closing => .group (some op) opening (kept none inner) closing
  | .signed sign' _ operand => kept (sign'.or sign) operand
  | .joined op left blanks right => .joined op (kept none left) blanks (kept none right)

/-! ### The tree of an expression -/

/-- A node under the prefix operator in front of it. -/
def under (base : Int) (sign : Option FmeUnaryOp) (node : FmeNode) : FmeNode :=
  sign.elim node fun op => .unaryOp (base + 90) op node

/-- The tree the parser builds; `base` counts the brackets. -/
def tree (base : Int) (sign : Option FmeUnaryOp) : Expression → FmeNode
  | .number word _ => under base sign (.constant ((toLongLong word).getD 0))
  | .symbol name blanks => under base sign (.symbol (name ++ blanksText blanks))
  | .group modifier _ inner _ => under base (modifier.or sign) (tree (base + 100) none inner)
  | .signed sign' _ operand => tree base (sign'.or sign) operand
  | .joined op left _ right =>
    .binaryOp (base + op.level) op (tree base none left) (tree base none right)

variable {symdb : FmeSymbolDb} {instAddr : Address} {e : Expression}

theorem value_under (base : Int) (sign : Option FmeUnaryOp) (node : FmeNode) :
    (under base sign node).value symdb instAddr =
      (node.value symdb instAddr).map fun x => sign.elim x (·.apply x instAddr) := by
  cases sign with
  | none => exact Option.map_id'.symm
  | some op => rfl

/-- The tree has the value of the expression without the prefix operators that are lost. -/
theorem value_tree (hwf : e.WellFormed) (base : Int) (sign : Option FmeUnaryOp) :
    (e.tree base sign).value symdb instAddr =
      (e.kept sign).value FmeBinaryOp.apply symdb instAddr := by
  induction e generalizing base sign with
  | number word blanks =>
    obtain ⟨v, hv⟩ := Option.isSome_iff_exists.mp hwf.2.2
    rw [tree, value_under, kept, value, value, hv]
    rfl
  | symbol name blanks => exact value_under base sign _
  | group modifier opening inner closing ih =>
    rw [tree, value_under, ih hwf.2]
    cases modifier with
    | none =>
      rw [kept, value, value]
      simp
    | some op => rfl
  | signed sign' blanks operand ih => exact ih hwf.2.2 base _
  | joined op left blanks right ihl ihr =>
    rw [tree, FmeNode.value, ihl hwf.2.2.1, ihr hwf.2.2.2]
    rfl

end Expression

/-! ### The parser on the text of an expression -/

/-- The way to the operand that is expected, on which all priorities are below a bound. -/
inductive Spine (bound : Int) : (FmeNode → FmeNode) → Prop where
  | hole : Spine bound id
  | unaryOp {fill : FmeNode → FmeNode} {prio : Int} (op : FmeUnaryOp) (h : Spine bound fill)
    (hprio : prio < bound) : Spine bound fun n => fill (.unaryOp prio op n)
  | binaryOp {fill : FmeNode → FmeNode} {prio : Int} (op : FmeBinaryOp) (a : FmeNode)
    (h : Spine bound fill) (hprio : prio < bound) :
    Spine bound fun n => fill (.binaryOp prio op a n)

namespace Spine

variable {bound : Int} {fill : FmeNode → FmeNode}

theorem mono (h : Spine bound fill) {bound' : Int} (hle : bound ≤ bound') : Spine bound' fill := by
  induction h with
  | hole => exact .hole
  | unaryOp op _ hprio ih => exact .unaryOp op ih (hprio.trans_le hle)
  | binaryOp op a _ hprio ih => exact .binaryOp op a ih (hprio.trans_le hle)

theorem insertLast (h : Spine bound fill) (new node : FmeNode) :
    FmeNode.insertLast new (fill node) = (FmeNode.insertLast new node).map fill := by
  induction h generalizing node with
  | hole => exact (congrFun Option.map_id _).symm
  | unaryOp op _ _ ih | binaryOp op a _ _ ih =>
    rw [ih, FmeNode.insertLast, Option.map_map]
    rfl

theorem insertOperator (h : Spine bound fill) {prio : Int} (hle : bound ≤ prio)
    (make : FmeNode → FmeNode) (node : FmeNode) :
    FmeNode.insertOperator prio make (fill node) =
      (FmeNode.insertOperator prio make node).map fill := by
  induction h generalizing node with
  | hole => exact (congrFun Option.map_id _).symm
  | unaryOp op _ hprio ih | binaryOp op a _ hprio ih =>
    rw [ih, FmeNode.insertOperator, if_neg (by omega), Option.map_map]
    rfl

/-- The way goes on under a prefix operator. -/
theorem under (h : Spine bound fill) {base : Int} (hbase : base + 90 < bound)
    (sign : Option FmeUnaryOp) : Spine bound fun n => fill (Expression.under base sign n) := by
  cases sign with
  | none => exact h
  | some op => exact .unaryOp op h hbase

end Spine

namespace FmeParser

/-- A word ends in front of the text. -/
def EndsWord (rest : Text) : Prop :=
  ∀ c ∈ rest.head?, isWordChar c = false ∧ isSpace c = false

/-- The parser goes from one state to another by reading a text. -/
def Reads (text : Text) (p p' : FmeParser) : Prop :=
  ∀ rest, EndsWord rest → run (text ++ rest) 0 p = run rest 0 p'

variable {p p' : FmeParser} {ch : Char}

theorem endsWord_cons (hword : isWordChar ch = false) (hspace : isSpace ch = false)
    (rest : Text) : EndsWord (ch :: rest) := by
  rintro c hc
  cases hc
  exact ⟨hword, hspace⟩

/-- Between words a character is an operator or a bracket. -/
theorem run_operator (hword : isWordChar ch = false) (hspace : isSpace ch = false)
    (hp : p.word = []) {rest : Text} {skip : Nat} (hop : p.operator ch rest = .ok (p', skip)) :
    run (ch :: rest) 0 p = run rest skip p' := by
  have hidle : p.endWord = .ok p := by rw [endWord, if_pos hp]
  rw [run, if_neg (by simp [hword]), if_neg (by simp [hspace]), hidle]
  dsimp only
  rw [hop]

theorem run_blanks (hp : p.word = []) (n : Nat) (rest : Text) :
    run (Expression.blanksText n ++ rest) 0 p = run rest 0 p := by
  induction n with
  | zero => rfl
  | succ n ih =>
    have hsame : { p with word := if p.word = [] then [] else p.word ++ [' '] } = p := by
      rw [if_pos hp, ← hp]
    rw [Expression.blanksText, List.replicate_succ, cons_append, run, if_neg (by decide),
      if_pos (by decide), hsame]
    exact ih

theorem run_skip (skipped rest : Text) : run (skipped ++ rest) skipped.length p = run rest 0 p := by
  induction skipped with
  | nil => rfl
  | cons c skipped ih => exact ih

/-- A modifier is skipped up to its bracket. -/
theorem run_modifier {op : FmeUnaryOp} (hop : op.isModifier = true) (hp : p.word = [])
    (hunary : p.unary '%' op = .ok p') (rest : Text) :
    run (op.description ++ '(' :: rest) 0 p = run ('(' :: rest) 0 p' := by
  have hskip {letters : Text} (hdescription : op.description = '%' :: letters)
      (hat : modifierAt (letters ++ '(' :: rest) = some (op, letters.length)) :
      run (op.description ++ '(' :: rest) 0 p = run ('(' :: rest) 0 p' := by
    rw [hdescription, cons_append, run_operator (by decide) (by decide) hp, run_skip]
    rw [operator, hat]
    dsimp only
    rw [hunary]
    rfl
  cases op with
  | hi | lo | pcrelHi | pcrelLo => exact hskip rfl rfl
  | not | neg => cases hop

/-- After an operand the character of an operator stands for the operator. -/
theorem operator_binary (hp : p.isUnary = false) (op : FmeBinaryOp) (rest : Text) :
    ∃ ch, op.description = [ch] ∧ isWordChar ch = false ∧ isSpace ch = false ∧
      p.operator ch rest = (p.binary ch op op.level).map (·, 0) := by
  have hsub : p.operator '-' rest = (p.binary '-' .sub 20).map (·, 0) := by
    rw [← Bool.not_eq_true] at hp
    exact if_neg hp
  have hadd : p.operator '+' rest = (p.binary '+' .add 20).map (·, 0) := by
    rw [← Bool.not_eq_true] at hp
    exact if_neg hp
  cases op with
  | sub => exact ⟨'-', rfl, rfl, rfl, hsub⟩
  | add => exact ⟨'+', rfl, rfl, rfl, hadd⟩
  | mul | div | or | and | xor => exact ⟨_, rfl, rfl, rfl, rfl⟩

/-- An operator or bracket and the blanks behind it. -/
theorem run_token (hword : isWordChar ch = false) (hspace : isSpace ch = false)
    (hp : p.word = []) (hp' : p'.word = []) {n : Nat} {rest : Text}
    (hop : p.operator ch (Expression.blanksText n ++ rest) = .ok (p', 0)) :
    run (ch :: (Expression.blanksText n ++ rest)) 0 p = run rest 0 p' := by
  rw [run_operator hword hspace hp hop, run_blanks hp']

/-- Blanks behind a word belong to it. -/
theorem run_wordBlanks (hp : p.word ≠ []) (n : Nat) (rest : Text) :
    run (Expression.blanksText n ++ rest) 0 p =
      run rest 0 { p with word := p.word ++ Expression.blanksText n } := by
  induction n generalizing p with
  | zero => rw [Expression.blanksText, List.replicate_zero, List.append_nil, nil_append]
  | succ n ih =>
    rw [Expression.blanksText, List.replicate_succ, cons_append, run, if_neg (by decide),
      if_pos (by decide), if_neg hp]
    have hrest := @ih { p with word := p.word ++ [' '] } (by simp)
    rwa [append_assoc] at hrest

/-- A word with the blanks behind it becomes the operand that is expected. -/
theorem Reads.word {w : Text} (hne : w ≠ []) (hw : ∀ c ∈ w, isWordChar c = true) {n : Nat}
    {node root : FmeNode} (hp : p.word = [])
    (hnode : wordNode (w ++ Expression.blanksText n) = .ok node)
    (hroot : insertLast node p.root = some root) :
    Reads (w ++ Expression.blanksText n) p
      { p with root := root, word := [], isUnary := false } := by
  intro rest hrest
  have hend : { p with word := w ++ Expression.blanksText n }.endWord =
      .ok { p with root := root, word := [], isUnary := false } := by
    rw [endWord, if_neg (by simp [hne]), hnode]
    dsimp only
    rw [hroot]
  rw [append_assoc, run_words hw, hp, nil_append, run_wordBlanks hne]
  cases rest with
  | nil =>
    rw [run, run, hend]
    rfl
  | cons c rest =>
    obtain ⟨hword, hspace⟩ := hrest c rfl
    rw [run, run, if_neg (by simp [hword]), if_neg (by simp [hspace]), if_neg (by simp [hword]),
      if_neg (by simp [hspace]), hend]
    rfl

end FmeParser

namespace Expression

variable {base : Int} {fill : FmeNode → FmeNode} {sign : Option FmeUnaryOp} {e : Expression}

theorem level_pos (e : Expression) : 0 < e.level := by
  cases e with
  | joined op => exact op.level_bounds.1
  | _ => exact (by decide : (0 : Int) < 90)

theorem insertOperator_under {prio : Int} {make : FmeNode → FmeNode} {node : FmeNode}
    (hprio : prio ≤ base + 90) (sign : Option FmeUnaryOp)
    (hnode : insertOperator prio make node = some (make node)) :
    insertOperator prio make (under base sign node) =
      some (make (under base sign node)) := by
  cases sign with
  | none => exact hnode
  | some op => exact if_pos hprio

/-- An operator of lower precedence goes above the whole tree of an operand. -/
theorem insertOperator_tree (hwf : e.WellFormed) {prio : Int} (hprio : prio ≤ base + e.level)
    (make : FmeNode → FmeNode) :
    insertOperator prio make (e.tree base sign) = some (make (e.tree base sign)) := by
  induction e generalizing base sign with
  | number | symbol => exact insertOperator_under hprio sign rfl
  | group modifier _ inner _ ih =>
    have hpos := inner.level_pos
    change prio ≤ base + 90 at hprio
    exact insertOperator_under hprio _ (ih hwf.2 (by omega))
  | signed sign' _ operand ih => exact ih hwf.2.2 (by rw [hwf.2.1]; exact hprio)
  | joined op => exact if_pos hprio

/-- A prefix operator takes the place of the one in front of it. -/
theorem unary_under (hfill : Spine (base + 90) fill) (ch : Char) (op : FmeUnaryOp) :
    unary ch op { root := fill (under base sign .null), basePrio := base } =
      .ok { root := fill (under base (some op) .null), basePrio := base } := by
  have hinsert : insertOperator (base + 90) (fun _ => .unaryOp (base + 90) op .null)
      (fill (under base sign .null)) = some (fill (under base (some op) .null)) := by
    rw [hfill.insertOperator le_rfl, insertOperator_under le_rfl sign rfl]
    rfl
  rw [unary]
  dsimp only
  rw [hinsert]

/-- A binary operator takes what is complete as its first operand. -/
theorem binary_tree (hwf : e.WellFormed) {op : FmeBinaryOp} (hop : op.level ≤ e.level)
    (hfill : Spine (base + op.level) fill) (ch : Char) :
    binary ch op op.level
        { root := fill (e.tree base none), basePrio := base, isUnary := false } =
      .ok { root := fill (.binaryOp (base + op.level) op (e.tree base none) .null)
            basePrio := base } := by
  have hinsert : insertOperator (base + op.level)
      (fun child => .binaryOp (base + op.level) op child .null) (fill (e.tree base none)) =
        some (fill (.binaryOp (base + op.level) op (e.tree base none) .null)) := by
    rw [hfill.insertOperator le_rfl, insertOperator_tree hwf (by omega)]
    rfl
  rw [binary]
  dsimp only
  rw [hinsert]

theorem insertLast_under (hfill : Spine (base + 90) fill) (node : FmeNode) :
    insertLast node (fill (under base sign .null)) =
      some (fill (under base sign node)) := by
  rw [hfill.insertLast]
  cases sign with
  | none | some => rfl

theorem wordNode_number {word : Text} (hdigit : word.head?.any Char.isDigit = true) {v : FmeValue}
    (hvalue : toLongLong word = some v) (blanks : Nat) :
    wordNode (word ++ blanksText blanks) = .ok (.constant v) := by
  have hblanks : ∀ c ∈ blanksText blanks, isSpace c = true := by
    intro c hc
    rw [List.eq_of_mem_replicate hc]
    rfl
  have hhead : (word ++ blanksText blanks).head?.any Char.isDigit = true := by
    cases word with
    | nil => cases hdigit
    | cons c => exact hdigit
  rw [wordNode, if_pos hhead, toLongLong_append hdigit hblanks, hvalue]

theorem wordNode_blanks {name : Text} (hname : IsSymbolName name) (blanks : Nat) :
    wordNode (name ++ blanksText blanks) = .ok (.symbol (name ++ blanksText blanks)) := by
  obtain ⟨c, hc⟩ := Option.ne_none_iff_exists'.mp (mt List.head?_eq_none_iff.mp hname.nonempty)
  rw [wordNode, List.head?_append, hc, Option.some_or, Option.any_some,
    hname.start c hc, if_neg Bool.false_ne_true]

/-- The parser reads an expression as its tree. -/
theorem reads (hwf : e.WellFormed) (hbase : 0 < base) (hsign : sign = none ∨ e.level = 90)
    (hfill : Spine (base + e.level) fill) :
    FmeParser.Reads e.text { root := fill (under base sign .null), basePrio := base }
      { root := fill (e.tree base sign), basePrio := base, isUnary := false } := by
  induction e generalizing base sign fill with
  | number word blanks =>
    obtain ⟨hword, hdigit, hvalue⟩ := hwf
    obtain ⟨v, hv⟩ := Option.isSome_iff_exists.mp hvalue
    have hne : word ≠ [] := fun h => by
      rw [h] at hdigit
      cases hdigit
    rw [tree, hv]
    exact .word hne hword rfl (wordNode_number hdigit hv blanks) (insertLast_under hfill _)
  | symbol name blanks =>
    exact .word hwf.nonempty hwf.word rfl (wordNode_blanks hwf blanks) (insertLast_under hfill _)
  | group modifier opening inner closing ih =>
    intro rest hrest
    have hpos := inner.level_pos
    -- in the brackets the operator in front is part of the way
    have hbrackets (s : Option FmeUnaryOp) :
        FmeParser.run ('(' :: (blanksText opening ++ (inner.text ++ ')' :: (blanksText closing ++
            rest)))) 0 { root := fill (under base s .null), basePrio := base } =
          FmeParser.run rest 0 { root := fill (under base s (inner.tree (base + 100) none))
                                 basePrio := base, isUnary := false } := by
      have hpath : Spine (base + 100 + inner.level) fun n => fill (under base s n) :=
        (hfill.mono (by change base + 90 ≤ _; omega)).under (by omega) s
      have hinner := ih hwf.2 (by omega) (.inl rfl) hpath
      have hclose : FmeParser.operator ')' (blanksText closing ++ rest)
          { root := fill (under base s (inner.tree (base + 100) none))
            basePrio := base + 100, isUnary := false } =
          .ok ({ root := fill (under base s (inner.tree (base + 100) none))
                 basePrio := base, isUnary := false }, 0) := by
        change ite (base + 100 - 100 ≤ 0) _ _ = _
        rw [Int.add_sub_cancel, if_neg (not_le.mpr hbase)]
      calc _ = _ := FmeParser.run_token (by decide) (by decide) rfl rfl rfl
        _ = _ := hinner _ (FmeParser.endsWord_cons (by decide) (by decide) _)
        _ = _ := FmeParser.run_token (by decide) (by decide) rfl rfl hclose
    rw [text, tree]
    cases modifier with
    | none =>
      simp only [Option.elim_none, nil_append, cons_append, append_assoc,
        Option.none_or]
      exact hbrackets sign
    | some op =>
      simp only [Option.elim_some, cons_append, append_assoc, Option.some_or]
      rw [FmeParser.run_modifier (hwf.1 op rfl) rfl (unary_under hfill '%' op)]
      exact hbrackets (some op)
  | signed sign' blanks operand ih =>
    obtain ⟨hop, hlevel, hwf⟩ := hwf
    intro rest hrest
    have hpath : Spine (base + operand.level) fill := hfill.mono (by rw [hlevel]; exact le_rfl)
    rw [text, append_assoc, append_assoc, tree,
      ← ih hwf hbase (.inr hlevel) hpath rest hrest]
    cases sign' with
    | none => exact FmeParser.run_token (by decide) (by decide) rfl rfl rfl
    | some op =>
      have hunary (ch : Char) :=
        congrArg (Except.map (·, 0)) (@unary_under base fill sign hfill ch op)
      cases op with
      | hi | lo | pcrelHi | pcrelLo => cases hop _ rfl
      | not => exact FmeParser.run_token (by decide) (by decide) rfl rfl (hunary '~')
      | neg => exact FmeParser.run_token (by decide) (by decide) rfl rfl (hunary '-')
  | joined op left blanks right ihl ihr =>
    obtain ⟨hleft, hright, hwfl, hwfr⟩ := hwf
    have hlevel : op.level < 90 := op.level_bounds.2
    obtain rfl : sign = none := hsign.resolve_right hlevel.ne
    intro rest hrest
    change Spine (base + op.level) fill at hfill
    have hspine : Spine (base + right.level)
        fun n => fill (.binaryOp (base + op.level) op (left.tree base none) n) :=
      .binaryOp op _ (hfill.mono (by omega)) (by omega)
    have hfirst := ihl hwfl hbase (.inl rfl) (hfill.mono (by omega))
    have hsecond := ihr hwfr hbase (.inl rfl) hspine rest hrest
    obtain ⟨ch, htext, hword, hspace, hop⟩ := @FmeParser.operator_binary
      { root := fill (left.tree base none), basePrio := base, isUnary := false } rfl op
      (blanksText blanks ++ (right.text ++ rest))
    rw [binary_tree hwfl hleft hfill] at hop
    rw [text, append_assoc, append_assoc, append_assoc, htext]
    calc _ = _ := hfirst _ (FmeParser.endsWord_cons hword hspace _)
      _ = _ := FmeParser.run_token hword hspace rfl rfl hop
      _ = _ := hsecond

/-- A well-formed expression is accepted. -/
theorem parse_text (hwf : e.WellFormed) : parse e.text = .ok (e.tree 100 none) := by
  have hrun := reads hwf (by decide : (0 : Int) < 100) (.inl rfl) .hole [] nofun
  rw [List.append_nil] at hrun
  rw [parse]
  exact congrArg (Except.map (·.root)) hrun

/-- The tree of a modified symbol. -/
theorem parse_modifier {op : FmeUnaryOp} (hop : op.isModifier = true) {name : Text}
    (hname : IsSymbolName name) :
    parse (modifierText op name) = .ok (.unaryOp 190 op (.symbol name)) := by
  have hparse := @parse_text (.group (some op) 0 (.symbol name 0) 0)
    ⟨fun _ h => Option.some.inj h ▸ hop, hname⟩
  simp only [text, tree, blanksText, List.replicate_zero, List.append_nil,
    nil_append] at hparse
  exact hparse

def outcome (text : Text) (symdb : FmeSymbolDb) (instAddr : Address) : Option FmeValue :=
  match FmeNode.parse text with
  | .error _ => none
  | .ok root => (root.eval symdb instAddr).toOption

theorem outcome_text (hwf : e.WellFormed) (symdb : FmeSymbolDb) (instAddr : Address) :
    outcome e.text symdb instAddr =
      (e.kept none).value FmeBinaryOp.apply symdb instAddr := by
  rw [outcome, parse_text hwf, ← value_tree hwf 100]
  dsimp only
  cases h : (e.tree 100 none).value symdb instAddr with
  | some v => rw [eval_ok_iff.mpr h]; rfl
  | none =>
    cases heval : (e.tree 100 none).eval symdb instAddr with
    | error => rfl
    | ok v => exact absurd (eval_ok_iff.mp heval) (h ▸ nofun)

/-- No symbol is followed by a blank. -/
def NamesEnd : Expression → Prop
  | .number _ _ => True
  | .symbol _ blanks => blanks = 0
  | .group _ _ e _ | .signed _ _ e => NamesEnd e
  | .joined _ left _ right => NamesEnd left ∧ NamesEnd right

theorem wellFormed_erase (hwf : e.WellFormed) : e.erase.WellFormed ∧ e.erase.level = e.level := by
  induction e with
  | number | symbol => exact ⟨hwf, rfl⟩
  | group _ _ _ _ ih => exact ⟨⟨hwf.1, (ih hwf.2).1⟩, rfl⟩
  | signed _ _ _ ih =>
    obtain ⟨h, hlevel⟩ := ih hwf.2.2
    exact ⟨⟨hwf.1, hlevel.trans hwf.2.1, h⟩, rfl⟩
  | joined _ _ _ _ ihl ihr =>
    obtain ⟨hl, hlevell⟩ := ihl hwf.2.2.1
    obtain ⟨hr, hlevelr⟩ := ihr hwf.2.2.2
    exact ⟨⟨hlevell ▸ hwf.1, hlevelr ▸ hwf.2.1, hl, hr⟩, rfl⟩

theorem tree_erase (hnames : e.NamesEnd) : e.erase.tree base sign = e.tree base sign := by
  induction e generalizing base sign with
  | number => rfl
  | symbol name blanks =>
    obtain rfl : blanks = 0 := hnames
    rfl
  | group _ _ _ _ ih => rw [erase, tree, tree, ih hnames]
  | signed _ _ _ ih => exact ih hnames
  | joined _ _ _ _ ihl ihr => rw [erase, tree, tree, ihl hnames.1, ihr hnames.2]

end Expression

open Expression

end QtRvSim
