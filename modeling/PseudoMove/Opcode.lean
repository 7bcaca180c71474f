import PseudoMove.Text.Search
import PseudoMove.Text.Blank
/-!
# Opcodes

The instruction set as a listing spells it. A mnemonic may carry the suffix `Generic`, which says that
the instruction has type arguments and is dropped. Every other spelling is kept as an unknown opcode.
-/

namespace PseudoMove

open Text

/-- The unsigned integer types. -/
inductive IntWidth where
  | u8 | u16 | u32 | u64 | u128 | u256
deriving DecidableEq, Repr

namespace IntWidth

/-- All integer types, narrowest first. -/
def all : List IntWidth := [.u8, .u16, .u32, .u64, .u128, .u256]

/-- The type's name in source. -/
def name : IntWidth → String
  | .u8 => "u8" | .u16 => "u16" | .u32 => "u32"
  | .u64 => "u64" | .u128 => "u128" | .u256 => "u256"

/-- The type as the end of a mnemonic. -/
def suffix : IntWidth → String
  | .u8 => "U8" | .u16 => "U16" | .u32 => "U32"
  | .u64 => "U64" | .u128 => "U128" | .u256 => "U256"

/-- The integer type with a given suffix. -/
def ofSuffix? (s : String) : Option IntWidth := all.find? fun ty => ty.suffix = s

end IntWidth

/-- The operators: two values in, one value out. -/
inductive Operator where
  | add | sub | mul | div | mod
  | bitOr | bitAnd | xor | shl | shr
  | lt | le | gt | ge | eq | neq
  | and | or
deriving DecidableEq, Repr

namespace Operator

/-- All operators. -/
def all : List Operator :=
  [.add, .sub, .mul, .div, .mod, .bitOr, .bitAnd, .xor, .shl, .shr,
    .lt, .le, .gt, .ge, .eq, .neq, .and, .or]

/-- The operator in source. -/
def symbol : Operator → String
  | .add => "+" | .sub => "-" | .mul => "*" | .div => "/" | .mod => "%"
  | .bitOr => "|" | .bitAnd => "&" | .xor => "^" | .shl => "<<" | .shr => ">>"
  | .lt => "<" | .le => "<=" | .gt => ">" | .ge => ">=" | .eq => "==" | .neq => "!="
  | .and => "&&" | .or => "||"

/-- The operator in a listing. -/
def mnemonic : Operator → String
  | .add => "Add" | .sub => "Sub" | .mul => "Mul" | .div => "Div" | .mod => "Mod"
  | .bitOr => "BitOr" | .bitAnd => "BitAnd" | .xor => "Xor" | .shl => "Shl" | .shr => "Shr"
  | .lt => "Lt" | .le => "Le" | .gt => "Gt" | .ge => "Ge" | .eq => "Eq" | .neq => "Neq"
  | .and => "And" | .or => "Or"

end Operator

/-- One instruction's operation. An unknown one keeps its mnemonic. -/
inductive Opcode where
  | copyLoc | moveLoc | immBorrowLoc | mutBorrowLoc | stLoc
  | call | pack | unpack | ret | freezeRef
  | ldInt (ty : IntWidth) | ldTrue | ldFalse | ldConst
  | pop | brTrue | brFalse | branch | abort
  | immBorrowField | mutBorrowField | readRef | writeRef
  | binary (op : Operator) | not | cast (ty : IntWidth)
  | vecPack | vecLen | vecImmBorrow | vecMutBorrow
  | vecPushBack | vecPopBack | vecUnpack | vecSwap
  | existsGlobal | moveFrom | moveTo | immBorrowGlobal | mutBorrowGlobal
  | nop
  | unknown (mnemonic : String)
deriving DecidableEq, Repr

namespace Opcode

/-- The opcode in a listing. -/
def mnemonic : Opcode → String
  | .copyLoc => "CopyLoc" | .moveLoc => "MoveLoc"
  | .immBorrowLoc => "ImmBorrowLoc" | .mutBorrowLoc => "MutBorrowLoc" | .stLoc => "StLoc"
  | .call => "Call" | .pack => "Pack" | .unpack => "Unpack" | .ret => "Ret"
  | .freezeRef => "FreezeRef"
  | .ldInt ty => "Ld" ++ ty.suffix
  | .ldTrue => "LdTrue" | .ldFalse => "LdFalse" | .ldConst => "LdConst"
  | .pop => "Pop" | .brTrue => "BrTrue" | .brFalse => "BrFalse" | .branch => "Branch"
  | .abort => "Abort"
  | .immBorrowField => "ImmBorrowField" | .mutBorrowField => "MutBorrowField"
  | .readRef => "ReadRef" | .writeRef => "WriteRef"
  | .binary op => op.mnemonic
  | .not => "Not"
  | .cast ty => "Cast" ++ ty.suffix
  | .vecPack => "VecPack" | .vecLen => "VecLen"
  | .vecImmBorrow => "VecImmBorrow" | .vecMutBorrow => "VecMutBorrow"
  | .vecPushBack => "VecPushBack" | .vecPopBack => "VecPopBack"
  | .vecUnpack => "VecUnpack" | .vecSwap => "VecSwap"
  | .existsGlobal => "Exists" | .moveFrom => "MoveFrom" | .moveTo => "MoveTo"
  | .immBorrowGlobal => "ImmBorrowGlobal" | .mutBorrowGlobal => "MutBorrowGlobal"
  | .nop => "Nop"
  | .unknown mnemonic => mnemonic

/-- All opcodes of the instruction set. -/
def all : List Opcode :=
  [.copyLoc, .moveLoc, .immBorrowLoc, .mutBorrowLoc, .stLoc, .call, .pack, .unpack, .ret,
    .freezeRef, .ldTrue, .ldFalse, .ldConst, .pop, .brTrue, .brFalse, .branch, .abort,
    .immBorrowField, .mutBorrowField, .readRef, .writeRef, .not, .vecPack, .vecLen, .vecImmBorrow,
    .vecMutBorrow, .vecPushBack, .vecPopBack, .vecUnpack, .vecSwap, .existsGlobal, .moveFrom,
    .moveTo, .immBorrowGlobal, .mutBorrowGlobal, .nop] ++
  IntWidth.all.map .ldInt ++ IntWidth.all.map .cast ++ Operator.all.map .binary

/-- The opcode a mnemonic spells. One suffix `Generic` is dropped before the instruction set is
searched; a mnemonic that is not found is kept whole. -/
def ofMnemonic (s : List Char) : Opcode :=
  let s := trim s
  let base := String.ofList ((beforeSuffix? "Generic".toList s).getD s)
  (all.find? fun op => op.mnemonic = base).getD (.unknown (String.ofList s))

/-- Whether the opcode belongs to the instruction set. -/
def isKnown : Opcode → Bool
  | .unknown _ => false
  | _ => true

/-- Whether the opcode may transfer control. -/
def isBranch : Opcode → Bool
  | .brTrue | .brFalse | .branch => true
  | _ => false

/-- The family an opcode is counted under. -/
def family : Opcode → String
  | .copyLoc | .moveLoc => "local-read"
  | .immBorrowLoc | .mutBorrowLoc => "local-borrow"
  | .stLoc => "local-store"
  | .call => "call"
  | .pack | .unpack => "struct"
  | .ret => "return"
  | .freezeRef | .readRef | .writeRef => "reference"
  | .ldInt _ | .ldTrue | .ldFalse | .ldConst => "constant"
  | .pop | .nop => "stack"
  | .brTrue | .brFalse | .branch => "branch"
  | .abort => "abort"
  | .immBorrowField | .mutBorrowField => "field-borrow"
  | .binary _ | .not => "operator"
  | .cast _ => "cast"
  | .vecPack | .vecLen | .vecImmBorrow | .vecMutBorrow
  | .vecPushBack | .vecPopBack | .vecUnpack | .vecSwap => "vector"
  | .existsGlobal | .moveFrom | .moveTo | .immBorrowGlobal | .mutBorrowGlobal => "global"
  | .unknown _ => "unknown"

/-- What the opcode does, in a few words. -/
def describe : Opcode → String
  | .copyLoc => "copy local onto the stack"
  | .moveLoc => "move local onto the stack"
  | .immBorrowLoc => "push immutable reference to local"
  | .mutBorrowLoc => "push mutable reference to local"
  | .stLoc => "pop value into local"
  | .call => "call function with stack arguments"
  | .pack => "build struct from stack values"
  | .unpack => "destructure struct onto the stack"
  | .ret => "return from function"
  | .freezeRef => "turn mutable reference into immutable"
  | .ldInt ty => "push " ++ ty.name ++ " literal"
  | .ldTrue => "push true"
  | .ldFalse => "push false"
  | .ldConst => "push constant from pool"
  | .pop => "discard top of stack"
  | .brTrue => "branch if true"
  | .brFalse => "branch if false"
  | .branch => "unconditional branch"
  | .abort => "abort with error code"
  | .immBorrowField => "borrow field immutably"
  | .mutBorrowField => "borrow field mutably"
  | .readRef => "read through reference"
  | .writeRef => "write through reference"
  | .binary op => "binary operator " ++ op.symbol
  | .not => "logical not"
  | .cast ty => "cast to " ++ ty.name
  | .vecPack => "build vector from stack values"
  | .vecLen => "vector length"
  | .vecImmBorrow => "borrow vector element"
  | .vecMutBorrow => "borrow vector element mutably"
  | .vecPushBack => "append to vector"
  | .vecPopBack => "remove last vector element"
  | .vecUnpack => "spread vector onto the stack"
  | .vecSwap => "swap vector elements"
  | .existsGlobal => "check global resource exists"
  | .moveFrom => "move resource out of global storage"
  | .moveTo => "publish resource to global storage"
  | .immBorrowGlobal => "borrow global resource"
  | .mutBorrowGlobal => "borrow global resource mutably"
  | .nop => "no operation"
  | .unknown mnemonic => "unrecognized opcode " ++ mnemonic

end Opcode

end PseudoMove
