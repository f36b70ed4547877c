import DecafTac.Decimal.Positional
import DecafTac.Storage.FrameShape
import DecafTac.Text.Quoted
import DecafTac.Text.Unseen

/-!
Three-address instructions and how they are written. An instruction names its operands by location: a
name for the reader, and a segment with an offset for the machine.
-/
namespace DecafTac

/-- What an offset is counted from. -/
inductive Segment where
  /-- The frame pointer: parameters, locals and temporaries. -/
  | frame
  /-- The global pointer. -/
  | global
  deriving DecidableEq, Inhabited

/-- A named slot of storage. -/
structure Location where
  name : String
  segment : Segment
  position : Int
  deriving DecidableEq, Inhabited

/-- The offset of a location from the pointer of its segment. -/
def Location.offset (loc : Location) : Int := wrap32 loc.position

/-- The segment pointer and the signed offset of a location. -/
def Location.place (loc : Location) : String :=
  let pointer := match loc.segment with
    | .frame => "fp"
    | .global => "gp"
  pointer ++ (if loc.offset < 0 then "" else "+") ++ toString loc.offset

inductive Constant where
  | int (value : Int)
  /-- A double, by its bits. -/
  | double (bits : UInt64)
  | string (value : String)
  deriving DecidableEq, Inhabited

/-- String constants are quoted so that each stays on one line and can be told by sight. -/
def Constant.text : Constant → String
  | .int value => toString value
  | .double bits => Decimal.text bits
  | .string value => Text.Quoted.quote Text.isUnseen value

/-- The operators that the machine has. -/
inductive TacOp where
  | add
  | sub
  | mul
  | div
  | mod
  | less
  | equal
  | and
  | or
  deriving DecidableEq, Inhabited

namespace TacOp

def text : TacOp → String
  | .add => "+"
  | .sub => "-"
  | .mul => "*"
  | .div => "/"
  | .mod => "%"
  | .less => "<"
  | .equal => "=="
  | .and => "&&"
  | .or => "||"

def all : List TacOp := [.add, .sub, .mul, .div, .mod, .less, .equal, .and, .or]

/-- The operator that is written so. -/
def ofText? (word : String) : Option TacOp := all.find? (·.text == word)

end TacOp

/-- The routines that come with the machine. -/
inductive Routine where
  | alloc
  | readLine
  | readInteger
  | stringEqual
  | printInt
  | printString
  | printBool
  | halt
  deriving DecidableEq, Inhabited

namespace Routine

def text : Routine → String
  | .alloc => "_Alloc"
  | .readLine => "_ReadLine"
  | .readInteger => "_ReadInteger"
  | .stringEqual => "_StringEqual"
  | .printInt => "_PrintInt"
  | .printString => "_PrintString"
  | .printBool => "_PrintBool"
  | .halt => "_Halt"

def all : List Routine :=
  [.alloc, .readLine, .readInteger, .stringEqual, .printInt, .printString, .printBool, .halt]

/-- The routine that is called so. -/
def ofText? (word : String) : Option Routine := all.find? (·.text == word)

/-- How many arguments a routine takes. -/
def arity : Routine → Nat
  | .readLine | .readInteger | .halt => 0
  | .alloc | .printInt | .printString | .printBool => 1
  | .stringEqual => 2

/-- Whether a routine gives a value. -/
def hasResult : Routine → Bool
  | .alloc | .readLine | .readInteger | .stringEqual => true
  | .printInt | .printString | .printBool | .halt => false

end Routine

inductive Instruction where
  | loadConstant (dst : Location) (value : Constant)
  | loadLabel (dst : Location) (label : String)
  | assign (dst src : Location)
  /-- Reads the word at an address with an offset. -/
  | load (dst addr : Location) (offset : Int)
  /-- Writes the word at an address with an offset. -/
  | store (addr src : Location) (offset : Int)
  | binary (op : TacOp) (dst left right : Location)
  | label (name : String)
  | jump (label : String)
  /-- Jumps when the operand is zero. -/
  | jumpIfZero (test : Location) (label : String)
  | beginFunc
  /-- Closes a function, with the bytes that its locals and temporaries take. -/
  | endFunc (frameSize : Int)
  | ret (value : Option Location)
  | pushParam (param : Location)
  /-- Takes parameters off again, by their bytes. -/
  | popParams (bytes : Int)
  /-- Calls a function by its label. -/
  | callLabel (label : String) (dst : Option Location)
  /-- Calls the function at an address. -/
  | callAddress (addr : Location) (dst : Option Location)
  | callRoutine (routine : Routine) (args : List Location) (dst : Option Location)
  /-- The table of a class, one label for each slot. -/
  | methodTable (cls : String) (methods : List String)
  deriving DecidableEq, Inhabited

namespace Instruction

def isLabel : Instruction → Bool
  | .label _ => true
  | _ => false

/-- The locations an instruction names: the one it writes first, then those it reads. A store writes
to memory, so it names its address first. -/
def operands : Instruction → List Location
  | .loadConstant dst _ | .loadLabel dst _ => [dst]
  | .assign dst src => [dst, src]
  | .load dst addr _ => [dst, addr]
  | .store addr src _ => [addr, src]
  | .binary _ dst left right => [dst, left, right]
  | .jumpIfZero test _ => [test]
  | .ret value => value.toList
  | .pushParam param => [param]
  | .callLabel _ dst => dst.toList
  | .callAddress addr dst => dst.toList ++ [addr]
  | .callRoutine _ args dst => dst.toList ++ args
  | .label _ | .jump _ | .beginFunc | .endFunc _ | .popParams _ | .methodTable .. => []

/-- An address with an offset; an offset of zero is not written. -/
def address (addr : Location) (offset : Int) : String :=
  if offset = 0 then "*(" ++ addr.name ++ ")"
  else if offset < 0 then "*(" ++ addr.name ++ " - " ++ toString (-offset) ++ ")"
  else "*(" ++ addr.name ++ " + " ++ toString offset ++ ")"

/-- The place that a call gives its value to. -/
def receiving : Option Location → String
  | some dst => dst.name ++ " = "
  | none => ""

def text : Instruction → String
  | .loadConstant dst value => dst.name ++ " = " ++ value.text
  | .loadLabel dst target => dst.name ++ " = " ++ target
  | .assign dst src => dst.name ++ " = " ++ src.name
  | .load dst addr offset => dst.name ++ " = " ++ address addr offset
  | .store addr src offset => address addr offset ++ " = " ++ src.name
  | .binary op dst left right =>
    dst.name ++ " = " ++ left.name ++ " " ++ op.text ++ " " ++ right.name
  | .label name => name ++ ":"
  | .jump target => "Goto " ++ target
  | .jumpIfZero test target => "IfZ " ++ test.name ++ " Goto " ++ target
  | .beginFunc => "BeginFunc"
  | .endFunc frameSize => "EndFunc " ++ toString frameSize
  | .ret (some value) => "Return " ++ value.name
  | .ret none => "Return"
  | .pushParam param => "PushParam " ++ param.name
  | .popParams bytes => "PopParams " ++ toString bytes
  | .callLabel target dst => receiving dst ++ "LCall " ++ target
  | .callAddress addr dst => receiving dst ++ "ACall " ++ addr.name
  | .callRoutine routine args dst =>
    receiving dst ++ routine.text ++ "(" ++ ", ".intercalate (args.map Location.name) ++ ")"
  | .methodTable cls methods => "VTable " ++ cls ++ " = " ++ ", ".intercalate methods

/-- One line of a listing. Labels stand at the margin, all else is indented. -/
def line (i : Instruction) : String := (if i.isLabel then "" else "\t") ++ i.text ++ "\n"

end Instruction

/-- A listing of instructions, one on each line. -/
def listing (code : List Instruction) : String := String.join (code.map Instruction.line)

end DecafTac
