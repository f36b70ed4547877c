import DecafTac.Storage.FrameShape
import DecafTac.Tac.Emission

/-!
The emitter: where storage, temporaries and labels come from. Within a function, variables and
temporaries take the next local slot, and the frame is as large as the slots taken; outside, variables
take the next global slot. Temporaries and labels are numbered through the whole program.
-/
namespace DecafTac

structure Emitter where
  shape : FrameShape
  /-- The number of the next label. -/
  nextLabel : Nat := 0
  /-- The number of the next temporary. -/
  nextTemp : Nat := 0
  /-- Local slots taken by the open function. -/
  locals : Nat := 0
  /-- Global slots taken. -/
  globals : Nat := 0
  /-- Whether a function is open. -/
  inFunction : Bool := false
  /-- Instructions issued. -/
  issued : Nat := 0
  deriving DecidableEq, Inhabited

/-- A step that issues instructions. -/
abbrev Emit := Emission Emitter

namespace Emitter

/-- Issues one instruction. -/
def issue (i : Instruction) : Emit Unit := fun e => ⟨(), { e with issued := e.issued + 1 }, [i]⟩

/-! ## Storage -/

/-- The name of a label by its number. -/
def labelName (n : Nat) : String := "_L" ++ toString n

/-- The name of a temporary by its number. -/
def tempName (n : Nat) : String := "_tmp" ++ toString n

/-- A label that no other has. -/
def freshLabel : Emit String := fun e =>
  ⟨labelName e.nextLabel, { e with nextLabel := e.nextLabel + 1 }, []⟩

/-- Storage for a declared variable: the next local slot, or the next global one. -/
def allocate (name : String) : Emit Location := fun e =>
  if e.inFunction then
    ⟨⟨name, .frame, e.shape.localPosition e.locals⟩, { e with locals := e.locals + 1 }, []⟩
  else
    ⟨⟨name, .global, e.shape.globalPosition e.globals⟩, { e with globals := e.globals + 1 }, []⟩

/-- A temporary that no other has. -/
def temp : Emit Location := do
  let e ← Emission.get
  Emission.modify fun e => { e with nextTemp := e.nextTemp + 1 }
  allocate (tempName e.nextTemp)

/-- The slot of an incoming parameter. -/
def param (e : Emitter) (name : String) (index : Nat) : Location :=
  ⟨name, .frame, e.shape.paramPosition index⟩

/-! ## Functions -/

def label (name : String) : Emit Unit := issue (.label name)

/-- Opens a function with an empty frame. -/
def beginFunction (name : String) : Emit Unit := do
  Emission.modify fun e => { e with inFunction := true, locals := 0 }
  label name
  issue .beginFunc

/-- Closes the open function and gives the bytes of its frame. -/
def endFunction : Emit Int := do
  let e ← Emission.get
  let frameSize := slotBytes e.shape.slotSize e.locals
  issue (.endFunc frameSize)
  Emission.modify fun e => { e with inFunction := false, locals := 0 }
  return frameSize

def ret (value : Option Location) : Emit Unit := issue (.ret value)

/-! ## Values -/

def loadConstant (value : Constant) : Emit Location := do
  let dst ← temp
  issue (.loadConstant dst value)
  return dst

def loadInt (value : Int) : Emit Location := loadConstant (.int value)

def loadDouble (bits : UInt64) : Emit Location := loadConstant (.double bits)

def loadString (value : String) : Emit Location := loadConstant (.string value)

def loadLabel (name : String) : Emit Location := do
  let dst ← temp
  issue (.loadLabel dst name)
  return dst

def assign (dst src : Location) : Emit Unit := issue (.assign dst src)

/-- Reads memory into a new temporary. -/
def load (addr : Location) (offset : Int) : Emit Location := do
  let dst ← temp
  issue (.load dst addr offset)
  return dst

def store (addr src : Location) (offset : Int) : Emit Unit := issue (.store addr src offset)

def binary (op : TacOp) (left right : Location) : Emit Location := do
  let dst ← temp
  issue (.binary op dst left right)
  return dst

/-! ## Jumps -/

def jump (label : String) : Emit Unit := issue (.jump label)

def jumpIfZero (test : Location) (label : String) : Emit Unit := issue (.jumpIfZero test label)

/-! ## Calls -/

def pushParam (param : Location) : Emit Unit := issue (.pushParam param)

/-- Takes parameters off again. Nothing is issued when there are none. -/
def popParams (bytes : Int) : Emit Unit :=
  if 0 < bytes then issue (.popParams bytes) else pure ()

/-- A temporary for a result, when there is one. -/
def resultTemp (hasResult : Bool) : Emit (Option Location) :=
  if hasResult then some <$> temp else pure none

def callLabel (label : String) (hasResult : Bool) : Emit (Option Location) := do
  let dst ← resultTemp hasResult
  issue (.callLabel label dst)
  return dst

def callAddress (addr : Location) (hasResult : Bool) : Emit (Option Location) := do
  let dst ← resultTemp hasResult
  issue (.callAddress addr dst)
  return dst

def callRoutine (routine : Routine) (args : List Location) : Emit (Option Location) := do
  let dst ← resultTemp routine.hasResult
  issue (.callRoutine routine args dst)
  return dst

def methodTable (cls : String) (methods : List String) : Emit Unit :=
  issue (.methodTable cls methods)

end Emitter

end DecafTac
