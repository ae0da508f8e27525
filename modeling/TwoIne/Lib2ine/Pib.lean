import TwoIne.Lib.CStrings

/-! The block of a new process with its environment, its name and its command line. -/

namespace TwoIne

open CStrings

/-- Whether a byte is a blank or a tab. -/
def isBlank (ch : UInt8) : Bool := ch == 32 || ch == 9

/-- The double quote. -/
def quoteMark : UInt8 := 34

/-- The backslash. -/
def backslash : UInt8 := 92

/-- The end of a line. -/
def newline : UInt8 := 10

/-- What the process information block is made from. -/
structure PibSource where
  /-- The variable `PATH=` that is made of `OS2PATH`. -/
  path : CString
  /-- Whether another program under the loader started this one. -/
  subprocess : Bool
  envp : List CString
  argv0 : CString
  args : List CString
  pid : Nat
  ppid : Nat
  deriving DecidableEq, Repr

/-- The process information block, with its pointers as positions in the block of the strings. -/
structure Pib where
  block : List UInt8
  libpath : List UInt8
  ulpid : Nat
  ulppid : Nat
  pchcmd : Nat
  pchenv : Nat
  deriving DecidableEq, Repr

/-- What is copied of an environment variable, if anything is. -/
def copiedVariable (path : CString) (subprocess : Bool) (str : CString) : Option CString :=
  if (ascii "PATH=").isPrefixOf str.bytes then some (if subprocess then str else path)
  else if (ascii "IS_2INE=").isPrefixOf str.bytes then none
  else some str

/-- The value of the last `LIBPATH` of the environment, empty without one. -/
def libpathOf (envp : List CString) : List UInt8 :=
  envp.foldl (fun libpath str =>
    if (ascii "LIBPATH=").isPrefixOf str.bytes then str.bytes.drop 8 else libpath) []

/-- The environment variables one behind the other, with a zero at the end. -/
def environmentBytes (src : PibSource) : List UInt8 :=
  (src.envp.filterMap (copiedVariable src.path src.subprocess)).flatMap
    (fun str => stored str.bytes) ++ [0]

/-- Whether an argument is put in quotes. -/
def needsEscape (arg : List UInt8) : Bool := arg.any isBlank

/-- A byte of an argument in quotes. -/
def escapeByte (ch : UInt8) : List UInt8 :=
  if ch = backslash ∨ ch = newline then [backslash, ch] else [ch]

/-- An argument as it stands on the command line. -/
def quoteArg (arg : List UInt8) : List UInt8 :=
  if needsEscape arg then quoteMark :: (arg.flatMap escapeByte ++ [quoteMark]) else arg

/-- The arguments behind the first one, with a blank between them. -/
def joinArgs : List (List UInt8) → List UInt8
  | [] => []
  | [arg] => quoteArg arg
  | arg :: next :: rest => quoteArg arg ++ 32 :: joinArgs (next :: rest)

/-- The command line: the program, a zero, and the arguments. -/
def commandLine (argv0 : CString) (args : List CString) : List UInt8 :=
  stored argv0.bytes ++ stored (joinArgs (args.map CString.bytes))

/-- The size of the block of the strings, whatever is written to it. -/
def environmentBlock : Nat := 0x10000

/-- Filling the process information block; what is written past the block of strings is a fault. -/
def initPib (src : PibSource) : Option Pib :=
  let env := environmentBytes src ++ stored src.argv0.bytes
  let block := env ++ commandLine src.argv0 src.args
  if block.length ≤ environmentBlock then
    some {
      block
      libpath := libpathOf src.envp
      ulpid := src.pid &&& 0xFFFF
      ulppid := src.ppid &&& 0xFFFF
      pchcmd := env.length
      pchenv := 0 }
  else none

end TwoIne
