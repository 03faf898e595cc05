import ChaosLab.Text
import ChaosLab.Foundation.Delimited
import ChaosLab.Foundation.Terminated

/-! The texts a process is started with: its command line and its environment
block. Wide text is taken to be the narrow one, so `widen` does nothing. -/

set_option autoImplicit false

namespace ChaosLab

open Foundation

namespace Byte

def nul : UInt8 := 0x00
def tab : UInt8 := 0x09
def space : UInt8 := 0x20
def doubleQuote : UInt8 := 0x22

end Byte

/-- The bytes that `find_first_of` looks for. -/
def needsQuotes (a : Bytes) : Bool :=
  a.any fun c => c = Byte.space ∨ c = Byte.tab ∨ c = Byte.doubleQuote

/-- `quote_arg`. The loop over the bytes escapes a quote and copies everything else. -/
def quoteArg (a : Bytes) : Bytes :=
  if a = [] then [Byte.doubleQuote, Byte.doubleQuote]
  else if needsQuotes a then
    [Byte.doubleQuote] ++
      a.flatMap (fun c => if c = Byte.doubleQuote then [Byte.backslash, Byte.doubleQuote] else [c]) ++
      [Byte.doubleQuote]
  else a

def buildCommandLine (exe : Bytes) (args : List Bytes) : Bytes :=
  args.foldl (fun cmd a => cmd ++ [Byte.space] ++ quoteArg a) (quoteArg exe)

abbrev Overrides := Std.ExtTreeMap Bytes Bytes

def environmentEntry (key value : Bytes) : Bytes := key ++ [Byte.equals] ++ value

/-- One turn of the first loop of `build_environment_block`. The key of an entry ends before
the first `=` of it. -/
def overlayEntry (overrides : Overrides) (entry : Bytes) : Bytes :=
  match cutAt Byte.equals entry with
  | none => entry
  | some (key, _) =>
      match overrides.toList.find? fun pair => pair.1 = key with
      | none => entry
      | some pair => environmentEntry key pair.2

/-- One turn of the second loop: the block so far is scanned for an entry with this key. -/
def appendOverride (blk : Bytes) (pair : Bytes × Bytes) : Bytes :=
  if anyEntryFrom Byte.nul (fun entry => startsWith entry (pair.1 ++ [Byte.equals])) [] blk then blk
  else blk ++ environmentEntry pair.1 pair.2 ++ [Byte.nul]

/-- `build_environment_block`, from the block of the parent if there is one. -/
def buildEnvironmentBlock (cur : Option Bytes) (overrides : Overrides) : Bytes :=
  let blk := match cur with
    | none => []
    | some p => terminated Byte.nul ((entriesFrom Byte.nul [] p).map (overlayEntry overrides))
  overrides.toList.foldl appendOverride blk ++ [Byte.nul]

end ChaosLab
