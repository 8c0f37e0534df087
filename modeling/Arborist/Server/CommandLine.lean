import Arborist.Text.Find
import Arborist.Text.Letter

/-!
The command line.  Options may be shortened as long as it is clear which one is meant.
-/

namespace Arborist.Server

structure CommandLine where
  document : Option String := none
  debug : Bool := false
  withoutCache : Bool := false
deriving DecidableEq, Repr

inductive ParsedArguments where
  | options (commandLine : CommandLine)
  | help
  | refused (reason : String)
deriving DecidableEq, Repr

inductive OptionName where
  | help
  | document
  | debug
  | withoutCache
deriving DecidableEq, Repr

def optionNames : List (String × OptionName) :=
  [("--help", .help), ("--config", .document), ("--debug", .debug), ("--disable-cache", .withoutCache)]

inductive Argument where
  | option (name : OptionName) (value : Option String)
  | unknownOption
  | ambiguous (text : String)
  | separator
  | plain (text : String)
deriving DecidableEq, Repr

def withoutLastFeed (text : List Char) : List Char :=
  if text.getLast? == some '\n' then text.dropLast else text

def isNegativeNumber (text : List Char) : Bool :=
  match withoutLastFeed text with
  | '-' :: rest =>
    let whole := rest.takeWhile Text.isDecimal
    match rest.dropWhile Text.isDecimal with
    | [] => !whole.isEmpty
    | '.' :: fraction => !fraction.isEmpty && fraction.all Text.isDecimal
    | _ => false
  | _ => false

def longOption (text : String) : Argument :=
  let (name, value) := match Text.cutAt? ['='] text.toList with
    | some (before, after) => (before, some (String.ofList after))
    | none => (text.toList, none)
  match optionNames.find? fun (full, _) => full.toList == name with
  | some (_, option) => .option option value
  | none =>
    match optionNames.filter fun (full, _) => name.isPrefixOf full.toList with
    | [(_, option)] => .option option value
    | [] => if text.toList.contains ' ' then .plain text else .unknownOption
    | _ => .ambiguous text

/-- Help asked for by a letter.  Further letters may follow; a value may not. -/
def shortHelp : List Char → Argument
  | '-' :: rest => .option .help (some (String.ofList rest))
  | '=' :: rest => .option .help (some (String.ofList rest))
  | 'h' :: rest => shortHelp rest
  | _ => .option .help none

def classify (text : String) : Argument :=
  match text.toList with
  | ['-', '-'] => .separator
  | '-' :: '-' :: _ => longOption text
  | '-' :: 'h' :: rest => shortHelp rest
  | '-' :: _ :: _ =>
    if isNegativeNumber text.toList || text.toList.contains ' ' then .plain text else .unknownOption
  | _ => .plain text

def classifyAll : List String → List Argument
  | [] => []
  | text :: rest =>
    match classify text with
    | .separator => .separator :: rest.map .plain
    | argument => argument :: classifyAll rest

def isAmbiguous : Argument → Bool
  | .ambiguous _ => true
  | _ => false

def takeArguments (commandLine : CommandLine) (extra : Bool) : List Argument → ParsedArguments
  | [] => if extra then .refused "unrecognized arguments" else .options commandLine
  | .option .help none :: _ => .help
  | .option .document (some value) :: rest => takeArguments { commandLine with document := some value } extra rest
  | .option .document none :: .plain value :: rest =>
    takeArguments { commandLine with document := some value } extra rest
  | .option .document none :: _ => .refused "argument --config: expected one argument"
  | .option .debug none :: rest => takeArguments { commandLine with debug := true } extra rest
  | .option .withoutCache none :: rest => takeArguments { commandLine with withoutCache := true } extra rest
  | .option _ (some _) :: _ => .refused "ignored explicit argument"
  | _ :: rest => takeArguments commandLine true rest

def parseArguments (arguments : List String) : ParsedArguments :=
  let taken := classifyAll arguments
  match taken.find? isAmbiguous with
  | some (.ambiguous text) => .refused s!"ambiguous option: {text}"
  | _ => takeArguments {} false taken

def ParsedArguments.exitCode? : ParsedArguments → Option Nat
  | .options _ => none
  | .help => some 0
  | .refused _ => some 2

end Arborist.Server
