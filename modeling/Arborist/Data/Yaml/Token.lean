/-!
Tokens of a settings document in the YAML notation, version 1.1.  Structure that is written by
indentation becomes tokens of its own: a block opens where its first entry stands further right than
the block around it, and closes where a line stands further left.  A key that is not announced by a
question mark is recognised only at the colon after it, so its tokens are put in before it then.
-/

namespace Arborist.Yaml

inductive Token where
  | directive (name : String) (tag : Option (String × String))
  | documentStart
  | documentEnd
  | blockSequenceStart
  | blockMappingStart
  | blockEnd
  | flowSequenceStart
  | flowMappingStart
  | flowSequenceEnd
  | flowMappingEnd
  | entry
  | flowEntry
  | key
  | value
  | reference (name : String)
  | anchor (name : String)
  | tag (handle : Option String) (suffix : String)
  | scalar (text : String) (plain : Bool)
  | streamEnd
deriving DecidableEq, Repr, Inhabited

structure KeyStart where
  tokenNumber : Nat
  required : Bool
  index : Nat
  line : Nat
  column : Nat
deriving Repr

structure Scanner where
  rest : List Char
  index : Nat := 0
  line : Nat := 0
  column : Nat := 0
  /-- How many brackets and braces are open; a stray closing one makes it negative. -/
  flow : Int := 0
  indent : Int := -1
  indents : List Int := []
  keyAllowed : Bool := true
  keys : List (Int × KeyStart) := []
  tokens : List Token := []
deriving Repr

abbrev Scan := StateT Scanner Option

def isBreak (c : Char) : Bool :=
  c == '\r' || c == '\n' || c.toNat == 0x85 || c.toNat == 0x2028 || c.toNat == 0x2029

def endsLine : Option Char → Bool
  | none => true
  | some c => isBreak c

def endsWord : Option Char → Bool
  | none => true
  | some c => c == ' ' || isBreak c

def endsWordOrTab : Option Char → Bool
  | none => true
  | some c => c == ' ' || c == '\t' || isBreak c

def isWordChar (c : Char) : Bool := c.isAlphanum || c == '-' || c == '_'

def isAllowed (c : Char) : Bool :=
  let code := c.toNat
  code == 9 || code == 10 || code == 13 || (0x20 ≤ code && code ≤ 0x7E) || code == 0x85 ||
    (0xA0 ≤ code && code ≤ 0xD7FF) || (0xE000 ≤ code && code ≤ 0xFFFD) || 0x10000 ≤ code

namespace Scanner

def inFlow (scanner : Scanner) : Bool := scanner.flow != 0

def peek (scanner : Scanner) (offset : Nat) : Option Char := scanner.rest.drop offset |>.head?

def step (scanner : Scanner) : Scanner :=
  match scanner.rest with
  | [] => scanner
  | c :: rest =>
    let newLine := c == '\n' || (c == '\r' && rest.head? != some '\n') ||
      c.toNat == 0x85 || c.toNat == 0x2028 || c.toNat == 0x2029
    if newLine then
      { scanner with rest := rest, index := scanner.index + 1, line := scanner.line + 1, column := 0 }
    else
      { scanner with
        rest := rest
        index := scanner.index + 1
        column := if c.toNat == 0xFEFF then scanner.column else scanner.column + 1 }

def steps : Nat → Scanner → Scanner
  | 0, scanner => scanner
  | count + 1, scanner => steps count scanner.step

end Scanner

def peekAt (offset : Nat) : Scan (Option Char) := do return (← get).peek offset

def forward (count : Nat) : Scan Unit := modify (Scanner.steps count)

def takeRun (test : Char → Bool) : Scan (List Char) := do
  let run := (← get).rest.takeWhile test
  forward run.length
  return run

def push (token : Token) : Scan Unit :=
  modify fun scanner => { scanner with tokens := scanner.tokens ++ [token] }

def allowKey (allowed : Bool) : Scan Unit :=
  modify fun scanner => { scanner with keyAllowed := allowed }

def takeBreak : Scan (List Char) := do
  match (← get).rest with
  | '\r' :: '\n' :: _ => forward 2; return ['\n']
  | c :: _ =>
    if c == '\r' || c == '\n' || c.toNat == 0x85 then forward 1; return ['\n']
    else if isBreak c then forward 1; return [c]
    else return []
  | [] => return []

def skipToToken : Nat → Scan Unit
  | 0 => return
  | fuel + 1 => do
    let _ ← takeRun (· == ' ')
    if (← peekAt 0) == some '#' then
      let _ ← takeRun fun c => !isBreak c
    if (← takeBreak).isEmpty then return
    else
      if !(← get).inFlow then allowKey true
      skipToToken fuel

/-- Drops places where no key can have begun any more: a key stays on one line and is not long. -/
def dropStaleKeys : Scan Unit := do
  let scanner ← get
  let isStale := fun (key : KeyStart) => key.line != scanner.line || 1024 < scanner.index - key.index
  if scanner.keys.any fun (_, key) => isStale key && key.required then failure
  set { scanner with keys := scanner.keys.filter fun (_, key) => !isStale key }

def dropKey : Scan Unit := do
  let scanner ← get
  if scanner.keys.any fun (flow, key) => flow == scanner.flow && key.required then failure
  set { scanner with keys := scanner.keys.filter fun (flow, _) => flow != scanner.flow }

def saveKey : Scan Unit := do
  let required := !(← get).inFlow && (← get).indent == (← get).column
  if (← get).keyAllowed then
    dropKey
    modify fun scanner =>
      let key : KeyStart :=
        ⟨scanner.tokens.length, required, scanner.index, scanner.line, scanner.column⟩
      { scanner with keys := scanner.keys ++ [(scanner.flow, key)] }

def closeBlocks (column : Int) : Nat → Scan Unit
  | 0 => return
  | fuel + 1 => do
    let scanner ← get
    if !scanner.inFlow && column < scanner.indent then
      set { scanner with
        indent := scanner.indents.headD (-1)
        indents := scanner.indents.tail
        tokens := scanner.tokens ++ [Token.blockEnd] }
      closeBlocks column fuel

def unwind (column : Int) : Scan Unit := do closeBlocks column ((← get).indents.length + 1)

/-- Opens a block at a column, if it stands further right than the block around it. -/
def openBlock (column : Nat) : Scan Bool := do
  let scanner ← get
  if scanner.indent < column then
    set { scanner with indents := scanner.indent :: scanner.indents, indent := column }
    return true
  else return false

def insertAt (number : Nat) (added : List Token) : Scan Unit :=
  modify fun scanner =>
    { scanner with tokens := scanner.tokens.take number ++ added ++ scanner.tokens.drop number }

def skipLineRest : Scan Unit := do
  let _ ← takeRun (· == ' ')
  if (← peekAt 0) == some '#' then
    let _ ← takeRun fun c => !isBreak c
  if !endsLine (← peekAt 0) then failure
  let _ ← takeBreak

def takeNumber : Scan Nat := do
  let digits ← takeRun Char.isDigit
  if digits.isEmpty then failure
  return digits.foldl (fun total digit => total * 10 + (digit.toNat - 48)) 0

def isUriChar (c : Char) : Bool := c.isAlphanum || "-;/?:@&=+$,_.!~*'()[]%".toList.contains c

def takeUri : Scan String := do
  let run ← takeRun isUriChar
  if run.isEmpty then failure
  return String.ofList run

def takeHandle : Scan String := do
  if (← peekAt 0) != some '!' then failure
  forward 1
  if (← peekAt 0) == some ' ' then return "!"
  let word ← takeRun isWordChar
  if (← peekAt 0) != some '!' then failure
  forward 1
  return String.ofList ('!' :: word ++ ['!'])

/-- A directive; of the notation's versions only those that begin with one are known. -/
def scanDirective : Scan Token := do
  forward 1
  let name ← takeRun isWordChar
  if name.isEmpty || !endsWord (← peekAt 0) then failure
  if name == "YAML".toList then
    let _ ← takeRun (· == ' ')
    if (← takeNumber) != 1 then failure
    if (← peekAt 0) != some '.' then failure
    forward 1
    let _ ← takeNumber
    if !endsWord (← peekAt 0) then failure
    skipLineRest
    return .directive "YAML" none
  else if name == "TAG".toList then
    let _ ← takeRun (· == ' ')
    let handle ← takeHandle
    if (← peekAt 0) != some ' ' then failure
    let _ ← takeRun (· == ' ')
    let uri ← takeUri
    if !endsWord (← peekAt 0) then failure
    skipLineRest
    return .directive "TAG" (some (handle, uri))
  else
    let _ ← takeRun fun c => !isBreak c
    skipLineRest
    return .directive (String.ofList name) none

def scanName : Scan String := do
  forward 1
  let name ← takeRun isWordChar
  if name.isEmpty then failure
  let next ← peekAt 0
  if endsWordOrTab next || (next.any fun c => "?:,]\x7d%@`".toList.contains c) then
    return String.ofList name
  else failure

def scanTag : Scan Token := do
  let next ← peekAt 1
  let token ←
    if next == some '<' then do
      forward 2
      let uri ← takeUri
      if (← peekAt 0) != some '>' then failure
      forward 1
      pure (Token.tag none uri)
    else if endsWordOrTab next then do
      forward 1
      pure (Token.tag none "!")
    else do
      let ahead := ((← get).rest.drop 1).takeWhile fun c => c != ' ' && !isBreak c
      if ahead.contains '!' then
        let handle ← takeHandle
        let suffix ← takeUri
        pure (Token.tag (some handle) suffix)
      else
        forward 1
        let suffix ← takeUri
        pure (Token.tag (some "!") suffix)
  if endsWord (← peekAt 0) then return token else failure

/-! Block scalars: the lines that stand at least as far right as the first of them. -/

def takeIndentation : Nat → List Char → Nat → Scan (List Char × Nat)
  | 0, breaks, deepest => return (breaks, deepest)
  | fuel + 1, breaks, deepest => do
    match ← peekAt 0 with
    | some ' ' =>
      forward 1
      takeIndentation fuel breaks (max deepest (← get).column)
    | some c =>
      if isBreak c then takeIndentation fuel (breaks ++ (← takeBreak)) deepest
      else return (breaks, deepest)
    | none => return (breaks, deepest)

def takeBreaksTo (indent : Nat) : Nat → List Char → Scan (List Char)
  | 0, breaks => return breaks
  | fuel + 1, breaks => do
    let scanner ← get
    let blanks := (scanner.rest.takeWhile (· == ' ')).length
    forward (min blanks (indent - scanner.column))
    let found ← takeBreak
    if found.isEmpty then return breaks else takeBreaksTo indent fuel (breaks ++ found)

def atBlockLine (indent : Nat) : Scan Bool := do
  let scanner ← get
  return scanner.column == indent && !scanner.rest.isEmpty

def isBlankOrTab : Option Char → Bool
  | some c => c == ' ' || c == '\t'
  | none => false

def takeBlockLines (folded : Bool) (indent : Nat) :
    Nat → List Char → List Char → Scan (List Char × List Char × List Char)
  | 0, text, breaks => return (text, [], breaks)
  | fuel + 1, text, breaks => do
    let flush := !isBlankOrTab (← peekAt 0)
    let line ← takeRun fun c => !isBreak c
    let text := text ++ breaks ++ line
    let lineBreak ← takeBreak
    let breaks ← takeBreaksTo indent ((← get).rest.length + 1) []
    if ← atBlockLine indent then
      if folded && lineBreak == ['\n'] && flush && !isBlankOrTab (← peekAt 0) then
        takeBlockLines folded indent fuel (if breaks.isEmpty then text ++ [' '] else text) breaks
      else takeBlockLines folded indent fuel (text ++ lineBreak) breaks
    else return (text, lineBreak, breaks)

inductive Chomping where
  | clip
  | keep
  | strip
deriving DecidableEq, Repr

def takeChomping? : Scan (Option Chomping) := do
  match ← peekAt 0 with
  | some '+' => forward 1; return some .keep
  | some '-' => forward 1; return some .strip
  | _ => return none

def takeIncrement? : Scan (Option Nat) := do
  match ← peekAt 0 with
  | some c =>
    if c == '0' then failure
    else if c.isDigit then forward 1; return some (c.toNat - 48)
    else return none
  | none => return none

def scanBlockScalar (folded : Bool) : Scan Token := do
  forward 1
  let first ← takeChomping?
  let increment ← takeIncrement?
  let chomping ← match first with
    | some chomping => pure chomping
    | none =>
      if increment.isSome then do pure ((← takeChomping?).getD .clip) else pure .clip
  if !endsWord (← peekAt 0) then failure
  skipLineRest
  let least := (max ((← get).indent + 1) 1).toNat
  let fuel := (← get).rest.length + 1
  let (breaks, indent) ← match increment with
    | none => do
      let (breaks, deepest) ← takeIndentation fuel [] 0
      pure (breaks, max least deepest)
    | some increment => do
      let indent := least + increment - 1
      pure (← takeBreaksTo indent fuel [], indent)
  let (text, lineBreak, breaks) ←
    if ← atBlockLine indent then takeBlockLines folded indent fuel [] breaks
    else pure ([], [], breaks)
  let text := if chomping == .strip then text else text ++ lineBreak
  let text := if chomping == .keep then text ++ breaks else text
  return .scalar (String.ofList text) false

/-! Quoted scalars. -/

def simpleEscape? (c : Char) : Option Char :=
  match c with
  | '0' => some (Char.ofNat 0)
  | 'a' => some (Char.ofNat 7)
  | 'b' => some (Char.ofNat 8)
  | 't' => some '\t'
  | '\t' => some '\t'
  | 'n' => some '\n'
  | 'v' => some (Char.ofNat 11)
  | 'f' => some (Char.ofNat 12)
  | 'r' => some '\r'
  | 'e' => some (Char.ofNat 27)
  | ' ' => some ' '
  | '"' => some '"'
  | '\\' => some '\\'
  | '/' => some '/'
  | 'N' => some (Char.ofNat 0x85)
  | '_' => some (Char.ofNat 0xA0)
  | 'L' => some (Char.ofNat 0x2028)
  | 'P' => some (Char.ofNat 0x2029)
  | _ => none

def codeLength? (c : Char) : Option Nat :=
  match c with
  | 'x' => some 2
  | 'u' => some 4
  | 'U' => some 8
  | _ => none

def hexValue? (c : Char) : Option Nat :=
  if c.isDigit then some (c.toNat - 48)
  else if 'a' ≤ c && c ≤ 'f' then some (c.toNat - 87)
  else if 'A' ≤ c && c ≤ 'F' then some (c.toNat - 55)
  else none

def takeCode (length : Nat) : Scan Char := do
  let digits := (← get).rest.take length
  if digits.length < length then failure
  let values ← digits.mapM fun digit => StateT.lift (hexValue? digit)
  forward length
  let code := values.foldl (fun total value => total * 16 + value) 0
  if 0x10FFFF < code then failure
  return Char.ofNat code

def atMarker : Scan Bool := do
  let rest := (← get).rest
  return ("---".toList.isPrefixOf rest || "...".toList.isPrefixOf rest) &&
    endsWordOrTab (rest.drop 3).head?

def takeQuotedBreaks : Nat → List Char → Scan (List Char)
  | 0, breaks => return breaks
  | fuel + 1, breaks => do
    if ← atMarker then failure
    let _ ← takeRun fun c => c == ' ' || c == '\t'
    let found ← takeBreak
    if found.isEmpty then return breaks else takeQuotedBreaks fuel (breaks ++ found)

def takeQuoted (double : Bool) : Nat → List Char → Scan (List Char)
  | 0, _ => failure
  | fuel + 1, text => do
    let scanner ← get
    match scanner.rest with
    | [] => failure
    | c :: rest =>
      if c == '"' then
        forward 1
        if double then return text else takeQuoted double fuel (text ++ [c])
      else if c == '\'' then
        if double then
          forward 1
          takeQuoted double fuel (text ++ [c])
        else if rest.head? == some '\'' then
          forward 2
          takeQuoted double fuel (text ++ [c])
        else
          forward 1
          return text
      else if c == '\\' then
        forward 1
        if !double then takeQuoted double fuel (text ++ [c])
        else
          match rest.head? with
          | none => failure
          | some escape =>
            match simpleEscape? escape, codeLength? escape with
            | some plain, _ =>
              forward 1
              takeQuoted double fuel (text ++ [plain])
            | none, some length =>
              forward 1
              takeQuoted double fuel (text ++ [← takeCode length])
            | none, none =>
              if isBreak escape then
                let _ ← takeBreak
                takeQuoted double fuel (text ++ (← takeQuotedBreaks fuel []))
              else failure
      else if c == ' ' || c == '\t' || isBreak c then
        let blanks ← takeRun fun d => d == ' ' || d == '\t'
        match ← peekAt 0 with
        | none => failure
        | some d =>
          if isBreak d then
            let lineBreak ← takeBreak
            let breaks ← takeQuotedBreaks fuel []
            let joint := if lineBreak != ['\n'] then lineBreak else if breaks.isEmpty then [' '] else []
            takeQuoted double fuel (text ++ joint ++ breaks)
          else takeQuoted double fuel (text ++ blanks)
      else
        let run ← takeRun fun d =>
          !(d == '\'' || d == '"' || d == '\\' || d == ' ' || d == '\t' || isBreak d)
        takeQuoted double fuel (text ++ run)

def scanQuoted (double : Bool) : Scan Token := do
  forward 1
  let text ← takeQuoted double ((← get).rest.length + 1) []
  return .scalar (String.ofList text) false

/-! Plain scalars. -/

def plainLength (inFlow : Bool) : List Char → Nat
  | [] => 0
  | c :: rest =>
    let colonEnds := c == ':' && (endsWordOrTab rest.head? ||
      (inFlow && rest.head?.any fun d => ",[]\x7b\x7d".toList.contains d))
    if c == ' ' || c == '\t' || isBreak c || colonEnds ||
        (inFlow && ",?[]\x7b\x7d".toList.contains c) then 0
    else 1 + plainLength inFlow rest

/-- Breaks between the lines of a plain scalar; none if a document marker ends it. -/
def takePlainBreaks : Nat → List Char → Scan (Option (List Char))
  | 0, breaks => return some breaks
  | fuel + 1, breaks => do
    match ← peekAt 0 with
    | some ' ' =>
      forward 1
      takePlainBreaks fuel breaks
    | some c =>
      if isBreak c then
        let found ← takeBreak
        if ← atMarker then return none else takePlainBreaks fuel (breaks ++ found)
      else return some breaks
    | none => return some breaks

def takePlainSpace : Scan (List Char) := do
  let blanks ← takeRun (· == ' ')
  let lineBreak ← takeBreak
  if lineBreak.isEmpty then return blanks
  else
    allowKey true
    if ← atMarker then return []
    match ← takePlainBreaks ((← get).rest.length + 1) [] with
    | none => return []
    | some breaks =>
      if lineBreak != ['\n'] then return lineBreak ++ breaks
      else if breaks.isEmpty then return [' ']
      else return breaks

def takePlain (indent : Int) : Nat → List Char → List Char → Scan (List Char)
  | 0, text, _ => return text
  | fuel + 1, text, space => do
    let scanner ← get
    let length := if scanner.rest.head? == some '#' then 0 else plainLength scanner.inFlow scanner.rest
    if length == 0 then return text
    else
      allowKey false
      let text := text ++ space ++ scanner.rest.take length
      forward length
      let space ← takePlainSpace
      let scanner ← get
      if space.isEmpty || scanner.rest.head? == some '#' ||
          (!scanner.inFlow && (scanner.column : Int) < indent) then return text
      else takePlain indent fuel text space

def scanPlain : Scan Token := do
  let text ← takePlain ((← get).indent + 1) ((← get).rest.length + 1) [] []
  return .scalar (String.ofList text) true

def canStartPlain (inFlow : Bool) (c : Char) (next : Option Char) : Bool :=
  !(c == ' ' || c == '\t' || isBreak c || "-?:,[]\x7b\x7d#&*!|>'\"%@`".toList.contains c) ||
    (!endsWordOrTab next && (c == '-' || (!inFlow && (c == '?' || c == ':'))))

/-! One token at a time. -/

def fetchStreamEnd : Scan Unit := do
  unwind (-1)
  dropKey
  modify fun scanner => { scanner with keyAllowed := false, keys := [] }
  push .streamEnd

def fetchMarker (token : Token) : Scan Unit := do
  unwind (-1)
  dropKey
  allowKey false
  forward 3
  push token

def fetchFlowStart (token : Token) : Scan Unit := do
  saveKey
  modify fun scanner => { scanner with flow := scanner.flow + 1, keyAllowed := true }
  forward 1
  push token

def fetchFlowEnd (token : Token) : Scan Unit := do
  dropKey
  modify fun scanner => { scanner with flow := scanner.flow - 1, keyAllowed := false }
  forward 1
  push token

def fetchEntry : Scan Unit := do
  if !(← get).inFlow then
    if !(← get).keyAllowed then failure
    if ← openBlock (← get).column then push .blockSequenceStart
  allowKey true
  dropKey
  forward 1
  push .entry

def fetchKey : Scan Unit := do
  let inFlow := (← get).inFlow
  if !inFlow then
    if !(← get).keyAllowed then failure
    if ← openBlock (← get).column then push .blockMappingStart
  allowKey (!inFlow)
  dropKey
  forward 1
  push .key

def fetchValue : Scan Unit := do
  let scanner ← get
  match scanner.keys.find? fun (flow, _) => flow == scanner.flow with
  | some (_, key) =>
    set { scanner with keys := scanner.keys.filter fun (flow, _) => flow != scanner.flow }
    let opened ← if scanner.inFlow then pure false else openBlock key.column
    insertAt key.tokenNumber (if opened then [.blockMappingStart, .key] else [.key])
    allowKey false
  | none =>
    if !scanner.inFlow then
      if !scanner.keyAllowed then failure
      if ← openBlock scanner.column then push .blockMappingStart
    allowKey (!scanner.inFlow)
    dropKey
  forward 1
  push .value

def fetchKeyLike (scan : Scan Token) : Scan Unit := do
  saveKey
  allowKey false
  push (← scan)

def fetchBlockScalar (folded : Bool) : Scan Unit := do
  allowKey true
  dropKey
  push (← scanBlockScalar folded)

/-- Scans the next token, and those that its place brings with it. -/
def fetch : Scan Unit := do
  if (← get).index == 0 && (← peekAt 0) == some (Char.ofNat 0xFEFF) then forward 1
  skipToToken ((← get).rest.length + 1)
  dropStaleKeys
  unwind (← get).column
  let scanner ← get
  match scanner.rest with
  | [] => fetchStreamEnd
  | c :: rest =>
    let next := rest.head?
    let atStart := scanner.column == 0
    if c == '%' && atStart then
      unwind (-1)
      dropKey
      allowKey false
      push (← scanDirective)
    else if c == '-' && atStart && (← atMarker) then fetchMarker .documentStart
    else if c == '.' && atStart && (← atMarker) then fetchMarker .documentEnd
    else if c == '[' then fetchFlowStart .flowSequenceStart
    else if c == '\x7b' then fetchFlowStart .flowMappingStart
    else if c == ']' then fetchFlowEnd .flowSequenceEnd
    else if c == '\x7d' then fetchFlowEnd .flowMappingEnd
    else if c == ',' then
      allowKey true
      dropKey
      forward 1
      push .flowEntry
    else if c == '-' && endsWordOrTab next then fetchEntry
    else if c == '?' && (scanner.inFlow || endsWordOrTab next) then fetchKey
    else if c == ':' && (scanner.inFlow || endsWordOrTab next) then fetchValue
    else if c == '*' then fetchKeyLike (do return .reference (← scanName))
    else if c == '&' then fetchKeyLike (do return .anchor (← scanName))
    else if c == '!' then fetchKeyLike scanTag
    else if c == '|' && !scanner.inFlow then fetchBlockScalar false
    else if c == '>' && !scanner.inFlow then fetchBlockScalar true
    else if c == '\'' then fetchKeyLike (scanQuoted false)
    else if c == '"' then fetchKeyLike (scanQuoted true)
    else if canStartPlain scanner.inFlow c next then fetchKeyLike scanPlain
    else failure

def fetchAll : Nat → Scan Unit
  | 0 => failure
  | fuel + 1 => do
    fetch
    if (← get).tokens.getLast? == some .streamEnd then return else fetchAll fuel

def tokens? (text : String) : Option (List Token) :=
  let chars := text.toList
  if chars.all isAllowed then
    ((fetchAll (chars.length + 2)).run { rest := chars }).map fun (_, scanner) => scanner.tokens
  else none

end Arborist.Yaml
