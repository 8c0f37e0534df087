import Arborist.Regex.Basic
import Arborist.Text.Integer
import Arborist.Text.Quoted

/-!
Reading regular expressions.  A reader always looks one sign ahead, so a lone backslash at the end is
noticed as soon as the sign before it has been taken.
-/

namespace Arborist.Regex

inductive Problem where
  | at (reason : String) (position : Nat)
  | somewhere (reason : String)
  | countTooLarge
  | mixedAlphabets
deriving DecidableEq, Repr

/-- What is told of a problem in a pattern.  In a pattern of several lines the line and the column
are told too. -/
def Problem.message (pattern : String) : Problem → String
  | .at reason position =>
    let before := pattern.toList.take position
    let place := s!"{reason} at position {position}"
    if pattern.toList.contains '\n' then
      let line := before.count '\n' + 1
      let column := (before.reverse.takeWhile (· != '\n')).length + 1
      place ++ s!" (line {line}, column {column})"
    else place
  | .somewhere reason => reason
  | .countTooLarge => "the repetition number is too large"
  | .mixedAlphabets => "ASCII and UNICODE flags are incompatible"

structure Sign where
  text : List Char
  position : Nat
deriving Repr

def signs (position : Nat) : List Char → List Sign
  | [] => []
  | ['\\'] => [⟨['\\'], position⟩]
  | '\\' :: c :: rest => ⟨['\\', c], position⟩ :: signs (position + 2) rest
  | c :: rest => ⟨[c], position⟩ :: signs (position + 1) rest

structure Scan where
  rest : List Sign
  length : Nat
  flags : Flags
  groups : List (Option Width) := []
  names : List (String × Nat) := []
  firstHidden : Option Nat := none
  conditions : List (Nat × Nat) := []

abbrev Reader := StateT Scan (Except Problem)

namespace Reader

def peek : Reader (Option (List Char)) := do return (← get).rest.head?.map Sign.text

def tell : Reader Nat := do
  let scan ← get
  return match scan.rest with
    | sign :: _ => sign.position
    | [] => scan.length

def failBack (reason : String) (offset : Nat) : Reader α := do
  throw (.at reason ((← tell) - offset))

def failAt (reason : String) (position : Nat) : Reader α := throw (.at reason position)

def fail (reason : String) : Reader α := failBack reason 0

def checkNext : Reader Unit := do
  match (← get).rest with
  | ⟨['\\'], position⟩ :: _ => failAt "bad escape (end of pattern)" position
  | _ => return

def next? : Reader (Option (List Char)) := do
  let sign ← peek
  modify fun scan => { scan with rest := scan.rest.drop 1 }
  checkNext
  return sign

def accept (c : Char) : Reader Bool := do
  if (← peek) == some [c] then
    let _ ← next?
    return true
  else return false

def takeUpTo (test : Char → Bool) : Nat → Reader (List Char)
  | 0 => return []
  | count + 1 => do
    match ← peek with
    | some [c] =>
      if test c then
        let _ ← next?
        return c :: (← takeUpTo test count)
      else return []
    | _ => return []

def takeAll (test : Char → Bool) : Reader (List Char) := do takeUpTo test (← get).rest.length

def untilFrom (terminator : Char) (what : String) : Nat → List Char → Reader (List Char)
  | 0, found => return found
  | fuel + 1, found => do
    match ← next? with
    | none =>
      if found.isEmpty then fail s!"missing {what}"
      else failBack s!"missing {terminator}, unterminated name" found.length
    | some sign =>
      if sign == [terminator] then
        if found.isEmpty then failBack s!"missing {what}" 1 else return found
      else untilFrom terminator what fuel (found ++ sign)

def upTo (terminator : Char) (what : String) : Reader (List Char) := do
  untilFrom terminator what ((← get).rest.length + 1) []

end Reader

open Reader

def isDigit (c : Char) : Bool := '0' ≤ c && c ≤ '9'

def isOctal (c : Char) : Bool := '0' ≤ c && c ≤ '7'

def isHex (c : Char) : Bool := isDigit c || ('a' ≤ c && c ≤ 'f') || ('A' ≤ c && c ≤ 'F')

def digitOf (c : Char) : Nat :=
  if isDigit c then c.toNat - 48 else if 'a' ≤ c then c.toNat - 87 else c.toNat - 55

def numberOf (base : Nat) (digits : List Char) : Nat :=
  digits.foldl (fun total c => total * base + digitOf c) 0

def isAsciiLetter (c : Char) : Bool := ('a' ≤ c && c ≤ 'z') || ('A' ≤ c && c ≤ 'Z')

def isIdentifier : List Char → Bool
  | [] => false
  | c :: rest => (c == '_' || (Text.isAlphanumeric c && !Text.isDecimal c)) && rest.all Text.isWord

def controlChar? (c : Char) : Option Char :=
  match c with
  | 'a' => some (Char.ofNat 7)
  | 'b' => some (Char.ofNat 8)
  | 'f' => some (Char.ofNat 12)
  | 'n' => some '\n'
  | 'r' => some '\r'
  | 't' => some '\t'
  | 'v' => some (Char.ofNat 11)
  | '\\' => some '\\'
  | _ => none

def classItem? (c : Char) : Option SetItem :=
  match c with
  | 'd' => some (.named .digit false)
  | 'D' => some (.named .digit true)
  | 's' => some (.named .space false)
  | 'S' => some (.named .space true)
  | 'w' => some (.named .word false)
  | 'W' => some (.named .word true)
  | _ => none

def badEscape (escape : List Char) : Reader α :=
  failBack s!"bad escape {String.ofList escape}" escape.length

def readHex (escape : List Char) (count : Nat) : Reader Char := do
  let digits ← takeUpTo isHex count
  let escape := escape ++ digits
  if digits.length != count then
    failBack s!"incomplete escape {String.ofList escape}" escape.length
  else
    let code := numberOf 16 digits
    if 0x110000 ≤ code then badEscape escape else return Char.ofNat code

/-- A character given by its name; no names are known. -/
def readNamedChar : Reader Char := do
  if !(← accept '\x7b') then fail "missing \x7b"
  else
    let name ← upTo '\x7d' "character name"
    failBack s!"undefined character name {Text.quoted (String.ofList name)}" (name.length + 4)

def readCoded? (escape : List Char) (c : Char) : Reader (Option Char) := do
  if c == 'x' then return some (← readHex escape 2)
  else if c == 'u' then return some (← readHex escape 4)
  else if c == 'U' then return some (← readHex escape 8)
  else if c == 'N' then return some (← readNamedChar)
  else return none

def octalTooLarge (escape : List Char) : Reader α :=
  failBack s!"octal escape value {String.ofList escape} outside of range 0-0o377" escape.length

def readSetEscape (c : Char) : Reader SetItem := do
  let escape := ['\\', c]
  match controlChar? c, classItem? c with
  | some control, _ => return .char control
  | none, some item => return item
  | none, none =>
    match ← readCoded? escape c with
    | some coded => return .char coded
    | none =>
      if isOctal c then
        let digits := c :: (← takeUpTo isOctal 2)
        let code := numberOf 8 digits
        if 0o377 < code then octalTooLarge ('\\' :: digits) else return .char (Char.ofNat code)
      else if isDigit c || isAsciiLetter c then badEscape escape
      else return .char c

inductive PartKind where
  | place
  | repetition
  | other
deriving DecidableEq, Repr

structure Part where
  regex : Regex
  kind : PartKind := .other

def Part.ofChar (flags : Flags) (c : Char) : Part := ⟨.char c flags.caseMode, .other⟩

def groupWidth? (groups : List (Option Width)) (number : Nat) : Option Width :=
  if number = 0 then none else (groups[number - 1]?).join

/-- Inside an assertion about what is before, only groups before it can be referred to. -/
def checkVisible (number : Nat) : Reader Unit := do
  let scan ← get
  match scan.firstHidden with
  | none => return
  | some first =>
    if (groupWidth? scan.groups number).isNone then fail "cannot refer to an open group"
    else if first ≤ number then
      fail "cannot refer to group defined in the same lookbehind subpattern"
    else return

def referenceTo (flags : Flags) (number offset : Nat) : Reader Part := do
  match groupWidth? (← get).groups number with
  | none => failBack "cannot refer to an open group" offset
  | some width =>
    checkVisible number
    return ⟨.reference number flags.caseMode width, .other⟩

/-- A digit after a backslash: three octal digits are a character, else it is a group's number. -/
def readNumbered (flags : Flags) (c : Char) : Reader Part := do
  let toGroup (digits : List Char) : Reader Part := do
    let number := numberOf 10 digits
    if number ≤ (← get).groups.length then referenceTo flags number (digits.length + 1)
    else failBack s!"invalid group reference {number}" digits.length
  match ← takeUpTo isDigit 1 with
  | [second] =>
    if isOctal c && isOctal second then
      match ← takeUpTo isOctal 1 with
      | [third] =>
        let code := numberOf 8 [c, second, third]
        if 0o377 < code then octalTooLarge ['\\', c, second, third]
        else return Part.ofChar flags (Char.ofNat code)
      | _ => toGroup [c, second]
    else toGroup [c, second]
  | _ => toGroup [c]

def anchor? (flags : Flags) (c : Char) : Option Anchor :=
  match c with
  | 'A' => some .textStart
  | 'Z' => some .textEnd
  | 'b' => some (.boundary flags.ascii false)
  | 'B' => some (.boundary flags.ascii true)
  | _ => none

def readEscape (flags : Flags) (c : Char) : Reader Part := do
  let escape := ['\\', c]
  match anchor? flags c, classItem? c, controlChar? c with
  | some anchor, _, _ => return ⟨.place anchor, .place⟩
  | none, some item, _ => return ⟨.oneOf false [item] .exact flags.ascii, .other⟩
  | none, none, some control => return Part.ofChar flags control
  | none, none, none =>
    match ← readCoded? escape c with
    | some coded => return Part.ofChar flags coded
    | none =>
      if c == '0' then
        return Part.ofChar flags (Char.ofNat (numberOf 8 (c :: (← takeUpTo isOctal 2))))
      else if isDigit c then readNumbered flags c
      else if isAsciiLetter c then badEscape escape
      else return Part.ofChar flags c

def readSetItem (sign : List Char) : Reader SetItem := do
  match sign with
  | ['\\', c] => readSetEscape c
  | c :: _ => return .char c
  | [] => return .char ' '

def badRange (low high : List Char) : Reader α :=
  failBack s!"bad character range {String.ofList low}-{String.ofList high}" (low.length + 1 + high.length)

/-- The items of a set up to its closing bracket, which as the first item stands for itself. -/
def readSetItems (start : Nat) : Nat → List SetItem → Reader (List SetItem)
  | 0, items => return items
  | fuel + 1, items => do
    match ← next? with
    | none => failAt "unterminated character set" start
    | some sign =>
      if sign == [']'] && !items.isEmpty then return items
      else
        let first ← readSetItem sign
        if ← accept '-' then
          match ← next? with
          | none => failAt "unterminated character set" start
          | some second =>
            if second == [']'] then return items ++ [first, .char '-']
            else
              match first, ← readSetItem second with
              | .char low, .char high =>
                if high < low then badRange sign second
                else readSetItems start fuel (items ++ [.range low high])
              | _, _ => badRange sign second
        else readSetItems start fuel (items ++ [first])

def readSet (flags : Flags) : Reader Part := do
  let start := (← tell) - 1
  let negated ← accept '^'
  let items ← readSetItems start ((← get).rest.length + 1) []
  return ⟨.oneOf negated items flags.caseMode flags.ascii, .other⟩

structure Count where
  least : Nat
  greatest : Option Nat

def countLimit : Nat := 4294967295

def readBraces? : Reader (Option Count) := do
  let here ← tell
  let scan ← get
  if (← peek) == some ['\x7d'] then return none
  let low ← takeAll isDigit
  let high ← if ← accept ',' then takeAll isDigit else pure low
  if ← accept '\x7d' then
    let least := numberOf 10 low
    let greatest := if high.isEmpty then none else some (numberOf 10 high)
    if countLimit ≤ least || countLimit ≤ greatest.getD 0 then throw .countTooLarge
    match greatest with
    | some most => if most < least then failAt "min repeat greater than max repeat" here
    | none => pure ()
    return some ⟨least, greatest⟩
  else
    set scan
    return none

def repeatLast (flags : Flags) (sign : Char) (parts : List Part) : Reader (List Part) := do
  let here ← tell
  let count ← match sign with
    | '?' => pure (some (Count.mk 0 (some 1)))
    | '*' => pure (some (Count.mk 0 none))
    | '+' => pure (some (Count.mk 1 none))
    | _ => readBraces?
  match count with
  | none => return Part.ofChar flags sign :: parts
  | some count =>
    match parts with
    | [] => failAt "nothing to repeat" (here - 1)
    | last :: others =>
      if last.kind = .place then failAt "nothing to repeat" (here - 1)
      else if last.kind = .repetition then failAt "multiple repeat" (here - 1)
      else
        let eagerness ←
          if ← accept '?' then pure Eagerness.lazy
          else if ← accept '+' then pure Eagerness.possessive
          else pure Eagerness.greedy
        return ⟨.repetition count.least count.greatest eagerness last.regex, .repetition⟩ :: others

def flagLetters : List Char := "iLmsxatu".toList

def alphabetFlags : List Char := "aLu".toList

def flagOf? (sign : List Char) : Option Char :=
  match sign with
  | [c] => if flagLetters.contains c then some c else none
  | _ => none

def isLetterSign : List Char → Bool
  | [c] => Text.isAlphanumeric c && !Text.isDecimal c
  | _ => false

def readFlagsOn : Nat → Char → List Char → Reader (List Char × List Char)
  | 0, _, on => return (on, [])
  | fuel + 1, flag, on => do
    if flag == 'L' then fail "bad inline flags: cannot use 'L' flag with a str pattern"
    else
      let on := on ++ [flag]
      if alphabetFlags.contains flag && on.any (fun c => alphabetFlags.contains c && c != flag) then
        fail "bad inline flags: flags 'a', 'u' and 'L' are incompatible"
      else
        match ← next? with
        | none => fail "missing -, : or )"
        | some sign =>
          if [[')'], ['-'], [':']].contains sign then return (on, sign)
          else
            match flagOf? sign with
            | some flag => readFlagsOn fuel flag on
            | none =>
              failBack (if isLetterSign sign then "unknown flag" else "missing -, : or )") sign.length

def readFlagsOff : Nat → Char → List Char → Reader (List Char)
  | 0, _, off => return off
  | fuel + 1, flag, off => do
    if alphabetFlags.contains flag then fail "bad inline flags: cannot turn off flags 'a', 'u' and 'L'"
    else
      let off := off ++ [flag]
      match ← next? with
      | none => fail "missing :"
      | some sign =>
        if sign == [':'] then return off
        else
          match flagOf? sign with
          | some flag => readFlagsOff fuel flag off
          | none => failBack (if isLetterSign sign then "unknown flag" else "missing :") sign.length

def Flags.setFlag (value : Bool) (flags : Flags) (flag : Char) : Flags :=
  match flag with
  | 'i' => { flags with ignoreCase := value }
  | 'm' => { flags with multiline := value }
  | 's' => { flags with dotAll := value }
  | 'x' => { flags with verbose := value }
  | 'a' => { flags with ascii := value }
  | 'u' => { flags with ascii := false }
  | _ => flags

inductive InlineFlags where
  | everywhere (on : List Char)
  | inGroup (on off : List Char)

def readFlags (sign : Char) : Reader InlineFlags := do
  let fuel := (← get).rest.length + 1
  let (on, stop) ← if sign == '-' then pure ([], ['-']) else readFlagsOn fuel sign []
  if stop == [')'] then return .everywhere on
  if on.contains 't' then failBack "bad inline flags: cannot turn on global flag" 1
  let off ←
    if stop == ['-'] then
      match ← next? with
      | none => fail "missing flag"
      | some first =>
        match flagOf? first with
        | some flag => readFlagsOff fuel flag []
        | none => failBack (if isLetterSign first then "unknown flag" else "missing flag") first.length
    else pure []
  if off.contains 't' then failBack "bad inline flags: cannot turn off global flag" 1
  if on.any off.contains then failBack "bad inline flags: flag turned on and off" 1
  return .inGroup on off

def badGroupName (name : List Char) : Reader α :=
  failBack s!"bad character in group name {Text.quoted (String.ofList name)}" (name.length + 1)

def groupNamed (name : List Char) : Reader Nat := do
  match (← get).names.lookup (String.ofList name) with
  | some number => return number
  | none => failBack s!"unknown group name {Text.quoted (String.ofList name)}" (name.length + 1)

def openGroup (name : Option (List Char)) : Reader Nat := do
  let scan ← get
  let number := scan.groups.length + 1
  match name with
  | none => set { scan with groups := scan.groups ++ [none] }
  | some name =>
    match scan.names.lookup (String.ofList name) with
    | some earlier =>
      failBack (s!"redefinition of group name {Text.quoted (String.ofList name)} as group {number}; " ++
        s!"was group {earlier}") (name.length + 1)
    | none =>
      set { scan with
        groups := scan.groups ++ [none]
        names := scan.names ++ [(String.ofList name, number)] }
  return number

def closeGroup (number : Nat) (body : Regex) : Reader Unit :=
  modify fun scan => { scan with groups := scan.groups.set (number - 1) (some body.width) }

def readCondition : Reader Nat := do
  let name ← upTo ')' "group name"
  if isIdentifier name then groupNamed name
  else
    match Text.integer? (String.ofList name) with
    | none => badGroupName name
    | some number =>
      if number < 0 then badGroupName name
      else if number = 0 then failBack "bad group number" (name.length + 1)
      else
        let position := (← tell) - name.length - 1
        modify fun scan =>
          if (scan.conditions.lookup number.toNat).isSome then scan
          else { scan with conditions := scan.conditions ++ [(number.toNat, position)] }
        return number.toNat

def closeParenthesis (start : Nat) : Reader Unit := do
  if ← accept ')' then return else failAt "missing ), unterminated subpattern" start

def skipComment (start : Nat) : Nat → Reader Unit
  | 0 => return
  | fuel + 1 => do
    if (← peek).isNone then failAt "missing ), unterminated comment" start
    else if (← next?) == some [')'] then return
    else skipComment start fuel

def skipRemark : Nat → Reader Unit
  | 0 => return
  | fuel + 1 => do
    match ← next? with
    | none => return
    | some ['\n'] => return
    | some _ => skipRemark fuel

inductive Opening where
  | capture (name : Option (List Char))
  | plain (on off : List Char)
  | atomic
  | comment
  | reference (part : Part)
  | everywhere (on : List Char)
  | assertion (isAhead negated : Bool)
  | condition (number : Nat)

def readExtension (flags : Flags) : Reader Opening := do
  if ← accept '<' then
    let name ← upTo '>' "group name"
    if isIdentifier name then return .capture (some name) else badGroupName name
  else if ← accept '=' then
    let name ← upTo ')' "group name"
    if !isIdentifier name then badGroupName name
    else
      let number ← groupNamed name
      return .reference (← referenceTo flags number (name.length + 1))
  else
    match ← next? with
    | none => fail "unexpected end of pattern"
    | some sign => failBack s!"unknown extension ?P{String.ofList sign}" (sign.length + 2)

def readOpening (flags : Flags) (start : Nat) : Reader Opening := do
  if !(← accept '?') then return .capture none
  match ← next? with
  | none => fail "unexpected end of pattern"
  | some ['P'] => readExtension flags
  | some [':'] => return .plain [] []
  | some ['#'] =>
    skipComment start ((← get).rest.length + 1)
    return .comment
  | some ['='] => return .assertion true false
  | some ['!'] => return .assertion true true
  | some ['<'] =>
    match ← next? with
    | none => fail "unexpected end of pattern"
    | some ['='] => return .assertion false false
    | some ['!'] => return .assertion false true
    | some sign => failBack s!"unknown extension ?<{String.ofList sign}" (sign.length + 2)
  | some ['('] =>
    let number ← readCondition
    checkVisible number
    return .condition number
  | some ['>'] => return .atomic
  | some sign =>
    match flagOf? sign, sign == ['-'] with
    | none, false => failBack s!"unknown extension ?{String.ofList sign}" (sign.length + 1)
    | flag, _ =>
      match ← readFlags (flag.getD '-') with
      | .everywhere on => return .everywhere on
      | .inGroup on off => return .plain on off

inductive Addition where
  | part (part : Part)
  | nothing
  | flags (flags : Flags)

/-- The assertion about a body; what is before must have one length. -/
def assertion (isAhead negated : Bool) (body : Regex) : Reader Part := do
  if isAhead then return ⟨.ahead negated body, .other⟩
  else
    match body.width.fixed? with
    | some distance => return ⟨.behind negated distance body, .other⟩
    | none => throw (.somewhere "look-behind requires fixed-width pattern")

def isVerboseBlank (sign : List Char) : Bool :=
  match sign with
  | [c] => " \t\n\r\x0b\x0c".toList.contains c
  | _ => false

mutual

def readBranches (fuel : Nat) (flags : Flags) (isTop isFirst : Bool) : Reader (List Regex) :=
  match fuel with
  | 0 => return []
  | fuel + 1 => do
    let branch ← readParts fuel flags (isTop && isFirst) []
    if ← accept '|' then
      let scan ← get
      let flags := if isTop then scan.flags else flags
      return branch :: (← readBranches fuel flags isTop false)
    else return [branch]

def readParts (fuel : Nat) (flags : Flags) (isFirst : Bool) (parts : List Part) : Reader Regex :=
  match fuel with
  | 0 => return sequence (parts.reverse.map Part.regex)
  | fuel + 1 => do
    let sign ← peek
    if sign.isNone || sign == some ['|'] || sign == some [')'] then
      return sequence (parts.reverse.map Part.regex)
    let sign := (← next?).getD []
    if flags.verbose && isVerboseBlank sign then readParts fuel flags isFirst parts
    else if flags.verbose && sign == ['#'] then
      skipRemark ((← get).rest.length + 1)
      readParts fuel flags isFirst parts
    else
      match sign with
      | ['\\', c] => readParts fuel flags isFirst ((← readEscape flags c) :: parts)
      | ['['] => readParts fuel flags isFirst ((← readSet flags) :: parts)
      | ['.'] => readParts fuel flags isFirst (⟨.any flags.dotAll, .other⟩ :: parts)
      | ['^'] => readParts fuel flags isFirst (⟨.place (.lineStart flags.multiline), .place⟩ :: parts)
      | ['$'] => readParts fuel flags isFirst (⟨.place (.lineEnd flags.multiline), .place⟩ :: parts)
      | ['('] =>
        match ← readParenthesis fuel flags (isFirst && parts.isEmpty) with
        | .part part => readParts fuel flags isFirst (part :: parts)
        | .nothing => readParts fuel flags isFirst parts
        | .flags flags => readParts fuel flags isFirst parts
      | c :: _ =>
        if ['?', '*', '+', '\x7b'].contains c then
          readParts fuel flags isFirst (← repeatLast flags c parts)
        else readParts fuel flags isFirst (Part.ofChar flags c :: parts)
      | [] => readParts fuel flags isFirst parts

def readParenthesis (fuel : Nat) (flags : Flags) (isStart : Bool) : Reader Addition :=
  match fuel with
  | 0 => return .nothing
  | fuel + 1 => do
    let start := (← tell) - 1
    match ← readOpening flags start with
    | .comment => return .nothing
    | .reference part => return .part part
    | .everywhere on =>
      if !isStart then failAt "global flags not at the start of the expression" start
      else
        let scan ← get
        if on.contains 'u' && scan.flags.ascii then throw .mixedAlphabets
        let flags := on.foldl (Flags.setFlag true) scan.flags
        set { scan with flags }
        return .flags flags
    | .capture name =>
      let number ← openGroup name
      let body := choice (← readBranches fuel flags false false)
      closeParenthesis start
      closeGroup number body
      return .part ⟨.group number body, .other⟩
    | .atomic =>
      let body := choice (← readBranches fuel flags false false)
      closeParenthesis start
      return .part ⟨.atomic body, .other⟩
    | .plain on off =>
      let inner := off.foldl (Flags.setFlag false) (on.foldl (Flags.setFlag true) flags)
      let body := choice (← readBranches fuel inner false false)
      closeParenthesis start
      return .part ⟨body, .other⟩
    | .assertion isAhead negated =>
      let outer := (← get).firstHidden
      if !isAhead && outer.isNone then
        modify fun scan => { scan with firstHidden := some (scan.groups.length + 1) }
      let body := choice (← readBranches fuel flags false false)
      modify fun scan => { scan with firstHidden := outer }
      closeParenthesis start
      return .part (← assertion isAhead negated body)
    | .condition number =>
      let yes ← readParts fuel flags false []
      let no ← if ← accept '|' then
          let no ← readParts fuel flags false []
          if (← peek) == some ['|'] then fail "conditional backref with more than two branches"
          else pure no
        else pure .empty
      closeParenthesis start
      return .part ⟨.ifGroup number yes no, .other⟩

end

def readPattern : Reader Regex := do
  checkNext
  let scan ← get
  let branches ← readBranches (2 * scan.length + 4) scan.flags true true
  if (← peek).isSome then fail "unbalanced parenthesis"
  let scan ← get
  match scan.conditions.find? fun (number, _) => scan.groups.length < number with
  | some (number, position) => failAt s!"invalid group reference {number}" position
  | none => return choice branches

def parse (pattern : String) (flags : Flags) : Except Problem Regex := do
  let chars := pattern.toList
  let (expression, _) ← readPattern.run { rest := signs 0 chars, length := chars.length, flags }
  return expression

end Arborist.Regex
