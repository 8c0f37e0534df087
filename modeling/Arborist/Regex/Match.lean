import Arborist.Regex.Basic

/-!
Matching by trying: a match goes on with what is to follow, and takes the next way if that fails.
-/

namespace Arborist.Regex

structure Progress where
  position : Nat
  groups : List (Nat × Nat × Nat) := []
deriving Repr, Inhabited

abbrev Subject := Array Char

abbrev Rest := Progress → Option Progress

def stepOver (test : Char → Bool) (subject : Subject) (progress : Progress) (rest : Rest) : Option Progress :=
  match subject[progress.position]? with
  | some c => if test c then rest { progress with position := progress.position + 1 } else none
  | none => none

def isWordAt (ascii : Bool) (subject : Subject) (position : Nat) : Bool :=
  match subject[position]? with
  | some c => CharClass.word.holds ascii c
  | none => false

def Anchor.holds (anchor : Anchor) (subject : Subject) (position : Nat) : Bool :=
  match anchor with
  | .textStart => position == 0
  | .textEnd => position == subject.size
  | .lineStart multiline => position == 0 || (multiline && subject[position - 1]? == some '\n')
  | .lineEnd multiline =>
    position == subject.size ||
      ((multiline || position + 1 == subject.size) && subject[position]? == some '\n')
  | .boundary ascii negated =>
    let before := position != 0 && isWordAt ascii subject (position - 1)
    (before != isWordAt ascii subject position) != negated

/-- Repeats a step.  A step that must be taken is; another one is tried only if the one before it
has moved on, so the number of steps is bounded by the least number and the length of the rest. -/
def repeatStep (step : Progress → Rest → Option Progress) (least : Nat) (greatest : Option Nat) (isLazy : Bool)
    (rest : Rest) : Nat → Nat → Option Nat → Progress → Option Progress
  | 0, _, _, progress => rest progress
  | fuel + 1, count, last, progress =>
    let again (_ : Unit) : Option Progress :=
      step progress
        (repeatStep step least greatest isLazy rest fuel (count + 1) (some progress.position))
    if count < least then again ()
    else
      let allowed := match greatest with
        | some most => count < most
        | none => true
      if allowed && last != some progress.position then
        if isLazy then (rest progress).orElse again else (again ()).orElse fun _ => rest progress
      else rest progress

def part (subject : Subject) (start stop : Nat) : List Char := (subject.extract start stop).toList

def overText (mode : CaseMode) (subject : Subject) : List Char → Nat → Option Nat
  | [], position => some position
  | c :: text, position =>
    match subject[position]? with
    | some other => if mode.same c other then overText mode subject text (position + 1) else none
    | none => none

def run (subject : Subject) : Regex → Progress → Rest → Option Progress
  | .empty, progress, rest => rest progress
  | .never, _, _ => none
  | .char c mode, progress, rest => stepOver (mode.same c) subject progress rest
  | .any feeds, progress, rest => stepOver (fun c => feeds || c != '\n') subject progress rest
  | .oneOf negated items mode ascii, progress, rest =>
    stepOver (fun c => (items.any (SetItem.holds mode ascii c)) != negated) subject progress rest
  | .place anchor, progress, rest => if anchor.holds subject progress.position then rest progress else none
  | .seq first second, progress, rest =>
    run subject first progress fun progress => run subject second progress rest
  | .alt left right, progress, rest =>
    (run subject left progress rest).orElse fun _ => run subject right progress rest
  | .group number body, progress, rest =>
    run subject body progress fun reached =>
      rest { reached with groups := (number, progress.position, reached.position) :: reached.groups }
  | .reference number mode _, progress, rest =>
    match progress.groups.lookup number with
    | none => none
    | some (start, stop) =>
      match overText mode subject (part subject start stop) progress.position with
      | some position => rest { progress with position }
      | none => none
  | .atomic body, progress, rest =>
    match run subject body progress some with
    | some reached => rest reached
    | none => none
  | .repetition least greatest eagerness body, progress, rest =>
    let fuel := least + subject.size + 2
    match eagerness with
    | .possessive =>
      match repeatStep (run subject body) least greatest false some fuel 0 none progress with
      | some reached => rest reached
      | none => none
    | eagerness =>
      repeatStep (run subject body) least greatest (eagerness == .lazy) rest fuel 0 none progress
  | .ahead negated body, progress, rest =>
    match run subject body progress some with
    | some reached => if negated then none else rest { reached with position := progress.position }
    | none => if negated then rest progress else none
  | .behind negated distance body, progress, rest =>
    let found :=
      if distance ≤ progress.position then
        run subject body { progress with position := progress.position - distance } some
      else none
    match found with
    | some reached => if negated then none else rest { reached with position := progress.position }
    | none => if negated then rest progress else none
  | .ifGroup number yes no, progress, rest =>
    if (progress.groups.lookup number).isSome then run subject yes progress rest
    else run subject no progress rest

def occursIn (expression : Regex) (text : List Char) : Bool :=
  let subject := text.toArray
  (List.range (subject.size + 1)).any fun position => (run subject expression ⟨position, []⟩ some).isSome

end Arborist.Regex
