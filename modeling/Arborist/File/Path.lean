import Arborist.Text.Blank

/-!
Names of files.  A path is an anchor and a list of components; empty components and single dots say
nothing and are left out, double dots stay.
-/

namespace Arborist

/-- Where a path starts: at the working directory, or at the root written with one or two
slashes. -/
inductive Anchor where
  | relative
  | root
  | doubleRoot
deriving DecidableEq, Repr, Inhabited

def Anchor.text : Anchor → String
  | .relative => ""
  | .root => "/"
  | .doubleRoot => "//"

structure Path where
  anchor : Anchor
  components : List String
deriving DecidableEq, Repr, Inhabited

namespace Path

def componentsOf (text : String) : List String :=
  ((Text.splitWhere (· == '/') text.toList).map String.ofList).filter fun part =>
    part != "" && part != "."

/-- Exactly two leading slashes make an anchor of their own. -/
def anchorOf (text : List Char) : Anchor :=
  match text with
  | '/' :: '/' :: '/' :: _ => .root
  | '/' :: '/' :: _ => .doubleRoot
  | '/' :: _ => .root
  | _ => .relative

def ofString (text : String) : Path := ⟨anchorOf text.toList, componentsOf text⟩

def absolute (components : List String) : Path := ⟨.root, components⟩

def text (path : Path) : String :=
  if path.anchor = .relative && path.components.isEmpty then "."
  else path.anchor.text ++ "/".intercalate path.components

def join (base path : Path) : Path :=
  if path.anchor = .relative then ⟨base.anchor, base.components ++ path.components⟩ else path

def child (base : Path) (name : String) : Path := ⟨base.anchor, base.components ++ [name]⟩

def parent (path : Path) : Path := ⟨path.anchor, path.components.dropLast⟩

def name (path : Path) : String := path.components.getLast?.getD ""

def segments (path : Path) : List String :=
  if path.anchor = .relative then path.components else path.anchor.text :: path.components

/-- The end of a name from its last dot on, which must be neither first nor last in it. -/
def suffixOf (name : String) : String :=
  let chars := name.toList
  let ending := chars.reverse.takeWhile (· != '.')
  if ending.length = 0 || chars.length ≤ ending.length + 1 then ""
  else String.ofList ('.' :: ending.reverse)

def suffix (path : Path) : String := suffixOf path.name

def extension (path : Path) : String := String.ofList (path.suffix.toList.drop 1)

/-- Takes double dots away together with the component before each. -/
def withoutDots (components : List String) : List String :=
  (components.foldl (fun kept name => if name = ".." then kept.drop 1 else name :: kept) []).reverse

def absoluteFrom (directory : List String) (path : Path) : Path :=
  if path.anchor = .relative then ⟨.root, withoutDots (directory ++ path.components)⟩
  else ⟨path.anchor, withoutDots path.components⟩

def relativeTo? (path base : Path) : Option Path :=
  if path.anchor = base.anchor && base.components.isPrefixOf path.components then
    some ⟨.relative, path.components.drop base.components.length⟩
  else none

end Path

end Arborist
