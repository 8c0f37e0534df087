import Arborist.Text.Find

/-!
Sample sources of any length: statements of all shapes, followed by a number of like functions.
-/

namespace Arborist.Sketch

def sampleOpening : List String := [
  "import os",
  "import sys as system",
  "from collections import OrderedDict",
  "from datetime import datetime as dt",
  "# a comment line",
  "",
  "VALUE = 1",
  "",
  "class Widget:",
  "    def method_a(self, x):",
  "        if x:",
  "            for i in range(x):",
  "                while i:",
  "                    try:",
  "                        helper(i)",
  "                    except Exception:",
  "                        pass",
  "        return x",
  "",
  "    def method_b(self):",
  "        return self",
  "",
  "def helper(a, b=1):",
  "    y = a + b",
  "    helper(y)",
  "    return y",
  "",
  "helper(1)",
  "hello()"]

def sampleFunction (number : Nat) : List String := [
  s!"def extra_fn_{number}(p, q):",
  "    if p > q:",
  "        for j in range(p):",
  "            helper(j)",
  "    r = p + q",
  "    return r",
  ""]

def sampleLines (count : Nat) : List String :=
  sampleOpening ++ (List.range count).flatMap sampleFunction

def sampleSource (count : Nat) : String := String.join ((sampleLines count).map fun line => line ++ "\n")

end Arborist.Sketch
