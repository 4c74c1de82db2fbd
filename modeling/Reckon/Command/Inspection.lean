import Reckon.Command.Report
import Reckon.Formula.Views
import Reckon.Json.Printer

/-!
Commands that show how a formula is understood: its variables, its tokens, the order of
evaluation, and its tree.
-/

namespace Reckon.Command

open Formula

def showVariables (formula : String) (json : Bool) : Report :=
  let names := variableNames formula
  if json then .lines [Json.compact (.list (names.map .text))] else .lines names

def tokenRecord (t : Token) : Value :=
  let position : Value := match t.start with
    | some start => .int start
    | none => .null
  .record [("type", .text t.kind.label), ("value", .text t.text), ("position", position)]

def tokenLine (t : Token) : String :=
  let position := match t.start with
    | some start => toString start
    | none => ""
  padLeft 4 position ++ "  " ++ padRight 8 t.kind.label ++ " " ++ t.text

def showTokens (formula : String) (json : Bool) : Report :=
  match tokenize formula with
  | .error e => .failure e.message
  | .ok tokens =>
    if json then .lines [Json.laidOut 0 (.list (tokens.map tokenRecord))]
    else .lines (tokens.map tokenLine)

section

variable [Limits]

def formulaFailure (e : Error) : Report :=
  if e.isReported then .failure e.message else .crash (.formula e)

def showOrder (formula : String) : Report :=
  match compile formula with
  | .error e => formulaFailure e
  | .ok tokens => .lines [" ".intercalate (tokens.map (·.text))]

def treeLines (t : Tree) : Except UnknownNode (List String) := do
  return (← t.format) :: (← t.pretty "  ")

def treeReport (t : Tree) : Report :=
  match t.toRecord with
  | .error e => .crash (.tree e)
  | .ok record =>
    if record.height ≤ Limits.laidOut then .lines [Json.laidOut 0 record]
    else .failure "Expression is nested too deeply for JSON output"

def showTree (formula : String) (json : Bool) : Report :=
  match Tree.ofFormula formula with
  | .error e => formulaFailure e
  | .ok tree =>
    if json then treeReport tree
    else match treeLines tree with
      | .ok texts => .lines texts
      | .error e => .crash (.tree e)

end

end Reckon.Command
