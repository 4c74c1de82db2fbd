import Reckon.Formula.Error

/-!
The operations of formulas. The arithmetic of the machine is total on floats; a formula
takes from it only finite results. Evaluation is stated over any partial operations, of
which the checked machine arithmetic is one instance.
-/

namespace Reckon.Formula

structure Arithmetic where
  add : Float → Float → Float
  sub : Float → Float → Float
  mul : Float → Float → Float
  div : Float → Float → Float
  pow : Float → Float → Float
  sqrt : Float → Float

def Arithmetic.machine : Arithmetic where
  add := Float.add
  sub := Float.sub
  mul := Float.mul
  div := Float.div
  pow := Float.pow
  sqrt := Float.sqrt

structure Operations where
  apply : Operator → Float → Float → Except Error Float
  root : Float → Except Error Float

namespace Arithmetic

def finite (o : Operator) (left right result : Float) : Except Error Float :=
  if result.isInf then .error (.nonFinite o.text left right) else .ok result

/-- Powers of finite numbers must be finite and real. -/
def power (a : Arithmetic) (base exponent : Float) : Except Error Float :=
  let result := a.pow base exponent
  if base.isFinite && exponent.isFinite then
    if result.isNaN || result.isInf && base == 0 then
      .error (.domain base exponent "result is not a real number")
    else if result.isInf then .error (.domain base exponent "result is too large")
    else .ok result
  else .ok result

def apply (a : Arithmetic) (o : Operator) (left right : Float) : Except Error Float :=
  match o with
  | .add => finite o left right (a.add left right)
  | .sub => finite o left right (a.sub left right)
  | .mul => finite o left right (a.mul left right)
  | .div =>
    if right == 0 then .error .divisionByZero else finite o left right (a.div left right)
  | .pow => a.power left right

def root (a : Arithmetic) (operand : Float) : Except Error Float :=
  if operand < 0 then .error (.negativeRoot operand) else .ok (a.sqrt operand)

def operations (a : Arithmetic) : Operations :=
  ⟨a.apply, a.root⟩

end Arithmetic

def Operations.machine : Operations :=
  Arithmetic.machine.operations

end Reckon.Formula
