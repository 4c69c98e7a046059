import StableProps.Options.Basic
import StableProps.Syntax.Focus

/-!
# Kinds of fresh values

Expressions that make a new value each time they are evaluated, sorted by how they do it. A member
of such a value is fresh as well.
-/

namespace StableProps

/-- How an expression makes a fresh value. -/
inductive Category where
  | object
  | array
  | function
  | construction
  | call
  | regExp
  | member
  deriving DecidableEq, Repr

namespace Category

/-- The word that reports use for a category. -/
def name : Category → String
  | .object => "ObjectExpression"
  | .array => "ArrayExpression"
  | .function => "FunctionExpression"
  | .construction => "NewExpression"
  | .call => "CallExpression"
  | .regExp => "RegExpLiteral"
  | .member => "MemberExpression"

/-- Whether options ask for a category. -/
def isEnabled (o : Options) : Category → Bool
  | .object => true
  | .array => o.checkArray
  | .function => o.checkFunction
  | .construction => o.checkNew
  | .call => o.checkCall
  | .regExp => o.checkRegExp
  | .member => true

/-- The category of an expression that makes a value itself. -/
def ofNode? (n : Node) : Option Category :=
  match n.kind? with
  | some .objectLiteral => some .object
  | some .arrayLiteral => some .array
  | some .arrowFunction => some .function
  | some .functionExpression => some .function
  | some .generatorFunction => some .function
  | some .newExpression => some .construction
  | some .callExpression => some .call
  | some .regexLiteral => some .regExp
  | _ => none

end Category

/-- The category of an expression and, for a member, that of the value it belongs to. -/
structure Classification where
  category : Category
  base : Option Category
  deriving DecidableEq, Repr

/-- Classifies an expression by the options; parentheses do not matter. -/
def Node.classify? (o : Options) (expression : Node) : Option Classification :=
  let n := expression.unparenthesized
  match Category.ofNode? n with
  | some c => if c.isEnabled o then some ⟨c, none⟩ else none
  | none =>
    if n.is .memberExpression then do
      let base ← Category.ofNode? (← n.child? .object).unparenthesized
      if base.isEnabled o then some ⟨.member, some base⟩ else none
    else none

end StableProps
