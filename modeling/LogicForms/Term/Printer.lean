import LogicForms.Term
import LogicForms.Text.Join

/-!
# Printed forms of terms

A term has three printed forms, and so has a formula in argument position. `Term.text` uses the
symbols of logic and as few parentheses as the reader needs: connectives associate to the left,
conjunction binds most tightly, and a quantifier or a negation reaches over the next unary formula
only. `Term.explicitText` names each operator and writes everything else as in `text`.
`Term.sexpr` names every node.
-/

set_option autoImplicit false

namespace LogicForms

namespace Term

/-- How tightly the outermost operator binds. Everything but a binary connective binds more tightly
than all of them. -/
def precedence : Term → Nat
  | .binary op _ _ => op.precedence
  | _ => 99

/-- The text, with parentheses around it if they are needed. -/
def parenthesized (needed : Bool) (text : String) : String :=
  if needed then "(" ++ text ++ ")" else text

/-- A predicate symbol with the texts of its arguments. Without arguments there are no
parentheses. -/
def predText (name : String) : List String → String
  | [] => name
  | arg :: args => name ++ "(" ++ Text.commaSeparated (arg :: args) ++ ")"

mutual
/-- The printed form: `f(x, A, g(y))`, and `s = t` for an equation. A function symbol without
arguments keeps its parentheses. -/
def text : Term → String
  | .var x => x
  | .const c => c
  | .func f args => f ++ "(" ++ Text.commaSeparated (textList args) ++ ")"
  | .eq s t => text s ++ " = " ++ text t
  | .pred p args => predText p (textList args)
  | .not t => "¬" ++ parenthesized (t.isBinary || t.isEquation) (text t)
  | .binary op s t =>
    parenthesized (s.precedence < op.precedence) (text s) ++ " " ++ op.symbol.toString ++ " " ++
      parenthesized (t.precedence ≤ op.precedence) (text t)
  | .quant q x t => q.symbol.toString ++ x ++ " " ++ parenthesized t.isBinary (text t)
  | .bound x => x
/-- The printed forms of an argument list. -/
def textList : List Term → List String
  | [] => []
  | t :: ts => text t :: textList ts
end

/-- Constructor notation for the operators of a formula in argument position. -/
def explicitText : Term → String
  | .not t => "Not(" ++ t.explicitText ++ ")"
  | .binary op s t => op.title ++ "(" ++ s.explicitText ++ ", " ++ t.explicitText ++ ")"
  | .quant q x t => q.title ++ "(" ++ x ++ ", " ++ t.explicitText ++ ")"
  | t => t.text

mutual
/-- The form in which every node is named: `(Func f (Var x) (Const A))`. -/
def sexpr : Term → String
  | .var x => "(Var " ++ x ++ ")"
  | .const c => "(Const " ++ c ++ ")"
  | .func f args => "(Func " ++ f ++ sexprArgs args ++ ")"
  | .eq s t => "(Eq " ++ sexpr s ++ " " ++ sexpr t ++ ")"
  | .pred p args => "(Pred " ++ p ++ sexprArgs args ++ ")"
  | .not t => "(Not " ++ sexpr t ++ ")"
  | .binary op s t => "(" ++ op.title ++ " " ++ sexpr s ++ " " ++ sexpr t ++ ")"
  | .quant q x t => "(" ++ q.title ++ " " ++ x ++ " " ++ sexpr t ++ ")"
  | .bound x => "(Var " ++ x ++ ")"
/-- The arguments of a node, each with a space in front. -/
def sexprArgs : List Term → String
  | [] => ""
  | t :: ts => " " ++ sexpr t ++ sexprArgs ts
end

@[simp] theorem parenthesized_true (s : String) : parenthesized true s = "(" ++ s ++ ")" := rfl
@[simp] theorem parenthesized_false (s : String) : parenthesized false s = s := rfl

@[simp] theorem text_var (x : String) : text (.var x) = x := rfl
@[simp] theorem text_const (c : String) : text (.const c) = c := rfl
@[simp] theorem text_func (f : String) (args : List Term) :
    text (.func f args) = f ++ "(" ++ Text.commaSeparated (textList args) ++ ")" := rfl
@[simp] theorem text_eq (s t : Term) : text (.eq s t) = text s ++ " = " ++ text t := rfl
@[simp] theorem text_pred (p : String) (args : List Term) :
    text (.pred p args) = predText p (textList args) := rfl
@[simp] theorem text_not (t : Term) :
    text (.not t) = "¬" ++ parenthesized (t.isBinary || t.isEquation) (text t) := rfl
@[simp] theorem text_binary (op : Connective) (s t : Term) :
    text (.binary op s t) =
      parenthesized (s.precedence < op.precedence) (text s) ++ " " ++ op.symbol.toString ++ " " ++
        parenthesized (t.precedence ≤ op.precedence) (text t) := rfl
@[simp] theorem text_quant (q : Quantifier) (x : String) (t : Term) :
    text (.quant q x t) =
      q.symbol.toString ++ x ++ " " ++ parenthesized t.isBinary (text t) := rfl
@[simp] theorem text_bound (x : String) : text (.bound x) = x := rfl
@[simp] theorem textList_nil : textList [] = [] := rfl
@[simp] theorem textList_cons (t : Term) (ts : List Term) :
    textList (t :: ts) = text t :: textList ts := rfl

end Term

end LogicForms
