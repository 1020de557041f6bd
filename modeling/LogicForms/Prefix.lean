import LogicForms.Formula.Printer

/-!
# Quantifier prefixes

A prefix is a sequence of quantifiers with their variables, from the outermost to the innermost
one. Entries can be added and taken away at both ends. Every formula splits into the prefix of its
leading quantifiers and the matrix below them, and a prefix can be put in front of any formula.
-/

set_option autoImplicit false

namespace LogicForms

/-- A quantifier with its variable. -/
structure Binder where
  /-- The quantifier. -/
  quantifier : Quantifier
  /-- The variable that it binds. -/
  var : String
  deriving DecidableEq, Repr, Inhabited

namespace Binder

/-- The printed form, such as `∀x`. -/
def text (b : Binder) : String := b.quantifier.symbol.toString ++ b.var

/-- Constructor notation, such as `(Forall, x)`. -/
def explicitText (b : Binder) : String := "(" ++ b.quantifier.title ++ ", " ++ b.var ++ ")"

/-- Is the quantifier the universal one? -/
def isUniversal (b : Binder) : Bool := b.quantifier == .universal

end Binder

/-- Quantifiers with their variables, from the outermost to the innermost one. -/
abbrev Prefix := List Binder

namespace Prefix

/-- Add an entry at the inner end. -/
def addInner (p : Prefix) (b : Binder) : Prefix := p ++ [b]

/-- Add an entry at the outer end. -/
def addOuter (p : Prefix) (b : Binder) : Prefix := b :: p

/-- Add entries at the inner end, one after the other. -/
def addAllInner (p : Prefix) (bs : List Binder) : Prefix := bs.foldl addInner p

/-- Add entries at the outer end, one after the other, so that the last one becomes outermost. -/
def addAllOuter (p : Prefix) (bs : List Binder) : Prefix := bs.foldl addOuter p

/-- The innermost entry and the prefix without it. -/
def takeInner? (p : Prefix) : Option (Binder × Prefix) := p.getLast?.map fun b => (b, p.dropLast)

/-- The outermost entry and the prefix without it. -/
def takeOuter? : Prefix → Option (Binder × Prefix)
  | [] => none
  | b :: p => some (b, p)

/-- The universally quantified variables, in order. -/
def universals (p : Prefix) : List String := (p.filter Binder.isUniversal).map Binder.var

/-- The printed form, such as `∀x ∃y`. -/
def text (p : Prefix) : String := Text.joinWith " " (p.map Binder.text)

/-- Constructor notation, such as `Prefix((Forall, x), (Exists, y))`. -/
def explicitText (p : Prefix) : String :=
  "Prefix(" ++ Text.commaSeparated (p.map Binder.explicitText) ++ ")"

@[simp] theorem universals_nil : universals [] = [] := rfl
@[simp] theorem universals_universal (x : String) (p : Prefix) :
    universals (⟨.universal, x⟩ :: p) = x :: universals p := rfl
@[simp] theorem universals_existential (x : String) (p : Prefix) :
    universals (⟨.existential, x⟩ :: p) = universals p := rfl

theorem universals_append (p p' : Prefix) :
    universals (p ++ p') = p.universals ++ p'.universals := by
  simp [universals]

/-- The universal quantifiers are determined by their variables. -/
theorem map_universals (p : Prefix) :
    p.universals.map (Binder.mk .universal) = p.filter Binder.isUniversal := by
  induction p with
  | nil => rfl
  | cons b p ih =>
    obtain ⟨q, x⟩ := b
    cases q with
    | universal => exact congrArg (⟨.universal, x⟩ :: ·) ih
    | existential => exact ih

@[simp] theorem addAllInner_eq_append (p bs : Prefix) : p.addAllInner bs = p ++ bs := by
  induction bs generalizing p with
  | nil => simp [addAllInner]
  | cons b bs ih => simpa [addAllInner, addInner] using ih (p ++ [b])

@[simp] theorem addAllOuter_eq_reverse_append (p bs : Prefix) :
    p.addAllOuter bs = bs.reverse ++ p := by
  induction bs generalizing p with
  | nil => simp [addAllOuter]
  | cons b bs ih => simpa [addAllOuter, addOuter] using ih (b :: p)

end Prefix

/-- What goes wrong with a prefix: an entry is taken from an empty one. -/
inductive PrefixError where
  | empty
  deriving DecidableEq, Repr, Inhabited

/-- The message. -/
def PrefixError.message : PrefixError → String
  | .empty => "pop from an empty deque"

namespace Formula

/-- The leading quantifiers, from the outermost to the innermost one. -/
def leading : Formula → Prefix
  | .quant q x f => ⟨q, x⟩ :: f.leading
  | _ => []

/-- The formula below the leading quantifiers. -/
def matrix : Formula → Formula
  | .quant _ _ f => f.matrix
  | f => f

/-- The formula with a prefix in front. -/
def quantify (f : Formula) (p : Prefix) : Formula :=
  p.foldr (fun b g => .quant b.quantifier b.var g) f

@[simp] theorem quantify_nil (f : Formula) : f.quantify [] = f := rfl
@[simp] theorem quantify_cons (f : Formula) (b : Binder) (p : Prefix) :
    f.quantify (b :: p) = .quant b.quantifier b.var (f.quantify p) := rfl

/-- A concatenated prefix is put in front in two steps. -/
theorem quantify_append (f : Formula) (p p' : Prefix) :
    f.quantify (p ++ p') = (f.quantify p').quantify p := by
  simp [quantify]

/-- Every formula is its matrix behind its leading quantifiers. -/
@[simp] theorem quantify_leading (f : Formula) : f.matrix.quantify f.leading = f := by
  induction f with
  | quant q x f ih => simp [leading, matrix, ih]
  | _ => rfl

/-- No quantifier leads the matrix. -/
@[simp] theorem isQuantified_matrix (f : Formula) : f.matrix.isQuantified = false := by
  induction f with
  | quant q x f ih => simpa [matrix] using ih
  | _ => rfl

end Formula

end LogicForms
