/-!
The script tree: expressions, binding patterns and statements.
-/

set_option autoImplicit false

namespace Resumable

inductive VarKind where
  | var
  | let
  | const
  deriving DecidableEq, Repr

inductive UnaryOp where
  | minus
  | plus
  | not
  | bitNot
  deriving DecidableEq, Repr

inductive BinaryOp where
  | add | sub | mul | div | mod | exp
  | eq | notEq | strictEq | strictNotEq
  | lt | gt | ltEq | gtEq
  | shiftLeft | shiftRight | shiftRightZero
  | bitAnd | bitOr | bitXor
  | in
  | instanceOf
  deriving DecidableEq, Repr

inductive LogicalOp where
  | and
  | or
  | coalesce
  deriving DecidableEq, Repr

inductive UpdateOp where
  | increment
  | decrement
  deriving DecidableEq, Repr

inductive AssignOp where
  | set
  | add
  | sub
  | mul
  | div
  | mod
  deriving DecidableEq, Repr

def AssignOp.binary? : AssignOp → Option BinaryOp
  | .set => none
  | .add => some .add
  | .sub => some .sub
  | .mul => some .mul
  | .div => some .div
  | .mod => some .mod

inductive FunctionKind where
  | plain
  | generator
  | async
  | asyncGenerator
  deriving DecidableEq, Repr

namespace FunctionKind

def ofFlags (isAsync isGenerator : Bool) : FunctionKind :=
  match isAsync, isGenerator with
  | false, false => .plain
  | false, true => .generator
  | true, false => .async
  | true, true => .asyncGenerator

def isAsync : FunctionKind → Bool
  | .async | .asyncGenerator => true
  | .plain | .generator => false

def isGenerator : FunctionKind → Bool
  | .generator | .asyncGenerator => true
  | .plain | .async => false

end FunctionKind

mutual

inductive Expr where
  | null
  | bool (value : Bool)
  | num (value : Float)
  | str (value : String)
  | ident (name : String)
  | this
  | array (items : List (Option Expr))
  | object (properties : List Property)
  | function (name : Option String) (f : Func)
  | arrow (f : Func)
  /-- An arrow function that returns one expression. -/
  | lambda (isAsync : Bool) (params : List Pattern) (result : Expr)
  | unary (op : UnaryOp) (operand : Expr)
  | binary (op : BinaryOp) (left right : Expr)
  | logical (op : LogicalOp) (left right : Expr)
  | update (op : UpdateOp) (opFirst : Bool) (target : Expr)
  | assign (op : AssignOp) (target value : Expr)
  | cond (test yes no : Expr)
  | call (callee : Expr) (args : List Expr)
  | new (callee : Expr) (args : List Expr)
  | dot (object : Expr) (name : String)
  | index (object key : Expr)
  | seq (items : List Expr)
  | spread (operand : Expr)
  | yield (operand : Option Expr)
  | yieldStar (operand : Option Expr)
  | await (operand : Expr)
  | typeof (operand : Expr)
  | void (operand : Expr)

inductive Key where
  | ident (name : String)
  | str (name : String)
  | num (value : Float)
  | computed (key : Expr)

inductive Property where
  | mk (key : Key) (value : Expr)

inductive Pattern where
  | ident (name : String)
  | array (items : List (Option Item))
  | object (fields : List Binder)
  | withDefault (pattern : Pattern) (default : Expr)
  | rest (pattern : Pattern)

inductive Item where
  | one (pattern : Pattern)
  | rest (pattern : Pattern)

inductive Binder where
  | shorthand (name : String)
  | keyed (key : Key) (pattern : Pattern)

/-- A function definition. `site` tells definitions apart, like a position in a source text. -/
inductive Func where
  | mk (site : Nat) (kind : FunctionKind) (params : List Pattern) (body : List Stmt)

inductive Declarator where
  | mk (pattern : Pattern) (init : Option Expr)

inductive ForInit where
  | absent
  | declare (kind : VarKind) (declarators : List Declarator)
  | expr (e : Expr)

inductive ForTarget where
  | declare (kind : VarKind) (pattern : Pattern)
  | assign (pattern : Pattern)

inductive Catch where
  | mk (param : Option Pattern) (body : List Stmt)

inductive Case where
  | mk (test : Option Expr) (body : List Stmt)

inductive Stmt where
  | empty
  | expr (e : Expr)
  | block (body : List Stmt)
  | declare (kind : VarKind) (declarators : List Declarator)
  | ifElse (test : Expr) (yes : Stmt) (no : Option Stmt)
  | whileDo (test : Expr) (body : Stmt)
  | doWhile (body : Stmt) (test : Expr)
  | forLoop (init : ForInit) (test update : Option Expr) (body : Stmt)
  | forIn (target : ForTarget) (subject : Expr) (body : Stmt)
  | forOf (target : ForTarget) (subject : Expr) (body : Stmt) (isAwait : Bool)
  | ret (value : Option Expr)
  | brk (label : Option String)
  | cont (label : Option String)
  | throw (value : Expr)
  | tryCatch (block : List Stmt) (handler : Option Catch) (finalizer : Option (List Stmt))
  | switch (subject : Expr) (cases : List Case)
  | labeled (label : String) (body : Stmt)
  | function (name : String) (f : Func)

end

instance : Inhabited Expr := ⟨.null⟩

instance : Inhabited Stmt := ⟨.empty⟩

def Property.key : Property → Key
  | .mk key _ => key

def Property.value : Property → Expr
  | .mk _ value => value

def Item.pattern : Item → Pattern
  | .one p | .rest p => p

def Func.site : Func → Nat
  | .mk site _ _ _ => site

def Func.kind : Func → FunctionKind
  | .mk _ kind _ _ => kind

def Func.params : Func → List Pattern
  | .mk _ _ params _ => params

def Func.body : Func → List Stmt
  | .mk _ _ _ body => body

def ForTarget.pattern : ForTarget → Pattern
  | .declare _ p | .assign p => p

def Case.test : Case → Option Expr
  | .mk test _ => test

def Case.body : Case → List Stmt
  | .mk _ body => body

structure FunctionDecl where
  name : String
  func : Func

def declaredFunctions (body : List Stmt) : List FunctionDecl :=
  body.filterMap fun
    | .function name f => some ⟨name, f⟩
    | _ => none

end Resumable
