import Resumable.Script.Tree

/-!
Demo programs.
-/

set_option autoImplicit false

namespace Resumable

structure Demo where
  name : String
  about : String
  program : List Stmt

namespace Demo

def declare (kind : VarKind) (name : String) (e : Expr) : Stmt :=
  .declare kind [.mk (.ident name) (some e)]

def defineFunction (site : Nat) (kind : FunctionKind) (name : String) (params : List String)
    (body : List Stmt) : Stmt :=
  declare .const name (.function (some name) (.mk site kind (params.map .ident) body))

def callMethod (e : Expr) (name : String) (args : List Expr) : Expr := .call (.dot e name) args

def log (args : List Expr) : Stmt := .expr (callMethod (.ident "console") "log" args)

def yieldStmt (e : Expr) : Stmt := .expr (.yield (some e))

def increment (name : String) : Expr := .update .increment false (.ident name)

def less (left right : String) : Expr := .binary .lt (.ident left) (.ident right)

def forOf (name : String) (e : Expr) (body : List Stmt) : Stmt :=
  .forOf (.declare .const (.ident name)) e (.block body) false

def counter : Demo where
  name := "counter"
  about := "a generator counting in a while loop, consumed by for-of"
  program :=
    [ defineFunction 0 .generator "count" ["limit"]
        [ declare .let "i" (.num 0.0),
          .whileDo (less "i" "limit") (.block [yieldStmt (increment "i")]),
          .ret (some (.str "done")) ],
      forOf "n" (.call (.ident "count") [.num 3.0]) [log [.str "got", .ident "n"]] ]

def finalizer : Demo where
  name := "finally"
  about := "breaking out of for-of runs the generator's finally block"
  program :=
    [ defineFunction 0 .generator "guarded" []
        [ .tryCatch [yieldStmt (.num 1.0), yieldStmt (.num 2.0)] none
            (some [log [.str "cleanup"]]) ],
      forOf "v" (.call (.ident "guarded") []) [log [.str "first", .ident "v"], .brk none] ]

def delegation : Demo where
  name := "delegate"
  about := "yield* through two nested generators"
  program :=
    [ defineFunction 0 .generator "leaf" []
        [yieldStmt (.str "a"), yieldStmt (.str "b"), .ret (some (.str "leaf done"))],
      defineFunction 1 .generator "middle" []
        [ declare .const "r" (.yieldStar (some (.call (.ident "leaf") []))),
          yieldStmt (.ident "r") ],
      defineFunction 2 .generator "top" []
        [ .expr (.yieldStar (some (.call (.ident "middle") []))),
          .expr (.yieldStar (some (.array [some (.num 1.0), some (.num 2.0)]))) ],
      forOf "v" (.call (.ident "top") []) [log [.ident "v"]] ]

def stream : Demo where
  name := "async"
  about := "an async generator awaiting promises, drained by for await"
  program :=
    [ defineFunction 0 .asyncGenerator "ticks" ["n"]
        [ declare .let "i" (.num 0.0),
          .whileDo (less "i" "n") (.block
            [ declare .const "v"
                (.await (callMethod (.ident "Promise") "resolve" [.ident "i"])),
              yieldStmt (.binary .mul (.ident "v") (.num 10.0)),
              .expr (increment "i") ]) ],
      defineFunction 1 .async "main" []
        [ .forOf (.declare .const (.ident "t")) (.call (.ident "ticks") [.num 3.0])
            (.block [log [.str "tick", .ident "t"]]) true,
          log [.str "stream finished"] ],
      .expr (.call (.ident "main") []),
      log [.str "main started"] ]

def rejected : Demo where
  name := "rejected"
  about := "a body the plan builder refuses, surfaced as a SyntaxError"
  program :=
    [ .tryCatch
        [ defineFunction 0 .generator "pair" []
            [.expr (.binary .add (.yield (some (.num 1.0))) (.yield (some (.num 2.0))))] ]
        (some (.mk (some (.ident "e")) [log [.str "rejected:", .ident "e"]])) none ]

def all : List Demo := [counter, finalizer, delegation, stream, rejected]

def find? (name : String) : Option Demo := all.find? (·.name == name)

end Demo

end Resumable
