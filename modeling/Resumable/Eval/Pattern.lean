import Resumable.Eval.Expr

/-!
Binding of patterns. With a kind the names are declared, without one they are assigned to.
-/

set_option autoImplicit false

namespace Resumable

variable {σ : Type} [HasWorld σ]

def IteratorRecord.stepUnless (host : HostOn σ) (r : IteratorRecord) (ended : Bool) :
    RunOn σ (Value × Bool) := do
  if ended then return (.undefined, true)
  match ← r.step host with
  | some v => return (v, false)
  | none => return (.undefined, true)

def IteratorRecord.restUnless (host : HostOn σ) (r : IteratorRecord) (ended : Bool) :
    RunOn σ (Array Value) := do
  if ended then return #[] else r.drain host host.fuel #[]

/-- Binds one element; if that fails, an iterator that has not ended is closed first. -/
def IteratorRecord.guard (host : HostOn σ) (r : IteratorRecord) (ended : Bool)
    (bind : RunOn σ Unit) : RunOn σ Unit := do
  match ← bind.attempt with
  | .ok () => return ()
  | .error c =>
    if !ended then
      let throwing := match c with
        | .throw _ => true
        | _ => false
      match ← (closeIterator host r.iterator throwing).attempt with
      | .error (.fatal e) => Run.fatal e
      | _ => pure ()
    Run.abrupt c

def Pattern.hint : Pattern → Option String
  | .ident name => some name
  | _ => none

mutual

def Pattern.bind (host : HostOn σ) (scope : ScopeId) (kind : Option VarKind) :
    Pattern → Value → RunOn σ Unit
  | .ident name, v => bindName scope kind name v
  | .withDefault p e, v => do
    let v ← if v.isUndefined then e.eval host scope p.hint else pure v
    p.bind host scope kind v
  | .array items, v => do
    let r ← IteratorRecord.ofValue host v
    bindItems host scope kind r items false
  | .object fields, v => do
    if v.isNullish then
      let shown := v.display
      Run.throwType s!"Cannot destructure '{shown}'"
    bindFields host scope kind v fields
  | .rest p, v => p.bind host scope kind v

/-- Binds elements in turn; at the end an iterator that has not ended is closed. -/
def bindItems (host : HostOn σ) (scope : ScopeId) (kind : Option VarKind) (r : IteratorRecord) :
    List (Option Item) → Bool → RunOn σ Unit
  | [], ended => if ended then return () else closeIterator host r.iterator false
  | none :: items, ended => do
    let (_, ended) ← r.stepUnless host ended
    bindItems host scope kind r items ended
  | some (.one p) :: items, ended => do
    let (v, ended) ← r.stepUnless host ended
    r.guard host ended (p.bind host scope kind v)
    bindItems host scope kind r items ended
  | some (.rest p) :: items, ended => do
    let rest ← r.restUnless host ended
    let array ← Edit.newArray rest
    r.guard host true (p.bind host scope kind (.obj array))
    bindItems host scope kind r items true

def bindFields (host : HostOn σ) (scope : ScopeId) (kind : Option VarKind) (v : Value) :
    List Binder → RunOn σ Unit
  | [] => return ()
  | .shorthand name :: fields => do
    bindName scope kind name ((← Run.heap).property v name)
    bindFields host scope kind v fields
  | .keyed k p :: fields => do
    let key ← k.eval host scope
    p.bind host scope kind ((← Run.heap).property v key)
    bindFields host scope kind v fields

end

def bindParams (host : HostOn σ) (scope : ScopeId) : List Pattern → List Value → RunOn σ Unit
  | [], _ => return ()
  | .rest p :: _, args => do
    let array ← Edit.newArray args.toArray
    p.bind host scope (some .let) (.obj array)
  | p :: ps, args => do
    p.bind host scope (some .let) (args.headD .undefined)
    bindParams host scope ps args.tail

end Resumable
