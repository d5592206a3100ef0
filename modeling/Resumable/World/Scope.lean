import Resumable.Dict
import Resumable.Value

/-!
Scopes: a store of environments, each linked to the one around it. The link of a scope leads to an
older one, so a chain of scopes ends. A name belongs to the nearest scope of the chain that binds it.
-/

set_option autoImplicit false

namespace Resumable

abbrev ScopeId := Nat

/-- A binding is not initialized between its declaration and its first assignment. -/
structure Binding where
  value : Value
  kind : VarKind
  initialized : Bool

structure Scope where
  bindings : Dict Binding
  parent : Option ScopeId

instance : Inhabited Scope := ⟨⟨.empty, none⟩⟩

structure Scopes where
  all : Array Scope

inductive Lookup where
  | found (v : Value)
  | uninitialized
  | unbound

namespace Scopes

def empty : Scopes := ⟨#[]⟩

def get? (s : Scopes) (id : ScopeId) : Option Scope := s.all[id]?

def alloc (s : Scopes) (scope : Scope) : ScopeId × Scopes := (s.all.size, ⟨s.all.push scope⟩)

def binding? (s : Scopes) (id : ScopeId) (name : String) : Option Binding :=
  (s.get? id).bind fun scope => scope.bindings.get? name

def bind (s : Scopes) (id : ScopeId) (name : String) (b : Binding) : Scopes :=
  ⟨s.all.modify id fun scope => { scope with bindings := scope.bindings.insert name b }⟩

def chain (s : Scopes) (id : ScopeId) : List ScopeId :=
  id :: match (s.get? id).bind Scope.parent with
    | some parent => if parent < id then s.chain parent else []
    | none => []
termination_by id

def binder? (s : Scopes) (id : ScopeId) (name : String) : Option ScopeId :=
  (s.chain id).find? fun scope => (s.binding? scope name).isSome

def root (s : Scopes) (id : ScopeId) : ScopeId := (s.chain id).getLastD id

def lookup (s : Scopes) (id : ScopeId) (name : String) : Lookup :=
  match (s.binder? id name).bind (s.binding? · name) with
  | some b => if b.initialized then .found b.value else .uninitialized
  | none => .unbound

def value? (s : Scopes) (id : ScopeId) (name : String) : Option Value :=
  match s.lookup id name with
  | .found v => some v
  | .uninitialized | .unbound => none

def has (s : Scopes) (id : ScopeId) (name : String) : Bool := (s.binder? id name).isSome

/-- Declares a name in a scope; to declare a `var` again changes nothing. -/
def declare (s : Scopes) (id : ScopeId) (name : String) (kind : VarKind) : Scopes :=
  if kind = .var && (s.binding? id name).isSome then s
  else s.bind id name ⟨.undefined, kind, kind = .var⟩

/-- Assigns to the nearest binding of a name, or makes one in the outermost scope. An initialized
constant refuses. -/
def assign? (s : Scopes) (id : ScopeId) (name : String) (v : Value) : Option Scopes :=
  match s.binder? id name with
  | some owner =>
    match s.binding? owner name with
    | some b =>
      if b.kind = .const && b.initialized then none
      else some (s.bind owner name { b with value := v, initialized := true })
    | none => some s
  | none => some (s.bind (s.root id) name ⟨v, .var, true⟩)

/-- A copy of a scope beside it; whoever holds the old one keeps its values. -/
def copy (s : Scopes) (id : ScopeId) : ScopeId × Scopes :=
  s.alloc ((s.get? id).getD default)

end Scopes

end Resumable
