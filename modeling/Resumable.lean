import Resumable.Number.Layout
import Resumable.Number.Reading
import Resumable.Number.Word
import Resumable.Text
import Resumable.Text.Blank
import Resumable.Text.Lines
import Resumable.Script.Tree
import Resumable.Script.Suspends
import Resumable.Script.Census
import Resumable.Script.Equality
import Resumable.Script.Names
import Resumable.Script.Slots
import Resumable.Refusal
import Resumable.Lowering.Expr
import Resumable.Lowering.Stmt
import Resumable.Plan.Basic
import Resumable.Plan.Listing
import Resumable.Plan.Fragment
import Resumable.Plan.Builder
import Resumable.Dict
import Resumable.Value
import Resumable.World.Scope
import Resumable.World.Object
import Resumable.World.Heap
import Resumable.World.Instance
import Resumable.World
import Resumable.Realm
import Resumable.Run
import Resumable.Eval.Operators
import Resumable.Eval.Iteration
import Resumable.Eval.Closure
import Resumable.Eval.Expr
import Resumable.Eval.Pattern
import Resumable.Eval.Stmt
import Resumable.Promise
import Resumable.Machine.Unwind
import Resumable.Machine.Delegation
import Resumable.Machine.Dispatch
import Resumable.Machine.Resume
import Resumable.Async
import Resumable.Native
import Resumable.Call
import Resumable.Jobs
import Resumable.Session
import Resumable.Demo
import Resumable.Cli
import Resumable.Main
import Resumable.Proofs.Lowering.Hoisting
import Resumable.Proofs.Lowering.Normal
import Resumable.Proofs.Lowering.Grammar
import Resumable.Proofs.Lowering.Parts
import Resumable.Proofs.Lowering.Lowered
import Resumable.Proofs.Lowering.Idempotence
import Resumable.Proofs.Lowering.Points
import Resumable.Proofs.Plan.Layout
import Resumable.Proofs.Plan.Valid
import Resumable.Proofs.Plan.Completeness
import Resumable.Proofs.Plan.Points
import Resumable.Proofs.Plan.AwaitLoops
import Resumable.Proofs.Plan.StackMap
import Resumable.Proofs.Eval.Relation
import Resumable.Proofs.Eval.Expressions
import Resumable.Proofs.Eval.Patterns
import Resumable.Proofs.Eval.Statements
import Resumable.Proofs.Eval.Completions
import Resumable.Proofs.Machine.Stacks
import Resumable.Proofs.Machine.Discipline
import Resumable.Proofs.Machine.Runs
import Resumable.Proofs.Refinement.Effects
import Resumable.Proofs.Refinement.Iteration
import Resumable.Proofs.Lifecycle.Chains
import Resumable.Proofs.Lifecycle.Programs
import Resumable.Proofs.Lifecycle.Completed
import Resumable.Proofs.Machine.Delivery
import Resumable.Proofs.Machine.Finally
import Resumable.Proofs.Refinement.Bodies
import Resumable.Proofs.Eval.Privacy
import Resumable.Proofs.Machine.Conduct
import Resumable.Proofs.Promises.Rights
import Resumable.Proofs.Promises.Steps
import Resumable.Proofs.Promises.Invariants
import Resumable.Proofs.Promises.Activity
import Resumable.Proofs.Promises.Pending
import Resumable.Proofs.Promises.Queues
import Resumable.Proofs.Promises.Reached
import Resumable.Proofs.Promises.Requests
import Resumable.Proofs.Promises.Settlement
import Resumable.Proofs.Promises.Registration
import Resumable.Proofs.Refinement.Dialogue
import Resumable.Proofs.Machine.Jumps
import Resumable.Proofs.Polling.Alike
import Resumable.Proofs.Polling.Lockstep
import Resumable.Proofs.Polling.Programs
import Resumable.Proofs.Polling.Waiting
import Resumable.Proofs.Polling.Sessions
import Resumable.Proofs.Closing.Plans
import Resumable.Proofs.Lowering.ForHeads
import Resumable.Proofs.Lowering.Meaning
import Resumable.Proofs.Lowering.Supported
import Resumable.Proofs.Lowering.Admission
import Resumable.Proofs.Lowering.Acceptance
import Resumable.Proofs.Machine.Bounds
import Resumable.Proofs.Machine.Forwarding
import Resumable.Proofs.Plan.Hygiene
import Resumable.Proofs.Machine.Handover
import Resumable.Proofs.Machine.Elements
import Resumable.Proofs.Lifecycle.Awaited
import Resumable.Proofs.Machine.Cursor
import Resumable.Proofs.Lifecycle.Growth
import Resumable.Proofs.Lifecycle.SharedPlans
import Resumable.Proofs.Lifecycle.Fuel
import Resumable.Proofs.Lifecycle.Overlooked
import Resumable.Proofs.Lifecycle.NativeDelegation
import Resumable.Proofs.Lifecycle.Accounts
import Resumable.Proofs.Lifecycle.Expected
import Resumable.Proofs.Lifecycle.Scripts
import Resumable.Proofs.Plan.Turning
import Resumable.Proofs.Scopes.Isolation
import Resumable.Proofs.Promises.Calls
import Resumable.Proofs.Objects.Writes
import Resumable.Proofs.Text.Joining
import Resumable.Proofs.Objects.Symbols
import Resumable.Proofs.Plan.Writing
import Resumable.Proofs.Plan.Constructs
import Resumable.Proofs.Plan.Emission
import Resumable.Proofs.Scopes.Assignment
import Resumable.Proofs.Scopes.Captures
import Resumable.Proofs.Lowering.VarNames
import Resumable.Proofs.Plan.Binders
import Resumable.Proofs.Eval.VarBindings
import Resumable.Proofs.Scopes.Hoisting
