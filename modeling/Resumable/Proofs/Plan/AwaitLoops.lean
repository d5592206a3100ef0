import Mathlib
import Resumable.Proofs.Lowering.WholeLoops
import Resumable.Proofs.Plan.Points
import Resumable.Proofs.Plan.StackMap

/-!
Where the `for await` loops of a body are in its plan. A loop that does not run whole is opened by one
instruction and stepped by another; all others stay inside of a statement that is evaluated, where the loop
is an error. Main statement: `buildPlan_steps_loops`.
-/

set_option autoImplicit false

namespace Resumable

namespace Instr

def isAsyncOpen : Instr → Bool
  | .openIterator _ isAsync _ _ => isAsync
  | _ => false

/-- How many `for await` loops are in the statement that is evaluated. -/
def asyncLoops : Instr → Nat
  | .evaluate s _ => s.asyncLoops
  | _ => 0

/-- Whether a loop that is opened here is entered next, and stepped in the same way. -/
def IsStepped (at? : Nat → Option Instr) : Instr → Prop
  | .openIterator _ isAsync _ enter => ∃ labels step onBreak,
      at? enter = some (.enterLoop labels .loop (some step) onBreak step) ∧
      ∃ kind pattern body exit, at? step = some (.moveNext kind pattern body exit isAsync)
  | _ => True

/-- Instructions that are no part of a loop over an iterator and run no loop. -/
def isPlain : Instr → Bool
  | .openIterator _ _ _ _ | .moveNext _ _ _ _ _ => false
  | .evaluate s _ => s.asyncLoops == 0
  | _ => true

end Instr

def countOpens (code : List Instr) : Nat := code.countP Instr.isAsyncOpen

/-- How many `for await` loops are in the statements that the code evaluates. -/
def heldLoops (code : List Instr) : Nat := (code.map Instr.asyncLoops).sum

/-- Whether code has so many `for await` loops, and so many of them in statements that it evaluates. The
others are opened and stepped. -/
structure StepsLoops (at? : Nat → Option Instr) (code : List Instr) (all whole : Nat) : Prop where
  all : countMoves code + heldLoops code = all
  opens : countOpens code = countMoves code
  whole : heldLoops code = whole
  stepped : ∀ i ∈ code, i.IsStepped at?

section Pieces

variable {at? : Nat → Option Instr} {c d : List Instr} {l m n k : Nat} {i : Instr}

namespace StepsLoops

theorem nil : StepsLoops at? [] 0 0 := ⟨rfl, rfl, rfl, by simp⟩

theorem append (hc : StepsLoops at? c l m) (hd : StepsLoops at? d n k) :
    StepsLoops at? (c ++ d) (l + n) (m + k) where
  all := by
    simp only [heldLoops, countMoves_append, List.map_append, List.sum_append, ← hc.all, ← hd.all]
    omega
  opens := by simp only [countOpens, List.countP_append, countMoves_append, ← hc.opens, ← hd.opens]
  whole := by simp only [heldLoops, List.map_append, List.sum_append, ← hc.whole, ← hd.whole]
  stepped := List.forall_mem_append.2 ⟨hc.stepped, hd.stepped⟩

theorem append_rev (hc : StepsLoops at? c l m) (hd : StepsLoops at? d n k) :
    StepsLoops at? (c ++ d) (n + l) (k + m) := by
  rw [Nat.add_comm n, Nat.add_comm k]
  exact hc.append hd

theorem plain (h : c.all Instr.isPlain = true) : StepsLoops at? c 0 0 := by
  induction c with
  | nil => exact nil
  | cons i c ih =>
    rw [List.all_cons, Bool.and_eq_true] at h
    refine append (c := [i]) ?_ (ih h.2)
    cases i with
    | openIterator | moveNext => simp [Instr.isPlain] at h
    | evaluate s next =>
      have hs : s.asyncLoops = 0 := by simpa [Instr.isPlain] using h.1
      exact ⟨by simp [heldLoops, Instr.asyncLoops, hs, countMoves, Instr.isAsyncMove],
        rfl, by simp [heldLoops, Instr.asyncLoops, hs], List.forall_mem_singleton.2 trivial⟩
    | _ => exact ⟨rfl, rfl, rfl, List.forall_mem_singleton.2 trivial⟩

theorem cons (hi : i.isPlain = true) (hc : StepsLoops at? c l m) : StepsLoops at? (i :: c) l m := by
  have h := (plain (c := [i]) (by simp [hi])).append hc
  simpa using h

theorem concat (hi : i.isPlain = true) (hc : StepsLoops at? c l m) :
    StepsLoops at? (c ++ [i]) l m := by
  simpa using hc.append (cons hi nil)

end StepsLoops

variable {inAsync : Bool} {base next : Nat}

theorem suspendInstr_isPlain {e : Expr} {store : Nat} (h : e.suspendInstr? store = some i) :
    i.isPlain = true := by
  rw [Expr.suspendInstr?.eq_def] at h
  split at h <;> cases h <;> rfl

theorem EffectsLaid.isPlain {es : List Expr} {f : Fragment} (h : EffectsLaid inAsync base next es f) :
    f.code.all Instr.isPlain = true := by
  induction h with
  | nil => rfl
  | plain _ _ ih => simp [ih, Instr.isPlain, Stmt.asyncLoops]
  | suspend _ _ _ _ hi ih =>
    rw [List.all_append, ih, List.all_cons, List.all_cons, suspendInstr_isPlain hi]
    rfl
  | seq _ _ _ ih ih' => rw [List.all_append, ih, ih', Bool.and_self]

theorem ConditionLaid.isPlain {onTrue onFalse : Nat} {e : Expr} {f : Fragment}
    (h : ConditionLaid inAsync base onTrue onFalse e f) : f.code.all Instr.isPlain = true := by
  cases h with
  | plain => rfl
  | seq _ _ hfirst => simpa [Instr.isPlain] using hfirst.isPlain

theorem TestLaid.isPlain {onTrue onFalse : Nat} {e : Option Expr} {f : Fragment}
    (h : TestLaid inAsync base onTrue onFalse e f) : f.code.all Instr.isPlain = true := by
  cases h with
  | none => rfl
  | some h => exact h.isPlain

theorem UpdateLaid.isPlain {e : Option Expr} {f : Fragment} (h : UpdateLaid inAsync base next e f) :
    f.code.all Instr.isPlain = true := by
  cases h with
  | none => rfl
  | some h => exact h.isPlain

theorem InitLaid.isPlain {init : ForInit} {f : Fragment} (h : InitLaid inAsync base next init f) :
    f.code.all Instr.isPlain = true := by
  cases h with
  | absent | declare => rfl
  | expr h => exact h.isPlain

theorem buildTests_isPlain (subject : String) (otherwise : Nat) (cases : List (Case × Nat)) :
    (buildTests subject base otherwise cases).code.all Instr.isPlain = true := by
  induction cases with
  | nil => rfl
  | cons c cases ih =>
    rw [buildTests]
    split
    · exact ih
    · rw [Fragment.close, List.all_append, ih]
      rfl

theorem step_isPlain {u : Fragment} (ownScope : Bool) (h : u.code.all Instr.isPlain = true) :
    (u.step ownScope base).code.all Instr.isPlain = true := by
  rw [Fragment.step]
  split
  · rw [Fragment.close, List.all_append, h]
    rfl
  · exact h

theorem leaf_stepsLoops (s : Stmt) :
    StepsLoops at? [s.leafInstr next] s.asyncLoops s.asyncLoops := by
  cases s <;> exact ⟨Nat.zero_add _, rfl, rfl, List.forall_mem_singleton.2 trivial⟩

end Pieces

section Whole

variable {inAsync : Bool}

mutual

/-- In a statement that does not suspend every `for await` loop runs whole. -/
theorem wholeLoops_of_plain : (s : Stmt) → s.hasSuspend inAsync = false →
    s.wholeLoops inAsync = s.asyncLoops
  | .empty, _ | .brk _, _ | .cont _, _ | .function _ _, _ | .expr _, _ | .throw _, _ | .ret _, _
  | .declare _ _, _ => rfl
  | .block b, h => bodyWholeLoops_of_plain b h
  | .ifElse t y none, h => by
    simp only [Stmt.hasSuspend, Bool.or_eq_false_iff] at h
    exact wholeLoops_of_plain y h.2
  | .ifElse t y (some n), h => by
    simp only [Stmt.hasSuspend, Bool.or_eq_false_iff] at h
    simp [Stmt.asyncLoops, Stmt.wholeLoops, wholeLoops_of_plain y h.1.2, wholeLoops_of_plain n h.2]
  | .whileDo t b, h | .doWhile b t, h | .forLoop _ _ _ b, h => by
    simp only [Stmt.hasSuspend, Bool.or_eq_false_iff] at h
    exact wholeLoops_of_plain b h.2
  | .forIn p e b, h => by
    simp only [Stmt.hasSuspend, Bool.or_eq_false_iff] at h
    exact wholeLoops_of_plain b h.1.2
  | .forOf p e b a, h => by
    simp only [Stmt.hasSuspend, Bool.or_eq_false_iff] at h
    simp [Stmt.asyncLoops, Stmt.wholeLoops, Stmt.runsWhole, h.1.1.1, h.1.2,
      wholeLoops_of_plain b h.1.2]
  | .tryCatch b none none, h => bodyWholeLoops_of_plain b h
  | .tryCatch b none (some f), h => by
    simp only [Stmt.hasSuspend, Bool.or_eq_false_iff] at h
    simp [Stmt.asyncLoops, Stmt.wholeLoops, bodyWholeLoops_of_plain b h.1,
      bodyWholeLoops_of_plain f h.2]
  | .tryCatch b (some (.mk p c)) none, h => by
    simp only [Stmt.hasSuspend, Bool.or_eq_false_iff] at h
    simp [Stmt.asyncLoops, Stmt.wholeLoops, bodyWholeLoops_of_plain b h.1.1,
      bodyWholeLoops_of_plain c h.1.2]
  | .tryCatch b (some (.mk p c)) (some f), h => by
    simp only [Stmt.hasSuspend, Bool.or_eq_false_iff] at h
    simp [Stmt.asyncLoops, Stmt.wholeLoops, bodyWholeLoops_of_plain b h.1.1.1,
      bodyWholeLoops_of_plain c h.1.1.2, bodyWholeLoops_of_plain f h.2]
  | .switch e cases, h => by
    simp only [Stmt.hasSuspend, Bool.or_eq_false_iff] at h
    exact caseWholeLoops_of_plain cases h.2
  | .labeled _ s, h => wholeLoops_of_plain s h

theorem bodyWholeLoops_of_plain : (ss : List Stmt) → anySuspend inAsync ss = false →
    bodyWholeLoops inAsync ss = bodyAsyncLoops ss
  | [], _ => rfl
  | s :: ss, h => by
    simp only [anySuspend, Bool.or_eq_false_iff] at h
    simp [bodyAsyncLoops, bodyWholeLoops, wholeLoops_of_plain s h.1, bodyWholeLoops_of_plain ss h.2]

theorem caseWholeLoops_of_plain : (cases : List Case) → casesHaveSuspend inAsync cases = false →
    caseWholeLoops inAsync cases = caseAsyncLoops cases
  | [], _ => rfl
  | .mk t body :: cases, h => by
    simp only [casesHaveSuspend, Bool.or_eq_false_iff] at h
    simp [caseAsyncLoops, caseWholeLoops, bodyWholeLoops_of_plain body h.1.2,
      caseWholeLoops_of_plain cases h.2]

end

end Whole

/-- The `for await` loops that run whole in what a part is made for. -/
def Part.wholeLoops (inAsync : Bool) : Part → Nat
  | .stmt _ s => s.wholeLoops inAsync
  | .stmts ss | .block ss => bodyWholeLoops inAsync ss
  | .alternative none | .handler none _ | .finalizer none _ => 0
  | .alternative (some no) => no.wholeLoops inAsync
  | .headLoop _ _ _ _ _ body | .iteration _ _ _ body _ _ => body.wholeLoops inAsync
  | .handler (some (.mk _ body)) _ | .finalizer (some body) _ => bodyWholeLoops inAsync body
  | .cases cs _ => caseWholeLoops inAsync cs

theorem tryCatch_loops (inAsync : Bool) (block : List Stmt) (handler : Option Catch)
    (finalizer : Option (List Stmt)) (onThrow onExit : Option Nat) :
    (Stmt.tryCatch block handler finalizer).asyncLoops =
        (Part.finalizer finalizer onExit).asyncLoops + (Part.handler handler onThrow).asyncLoops +
          bodyAsyncLoops block ∧
      (Stmt.tryCatch block handler finalizer).wholeLoops inAsync =
        (Part.finalizer finalizer onExit).wholeLoops inAsync +
          (Part.handler handler onThrow).wholeLoops inAsync + bodyWholeLoops inAsync block := by
  match handler, finalizer with
  | none, none | none, some _ | some (.mk _ _), none | some (.mk _ _), some _ =>
    constructor <;> simp [Stmt.asyncLoops, Stmt.wholeLoops, Part.asyncLoops, Part.wholeLoops] <;> omega

theorem runsWhole_iteration {inAsync : Bool} {target : ForTarget} {subject : Expr} {body : Stmt}
    {isAwait : Bool} (hs : (Stmt.forOf target subject body isAwait).hasSuspend inAsync = true)
    (hl : (Stmt.forOf target subject body isAwait).isLowered inAsync = true) :
    (Stmt.forOf target subject body isAwait).runsWhole inAsync = false := by
  simp only [Stmt.isLowered, Bool.and_eq_true, Bool.not_eq_true'] at hl
  simp only [Stmt.hasSuspend, hl.1.1, hl.1.2, Bool.or_false] at hs
  rw [Stmt.runsWhole, ← Bool.not_or, hs, Bool.not_true]

/-- The code of a part steps its `for await` loops, but for those that run whole. -/
theorem Laid.stepsLoops {at? : Nat → Option Instr} {around : Surroundings} {base next : Nat}
    {part : Part} {f : Fragment} (h : Laid around base next part f)
    (hl : part.Lowered around.inAsync) (hp : Lies at? base f.code) :
    StepsLoops at? f.code part.asyncLoops (part.wholeLoops around.inAsync) := by
  induction h with
  | leaf hs _ =>
    rw [Part.wholeLoops, wholeLoops_of_plain _ hs]
    exact leaf_stepsLoops _
  | labeled _ _ ih | blockStmt _ _ ih | alternative _ ih => exact ih hl hp
  | enclosed _ _ _ _ ih =>
    rw [Fragment.enclose, List.cons_append, lies_cons, lies_append] at hp
    exact ((ih hl hp.2.1).concat rfl).cons rfl
  | expr _ he => exact .plain he.isPlain
  | @ifElse around base _ test yes no n y t _ _ _ ht ihn ihy =>
    rw [lies_append, lies_append] at hp
    have hy (hy : yes.isLowered around.inAsync = true) := ihy hy hp.1.2
    have ht : StepsLoops at? t.code 0 0 := .plain ht.isPlain
    cases no with
    | none =>
      simp only [Part.Lowered, Stmt.isLowered, Bool.and_eq_true] at hl
      exact ((ihn trivial hp.1.1).append_rev (hy hl.2)).append ht
    | some no =>
      simp only [Part.Lowered, Stmt.isLowered, Bool.and_eq_true] at hl
      exact ((ihn hl.2 hp.1.1).append_rev (hy hl.1.2)).append ht
  | whileDo _ _ ht ih | doWhile _ _ ht ih =>
    simp only [Part.Lowered, Stmt.isLowered, Bool.and_eq_true] at hl
    simp only [Fragment.testLoop, List.cons_append, lies_cons, lies_append] at hp
    have h := (ih hl.2 hp.2.2.1.1).append (.plain ht.isPlain)
    exact ((h.concat rfl).cons rfl).cons rfl
  | forPlain _ _ _ ih =>
    simp only [Part.Lowered, Stmt.isLowered, Bool.and_eq_true, Bool.not_eq_true'] at hl
    exact ih ⟨hl.1.1.1, hl.1.1.2, hl.1.2, hl.2⟩ hp
  | forScoped _ _ _ ih =>
    simp only [Part.Lowered, Stmt.isLowered, Bool.and_eq_true, Bool.not_eq_true'] at hl
    simp only [Fragment.inScope, List.cons_append, lies_cons, lies_append] at hp
    exact ((ih ⟨hl.1.1.1, hl.1.1.2, hl.1.2, hl.2⟩ hp.2.1).concat rfl).cons rfl
  | headLoop hu hc _ ht hi ih =>
    obtain ⟨-, -, -, hlb⟩ := hl
    simp only [Fragment.headLoop, List.cons_append, List.append_assoc, lies_cons, lies_append] at hp
    have hb := ih hlb hp.2.2.2.1
    have hc : StepsLoops at? _ 0 0 := .plain (hc ▸ step_isPlain _ hu.isPlain)
    have h := (hc.append_rev hb).append (.plain ht.isPlain)
    exact ((h.append (.cons rfl (.plain hi.isPlain))).cons rfl).cons rfl
  | forIn _ _ ih =>
    simp only [Part.Lowered, Stmt.isLowered, Bool.and_eq_true, Bool.not_eq_true'] at hl
    have h := ih ⟨hl.1.1, hl.1.2, hl.2⟩ hp
    simpa [Part.asyncLoops, Stmt.asyncLoops, Part.wholeLoops, Stmt.wholeLoops] using h
  | forOf hs _ ih =>
    have hw := runsWhole_iteration hs hl
    simp only [Part.Lowered, Stmt.isLowered, Bool.and_eq_true, Bool.not_eq_true'] at hl
    have h := ih ⟨hl.1.1, hl.1.2, hl.2⟩ hp
    simpa [Part.asyncLoops, Stmt.asyncLoops, Part.wholeLoops, Stmt.wholeLoops, hw] using h
  | @iteration around base next labels target subject body isAsync overKeys b _ ih =>
    simp only [Fragment.iteration, List.cons_append, lies_cons, lies_append] at hp
    have hb := ih hl.2.2 hp.2.2.2.2.1
    have hmove := hp.2.2.1
    obtain ⟨-, henter, -⟩ := hp.2.2.2.2.2
    have hopen : (Instr.openIterator subject isAsync overKeys (base + 4 + b.size + 1)).IsStepped at? :=
      ⟨labels, base + 2, _, henter, _, _, _, _, hmove⟩
    refine ⟨?_, ?_, ?_, ?_⟩
    · have hall := hb.all
      simp only [heldLoops, Part.asyncLoops] at hall
      simp only [Fragment.iteration, heldLoops, Part.asyncLoops, countMoves_cons, countMoves_append,
        Instr.isAsyncMove]
      simp [Instr.asyncLoops]
      omega
    · have hopens := hb.opens
      rw [countOpens] at hopens
      cases isAsync <;>
        simp [Fragment.iteration, countOpens, Instr.isAsyncOpen, Instr.isAsyncMove, hopens]
    · simpa [Fragment.iteration, heldLoops, Instr.asyncLoops, Part.wholeLoops] using hb.whole
    · simp only [Fragment.iteration, List.cons_append, List.forall_mem_cons, List.forall_mem_append]
      exact ⟨trivial, trivial, trivial, trivial, hb.stepped, trivial, trivial, hopen, by simp⟩
  | @tryCatch around _ next block handler finalizer onThrow onExit _ _ b _ _ _ _ ihf ihh ihb =>
    obtain ⟨hb, hh, hf⟩ := tryCatch_isLowered _ _ _ _ onThrow onExit hl
    obtain ⟨hall, hwhole⟩ := tryCatch_loops around.inAsync block handler finalizer onThrow onExit
    simp only [Fragment.protect, List.append_assoc, lies_append, lies_cons, List.cons_append] at hp
    have hb := ihb hb (by simpa [Nat.add_assoc] using hp.2.2.2.1)
    rw [Part.asyncLoops, Part.wholeLoops, hall, hwhole]
    exact (((ihf hf hp.1).append (ihh hh hp.2.1)).append (hb.cons rfl)).concat rfl
  | switch _ _ ih =>
    simp only [Part.Lowered, Stmt.isLowered, Bool.and_eq_true] at hl
    simp only [Fragment.switch, List.cons_append, List.append_assoc, lies_cons, lies_append] at hp
    exact ((((ih hl.2 hp.2.2.1).append (.plain (buildTests_isPlain _ _ _))).append
      (.plain rfl)).cons rfl).cons rfl
  | block _ ih =>
    simp only [Fragment.inScope, List.cons_append, lies_cons, lies_append] at hp
    exact ((ih hl hp.2.1).concat rfl).cons rfl
  | noAlternative | noFinalizer | noHandler | nil | noCase => exact .nil
  | finalizer _ ih => exact (ih hl hp.2).cons rfl
  | handler _ ih =>
    simp only [List.cons_append, lies_cons, lies_append] at hp
    exact (((ih hl.2 hp.2.2.1).concat rfl).cons rfl).cons rfl
  | cons _ _ ih ih' =>
    simp only [Part.Lowered, areLowered, Bool.and_eq_true] at hl
    rw [lies_append] at hp
    exact (ih hl.2 hp.1).append_rev (ih' hl.1 hp.2)
  | case _ _ ih ih' =>
    simp only [Part.Lowered, casesAreLowered, Bool.and_eq_true] at hl
    rw [lies_append] at hp
    exact (ih hl.2 hp.1).append_rev (ih' hl.1.2 hp.2)

theorem heldLoops_of_holdsNone {code : List Instr} (h : HoldsNone true code) : heldLoops code = 0 := by
  refine List.sum_eq_zero fun n hn => ?_
  obtain ⟨i, hi, rfl⟩ := List.mem_map.1 hn
  cases i with
  | evaluate s next => exact asyncLoops_of_plain s (h _ hi)
  | _ => rfl

/-- Every `for await` loop of a body is opened by one instruction of its plan and stepped by another, but
for those that run whole: exactly these are inside of a statement that the plan evaluates. In an
asynchronous body there are none. -/
theorem buildPlan_steps_loops {inAsync : Bool} {params : List Pattern} {body : List Stmt} {plan : Plan}
    (h : buildPlan inAsync params body = .ok plan) :
    countMoves plan.code + bodyWholeLoops inAsync body = bodyAsyncLoops body ∧
    countOpens plan.code = countMoves plan.code ∧
    (∀ i ∈ plan.code, i.IsStepped plan.get?) ∧
    heldLoops plan.code = bodyWholeLoops inAsync body ∧
    (inAsync = true → bodyWholeLoops inAsync body = 0) := by
  obtain ⟨lowered, f, hl, hlaid, hcode, -⟩ := buildPlan_laid h
  have hlies : Lies plan.get? 1 f.code := lies_of_getElem _ _ _ fun k x hk => by
    rw [Plan.get?, hcode, Nat.add_comm]
    exact hk
  have hs := (hlaid.stepsLoops (lowerBody_sound hl).lowered hlies).cons (i := .ret none) rfl
  rw [← hcode] at hs
  simp only [Part.asyncLoops, Part.wholeLoops, (lowerBody_keeps hl).1, lowerBody_wholeLoops hl] at hs
  refine ⟨?_, hs.opens, hs.stepped, hs.whole, ?_⟩
  · rw [← hs.all, hs.whole]
  · rintro rfl
    exact hs.whole.symm.trans (heldLoops_of_holdsNone (buildPlan_holdsNone h))

/-- A loop with a yield in its body, and after it one without. -/
theorem buildPlan_steps_loops_generator : ∃ plan, buildPlan false []
      [.forOf (.declare .const (.ident "x")) (.ident "xs") (.expr (.yield (some (.ident "x")))) true,
        .forOf (.declare .var (.ident "y")) (.ident "ys") .empty true] = .ok plan ∧
    countOpens plan.code = 1 ∧ countMoves plan.code = 1 ∧ heldLoops plan.code = 1 := by
  obtain ⟨plan, hbuilt⟩ : ∃ plan, buildPlan false []
      [.forOf (.declare .const (.ident "x")) (.ident "xs") (.expr (.yield (some (.ident "x")))) true,
        .forOf (.declare .var (.ident "y")) (.ident "ys") .empty true] = .ok plan := ⟨_, rfl⟩
  obtain ⟨hall, hopens, -, hheld, -⟩ := buildPlan_steps_loops hbuilt
  have hwhole : heldLoops plan.code = 1 := hheld.trans (by decide +kernel)
  have hmoves : countMoves plan.code = 1 := by
    rw [← hheld, hwhole] at hall
    exact Nat.add_right_cancel (hall.trans (show _ = 1 + 1 by decide +kernel))
  exact ⟨plan, hbuilt, hopens.trans hmoves, hmoves, hwhole⟩

/-- The only loop of a generator's body is not stepped where nothing in the loop suspends. -/
theorem buildPlan_holds_loop : (buildPlan false []
      [.forOf (.declare .var (.ident "x")) (.array [some (.num 1)]) .empty true]).toOption.map
        (fun plan => (countOpens plan.code, countMoves plan.code, heldLoops plan.code)) =
    some (0, 0, 1) := by decide +kernel

end Resumable
