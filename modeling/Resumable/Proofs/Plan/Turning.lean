import Resumable.Proofs.Lowering.Heads
import Resumable.Proofs.Plan.Colours

/-!
Loops in plans whose turns have bindings of their own. Main statements: `buildPlan_copies`: a plan has one
for each such loop of its body; `Turning.of_copyScope`, `Turning.of_enterLoop`.
-/

set_option autoImplicit false

namespace Resumable

/-- The positions of a loop whose turns have bindings of their own: where it is entered, where its bindings
are copied, where its turns begin and where it is left, and what is around the scope of its bindings. -/
structure Turning where
  origin : Nat
  copy : Nat
  start : Nat
  onBreak : Nat
  labels : List String
  outer : Context

namespace Turning

def site (s : Turning) : Site := .loop s.origin s.labels .loop (some s.copy) s.onBreak

/-- Whether a plan has such a loop. The bindings are copied, and turns begin, with their scope as the
innermost one. -/
structure In (s : Turning) (plan : Plan) (M : StackMap) (C : Colours) : Prop where
  enter : plan.get? s.origin = some (.enterLoop s.labels .loop (some s.copy) s.onBreak s.start)
  around : M s.origin = .scope :: s.outer
  at_copy : M s.copy = s.site :: .scope :: s.outer
  at_start : M s.start = s.site :: .scope :: s.outer
  colour : C s.start = some (.between s.start)
  begins : ∃ head, plan.get? s.start = some (.jump head)

variable {plan : Plan} {M : StackMap} {C : Colours} {s s' : Turning}

theorem In.ext (h : s.In plan M C) (h' : s'.In plan M C) (hs : s.copy = s'.copy) : s = s' := by
  obtain ⟨origin, copy, start, onBreak, labels, outer⟩ := s
  obtain ⟨origin', copy', start', onBreak', labels', outer'⟩ := s'
  cases hs
  have hsite := h.at_copy.symm.trans h'.at_copy
  simp only [site, List.cons.injEq, Site.loop.injEq, true_and] at hsite
  obtain ⟨⟨rfl, rfl, -, rfl⟩, rfl⟩ := hsite
  have henter := h.enter.symm.trans h'.enter
  simp only [Option.some.injEq, Instr.enterLoop.injEq, true_and] at henter
  rw [henter]

/-- A copy belongs to such a loop, and leads to where the loop is between two turns. -/
theorem of_copyScope (hM : M.Maps plan) (hC : C.Paint plan) {k next : Nat}
    (hi : plan.get? k = some (.copyScope next)) : ∃ s : Turning, s.In plan M C ∧ s.copy = k ∧
      C next = some (.between s.start) ∧ M next = M s.start := by
  obtain ⟨-, o, labels, onBreak, start, past, head, henter, hpop, hjump, hstart, hnext⟩ :=
    hC.respects _ _ hi
  have hfits : M start = .loop o labels .loop (some k) onBreak :: M o := hM.fits _ _ henter
  have hsound := hM.sound start
  rw [hfits] at hsound
  obtain ⟨⟨-, -, hbreak, hcontinue, -⟩, -⟩ := hsound
  have hscope : M onBreak = .scope :: M past := hM.fits _ _ hpop
  have hk := hcontinue k rfl
  have ho := hbreak.symm.trans hscope
  rw [ho] at hk hfits
  exact ⟨⟨o, k, start, onBreak, labels, M past⟩, ⟨henter, ho, hk, hfits, hstart, head, hjump⟩, rfl,
    hnext, (hM.fits _ _ hi : M next = M k).trans (hk.trans hfits.symm)⟩

/-- A loop that is continued at a copy is such a loop. -/
theorem of_enterLoop (hM : M.Maps plan) (hC : C.Paint plan) {o k onBreak start next : Nat}
    {labels : List String} (ho : plan.get? o = some (.enterLoop labels .loop (some k) onBreak start))
    (hk : plan.get? k = some (.copyScope next)) :
    ∃ outer, Turning.In ⟨o, k, start, onBreak, labels, outer⟩ plan M C := by
  obtain ⟨⟨o', _, start', onBreak', labels', outer⟩, hs, rfl, -⟩ := of_copyScope hM hC hk
  have hfits : M start = .loop o labels .loop (some _) onBreak :: M o := hM.fits _ _ ho
  have hsound := hM.sound start
  rw [hfits] at hsound
  have hsite := (hsound.1.2.2.2.1 _ rfl).symm.trans hs.at_copy
  simp only [site, List.cons.injEq, Site.loop.injEq, true_and] at hsite
  obtain ⟨⟨rfl, rfl, rfl⟩, -⟩ := hsite
  have henter := ho.symm.trans hs.enter
  simp only [Option.some.injEq, Instr.enterLoop.injEq, true_and] at henter
  exact ⟨outer, henter ▸ hs⟩

end Turning

/-- Whether an instruction copies the bindings of a loop. -/
def Instr.isCopy : Instr → Bool
  | .copyScope _ => true
  | _ => false

def countCopies (code : List Instr) : Nat := code.countP Instr.isCopy

@[simp] theorem countCopies_nil : countCopies [] = 0 := rfl

@[simp] theorem countCopies_cons (i : Instr) (code : List Instr) :
    countCopies (i :: code) = countCopies code + i.isCopy.toNat := by
  cases h : i.isCopy <;> simp [countCopies, h]

@[simp] theorem countCopies_append (c d : List Instr) :
    countCopies (c ++ d) = countCopies c + countCopies d := List.countP_append

section Flat

variable {inAsync : Bool} {base next : Nat}

theorem suspendInstr_isCopy {e : Expr} {store : Nat} {i : Instr} (h : e.suspendInstr? store = some i) :
    i.isCopy = false := by
  rw [Expr.suspendInstr?.eq_def] at h
  split at h <;> cases h <;> rfl

theorem EffectsLaid.copies {es : List Expr} {f : Fragment} (h : EffectsLaid inAsync base next es f) :
    countCopies f.code = 0 := by
  induction h with
  | nil => rfl
  | plain _ _ ih => simp [ih, Instr.isCopy]
  | @suspend _ _ _ _ slot _ rest _ _ _ _ _ hi ih =>
    have hstore : (Instr.store slot rest.entry).isCopy = false := rfl
    simp [ih, suspendInstr_isCopy hi, hstore]
  | seq _ _ _ ih ih' => simp [ih, ih']

theorem ConditionLaid.copies {onTrue onFalse : Nat} {e : Expr} {f : Fragment}
    (h : ConditionLaid inAsync base onTrue onFalse e f) : countCopies f.code = 0 := by
  cases h with
  | plain => rfl
  | seq _ _ hfirst => simp [hfirst.copies, Instr.isCopy]

theorem TestLaid.copies {onTrue onFalse : Nat} {e : Option Expr} {f : Fragment}
    (h : TestLaid inAsync base onTrue onFalse e f) : countCopies f.code = 0 := by
  cases h with
  | none => rfl
  | some h => exact h.copies

theorem UpdateLaid.copies {e : Option Expr} {f : Fragment} (h : UpdateLaid inAsync base next e f) :
    countCopies f.code = 0 := by
  cases h with
  | none => rfl
  | some h => exact h.copies

theorem InitLaid.copies {init : ForInit} {f : Fragment} (h : InitLaid inAsync base next init f) :
    countCopies f.code = 0 := by
  cases h with
  | absent => rfl
  | expr h => exact h.copies
  | declare => rfl

theorem buildTests_copies (subject : String) (otherwise : Nat) (cases : List (Case × Nat)) :
    countCopies (buildTests subject base otherwise cases).code = 0 := by
  induction cases with
  | nil => rfl
  | cons c cases ih =>
    simp only [buildTests]
    split
    · exact ih
    · simp [Fragment.close, ih, Instr.isCopy]

theorem leaf_copies (s : Stmt) : countCopies [s.leafInstr next] = 0 := by
  cases s <;> rfl

end Flat

/-- The loops with bindings of their own, of what a part is made for, that are run by its code. -/
@[simp] def Part.ownLoops (inAsync : Bool) : Part → Nat
  | .stmt _ s => s.ownLoops inAsync
  | .stmts ss | .block ss => bodyOwnLoops inAsync ss
  | .alternative none | .handler none _ | .finalizer none _ => 0
  | .alternative (some no) => no.ownLoops inAsync
  | .headLoop _ ownScope _ _ _ body => ownScope.toNat + body.ownLoops inAsync
  | .iteration _ _ _ body _ _ => body.ownLoops inAsync
  | .handler (some (.mk _ body)) _ | .finalizer (some body) _ => bodyOwnLoops inAsync body
  | .cases cs _ => caseOwnLoops inAsync cs

theorem tryCatch_ownLoops (inAsync : Bool) (block : List Stmt) (handler : Option Catch)
    (finalizer : Option (List Stmt)) (onThrow onExit : Option Nat) :
    (Stmt.tryCatch block handler finalizer).ownLoops inAsync = bodyOwnLoops inAsync block +
      (Part.handler handler onThrow).ownLoops inAsync +
      (Part.finalizer finalizer onExit).ownLoops inAsync := by
  match handler, finalizer with
  | none, none | none, some _ | some (.mk _ _), none | some (.mk _ _), some _ =>
    simp [Stmt.ownLoops]

theorem runsWhole_of_laid {around : Surroundings} {base next : Nat} {labels : List String}
    {init : ForInit} {test update : Option Expr} {body : Stmt} {f : Fragment}
    (hs : (Stmt.forLoop init test update body).hasSuspend around.inAsync = true)
    (hscoped : init.isScoped = true)
    (h : Laid around base next (.headLoop labels true init test update body) f) :
    (Stmt.forLoop init test update body).runsWhole around.inAsync = false := by
  have hinit : init.hasSuspend around.inAsync = false := by
    cases h with
    | headLoop _ _ _ _ hi =>
      cases hi with
      | declare h => exact h
      | _ => cases hscoped
  simp only [Stmt.hasSuspend, hinit, Bool.false_or] at hs
  simp only [Stmt.runsWhole, ← Bool.not_or, hs, Bool.not_true]

theorem Laid.copies {around : Surroundings} {base next : Nat} {part : Part} {f : Fragment}
    (h : Laid around base next part f) : countCopies f.code = part.ownLoops around.inAsync := by
  induction h with
  | leaf hs _ => exact (leaf_copies _).trans (ownLoops_of_plain _ hs).symm
  | labeled _ _ ih | blockStmt _ _ ih | alternative _ ih | forIn _ _ ih | forOf _ _ ih => exact ih
  | enclosed _ _ _ _ ih => simpa [Fragment.enclose, Instr.isCopy] using ih
  | expr _ he => exact he.copies
  | @ifElse _ _ _ _ _ no _ _ _ _ _ _ ht ihn ihy =>
    cases no <;> simp_all [Part.ownLoops, Stmt.ownLoops, ht.copies, Nat.add_comm]
  | whileDo _ _ ht ih | doWhile _ _ ht ih =>
    simp_all [Fragment.testLoop, Part.ownLoops, Stmt.ownLoops, Instr.isCopy, ht.copies]
  | forPlain _ hscoped _ ih =>
    simpa [Stmt.ownLoops, hscoped] using ih
  | forScoped hs hscoped hlaid ih =>
    have hw := runsWhole_of_laid hs hscoped hlaid
    simpa [Fragment.inScope, Stmt.ownLoops, hscoped, hw, Instr.isCopy] using ih
  | @headLoop _ _ _ _ ownScope _ _ _ _ _ _ _ _ _ hu hc _ ht hi ih =>
    subst hc
    cases ownScope <;> simp_all [Fragment.headLoop, Fragment.step, Fragment.close, Part.ownLoops,
      Instr.isCopy, hu.copies, ht.copies, hi.copies, Nat.add_comm]
  | iteration _ ih => simpa [Fragment.iteration, Instr.isCopy] using ih
  | @tryCatch around _ _ block handler finalizer onThrow onExit _ _ b _ _ _ _ ihf ihh ihb =>
    have hb : countCopies b.code = bodyOwnLoops around.inAsync block := ihb
    refine Eq.trans ?_ (tryCatch_ownLoops _ block handler finalizer onThrow onExit).symm
    rw [← ihf, ← ihh, ← hb]
    simp [Fragment.protect, Instr.isCopy]
    omega
  | switch _ _ ih =>
    simp_all [Fragment.switch, Part.ownLoops, Stmt.ownLoops, Instr.isCopy, buildTests_copies]
  | block _ ih => simpa [Fragment.inScope, Instr.isCopy] using ih
  | noAlternative | noFinalizer | noHandler | nil | noCase => rfl
  | finalizer _ ih | handler _ ih => simpa [Instr.isCopy] using ih
  | cons _ _ ih ih' => simp_all [Part.ownLoops, bodyOwnLoops, Nat.add_comm]
  | case _ _ ih ih' => simp_all [Part.ownLoops, caseOwnLoops, Nat.add_comm]

/-- A plan has a loop with bindings of its own for each one of its body that suspends anywhere after its
initializer. -/
theorem buildPlan_copies {inAsync : Bool} {params : List Pattern} {body : List Stmt} {plan : Plan}
    (h : buildPlan inAsync params body = .ok plan) :
    countCopies plan.code = bodyOwnLoops inAsync body := by
  obtain ⟨lowered, f, hl, hlaid, hcode, -⟩ := buildPlan_laid h
  have hloops : bodyOwnLoops inAsync lowered.body = bodyOwnLoops inAsync body := by
    rw [lowerBody] at hl
    split at hl
    · rename_i hr
      cases hl
      exact lowerStmts_ownLoops inAsync body _ _ _ hr
    · cases hl
  simpa [hcode, Instr.isCopy, hloops] using hlaid.copies

end Resumable
